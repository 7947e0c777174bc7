import HighPerfTrading.Engine.OrderBook
import HighPerfTrading.Library.MachineInt

/-! What can be observed of a book without slab keys: the cached total and the live orders
of every level, and the live order behind every id. Each operation has one lemma that says
what it does to this view. -/
namespace HighPerfTrading
namespace OrderBook
variable {S : Type}

@[simp] theorem levels_setLevels (b : OrderBook S) (s t : Side) (m : OrdMap Price Level) :
    (b.setLevels s m).levels t = if s = t then m else b.levels t := by cases s <;> cases t <;> rfl
@[simp] theorem setLevels_orders (b : OrderBook S) (s : Side) (m : OrdMap Price Level) :
    (b.setLevels s m).orders = b.orders := by cases s <;> rfl
@[simp] theorem setLevels_index (b : OrderBook S) (s : Side) (m : OrdMap Price Level) :
    (b.setLevels s m).index = b.index := by cases s <;> rfl
@[simp] theorem setLevels_symbolId (b : OrderBook S) (s : Side) (m : OrdMap Price Level) :
    (b.setLevels s m).symbolId = b.symbolId := by cases s <;> rfl
@[simp] theorem levels_store (b : OrderBook S) (o : S) (i : OrdMap OrderId ℕ) (s : Side) :
    ({ b with orders := o, index := i } : OrderBook S).levels s = b.levels s := by cases s <;> rfl

variable [Slab S Order] {b : OrderBook S}

@[simp] theorem levels_new (sym : SymbolId) (s : Side) :
    (new sym : OrderBook S).levels s = ∅ := by cases s <;> rfl

/-- The order under a key, when it still has quantity. -/
def liveAt (orders : S) (k : ℕ) : Option Order :=
  (Slab.get orders k).filter fun o => decide (0 < o.qtyRem)

/-- The live orders of a queue, oldest first. -/
def liveQueue (orders : S) (q : List ℕ) : List Order := q.filterMap (liveAt orders)

def levelView (b : OrderBook S) (s : Side) (p : Price) : Option (Qty × List Order) :=
  ((b.levels s)[p]?).map fun lvl => (lvl.totalQty,liveQueue b.orders lvl.queue)

/-- Queued keys are occupied slots of their own side and price, and queued once. -/
structure Queues (b : OrderBook S) : Prop where
  queued : ∀ {s : Side} {p : Price} {lvl : Level}, (b.levels s)[p]? = some lvl →
    ∀ k ∈ lvl.queue, ∃ o, Slab.get b.orders k = some o ∧ o.side = s ∧ o.price = p
  nodup : ∀ {s : Side} {p : Price} {lvl : Level}, (b.levels s)[p]? = some lvl → lvl.queue.Nodup

/-- Bookkeeping that survives every operation, whatever the totals do: queued keys are
occupied slots of their own side and price, and the index finds exactly the live orders. -/
structure Wf (b : OrderBook S) : Prop extends Queues b where
  indexed : ∀ {id : OrderId} {k : ℕ}, b.index[id]? = some k ↔
    ∃ o, liveAt b.orders k = some o ∧ o.orderId = id

theorem liveAt_eq_some {orders : S} {k : ℕ} {o : Order} :
    liveAt orders k = some o ↔ Slab.get orders k = some o ∧ 0 < o.qtyRem := by
  simp [liveAt,Option.filter_eq_some_iff]

theorem mem_liveQueue {orders : S} {q : List ℕ} {o : Order} :
    o ∈ liveQueue orders q ↔ ∃ k ∈ q, liveAt orders k = some o := by
  simp [liveQueue]

theorem liveQueue_congr {orders orders' : S} {q : List ℕ}
    (h : ∀ k ∈ q, liveAt orders k = liveAt orders' k) : liveQueue orders q = liveQueue orders' q :=
  List.filterMap_congr h

@[simp] theorem liveQueue_append (orders : S) (q r : List ℕ) :
    liveQueue orders (q ++ r) = liveQueue orders q ++ liveQueue orders r := by simp [liveQueue]

@[simp] theorem liveQueue_nil (orders : S) : liveQueue orders [] = [] := rfl

theorem liveQueue_cons (orders : S) (k : ℕ) (q : List ℕ) :
    liveQueue orders (k::q) = (liveAt orders k).toList ++ liveQueue orders q := by
  cases h : liveAt orders k <;> simp [liveQueue,h]

theorem levelView_eq_none {s : Side} {p : Price} :
    levelView b s p = none ↔ (b.levels s)[p]? = none := by simp [levelView]

theorem get_eq_some {id : OrderId} {o : Order} :
    b.get id = some o ↔ ∃ k, b.index[id]? = some k ∧ Slab.get b.orders k = some o := by
  unfold get
  cases b.index[id]? <;> simp

namespace Wf

theorem index_live (hb : Wf b) {id : OrderId} {k : ℕ} (h : b.index[id]? = some k) :
    ∃ o, Slab.get b.orders k = some o ∧ 0 < o.qtyRem ∧ o.orderId = id := by
  obtain ⟨o,ho,hid⟩ := hb.indexed.mp h
  exact ⟨o,(liveAt_eq_some.mp ho).1,(liveAt_eq_some.mp ho).2,hid⟩

theorem get_iff (hb : Wf b) {id : OrderId} {o : Order} :
    b.get id = some o ↔ ∃ k, liveAt b.orders k = some o ∧ o.orderId = id := by
  rw [get_eq_some]
  constructor
  · rintro ⟨k,hk,ho⟩
    obtain ⟨o',ho',hq,hid⟩ := hb.index_live hk
    obtain rfl := Option.some.inj (ho.symm.trans ho')
    exact ⟨k,liveAt_eq_some.mpr ⟨ho,hq⟩,hid⟩
  · rintro ⟨k,ho,hid⟩
    exact ⟨k,hb.indexed.mpr ⟨o,ho,hid⟩,(liveAt_eq_some.mp ho).1⟩

theorem get_live (hb : Wf b) {id : OrderId} {o : Order} (h : b.get id = some o) :
    o.orderId = id ∧ 0 < o.qtyRem := by
  obtain ⟨k,ho,hid⟩ := hb.get_iff.mp h
  exact ⟨hid,(liveAt_eq_some.mp ho).2⟩

theorem get_eq_none (hb : Wf b) {id : OrderId} : b.get id = none ↔ b.index[id]? = none := by
  unfold get
  cases h : b.index[id]? with
  | none => simp
  | some k =>
    obtain ⟨o,ho,_⟩ := hb.index_live h
    simp [ho]

/-- Live orders with one id sit under one key. -/
theorem key_unique (hb : Wf b) {k j : ℕ} {o o' : Order} (hk : liveAt b.orders k = some o)
    (hj : liveAt b.orders j = some o') (hid : o.orderId = o'.orderId) : k = j :=
  Option.some.inj ((hb.indexed.mpr ⟨o,hk,hid⟩).symm.trans (hb.indexed.mpr ⟨o',hj,rfl⟩))

/-- Every order of a level is the live order of its id, on the level's side and price. -/
theorem level_orders (hb : Wf b) {s : Side} {p : Price} {t : Qty} {os : List Order}
    (h : levelView b s p = some (t,os)) {o : Order} (ho : o ∈ os) :
    b.get o.orderId = some o ∧ o.side = s ∧ o.price = p := by
  obtain ⟨lvl,hl,hv⟩ := Option.map_eq_some_iff.mp h
  cases hv
  obtain ⟨k,hk,hlive⟩ := mem_liveQueue.mp ho
  obtain ⟨o',ho',hs,hp⟩ := hb.queued hl k hk
  obtain rfl := Option.some.inj (ho'.symm.trans (liveAt_eq_some.mp hlive).1)
  exact ⟨hb.get_iff.mpr ⟨k,hlive,rfl⟩,hs,hp⟩

theorem new (sym : SymbolId) : Wf (OrderBook.new sym : OrderBook S) where
  queued := by simp
  nodup := by simp
  indexed := by simp [OrderBook.new,liveAt]

end Wf

/-! ### Resting an order -/

theorem liveAt_insert {orders : S} {o : Order} (ho : 0 < o.qtyRem) (k : ℕ) :
    liveAt (Slab.insert orders o) k =
      if k = Slab.vacantKey orders then some o else liveAt orders k := by
  unfold liveAt
  rw [Slab.get_insert]
  split_ifs <;> simp [ho]

theorem level_insertResting (b : OrderBook S) (o : Order) (s : Side) (p : Price) :
    ((b.insertResting o).levels s)[p]? =
      if s = o.side ∧ p = o.price then
        some ⟨(((b.levels s)[p]?).getD Level.new).queue ++ [Slab.vacantKey b.orders],
          (((b.levels s)[p]?).getD Level.new).totalQty+o.qtyRem⟩
      else (b.levels s)[p]? := by
  simp only [insertResting,levels_setLevels,levels_store]
  by_cases hs : o.side = s
  · subst hs
    by_cases hp : o.price = p
    · subst hp; simp
    · simp [hp,Ne.symm hp]
  · simp [hs,Ne.symm hs]

@[simp] theorem insertResting_orders (b : OrderBook S) (o : Order) :
    (b.insertResting o).orders = Slab.insert b.orders o := by simp [insertResting]

@[simp] theorem insertResting_index (b : OrderBook S) (o : Order) :
    (b.insertResting o).index = b.index.insert o.orderId (Slab.vacantKey b.orders) := by
  simp [insertResting]

/-- Resting an order appends it to its level and files it under its id. -/
theorem Queues.levelView_insertResting (hb : Queues b) {o : Order} (ho : 0 < o.qtyRem) (s : Side) (p : Price) :
    levelView (b.insertResting o) s p =
      if s = o.side ∧ p = o.price then
        some (((levelView b s p).getD (0,[])).1+o.qtyRem,((levelView b s p).getD (0,[])).2 ++ [o])
      else levelView b s p := by
  have hold : ∀ {lvl : Level}, (b.levels s)[p]? = some lvl →
      liveQueue (Slab.insert b.orders o) lvl.queue = liveQueue b.orders lvl.queue := by
    intro lvl hl
    refine liveQueue_congr fun k hk => ?_
    obtain ⟨o',ho',_⟩ := hb.queued hl k hk
    rw [liveAt_insert ho,if_neg (Slab.ne_vacantKey ho')]
  have hkey : liveQueue (Slab.insert b.orders o) [Slab.vacantKey b.orders] = [o] := by
    rw [liveQueue_cons,liveAt_insert ho,if_pos rfl]; rfl
  unfold levelView
  rw [level_insertResting,insertResting_orders]
  split_ifs
  · cases hl : (b.levels s)[p]? with
    | none => simp [Level.new,hkey]
    | some lvl => simp [hkey,hold hl]
  · cases hl : (b.levels s)[p]? with
    | none => rfl
    | some lvl => simp [hold hl]

theorem levelView_insertResting (hb : Wf b) {o : Order} (ho : 0 < o.qtyRem) (s : Side) (p : Price) :
    levelView (b.insertResting o) s p =
      if s = o.side ∧ p = o.price then
        some (((levelView b s p).getD (0,[])).1+o.qtyRem,((levelView b s p).getD (0,[])).2 ++ [o])
      else levelView b s p :=
  hb.toQueues.levelView_insertResting ho s p

theorem Queues.insertResting (hb : Queues b) (o : Order) : Queues (b.insertResting o) := by
  refine ⟨?_,?_⟩
  · intro s p lvl hl k hk
    have hold : ∀ {lvl' : Level}, (b.levels s)[p]? = some lvl' → k ∈ lvl'.queue →
        ∃ o', Slab.get (b.insertResting o).orders k = some o' ∧ o'.side = s ∧ o'.price = p := by
      intro lvl' hl' hk'
      obtain ⟨o',ho',h⟩ := hb.queued hl' k hk'
      exact ⟨o',by rw [insertResting_orders,Slab.get_insert,if_neg (Slab.ne_vacantKey ho'),ho'],h⟩
    rw [level_insertResting] at hl
    split_ifs at hl with h
    · cases hl
      rw [List.mem_append,List.mem_singleton] at hk
      rcases hk with hk | rfl
      · cases hl' : (b.levels s)[p]? with
        | none => simp [hl',Level.new] at hk
        | some lvl' => exact hold hl' (by simpa [hl'] using hk)
      · exact ⟨o,by simp,h.1.symm,h.2.symm⟩
    · exact hold hl hk
  · intro s p lvl hl
    rw [level_insertResting] at hl
    split_ifs at hl with h
    · cases hl
      cases hl' : (b.levels s)[p]? with
      | none => simp [Level.new]
      | some lvl' =>
        refine List.Nodup.append (hb.nodup hl') (List.nodup_singleton _) ?_
        rw [List.disjoint_singleton]
        intro hk
        obtain ⟨o',ho',_⟩ := hb.queued hl' _ hk
        exact Slab.ne_vacantKey ho' rfl
    · exact hb.nodup hl

theorem Wf.insertResting (hb : Wf b) {o : Order} (ho : 0 < o.qtyRem)
    (hid : b.get o.orderId = none) : Wf (b.insertResting o) := by
  refine ⟨hb.toQueues.insertResting o,?_⟩
  · intro id k
    rw [insertResting_index,insertResting_orders,OrdMap.get_insert,liveAt_insert ho]
    have hn := hb.get_eq_none.mp hid
    have hvac : liveAt b.orders (Slab.vacantKey b.orders) = none := by simp [liveAt]
    by_cases hk : k = Slab.vacantKey b.orders
    · subst hk
      by_cases hi : o.orderId = id
      · simp [hi]
      · simp [hi,hb.indexed,hvac]
    · rw [if_neg hk]
      split_ifs with hi
      · subst hi
        rw [← hb.indexed,hn]
        simp [Ne.symm hk]
      · exact hb.indexed

theorem get_insertResting (hb : Wf b) {o : Order} (ho : 0 < o.qtyRem)
    (hid : b.get o.orderId = none) (id : OrderId) :
    (b.insertResting o).get id = if id = o.orderId then some o else b.get id := by
  have hb' := hb.insertResting ho hid
  split_ifs with h
  · subst h
    refine hb'.get_iff.mpr ⟨Slab.vacantKey b.orders,?_,rfl⟩
    simp [liveAt_insert ho]
  · simp only [get,insertResting_index,insertResting_orders,OrdMap.get_insert,if_neg (Ne.symm h),
      Slab.get_insert]
    cases hi : b.index[id]? with
    | none => rfl
    | some k =>
      obtain ⟨o',ho',_⟩ := hb.index_live hi
      simp [Slab.ne_vacantKey ho']

/-! ### Cancelling -/

theorem cancel_refused {id : OrderId} {acct : AccountId}
    (h : ∀ o, b.get id = some o → o.accountId ≠ acct) : b.cancel id acct = (b,false) := by
  cases hk : b.index[id]? with
  | none => simp [cancel,hk]
  | some k =>
    cases ho : Slab.get b.orders k with
    | none => simp [cancel,hk,ho]
    | some o =>
      have hne := h o (get_eq_some.mpr ⟨k,hk,ho⟩)
      simp [cancel,hk,ho,hne]

theorem replace_refused {id : OrderId} {acct : AccountId} {px : Price} {qty : Qty}
    (h : ∀ o, b.get id = some o → o.accountId ≠ acct) : b.replace id acct px qty = (b,false) := by
  cases ho : b.get id with
  | none => simp [replace,ho]
  | some o => simp [replace,ho,h o ho]

theorem replace_accepted {id : OrderId} {o : Order} (ho : b.get id = some o) (px : Price) (qty : Qty) :
    b.replace id o.accountId px qty =
      ((b.cancel id o.accountId).1.insertResting { o with price := px, qtyRem := qty },true) := by
  simp [replace,ho]

/-- Either an order is live under the id and owned by the account, or none is. -/
theorem owned_or_refused (b : OrderBook S) (id : OrderId) (acct : AccountId) :
    (∃ o, b.get id = some o ∧ o.accountId = acct) ∨ ∀ o, b.get id = some o → o.accountId ≠ acct := by
  by_cases h : ∃ o, b.get id = some o ∧ o.accountId = acct
  · exact Or.inl h
  · exact Or.inr fun o ho ha => h ⟨o,ho,ha⟩

theorem symbolId_cancel (b : OrderBook S) (id : OrderId) (acct : AccountId) :
    (b.cancel id acct).1.symbolId = b.symbolId := by
  rcases owned_or_refused b id acct with ⟨o,ho,rfl⟩ | hno
  · obtain ⟨k,hk,hg⟩ := get_eq_some.mp ho
    simp [cancel,hk,hg]
  · rw [cancel_refused hno]

section Cancelled
variable {id : OrderId} {o : Order}

theorem cancel_accepted (ho : b.get id = some o) : (b.cancel id o.accountId).2 = true := by
  obtain ⟨k,hk,hg⟩ := get_eq_some.mp ho
  simp [cancel,hk,hg]

theorem cancel_index (ho : b.get id = some o) :
    (b.cancel id o.accountId).1.index = b.index.erase id := by
  obtain ⟨k,hk,hg⟩ := get_eq_some.mp ho
  simp [cancel,hk,hg]

theorem cancel_orders {k : ℕ} (hk : b.index[id]? = some k) (hg : Slab.get b.orders k = some o) :
    (b.cancel id o.accountId).1.orders = Slab.set b.orders k { o with qtyRem := 0 } := by
  simp [cancel,hk,hg]

/-- The slots after a cancel: the order's own holds it marked dead. -/
theorem slot_cancel {k : ℕ} (hk : b.index[id]? = some k) (hg : Slab.get b.orders k = some o) (j : ℕ) :
    Slab.get (b.cancel id o.accountId).1.orders j =
      if j = k then some { o with qtyRem := 0 } else Slab.get b.orders j := by
  rw [cancel_orders hk hg,Slab.get_set,hg]
  rfl

theorem level_cancel (ho : b.get id = some o) (s : Side) (p : Price) :
    ((b.cancel id o.accountId).1.levels s)[p]? =
      if s = o.side ∧ p = o.price then
        ((b.levels s)[p]?).bind fun lvl =>
          if lvl.totalQty-o.qtyRem ≤ 0 then none
          else some ⟨lvl.queue,lvl.totalQty-o.qtyRem⟩
      else (b.levels s)[p]? := by
  obtain ⟨k,hk,hg⟩ := get_eq_some.mp ho
  simp only [cancel,hk,hg,ne_eq,not_true,if_false,levels_setLevels,levels_store]
  by_cases hs : o.side = s
  · subst hs
    cases hl : (b.levels o.side)[o.price]? with
    | none =>
      by_cases hp : p = o.price
      · subst hp; simp [hl]
      · simp [hp]
    | some lvl =>
      by_cases hp : p = o.price
      · subst hp
        simp only [if_true,and_self,hl,Option.bind_some]
        split_ifs <;> simp
      · simp only [if_true,true_and,hp,if_false]
        split_ifs <;> simp [Ne.symm hp]
  · simp [hs,Ne.symm hs]

theorem liveAt_cancel {k : ℕ} (hk : b.index[id]? = some k) (hg : Slab.get b.orders k = some o) (j : ℕ) :
    liveAt (b.cancel id o.accountId).1.orders j = if j = k then none else liveAt b.orders j := by
  unfold liveAt
  rw [slot_cancel hk hg]
  split_ifs with h
  · rfl
  · rfl

/-- Marking one order dead takes it, and no other, out of a queue's live orders. -/
theorem liveQueue_cancel (hb : Wf b) {k : ℕ} (hk : b.index[id]? = some k)
    (hg : Slab.get b.orders k = some o) (q : List ℕ) :
    liveQueue (b.cancel id o.accountId).1.orders q =
      (liveQueue b.orders q).filter fun x => decide (x.orderId ≠ id) := by
  obtain ⟨o',ho',hq,hid⟩ := hb.index_live hk
  obtain rfl := Option.some.inj (hg.symm.trans ho')
  have hlive := liveAt_eq_some.mpr ⟨hg,hq⟩
  induction q with
  | nil => rfl
  | cons j q ih =>
    rw [liveQueue_cons,liveQueue_cons,List.filter_append,ih,liveAt_cancel hk hg]
    congr 1
    split_ifs with hj
    · subst hj
      simp [hlive,hid]
    · cases hx : liveAt b.orders j with
      | none => rfl
      | some x =>
        have hne : x.orderId ≠ id := fun he => hj (hb.key_unique hx hlive (he.trans hid.symm))
        simp [hne]

/-- A cancelled order leaves its level, and the level goes with its last lot. -/
theorem levelView_cancel (hb : Wf b) (ho : b.get id = some o) (s : Side) (p : Price) :
    levelView (b.cancel id o.accountId).1 s p =
      if s = o.side ∧ p = o.price then
        (levelView b s p).bind fun v =>
          if v.1-o.qtyRem ≤ 0 then none
          else some (v.1-o.qtyRem,v.2.filter fun x => decide (x.orderId ≠ id))
      else levelView b s p := by
  obtain ⟨k,hk,hg⟩ := get_eq_some.mp ho
  obtain ⟨o',ho',_,hid⟩ := hb.index_live hk
  obtain rfl := Option.some.inj (hg.symm.trans ho')
  unfold levelView
  rw [level_cancel ho]
  cases hl : (b.levels s)[p]? with
  | none => simp
  | some lvl =>
    split_ifs with h
    · simp only [Option.bind_some,Option.map_some]
      split_ifs <;> simp [liveQueue_cancel hb hk hg]
    · simp only [Option.map_some,liveQueue_cancel hb hk hg]
      congr 2
      refine List.filter_eq_self.mpr fun x hx => ?_
      have hv : levelView b s p = some (lvl.totalQty,liveQueue b.orders lvl.queue) := by
        simp [levelView,hl]
      obtain ⟨hgx,hs,hp⟩ := hb.level_orders hv hx
      refine decide_eq_true fun he => h ?_
      rw [he,ho] at hgx
      obtain rfl := Option.some.inj hgx
      exact ⟨hs.symm,hp.symm⟩

theorem Queues.cancel (hb : Queues b) (ho : b.get id = some o) : Queues (b.cancel id o.accountId).1 := by
  obtain ⟨k,hk,hg⟩ := get_eq_some.mp ho
  have hlevel : ∀ {s : Side} {p : Price} {lvl : Level},
      ((b.cancel id o.accountId).1.levels s)[p]? = some lvl →
      ∃ lvl', (b.levels s)[p]? = some lvl' ∧ lvl'.queue = lvl.queue := by
    intro s p lvl hl
    rw [level_cancel ho] at hl
    split_ifs at hl with h
    · obtain ⟨lvl',hl',he⟩ := Option.bind_eq_some_iff.mp hl
      split_ifs at he
      cases he
      exact ⟨lvl',hl',rfl⟩
    · exact ⟨lvl,hl,rfl⟩
  refine ⟨?_,?_⟩
  · intro s p lvl hl j hj
    obtain ⟨lvl',hl',hq⟩ := hlevel hl
    obtain ⟨x,hx,h⟩ := hb.queued hl' j (hq ▸ hj)
    rw [slot_cancel hk hg]
    split_ifs with he
    · subst he
      obtain rfl := Option.some.inj (hg.symm.trans hx)
      exact ⟨{ o with qtyRem := 0 },rfl,h⟩
    · exact ⟨x,hx,h⟩
  · intro s p lvl hl
    obtain ⟨lvl',hl',hq⟩ := hlevel hl
    exact hq ▸ hb.nodup hl'

theorem Wf.cancel (hb : Wf b) (ho : b.get id = some o) : Wf (b.cancel id o.accountId).1 := by
  obtain ⟨k,hk,hg⟩ := get_eq_some.mp ho
  refine ⟨hb.toQueues.cancel ho,?_⟩
  · intro i j
    rw [cancel_index ho,OrdMap.get_erase,liveAt_cancel hk hg]
    obtain ⟨o',ho',hq,hid⟩ := hb.index_live hk
    obtain rfl := Option.some.inj (hg.symm.trans ho')
    by_cases hj : j = k
    · subst hj
      by_cases hi : id = i
      · simp [hi]
      · rw [if_neg hi,hb.indexed,liveAt_eq_some.mpr ⟨hg,hq⟩]
        simp [hid,hi]
    · rw [if_neg hj]
      split_ifs with hi
      · subst hi
        simp only [false_iff,not_exists,not_and]
        intro x hx he
        exact hj (hb.key_unique hx (liveAt_eq_some.mpr ⟨hg,hq⟩) (he.trans hid.symm))
      · exact hb.indexed

theorem get_cancel (hb : Wf b) (ho : b.get id = some o) (i : OrderId) :
    (b.cancel id o.accountId).1.get i = if i = id then none else b.get i := by
  obtain ⟨k,hk,hg⟩ := get_eq_some.mp ho
  split_ifs with hi
  · simp [get,cancel_index ho,hi]
  · simp only [get,cancel_index ho,OrdMap.get_erase,if_neg (Ne.symm hi)]
    cases hj : b.index[i]? with
    | none => rfl
    | some j =>
      have hne : j ≠ k := by
        rintro rfl
        obtain ⟨x,hx,_,hxi⟩ := hb.index_live hj
        obtain ⟨y,hy,_,hyi⟩ := hb.index_live hk
        obtain rfl := Option.some.inj (hx.symm.trans hy)
        exact hi (hxi.symm.trans hyi)
      simp [slot_cancel hk hg,hne]

end Cancelled

end OrderBook
end HighPerfTrading
