import HighPerfTrading.Engine.BookMatch
import Mathlib.Algebra.Order.BigOperators.Group.List
import Mathlib.Data.List.Perm.Subperm

/-! The accounting invariant of the book: every live order waits in its level, and a level's
cached total is the exact sum of its live quantities. Resting an order keeps it as long as
the live quantities sum below `2^63`; the other operations always do. Unique ids are not needed
for this. -/
namespace HighPerfTrading
namespace OrderBook
variable {S : Type} [Slab S Order] {b : OrderBook S}

def sumQty (os : List Order) : ℤ := (os.map fun o => o.qtyRem.toInt).sum

/-- All live quantity of the book. -/
def liveQty (b : OrderBook S) : ℤ := sumQty b.liveOrders

@[simp] theorem sumQty_nil : sumQty [] = 0 := rfl
@[simp] theorem sumQty_cons (o : Order) (os : List Order) :
    sumQty (o::os) = o.qtyRem.toInt+sumQty os := by simp [sumQty]
@[simp] theorem sumQty_append (os rs : List Order) : sumQty (os ++ rs) = sumQty os+sumQty rs := by
  simp [sumQty]

theorem sumQty_nonneg {os : List Order} (h : ∀ o ∈ os, 0 < o.qtyRem) : 0 ≤ sumQty os := by
  refine List.sum_nonneg fun x hx => ?_
  obtain ⟨o,ho,rfl⟩ := List.mem_map.mp hx
  exact (Int64.pos_iff_toInt.mp (h o ho)).le

theorem sumQty_pos {os : List Order} (h : ∀ o ∈ os, 0 < o.qtyRem) (hne : os ≠ []) : 0 < sumQty os := by
  cases os with
  | nil => exact absurd rfl hne
  | cons o os =>
    have h1 := Int64.pos_iff_toInt.mp (h o (List.mem_cons_self ..))
    have h2 := sumQty_nonneg fun x hx => h x (List.mem_cons_of_mem _ hx)
    rw [sumQty_cons]
    omega

/-- Distinct elements of a list sum to at most the whole list when nothing is negative. -/
theorem sum_le_of_subset {α : Type} {f : α → ℤ} {xs ys : List α} (hn : xs.Nodup) (hs : xs ⊆ ys)
    (hf : ∀ y ∈ ys, 0 ≤ f y) : (xs.map f).sum ≤ (ys.map f).sum := by
  obtain ⟨l,hp,hl⟩ := List.subperm_of_subset hn hs
  obtain ⟨k,hk⟩ := hl.exists_perm_append
  have h1 : (l.map f).sum = (xs.map f).sum := (hp.map f).sum_eq
  have h2 : (ys.map f).sum = (l.map f).sum+(k.map f).sum := by
    rw [(hk.map f).sum_eq,List.map_append,List.sum_append]
  have h3 : 0 ≤ (k.map f).sum := by
    refine List.sum_nonneg fun x hx => ?_
    obtain ⟨y,hy,rfl⟩ := List.mem_map.mp hx
    exact hf y (hk.mem_iff.mpr (List.mem_append_right _ hy))
  omega

/-- Taking out one of several orders with distinct ids takes out its quantity. -/
theorem sumQty_filter {o : Order} {os : List Order} (ho : o ∈ os)
    (hn : os.Pairwise fun x y => x.orderId ≠ y.orderId) :
    sumQty (os.filter fun x => decide (x.orderId ≠ o.orderId)) = sumQty os-o.qtyRem.toInt := by
  induction os with
  | nil => cases ho
  | cons x os ih =>
    obtain ⟨hx,hn⟩ := List.pairwise_cons.mp hn
    rcases List.mem_cons.mp ho with rfl | ho
    · have hall : os.filter (fun x => decide (x.orderId ≠ o.orderId)) = os :=
        List.filter_eq_self.mpr fun y hy => decide_eq_true (Ne.symm (hx y hy))
      rw [List.filter_cons_of_neg (by simp),hall,sumQty_cons]
      omega
    · have hkeep : (x::os).filter (fun x => decide (x.orderId ≠ o.orderId)) =
          x::os.filter fun x => decide (x.orderId ≠ o.orderId) :=
        List.filter_cons_of_pos (decide_eq_true (hx o ho))
      rw [hkeep,sumQty_cons,sumQty_cons,ih ho hn]
      omega

theorem mem_le_sumQty {o : Order} {os : List Order} (ho : o ∈ os) (hpos : ∀ o ∈ os, 0 < o.qtyRem) :
    o.qtyRem.toInt ≤ sumQty os := by
  induction os with
  | nil => cases ho
  | cons x os ih =>
    have h1 := Int64.pos_iff_toInt.mp (hpos x (List.mem_cons_self ..))
    have hpos' := fun y hy => hpos y (List.mem_cons_of_mem x hy)
    have h2 := sumQty_nonneg hpos'
    rw [sumQty_cons]
    rcases List.mem_cons.mp ho with rfl | ho
    · omega
    · have := ih ho hpos'
      omega

/-- A sum of positive quantities that fits does not wrap. -/
theorem toInt_sum {os : List Order} (hpos : ∀ o ∈ os, 0 < o.qtyRem) (hlt : sumQty os < 2^63) :
    ((os.map Order.qtyRem).sum).toInt = sumQty os := by
  induction os with
  | nil => rfl
  | cons o os ih =>
    have h1 := Int64.pos_iff_toInt.mp (hpos o (List.mem_cons_self ..))
    have hpos' := fun x hx => hpos x (List.mem_cons_of_mem o hx)
    have h2 := sumQty_nonneg hpos'
    rw [sumQty_cons] at hlt ⊢
    have hs := ih hpos' (by omega)
    rw [List.map_cons,List.sum_cons,Int64.toInt_add_of_range (by omega) (by omega),hs]

theorem mem_liveOrders {o : Order} : o ∈ b.liveOrders ↔ ∃ k, liveAt b.orders k = some o := by
  simp only [liveOrders,List.mem_filter,List.mem_map,decide_eq_true_eq,liveAt_eq_some]
  constructor
  · rintro ⟨⟨e,he,rfl⟩,hq⟩
    exact ⟨e.1,(Slab.mem_iter _ _ _).mp he,hq⟩
  · rintro ⟨k,hk,hq⟩
    exact ⟨⟨(k,o),(Slab.mem_iter _ _ _).mpr hk,rfl⟩,hq⟩

theorem liveOrders_pos : ∀ o ∈ b.liveOrders, 0 < o.qtyRem := by
  intro o ho
  obtain ⟨k,hk⟩ := mem_liveOrders.mp ho
  exact (liveAt_eq_some.mp hk).2

namespace Wf

/-- No two live orders of a level share an id. -/
theorem level_ids (hb : Wf b) {s : Side} {p : Price} {t : Qty} {os : List Order}
    (h : levelView b s p = some (t,os)) : os.Pairwise fun x y => x.orderId ≠ y.orderId := by
  obtain ⟨lvl,hl,hv⟩ := Option.map_eq_some_iff.mp h
  cases hv
  refine List.pairwise_filterMap.mpr ((hb.nodup hl).imp ?_)
  intro k j hkj x hx y hy hid
  exact hkj (hb.key_unique hx hy hid)

end Wf

/-! ### Quantities by slab key -/

/-- The live quantity under a key. -/
def keyQty (orders : S) (k : ℕ) : ℤ := (liveAt orders k).elim 0 fun o => o.qtyRem.toInt

theorem keyQty_nonneg (orders : S) (k : ℕ) : 0 ≤ keyQty orders k := by
  unfold keyQty
  cases h : liveAt orders k with
  | none => exact Int.le_refl 0
  | some o => exact (Int64.pos_iff_toInt.mp (liveAt_eq_some.mp h).2).le

theorem sumQty_liveQueue (orders : S) (q : List ℕ) :
    sumQty (liveQueue orders q) = (q.map (keyQty orders)).sum := by
  induction q with
  | nil => rfl
  | cons k q ih =>
    rw [liveQueue_cons,sumQty_append,ih,List.map_cons,List.sum_cons]
    cases h : liveAt orders k <;> simp [keyQty,h]

theorem keyQty_le (orders : S) {q : List ℕ} {k : ℕ} (hk : k ∈ q) :
    keyQty orders k ≤ sumQty (liveQueue orders q) := by
  rw [sumQty_liveQueue]
  have h := sum_le_of_subset (f := keyQty orders) (List.nodup_singleton k)
    (List.cons_subset.mpr ⟨hk,List.nil_subset _⟩) fun j _ => keyQty_nonneg orders j
  simpa using h

/-- A queue that changes under one of its keys changes by that key's quantity. -/
theorem sumQty_change {orders orders' : S} {q : List ℕ} {k : ℕ} (hn : q.Nodup) (hk : k ∈ q)
    (h : ∀ j, j ≠ k → liveAt orders' j = liveAt orders j) :
    sumQty (liveQueue orders' q) = sumQty (liveQueue orders q)-keyQty orders k+keyQty orders' k := by
  induction q with
  | nil => cases hk
  | cons j q ih =>
    obtain ⟨hj,hn⟩ := List.nodup_cons.mp hn
    simp only [sumQty_liveQueue,List.map_cons,List.sum_cons] at ih ⊢
    rcases List.mem_cons.mp hk with rfl | hk
    · have hrest : q.map (keyQty orders') = q.map (keyQty orders) := by
        refine List.map_congr_left fun i hi => ?_
        rw [keyQty,h i (fun he => hj (he ▸ hi)),keyQty]
      rw [hrest]
      omega
    · have hjk : keyQty orders' j = keyQty orders j := by
        rw [keyQty,h j (fun he => hj (he ▸ hk)),keyQty]
      rw [hjk,ih hn hk]
      omega

theorem liveQty_eq (b : OrderBook S) : liveQty b = (((Slab.iter b.orders).map Prod.fst).map (keyQty b.orders)).sum := by
  rw [← sumQty_liveQueue,liveQty,liveOrders,liveQueue,List.filterMap_map]
  congr 1
  have hget : ∀ e ∈ Slab.iter b.orders, Slab.get b.orders e.1 = some e.2 :=
    fun e he => (Slab.mem_iter _ _ _).mp he
  generalize Slab.iter b.orders = es at hget ⊢
  induction es with
  | nil => rfl
  | cons e es ih =>
    have he := hget e (List.mem_cons_self ..)
    have hes := ih fun x hx => hget x (List.mem_cons_of_mem _ hx)
    by_cases hq : 0 < e.2.qtyRem
    · have hlive : (liveAt b.orders ∘ Prod.fst) e = some e.2 := liveAt_eq_some.mpr ⟨he,hq⟩
      rw [List.filterMap_cons_some hlive,List.map_cons,List.filter_cons,if_pos (decide_eq_true hq),hes]
    · have hdead : (liveAt b.orders ∘ Prod.fst) e = none := by simpa [liveAt,he] using hq
      rw [List.filterMap_cons_none hdead,List.map_cons,List.filter_cons,if_neg (by simpa using hq),hes]

/-- A level holds at most the book's live quantity. -/
theorem Queues.level_le_liveQty (hb : Queues b) {s : Side} {p : Price} {t : Qty} {os : List Order}
    (h : levelView b s p = some (t,os)) : sumQty os ≤ liveQty b := by
  obtain ⟨lvl,hl,hv⟩ := Option.map_eq_some_iff.mp h
  cases hv
  rw [sumQty_liveQueue,liveQty_eq]
  refine sum_le_of_subset (hb.nodup hl) (fun k hk => ?_) fun k _ => keyQty_nonneg b.orders k
  obtain ⟨o,ho,-⟩ := hb.queued hl k hk
  exact List.mem_map.mpr ⟨(k,o),(Slab.mem_iter _ _ _).mpr ho,rfl⟩

theorem level_pos {s : Side} {p : Price} {t : Qty} {os : List Order} (h : levelView b s p = some (t,os)) :
    ∀ o ∈ os, 0 < o.qtyRem := by
  intro o ho
  obtain ⟨lvl,_,hv⟩ := Option.map_eq_some_iff.mp h
  cases hv
  obtain ⟨k,_,hk⟩ := mem_liveQueue.mp ho
  exact (liveAt_eq_some.mp hk).2

/-- The total that a level caches, 0 without a level. -/
def levelTotal (b : OrderBook S) (s : Side) (p : Price) : Qty := (((b.levels s)[p]?).getD Level.new).totalQty

theorem levelTotal_view (s : Side) (p : Price) : levelTotal b s p = ((levelView b s p).getD (0,[])).1 := by
  unfold levelTotal levelView
  cases (b.levels s)[p]? <;> rfl

/-! ### Sound books -/

/-- A level has live orders, and its total is exact. -/
structure Totals (b : OrderBook S) : Prop where
  total : ∀ {s : Side} {p : Price} {t : Qty} {os : List Order}, levelView b s p = some (t,os) →
    t.toInt = sumQty os ∧ os ≠ []

/-- Every live order waits in its level, a level's total is exact, and the index leads to live
orders. Two live orders may share an id. -/
structure Sound (b : OrderBook S) : Prop extends Queues b, Totals b where
  indexed : ∀ {id : OrderId} {k : ℕ}, b.index[id]? = some k → ∃ o, liveAt b.orders k = some o ∧ o.orderId = id
  waits : ∀ {k : ℕ} {o : Order}, liveAt b.orders k = some o →
    ∃ lvl, (b.levels o.side)[o.price]? = some lvl ∧ k ∈ lvl.queue

/-- A level with an exact total is gone exactly when its last order is. -/
theorem level_gone {t : Qty} {os : List Order} (ht : t.toInt = sumQty os)
    (hpos : ∀ o ∈ os, 0 < o.qtyRem) : t ≤ 0 ↔ os = [] := by
  rw [Int64.nonpos_iff_toInt,ht]
  constructor
  · intro h
    by_contra hne
    have := sumQty_pos hpos hne
    omega
  · rintro rfl
    exact Int.le_refl 0

theorem levelView_eq_some {s : Side} {p : Price} {lvl : Level} (hl : (b.levels s)[p]? = some lvl) :
    levelView b s p = some (lvl.totalQty,liveQueue b.orders lvl.queue) := by
  rw [levelView,hl,Option.map_some]

theorem liveQueue_pos {orders : S} {q : List ℕ} : ∀ o ∈ liveQueue orders q, 0 < o.qtyRem := by
  intro o ho
  obtain ⟨k,-,hk⟩ := mem_liveQueue.mp ho
  exact (liveAt_eq_some.mp hk).2

namespace Sound

theorem new (sym : SymbolId) : Sound (OrderBook.new sym : OrderBook S) where
  queued := by simp
  nodup := by simp
  indexed := by simp [OrderBook.new]
  waits := by simp [OrderBook.new,liveAt]
  total := by simp [levelView]

/-- A level's total is exact, and so is the 0 of a missing level. -/
theorem levelTotal_eq (hb : Sound b) (s : Side) (p : Price) :
    (levelTotal b s p).toInt = sumQty ((levelView b s p).getD (0,[])).2 ∧
      0 ≤ sumQty ((levelView b s p).getD (0,[])).2 := by
  rw [levelTotal_view]
  cases hv : levelView b s p with
  | none => simp
  | some v => exact ⟨(hb.total hv).1,sumQty_nonneg (level_pos hv)⟩

/-- Resting an order whose level's total does not overflow. -/
theorem insertResting_of_fits (hb : Sound b) {o : Order} (ho : 0 < o.qtyRem)
    (hfits : (levelTotal b o.side o.price).toInt+o.qtyRem.toInt < 2^63) : Sound (b.insertResting o) := by
  refine ⟨hb.toQueues.insertResting o,⟨?total⟩,?indexed,?waits⟩
  case indexed =>
    intro id k hk
    rw [insertResting_index,OrdMap.get_insert] at hk
    rw [insertResting_orders,liveAt_insert ho]
    split_ifs at hk with hid
    · rw [if_pos (Option.some.inj hk).symm]
      exact ⟨o,rfl,hid⟩
    · obtain ⟨x,hx,hxid⟩ := hb.indexed hk
      rw [if_neg (Slab.ne_vacantKey (liveAt_eq_some.mp hx).1)]
      exact ⟨x,hx,hxid⟩
  case waits =>
    intro k x hx
    rw [insertResting_orders,liveAt_insert ho] at hx
    rw [level_insertResting]
    split_ifs at hx with hk
    · obtain rfl := Option.some.inj hx
      exact ⟨_,if_pos ⟨rfl,rfl⟩,List.mem_append_right _ (List.mem_singleton.mpr hk)⟩
    · obtain ⟨lvl,hl,hm⟩ := hb.waits hx
      rw [hl]
      split_ifs
      · exact ⟨_,rfl,List.mem_append_left _ hm⟩
      · exact ⟨_,rfl,hm⟩
  case total =>
    intro s p t os hv
    rw [hb.toQueues.levelView_insertResting ho] at hv
    split_ifs at hv with h
    · cases hv
      rw [h.1,h.2]
      have hpos := Int64.pos_iff_toInt.mp ho
      obtain ⟨htot,hnn⟩ := hb.levelTotal_eq o.side o.price
      rw [levelTotal_view] at hfits htot
      rw [sumQty_append,sumQty_cons,sumQty_nil]
      refine ⟨?_,by simp⟩
      rw [Int64.toInt_add_of_range (by omega) (by omega),htot]
      omega
    · exact hb.total hv

theorem insertResting (hb : Sound b) {o : Order} (ho : 0 < o.qtyRem)
    (hq : liveQty (b.insertResting o) < 2^63) : Sound (b.insertResting o) := by
  refine hb.insertResting_of_fits ho ?_
  have hv := hb.toQueues.levelView_insertResting ho o.side o.price
  rw [if_pos ⟨rfl,rfl⟩] at hv
  have hle := (hb.toQueues.insertResting o).level_le_liveQty hv
  rw [sumQty_append,sumQty_cons,sumQty_nil] at hle
  rw [(hb.levelTotal_eq o.side o.price).1]
  omega

/-- The level of a live order, with what its cached total becomes when `t` lots leave. -/
theorem level_sub (hb : Sound b) {s : Side} {p : Price} {tot t : Qty} {os : List Order}
    (hv : levelView b s p = some (tot,os)) (h0 : 0 ≤ t) (ht : t.toInt ≤ sumQty os) :
    (tot-t).toInt = sumQty os-t.toInt := by
  have htot := (hb.total hv).1
  rw [Int64.toInt_sub_of_le tot t h0 (Int64.le_iff_toInt_le.mpr (htot ▸ ht)),htot]

/-- When one key of a queue changes and the cached total with it, the total stays exact and the level
goes with its last live order. -/
theorem level_change (hb : Sound b) {s : Side} {p : Price} {lvl : Level} (hl : (b.levels s)[p]? = some lvl)
    {orders : S} {k : ℕ} (hk : k ∈ lvl.queue) (h : ∀ j, j ≠ k → liveAt orders j = liveAt b.orders j) {t : Qty}
    (h0 : 0 ≤ t) (ht : t.toInt = keyQty b.orders k-keyQty orders k) :
    (lvl.totalQty-t).toInt = sumQty (liveQueue orders lvl.queue) ∧
      (lvl.totalQty-t ≤ 0 ↔ liveQueue orders lvl.queue = []) := by
  have hle := keyQty_le b.orders hk
  have hnn := keyQty_nonneg orders k
  have hsum : (lvl.totalQty-t).toInt = sumQty (liveQueue orders lvl.queue) := by
    rw [hb.level_sub (levelView_eq_some hl) h0 (by omega),sumQty_change (hb.nodup hl) hk h]
    omega
  exact ⟨hsum,level_gone hsum liveQueue_pos⟩

theorem get_live (hb : Sound b) {id : OrderId} {o : Order} (h : b.get id = some o) :
    ∃ k, b.index[id]? = some k ∧ liveAt b.orders k = some o ∧ o.orderId = id := by
  obtain ⟨k,hk,hg⟩ := get_eq_some.mp h
  obtain ⟨x,hx,hid⟩ := hb.indexed hk
  obtain rfl := Option.some.inj (hg.symm.trans (liveAt_eq_some.mp hx).1)
  exact ⟨k,hk,hx,hid⟩

theorem cancel (hb : Sound b) {id : OrderId} {o : Order} (ho : b.get id = some o) :
    Sound (b.cancel id o.accountId).1 := by
  obtain ⟨k,hk,hlive,hid⟩ := hb.get_live ho
  obtain ⟨hg,hq⟩ := liveAt_eq_some.mp hlive
  obtain ⟨lvl,hl,hm⟩ := hb.waits hlive
  have hother : ∀ j, j ≠ k → liveAt (b.cancel id o.accountId).1.orders j = liveAt b.orders j := by
    intro j hj
    rw [liveAt_cancel hk hg,if_neg hj]
  have hgone : liveAt (b.cancel id o.accountId).1.orders k = none := by
    rw [liveAt_cancel hk hg,if_pos rfl]
  obtain ⟨hsum,hzero⟩ := hb.level_change hl hm hother (Int64.le_of_lt hq) (by simp [keyQty,hlive,hgone])
  refine ⟨hb.toQueues.cancel ho,⟨?total⟩,?indexed,?waits⟩
  case indexed =>
    intro i j hj
    rw [cancel_index ho,OrdMap.get_erase] at hj
    split_ifs at hj with hi
    obtain ⟨x,hx,hxid⟩ := hb.indexed hj
    rw [hother j]
    · exact ⟨x,hx,hxid⟩
    · rintro rfl
      obtain rfl := Option.some.inj (hlive.symm.trans hx)
      exact hi (hid.symm.trans hxid)
  case waits =>
    intro j x hx
    rw [liveAt_cancel hk hg] at hx
    split_ifs at hx with hj
    obtain ⟨lvl',hl',hm'⟩ := hb.waits hx
    rw [level_cancel ho]
    split_ifs with hsp
    · rw [hsp.1,hsp.2,hl] at hl'
      obtain rfl := Option.some.inj hl'
      have hne : liveQueue (b.cancel id o.accountId).1.orders lvl.queue ≠ [] :=
        List.ne_nil_of_mem (mem_liveQueue.mpr ⟨j,hm',(hother j hj).trans hx⟩)
      rw [hsp.1,hsp.2,hl,Option.bind_some,if_neg (mt hzero.mp hne)]
      exact ⟨_,rfl,hm'⟩
    · exact ⟨lvl',hl',hm'⟩
  case total =>
    intro s p t os hv
    obtain ⟨lvl',hl',hv'⟩ := Option.map_eq_some_iff.mp hv
    rw [level_cancel ho] at hl'
    split_ifs at hl' with hsp
    · rw [hsp.1,hsp.2,hl,Option.bind_some] at hl'
      split_ifs at hl' with hz
      obtain rfl := Option.some.inj hl'
      cases hv'
      exact ⟨hsum,mt hzero.mpr hz⟩
    · cases hv'
      have hsame : liveQueue (b.cancel id o.accountId).1.orders lvl'.queue = liveQueue b.orders lvl'.queue := by
        refine liveQueue_congr fun j hj => hother j ?_
        rintro rfl
        obtain ⟨x,hx,hs,hp⟩ := hb.queued hl' j hj
        obtain rfl := Option.some.inj (hg.symm.trans hx)
        exact hsp ⟨hs.symm,hp.symm⟩
      rw [hsame]
      exact hb.total (levelView_eq_some hl')

theorem replace (hb : Sound b) {id : OrderId} {o : Order} (ho : b.get id = some o) {px : Price} {q : Qty}
    (hq : 0 < q) (hl : liveQty (b.replace id o.accountId px q).1 < 2^63) :
    Sound (b.replace id o.accountId px q).1 := by
  rw [replace_accepted ho] at hl ⊢
  exact (hb.cancel ho).insertResting hq hl

end Sound

/-! ### Matching -/

theorem sumQty_afterTrade {o : Order} {t : Qty} (h0 : 0 ≤ t) (ht : t ≤ o.qtyRem) :
    sumQty (afterTrade o t).toList = o.qtyRem.toInt-t.toInt := by
  have hsub := Int64.toInt_sub_of_le o.qtyRem t h0 ht
  unfold afterTrade
  split_ifs with hz
  · rw [Int64.eq_zero_iff_toInt] at hz
    simp only [Option.toList_none,sumQty_nil]
    omega
  · simp [hsub]

theorem afterTrade_pos {o x : Order} {t : Qty} (h : afterTrade o t = some x) (ht : t ≤ o.qtyRem)
    (h0 : 0 ≤ t) : 0 < x.qtyRem := by
  obtain ⟨rfl,hz⟩ := afterTrade_eq_some h
  change 0 < o.qtyRem-t
  grind

theorem keyQty_afterTrade {orders : S} {k : ℕ} {o : Order} {t : Qty} (hk : liveAt orders k = afterTrade o t)
    (h0 : 0 ≤ t) (ht : t ≤ o.qtyRem) : keyQty orders k = o.qtyRem.toInt-t.toInt := by
  have hsub := Int64.toInt_sub_of_le o.qtyRem t h0 ht
  unfold keyQty
  rw [hk,afterTrade]
  split_ifs with hz
  · rw [Int64.eq_zero_iff_toInt] at hz
    simp only [Option.elim_none]
    omega
  · simp [hsub]

section Pass
variable {m m' : Matching S} {taker : OrderId} {limit : Price} {makers : Side}

/-- What is dropped in front of the popped key is dead. -/
theorem dead_prefix {orders : S} {q rest : List ℕ} {k : ℕ} {o : Order} (hs : (k::rest) <:+ q)
    (hk : liveAt orders k = some o) (hfront : liveQueue orders q = o::liveQueue orders rest) :
    ∃ pre, q = pre ++ k::rest ∧ ∀ j ∈ pre, liveAt orders j = none := by
  obtain ⟨pre,rfl⟩ := hs
  refine ⟨pre,rfl,fun j hj => Option.eq_none_iff_forall_ne_some.mpr fun x hx => ?_⟩
  rw [liveQueue_append,liveQueue_cons,hk] at hfront
  have hlen : (liveQueue orders pre).length = 0 := by simpa using congrArg List.length hfront
  have hmem := mem_liveQueue.mpr ⟨j,hj,hx⟩
  rw [List.length_eq_zero_iff.mp hlen] at hmem
  cases hmem

/-- What stays of a level's queue after a trade at its first live key: the queue loses dead keys only. -/
theorem kept_of_trade {s s' : S} {lvl : Level} {k : ℕ} {rest : List ℕ} {o : Order} {q : Qty} (hnd : lvl.queue.Nodup)
    (hk : liveAt s k = some o) (hfront : liveQueue s lvl.queue = o::liveQueue s rest) (hs : (k::rest) <:+ lvl.queue)
    (hother : ∀ j, j ≠ k → liveAt s' j = liveAt s j) (hself : liveAt s' k = afterTrade o q) :
    (∀ j x, j ∈ lvl.queue → liveAt s' j = some x → j ∈ if o.qtyRem-q = 0 then rest else k::rest) ∧
      liveQueue s' (if o.qtyRem-q = 0 then rest else k::rest) = liveQueue s' lvl.queue := by
  obtain ⟨pre,hpre,hdead⟩ := dead_prefix hs hk hfront
  rw [hpre] at hnd ⊢
  have hdead' : ∀ j ∈ pre, liveAt s' j = none := by
    intro j hj
    rw [hother j]
    · exact hdead j hj
    · rintro rfl
      exact (List.nodup_append.mp hnd).2.2 _ hj _ (List.mem_cons_self ..) rfl
  constructor
  · intro j x hj hx
    rcases List.mem_append.mp hj with hj | hj
    · rw [hdead' j hj] at hx; cases hx
    · split_ifs with hz
      · refine (List.mem_cons.mp hj).resolve_left fun hjk => ?_
        rw [hjk,hself,afterTrade,if_pos hz] at hx
        cases hx
      · exact hj
  · have hnil : liveQueue s' pre = [] := List.filterMap_eq_nil_iff.mpr hdead'
    rw [liveQueue_append,hnil,List.nil_append]
    split_ifs with hz
    · rw [liveQueue_cons,hself,afterTrade,if_pos hz]; rfl
    · rfl

theorem Sound.trade (hb : Sound m.book) {px : Price} {lvl : Level} {k : ℕ} {rest : List ℕ} {o : Order}
    (hq : 0 < m.takerQty) (hl : (m.book.levels makers)[px]? = some lvl) (hk : liveAt m.book.orders k = some o)
    (hfront : liveQueue m.book.orders lvl.queue = o::liveQueue m.book.orders rest)
    (hs : (k::rest) <:+ lvl.queue) : Sound (tradeWith taker makers m px lvl k rest o).book := by
  obtain ⟨ht0,-,htr,-,-⟩ := min_qty hq (liveAt_eq_some.mp hk).2
  have hmem : k ∈ lvl.queue := hs.mem (List.mem_cons_self ..)
  obtain ⟨x,hx,hside,hprice⟩ := hb.queued hl k hmem
  obtain rfl := Option.some.inj ((liveAt_eq_some.mp hk).1.symm.trans hx)
  have hlive : ∀ j, liveAt (tradeWith taker makers m px lvl k rest o).book.orders j = _ := tradeWith_liveAt hk hq
  have hlevel : ∀ s p, ((tradeWith taker makers m px lvl k rest o).book.levels s)[p]? = _ := tradeWith_level
  have hindex : ∀ id : OrderId, (tradeWith taker makers m px lvl k rest o).book.index[id]? = _ := tradeWith_index
  have hqueues : Queues (tradeWith taker makers m px lvl k rest o).book := hb.toQueues.traded hl hk hs
  generalize (tradeWith taker makers m px lvl k rest o).book = b' at hlive hlevel hindex hqueues ⊢
  have hother : ∀ j, j ≠ k → liveAt b'.orders j = liveAt m.book.orders j := by
    intro j hj
    rw [hlive,if_neg hj]
  have hself : liveAt b'.orders k = afterTrade o (min m.takerQty o.qtyRem) := by
    rw [hlive,if_pos rfl]
  obtain ⟨hsum,hzero⟩ := hb.level_change hl hmem hother (Int64.le_of_lt ht0) (by
    rw [keyQty_afterTrade hself (Int64.le_of_lt ht0) htr]
    simp [keyQty,hk])
  obtain ⟨hkept,hqueue⟩ := kept_of_trade (hb.nodup hl) hk hfront hs hother hself
  generalize (if o.qtyRem-min m.takerQty o.qtyRem = 0 then rest else k::rest) = kept at hlevel hkept hqueue
  refine ⟨hqueues,⟨?total⟩,?indexed,?waits⟩
  case indexed =>
    intro id j hj
    rw [hindex] at hj
    split_ifs at hj with hid
    obtain ⟨x,hx,hxid⟩ := hb.indexed hj
    by_cases hjk : j = k
    · rw [hjk] at hx ⊢
      obtain rfl := Option.some.inj (hk.symm.trans hx)
      rw [hself,afterTrade,if_neg fun hz => hid ⟨hxid.symm,hz⟩]
      exact ⟨_,rfl,hxid⟩
    · exact ⟨x,(hother j hjk).trans hx,hxid⟩
  case waits =>
    intro j x hx
    have hlvl : j ∈ lvl.queue → x.side = makers → x.price = px →
        ∃ lvl', (b'.levels x.side)[x.price]? = some lvl' ∧ j ∈ lvl'.queue := by
      intro hj hxs hxp
      have hne : liveQueue b'.orders lvl.queue ≠ [] := List.ne_nil_of_mem (mem_liveQueue.mpr ⟨j,hj,hx⟩)
      rw [hlevel,if_pos ⟨hxs,hxp⟩,if_neg (mt hzero.mp hne)]
      exact ⟨_,rfl,hkept j x hj hx⟩
    by_cases hjk : j = k
    · rw [hjk,hself] at hx
      obtain ⟨rfl,-⟩ := afterTrade_eq_some hx
      rw [hjk] at hlvl ⊢
      exact hlvl hmem hside hprice
    · obtain ⟨lvl',hl',hm'⟩ := hb.waits ((hother j hjk).symm.trans hx)
      by_cases hsp : x.side = makers ∧ x.price = px
      · rw [hsp.1,hsp.2,hl] at hl'
        obtain rfl := Option.some.inj hl'
        exact hlvl hm' hsp.1 hsp.2
      · rw [hlevel,if_neg hsp]
        exact ⟨lvl',hl',hm'⟩
  case total =>
    intro s p t os hv
    obtain ⟨lvl',hl',hv'⟩ := Option.map_eq_some_iff.mp hv
    rw [hlevel] at hl'
    split_ifs at hl' with hsp hz
    · obtain rfl := Option.some.inj hl'
      cases hv'
      rw [hqueue]
      exact ⟨hsum,mt hzero.mpr hz⟩
    · cases hv'
      have hsame : liveQueue b'.orders lvl'.queue = liveQueue m.book.orders lvl'.queue := by
        refine liveQueue_congr fun j hj => hother j ?_
        rintro rfl
        obtain ⟨x,hx,hs,hp⟩ := hb.queued hl' j hj
        obtain rfl := Option.some.inj ((liveAt_eq_some.mp hk).1.symm.trans hx)
        exact hsp ⟨hs.symm.trans hside,hp.symm.trans hprice⟩
      rw [hsame]
      exact hb.total (levelView_eq_some hl')

/-- A level with an exact total has a live order, so every pass trades. -/
theorem Sound.pass (hb : Sound m.book) (h : Pass taker limit makers m m') : Sound m'.book := by
  cases h with
  | drop px lvl hr hl hdead => exact absurd hdead (hb.total (levelView_eq_some hl)).2
  | trade px lvl k rest o hr hl hk hfront hs => exact hb.trade hr.qty hl hk hfront hs

theorem Sound.run (hb : Sound m.book) (h : MatchRun taker limit makers m m') : Sound m'.book :=
  (h.keeps (P := fun m => Sound m.book) (fun _ _ hx hp => Sound.pass hx hp) hb).1

theorem Sound.matchTaker (hb : Sound b) (taker : OrderId) (side : Side) (limit : Price) (qty : Qty) :
    Sound (b.matchTaker taker side limit qty).1 := by
  obtain ⟨m',hrun,he⟩ := matchTaker_run b taker side limit qty
  rw [he]
  exact Sound.run hb hrun

end Pass

/-! ### Sound books with unique ids -/

structure Inv (b : OrderBook S) : Prop extends Wf b, Totals b where
  reach : ∀ {id : OrderId} {o : Order}, b.get id = some o →
    ∃ t os, levelView b o.side o.price = some (t,os) ∧ o ∈ os

theorem Sound.inv (hs : Sound b) (hb : Wf b) : Inv b := by
  refine ⟨hb,hs.toTotals,fun {id o} ho => ?_⟩
  obtain ⟨k,-,hk,-⟩ := hs.get_live ho
  obtain ⟨lvl,hl,hm⟩ := hs.waits hk
  exact ⟨_,_,levelView_eq_some hl,mem_liveQueue.mpr ⟨k,hm,hk⟩⟩

namespace Inv

theorem sound (hb : Inv b) : Sound b where
  toQueues := hb.toQueues
  indexed := hb.indexed.mp
  waits := by
    intro k o hk
    obtain ⟨t,os,hv,hm⟩ := hb.reach (hb.get_iff.mpr ⟨k,hk,rfl⟩)
    obtain ⟨lvl,hl,he⟩ := Option.map_eq_some_iff.mp hv
    cases he
    obtain ⟨j,hj,hlive⟩ := mem_liveQueue.mp hm
    obtain rfl := hb.key_unique hk hlive rfl
    exact ⟨lvl,hl,hj⟩
  total := hb.total

theorem new (sym : SymbolId) : Inv (OrderBook.new sym : OrderBook S) := (Sound.new sym).inv (Wf.new sym)

theorem insertResting (hb : Inv b) {o : Order} (ho : 0 < o.qtyRem) (hid : b.get o.orderId = none)
    (hq : liveQty (b.insertResting o) < 2^63) : Inv (b.insertResting o) :=
  (hb.sound.insertResting ho hq).inv (hb.toWf.insertResting ho hid)

theorem cancel (hb : Inv b) {id : OrderId} {o : Order} (ho : b.get id = some o) :
    Inv (b.cancel id o.accountId).1 :=
  (hb.sound.cancel ho).inv (hb.toWf.cancel ho)

theorem replace (hb : Inv b) {id : OrderId} {o : Order} (ho : b.get id = some o) {px : Price} {q : Qty}
    (hq : 0 < q) (hl : liveQty (b.replace id o.accountId px q).1 < 2^63) :
    Inv (b.replace id o.accountId px q).1 := by
  have hid := (hb.toWf.get_live ho).1
  rw [replace_accepted ho] at hl ⊢
  refine (hb.cancel ho).insertResting hq ?_ hl
  simp [get_cancel hb.toWf ho,hid]

end Inv

section Pass
variable {m m' : Matching S} {taker : OrderId} {limit : Price} {makers : Side} {px : Price} {total : Qty}
  {o : Order} {os : List Order}

theorem Wf.pass (hb : Wf m.book) (h : Pass taker limit makers m m') : Wf m'.book := by
  cases h with
  | drop px lvl hr hl hdead => exact (dropped hb hl).wf
  | trade px lvl k rest o hr hl hk hfront hs => exact traded_wf hb hl hk hs hr.qty

/-- A level with an exact total is never empty, so a pass always trades. -/
theorem Inv.no_drop (hb : Inv m.book) (h : levelView m.book makers px = some (total,[])) : False :=
  (hb.total h).2 rfl

/-- The level after a trade: exact again, and gone exactly when no order is left. -/
theorem Inv.traded_level (hb : Inv m.book) (hq : 0 < m.takerQty)
    (hv : levelView m.book makers px = some (total,o::os)) :
    let t := min m.takerQty o.qtyRem
    let rest := (afterTrade o t).toList ++ os
    (total-t).toInt = sumQty rest ∧ (∀ x ∈ rest, 0 < x.qtyRem) ∧ (total-t ≤ 0 ↔ rest = []) := by
  intro t rest
  have hpos := level_pos hv
  have ho := hpos o (List.mem_cons_self ..)
  obtain ⟨ht0,_,htr,_,_⟩ := min_qty hq ho
  have hle := Int64.le_iff_toInt_le.mp htr
  have hnn := sumQty_nonneg fun x hx => hpos x (List.mem_cons_of_mem o hx)
  have hsum : (total-t).toInt = sumQty rest := by
    rw [hb.sound.level_sub hv (Int64.le_of_lt ht0) (by rw [sumQty_cons]; omega),sumQty_append,
      sumQty_afterTrade (Int64.le_of_lt ht0) htr,sumQty_cons]
    omega
  have hrest : ∀ x ∈ rest, 0 < x.qtyRem := by
    intro x hx
    rcases List.mem_append.mp hx with hx | hx
    · exact afterTrade_pos (Option.mem_toList.mp hx) htr (Int64.le_of_lt ht0)
    · exact hpos x (List.mem_cons_of_mem o hx)
  exact ⟨hsum,hrest,level_gone hsum hrest⟩

theorem Inv.next (hb : Inv m.book) (h : matchStep taker limit makers m = .next m') : Inv m'.book := by
  rcases matchStep_pass m taker limit makers with ⟨hexit,_⟩ | ⟨x,hx,hp⟩
  · exact absurd (h.symm.trans hexit) (by simp)
  obtain rfl : m' = x := by simpa using h.symm.trans hx
  exact (hb.sound.pass hp).inv (hb.toWf.pass hp)

theorem Inv.run (hb : Inv m.book) (h : MatchRun taker limit makers m m') : Inv m'.book :=
  (h.keeps (P := fun m => Inv m.book) (fun _ _ hx hp => (hx.sound.pass hp).inv (hx.toWf.pass hp)) hb).1

theorem Inv.matchTaker (hb : Inv b) (taker : OrderId) (side : Side) (limit : Price) (qty : Qty) :
    Inv (b.matchTaker taker side limit qty).1 := by
  obtain ⟨m',hrun,he⟩ := matchTaker_run b taker side limit qty
  rw [he]
  exact Inv.run hb hrun

end Pass

end OrderBook
end HighPerfTrading
