import HighPerfTrading.Engine.BookRefines
import HighPerfTrading.Common.Wire
import Mathlib.Data.Finset.Card

/-! Snapshots of the book. A snapshot lists the live orders by slab key and a restore rests
them again one by one, so the restored queues are in slab order, not in time order. -/
namespace HighPerfTrading

def Order.wire : Wire Order :=
  (Wire.u64.pair (Wire.u32.pair (Wire.u32.pair (Side.wire.pair (Wire.i64.pair (Wire.i64.pair
    (TimeInForce.wire.pair OrderFlags.wire))))))).via
    (fun o => (o.orderId,o.accountId,o.symbolId,o.side,o.price,o.qtyRem,o.tif,o.flags))
    (fun (id,acct,sym,side,px,qty,tif,flags) => some ⟨id,acct,sym,side,px,qty,tif,flags⟩) fun _ => rfl

namespace OrderBook
variable {S T : Type} [Slab S Order] [Slab T Order] {b : OrderBook S} {c : OrderBook T}
  {m m' : Matching S}

def serializeSnapshot (postcard : Codec (List Order)) (b : OrderBook S) : List UInt8 :=
  postcard.encode b.liveOrders

def clear (b : OrderBook S) : OrderBook S :=
  { b with bids := ∅, asks := ∅, orders := Slab.empty, index := ∅ }

def restoreOrders (b : OrderBook S) (orders : List Order) : OrderBook S :=
  orders.foldl insertResting b.clear

/-- `none` when the bytes do not decode; the book is then left alone. -/
def restoreFromSnapshot (postcard : Codec (List Order)) (b : OrderBook S) (data : List UInt8) :
    Option (OrderBook S) :=
  (postcard.decode data).map b.restoreOrders

/-! ### The restored book -/

/-- Positive quantities and distinct ids. -/
structure Restorable (os : List Order) : Prop where
  pos : ∀ o ∈ os, 0 < o.qtyRem
  ids : os.Pairwise fun x y => x.orderId ≠ y.orderId

/-- The orders of a list that belong to one level. -/
def ofLevel (os : List Order) (s : Side) (p : Price) : List Order :=
  os.filter fun o => decide (o.side = s ∧ o.price = p)

theorem Wf.clear (b : OrderBook S) : Wf b.clear where
  queued := by intro s p lvl hl; cases s <;> simp [OrderBook.clear,levels] at hl
  nodup := by intro s p lvl hl; cases s <;> simp [OrderBook.clear,levels] at hl
  indexed := by simp [OrderBook.clear,liveAt]

theorem levelView_clear (b : OrderBook S) (s : Side) (p : Price) : levelView b.clear s p = none := by
  cases s <;> simp [levelView,OrderBook.clear,levels]

/-- A restored book holds exactly the listed orders, queued in the order of the list. -/
theorem restoreOrders_spec {os : List Order} (h : Restorable os) (b : OrderBook S) :
    Wf (b.restoreOrders os) ∧
    (∀ id o, (b.restoreOrders os).get id = some o ↔ o ∈ os ∧ o.orderId = id) ∧
    ∀ s p, levelView (b.restoreOrders os) s p =
      if ofLevel os s p = [] then none
      else some (((ofLevel os s p).map Order.qtyRem).sum,ofLevel os s p) := by
  induction os using List.reverseRecOn with
  | nil => exact ⟨Wf.clear b,by simp [restoreOrders,clear,get],fun s p => levelView_clear b s p⟩
  | append_singleton os o ih =>
    obtain ⟨hids,_,hnew⟩ := List.pairwise_append.mp h.ids
    have hpos := h.pos o (List.mem_append_right _ (List.mem_singleton.mpr rfl))
    obtain ⟨hw,hget,hview⟩ := ih ⟨fun x hx => h.pos x (List.mem_append_left _ hx),hids⟩
    have hfresh : (b.restoreOrders os).get o.orderId = none := by
      refine Option.eq_none_iff_forall_ne_some.mpr fun x hx => ?_
      obtain ⟨hm,hid⟩ := (hget _ _).mp hx
      exact hnew x hm o (List.mem_singleton.mpr rfl) hid
    have he : b.restoreOrders (os ++ [o]) = (b.restoreOrders os).insertResting o := by
      simp [restoreOrders]
    rw [he]
    refine ⟨hw.insertResting hpos hfresh,?_,?_⟩
    · intro id x
      rw [get_insertResting hw hpos hfresh]
      split_ifs with hid
      · subst hid
        constructor
        · intro hx
          cases hx
          exact ⟨List.mem_append_right _ (List.mem_singleton.mpr rfl),rfl⟩
        · rintro ⟨hx,hid⟩
          rcases List.mem_append.mp hx with hx | hx
          · exact absurd hid (hnew x hx o (List.mem_singleton.mpr rfl))
          · rw [List.mem_singleton.mp hx]
      · rw [hget,List.mem_append,List.mem_singleton]
        constructor
        · exact fun hx => ⟨Or.inl hx.1,hx.2⟩
        · rintro ⟨hx | rfl,hxid⟩
          · exact ⟨hx,hxid⟩
          · exact absurd hxid.symm hid
    · intro s p
      rw [levelView_insertResting hw hpos,hview]
      have hlast : ofLevel (os ++ [o]) s p = ofLevel os s p ++ ofLevel [o] s p := List.filter_append ..
      by_cases hsp : s = o.side ∧ p = o.price
      · have hone : ofLevel [o] s p = [o] := by simp [ofLevel,hsp]
        rw [if_pos hsp,hlast,hone]
        by_cases hnil : ofLevel os s p = [] <;> simp [hnil]
      · have hone : ofLevel [o] s p = [] := by
          refine List.filter_eq_nil_iff.mpr fun x hx => ?_
          rw [List.mem_singleton.mp hx,decide_eq_true_eq]
          exact fun h => hsp ⟨h.1.symm,h.2.symm⟩
        rw [if_neg hsp,hlast,hone,List.append_nil]

/-- The live slab entries in key order. -/
def liveEntries (b : OrderBook S) : List (ℕ × Order) :=
  (Slab.iter b.orders).filter fun e => decide (0 < e.2.qtyRem)

theorem liveEntries_snd (b : OrderBook S) : b.liveEntries.map Prod.snd = b.liveOrders := by
  rw [liveOrders,List.filter_map]
  rfl

theorem liveEntries_sorted (b : OrderBook S) : b.liveEntries.Pairwise fun x y => x.1 < y.1 :=
  (Slab.iter_sorted b.orders).filter _

theorem mem_liveEntries {k : ℕ} {o : Order} : (k,o) ∈ b.liveEntries ↔ liveAt b.orders k = some o := by
  rw [liveEntries,List.mem_filter,Slab.mem_iter,decide_eq_true_eq,liveAt_eq_some]

theorem Wf.restorable (hb : Wf b) : Restorable b.liveOrders where
  pos := liveOrders_pos
  ids := by
    rw [← liveEntries_snd,List.pairwise_map]
    refine b.liveEntries_sorted.imp_of_mem ?_
    rintro ⟨k,x⟩ ⟨j,y⟩ hx hy hlt hid
    exact Nat.ne_of_lt hlt (hb.key_unique (mem_liveEntries.mp hx) (mem_liveEntries.mp hy) hid)

/-! ### Slab order and time order -/

/-- The live orders of a queue with their slab keys. -/
def liveKeys (orders : S) (q : List ℕ) : List (ℕ × Order) :=
  q.filterMap fun k => (liveAt orders k).map fun o => (k,o)

theorem liveKeys_snd (orders : S) (q : List ℕ) :
    (liveKeys orders q).map Prod.snd = liveQueue orders q := by
  simp [liveKeys,liveQueue,List.map_filterMap]

theorem mem_liveKeys {orders : S} {q : List ℕ} {k : ℕ} {o : Order} :
    (k,o) ∈ liveKeys orders q ↔ k ∈ q ∧ liveAt orders k = some o := by
  simp [liveKeys]

/-- When the snapshot of a book loses nothing: every live order waits in its level, every
level holds an order and caches its exact total, and time order is slab order. -/
structure SnapshotSafe (b : OrderBook S) : Prop where
  queued : ∀ {k : ℕ} {o : Order}, liveAt b.orders k = some o →
    ∃ lvl, (b.levels o.side)[o.price]? = some lvl ∧ k ∈ lvl.queue
  total : ∀ {s : Side} {p : Price} {lvl : Level}, (b.levels s)[p]? = some lvl →
    liveQueue b.orders lvl.queue ≠ [] ∧
      lvl.totalQty = ((liveQueue b.orders lvl.queue).map Order.qtyRem).sum
  ordered : ∀ {s : Side} {p : Price} {lvl : Level}, (b.levels s)[p]? = some lvl →
    (liveKeys b.orders lvl.queue).Pairwise fun x y => x.1 < y.1

/-- The live entries of the slab that belong to one level. -/
def entriesOf (b : OrderBook S) (s : Side) (p : Price) : List (ℕ × Order) :=
  b.liveEntries.filter fun e => decide (e.2.side = s ∧ e.2.price = p)

theorem entriesOf_snd (s : Side) (p : Price) :
    (b.entriesOf s p).map Prod.snd = ofLevel b.liveOrders s p := by
  rw [← liveEntries_snd,ofLevel,List.filter_map]
  rfl

theorem mem_entriesOf {s : Side} {p : Price} {k : ℕ} {o : Order} :
    (k,o) ∈ b.entriesOf s p ↔ liveAt b.orders k = some o ∧ o.side = s ∧ o.price = p := by
  rw [entriesOf,List.mem_filter,mem_liveEntries,decide_eq_true_eq]

/-- A queue whose live keys increase lists its level's entries in slab order. -/
theorem SnapshotSafe.liveKeys_eq (h : SnapshotSafe b) (hb : Wf b) {s : Side} {p : Price} {lvl : Level}
    (hl : (b.levels s)[p]? = some lvl) : liveKeys b.orders lvl.queue = b.entriesOf s p := by
  refine Slab.eq_of_sorted (h.ordered hl) (b.liveEntries_sorted.filter _) ?_
  rintro ⟨k,o⟩
  rw [mem_liveKeys,mem_entriesOf]
  constructor
  · rintro ⟨hk,ho⟩
    obtain ⟨o',ho',hs,hp⟩ := hb.queued hl k hk
    obtain rfl := Option.some.inj (ho'.symm.trans (liveAt_eq_some.mp ho).1)
    exact ⟨ho,hs,hp⟩
  · rintro ⟨ho,rfl,rfl⟩
    obtain ⟨lvl',hl',hk⟩ := h.queued ho
    obtain rfl := Option.some.inj (hl.symm.trans hl')
    exact ⟨hk,ho⟩

/-- A safe snapshot restores the view. -/
theorem SnapshotSafe.sameView (h : SnapshotSafe b) (hb : Wf b) (c : OrderBook T) :
    SameView b (c.restoreOrders b.liveOrders) := by
  obtain ⟨_,hget,hview⟩ := restoreOrders_spec hb.restorable c
  constructor
  · intro s p
    rw [hview,levelView]
    cases hl : (b.levels s)[p]? with
    | none =>
      rw [Option.map_none,if_pos]
      refine List.filter_eq_nil_iff.mpr fun o ho => ?_
      rw [decide_eq_true_eq]
      rintro ⟨rfl,rfl⟩
      obtain ⟨k,hk⟩ := mem_liveOrders.mp ho
      obtain ⟨lvl,hl',_⟩ := h.queued hk
      exact absurd (hl.symm.trans hl') (by simp)
    | some lvl =>
      have heq : liveQueue b.orders lvl.queue = ofLevel b.liveOrders s p := by
        rw [← liveKeys_snd,h.liveKeys_eq hb hl,entriesOf_snd]
      obtain ⟨hne,htot⟩ := h.total hl
      rw [heq] at hne htot
      rw [Option.map_some,if_neg hne,htot,heq]
  · intro id
    refine Option.ext fun o => ?_
    rw [hget,hb.get_iff,mem_liveOrders]
    constructor
    · rintro ⟨k,hk,hid⟩
      exact ⟨⟨k,hk⟩,hid⟩
    · rintro ⟨⟨k,hk⟩,hid⟩
      exact ⟨k,hk,hid⟩

/-! ### What a difference in the view shows -/

theorem observe_append (b : OrderBook S) (xs ys : List BookOp) :
    b.observe (xs ++ ys) = b.observe xs ++ (b.runOps xs).observe ys := by
  induction xs generalizing b with
  | nil => rfl
  | cons op xs ih => simp [observe,ih]

theorem length_observe (b : OrderBook S) (ops : List BookOp) : (b.observe ops).length = ops.length := by
  induction ops generalizing b with
  | nil => rfl
  | cons op ops ih => simp [observe,ih]

/-- No sequence of legal operations tells the books apart. -/
def Indistinguishable (b : OrderBook S) (c : OrderBook T) : Prop :=
  ∀ ops, LegalRun b ops → b.observe ops = c.observe ops

theorem Indistinguishable.runOps (h : Indistinguishable b c) {ops : List BookOp} (hl : LegalRun b ops) :
    Indistinguishable (b.runOps ops) (c.runOps ops) := by
  intro ys hys
  have hxy := h (ops ++ ys) (legalRun_append.mpr ⟨hl,hys⟩)
  rw [observe_append,observe_append] at hxy
  exact List.append_inj_right hxy (by rw [length_observe,length_observe])

theorem matchTaker_zero (b : OrderBook S) (taker : OrderId) (side : Side) (limit : Price) :
    b.matchTaker taker side limit 0 = (b,[]) := by
  have h : matchStep taker limit side.opposite ⟨b,0,[]⟩ = .exit := matchStep_exhausted (Int64.le_refl 0)
  simp [matchTaker,matchLoop_exit h]

/-- A taker of nothing shows the tops. -/
theorem Indistinguishable.top (h : Indistinguishable b c) (s : Side) : b.top s = c.top s := by
  have hobs := h [.matchTaker 0 .buy 0 0] ⟨trivial,trivial⟩
  simp only [observe,apply,matchTaker_zero,List.cons.injEq,Prod.mk.injEq] at hobs
  cases s with
  | buy => exact hobs.1.2.1
  | sell => exact hobs.1.2.2

/-- Only the level at `px` may differ, and no live order is left there. -/
structure Drained (s : Side) (px : Price) (b b' : OrderBook S) : Prop where
  wf : Wf b'
  level : ∀ t os, levelView b' s px = some (t,os) → os = []
  others : ∀ s' p', ¬(s' = s ∧ p' = px) → levelView b' s' p' = levelView b s' p'

/-- Cancelling the orders of a level one by one drains it. -/
theorem drained_cancel (hb : Wf b) {s : Side} {px : Price} {os : List Order}
    (hids : os.Pairwise fun x y => x.orderId ≠ y.orderId)
    (hget : ∀ o ∈ os, b.get o.orderId = some o ∧ o.side = s ∧ o.price = px)
    (hv : ∀ t xs, levelView b s px = some (t,xs) → xs = os) :
    Drained s px b (b.runOps (os.map fun o => .cancel o.orderId o.accountId)) ∧
      LegalRun b (os.map fun o => .cancel o.orderId o.accountId) := by
  induction os generalizing b with
  | nil => exact ⟨⟨hb,hv,fun _ _ _ => rfl⟩,trivial⟩
  | cons o os ih =>
    obtain ⟨hne,hids⟩ := List.pairwise_cons.mp hids
    obtain ⟨hgo,hside,hprice⟩ := hget o (List.mem_cons_self ..)
    have hc := hb.cancel hgo
    have hrest : ∀ x ∈ os, (b.cancel o.orderId o.accountId).1.get x.orderId = some x ∧
        x.side = s ∧ x.price = px := by
      intro x hx
      rw [get_cancel hb hgo,if_neg (Ne.symm (hne x hx))]
      exact hget x (List.mem_cons_of_mem _ hx)
    have hlevel : ∀ t xs, levelView (b.cancel o.orderId o.accountId).1 s px = some (t,xs) → xs = os := by
      intro t xs hx
      rw [levelView_cancel hb hgo,if_pos ⟨hside.symm,hprice.symm⟩] at hx
      obtain ⟨v,hvv,hx⟩ := Option.bind_eq_some_iff.mp hx
      split_ifs at hx
      cases hx
      rw [hv v.1 v.2 hvv,List.filter_cons_of_neg (by simp)]
      exact List.filter_eq_self.mpr fun y hy => decide_eq_true (Ne.symm (hne y hy))
    obtain ⟨hd,hl⟩ := ih hc hids hrest hlevel
    refine ⟨⟨hd.wf,hd.level,fun s' p' hsp => ?_⟩,trivial,hl⟩
    have hother := hd.others s' p' hsp
    rw [levelView_cancel hb hgo,if_neg (by rw [hside,hprice]; exact hsp)] at hother
    exact hother

theorem outside_of_worse {makers : Side} {p q : Price} (h : better makers p q) (hne : q ≠ p) :
    outside makers p q = true := by
  cases makers with
  | sell =>
    have : p < q := Int64.lt_of_le_of_ne h (Ne.symm hne)
    simpa [outside] using this
  | buy =>
    have : q < p := Int64.lt_of_le_of_ne h hne
    simpa [outside] using this

theorem outside_self (makers : Side) (p : Price) : outside makers p p = false := by
  cases makers <;> simp [outside]

section Flush
variable {makers : Side} {px : Price} {taker : OrderId}

/-- A taker with limit `px` stops when every level ranks behind `px`. -/
theorem run_of_gone (hb : Wf m.book) (hgone : levelView m.book makers px = none)
    (hworse : ∀ p, levelView m.book makers p ≠ none → better makers px p)
    (h : MatchRun taker px makers m m') : m' = m := by
  cases h with
  | stop _ => rfl
  | pass hnext _ =>
    rcases matchStep_cases hb taker px makers with ⟨hexit,_⟩ | ⟨p,hr,_⟩
    · exact absurd (hnext.symm.trans hexit) (by simp)
    · have hne : p ≠ px := by rintro rfl; exact hr.best.1 hgone
      exact absurd (hr.within.symm.trans (outside_of_worse (hworse p hr.best.1) hne)) (by simp)

/-- A taker with limit `px` drops the best level when no live order is left there. -/
theorem run_of_drained (hb : Wf m.book) (hq : 0 < m.takerQty)
    (hworse : ∀ p, levelView m.book makers p ≠ none → better makers px p)
    (hempty : ∀ t os, levelView m.book makers px = some (t,os) → os = [])
    (h : MatchRun taker px makers m m') :
    Wf m'.book ∧ ∀ s p, levelView m'.book s p =
      if s = makers ∧ p = px then none else levelView m.book s p := by
  cases hv : levelView m.book makers px with
  | none =>
    rw [run_of_gone hb hv hworse h]
    refine ⟨hb,fun s p => ?_⟩
    split_ifs with hsp
    · rw [hsp.1,hsp.2,hv]
    · rfl
  | some v =>
    obtain ⟨t,os⟩ := v
    obtain rfl := hempty t os hv
    have hreach : Reaches m makers px px := ⟨hq,⟨by simp [hv],hworse⟩,outside_self makers px⟩
    rcases matchStep_cases hb taker px makers with ⟨_,hstuck⟩ | ⟨p,hr,x,hx,hcase⟩
    · exact absurd hreach (hstuck px)
    obtain rfl := hreach.best.unique hr.best
    rcases hcase with ⟨_,_,hd⟩ | ⟨_,o,os,hv',_⟩
    · cases h with
      | stop hexit => exact absurd (hexit.symm.trans hx) (by simp)
      | @pass _ m₁ _ hnext tail =>
        obtain rfl : m₁ = x := by simpa using hnext.symm.trans hx
        have hgone : levelView m₁.book makers px = none := by rw [hd.view,if_pos ⟨rfl,rfl⟩]
        have hworse' : ∀ p, levelView m₁.book makers p ≠ none → better makers px p := by
          intro p hp
          rw [hd.view] at hp
          split_ifs at hp with hsp
          · exact absurd rfl hp
          · exact hworse p hp
        rw [run_of_gone hd.wf hgone hworse' tail]
        exact ⟨hd.wf,hd.view⟩
    · exact absurd (hv.symm.trans hv') (by simp)

/-- The operations that remove the best level of a side and touch no other. -/
def flush (makers : Side) (px : Price) (os : List Order) : List BookOp :=
  (os.map fun o => .cancel o.orderId o.accountId) ++ [.matchTaker 0 makers.opposite px 1]

theorem flush_spec (hb : Wf b) {t : Qty} {os : List Order} (hbest : Best b makers px)
    (hv : levelView b makers px = some (t,os)) :
    LegalRun b (flush makers px os) ∧ Wf (b.runOps (flush makers px os)) ∧
    ∀ s p, levelView (b.runOps (flush makers px os)) s p =
      if s = makers ∧ p = px then none else levelView b s p := by
  have hxs : ∀ t' xs, levelView b makers px = some (t',xs) → xs = os := by
    intro t' xs hx
    cases hv.symm.trans hx
    rfl
  obtain ⟨hd,hl⟩ := drained_cancel hb (hb.level_ids hv) (fun o ho => hb.level_orders hv ho) hxs
  set b₁ := b.runOps (os.map fun o => .cancel o.orderId o.accountId) with hb₁
  have hworse : ∀ p, levelView b₁ makers p ≠ none → better makers px p := by
    intro p hp
    by_cases hpx : p = px
    · rw [hpx]; cases makers <;> exact Int64.le_refl _
    · exact hbest.2 p (by rwa [← hd.others makers p (fun h => hpx h.2)])
  obtain ⟨m',hrun,he⟩ := matchTaker_run b₁ 0 makers.opposite px 1
  rw [Side.opposite_opposite] at hrun
  obtain ⟨hw,hview⟩ := run_of_drained (m := ⟨b₁,1,[]⟩) hd.wf (show (0 : Qty) < 1 by decide) hworse hd.level hrun
  have hend : b.runOps (flush makers px os) = m'.book := by
    rw [flush,runOps,List.foldl_append]
    change (b₁.matchTaker 0 makers.opposite px 1).1 = m'.book
    rw [he]
  refine ⟨legalRun_append.mpr ⟨hl,trivial,trivial⟩,hend ▸ hw,fun s p => ?_⟩
  rw [hend,hview]
  split_ifs with hsp
  · rfl
  · exact hd.others s p hsp

end Flush

theorem top_eq_none {s : Side} : b.top s = none ↔ ∀ p, levelView b s p = none := by
  rw [top_eq]
  cases h : bestPrice s (b.levels s) with
  | none => simpa [levelView_eq_none] using bestPrice_eq_none.mp h
  | some px =>
    have hbest := bestPrice_iff.mp h
    obtain ⟨v,hv⟩ := Option.ne_none_iff_exists'.mp hbest.1
    simp only [Option.bind_some,hv,Option.map_some,false_iff,not_forall,reduceCtorEq]
    exact ⟨px,hbest.1⟩

theorem top_eq_some {s : Side} {px : Price} {t : Qty} :
    b.top s = some (px,t) ↔ Best b s px ∧ ∃ os, levelView b s px = some (t,os) := by
  rw [top_eq,Option.bind_eq_some_iff]
  constructor
  · rintro ⟨p,hp,h⟩
    obtain ⟨v,hv,he⟩ := Option.map_eq_some_iff.mp h
    cases he
    exact ⟨bestPrice_iff.mp hp,v.2,hv⟩
  · rintro ⟨hbest,os,hv⟩
    exact ⟨px,bestPrice_iff.mpr hbest,by rw [hv]; rfl⟩

/-- Books with the same queues that no operations tell apart cache the same totals: drop the
best level on both sides of the comparison and look again. -/
theorem Indistinguishable.level {s : Side} (F : Finset Price) (hF : ∀ p, levelView b s p ≠ none → p ∈ F)
    (h : Indistinguishable b c) (hb : Wf b) (hc : Wf c) (habs : b.abs s = c.abs s) (p : Price) :
    levelView b s p = levelView c s p := by
  induction F using Finset.strongInduction generalizing b c with
  | H F ih =>
    cases ht : b.top s with
    | none => rw [top_eq_none.mp ht,top_eq_none.mp ((h.top s).symm.trans ht)]
    | some e =>
      obtain ⟨px,t⟩ := e
      obtain ⟨hbest,os,hv⟩ := top_eq_some.mp ht
      obtain ⟨hbest',os',hv'⟩ := top_eq_some.mp ((h.top s).symm.trans ht)
      obtain rfl : os = os' := by simpa [abs,hv,hv'] using congrFun habs px
      obtain ⟨hl,hbw,hbv⟩ := flush_spec hb hbest hv
      obtain ⟨_,hcw,hcv⟩ := flush_spec hc hbest' hv'
      by_cases hp : p = px
      · rw [hp,hv,hv']
      have hless : ∀ q, levelView (b.runOps (flush s px os)) s q ≠ none → q ∈ F.erase px := by
        intro q hq
        rw [hbv] at hq
        split_ifs at hq with hsp
        · exact absurd rfl hq
        · exact Finset.mem_erase.mpr ⟨fun hqp => hsp ⟨rfl,hqp⟩,hF q hq⟩
      have habs' : (b.runOps (flush s px os)).abs s = (c.runOps (flush s px os)).abs s := by
        funext q
        unfold abs
        rw [hbv,hcv]
        split_ifs
        · rfl
        · exact congrFun habs q
      have hq := ih (F.erase px) (Finset.erase_ssubset (hF px hbest.1)) hless (h.runOps hl) hbw hcw habs'
      rwa [hbv,hcv,if_neg fun hsp => hp hsp.2,if_neg fun hsp => hp hsp.2] at hq

theorem levels_finite (b : OrderBook S) (s : Side) :
    ∃ F : Finset Price, ∀ p, levelView b s p ≠ none → p ∈ F := by
  refine ⟨((b.levels s).toList.map Prod.fst).toFinset,fun p hp => ?_⟩
  obtain ⟨lvl,hl⟩ := Option.ne_none_iff_exists'.mp (mt levelView_eq_none.mpr hp)
  rw [List.mem_toFinset,List.mem_map]
  exact ⟨(p,lvl),OrdMap.mem_toList.mpr hl,rfl⟩

/-! ### The round trip -/

/-- The index gives each live order its key back. -/
theorem Wf.pairs_eq (hb : Wf b) {xs ys : List (ℕ × Order)}
    (hx : ∀ k o, (k,o) ∈ xs → liveAt b.orders k = some o)
    (hy : ∀ k o, (k,o) ∈ ys → liveAt b.orders k = some o)
    (h : xs.map Prod.snd = ys.map Prod.snd) : xs = ys := by
  have hkey : ∀ {zs : List (ℕ × Order)}, (∀ k o, (k,o) ∈ zs → liveAt b.orders k = some o) →
      (zs.map Prod.snd).map (fun o => ((b.index[o.orderId]?).getD 0,o)) = zs := by
    intro zs hz
    rw [List.map_map]
    refine (List.map_congr_left fun e he => ?_).trans (List.map_id zs)
    have hidx := hb.indexed.mpr ⟨e.2,hz e.1 e.2 he,rfl⟩
    simp [hidx]
  rw [← hkey hx,h,hkey hy]

/-- A restored book with the same queues comes from queues in slab order. -/
theorem safe_of_restored (hb : Wf b) (c : OrderBook T)
    (habs : (c.restoreOrders b.liveOrders).abs = b.abs)
    (hind : Indistinguishable b (c.restoreOrders b.liveOrders)) : SnapshotSafe b := by
  obtain ⟨hw,_,hview⟩ := restoreOrders_spec hb.restorable c
  have hqueue : ∀ s p, b.abs s p = ofLevel b.liveOrders s p := by
    intro s p
    rw [← habs,abs,hview]
    split_ifs with hnil
    · exact hnil.symm
    · rfl
  have hlevel : ∀ {s p lvl}, (b.levels s)[p]? = some lvl → b.abs s p = liveQueue b.orders lvl.queue := by
    intro s p lvl hl
    simp [abs,levelView,hl]
  refine ⟨?_,?_,?_⟩
  · intro k o hk
    have hm : o ∈ ofLevel b.liveOrders o.side o.price :=
      List.mem_filter.mpr ⟨mem_liveOrders.mpr ⟨k,hk⟩,by simp⟩
    rw [← hqueue] at hm
    cases hl : (b.levels o.side)[o.price]? with
    | none => simp [abs,levelView,hl] at hm
    | some lvl =>
      rw [hlevel hl] at hm
      obtain ⟨j,hj,hlive⟩ := mem_liveQueue.mp hm
      obtain rfl := hb.key_unique hk hlive rfl
      exact ⟨lvl,rfl,hj⟩
  · intro s p lvl hl
    obtain ⟨F,hF⟩ := levels_finite b s
    have hv := hind.level F hF hb hw (congrFun habs s).symm p
    rw [hview,levelView,hl,Option.map_some] at hv
    split_ifs at hv with hnil
    obtain ⟨htot,hq⟩ := Prod.mk.inj (Option.some.inj hv)
    rw [hq]
    exact ⟨hnil,htot⟩
  · intro s p lvl hl
    have hsnd : (liveKeys b.orders lvl.queue).map Prod.snd = (b.entriesOf s p).map Prod.snd := by
      rw [liveKeys_snd,entriesOf_snd,← hlevel hl,hqueue]
    rw [hb.pairs_eq (fun k o h => (mem_liveKeys.mp h).2) (fun k o h => (mem_entriesOf.mp h).1) hsnd]
    exact b.liveEntries_sorted.filter _

/-- The claim a snapshot makes: the restored book has the same queues, and no later legal
operations tell it from the original. -/
def SnapshotFaithful (b : OrderBook S) (b' : OrderBook T) : Prop :=
  b'.abs = b.abs ∧ Indistinguishable b b'

/-- Restoring a snapshot gives back the book exactly when it is safe. -/
theorem Reached.snapshot_roundtrip_iff {sym : SymbolId} (h : Reached sym b)
    (postcard : Codec (List Order)) (c : OrderBook T) :
    (∃ b', c.restoreFromSnapshot postcard (b.serializeSnapshot postcard) = some b' ∧
      SnapshotFaithful b b') ↔ SnapshotSafe b := by
  have hb := h.wf
  have hr : c.restoreFromSnapshot postcard (b.serializeSnapshot postcard) =
      some (c.restoreOrders b.liveOrders) := by
    simp [restoreFromSnapshot,serializeSnapshot]
  rw [hr]
  constructor
  · rintro ⟨b',he,habs,hind⟩
    cases he
    exact safe_of_restored hb c habs hind
  · intro hs
    have hsv := hs.sameView hb c
    refine ⟨_,rfl,?_,fun ops hl => hsv.observe hb (restoreOrders_spec hb.restorable c).1 hl⟩
    funext s p
    exact congrArg (fun v => v.elim [] Prod.snd) (hsv.level s p).symm

/-- With all live quantity below `2^63` only time order can be lost. -/
theorem Inv.snapshotSafe_iff (hb : Inv b) : SnapshotSafe b ↔
    ∀ (s : Side) (p : Price) (lvl : Level), (b.levels s)[p]? = some lvl →
      (liveKeys b.orders lvl.queue).Pairwise fun x y => x.1 < y.1 := by
  constructor
  · exact fun h _ _ _ hl => h.ordered hl
  · intro h
    refine ⟨?_,?_,h _ _ _⟩
    · intro k o hk
      obtain ⟨t,os,hv,hm⟩ := hb.reach (hb.toWf.get_iff.mpr ⟨k,hk,rfl⟩)
      obtain ⟨lvl,hl,he⟩ := Option.map_eq_some_iff.mp hv
      cases he
      obtain ⟨j,hj,hlive⟩ := mem_liveQueue.mp hm
      obtain rfl := hb.toWf.key_unique hk hlive rfl
      exact ⟨lvl,hl,hj⟩
    · intro s p lvl hl
      have hv : levelView b s p = some (lvl.totalQty,liveQueue b.orders lvl.queue) := by
        simp [levelView,hl]
      obtain ⟨htot,hne⟩ := hb.total hv
      refine ⟨hne,Int64.toInt_inj.mp ?_⟩
      have hlt := Int64.toInt_lt lvl.totalQty
      rw [htot] at hlt ⊢
      exact (toInt_sum (level_pos hv) hlt).symm

/-- Two asks at one price, the first filled and its slot taken by a third. -/
def refilled : OrderBook (FreeListSlab Order) := (new 1).runOps
  [.insertResting ⟨1,7,1,.sell,100,5,.gtc,⟨false⟩⟩,.insertResting ⟨2,7,1,.sell,100,5,.gtc,⟨false⟩⟩,
    .matchTaker 3 .buy 100 5,.insertResting ⟨4,7,1,.sell,100,5,.gtc,⟨false⟩⟩]

/-- The snapshot of `refilled` puts the newer order first. -/
theorem refilled_not_restored : Reached 1 refilled ∧ ¬ ∃ b' : OrderBook (FreeListSlab Order),
    (new 1 : OrderBook (FreeListSlab Order)).restoreFromSnapshot Order.wire.seq.codec
      (refilled.serializeSnapshot Order.wire.seq.codec) = some b' ∧ SnapshotFaithful refilled b' := by
  refine ⟨Reached.new.run (by decide +kernel),?_⟩
  rintro ⟨b',he,habs,_⟩
  rw [restoreFromSnapshot,serializeSnapshot,Codec.decode_encode,Option.map_some] at he
  cases he
  have hq := congrFun (congrFun habs .sell) 100
  revert hq
  decide +kernel

/-- Two asks at one price, in the order they came. -/
def twoAsks : OrderBook (FreeListSlab Order) := (new 1).runOps
  [.insertResting ⟨1,7,1,.sell,100,5,.gtc,⟨false⟩⟩,.insertResting ⟨2,7,1,.sell,100,5,.gtc,⟨false⟩⟩]

theorem twoAsks_reachable : Reachable 1 twoAsks :=
  (Reachable.new.step (.insertResting ⟨1,7,1,.sell,100,5,.gtc,⟨false⟩⟩) (by decide +kernel)).step
    (.insertResting ⟨2,7,1,.sell,100,5,.gtc,⟨false⟩⟩) (by decide +kernel)

theorem twoAsks_safe : SnapshotSafe twoAsks := by
  refine twoAsks_reachable.inv.snapshotSafe_iff.mpr fun s p lvl hl => ?_
  have hall : ∀ s ∈ [Side.buy,Side.sell], ∀ e ∈ (twoAsks.levels s).toList,
      (liveKeys twoAsks.orders e.2.queue).Pairwise fun x y => x.1 < y.1 := by decide +kernel
  exact hall s (by cases s <;> decide) (p,lvl) (OrdMap.mem_toList.mpr hl)

theorem snapshot_roundtrip_twoAsks : ∃ b' : OrderBook (FreeListSlab Order),
    (new 1 : OrderBook (FreeListSlab Order)).restoreFromSnapshot Order.wire.seq.codec
      (twoAsks.serializeSnapshot Order.wire.seq.codec) = some b' ∧ SnapshotFaithful twoAsks b' :=
  (twoAsks_reachable.reached.snapshot_roundtrip_iff Order.wire.seq.codec (new 1)).mpr twoAsks_safe

end OrderBook
end HighPerfTrading
