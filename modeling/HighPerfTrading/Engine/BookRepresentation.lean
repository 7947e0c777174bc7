import HighPerfTrading.Engine.LiveSum

/-! The representation of the book: levels, queues, slab and index agree after every operation and
after a restore, and the tops are those of the live orders. -/
namespace HighPerfTrading
namespace OrderBook
variable {S : Type} [Slab S Order] {b b' : OrderBook S}

/-! ### Slots -/

/-- A slot holds a live order or one that is marked dead. -/
def NonNeg (b : OrderBook S) : Prop := ∀ k o, Slab.get b.orders k = some o → 0 ≤ o.qtyRem

namespace NonNeg

theorem empty (h : ∀ k, Slab.get b.orders k = none) : NonNeg b := fun k o ho => by rw [h] at ho; cases ho

theorem insertResting (hb : NonNeg b) {o : Order} (ho : 0 < o.qtyRem) : NonNeg (b.insertResting o) := by
  intro k x hx
  rw [insertResting_orders,Slab.get_insert] at hx
  split_ifs at hx
  · obtain rfl := Option.some.inj hx
    exact Int64.le_of_lt ho
  · exact hb k x hx

theorem cancel (hb : NonNeg b) {id : OrderId} {o : Order} (ho : b.get id = some o) :
    NonNeg (b.cancel id o.accountId).1 := by
  obtain ⟨k,hk,hg⟩ := get_eq_some.mp ho
  intro j x hx
  rw [slot_cancel hk hg] at hx
  split_ifs at hx
  · obtain rfl := Option.some.inj hx
    exact Int64.le_refl 0
  · exact hb j x hx

theorem pass {m m' : Matching S} {taker : OrderId} {limit : Price} {makers : Side} (hb : NonNeg m.book)
    (h : Pass taker limit makers m m') : NonNeg m'.book := by
  cases h with
  | drop px lvl hr hl hdead =>
    intro k x hx
    rw [setLevels_orders] at hx
    exact hb k x hx
  | trade px lvl k rest o hr hl hk hfront hs =>
    obtain ⟨hg,ho⟩ := liveAt_eq_some.mp hk
    obtain ⟨_,_,_,hleft,_⟩ := min_qty hr.qty ho
    intro j x hx
    by_cases hj : j = k
    · rw [hj] at hx
      by_cases hz : o.qtyRem-min m.takerQty o.qtyRem = 0
      · simp [tradeWith,hz] at hx
      · rw [tradeWith_get_self hg hz] at hx
        obtain rfl := Option.some.inj hx
        exact Int64.le_of_lt (hleft.resolve_left hz)
    · rw [tradeWith_get hj] at hx
      exact hb j x hx

end NonNeg

/-! ### Restoring -/

/-- Resting an order adds its quantity. -/
theorem liveQty_insertResting (b : OrderBook S) {o : Order} (ho : 0 < o.qtyRem) :
    liveQty (b.insertResting o) = liveQty b+o.qtyRem.toInt :=
  liveSum_insertResting (fun o => o.qtyRem.toInt) b ho

theorem Sound.clear (b : OrderBook S) : Sound b.clear where
  queued := (Wf.clear b).queued
  nodup := (Wf.clear b).nodup
  indexed := by simp [OrderBook.clear]
  waits := by simp [OrderBook.clear,liveAt]
  total := by simp [levelView_clear]

/-- Resting positive orders that fit, whatever their ids: the book is sound and holds nothing else. -/
theorem restoreOrders_sound {os : List Order} (hpos : ∀ o ∈ os, 0 < o.qtyRem) (hfits : sumQty os < 2^63)
    (b : OrderBook S) : Sound (b.restoreOrders os) ∧ NonNeg (b.restoreOrders os) ∧
      liveQty (b.restoreOrders os) = sumQty os ∧ ∀ k o, liveAt (b.restoreOrders os).orders k = some o → o ∈ os := by
  induction os using List.reverseRecOn with
  | nil =>
    refine ⟨Sound.clear b,NonNeg.empty (by simp [restoreOrders,clear]),?_,?_⟩
    · simp [restoreOrders,clear,liveQty,liveOrders]
    · simp [restoreOrders,clear,liveAt]
  | append_singleton os o ih =>
    have ho := hpos o (List.mem_append_right _ (List.mem_singleton.mpr rfl))
    have hnn := Int64.pos_iff_toInt.mp ho
    have hsum : sumQty (os ++ [o]) = sumQty os+o.qtyRem.toInt := by simp
    rw [hsum] at hfits ⊢
    obtain ⟨hs,hn,hq,hlive⟩ := ih (fun x hx => hpos x (List.mem_append_left _ hx)) (by omega)
    have he : b.restoreOrders (os ++ [o]) = (b.restoreOrders os).insertResting o := by simp [restoreOrders]
    have hqty := liveQty_insertResting (b.restoreOrders os) ho
    rw [he]
    refine ⟨hs.insertResting ho (by omega),hn.insertResting ho,by omega,fun k x hx => ?_⟩
    rw [insertResting_orders,liveAt_insert ho] at hx
    split_ifs at hx
    · obtain rfl := Option.some.inj hx
      exact List.mem_append_right _ (List.mem_singleton.mpr rfl)
    · exact List.mem_append_left _ (hlive k x hx)

/-! ### Books with restores -/

/-- Books reached by admissible operations and by restoring snapshots of such books. -/
inductive Rebuilt (postcard : Codec (List Order)) (sym : SymbolId) : OrderBook S → Prop
  | new : Rebuilt postcard sym (OrderBook.new sym)
  | step {b : OrderBook S} (h : Rebuilt postcard sym b) (op : BookOp) (ha : Admissible b op) :
      Rebuilt postcard sym (b.apply op).1
  | restore {b b₀ b' : OrderBook S} (h : Rebuilt postcard sym b) (h₀ : Rebuilt postcard sym b₀)
      (hr : b.restoreFromSnapshot postcard (b₀.serializeSnapshot postcard) = some b') : Rebuilt postcard sym b'

/-- What the operations keep. -/
structure Kept (b : OrderBook S) : Prop where
  inv : Inv b
  nonneg : NonNeg b
  fits : liveQty b < 2^63

theorem Kept.apply (hb : Kept b) {op : BookOp} (ha : Admissible b op) : Kept (b.apply op).1 := by
  obtain ⟨hl,hq⟩ := ha
  refine ⟨hb.inv.apply ⟨hl,hq⟩,?_,hq⟩
  have happlied := b.applied op
  generalize (b.apply op).1 = b',(b.apply op).2 = out at happlied ⊢
  cases happlied with
  | rested order => exact hb.nonneg.insertResting hl.1
  | cancelled id o ho => exact hb.nonneg.cancel ho
  | notCancelled id acct hno => exact hb.nonneg
  | replaced id o px qty ho =>
    rw [replace_accepted ho]
    exact (hb.nonneg.cancel ho).insertResting hl
  | notReplaced id acct px qty hno => exact hb.nonneg
  | matched taker side limit qty =>
    obtain ⟨m',hrun,he⟩ := matchTaker_run b taker side limit qty
    rw [he]
    exact (hrun.keeps (P := fun m => NonNeg m.book) (fun _ _ hx hp => NonNeg.pass hx hp) hb.nonneg).1

theorem Kept.restore (hb : Kept b) (c : OrderBook S) : Kept (c.restoreOrders b.liveOrders) := by
  obtain ⟨hs,hn,hq,-⟩ := restoreOrders_sound (liveOrders_pos (b := b)) hb.fits c
  exact ⟨hs.inv (restoreOrders_spec hb.inv.toWf.restorable c).1,hn,by rw [hq]; exact hb.fits⟩

theorem Rebuilt.kept {postcard : Codec (List Order)} {sym : SymbolId} (h : Rebuilt postcard sym b) : Kept b := by
  induction h with
  | new => exact ⟨Inv.new sym,NonNeg.empty (by simp [OrderBook.new]),by simp [OrderBook.new,liveQty,liveOrders]⟩
  | step _ op ha ih => exact ih.apply ha
  | @restore b b₀ b' h h₀ hr ih ih₀ =>
    rw [restoreFromSnapshot,serializeSnapshot,Codec.decode_encode,Option.map_some] at hr
    obtain rfl := Option.some.inj hr
    exact ih₀.restore b

/-! ### What the invariant says -/

/-- How levels, queues, slab and index belong together. -/
structure Represents (b : OrderBook S) : Prop where
  level : ∀ (s : Side) (p : Price) (lvl : Level), (b.levels s)[p]? = some lvl →
    lvl.totalQty.toInt = sumQty (liveQueue b.orders lvl.queue) ∧ 0 < lvl.totalQty
  once : ∀ (k : ℕ) (o : Order), liveAt b.orders k = some o →
    ∃ lvl, (b.levels o.side)[o.price]? = some lvl ∧ lvl.queue.count k = 1
  only : ∀ (k : ℕ) (o : Order) (s : Side) (p : Price) (lvl : Level), liveAt b.orders k = some o →
    (b.levels s)[p]? = some lvl → k ∈ lvl.queue →
    s = o.side ∧ p = o.price
  stale : ∀ (s : Side) (p : Price) (lvl : Level) (k : ℕ), (b.levels s)[p]? = some lvl → k ∈ lvl.queue →
    ∃ o, Slab.get b.orders k = some o ∧ o.side = s ∧ o.price = p ∧ (0 < o.qtyRem ∨ o.qtyRem = 0)
  index : ∀ (id : OrderId) (k : ℕ), b.index[id]? = some k ↔ ∃ o, liveAt b.orders k = some o ∧ o.orderId = id

/-- The best live price of a side and all live quantity at it. -/
def ShowsBest (b : OrderBook S) (s : Side) : Option (Price × Qty) → Prop
  | none => ∀ o ∈ b.liveOrders, o.side ≠ s
  | some (px,q) => (∃ o ∈ b.liveOrders, o.side = s ∧ o.price = px) ∧
      (∀ o ∈ b.liveOrders, o.side = s → better s px o.price) ∧ q.toInt = sumQty (ofLevel b.liveOrders s px)

theorem Kept.represents (hb : Kept b) : Represents b where
  level s p lvl hl := by
    obtain ⟨ht,hne⟩ := hb.inv.total (levelView_eq_some hl)
    refine ⟨ht,Int64.pos_iff_toInt.mpr ?_⟩
    rw [ht]
    exact sumQty_pos liveQueue_pos hne
  once k o hk := by
    obtain ⟨lvl,hl,hm⟩ := hb.inv.sound.waits hk
    exact ⟨lvl,hl,List.count_eq_one_of_mem (hb.inv.nodup hl) hm⟩
  only k o s p lvl hk hl hm := by
    obtain ⟨x,hx,hs,hp⟩ := hb.inv.queued hl k hm
    obtain rfl := Option.some.inj ((liveAt_eq_some.mp hk).1.symm.trans hx)
    exact ⟨hs.symm,hp.symm⟩
  stale s p lvl k hl hm := by
    obtain ⟨o,ho,hs,hp⟩ := hb.inv.queued hl k hm
    refine ⟨o,ho,hs,hp,?_⟩
    by_cases h0 : 0 < o.qtyRem
    · exact Or.inl h0
    · exact Or.inr (Int64.le_antisymm (Int64.not_lt.mp h0) (hb.nonneg k o ho))
  index id k := hb.inv.indexed

/-- A level holds the live orders of its side and price. -/
theorem Sound.sumQty_level (hb : Sound b) {s : Side} {p : Price} {lvl : Level} (hl : (b.levels s)[p]? = some lvl) :
    sumQty (liveQueue b.orders lvl.queue) = sumQty (ofLevel b.liveOrders s p) := by
  have hperm : (liveKeys b.orders lvl.queue).Perm (b.entriesOf s p) := by
    refine (List.perm_ext_iff_of_nodup ?_ ?_).mpr ?_
    · refine (hb.nodup hl).filterMap ?_
      intro k j e hk hj
      obtain ⟨x,-,rfl⟩ := Option.map_eq_some_iff.mp hk
      obtain ⟨y,-,he⟩ := Option.map_eq_some_iff.mp hj
      exact (congrArg Prod.fst he).symm
    · exact (b.liveEntries_sorted.filter _).imp fun h => by rintro rfl; exact Nat.lt_irrefl _ h
    · rintro ⟨k,o⟩
      rw [mem_liveKeys,mem_entriesOf]
      constructor
      · rintro ⟨hk,ho⟩
        obtain ⟨x,hx,hs,hp⟩ := hb.queued hl k hk
        obtain rfl := Option.some.inj (hx.symm.trans (liveAt_eq_some.mp ho).1)
        exact ⟨ho,hs,hp⟩
      · rintro ⟨ho,rfl,rfl⟩
        obtain ⟨lvl',hl',hk⟩ := hb.waits ho
        obtain rfl := Option.some.inj (hl.symm.trans hl')
        exact ⟨hk,ho⟩
  rw [← liveKeys_snd,← entriesOf_snd]
  exact ((hperm.map Prod.snd).map _).sum_eq

theorem Sound.showsBest (hb : Sound b) (s : Side) : ShowsBest b s (b.top s) := by
  have hlevel : ∀ o ∈ b.liveOrders, o.side = s → levelView b s o.price ≠ none := by
    rintro o ho rfl
    obtain ⟨k,hk⟩ := mem_liveOrders.mp ho
    obtain ⟨lvl,hl,-⟩ := hb.waits hk
    simp [levelView_eq_some hl]
  cases ht : b.top s with
  | none => exact fun o ho hs => hlevel o ho hs (top_eq_none.mp ht o.price)
  | some e =>
    obtain ⟨px,q⟩ := e
    obtain ⟨hbest,os,hv⟩ := top_eq_some.mp ht
    obtain ⟨lvl,hl,he⟩ := Option.map_eq_some_iff.mp hv
    cases he
    obtain ⟨htot,hne⟩ := hb.total hv
    obtain ⟨o,ho⟩ := List.exists_mem_of_ne_nil _ hne
    obtain ⟨k,hm,hk⟩ := mem_liveQueue.mp ho
    obtain ⟨x,hx,hs,hp⟩ := hb.queued hl k hm
    obtain rfl := Option.some.inj (hx.symm.trans (liveAt_eq_some.mp hk).1)
    refine ⟨⟨x,mem_liveOrders.mpr ⟨k,hk⟩,hs,hp⟩,fun y hy hys => hbest.2 _ (hlevel y hy hys),?_⟩
    rw [htot,hb.sumQty_level hl]

/-- Every book reached by operations and restores is represented as above, and its tops are the best
live prices with their exact quantities. -/
theorem Rebuilt.representation {postcard : Codec (List Order)} {sym : SymbolId} (h : Rebuilt postcard sym b) :
    Represents b ∧ ShowsBest b .buy b.bestBid ∧ ShowsBest b .sell b.bestAsk :=
  ⟨h.kept.represents,h.kept.inv.sound.showsBest .buy,h.kept.inv.sound.showsBest .sell⟩

/-- The refilled book comes back from its snapshot with both asks in one level. -/
theorem refilled_restored : ∃ b : OrderBook (FreeListSlab Order),
    (new 1 : OrderBook (FreeListSlab Order)).restoreFromSnapshot Order.wire.seq.codec
      (refilled.serializeSnapshot Order.wire.seq.codec) = some b ∧
      Represents b ∧ ShowsBest b .sell b.bestAsk ∧ b.bestAsk = some (100,10) := by
  have hrefilled : Rebuilt Order.wire.seq.codec 1 refilled :=
    (((Rebuilt.new.step (.insertResting ⟨1,7,1,.sell,100,5,.gtc,⟨false⟩⟩) (by decide +kernel)).step
      (.insertResting ⟨2,7,1,.sell,100,5,.gtc,⟨false⟩⟩) (by decide +kernel)).step
      (.matchTaker 3 .buy 100 5) (by decide +kernel)).step
      (.insertResting ⟨4,7,1,.sell,100,5,.gtc,⟨false⟩⟩) (by decide +kernel)
  have hr : (new 1 : OrderBook (FreeListSlab Order)).restoreFromSnapshot Order.wire.seq.codec
      (refilled.serializeSnapshot Order.wire.seq.codec) = some ((new 1).restoreOrders refilled.liveOrders) := by
    rw [restoreFromSnapshot,serializeSnapshot,Codec.decode_encode,Option.map_some]
  obtain ⟨hrep,-,hask⟩ := (Rebuilt.new.restore hrefilled hr).representation
  exact ⟨_,hr,hrep,hask,by decide +kernel⟩

end OrderBook
end HighPerfTrading
