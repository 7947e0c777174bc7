import HighPerfTrading.Engine.BookRepresentation
import HighPerfTrading.Engine.EngineStep

/-! The book is never crossed: an order rests only when the matching loop has left nothing within
its limit. Order ids play no part in this. -/
namespace HighPerfTrading
namespace OrderBook
variable {S : Type} [Slab S Order] {b b' : OrderBook S}

/-- Every live bid is below every live ask. -/
def Uncrossed (b : OrderBook S) : Prop :=
  ∀ k j x y, liveAt b.orders k = some x → liveAt b.orders j = some y → x.side = .buy → y.side = .sell →
    x.price < y.price

/-- The live orders of one book keep their side and price in the other. -/
def Shrinks (b b' : OrderBook S) : Prop :=
  ∀ k x', liveAt b'.orders k = some x' → ∃ x, liveAt b.orders k = some x ∧ x'.side = x.side ∧ x'.price = x.price

theorem Shrinks.refl (b : OrderBook S) : Shrinks b b := fun _ x hx => ⟨x,hx,rfl,rfl⟩

theorem Shrinks.trans {b'' : OrderBook S} (h : Shrinks b b') (h' : Shrinks b' b'') : Shrinks b b'' := by
  intro k x'' hx''
  obtain ⟨x',hx',hs',hp'⟩ := h' k x'' hx''
  obtain ⟨x,hx,hs,hp⟩ := h k x' hx'
  exact ⟨x,hx,hs'.trans hs,hp'.trans hp⟩

theorem Uncrossed.shrinks (hb : Uncrossed b) (h : Shrinks b b') : Uncrossed b' := by
  intro k j x' y' hx' hy' hxs hys
  obtain ⟨x,hx,hs,hp⟩ := h k x' hx'
  obtain ⟨y,hy,hs',hp'⟩ := h j y' hy'
  rw [hp,hp']
  exact hb k j x y hx hy (hs.symm.trans hxs) (hs'.symm.trans hys)

theorem shrinks_cancel {id : OrderId} {o : Order} (ho : b.get id = some o) :
    Shrinks b (b.cancel id o.accountId).1 := by
  obtain ⟨k,hk,hg⟩ := get_eq_some.mp ho
  intro j x hx
  rw [liveAt_cancel hk hg] at hx
  split_ifs at hx
  exact ⟨x,hx,rfl,rfl⟩

theorem Pass.shrinks {m m' : Matching S} {taker : OrderId} {limit : Price} {makers : Side}
    (h : Pass taker limit makers m m') : Shrinks m.book m'.book := by
  cases h with
  | drop px lvl hr hl hdead =>
    intro k x hx
    rw [setLevels_orders] at hx
    exact ⟨x,hx,rfl,rfl⟩
  | trade px lvl k rest o hr hl hk hfront hs =>
    intro j x hx
    rw [tradeWith_liveAt hk hr.qty] at hx
    split_ifs at hx with hj
    · obtain ⟨rfl,-⟩ := afterTrade_eq_some hx
      exact ⟨o,hj ▸ hk,rfl,rfl⟩
    · exact ⟨x,hx,rfl,rfl⟩

/-- The order is compatible with every live order of the other side. -/
def Clear (b : OrderBook S) (o : Order) : Prop :=
  ∀ k y, liveAt b.orders k = some y → y.side = o.side.opposite → outside o.side.opposite o.price y.price = true

theorem Uncrossed.insertResting (hb : Uncrossed b) {o : Order} (ho : 0 < o.qtyRem) (hc : Clear b o) :
    Uncrossed (b.insertResting o) := by
  intro k j x y hx hy hxs hys
  rw [insertResting_orders,liveAt_insert ho] at hx hy
  split_ifs at hx hy
  · obtain rfl := Option.some.inj hx
    obtain rfl := Option.some.inj hy
    rw [hxs] at hys; cases hys
  · obtain rfl := Option.some.inj hx
    have hout := hc j y hy (by rw [hxs,hys]; rfl)
    rw [hxs] at hout
    exact of_decide_eq_true hout
  · obtain rfl := Option.some.inj hy
    have hout := hc k x hx (by rw [hxs,hys]; rfl)
    rw [hys] at hout
    exact of_decide_eq_true hout
  · exact hb k j x y hx hy hxs hys

/-- After matching, what is left of the taker meets no live order within its limit. -/
theorem Sound.matchTaker_stuck (hb : Sound b) (taker : OrderId) (side : Side) (limit : Price) (qty : Qty) :
    Shrinks b (b.matchTaker taker side limit qty).1 ∧
      (0 < qty-((b.matchTaker taker side limit qty).2.map MatchFill.qty).sum →
        ∀ k y, liveAt (b.matchTaker taker side limit qty).1.orders k = some y → y.side = side.opposite →
          outside side.opposite limit y.price = true) := by
  obtain ⟨m',hrun,he⟩ := matchTaker_run b taker side limit qty
  rw [he]
  have hkeeps := hrun.keeps (P := fun m => Sound m.book ∧ Shrinks b m.book ∧
    m.takerQty = qty-(m.fills.map MatchFill.qty).sum) ?_ ⟨hb,Shrinks.refl b,by simp⟩
  · obtain ⟨⟨hs,hshrinks,hleft⟩,hstuck⟩ := hkeeps
    refine ⟨hshrinks,fun hq k y hy hside => ?_⟩
    obtain ⟨lvl,hl,-⟩ := hs.waits hy
    cases hout : outside side.opposite limit y.price with
    | true => rfl
    | false =>
      have hlevel : levelView m'.book side.opposite y.price ≠ none := by simp [levelView_eq_some (hside ▸ hl)]
      obtain ⟨p,hr⟩ := exists_reaches (hleft ▸ hq) hlevel hout
      exact absurd hr (hstuck p)
  · rintro x y ⟨hs,hshrinks,hleft⟩ hpass
    refine ⟨hs.pass hpass,hshrinks.trans hpass.shrinks,?_⟩
    cases hpass with
    | drop px lvl hr hl hdead => exact hleft
    | trade px lvl k rest o hr hl hk hfront hs =>
      simp only [tradeWith,List.map_append,List.sum_append,hleft]
      simp [sub_sub]

end OrderBook

namespace Engine
open OrderBook
variable {S : Type} [Slab S Order] {e : Engine S} {b : OrderBook S}

structure Tidy (b : OrderBook S) : Prop where
  sound : Sound b
  uncrossed : Uncrossed b

namespace Tidy

theorem new (sym : SymbolId) : Tidy (OrderBook.new sym : OrderBook S) :=
  ⟨Sound.new sym,by simp [Uncrossed,OrderBook.new,liveAt]⟩

theorem cancel (hb : Tidy b) {id : OrderId} {o : Order} (ho : b.get id = some o) :
    Tidy (b.cancel id o.accountId).1 :=
  ⟨hb.sound.cancel ho,hb.uncrossed.shrinks (shrinks_cancel ho)⟩

theorem newBook (hb : Tidy b) {no : NewOrder} (hq : liveQty (newBook b no) < 2^63) : Tidy (newBook b no) := by
  obtain ⟨hshrinks,hstuck⟩ := hb.sound.matchTaker_stuck no.orderId no.side no.price no.qty
  have hs := hb.sound.matchTaker no.orderId no.side no.price no.qty
  rw [← matched_eq] at hs hshrinks hstuck
  simp only at hs hshrinks hstuck
  have hu := hb.uncrossed.shrinks hshrinks
  unfold Engine.newBook at hq ⊢
  split_ifs at hq ⊢ with hrest
  · exact ⟨hs.insertResting hrest.1 hq,hu.insertResting hrest.1 (hstuck hrest.1)⟩
  · exact ⟨hs,hu⟩

theorem process (hb : Tidy e.book) {cmd : Command} (hq : liveQty (e.process cmd).1.book < 2^63) :
    Tidy (e.process cmd).1.book := by
  have hstep := e.process_core cmd
  generalize (e.process cmd).1.book = b' at hq hstep ⊢
  generalize (e.process cmd).1.accountManager = m' at hstep
  cases hstep with
  | same => exact hb
  | limits => exact hb
  | placed hr => exact hb.newBook hq
  | cancelled ho hacct => exact hb.cancel ho
  | lost ho hacct => exact hb.cancel ho
  | replaced ho hacct hr => exact (hb.cancel ho).newBook hq

theorem restore (hb : Tidy b) (hq : liveQty b < 2^63) (c : OrderBook S) : Tidy (c.restoreOrders b.liveOrders) := by
  obtain ⟨hs,-,-,hlive⟩ := restoreOrders_sound (liveOrders_pos (b := b)) hq c
  refine ⟨hs,fun k j x y hx hy => ?_⟩
  obtain ⟨k',hx'⟩ := mem_liveOrders.mp (hlive k x hx)
  obtain ⟨j',hy'⟩ := mem_liveOrders.mp (hlive j y hy)
  exact hb.uncrossed k' j' x y hx' hy'

end Tidy

/-- Engines reached by any commands and by restoring the book from its own snapshot, while the live
quantities sum below `2^63`. -/
inductive Reached (postcard : Codec (List Order)) : Engine S → Prop
  | new : Reached postcard Engine.new
  | command {e : Engine S} (h : Reached postcard e) (cmd : Command)
      (hq : liveQty (e.process cmd).1.book < 2^63) : Reached postcard (e.process cmd).1
  | restore {e : Engine S} (h : Reached postcard e) {b : OrderBook S}
      (hr : e.book.restoreFromSnapshot postcard (e.book.serializeSnapshot postcard) = some b) :
      Reached postcard { e with book := b }

theorem Reached.tidy {postcard : Codec (List Order)} (h : Reached postcard e) :
    Tidy e.book ∧ liveQty e.book < 2^63 := by
  induction h with
  | new => exact ⟨Tidy.new 1,by simp [Engine.new,OrderBook.new,liveQty,liveOrders]⟩
  | command _ cmd hq ih => exact ⟨ih.1.process hq,hq⟩
  | @restore e _ b hr ih =>
    rw [restoreFromSnapshot,serializeSnapshot,Codec.decode_encode,Option.map_some] at hr
    obtain rfl := Option.some.inj hr
    obtain ⟨-,-,hq,-⟩ := restoreOrders_sound (liveOrders_pos (b := e.book)) ih.2 e.book
    exact ⟨ih.1.restore ih.2 e.book,by rw [hq]; exact ih.2⟩

/-- Whatever ids and prices the commands name, the best bid stays below the best ask. -/
theorem Reached.bid_below_ask {postcard : Codec (List Order)} (h : Reached postcard e) :
    e.book.bestBid = none ∨ e.book.bestAsk = none ∨
      ∃ bid ask, e.book.bestBid = some bid ∧ e.book.bestAsk = some ask ∧ bid.1 < ask.1 := by
  obtain ⟨⟨hs,hu⟩,-⟩ := h.tidy
  have hbid := hs.showsBest .buy
  have hask := hs.showsBest .sell
  simp only [top] at hbid hask
  cases hb : e.book.bestBid with
  | none => exact Or.inl rfl
  | some bid =>
    cases ha : e.book.bestAsk with
    | none => exact Or.inr (Or.inl rfl)
    | some ask =>
      rw [hb] at hbid
      rw [ha] at hask
      obtain ⟨⟨x,hx,hxs,hxp⟩,-⟩ := hbid
      obtain ⟨⟨y,hy,hys,hyp⟩,-⟩ := hask
      obtain ⟨k,hk⟩ := mem_liveOrders.mp hx
      obtain ⟨j,hj⟩ := mem_liveOrders.mp hy
      refine Or.inr (Or.inr ⟨bid,ask,rfl,rfl,?_⟩)
      rw [← hxp,← hyp]
      exact hu k j x y hk hj hxs hys

/-- A bid and an ask rest under one id, and the book is restored. -/
theorem sharedId_below : ∃ e : Engine (FreeListSlab Order), Reached Order.wire.seq.codec e ∧
    e.book.bestBid = some (100,5) ∧ e.book.bestAsk = some (101,3) ∧ (100 : Price) < 101 := by
  have hrun : Reached Order.wire.seq.codec
      ((((Engine.new : Engine (FreeListSlab Order)).process (.newOrder ⟨1,9,7,1,.buy,100,5,.gtc,⟨false⟩⟩)).1.process
        (.newOrder ⟨2,9,8,1,.sell,101,3,.gtc,⟨true⟩⟩)).1) :=
    (Reached.new.command (.newOrder ⟨1,9,7,1,.buy,100,5,.gtc,⟨false⟩⟩) (by decide +kernel)).command
      (.newOrder ⟨2,9,8,1,.sell,101,3,.gtc,⟨true⟩⟩) (by decide +kernel)
  have hrestored := hrun.restore (b := OrderBook.restoreOrders _ (OrderBook.liveOrders _)) (by
    rw [restoreFromSnapshot,serializeSnapshot,Codec.decode_encode,Option.map_some])
  refine ⟨_,hrestored,by decide +kernel,by decide +kernel,?_⟩
  rcases hrestored.bid_below_ask with hnone | hnone | ⟨bid,ask,hbid,hask,hlt⟩
  · exact absurd hnone (by decide +kernel)
  · exact absurd hnone (by decide +kernel)
  · have hbid' : bid.1 = 100 := congrArg Prod.fst (Option.some.inj (hbid.symm.trans (by decide +kernel :
      _ = some ((100 : Price),(5 : Qty)))))
    have hask' : ask.1 = 101 := congrArg Prod.fst (Option.some.inj (hask.symm.trans (by decide +kernel :
      _ = some ((101 : Price),(3 : Qty)))))
    rwa [hbid',hask'] at hlt

end Engine
end HighPerfTrading
