import HighPerfTrading.Engine.EngineSpec
import HighPerfTrading.Engine.BookSnapshot

/-! Rejected commands. Every refusal comes before the book is touched, except that of a
replacement: by then the old order has been cancelled. -/
namespace HighPerfTrading
namespace Engine
variable {S : Type}

/-- An order is tested for crossing against the other side only. -/
theorem wouldCross_congr {b c : OrderBook S} {s : Side} (h : b.levels s.opposite = c.levels s.opposite)
    (px : Price) : b.wouldCross s px = c.wouldCross s px := by
  cases s with
  | buy =>
    have h' : b.asks = c.asks := h
    simp [OrderBook.wouldCross,OrderBook.bestAsk,h']
  | sell =>
    have h' : b.bids = c.bids := h
    simp [OrderBook.wouldCross,OrderBook.bestBid,h']

variable [Slab S Order] {e : Engine S}

/-- The events carry a rejection. -/
def Rejects (evs : List Event) : Prop := ∃ r, Event.reject r ∈ evs

/-- The state a rejected command must not touch. -/
structure Unchanged (e e' : Engine S) : Prop where
  index : e'.book.index = e.book.index
  live : ∀ id, e'.book.get id = e.book.get id
  levels : ∀ s p, e'.book.levelView s p = e.book.levelView s p
  accounts : e'.accountManager = e.accountManager

theorem Unchanged.of_eq {e' : Engine S} (hb : e'.book = e.book) (ha : e'.accountManager = e.accountManager) :
    Unchanged e e' :=
  ⟨by rw [hb],by simp [hb],by simp [hb],ha⟩

/-- A valid replacement by the owner that the new price or quantity gets refused. -/
def ReplaceRefused (e : Engine S) (r : Replace) : Prop :=
  r.symbolId = e.book.symbolId ∧ 0 < r.newQty ∧
    ∃ o, e.book.get r.orderId = some o ∧ o.accountId = r.accountId ∧
      (e.accountManager.checkRisk r.accountId o.side r.newQty ≠ .ok () ∨
        o.flags.postOnly = true ∧ e.book.wouldCross o.side r.newPrice = true)

theorem wouldCross_cancel {b : OrderBook S} {id : OrderId} {o : Order} (ho : b.get id = some o) (px : Price) :
    (b.cancel id o.accountId).1.wouldCross o.side px = b.wouldCross o.side px := by
  refine wouldCross_congr ?_ px
  obtain ⟨k,hk,hg⟩ := OrderBook.get_eq_some.mp ho
  simp [OrderBook.cancel,hk,hg,Ne.symm (Side.opposite_ne o.side)]

/-- The replacement is refused on the book without the old order, for the same reasons as on
the book with it. -/
theorem refusal_replacement {r : Replace} {o : Order} (hs : r.symbolId = e.book.symbolId)
    (hq : 0 < r.newQty) (ho : e.book.get r.orderId = some o) (ha : o.accountId = r.accountId) :
    ({ e with book := (e.book.cancel r.orderId r.accountId).1 } : Engine S).refusal (replacement r o) ≠ none ↔
      e.ReplaceRefused r := by
  have hcross := wouldCross_cancel ho r.newPrice
  have hsym := OrderBook.symbolId_cancel e.book r.orderId r.accountId
  rw [ha] at hcross
  have hiff : e.ReplaceRefused r ↔ (e.accountManager.checkRisk r.accountId o.side r.newQty ≠ .ok () ∨
      o.flags.postOnly = true ∧ e.book.wouldCross o.side r.newPrice = true) := by
    constructor
    · rintro ⟨_,_,x,hx,_,h⟩
      obtain rfl := Option.some.inj (ho.symm.trans hx)
      exact h
    · exact fun h => ⟨hs,hq,o,ho,ha,h⟩
  rw [hiff]
  unfold refusal replacement
  simp only [hsym,hcross]
  rw [if_neg (by simpa [hs] using Int64.not_le.mpr hq)]
  cases e.accountManager.checkRisk r.accountId o.side r.newQty with
  | error reason => simp
  | ok _ => by_cases hp : o.flags.postOnly = true ∧ e.book.wouldCross o.side r.newPrice = true <;> simp [hp]

theorem handleNew_unchanged (no : NewOrder) (h : Rejects (e.handleNew no).2) :
    Unchanged e (e.handleNew no).1 := by
  rw [handleNew_eq] at h ⊢
  cases hr : e.refusal no with
  | some reason => exact .of_eq rfl rfl
  | none =>
    rw [hr] at h
    obtain ⟨r,hm⟩ := h
    exact absurd hm (accepted_no_reject hr r)

theorem handleCancel_unchanged (c : Cancel) (h : Rejects (e.handleCancel c).2) :
    Unchanged e (e.handleCancel c).1 := by
  rcases e.handleCancel_cases c with ⟨o,-,-,-,hc⟩ | ⟨reason,hc⟩
  · rw [hc] at h
    obtain ⟨r,hm⟩ := h
    simp [topThenAck,bookTopEvent,ack] at hm
  · rw [hc]
    exact .of_eq rfl rfl

/-- A replacement that gets as far as the cancellation and no further loses the old order. -/
theorem handleReplace_unchanged_iff (r : Replace) :
    (Rejects (e.handleReplace r).2 → Unchanged e (e.handleReplace r).1) ↔ ¬ e.ReplaceRefused r := by
  rcases e.handleReplace_cases r with ⟨o,hs,hq,ho,ha,hc⟩ | ⟨hnone,reason,hc⟩
  · rw [hc,ha,← refusal_replacement hs hq ho ha,not_not,handleNew_eq]
    cases hr : ({ e with book := (e.book.cancel r.orderId r.accountId).1 } : Engine S).refusal
        (replacement r o) with
    | none =>
      refine iff_of_true (fun h => ?_) rfl
      obtain ⟨x,hx⟩ := h
      exact absurd hx (accepted_no_reject hr x)
    | some reason =>
      refine iff_of_false (fun h => ?_) (by simp)
      have hu := (h ⟨_,List.mem_singleton.mpr rfl⟩).index
      obtain ⟨k,hk,_⟩ := OrderBook.get_eq_some.mp ho
      have hgone : ((e.book.cancel r.orderId r.accountId).1.index)[r.orderId]? = none := by
        rw [← ha,OrderBook.cancel_index ho]
        simp
      rw [rejected_book] at hu
      rw [hu,hk] at hgone
      exact absurd hgone (by simp)
  · rw [hc]
    refine iff_of_true (fun _ => .of_eq rfl rfl) ?_
    rintro ⟨hs,hq,o,ho,ha,-⟩
    exact hnone o hs hq ho ha

/-- A rejection leaves the book, the positions and the limits alone unless it is the refusal
of a replacement whose order has already been taken out. -/
theorem rejected_unchanged_iff (e : Engine S) (cmd : Command) :
    (Rejects (e.process cmd).2 → Unchanged e (e.process cmd).1) ↔
      ¬ ∃ r, cmd = .replace r ∧ e.ReplaceRefused r := by
  cases cmd with
  | newOrder no => exact iff_of_true (handleNew_unchanged no) (by simp)
  | cancel c => exact iff_of_true (handleCancel_unchanged c) (by simp)
  | replace r =>
    rw [process,handleReplace_unchanged_iff]
    simp
  | setRiskLimits srl =>
    refine iff_of_true (fun h => ?_) (by simp)
    obtain ⟨r,hr⟩ := h
    simp [process,handleSetRiskLimits,ack] at hr
  | queryAccount qa => exact iff_of_true (fun _ => .of_eq rfl rfl) (by simp)
  | authenticate a => exact iff_of_true (fun _ => .of_eq rfl rfl) (by simp)

/-- An ask of five lots replaced by one of two thousand: the size limit refuses the new order
and the old one is gone. -/
theorem rejected_replace_removes :
    let e : Engine (FreeListSlab Order) := ((new : Engine (FreeListSlab Order)).process
      (.newOrder ⟨1,1,7,1,.sell,100,5,.gtc,⟨false⟩⟩)).1
    Rejects (e.process (.replace ⟨2,1,7,1,101,2000⟩)).2 ∧
      ¬ Unchanged e (e.process (.replace ⟨2,1,7,1,101,2000⟩)).1 := by
  refine ⟨⟨⟨3,2,some 1,.risk⟩,by decide +kernel⟩,fun h => ?_⟩
  have hlive := h.live 1
  revert hlive
  decide +kernel

end Engine
end HighPerfTrading
