import HighPerfTrading.Engine.Engine
import HighPerfTrading.Engine.BookMatch

/-! What each handler of the engine does to the book, the accounts and the events: a command
is refused with one rejection, or it is carried out. -/
namespace HighPerfTrading
namespace Engine
open OrderBook
variable {S : Type} {e f : Engine S}

@[simp] theorem rejected_book (cs : UInt64) (id : OrderId) (r : RejectReason) :
    (e.rejected cs id r).1.book = e.book := rfl
@[simp] theorem rejected_commandSeq (cs : UInt64) (id : OrderId) (r : RejectReason) :
    (e.rejected cs id r).1.commandSeq = e.commandSeq := rfl
@[simp] theorem rejected_events (cs : UInt64) (id : OrderId) (r : RejectReason) :
    (e.rejected cs id r).2 = [.reject ⟨e.serverSeq,cs,some id,r⟩] := rfl
@[simp] theorem topThenAck_book (cs : UInt64) (id : OrderId) : (e.topThenAck cs id).1.book = e.book := rfl
@[simp] theorem topThenAck_commandSeq (cs : UInt64) (id : OrderId) :
    (e.topThenAck cs id).1.commandSeq = e.commandSeq := rfl

/-- Why a new order is refused, if it is. -/
def refusal (e : Engine S) (no : NewOrder) : Option RejectReason :=
  if no.symbolId ≠ e.book.symbolId ∨ no.qty ≤ 0 then some .invalid else
    match e.accountManager.checkRisk no.accountId no.side no.qty with
    | .error reason => some reason
    | .ok _ =>
      if no.flags.postOnly ∧ e.book.wouldCross no.side no.price then some .postOnlyWouldCross else none

theorem refusal_none {no : NewOrder} (h : e.refusal no = none) :
    no.symbolId = e.book.symbolId ∧ 0 < no.qty ∧
      e.accountManager.checkRisk no.accountId no.side no.qty = .ok () ∧
      ¬(no.flags.postOnly = true ∧ e.book.wouldCross no.side no.price = true) := by
  unfold refusal at h
  by_cases hv : no.symbolId ≠ e.book.symbolId ∨ no.qty ≤ 0
  · simp [if_pos hv] at h
  rw [if_neg hv] at h
  obtain ⟨hs,hq⟩ := not_or.mp hv
  cases hr : e.accountManager.checkRisk no.accountId no.side no.qty with
  | error reason => simp [hr] at h
  | ok _ =>
    rw [hr] at h
    simp only at h
    split_ifs at h with hp
    exact ⟨not_not.mp hs,Int64.not_le.mp hq,rfl,hp⟩

/-! ### Fills -/

/-- The positions after the fills of a taker. -/
def settle (m : AccountManager) (no : NewOrder) (fs : List MatchFill) : AccountManager :=
  fs.foldl (fun m f => (m.applyFill no.accountId no.side f.price f.qty).applyFill f.makerAccountId
    no.side.opposite f.price f.qty) m

@[simp] theorem getLimits_settle (m : AccountManager) (no : NewOrder) (fs : List MatchFill) (a : AccountId) :
    (settle m no fs).getLimits a = m.getLimits a := by
  induction fs generalizing m with
  | nil => rfl
  | cons f fs ih => exact (ih _).trans rfl

/-- The fill events of a taker, numbered from `seq`. -/
def fillEvents (no : NewOrder) (sym : SymbolId) : UInt64 → List MatchFill → List Event
  | _,[] => []
  | seq,f::fs => .fill ⟨seq,no.clientSeq,sym,f.takerOrderId,f.makerOrderId,f.price,f.qty⟩::
      fillEvents no sym (seq+1) fs

theorem foldl_emitFill (no : NewOrder) (fs : List MatchFill) (e : Engine S) (evs : List Event) :
    (fs.foldl (emitFill no) (e,evs)).1.book = e.book ∧
    (fs.foldl (emitFill no) (e,evs)).1.accountManager = settle e.accountManager no fs ∧
    (fs.foldl (emitFill no) (e,evs)).1.commandSeq = e.commandSeq ∧
    (fs.foldl (emitFill no) (e,evs)).2 = evs ++ fillEvents no e.book.symbolId e.serverSeq fs := by
  induction fs generalizing e evs with
  | nil => exact ⟨rfl,rfl,rfl,by simp [fillEvents]⟩
  | cons f fs ih =>
    obtain ⟨h1,h2,h3,h4⟩ := ih (emitFill no (e,evs) f).1 (emitFill no (e,evs) f).2
    refine ⟨h1,h2,h3,h4.trans ?_⟩
    simp only [emitFill,nextSeq,fillEvents,List.append_assoc]
    rfl

theorem mem_fillEvents {no : NewOrder} {sym : SymbolId} {seq : UInt64} {fs : List MatchFill} {ev : Event}
    (h : ev ∈ fillEvents no sym seq fs) :
    ∃ n, ∃ f ∈ fs, ev = .fill ⟨n,no.clientSeq,sym,f.takerOrderId,f.makerOrderId,f.price,f.qty⟩ := by
  induction fs generalizing seq with
  | nil => cases h
  | cons f fs ih =>
    rcases List.mem_cons.mp h with rfl | h
    · exact ⟨seq,f,List.mem_cons_self ..,rfl⟩
    · obtain ⟨n,g,hg,he⟩ := ih h
      exact ⟨n,g,List.mem_cons_of_mem _ hg,he⟩

/-- Every fill is reported. -/
theorem exists_fillEvent (no : NewOrder) (sym : SymbolId) (seq : UInt64) {fs : List MatchFill} {f : MatchFill} (h : f ∈ fs) :
    ∃ n, .fill ⟨n,no.clientSeq,sym,f.takerOrderId,f.makerOrderId,f.price,f.qty⟩ ∈ fillEvents no sym seq fs := by
  induction fs generalizing seq with
  | nil => cases h
  | cons x fs ih =>
    rcases List.mem_cons.mp h with rfl | h
    · exact ⟨seq,List.mem_cons_self ..⟩
    · obtain ⟨n,hn⟩ := ih (seq+1) h
      exact ⟨n,List.mem_cons_of_mem _ hn⟩

/-! ### A new order -/

variable [Slab S Order]

/-- The whole effect of an order that is not refused. -/
def accepted (e : Engine S) (no : NewOrder) : Engine S × List Event :=
  (((e.execute no).1.topThenAck no.clientSeq no.orderId).1,
    (e.execute no).2 ++ ((e.execute no).1.topThenAck no.clientSeq no.orderId).2)

theorem handleNew_eq (e : Engine S) (no : NewOrder) : e.handleNew no =
    match e.refusal no with
    | some reason => e.rejected no.clientSeq no.orderId reason
    | none => e.accepted no := by
  unfold handleNew refusal
  by_cases h : no.symbolId ≠ e.book.symbolId ∨ no.qty ≤ 0
  · rw [if_pos h,if_pos h]
  rw [if_neg h,if_neg h]
  cases e.accountManager.checkRisk no.accountId no.side no.qty with
  | error reason => rfl
  | ok _ =>
    by_cases hp : no.flags.postOnly ∧ e.book.wouldCross no.side no.price
    · simp only [if_pos hp]
    · simp only [if_neg hp]; rfl

/-- The fills an order meets: none unless it crosses. -/
def fillsOf (b : OrderBook S) (no : NewOrder) : List MatchFill :=
  if b.wouldCross no.side no.price then (b.matchTaker no.orderId no.side no.price no.qty).2 else []

/-- The book after the fills, before the remainder rests. -/
def matched (b : OrderBook S) (no : NewOrder) : OrderBook S :=
  if b.wouldCross no.side no.price then (b.matchTaker no.orderId no.side no.price no.qty).1 else b

def remainder (b : OrderBook S) (no : NewOrder) : Qty := no.qty-((fillsOf b no).map MatchFill.qty).sum

/-- The book after an accepted order. -/
def newBook (b : OrderBook S) (no : NewOrder) : OrderBook S :=
  if 0 < remainder b no ∧ no.tif = .gtc then
    (matched b no).insertResting (resting no (remainder b no))
  else matched b no

theorem execute_spec (e : Engine S) (no : NewOrder) (hq : 0 < no.qty) :
    (e.execute no).1.book = newBook e.book no ∧
    (e.execute no).1.accountManager = settle e.accountManager no (fillsOf e.book no) ∧
    (e.execute no).1.commandSeq = e.commandSeq ∧
    (e.execute no).2 = fillEvents no (matched e.book no).symbolId e.serverSeq (fillsOf e.book no) := by
  unfold execute newBook remainder matched fillsOf
  by_cases hx : e.book.wouldCross no.side no.price
  · simp only [if_pos hx]
    obtain ⟨h1,h2,h3,h4⟩ := foldl_emitFill no (e.book.matchTaker no.orderId no.side no.price no.qty).2
      { e with book := (e.book.matchTaker no.orderId no.side no.price no.qty).1 } []
    refine ⟨?_,?_,?_,h4⟩
    · split_ifs
      · simp only [h1]
      · exact h1
    · split_ifs <;> exact h2
    · split_ifs <;> exact h3
  · simp only [if_neg hx,List.map_nil,List.sum_nil,sub_zero]
    have hcond : (0 < no.qty ∧ no.tif = .gtc) ↔ no.tif = .gtc := and_iff_right hq
    simp only [hcond]
    refine ⟨?_,?_,?_,rfl⟩ <;> split_ifs <;> rfl

theorem accepted_spec {no : NewOrder} (h : e.refusal no = none) :
    (e.accepted no).1.book = newBook e.book no ∧
    (e.accepted no).1.accountManager = settle e.accountManager no (fillsOf e.book no) ∧
    (e.accepted no).1.commandSeq = e.commandSeq ∧
    ∃ t seq, (e.accepted no).2 = fillEvents no (matched e.book no).symbolId e.serverSeq (fillsOf e.book no) ++
      [.bookTop t,.ack ⟨seq,no.clientSeq,no.orderId⟩] := by
  obtain ⟨h1,h2,h3,h4⟩ := execute_spec e no (refusal_none h).2.1
  exact ⟨h1,h2,h3,_,_,congrArg (· ++ _) h4⟩

/-- Only fills, tops and acknowledgements come from an order that is not refused. -/
theorem accepted_no_reject {no : NewOrder} (h : e.refusal no = none) (r : Reject) :
    Event.reject r ∉ (e.accepted no).2 := by
  obtain ⟨_,_,_,t,seq,hev⟩ := accepted_spec h
  rw [hev]
  intro hm
  rcases List.mem_append.mp hm with hm | hm
  · obtain ⟨_,_,_,he⟩ := mem_fillEvents hm
    exact absurd he (by simp)
  · simp at hm

/-! ### Cancels and replacements -/

/-- A cancel takes out an order of its account, or is refused. -/
theorem handleCancel_cases (e : Engine S) (c : Cancel) :
    (∃ o, c.symbolId = e.book.symbolId ∧ e.book.get c.orderId = some o ∧ o.accountId = c.accountId ∧
      e.handleCancel c = ({ e with book := (e.book.cancel c.orderId o.accountId).1 } : Engine S).topThenAck
        c.clientSeq c.orderId) ∨
    ∃ reason, e.handleCancel c = e.rejected c.clientSeq c.orderId reason := by
  unfold handleCancel
  by_cases hs : c.symbolId ≠ e.book.symbolId
  · rw [if_pos hs]
    exact Or.inr ⟨_,rfl⟩
  rw [if_neg hs]
  rcases owned_or_refused e.book c.orderId c.accountId with ⟨o,ho,hacct⟩ | hno
  · have hok : (e.book.cancel c.orderId c.accountId).2 = true := hacct ▸ cancel_accepted ho
    refine Or.inl ⟨o,not_not.mp hs,ho,hacct,?_⟩
    simp only [hok,if_true,hacct]
  · simp only [cancel_refused hno]
    exact Or.inr ⟨_,rfl⟩

/-- A replacement cancels an order of its account and is then a new order, or is refused. -/
theorem handleReplace_cases (e : Engine S) (r : Replace) :
    (∃ o, r.symbolId = e.book.symbolId ∧ 0 < r.newQty ∧ e.book.get r.orderId = some o ∧ o.accountId = r.accountId ∧
      e.handleReplace r = ({ e with book := (e.book.cancel r.orderId o.accountId).1 } : Engine S).handleNew
        (replacement r o)) ∨
    (∀ o, r.symbolId = e.book.symbolId → 0 < r.newQty → e.book.get r.orderId = some o → o.accountId ≠ r.accountId) ∧
      ∃ reason, e.handleReplace r = e.rejected r.clientSeq r.orderId reason := by
  unfold handleReplace
  by_cases hs : r.symbolId ≠ e.book.symbolId ∨ r.newQty ≤ 0
  · rw [if_pos hs]
    refine Or.inr ⟨fun o hsym hq => ?_,_,rfl⟩
    exact absurd hs (not_or.mpr ⟨not_not.mpr hsym,Int64.not_le.mpr hq⟩)
  rw [if_neg hs]
  obtain ⟨hsym,hq⟩ := not_or.mp hs
  cases ho : e.book.get r.orderId with
  | none => exact Or.inr ⟨fun o _ _ ho => absurd ho (by simp),_,rfl⟩
  | some o =>
    simp only
    by_cases hacct : o.accountId ≠ r.accountId
    · rw [if_pos hacct]
      refine Or.inr ⟨fun x _ _ hx => ?_,_,rfl⟩
      rwa [← Option.some.inj hx]
    · rw [if_neg hacct]
      exact Or.inl ⟨o,not_not.mp hsym,Int64.not_le.mp hq,rfl,not_not.mp hacct,by rw [not_not.mp hacct]⟩

/-! ### Any command -/

/-- What a command does to the book and the accounts: nothing, or it sets limits, places an order, or
takes one out that is cancelled or replaced. -/
inductive CoreStep (e : Engine S) : Command → OrderBook S → AccountManager → Prop
  | same {cmd : Command} : CoreStep e cmd e.book e.accountManager
  | limits {srl : SetRiskLimits} :
      CoreStep e (.setRiskLimits srl) e.book (e.accountManager.setLimits srl.accountId srl.limits)
  | placed {no : NewOrder} (hr : e.refusal no = none) :
      CoreStep e (.newOrder no) (newBook e.book no) (settle e.accountManager no (fillsOf e.book no))
  | cancelled {c : Cancel} {o : Order} (ho : e.book.get c.orderId = some o) (hacct : o.accountId = c.accountId) :
      CoreStep e (.cancel c) (e.book.cancel c.orderId o.accountId).1 e.accountManager
  | lost {r : Replace} {o : Order} (ho : e.book.get r.orderId = some o) (hacct : o.accountId = r.accountId) :
      CoreStep e (.replace r) (e.book.cancel r.orderId o.accountId).1 e.accountManager
  | replaced {r : Replace} {o : Order} (ho : e.book.get r.orderId = some o) (hacct : o.accountId = r.accountId)
      (hr : ({ e with book := (e.book.cancel r.orderId o.accountId).1 } : Engine S).refusal (replacement r o) = none) :
      CoreStep e (.replace r) (newBook (e.book.cancel r.orderId o.accountId).1 (replacement r o))
        (settle e.accountManager (replacement r o) (fillsOf (e.book.cancel r.orderId o.accountId).1 (replacement r o)))

theorem handleNew_core (e : Engine S) (no : NewOrder) :
    ((e.handleNew no).1.book = e.book ∧ (e.handleNew no).1.accountManager = e.accountManager) ∨
      e.refusal no = none ∧ (e.handleNew no).1.book = newBook e.book no ∧
        (e.handleNew no).1.accountManager = settle e.accountManager no (fillsOf e.book no) := by
  rw [handleNew_eq]
  cases hr : e.refusal no with
  | some reason => exact Or.inl ⟨rfl,rfl⟩
  | none =>
    obtain ⟨hb,ha,-⟩ := accepted_spec hr
    exact Or.inr ⟨rfl,hb,ha⟩

theorem process_core (e : Engine S) (cmd : Command) :
    CoreStep e cmd (e.process cmd).1.book (e.process cmd).1.accountManager := by
  cases cmd with
  | newOrder no =>
    rcases e.handleNew_core no with ⟨hb,ha⟩ | ⟨hr,hb,ha⟩
    · rw [process,hb,ha]
      exact .same
    · rw [process,hb,ha]
      exact .placed hr
  | setRiskLimits srl => exact .limits
  | queryAccount qa => exact .same
  | authenticate auth => exact .same
  | cancel c =>
    rcases e.handleCancel_cases c with ⟨o,-,ho,hacct,hc⟩ | ⟨reason,hc⟩
    · rw [process,hc]
      exact .cancelled ho hacct
    · rw [process,hc]
      exact .same
  | replace r =>
    rcases e.handleReplace_cases r with ⟨o,-,-,ho,hacct,hc⟩ | ⟨-,reason,hc⟩
    · rw [process,hc]
      rcases ({ e with book := (e.book.cancel r.orderId o.accountId).1 } : Engine S).handleNew_core
        (replacement r o) with ⟨hb,ha⟩ | ⟨hr,hb,ha⟩
      · rw [hb,ha]
        exact .lost ho hacct
      · rw [hb,ha]
        exact .replaced ho hacct hr
    · rw [process,hc]
      exact .same

end Engine
end HighPerfTrading
