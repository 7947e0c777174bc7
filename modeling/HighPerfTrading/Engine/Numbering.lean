import HighPerfTrading.Engine.Replay

/-! The numbers of an engine's events: one for each event, in the order they are emitted. -/
namespace HighPerfTrading

/-- The gateway's own answers to a login carry no number. -/
def Event.serverSeq : Event → Option UInt64
  | .ack a => some a.serverSeq
  | .reject r => some r.serverSeq
  | .fill f => some f.serverSeq
  | .bookTop t => some t.serverSeq
  | .accountState s => some s.serverSeq
  | .authSuccess _ => none
  | .authFailure _ => none

/-- The events are numbered from `a` on, and `b` is the number after them. -/
inductive Numbered : UInt64 → List Event → UInt64 → Prop
  | nil (a : UInt64) : Numbered a [] a
  | cons {a b : UInt64} {ev : Event} {evs : List Event} (h : ev.serverSeq = some a) (ht : Numbered (a+1) evs b) :
      Numbered a (ev::evs) b

theorem toNat_succ {a : UInt64} (h : a.toNat+1 < 2^64) : (a+1).toNat = a.toNat+1 := by
  rw [UInt64.toNat_add]
  exact Nat.mod_eq_of_lt h

namespace Numbered
variable {a b c : UInt64} {evs evs' : List Event}

theorem append (h : Numbered a evs b) (h' : Numbered b evs' c) : Numbered a (evs ++ evs') c := by
  induction h with
  | nil a => exact h'
  | cons hev _ ih => exact .cons hev (ih h')

theorem single {ev : Event} (h : ev.serverSeq = some a) : Numbered a [ev] (a+1) := .cons h (.nil _)

/-- The events' numbers are those below `b`, as long as the counter does not come round. -/
theorem next (h : Numbered a evs b) (hfit : a.toNat+evs.length < 2^64) : b.toNat = a.toNat+evs.length := by
  induction h with
  | nil a => rfl
  | @cons a b ev evs hev _ ih =>
    rw [List.length_cons] at hfit ⊢
    have ha := toNat_succ (a := a) (by omega)
    rw [ha] at ih
    rw [ih (by omega)]
    omega

theorem bounds (h : Numbered a evs b) (hfit : a.toNat+evs.length < 2^64) {ev : Event} (hev : ev ∈ evs) :
    ∃ m, ev.serverSeq = some m ∧ a.toNat ≤ m.toNat ∧ m.toNat < b.toNat := by
  induction h with
  | nil a => cases hev
  | @cons a b ev' evs hev' ht ih =>
    have hb := (Numbered.cons hev' ht).next hfit
    rw [List.length_cons] at hfit hb
    have ha := toNat_succ (a := a) (by omega)
    rcases List.mem_cons.mp hev with rfl | hev
    · exact ⟨a,hev',Nat.le_refl _,by omega⟩
    · obtain ⟨m,hm,hle,hlt⟩ := ih (by omega) hev
      exact ⟨m,hm,by omega,hlt⟩

/-- Neighbours have consecutive numbers. -/
theorem isChain (h : Numbered a evs b) (hfit : a.toNat+evs.length < 2^64) :
    evs.IsChain fun x y => ∃ m n, x.serverSeq = some m ∧ y.serverSeq = some n ∧ n.toNat = m.toNat+1 := by
  induction h with
  | nil a => exact .nil
  | @cons a b ev evs hev ht ih =>
    rw [List.length_cons] at hfit
    have ha := toNat_succ (a := a) (by omega)
    cases ht with
    | nil a => exact .singleton _
    | cons hev' ht => exact .cons_cons ⟨a,a+1,hev,hev',ha⟩ (ih (by omega))

end Numbered

namespace Engine
variable {S : Type} {e f : Engine S}

theorem rejected_numbered (e : Engine S) (cs : UInt64) (id : OrderId) (r : RejectReason) :
    Numbered e.serverSeq (e.rejected cs id r).2 (e.rejected cs id r).1.serverSeq := .single rfl

theorem topThenAck_numbered (e : Engine S) (cs : UInt64) (id : OrderId) :
    Numbered e.serverSeq (e.topThenAck cs id).2 (e.topThenAck cs id).1.serverSeq := .cons rfl (.single rfl)

theorem foldl_emitFill_numbered {a : UInt64} (no : NewOrder) (fs : List MatchFill) (p : Engine S × List Event)
    (h : Numbered a p.2 p.1.serverSeq) :
    Numbered a (fs.foldl (emitFill no) p).2 (fs.foldl (emitFill no) p).1.serverSeq := by
  induction fs generalizing p with
  | nil => exact h
  | cons f fs ih => exact ih (emitFill no p f) (h.append (.single rfl))

variable [Slab S Order]

theorem execute_numbered (e : Engine S) (no : NewOrder) :
    Numbered e.serverSeq (e.execute no).2 (e.execute no).1.serverSeq := by
  unfold execute
  by_cases hx : e.book.wouldCross no.side no.price
  · simp only [if_pos hx]
    have h := foldl_emitFill_numbered no (e.book.matchTaker no.orderId no.side no.price no.qty).2
      ({ e with book := (e.book.matchTaker no.orderId no.side no.price no.qty).1 },[]) (.nil e.serverSeq)
    split_ifs <;> exact h
  · simp only [if_neg hx]
    split_ifs <;> exact .nil _

theorem handleNew_numbered (e : Engine S) (no : NewOrder) :
    Numbered e.serverSeq (e.handleNew no).2 (e.handleNew no).1.serverSeq := by
  rw [handleNew_eq]
  cases e.refusal no with
  | some reason => exact e.rejected_numbered no.clientSeq no.orderId reason
  | none => exact (e.execute_numbered no).append (topThenAck_numbered _ no.clientSeq no.orderId)

/-- A command's events take the numbers that the engine's counter passes. -/
theorem process_numbered (e : Engine S) (cmd : Command) :
    Numbered e.serverSeq (e.process cmd).2 (e.process cmd).1.serverSeq := by
  cases cmd with
  | newOrder no => exact e.handleNew_numbered no
  | setRiskLimits srl => exact .single rfl
  | queryAccount qa => exact .single rfl
  | authenticate auth => exact .nil _
  | cancel c =>
    rcases e.handleCancel_cases c with ⟨o,-,-,-,hc⟩ | ⟨reason,hc⟩
    · rw [process,hc]
      exact topThenAck_numbered { e with book := (e.book.cancel c.orderId o.accountId).1 } c.clientSeq c.orderId
    · rw [process,hc]
      exact e.rejected_numbered c.clientSeq c.orderId reason
  | replace r =>
    rcases e.handleReplace_cases r with ⟨o,-,-,-,-,hc⟩ | ⟨-,reason,hc⟩
    · rw [process,hc]
      exact handleNew_numbered { e with book := (e.book.cancel r.orderId o.accountId).1 } (replacement r o)
    · rw [process,hc]
      exact e.rejected_numbered r.clientSeq r.orderId reason

/-! ### How many events -/

theorem length_fillEvents (no : NewOrder) (sym : SymbolId) (seq : UInt64) (fs : List MatchFill) :
    (fillEvents no sym seq fs).length = fs.length := by
  induction fs generalizing seq with
  | nil => rfl
  | cons f fs ih => exact congrArg (· + 1) (ih (seq+1))

/-- A fill each, the top of the book and the acknowledgement. -/
theorem length_accepted {no : NewOrder} (h : e.refusal no = none) :
    (e.accepted no).2.length = (fillsOf e.book no).length+2 := by
  obtain ⟨-,-,-,t,seq,hev⟩ := accepted_spec h
  rw [hev,List.length_append,length_fillEvents]
  rfl

theorem Agrees.length_handleNew (h : Agrees e f) (no : NewOrder) :
    (e.handleNew no).2.length = (f.handleNew no).2.length := by
  rw [handleNew_eq,handleNew_eq,h.refusal]
  cases hr : f.refusal no with
  | some reason => rfl
  | none =>
    change (e.accepted no).2.length = (f.accepted no).2.length
    rw [length_accepted ((h.refusal no).trans hr),length_accepted hr,h.book]

/-- The number of events does not depend on the counters. -/
theorem Agrees.length_process (h : Agrees e f) (cmd : Command) :
    (e.process cmd).2.length = (f.process cmd).2.length := by
  cases cmd with
  | newOrder no => exact h.length_handleNew no
  | setRiskLimits srl => rfl
  | queryAccount qa => rfl
  | authenticate auth => rfl
  | cancel c =>
    simp only [Engine.process,Engine.handleCancel,h.book]
    split_ifs <;> rfl
  | replace r =>
    simp only [Engine.process,Engine.handleReplace,h.book]
    split_ifs
    · rfl
    cases f.book.get r.orderId with
    | none => rfl
    | some o =>
      simp only
      split_ifs
      · rfl
      · have hcancelled : Agrees { e with book := (f.book.cancel r.orderId r.accountId).1 }
            { f with book := (f.book.cancel r.orderId r.accountId).1 } := ⟨rfl,h.accounts,h.count⟩
        exact hcancelled.length_handleNew _

/-- A command that meets no order and emits one event at most leaves the book alone. -/
theorem process_empty_book (hb : ∀ id, e.book.get id = none) {cmd : Command} (hl : (e.process cmd).2.length ≤ 1) :
    (e.process cmd).1.book = e.book := by
  cases cmd with
  | newOrder no =>
    rw [process,handleNew_eq] at hl ⊢
    cases hr : e.refusal no with
    | some reason => rfl
    | none =>
      rw [hr] at hl
      change (e.accepted no).2.length ≤ 1 at hl
      rw [length_accepted hr] at hl
      omega
  | setRiskLimits srl => rfl
  | queryAccount qa => rfl
  | authenticate auth => rfl
  | cancel c =>
    rcases e.handleCancel_cases c with ⟨o,-,ho,-,-⟩ | ⟨reason,hc⟩
    · rw [hb] at ho
      cases ho
    · rw [process,hc,rejected_book]
  | replace r =>
    rcases e.handleReplace_cases r with ⟨o,-,-,ho,-,-⟩ | ⟨-,reason,hc⟩
    · rw [hb] at ho
      cases ho
    · rw [process,hc,rejected_book]

end Engine
end HighPerfTrading
