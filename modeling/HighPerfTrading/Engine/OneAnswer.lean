import HighPerfTrading.Engine.EngineSpec

/-! Every command that is not an authentication has exactly one answer among its events, and it is the last. -/
namespace HighPerfTrading

/-- The number by which the client knows its command. -/
def Command.clientSeq : Command → Option UInt64
  | .newOrder no => some no.clientSeq
  | .cancel c => some c.clientSeq
  | .replace r => some r.clientSeq
  | .setRiskLimits srl => some srl.clientSeq
  | .queryAccount qa => some qa.clientSeq
  | .authenticate _ => none

/-- The command that an event answers. Fills and tops of the book only go before an answer. -/
def Event.answersTo : Event → Option UInt64
  | .ack a => some a.clientSeq
  | .reject r => some r.clientSeq
  | .accountState s => some s.clientSeq
  | .fill _ => none
  | .bookTop _ => none
  | .authSuccess _ => none
  | .authFailure _ => none

namespace Engine
open OrderBook
variable {S : Type}

/-- Events that end with the one answer to a command. -/
structure EndsWith (clientSeq : UInt64) (evs : List Event) : Prop where
  last : ∃ before answer, evs = before ++ [answer] ∧ answer.answersTo = some clientSeq ∧
    ∀ ev ∈ before, ev.answersTo = none

namespace EndsWith
variable {clientSeq : UInt64} {evs : List Event}

theorem single {ev : Event} (h : ev.answersTo = some clientSeq) : EndsWith clientSeq [ev] :=
  ⟨[],ev,rfl,h,by simp⟩

theorem ne_nil (h : EndsWith clientSeq evs) : evs ≠ [] := by
  obtain ⟨before,answer,rfl,-⟩ := h
  simp

theorem answers (h : EndsWith clientSeq evs) : evs.filterMap Event.answersTo = [clientSeq] := by
  obtain ⟨before,answer,rfl,hlast,hbefore⟩ := h
  rw [List.filterMap_append,List.filterMap_eq_nil_iff.mpr hbefore,List.nil_append,List.filterMap_cons,hlast]
  rfl

end EndsWith

variable [Slab S Order]

theorem handleNew_answer (e : Engine S) (no : NewOrder) : EndsWith no.clientSeq (e.handleNew no).2 := by
  rw [handleNew_eq]
  cases hr : e.refusal no with
  | some reason => exact .single rfl
  | none =>
    obtain ⟨-,-,-,t,seq,hev⟩ := accepted_spec hr
    refine ⟨fillEvents no (matched e.book no).symbolId e.serverSeq (fillsOf e.book no) ++ [.bookTop t],
      .ack ⟨seq,no.clientSeq,no.orderId⟩,?_,rfl,fun ev hmem => ?_⟩
    · rw [hev,List.append_assoc]
      rfl
    · rcases List.mem_append.mp hmem with hmem | hmem
      · obtain ⟨_,_,_,rfl⟩ := mem_fillEvents hmem
        rfl
      · rw [List.mem_singleton.mp hmem]
        rfl

/-- The last event of a command answers it and no other event does. -/
theorem process_answer (e : Engine S) {cmd : Command} {clientSeq : UInt64} (h : cmd.clientSeq = some clientSeq) :
    EndsWith clientSeq (e.process cmd).2 := by
  cases cmd with
  | newOrder no =>
    obtain rfl := Option.some.inj h
    exact e.handleNew_answer no
  | setRiskLimits srl => exact .single h
  | queryAccount qa => exact .single h
  | authenticate auth => cases h
  | cancel c =>
    obtain rfl := Option.some.inj h
    rcases e.handleCancel_cases c with ⟨o,-,-,-,hc⟩ | ⟨reason,hc⟩
    · rw [process,hc]
      exact ⟨[_],_,rfl,rfl,by simp [bookTopEvent,Event.answersTo]⟩
    · rw [process,hc]
      exact .single rfl
  | replace r =>
    obtain rfl := Option.some.inj h
    rcases e.handleReplace_cases r with ⟨o,-,-,-,-,hc⟩ | ⟨-,reason,hc⟩
    · rw [process,hc]
      exact handleNew_answer _ (replacement r o)
    · rw [process,hc]
      exact .single rfl

theorem process_answers (e : Engine S) (cmd : Command) :
    (e.process cmd).2.filterMap Event.answersTo = cmd.clientSeq.toList := by
  cases hseq : cmd.clientSeq with
  | none =>
    cases cmd with
    | authenticate auth => rfl
    | newOrder no => cases hseq
    | cancel c => cases hseq
    | replace r => cases hseq
    | setRiskLimits srl => cases hseq
    | queryAccount qa => cases hseq
  | some clientSeq => exact (e.process_answer hseq).answers

end Engine
end HighPerfTrading
