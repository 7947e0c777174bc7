import HighPerfTrading.Engine.EngineRun
import HighPerfTrading.Engine.Rejections

/-! Symbol ids. The gateway routes by the id that an engine server was started for, but the engine behind it is
always that of symbol 1: it refuses every order of another symbol. -/
namespace HighPerfTrading

/-! ### Renaming -/

def Command.withSymbol (s : SymbolId) : Command → Command
  | .newOrder no => .newOrder { no with symbolId := s }
  | .cancel c => .cancel { c with symbolId := s }
  | .replace r => .replace { r with symbolId := s }
  | .setRiskLimits srl => .setRiskLimits { srl with symbolId := s }
  | .queryAccount qa => .queryAccount { qa with symbolId := s }
  | .authenticate auth => .authenticate auth

def Event.withSymbol (s : SymbolId) : Event → Event
  | .fill f => .fill { f with symbolId := s }
  | .bookTop t => .bookTop { t with symbolId := s }
  | .accountState a => .accountState { a with symbolId := s }
  | ev => ev

/-- An order with a positive quantity, or a cancellation. -/
def WellFormedOrder : Command → Prop
  | .newOrder no => 0 < no.qty
  | .replace r => 0 < r.newQty
  | .cancel _ => True
  | _ => False

instance (cmd : Command) : Decidable (WellFormedOrder cmd) :=
  match cmd with
  | .newOrder no => inferInstanceAs (Decidable (0 < no.qty))
  | .cancel _ => isTrue trivial
  | .replace r => inferInstanceAs (Decidable (0 < r.newQty))
  | .setRiskLimits _ => isFalse id
  | .queryAccount _ => isFalse id
  | .authenticate _ => isFalse id

theorem wellFormedOrder_withSymbol (s : SymbolId) (cmd : Command) :
    WellFormedOrder (cmd.withSymbol s) ↔ WellFormedOrder cmd := by cases cmd <;> rfl

theorem withSymbol_of_routed {s : SymbolId} {cmd : Command} (h : commandSymbolId cmd = some s) :
    cmd.withSymbol s = cmd := by
  cases cmd <;> cases h <;> rfl

namespace Engine
open OrderBook
variable {S : Type} [Slab S Order]

/-- The engine that an engine server starts for a symbol: the id does not reach the constructor. -/
def engineServer (_symbolId : SymbolId) : Engine S := new

/-- The events of a sequence of commands. -/
def emitted (e : Engine S) : List Command → List Event
  | [] => []
  | cmd::cmds => (e.process cmd).2 ++ emitted (e.process cmd).1 cmds

/-! ### The book keeps its symbol -/

theorem symbolId_matchStep {m m' : Matching S} {taker : OrderId} {limit : Price} {makers : Side}
    (h : matchStep taker limit makers m = .next m') : m'.book.symbolId = m.book.symbolId := by
  unfold matchStep at h
  split_ifs at h
  cases hpx : bestPrice makers (m.book.levels makers) with
  | none => simp [hpx] at h
  | some px =>
    simp only [hpx] at h
    split_ifs at h
    cases hl : (m.book.levels makers)[px]? with
    | none => simp [hl] at h
    | some lvl =>
      simp only [hl] at h
      cases hpop : popLiveFront m.book.orders lvl.queue with
      | none =>
        simp only [hpop,LoopStep.next.injEq] at h
        rw [← h]
        exact setLevels_symbolId ..
      | some kr =>
        simp only [hpop] at h
        cases hg : Slab.get m.book.orders kr.1 with
        | none => simp [hg] at h
        | some o =>
          simp only [hg,LoopStep.next.injEq] at h
          rw [← h]
          exact setLevels_symbolId ..

theorem symbolId_matchLoop (taker : OrderId) (limit : Price) (makers : Side) (n : ℕ) (m : Matching S) :
    (matchLoop taker limit makers n m).book.symbolId = m.book.symbolId := by
  induction n generalizing m with
  | zero => rfl
  | succ n ih =>
    rw [matchLoop]
    cases hstep : matchStep taker limit makers m with
    | next m' => exact (ih m').trans (symbolId_matchStep hstep)
    | exit => rfl
    | panic => rfl

theorem symbolId_newBook (b : OrderBook S) (no : NewOrder) : (newBook b no).symbolId = b.symbolId := by
  have hmatched : (matched b no).symbolId = b.symbolId := by
    unfold matched
    split_ifs
    · exact symbolId_matchLoop ..
    · rfl
  unfold newBook
  split_ifs
  · exact (setLevels_symbolId ..).trans hmatched
  · exact hmatched

theorem symbolId_process (e : Engine S) (cmd : Command) : (e.process cmd).1.book.symbolId = e.book.symbolId := by
  have hstep := e.process_core cmd
  generalize (e.process cmd).1.book = b' at hstep ⊢
  generalize (e.process cmd).1.accountManager = m' at hstep
  cases hstep with
  | same => rfl
  | limits => rfl
  | placed hr => exact symbolId_newBook _ _
  | cancelled ho hacct => exact symbolId_cancel _ _ _
  | lost ho hacct => exact symbolId_cancel _ _ _
  | replaced ho hacct hr => exact (symbolId_newBook _ _).trans (symbolId_cancel _ _ _)

theorem symbolId_after (e : Engine S) (cmds : List Command) : (e.after cmds).book.symbolId = e.book.symbolId := by
  induction cmds generalizing e with
  | nil => rfl
  | cons cmd cmds ih => exact (ih _).trans (e.symbolId_process cmd)

/-! ### One command -/

section Step
variable {e : Engine S} {cmd : Command} {s : SymbolId}

omit [Slab S Order] in
theorem withSymbol_fillEvents (no : NewOrder) (s : SymbolId) (seq : UInt64) (fs : List MatchFill) :
    (fillEvents no s seq fs).map (Event.withSymbol s) = fillEvents no s seq fs := by
  induction fs generalizing seq with
  | nil => rfl
  | cons f fs ih => exact congrArg _ (ih (seq+1))

theorem withSymbol_handleNew (e : Engine S) (no : NewOrder) :
    (e.handleNew no).2.map (Event.withSymbol e.book.symbolId) = (e.handleNew no).2 := by
  rw [handleNew_eq]
  cases hr : e.refusal no with
  | some reason => rfl
  | none =>
    obtain ⟨hbook,-,-,hfills⟩ := execute_spec e no (refusal_none hr).2.1
    have hsym : (matched e.book no).symbolId = e.book.symbolId := by
      unfold matched
      split_ifs
      · exact symbolId_matchLoop ..
      · rfl
    have htop : (e.execute no).1.book.symbolId = e.book.symbolId := by rw [hbook,symbolId_newBook]
    simp only [accepted,List.map_append]
    rw [hfills,hsym,withSymbol_fillEvents,topThenAck,bookTopEvent,← htop]
    rfl

/-- The engine puts the symbol of its book on every event of an order. -/
theorem withSymbol_events (hs : commandSymbolId cmd = some e.book.symbolId) :
    (e.process cmd).2.map (Event.withSymbol e.book.symbolId) = (e.process cmd).2 := by
  cases cmd with
  | newOrder no => exact e.withSymbol_handleNew no
  | setRiskLimits srl => rfl
  | queryAccount qa => rw [← Option.some.inj hs]; rfl
  | authenticate auth => rfl
  | cancel c =>
    rw [process]
    rcases e.handleCancel_cases c with ⟨o,-,ho,hacct,hc⟩ | ⟨reason,hc⟩
    · rw [hc,← symbolId_cancel e.book c.orderId o.accountId]
      rfl
    · rw [hc]
      rfl
  | replace r =>
    rw [process]
    rcases e.handleReplace_cases r with ⟨o,-,-,ho,hacct,hc⟩ | ⟨-,reason,hc⟩
    · rw [hc,← symbolId_cancel e.book r.orderId o.accountId]
      exact ({ e with book := (e.book.cancel r.orderId o.accountId).1 } : Engine S).withSymbol_handleNew _
    · rw [hc]
      rfl

theorem handleNew_not_invalid {no : NewOrder} (hs : no.symbolId = e.book.symbolId) (hq : 0 < no.qty) :
    (e.handleNew no).2 ≠ [] ∧ ∀ r, .reject r ∈ (e.handleNew no).2 → r.reason ≠ .invalid := by
  rw [handleNew_eq]
  cases hr : e.refusal no with
  | some reason =>
    refine ⟨by simp,fun r hm => ?_⟩
    obtain rfl : r = ⟨e.serverSeq,no.clientSeq,some no.orderId,reason⟩ := by simpa using hm
    unfold refusal at hr
    rw [if_neg (not_or.mpr ⟨not_not.mpr hs,Int64.not_le.mpr hq⟩)] at hr
    unfold AccountManager.checkRisk at hr
    rintro rfl
    simp only at hr
    split_ifs at hr <;> simp_all
  | none =>
    refine ⟨by simp [accepted,topThenAck],fun r hm => ?_⟩
    exact absurd hm (accepted_no_reject hr r)

/-- An order for the symbol of the book is never refused as invalid. -/
theorem wellFormed_not_invalid (hw : WellFormedOrder cmd) (hs : commandSymbolId cmd = some e.book.symbolId) :
    (e.process cmd).2 ≠ [] ∧ ∀ r, .reject r ∈ (e.process cmd).2 → r.reason ≠ .invalid := by
  cases cmd with
  | newOrder no => exact handleNew_not_invalid (Option.some.inj hs) hw
  | cancel c =>
    have hsym : c.symbolId = e.book.symbolId := Option.some.inj hs
    rw [process,handleCancel,if_neg (not_not.mpr hsym)]
    simp only
    split_ifs
    · simp [topThenAck,bookTopEvent,ack]
    · simp
  | replace r =>
    have hsym : r.symbolId = e.book.symbolId := Option.some.inj hs
    have hq : 0 < r.newQty := hw
    rw [process,handleReplace,if_neg (not_or.mpr ⟨not_not.mpr hsym,Int64.not_le.mpr hq⟩)]
    cases ho : e.book.get r.orderId with
    | none => simp
    | some o =>
      simp only
      split_ifs
      · simp
      · exact handleNew_not_invalid (hsym.trans (symbolId_cancel _ _ _).symm) hq
  | _ => exact hw.elim

/-- An order for another symbol is refused as invalid and nothing else. -/
theorem foreign_invalid (hw : WellFormedOrder cmd) (hs : commandSymbolId cmd = some s) (hne : s ≠ e.book.symbolId) :
    ∃ r, (e.process cmd).2 = [.reject r] ∧ r.reason = .invalid := by
  cases cmd with
  | newOrder no =>
    obtain rfl : no.symbolId = s := Option.some.inj hs
    rw [process,handleNew,if_pos (Or.inl hne)]
    exact ⟨_,rfl,rfl⟩
  | cancel c =>
    obtain rfl : c.symbolId = s := Option.some.inj hs
    rw [process,handleCancel,if_pos hne]
    exact ⟨_,rfl,rfl⟩
  | replace r =>
    obtain rfl : r.symbolId = s := Option.some.inj hs
    rw [process,handleReplace,if_pos (Or.inl hne)]
    exact ⟨_,rfl,rfl⟩
  | _ => exact hw.elim

/-- Nothing else depends on the symbol. -/
theorem process_withSymbol (hw : ¬ WellFormedOrder cmd) (hs : commandSymbolId cmd = some s) (t : SymbolId) :
    (e.process (cmd.withSymbol t)).1 = (e.process cmd).1 ∧
      (e.process (cmd.withSymbol t)).2.map (Event.withSymbol s) = (e.process cmd).2 := by
  cases cmd with
  | newOrder no =>
    have hq : no.qty ≤ 0 := Int64.not_lt.mp hw
    simp only [Command.withSymbol,process,handleNew,if_pos (Or.inr hq)]
    exact ⟨trivial,rfl⟩
  | cancel c => exact absurd trivial hw
  | replace r =>
    have hq : r.newQty ≤ 0 := Int64.not_lt.mp hw
    simp only [Command.withSymbol,process,handleReplace,if_pos (Or.inr hq)]
    exact ⟨trivial,rfl⟩
  | setRiskLimits srl => exact ⟨rfl,rfl⟩
  | queryAccount qa =>
    obtain rfl : qa.symbolId = s := Option.some.inj hs
    exact ⟨rfl,rfl⟩
  | authenticate auth => cases hs

end Step

/-! ### Sequences of commands -/

section Sequences
variable {s t : SymbolId} {cmds : List Command}

theorem emitted_of_quiet (e : Engine S) (hs : ∀ cmd ∈ cmds, commandSymbolId cmd = some s)
    (hq : ∀ cmd ∈ cmds, ¬ WellFormedOrder cmd) (t : SymbolId) :
    emitted e cmds = (emitted e (cmds.map (Command.withSymbol t))).map (Event.withSymbol s) := by
  induction cmds generalizing e with
  | nil => rfl
  | cons cmd cmds ih =>
    obtain ⟨hstate,hevents⟩ := process_withSymbol (e := e) (hq cmd (List.mem_cons_self ..))
      (hs cmd (List.mem_cons_self ..)) t
    have hrest := ih (e.process cmd).1 (fun c hc => hs c (List.mem_cons_of_mem _ hc))
      fun c hc => hq c (List.mem_cons_of_mem _ hc)
    rw [List.map_cons,emitted,emitted,List.map_append,hevents,hstate,← hrest]

theorem emitted_of_home (e : Engine S) (hs : ∀ cmd ∈ cmds, commandSymbolId cmd = some e.book.symbolId) :
    emitted e cmds = (emitted e (cmds.map (Command.withSymbol e.book.symbolId))).map
      (Event.withSymbol e.book.symbolId) := by
  induction cmds generalizing e with
  | nil => rfl
  | cons cmd cmds ih =>
    have hcmd := hs cmd (List.mem_cons_self ..)
    have hsym := e.symbolId_process cmd
    have hrest := ih (e.process cmd).1 (by rw [hsym]; exact fun c hc => hs c (List.mem_cons_of_mem _ hc))
    rw [hsym] at hrest
    rw [List.map_cons,withSymbol_of_routed hcmd,emitted,emitted,List.map_append,withSymbol_events hcmd,← hrest]

/-- The first order of another symbol tells the two engines apart. -/
theorem quiet_of_emitted (e : Engine S) (hne : s ≠ e.book.symbolId) (hs : ∀ cmd ∈ cmds, commandSymbolId cmd = some s)
    (h : emitted e cmds = (emitted e (cmds.map (Command.withSymbol e.book.symbolId))).map (Event.withSymbol s)) :
    ∀ cmd ∈ cmds, ¬ WellFormedOrder cmd := by
  induction cmds generalizing e with
  | nil => simp
  | cons cmd cmds ih =>
    have hcmd := hs cmd (List.mem_cons_self ..)
    rw [List.map_cons,emitted,emitted,List.map_append] at h
    have hw : ¬ WellFormedOrder cmd := by
      intro hw
      obtain ⟨r,hr,hinvalid⟩ := foreign_invalid (e := e) hw hcmd hne
      have hhome : commandSymbolId (cmd.withSymbol e.book.symbolId) = some e.book.symbolId := by
        cases cmd with
        | authenticate auth => cases hcmd
        | _ => rfl
      obtain ⟨hsome,hvalid⟩ := wellFormed_not_invalid (e := e) ((wellFormedOrder_withSymbol _ cmd).mpr hw) hhome
      obtain ⟨ev,evs,hev⟩ := List.exists_cons_of_ne_nil hsome
      rw [hr,hev] at h
      have hhead := (List.cons.inj h).1
      have hreject : ev = .reject r := by
        cases ev <;> simp_all [Event.withSymbol]
      exact hvalid r (by rw [hev,hreject]; exact List.mem_cons_self ..) hinvalid
    obtain ⟨hstate,hevents⟩ := process_withSymbol (e := e) hw hcmd e.book.symbolId
    rw [hevents,hstate] at h
    have hsym := e.symbolId_process cmd
    have hrest := ih (e.process cmd).1 (by rwa [hsym]) (fun c hc => hs c (List.mem_cons_of_mem _ hc))
      (by rw [hsym]; exact List.append_cancel_left h)
    exact List.forall_mem_cons.mpr ⟨hw,hrest⟩

end Sequences

/-- The engine server of a symbol is that of symbol 1 up to the id: it emits the same events with its own id, and
refuses no well-formed order as invalid. -/
structure SymbolIndependent (S : Type) [Slab S Order] (s : SymbolId) (cmds : List Command) : Prop where
  same : emitted (engineServer s : Engine S) cmds =
    (emitted (engineServer 1 : Engine S) (cmds.map (Command.withSymbol 1))).map (Event.withSymbol s)
  accepts : ∀ before cmd, before ++ [cmd] <+: cmds → WellFormedOrder cmd →
    ∀ r, .reject r ∈ (((engineServer s : Engine S).after before).process cmd).2 → r.reason ≠ .invalid

/-- Routed commands are treated alike exactly where the symbol is 1 or none of them is a well-formed order. -/
theorem symbolIndependent_iff {s : SymbolId} {cmds : List Command} (hs : ∀ cmd ∈ cmds, commandSymbolId cmd = some s) :
    SymbolIndependent S s cmds ↔ s = 1 ∨ ∀ cmd ∈ cmds, ¬ WellFormedOrder cmd := by
  constructor
  · intro h
    by_cases h1 : s = 1
    · exact Or.inl h1
    · exact Or.inr (quiet_of_emitted (new : Engine S) h1 hs h.same)
  · intro h
    have hmem : ∀ before cmd, before ++ [cmd] <+: cmds → cmd ∈ cmds :=
      fun before cmd hpre => hpre.subset (by simp)
    rcases h with rfl | hq
    · refine ⟨emitted_of_home (new : Engine S) hs,fun before cmd hpre hw => ?_⟩
      refine (wellFormed_not_invalid hw ?_).2
      rw [symbolId_after]
      exact hs cmd (hmem before cmd hpre)
    · exact ⟨emitted_of_quiet (new : Engine S) hs hq 1,fun before cmd hpre hw => absurd hw (hq cmd (hmem before cmd hpre))⟩

/-- An order routed to the engine server of its symbol 2. -/
theorem orderOfSymbolTwo_refused :
    ¬ SymbolIndependent (FreeListSlab Order) 2 [.newOrder ⟨1,1,7,2,.buy,100,1,.gtc,⟨false⟩⟩] ∧
      emitted (engineServer 2 : Engine (FreeListSlab Order)) [.newOrder ⟨1,1,7,2,.buy,100,1,.gtc,⟨false⟩⟩] =
        [.reject ⟨1,1,some 1,.invalid⟩] :=
  ⟨fun h => absurd h.same (by decide +kernel),by decide +kernel⟩

/-- Limits, a query and orders without a quantity. -/
theorem limitsOfSymbolTwo_independent : SymbolIndependent (FreeListSlab Order) 2
    [.setRiskLimits ⟨1,7,2,⟨500,500,50⟩⟩,.newOrder ⟨2,1,7,2,.buy,100,0,.gtc,⟨false⟩⟩,.queryAccount ⟨3,7,2⟩,
      .replace ⟨4,1,7,2,101,0⟩] :=
  (symbolIndependent_iff (by decide +kernel)).mpr (Or.inr (by decide +kernel))

end Engine
end HighPerfTrading
