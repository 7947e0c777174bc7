import HighPerfTrading.Engine.EngineRun
import HighPerfTrading.Engine.RoundingDrift

/-! Realized profits of all accounts together. What one party of a fill pays the other receives, so the profits of
flat accounts add up to what the average prices rounded off on the way. -/
namespace HighPerfTrading
open AverageCost

/-! ### Calls in a row -/

/-- The remainder of the division that a call rounds the average price by, negative for shorts. -/
def FillCall.roundedOff (m : AccountManager) (c : FillCall) : ℤ :=
  c.side.direction*(m.getPosition c.accountId).holding.rounding c.side.direction c.price.toInt c.qty.toInt

namespace AccountManager
variable {m : AccountManager}

def roundedOff : AccountManager → List FillCall → ℤ
  | _,[] => 0
  | m,c::cs => c.roundedOff m+roundedOff (m.applyCall c) cs

def CallsFit : AccountManager → List FillCall → Prop
  | _,[] => True
  | m,c::cs => c.Fits m ∧ CallsFit (m.applyCall c) cs

/-- The realized profits of all accounts. -/
def realizedTotal (m : AccountManager) : ℤ := OrdMap.sumEntries (fun _ pos => pos.realizedPnl.toInt) m.positions

/-- What all accounts have received if their lots are worth their average prices. -/
def proceedsTotal (m : AccountManager) : ℤ := OrdMap.sumEntries (fun _ pos => pos.holding.proceeds) m.positions

theorem positions_split (m : AccountManager) (a : AccountId) : m.proceedsTotal =
    (m.getPosition a).holding.proceeds+OrdMap.sumEntries (fun _ pos => pos.holding.proceeds) (m.positions.erase a) := by
  unfold proceedsTotal getPosition
  cases ha : m.positions[a]? with
  | none => simp only [OrdMap.erase_of_get_none ha]; exact (zero_add _).symm
  | some pos => exact OrdMap.sumEntries_erase _ ha

theorem proceedsTotal_applyCall {c : FillCall} (hc : c.Fits m) :
    (m.applyCall c).proceedsTotal = m.proceedsTotal+c.cash+c.roundedOff m := by
  have hrest : (m.applyCall c).positions.erase c.accountId = m.positions.erase c.accountId := by
    refine OrdMap.ext fun a => ?_
    by_cases ha : c.accountId = a
    · simp [ha]
    · simp [applyCall,applyFill,ha]
  rw [positions_split (m.applyCall c) c.accountId,positions_split m c.accountId,hrest,
    Checked.applyFill_holding (applyCall_of_fits hc),Holding.proceeds_trade _ c.side.direction_mul_self,cash_eq,
    FillCall.roundedOff]
  omega

theorem proceedsTotal_foldl {calls : List FillCall} (h : CallsFit m calls) : (calls.foldl applyCall m).proceedsTotal =
    m.proceedsTotal+(calls.map FillCall.cash).sum+m.roundedOff calls := by
  induction calls generalizing m with
  | nil => simp [roundedOff]
  | cons c cs ih =>
    rw [List.foldl_cons,ih h.2,proceedsTotal_applyCall h.1,List.map_cons,List.sum_cons,roundedOff]
    omega

theorem flat_of_entries (h : ∀ e ∈ m.positions.toList, e.2.netPosition = 0) (a : AccountId) :
    (m.getPosition a).netPosition = 0 := by
  unfold getPosition
  cases ha : m.positions[a]? with
  | none => rfl
  | some pos => exact h (a,pos) (OrdMap.mem_toList.mpr ha)

/-- Flat accounts hold no lots whose price could matter. -/
theorem realizedTotal_of_flat (h : ∀ a, (m.getPosition a).netPosition = 0) : m.realizedTotal = m.proceedsTotal := by
  unfold realizedTotal proceedsTotal OrdMap.sumEntries
  congr 1
  refine List.map_congr_left fun e he => ?_
  have hflat : e.2.netPosition = 0 := by
    have hget := h e.1
    rwa [getPosition,OrdMap.mem_toList.mp he] at hget
  simp [Holding.proceeds,Position.holding,hflat]

end AccountManager

/-! ### The calls of a command -/

namespace Engine
open OrderBook AccountManager

/-- Both parties of every fill, the taker first. -/
def partyCalls (no : NewOrder) (fs : List MatchFill) : List FillCall :=
  fs.flatMap fun f => [⟨no.accountId,no.side,f.price,f.qty⟩,⟨f.makerAccountId,no.side.opposite,f.price,f.qty⟩]

theorem settle_eq (m : AccountManager) (no : NewOrder) (fs : List MatchFill) :
    settle m no fs = (partyCalls no fs).foldl applyCall m := by
  induction fs generalizing m with
  | nil => rfl
  | cons f fs ih => exact ih _

/-- What the parties pay each other cancels out. -/
theorem sum_cash_partyCalls (no : NewOrder) (fs : List MatchFill) : ((partyCalls no fs).map FillCall.cash).sum = 0 := by
  induction fs with
  | nil => rfl
  | cons f fs ih =>
    have hpair : (⟨no.accountId,no.side,f.price,f.qty⟩ : FillCall).cash+
        (⟨f.makerAccountId,no.side.opposite,f.price,f.qty⟩ : FillCall).cash = 0 := by
      simp only [cash_eq]
      cases no.side <;> simp [Side.direction,Side.opposite]
    rw [partyCalls,List.flatMap_cons,List.map_append,List.sum_append,← partyCalls,ih,add_zero]
    simpa using hpair

variable {S : Type} [Slab S Order] {e : Engine S}

/-- The fills of a new order, for both parties. -/
def newCalls (e : Engine S) (no : NewOrder) : List FillCall :=
  if e.refusal no = none then partyCalls no (fillsOf e.book no) else []

/-- The fills that a command leads to, for both parties. -/
def callsOf (e : Engine S) : Command → List FillCall
  | .newOrder no => e.newCalls no
  | .replace r =>
    match e.book.get r.orderId with
    | some o =>
      if o.accountId = r.accountId then
        ({ e with book := (e.book.cancel r.orderId o.accountId).1 } : Engine S).newCalls (replacement r o)
      else []
    | none => []
  | _ => []

/-- What the commands of a run round off. -/
def roundedOffIn (e : Engine S) : List Command → ℤ
  | [] => 0
  | cmd::cmds => e.accountManager.roundedOff (e.callsOf cmd)+roundedOffIn (e.process cmd).1 cmds

/-- The calls of a command come in pairs. -/
theorem callsOf_pairs (e : Engine S) (cmd : Command) : e.callsOf cmd = [] ∨ ∃ no fs, e.callsOf cmd = partyCalls no fs := by
  have hnew : ∀ (e : Engine S) no, e.newCalls no = [] ∨ ∃ x fs, e.newCalls no = partyCalls x fs := by
    intro e no
    unfold newCalls
    split_ifs
    · exact Or.inr ⟨no,_,rfl⟩
    · exact Or.inl rfl
  cases cmd with
  | newOrder no => exact hnew e no
  | replace r =>
    cases ho : e.book.get r.orderId with
    | none => exact Or.inl (by simp [callsOf,ho])
    | some o =>
      by_cases hacct : o.accountId = r.accountId
      · simp only [callsOf,ho,if_pos hacct]
        exact hnew _ _
      · exact Or.inl (by simp [callsOf,ho,hacct])
  | _ => exact Or.inl rfl

theorem sum_cash_callsOf (e : Engine S) (cmd : Command) : ((e.callsOf cmd).map FillCall.cash).sum = 0 := by
  rcases e.callsOf_pairs cmd with h | ⟨no,fs,h⟩
  · rw [h]; rfl
  · rw [h]; exact sum_cash_partyCalls no fs

/-! ### A command without overflow -/

omit [Slab S Order] in
theorem callsFit_of_foldlM {no : NewOrder} {fs : List MatchFill} {p p' : Engine S × List Event}
    (h : fs.foldlM (Checked.emitFill no) p = some p') : CallsFit p.1.accountManager (partyCalls no fs) := by
  induction fs generalizing p with
  | nil => trivial
  | cons f fs ih =>
    rw [List.foldlM_cons] at h
    obtain ⟨p₁,hp₁,h⟩ := Option.bind_eq_some_iff.mp h
    have hrest := ih h
    obtain ⟨m,hm,hmaker⟩ := Option.bind_eq_some_iff.mp hp₁
    obtain ⟨m',hm',-⟩ := Option.bind_eq_some_iff.mp hmaker
    rw [Checked.emitFill_some hp₁] at hrest
    obtain rfl := Checked.applyFill_some hm
    exact ⟨Option.isSome_of_eq_some hm,Option.isSome_of_eq_some hm',hrest⟩

theorem callsFit_of_execute {no : NewOrder} {p : Engine S × List Event} (h : Checked.execute e no = some p) :
    CallsFit e.accountManager (partyCalls no (fillsOf e.book no)) := by
  unfold Checked.execute at h
  unfold fillsOf
  by_cases hx : e.book.wouldCross no.side no.price = true
  · rw [if_pos hx] at h ⊢
    obtain ⟨m,hm,h⟩ := Option.bind_eq_some_iff.mp h
    obtain ⟨q,hq,-⟩ := Option.bind_eq_some_iff.mp h
    rw [← Checked.matchTaker_some hm]
    exact callsFit_of_foldlM hq
  · rw [if_neg hx]
    trivial

theorem callsFit_of_handleNew {no : NewOrder} {p : Engine S × List Event} (h : Checked.handleNew e no = some p) :
    CallsFit e.accountManager (e.newCalls no) := by
  unfold newCalls
  split_ifs with hr
  swap
  · trivial
  obtain ⟨hs,hq,hrisk,hpost⟩ := refusal_none hr
  have hvalid : ¬ (no.symbolId ≠ e.book.symbolId ∨ no.qty ≤ 0) := not_or.mpr ⟨not_not.mpr hs,Int64.not_le.mpr hq⟩
  unfold Checked.handleNew at h
  rw [if_neg hvalid] at h
  obtain ⟨risk,hcheck,h⟩ := Option.bind_eq_some_iff.mp h
  obtain rfl := (Checked.checkRisk_some hcheck).trans hrisk
  simp only [if_neg hpost] at h
  obtain ⟨q,hexec,-⟩ := Option.bind_eq_some_iff.mp h
  exact callsFit_of_execute hexec

theorem accounts_handleNew (e : Engine S) (no : NewOrder) :
    (e.handleNew no).1.accountManager = (e.newCalls no).foldl applyCall e.accountManager := by
  rw [handleNew_eq,newCalls]
  cases hr : e.refusal no with
  | some reason => rfl
  | none =>
    rw [if_pos rfl,← settle_eq]
    exact (accepted_spec hr).2.1

/-- Nothing but the fills moves a position. -/
theorem positions_process (e : Engine S) (cmd : Command) (h : (Checked.process e cmd).isSome) :
    CallsFit e.accountManager (e.callsOf cmd) ∧
      (e.process cmd).1.accountManager.positions = ((e.callsOf cmd).foldl applyCall e.accountManager).positions := by
  obtain ⟨p,hp⟩ := Option.isSome_iff_exists.mp h
  cases cmd with
  | newOrder no => exact ⟨callsFit_of_handleNew hp,by rw [process,accounts_handleNew]; rfl⟩
  | setRiskLimits srl => exact ⟨trivial,rfl⟩
  | queryAccount qa => exact ⟨trivial,rfl⟩
  | authenticate auth => exact ⟨trivial,rfl⟩
  | cancel c =>
    refine ⟨trivial,?_⟩
    rcases e.handleCancel_cases c with ⟨o,-,-,-,hc⟩ | ⟨reason,hc⟩
    · rw [process,hc]; rfl
    · rw [process,hc]; rfl
  | replace r =>
    have hp : Checked.handleReplace e r = some p := hp
    unfold Checked.handleReplace at hp
    rw [process,handleReplace]
    by_cases hv : r.symbolId ≠ e.book.symbolId ∨ r.newQty ≤ 0
    · have hcalls : e.callsOf (.replace r) = [] := by
        cases ho : e.book.get r.orderId with
        | none => simp [callsOf,ho]
        | some o =>
          have hinvalid : ({ e with book := (e.book.cancel r.orderId o.accountId).1 } : Engine S).refusal
              (replacement r o) = some .invalid := by
            rw [refusal,if_pos]
            rwa [symbolId_cancel]
          simp [callsOf,ho,newCalls,hinvalid]
      rw [hcalls,if_pos hv]
      exact ⟨trivial,rfl⟩
    rw [if_neg hv] at hp ⊢
    cases ho : e.book.get r.orderId with
    | none => simp only [callsOf,ho]; exact ⟨trivial,rfl⟩
    | some o =>
      simp only [callsOf,ho] at hp ⊢
      by_cases hacct : o.accountId = r.accountId
      swap
      · rw [if_neg hacct,if_pos hacct]
        exact ⟨trivial,rfl⟩
      rw [if_neg (not_not.mpr hacct)] at hp ⊢
      rw [if_pos hacct,hacct,accounts_handleNew]
      obtain ⟨b,hb,hp⟩ := Option.bind_eq_some_iff.mp hp
      rw [Checked.cancel_some hb] at hp
      exact ⟨callsFit_of_handleNew hp,rfl⟩

theorem proceedsTotal_process {cmd : Command} (h : (Checked.process e cmd).isSome) :
    (e.process cmd).1.accountManager.proceedsTotal =
      e.accountManager.proceedsTotal+e.accountManager.roundedOff (e.callsOf cmd) := by
  obtain ⟨hfit,hpos⟩ := e.positions_process cmd h
  have htotal := proceedsTotal_foldl hfit
  rw [sum_cash_callsOf,add_zero] at htotal
  rw [proceedsTotal,hpos]
  exact htotal

/-! ### Runs -/

theorem roundedOffIn_append (e : Engine S) (cmds : List Command) (cmd : Command) : roundedOffIn e (cmds ++ [cmd]) =
    roundedOffIn e cmds+(e.after cmds).accountManager.roundedOff ((e.after cmds).callsOf cmd) := by
  induction cmds generalizing e with
  | nil => simp [roundedOffIn,after]
  | cons c cmds ih =>
    rw [List.cons_append,roundedOffIn,roundedOffIn,ih,add_assoc]
    rfl

variable {cmds : List Command} {evs : List Event}

/-- Runs of the engine in which nothing overflows. -/
abbrev RunInRange (e : Engine S) (cmds : List Command) (evs : List Event) : Prop :=
  Run Engine.new (fun e _ cmd => (Checked.process e cmd).isSome) e cmds evs

theorem RunInRange.proceedsTotal_eq (h : RunInRange e cmds evs) :
    e.accountManager.proceedsTotal = roundedOffIn (Engine.new : Engine S) cmds := by
  induction h with
  | start => exact OrdMap.sumEntries_empty _
  | step h cmd ha ih => rw [proceedsTotal_process ha,ih,roundedOffIn_append,← h.after_eq]

/-- When all accounts are flat, what they have realized together is what the average prices rounded off in the
run: nothing where all of these divisions are exact. -/
theorem RunInRange.realized_eq_rounding (h : RunInRange e cmds evs)
    (hflat : ∀ a, (e.accountManager.getPosition a).netPosition = 0) :
    e.accountManager.realizedTotal = roundedOffIn (Engine.new : Engine S) cmds := by
  rw [realizedTotal_of_flat hflat]
  exact h.proceedsTotal_eq

/-- Account 1 buys at 100 from account 2 and at 101 from account 3, and all three close at 100. -/
def closedAtHundred : List Command :=
  [.newOrder ⟨1,1,2,1,.sell,100,1,.gtc,⟨false⟩⟩,.newOrder ⟨2,2,3,1,.sell,101,1,.gtc,⟨false⟩⟩,
    .newOrder ⟨3,3,1,1,.buy,101,2,.gtc,⟨false⟩⟩,.newOrder ⟨4,4,2,1,.buy,100,1,.gtc,⟨false⟩⟩,
    .newOrder ⟨5,5,3,1,.buy,100,1,.gtc,⟨false⟩⟩,.newOrder ⟨6,6,1,1,.sell,100,2,.gtc,⟨false⟩⟩]

theorem closedAtHundred_run :
    ∃ evs, RunInRange ((Engine.new : Engine (FreeListSlab Order)).after closedAtHundred) closedAtHundred evs := by
  have hstart : RunInRange (Engine.new : Engine (FreeListSlab Order)) [] [] := .start
  exact ⟨_,(((((hstart.step
    (.newOrder ⟨1,1,2,1,.sell,100,1,.gtc,⟨false⟩⟩) (by decide +kernel)).step
    (.newOrder ⟨2,2,3,1,.sell,101,1,.gtc,⟨false⟩⟩) (by decide +kernel)).step
    (.newOrder ⟨3,3,1,1,.buy,101,2,.gtc,⟨false⟩⟩) (by decide +kernel)).step
    (.newOrder ⟨4,4,2,1,.buy,100,1,.gtc,⟨false⟩⟩) (by decide +kernel)).step
    (.newOrder ⟨5,5,3,1,.buy,100,1,.gtc,⟨false⟩⟩) (by decide +kernel)).step
    (.newOrder ⟨6,6,1,1,.sell,100,2,.gtc,⟨false⟩⟩) (by decide +kernel)⟩

theorem closedAtHundred_flat (a : AccountId) :
    (((Engine.new : Engine (FreeListSlab Order)).after closedAtHundred).accountManager.getPosition a).netPosition = 0 := by
  refine flat_of_entries ?_ a
  decide +kernel

/-- The tick that account 3 wins there is lost by nobody. -/
theorem closedAtHundred_not_zeroSum : ∃ (e : Engine (FreeListSlab Order)) (cmds : List Command) (evs : List Event),
    RunInRange e cmds evs ∧ (∀ a, (e.accountManager.getPosition a).netPosition = 0) ∧
      e.accountManager.realizedTotal ≠ 0 := by
  obtain ⟨evs,hrun⟩ := closedAtHundred_run
  exact ⟨_,_,evs,hrun,closedAtHundred_flat,by decide +kernel⟩

theorem closedAtHundred_rounding :
    let e := (Engine.new : Engine (FreeListSlab Order)).after closedAtHundred
    e.accountManager.realizedTotal = roundedOffIn (Engine.new : Engine (FreeListSlab Order)) closedAtHundred ∧
      roundedOffIn (Engine.new : Engine (FreeListSlab Order)) closedAtHundred = 1 := by
  obtain ⟨evs,hrun⟩ := closedAtHundred_run
  exact ⟨hrun.realized_eq_rounding closedAtHundred_flat,by decide +kernel⟩

end Engine
end HighPerfTrading
