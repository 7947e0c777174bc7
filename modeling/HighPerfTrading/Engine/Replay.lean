import HighPerfTrading.Engine.Rejections

/-! Replay against live execution. The two dispatchers agree on every command except a cancel
for another symbol, which the live one refuses and the replaying one carries out. -/
namespace HighPerfTrading
namespace Engine
variable {S : Type} {e f : Engine S}

/-- The same book, accounts and command count; event numbers may differ. -/
structure Agrees (e f : Engine S) : Prop where
  book : e.book = f.book
  accounts : e.accountManager = f.accountManager
  count : e.commandSeq = f.commandSeq

theorem Agrees.refl (e : Engine S) : Agrees e e := ⟨rfl,rfl,rfl⟩

theorem Agrees.trans {g : Engine S} (h : Agrees e f) (k : Agrees f g) : Agrees e g :=
  ⟨h.book.trans k.book,h.accounts.trans k.accounts,h.count.trans k.count⟩

theorem Agrees.refusal (h : Agrees e f) (no : NewOrder) : e.refusal no = f.refusal no := by
  simp only [Engine.refusal,h.book,h.accounts]

variable [Slab S Order]

theorem Agrees.handleNew (h : Agrees e f) (no : NewOrder) :
    Agrees (e.handleNew no).1 (f.handleNew no).1 := by
  rw [handleNew_eq,handleNew_eq,h.refusal]
  cases hr : f.refusal no with
  | some reason => exact ⟨h.book,h.accounts,h.count⟩
  | none =>
    obtain ⟨h1,h2,h3,_⟩ := accepted_spec ((h.refusal no).trans hr)
    obtain ⟨k1,k2,k3,_⟩ := accepted_spec hr
    exact ⟨by rw [h1,k1,h.book],by rw [h2,k2,h.book,h.accounts],by rw [h3,k3,h.count]⟩

theorem Agrees.handleCancel (h : Agrees e f) (c : Cancel) :
    Agrees (e.handleCancel c).1 (f.handleCancel c).1 := by
  simp only [Engine.handleCancel,h.book]
  split_ifs
  · exact ⟨h.book,h.accounts,h.count⟩
  · exact ⟨rfl,h.accounts,h.count⟩
  · exact ⟨rfl,h.accounts,h.count⟩

theorem Agrees.handleReplace (h : Agrees e f) (r : Replace) :
    Agrees (e.handleReplace r).1 (f.handleReplace r).1 := by
  simp only [Engine.handleReplace,h.book]
  split_ifs
  · exact ⟨h.book,h.accounts,h.count⟩
  cases f.book.get r.orderId with
  | none => exact ⟨h.book,h.accounts,h.count⟩
  | some o =>
    simp only
    split_ifs
    · exact ⟨h.book,h.accounts,h.count⟩
    · have hcancelled : Agrees { e with book := (f.book.cancel r.orderId r.accountId).1 }
          { f with book := (f.book.cancel r.orderId r.accountId).1 } := ⟨rfl,h.accounts,h.count⟩
      exact hcancelled.handleNew _

/-- Processing depends on the event numbers only in the events. -/
theorem Agrees.process (h : Agrees e f) (cmd : Command) : Agrees (e.process cmd).1 (f.process cmd).1 := by
  cases cmd with
  | newOrder no => exact h.handleNew no
  | cancel c => exact h.handleCancel c
  | replace r => exact h.handleReplace r
  | setRiskLimits srl => exact ⟨h.book,by simp [Engine.process,handleSetRiskLimits,ack,nextSeq,h.accounts],h.count⟩
  | queryAccount qa => exact ⟨h.book,h.accounts,h.count⟩
  | authenticate a => exact h

theorem Agrees.live (h : Agrees e f) (cmd : Command) : Agrees (e.live cmd) (f.live cmd) := by
  obtain ⟨h1,h2,h3⟩ := h.process cmd
  exact ⟨h1,h2,congrArg (· + 1) h3⟩

/-- A cancel by the owner of a live order that names another symbol. -/
def ForeignCancel (e : Engine S) (cmd : Command) : Prop :=
  ∃ c, cmd = .cancel c ∧ c.symbolId ≠ e.book.symbolId ∧
    ∃ o, e.book.get c.orderId = some o ∧ o.accountId = c.accountId

/-- Cancelling keeps the symbol and, when it does anything, shrinks the index. -/
theorem cancel_ne {b : OrderBook S} {id : OrderId} {o : Order} (ho : b.get id = some o) :
    (b.cancel id o.accountId).1 ≠ b := by
  intro he
  obtain ⟨k,hk,_⟩ := OrderBook.get_eq_some.mp ho
  have hgone := congrArg (fun b : OrderBook S => b.index[id]?) he
  simp only [OrderBook.cancel_index ho,OrdMap.get_erase,if_true,hk] at hgone
  exact absurd hgone (by simp)

theorem replay_cancel_iff (c : Cancel) :
    Agrees (e.replayCommand (.cancel c)) (e.live (.cancel c)) ↔ ¬ e.ForeignCancel (.cancel c) := by
  have hforeign : e.ForeignCancel (.cancel c) ↔ c.symbolId ≠ e.book.symbolId ∧
      ∃ o, e.book.get c.orderId = some o ∧ o.accountId = c.accountId := by
    simp [ForeignCancel]
  rw [hforeign]
  by_cases hs : c.symbolId ≠ e.book.symbolId
  · rcases OrderBook.owned_or_refused e.book c.orderId c.accountId with ⟨o,ho,ha⟩ | hno
    · refine iff_of_false (fun h => ?_) (not_not.mpr ⟨hs,o,ho,ha⟩)
      have hb := h.book
      simp only [replayCommand,live,process,handleCancel,if_pos hs,rejected_book] at hb
      exact cancel_ne ho (ha ▸ hb)
    · refine iff_of_true ?_ ?_
      · simp only [replayCommand,live,process,handleCancel,if_pos hs,OrderBook.cancel_refused hno]
        exact ⟨rfl,rfl,rfl⟩
      · rintro ⟨-,o,ho,ha⟩
        exact hno o ho ha
  · refine iff_of_true ?_ fun h => hs h.1
    simp only [replayCommand,live,process,handleCancel,if_neg hs]
    split_ifs <;> exact ⟨rfl,rfl,rfl⟩

theorem replay_iff (e : Engine S) (cmd : Command) :
    Agrees (e.replayCommand cmd) (e.live cmd) ↔ ¬ e.ForeignCancel cmd := by
  cases cmd with
  | cancel c => exact replay_cancel_iff c
  | newOrder no => exact iff_of_true (.refl _) (by simp [ForeignCancel])
  | replace r => exact iff_of_true (.refl _) (by simp [ForeignCancel])
  | setRiskLimits srl => exact iff_of_true (.refl _) (by simp [ForeignCancel])
  | queryAccount qa => exact iff_of_true (.refl _) (by simp [ForeignCancel])
  | authenticate a => exact iff_of_true (.refl _) (by simp [ForeignCancel])

/-- No command of the run is a foreign cancel in the state it meets. -/
def NoForeign (e : Engine S) : List Command → Prop
  | [] => True
  | cmd::cmds => ¬ e.ForeignCancel cmd ∧ NoForeign (e.live cmd) cmds

def liveRun (e : Engine S) (cmds : List Command) : Engine S := cmds.foldl Engine.live e

theorem Agrees.foreign (h : Agrees e f) {cmd : Command} : e.ForeignCancel cmd ↔ f.ForeignCancel cmd := by
  simp only [ForeignCancel,h.book]

theorem replay_run (h : Agrees e f) {cmds : List Command} (hn : NoForeign f cmds) :
    Agrees (e.replay cmds) (f.liveRun cmds) := by
  induction cmds generalizing e f with
  | nil => exact h
  | cons cmd cmds ih =>
    have hstep : Agrees (e.replayCommand cmd) (f.live cmd) :=
      ((replay_iff e cmd).mpr (mt h.foreign.mp hn.1)).trans (h.live cmd)
    exact ih hstep hn.2

/-- One replayed command agrees with the live one exactly when it is no foreign cancel, and a
run without them replays to the live book and accounts. -/
theorem replay_agrees_iff :
    (∀ (e : Engine S) (cmd : Command),
      Agrees (e.replayCommand cmd) (e.live cmd) ↔ ¬ e.ForeignCancel cmd) ∧
    ∀ cmds, NoForeign (new : Engine S) cmds →
      Agrees ((new : Engine S).replay cmds) ((new : Engine S).liveRun cmds) :=
  ⟨replay_iff,fun _ hn => replay_run (.refl _) hn⟩

theorem replay_agrees_order_cancel :
    let cmds : List Command := [.newOrder ⟨1,1,7,1,.buy,100,5,.gtc,⟨false⟩⟩,.cancel ⟨2,1,7,1⟩]
    Agrees ((new : Engine (FreeListSlab Order)).replay cmds)
      ((new : Engine (FreeListSlab Order)).liveRun cmds) := by
  refine replay_agrees_iff.2 _ ⟨?_,?_,trivial⟩
  · rintro ⟨c,hc,_⟩
    cases hc
  · rintro ⟨c,hc,hs,_⟩
    cases hc
    exact hs (by decide +kernel)

/-- A cancel for symbol 2 is refused live and carried out by the replay. -/
theorem replay_foreign_cancel :
    let cmds : List Command := [.newOrder ⟨1,1,7,1,.buy,100,5,.gtc,⟨false⟩⟩,.cancel ⟨2,1,7,2⟩]
    (((new : Engine (FreeListSlab Order)).liveRun cmds).book.get 1).isSome ∧
      ¬ Agrees ((new : Engine (FreeListSlab Order)).replay cmds)
        ((new : Engine (FreeListSlab Order)).liveRun cmds) := by
  refine ⟨by decide +kernel,fun h => ?_⟩
  have hlive := congrArg (fun b => OrderBook.get b 1) h.book
  revert hlive
  decide +kernel

end Engine
end HighPerfTrading
