import HighPerfTrading.Engine.BookRepresentation
import HighPerfTrading.Engine.MarketRefines
import HighPerfTrading.Engine.Replay
import HighPerfTrading.Library.RedoLog

/-! Engines with the same market. They may keep their orders in other slots, with other levels and other dead
entries behind them, but no sequence of orderly commands tells them apart. -/
namespace HighPerfTrading
namespace OrderBook
open RefBook
variable {S : Type} [Slab S Order] {b c : OrderBook S}

/-- Two sound books with the same queues. -/
structure Alike (b c : OrderBook S) : Prop where
  left : Inv b
  right : Inv c
  queues : b.abs = c.abs

namespace Alike

theorem refl (hb : Inv b) : Alike b b := ⟨hb,hb,rfl⟩

theorem symm (h : Alike b c) : Alike c b := ⟨h.right,h.left,h.queues.symm⟩

theorem get (h : Alike b c) (id : OrderId) : b.get id = c.get id := by
  have hrests : ∀ {b : OrderBook S} {o : Order}, Inv b → (b.get id = some o ↔ b.abs.Rests o ∧ o.orderId = id) := by
    intro b o hb
    constructor
    · intro ho
      have hid := (hb.toWf.get_live ho).1
      exact ⟨hb.rests_iff.mpr (hid.symm ▸ ho),hid⟩
    · rintro ⟨ho,rfl⟩
      exact hb.rests_iff.mp ho
  refine Option.ext fun o => ?_
  rw [hrests h.left,hrests h.right,h.queues]

/-- The same orders are live, wherever they lie. -/
theorem perm (h : Alike b c) : b.liveOrders.Perm c.liveOrders := by
  have hnodup : ∀ {b : OrderBook S}, Inv b → b.liveOrders.Nodup := fun hb =>
    hb.toWf.restorable.ids.imp fun hne heq => hne (congrArg Order.orderId heq)
  have hmem : ∀ {b : OrderBook S} {o : Order}, Inv b → (o ∈ b.liveOrders ↔ b.get o.orderId = some o) := by
    intro b o hb
    rw [mem_liveOrders,hb.toWf.get_iff]
    simp
  refine (List.perm_ext_iff_of_nodup (hnodup h.left) (hnodup h.right)).mpr fun o => ?_
  rw [hmem h.left,hmem h.right,h.get]

theorem liveQty (h : Alike b c) : OrderBook.liveQty b = OrderBook.liveQty c := (h.perm.map _).sum_eq

theorem cancel (h : Alike b c) {id : OrderId} {o : Order} (ho : b.get id = some o) :
    Alike (b.cancel id o.accountId).1 (c.cancel id o.accountId).1 where
  left := h.left.cancel ho
  right := h.right.cancel ((h.get id).symm.trans ho)
  queues := by rw [h.left.abs_cancel ho,h.right.abs_cancel ((h.get id).symm.trans ho),h.queues]

/-- A taker trades with the same makers. -/
theorem matched (h : Alike b c) (no : NewOrder) :
    Alike (Engine.matched b no) (Engine.matched c no) ∧ Engine.fillsOf b no = Engine.fillsOf c no := by
  obtain ⟨ts,Q,hfs,hw,habs⟩ := h.left.abs_matchTaker no.orderId no.side no.price no.qty
  obtain ⟨ts',Q',hfs',hw',habs'⟩ := h.right.abs_matchTaker no.orderId no.side no.price no.qty
  rw [← h.queues] at hw' habs'
  obtain ⟨rfl,rfl⟩ := PriceTime.Rules.Walk.deterministic (fun _ _ => better_antisymm) hw hw'
  have hleft := h.left.matchTaker no.orderId no.side no.price no.qty
  have hright := h.right.matchTaker no.orderId no.side no.price no.qty
  rw [← Engine.matched_eq] at hfs hfs' habs habs' hleft hright
  exact ⟨⟨hleft,hright,habs.trans habs'.symm⟩,hfs.trans hfs'.symm⟩

/-- After an order both books hold as much. -/
theorem liveQty_newBook (h : Alike b c) (no : NewOrder) :
    OrderBook.liveQty (Engine.newBook b no) = OrderBook.liveQty (Engine.newBook c no) := by
  obtain ⟨hmatched,hfills⟩ := h.matched no
  have hrem : Engine.remainder b no = Engine.remainder c no := by rw [Engine.remainder,Engine.remainder,hfills]
  unfold Engine.newBook
  rw [← hrem]
  split_ifs with hrest
  · have hpos : 0 < (Engine.resting no (Engine.remainder b no)).qtyRem := hrest.1
    rw [liveQty_insertResting _ hpos,liveQty_insertResting _ hpos,hmatched.liveQty]
  · exact hmatched.liveQty

end Alike
end OrderBook

namespace Engine
open OrderBook
variable {S : Type} [Slab S Order] {e f : Engine S}

/-- Sound engines that show the same market. -/
structure Alike (e f : Engine S) : Prop where
  left : Inv e.book
  right : Inv f.book
  market : e.market = f.market

namespace Alike

theorem refl (he : Inv e.book) : Alike e e := ⟨he,he,rfl⟩

theorem symm (h : Alike e f) : Alike f e := ⟨h.right,h.left,h.market.symm⟩

theorem trans {g : Engine S} (h : Alike e f) (k : Alike f g) : Alike e g := ⟨h.left,k.right,h.market.trans k.market⟩

theorem book (h : Alike e f) : OrderBook.Alike e.book f.book := ⟨h.left,h.right,congrArg Market.queues h.market⟩

theorem symbolId (h : Alike e f) : e.book.symbolId = f.book.symbolId := congrArg Market.symbolId h.market

theorem refusal (h : Alike e f) (no : NewOrder) : e.refusal no = f.refusal no := by
  rw [← refusal_eq h.left,← refusal_eq h.right,h.market]

theorem foreign (h : Alike e f) {cmd : Command} : e.ForeignCancel cmd ↔ f.ForeignCancel cmd := by
  simp only [ForeignCancel,h.symbolId,h.book.get]

theorem keepsIds (h : Alike e f) {cmd : Command} : KeepsIds e cmd ↔ KeepsIds f cmd := by
  cases cmd with
  | newOrder no => simp only [KeepsIds,h.refusal,h.book.get]
  | cancel c => exact .rfl
  | replace r => exact .rfl
  | setRiskLimits srl => exact .rfl
  | queryAccount qa => exact .rfl
  | authenticate auth => exact .rfl

theorem liveQty_handleNew (h : Alike e f) (no : NewOrder) :
    liveQty (e.handleNew no).1.book = liveQty (f.handleNew no).1.book := by
  rw [handleNew_eq,handleNew_eq,← h.refusal]
  cases hr : e.refusal no with
  | some reason => exact h.book.liveQty
  | none =>
    simp only
    rw [(accepted_spec hr).1,(accepted_spec ((h.refusal no).symm.trans hr)).1]
    exact h.book.liveQty_newBook no

theorem cancelled (h : Alike e f) {id : OrderId} {o : Order} (ho : e.book.get id = some o) :
    Alike { e with book := (e.book.cancel id o.accountId).1 } { f with book := (f.book.cancel id o.accountId).1 } where
  left := h.left.cancel ho
  right := h.right.cancel ((h.book.get id).symm.trans ho)
  market := by rw [market_cancel h.left ho,market_cancel h.right ((h.book.get id).symm.trans ho),h.market]

theorem liveQty_handleReplace (h : Alike e f) (r : Replace) :
    liveQty (e.handleReplace r).1.book = liveQty (f.handleReplace r).1.book := by
  unfold handleReplace
  rw [← h.symbolId,← h.book.get]
  split_ifs with hv
  · exact h.book.liveQty
  cases ho : e.book.get r.orderId with
  | none => exact h.book.liveQty
  | some o =>
    simp only
    split_ifs with hacct
    · exact h.book.liveQty
    · rw [← not_not.mp hacct]
      exact (h.cancelled ho).liveQty_handleNew _

theorem liveQty_handleCancel (h : Alike e f) (c : Cancel) :
    liveQty (e.handleCancel c).1.book = liveQty (f.handleCancel c).1.book := by
  unfold handleCancel
  rw [← h.symbolId]
  split_ifs with hs
  · exact h.book.liveQty
  rcases owned_or_refused e.book c.orderId c.accountId with ⟨o,ho,hacct⟩ | hno
  · have ho' : f.book.get c.orderId = some o := (h.book.get _).symm.trans ho
    rw [← hacct]
    simp only [cancel_accepted ho,cancel_accepted ho',if_true]
    exact (h.book.cancel ho).liveQty
  · have hno' : ∀ o, f.book.get c.orderId = some o → o.accountId ≠ c.accountId := by
      intro o ho
      exact hno o ((h.book.get _).trans ho)
    simp only [cancel_refused hno,cancel_refused hno']
    exact h.book.liveQty

theorem liveQty_process (h : Alike e f) (cmd : Command) :
    liveQty (e.process cmd).1.book = liveQty (f.process cmd).1.book := by
  cases cmd with
  | newOrder no => exact h.liveQty_handleNew no
  | cancel c => exact h.liveQty_handleCancel c
  | replace r => exact h.liveQty_handleReplace r
  | setRiskLimits srl => exact h.book.liveQty
  | queryAccount qa => exact h.book.liveQty
  | authenticate auth => exact h.book.liveQty

theorem orderly (h : Alike e f) {cmd : Command} : e.Orderly cmd ↔ f.Orderly cmd := by
  rw [Orderly,Orderly,h.keepsIds,h.liveQty_process]

/-- An orderly command leaves both engines alike, with the same answers. -/
theorem process (h : Alike e f) {cmd : Command} (ho : e.Orderly cmd) :
    Alike (e.process cmd).1 (f.process cmd).1 ∧
      (e.process cmd).2.map Event.unnumbered = (f.process cmd).2.map Event.unnumbered := by
  obtain ⟨hleft,hstep⟩ := steps h.left ho
  obtain ⟨hright,hstep'⟩ := steps h.right (h.orderly.mp ho)
  rw [← h.market] at hstep'
  obtain ⟨hmarket,hevs⟩ := hstep.deterministic (market_distinct h.left) hstep'
  exact ⟨⟨hleft,hright,hmarket⟩,hevs⟩

theorem run (h : Alike e f) {cmds : List Command} (ho : e.OrderlyRun cmds) :
    f.OrderlyRun cmds ∧ Alike (e.after cmds) (f.after cmds) ∧
      (e.emitted cmds).map Event.unnumbered = (f.emitted cmds).map Event.unnumbered := by
  induction cmds generalizing e f with
  | nil => exact ⟨trivial,h,rfl⟩
  | cons cmd cmds ih =>
    obtain ⟨hnext,hevs⟩ := h.process ho.1
    obtain ⟨hrun,hafter,hevs'⟩ := ih hnext ho.2
    refine ⟨⟨h.orderly.mp ho.1,hrun⟩,hafter,?_⟩
    rw [emitted,emitted,List.map_append,List.map_append,hevs,hevs']

end Alike

/-! ### Redoing a log -/

/-- An orderly command that is no foreign cancel. -/
def Redoable (e : Engine S) (cmd : Command) : Prop := e.Orderly cmd ∧ ¬ e.ForeignCancel cmd

theorem Alike.redoable (h : Alike e f) {cmd : Command} : e.Redoable cmd ↔ f.Redoable cmd :=
  and_congr h.orderly (not_congr h.foreign)

/-- The loop counts the commands, which no member sees. -/
theorem follows_live : RedoLog.Follows (fun (e : Engine S) cmd => (e.process cmd).1) Redoable live Alike := by
  intro e f cmd h hc
  obtain ⟨hleft,hright,hmarket⟩ := (h.process hc.1).1
  exact ⟨hleft,hright,hmarket⟩

/-- Replay has its own dispatcher. -/
theorem follows_replay : RedoLog.Follows (fun (e : Engine S) cmd => (e.process cmd).1) Redoable replayCommand Alike := by
  intro e f cmd h hc
  have hagrees := (replay_iff f cmd).mpr (h.redoable.mp hc).2
  obtain ⟨hleft,hright,hmarket⟩ := follows_live h hc
  have hsame : (f.replayCommand cmd).market = (f.live cmd).market := by
    unfold market
    rw [hagrees.book,hagrees.accounts]
  exact ⟨hleft,by rw [hagrees.book]; exact hright,hmarket.trans hsame.symm⟩

end Engine
end HighPerfTrading
