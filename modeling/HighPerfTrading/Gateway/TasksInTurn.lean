import HighPerfTrading.Gateway.Consistency
import HighPerfTrading.Gateway.Tasks

/-! Tasks that do not disturb each other: a read loop that is left alone with its command does what the handler of the
frame does, and so does the other task with an event. -/
namespace HighPerfTrading
namespace Gateway
open GatewayContext

/-- What a handled frame sends. -/
def sentBy (connId : UInt64) (h : Handled) : List Output := h.2.1.toList.map .command ++ h.2.2.map (.event connId)

namespace GatewayContext

def outputs (g : GatewayContext) : Step → List Output
  | .frame connId bytes routes => sentBy connId (g.handleFrame connId bytes routes)
  | .event connId event => (g.handleEngineEvent connId event).2.map fun sent => .event sent.1 sent.2
  | _ => []

/-- The gateway whose handlers run to their ends. -/
def machine : Machine GatewayContext Step Output := ⟨fun g s => (g.step s,g.outputs s)⟩

end GatewayContext

namespace Tasks
variable {t t' : Tasks} {connId : UInt64} {routes : SymbolId → Bool}

theorem loop_goes (t : Tasks) (connId c : UInt64) (l : ReadLoop) (g : GatewayContext) :
    (t.goes connId l g).loop c = if connId = c then l else t.loop c := by
  rw [loop,goes,OrdMap.get_insert]
  split_ifs <;> rfl

@[simp] theorem loop_goes_self (t : Tasks) (connId : UInt64) (l : ReadLoop) (g : GatewayContext) :
    (t.goes connId l g).loop connId = l := by
  rw [loop_goes,if_pos rfl]

/-- All tasks wait for work. -/
structure AtRest (t : Tasks) : Prop where
  loops : ∀ c, t.loop c = .idle
  responder : t.responder = .idle

/-- All tasks but one read loop wait for work. -/
structure Alone (t : Tasks) (connId : UInt64) : Prop where
  loops : ∀ c, connId ≠ c → t.loop c = .idle
  responder : t.responder = .idle

namespace Alone

theorem goes (h : Alone t connId) (l : ReadLoop) (g : GatewayContext) : Alone (t.goes connId l g) connId :=
  ⟨fun c hc => by rw [loop_goes,if_neg hc,h.loops c hc],h.responder⟩

theorem atRest (h : Alone t connId) (hidle : t.loop connId = .idle) : AtRest t := by
  refine ⟨fun c => ?_,h.responder⟩
  by_cases hc : connId = c
  · rw [← hc,hidle]
  · exact h.loops c hc

end Alone

theorem AtRest.alone (h : AtRest t) (connId : UInt64) : Alone t connId := ⟨fun c _ => h.loops c,h.responder⟩

/-- Some steps of one task bring all tasks to rest, with the gateway and what is sent then. Further ones do nothing. -/
def Finishes (t : Tasks) (a : Action) (k : ℕ) (g : GatewayContext) (outs : List Output) : Prop :=
  ∀ n, k ≤ n → ∃ t', machine.run t (List.replicate n a) = (t',outs) ∧ t'.gateway = g ∧ AtRest t'

namespace Finishes
variable {g : GatewayContext} {outs : List Output} {k : ℕ} {a : Action}

theorem rest (h : AtRest t) (hstep : t.step a = (t,[])) : Finishes t a 0 t.gateway [] := by
  have hsame : machine.step t a = (t,[]) := hstep
  rintro n -
  refine ⟨t,?_,rfl,h⟩
  induction n with
  | zero => rfl
  | succ n ih =>
    rw [List.replicate_succ,Machine.run,hsame,ih]
    rfl

theorem mono {k' : ℕ} (h : Finishes t a k g outs) (hle : k ≤ k') : Finishes t a k' g outs :=
  fun n hn => h n (hle.trans hn)

theorem next (hstep : t.step a = (t',[])) (h : Finishes t' a k g outs) : Finishes t a (k+1) g outs := by
  intro n hn
  obtain ⟨m,rfl⟩ := Nat.exists_eq_add_of_le' hn
  have hfirst : machine.step t a = (t',[]) := hstep
  obtain ⟨t₂,hrun,hg,hrest⟩ := h (m+k) (Nat.le_add_left k m)
  refine ⟨t₂,?_,hg,hrest⟩
  rw [← Nat.add_assoc,List.replicate_succ,Machine.run,hfirst,hrun]
  rfl

/-- The last step sends something. -/
theorem last (hstep : t.step a = (t',outs)) (h : AtRest t') (hsame : t'.step a = (t',[])) :
    Finishes t a 1 t'.gateway outs := by
  intro n hn
  obtain ⟨m,rfl⟩ := Nat.exists_eq_add_of_le' hn
  have hfirst : machine.step t a = (t',outs) := hstep
  obtain ⟨t₂,hrun,hg,hrest⟩ := rest h hsame m (Nat.zero_le m)
  refine ⟨t₂,?_,hg,hrest⟩
  rw [List.replicate_succ,Machine.run,hfirst,hrun]
  exact congrArg (Prod.mk t₂) (List.append_nil _)

end Finishes

theorem AtRest.proceed (h : AtRest t) (connId : UInt64) (routes : SymbolId → Bool) :
    t.step (.proceed connId routes) = (t,[]) := by
  simp only [step,Tasks.proceed,h.loops connId]

theorem AtRest.respond (h : AtRest t) : t.step .respond = (t,[]) := by
  simp only [step,Tasks.respond,h.responder]

/-! ### Commands -/

namespace Finishes

/-- The read loop answers its command. -/
theorem reply (h : Alone t connId) {r : Handled} (hstep : t.proceed connId routes = t.replies connId r) :
    Finishes t (.proceed connId routes) 1 r.1 (sentBy connId r) := by
  have hrest := (h.goes .idle r.1).atRest (loop_goes_self ..)
  exact last (a := .proceed connId routes) hstep hrest (hrest.proceed connId routes)

section Phases
variable (h : Alone t connId)
include h

theorem approved {cmd : Command} {token : ReservationToken} (hloop : t.loop connId = .approved cmd token) :
    let handled := t.gateway.route connId cmd token (((commandSymbolId cmd).map routes).getD false)
    Finishes t (.proceed connId routes) 2 handled.1 (sentBy connId handled) := by
  cases hr : ((commandSymbolId cmd).map routes).getD false with
  | true =>
    refine (reply h (r := t.gateway.route connId cmd token true) ?_).mono (Nat.le_succ 1)
    simp only [proceed,hloop,hr,if_true,route]
  | false =>
    have hstep : t.proceed connId routes = (t.goes connId (.unrouted cmd token) t.gateway.bumpSeq,[]) := by
      simp only [proceed,hloop,hr,Bool.false_eq_true,if_false]
    refine next hstep (reply (h.goes _ _) (r := t.gateway.route connId cmd token false) ?_)
    simp only [proceed,loop_goes_self,route]
    rfl

theorem cancelling {c : Cancel} (hloop : t.loop connId = .cancelling c) {g : GatewayContext}
    (hg : t.gateway = g.setOperation connId c.orderId .cancelPending) :
    Finishes t (.proceed connId routes) 2 (g.handleCancel connId c (routes c.symbolId)).1
      (sentBy connId (g.handleCancel connId c (routes c.symbolId))) := by
  cases hr : routes c.symbolId with
  | true =>
    refine (reply h (r := g.handleCancel connId c true) ?_).mono (Nat.le_succ 1)
    simp only [proceed,hloop,hr,if_true,handleCancel,hg]
  | false =>
    have hstep : t.proceed connId routes = (t.goes connId (.notCancelled c) t.gateway.bumpSeq,[]) := by
      simp only [proceed,hloop,hr,Bool.false_eq_true,if_false]
    refine next hstep (reply (h.goes _ _) (r := g.handleCancel connId c false) ?_)
    simp only [proceed,loop_goes_self,handleCancel,hg]
    rfl

theorem ordered {order : NewOrder} {token : ReservationToken} (hloop : t.loop connId = .reserved order token)
    {g : GatewayContext} (hg : t.gateway =
      g.updateLocal connId (·.insert order.orderId (token,decide (order.side = Side.buy),.active))) :
    let handled := (g.track connId order.orderId token (decide (order.side = Side.buy))).route connId (.newOrder order)
      token (routes order.symbolId)
    Finishes t (.proceed connId routes) 3 handled.1 (sentBy connId handled) := by
  have hstep : t.proceed connId routes = (t.goes connId (.approved (.newOrder order) token)
      (g.track connId order.orderId token (decide (order.side = Side.buy))),[]) := by
    simp only [proceed,hloop,hg,track,pendingOrders_updateLocal]
  exact next hstep (approved (h.goes _ _) (loop_goes_self ..))

theorem adjusted {r : Replace} {token : ReservationToken} (hloop : t.loop connId = .adjusted r token) :
    let handled := (match t.gateway.localOrder connId r.orderId with
      | some x => t.gateway.track connId r.orderId token x.2.1
      | none => t.gateway).route connId (.replace r) token (routes r.symbolId)
    Finishes t (.proceed connId routes) 3 handled.1 (sentBy connId handled) := by
  cases hl : t.gateway.localOrder connId r.orderId with
  | none =>
    have hstep : t.proceed connId routes = (t.goes connId (.approved (.replace r) token) t.gateway,[]) := by
      simp only [proceed,hloop,hl]
    exact next hstep (approved (h.goes _ _) (loop_goes_self ..))
  | some x =>
    have hstep : t.proceed connId routes = (t.goes connId (.approved (.replace r) token)
        (t.gateway.track connId r.orderId token x.2.1),[]) := by
      simp only [proceed,hloop,hl]
    exact next hstep (approved (h.goes _ _) (loop_goes_self ..))

theorem found {r : Replace} {md : OrderMetadata} (hloop : t.loop connId = .found r md.reservationToken)
    (hmd : t.gateway.pendingOrders[r.orderId]? = some md) :
    let handled := t.gateway.handleReplace connId r (routes r.symbolId)
    Finishes t (.proceed connId routes) 4 handled.1 (sentBy connId handled) := by
  cases hok : t.gateway.accountManager.adjustReservation md.reservationToken r with
  | error violation =>
    refine (reply h (r := t.gateway.handleReplace connId r (routes r.symbolId)) ?_).mono (by omega)
    rw [replace_refused connId _ hmd hok]
    simp only [proceed,hloop,hok]
  | ok p =>
    obtain ⟨token,am⟩ := p
    have hstep : t.proceed connId routes =
        (t.goes connId (.adjusted r token) { t.gateway with accountManager := am },[]) := by
      simp only [proceed,hloop,hok]
    rw [replace_reserved connId _ hmd hok]
    exact next hstep (adjusted (h.goes _ _) (loop_goes_self ..))

end Phases
end Finishes

/-- After its first step the read loop, left alone, does what is handled. -/
def Handles (first : Tasks × List Output) (connId : UInt64) (routes : SymbolId → Bool) (handled : Handled) : Prop :=
  ∃ outs, Finishes first.1 (.proceed connId routes) 4 handled.1 outs ∧ first.2 ++ outs = sentBy connId handled

namespace Handles

theorem reply (h : Alone t connId) (r : Handled) : Handles (t.replies connId r) connId routes r :=
  have hrest := (h.goes .idle r.1).atRest (loop_goes_self ..)
  ⟨[],(Finishes.rest hrest (hrest.proceed connId routes)).mono (Nat.zero_le 4),List.append_nil _⟩

theorem later {k : ℕ} {handled : Handled} (h : Finishes t (.proceed connId routes) k handled.1 (sentBy connId handled))
    (hk : k ≤ 4) : Handles (t,[]) connId routes handled :=
  ⟨_,h.mono hk,rfl⟩

theorem reserve (h : Alone t connId) (cmd : Command) : Handles (t.reserve connId cmd) connId routes
    (t.gateway.handleReserving connId cmd (((commandSymbolId cmd).map routes).getD false)) := by
  unfold Tasks.reserve handleReserving
  cases t.gateway.accountManager.checkAndReserve cmd with
  | error violation => cases cmd <;> exact reply h _
  | ok p =>
    cases cmd with
    | newOrder order => exact later (Finishes.ordered (h.goes _ _) (loop_goes_self ..) rfl) (Nat.le_succ 3)
    | _ => exact later (Finishes.approved (h.goes _ _) (loop_goes_self ..)) (by omega)

theorem command (h : Alone t connId) (cmd : Command) : Handles (t.begin connId cmd) connId routes
    (t.gateway.handleCommand connId cmd (((commandSymbolId cmd).map routes).getD false)) := by
  cases cmd with
  | queryAccount query => exact reply h _
  | authenticate auth => exact reply h _
  | cancel c =>
    simp only [begin,handleCommand]
    split_ifs
    · exact reply h _
    · exact later (Finishes.cancelling (h.goes _ _) (loop_goes_self ..) rfl) (by omega)
  | replace r =>
    simp only [begin,handleCommand]
    split_ifs
    · exact reply h _
    · cases hmd : t.gateway.pendingOrders[r.orderId]? with
      | none =>
        simp only [handleReplace,hmd]
        exact reply h _
      | some md => exact later (Finishes.found (h.goes _ _) (loop_goes_self ..) hmd) (Nat.le_refl 4)
  | newOrder order =>
    simp only [begin,handleCommand]
    split_ifs
    · exact reply h _
    · exact reserve h _
  | setRiskLimits srl =>
    simp only [begin,handleCommand]
    split_ifs
    · exact reply h _
    · exact reserve h _

end Handles

theorem frame_handled (h : AtRest t) (connId : UInt64) (bytes : List UInt8) (routes : SymbolId → Bool) :
    Handles (t.frame connId bytes) connId routes (t.gateway.handleFrame connId bytes routes) := by
  unfold Tasks.frame handleFrame
  rw [if_neg (not_not.mpr (h.loops connId))]
  cases t.gateway.decoded connId bytes with
  | none => exact ⟨[],(Finishes.rest h (h.proceed connId routes)).mono (Nat.zero_le 4),rfl⟩
  | some cmd => exact Handles.command (h.alone connId) cmd

/-! ### Events -/

namespace Finishes
section Phases
variable (hloops : ∀ c, t.loop c = .idle)
include hloops

theorem sending {connIds : List UInt64} {event : Event} (hr : t.responder = .sending connIds event) :
    Finishes t .respond 1 t.gateway
      ((connIds.flatMap fun connId => t.gateway.sendTo connId event).map fun sent => .event sent.1 sent.2) := by
  have hrest : AtRest { t with responder := .idle } := ⟨hloops,rfl⟩
  have hstep : t.step .respond = ({ t with responder := .idle },
      (connIds.flatMap fun connId => t.gateway.sendTo connId event).map fun sent => .event sent.1 sent.2) := by
    simp only [step,respond,hr]
  have hlast := last hstep hrest hrest.respond
  exact hlast

theorem releasing {reject : Reject} {token : ReservationToken} (hr : t.responder = .releasing connId reject token) :
    Finishes t .respond 2
      { t.gateway with accountManager := t.gateway.accountManager.releaseReservation token }
      ((t.gateway.sendTo connId (.reject reject)).map fun sent => .event sent.1 sent.2) := by
  let g := { t.gateway with accountManager := t.gateway.accountManager.releaseReservation token }
  have hstep : t.step .respond = ({ t with gateway := g, responder := .sending [connId] (.reject reject) },[]) := by
    simp only [step,respond,hr,g]
  have hlast := sending (t := { t with gateway := g, responder := .sending [connId] (.reject reject) }) hloops rfl
  rw [List.flatMap_singleton] at hlast
  exact next hstep hlast

section Fill
variable {fill : Fill} {maker taker : Option OrderMetadata}

/-- What the clients of a fill are sent. -/
def sentFill (t : Tasks) (connId : UInt64) (fill : Fill) (maker : Option OrderMetadata) : List Output :=
  ((recipients connId maker).flatMap fun c => t.gateway.sendTo c (.fill fill)).map fun sent => .event sent.1 sent.2

theorem takerSide (hr : t.responder = .filling connId fill maker taker .taker) :
    Finishes t .respond 3 (t.gateway.settleFill fill fill.takerOrderId taker) (sentFill t connId fill maker) := by
  cases taker with
  | none =>
    have hstep : t.step .respond = ({ t with responder := .sending (recipients connId maker) (.fill fill) },[]) := by
      simp only [step,respond,hr]
    exact (next hstep (sending (t := { t with responder := .sending (recipients connId maker) (.fill fill) })
      hloops rfl)).mono (by omega)
  | some md =>
    let t₁ : Tasks :=
      { t with gateway := t.settle fill md, responder := .filling connId fill maker (some md) .takerSettled }
    let t₂ : Tasks :=
      { t₁ with gateway := t₁.untrack fill.takerOrderId, responder := .sending (recipients connId maker) (.fill fill) }
    have hstep : t.step .respond = (t₁,[]) := by simp only [step,respond,hr,t₁]
    have hstep₁ : t₁.step .respond = (t₂,[]) := rfl
    exact next hstep (next hstep₁ (sending (t := t₂) hloops rfl))

theorem makerSide (hr : t.responder = .filling connId fill maker taker .maker) :
    Finishes t .respond 5 ((t.gateway.settleFill fill fill.makerOrderId maker).settleFill fill fill.takerOrderId taker)
      (sentFill t connId fill maker) := by
  cases maker with
  | none =>
    have hstep : t.step .respond = ({ t with responder := .filling connId fill none taker .taker },[]) := by
      simp only [step,respond,hr]
    exact (next hstep (takerSide (t := { t with responder := .filling connId fill none taker .taker })
      hloops rfl)).mono (by omega)
  | some md =>
    let t₁ : Tasks :=
      { t with gateway := t.settle fill md, responder := .filling connId fill (some md) taker .makerSettled }
    let t₂ : Tasks :=
      { t₁ with gateway := t₁.untrack fill.makerOrderId, responder := .filling connId fill (some md) taker .taker }
    have hstep : t.step .respond = (t₁,[]) := by simp only [step,respond,hr,t₁]
    have hstep₁ : t₁.step .respond = (t₂,[]) := rfl
    exact next hstep (next hstep₁ (takerSide (t := t₂) hloops rfl))

end Fill
end Phases
end Finishes

/-- What is sent to the clients of an event. -/
def sentOn (sent : List (UInt64 × Event)) : List Output := sent.map fun s => .event s.1 s.2

theorem event_handled (h : AtRest t) (connId : UInt64) (event : Event) :
    Finishes (t.event connId event) .respond 5 (t.gateway.handleEngineEvent connId event).1
      (sentOn (t.gateway.handleEngineEvent connId event).2) := by
  unfold Tasks.event
  rw [if_neg (not_not.mpr h.responder)]
  have hsend (g : GatewayContext) (ev : Event) : Finishes { t with gateway := g, responder := .sending [connId] ev }
      .respond 1 g (sentOn (g.sendTo connId ev)) := by
    have hlast := Finishes.sending (t := { t with gateway := g, responder := .sending [connId] ev }) h.loops rfl
    rw [List.flatMap_singleton] at hlast
    exact hlast
  cases event with
  | fill fill =>
    have hfill := Finishes.makerSide (t := { t with
      responder := .filling connId fill t.gateway.pendingOrders[fill.makerOrderId]?
        t.gateway.pendingOrders[fill.takerOrderId]? .maker }) h.loops rfl
    have hsent : Finishes.sentFill t connId fill t.gateway.pendingOrders[fill.makerOrderId]? =
        sentOn (t.gateway.handleFill connId fill).2 := by
      unfold Finishes.sentFill handleFill recipients
      cases t.gateway.pendingOrders[fill.makerOrderId]? <;> simp [sentOn]
    change Finishes _ _ _ _ (sentOn (t.gateway.handleFill connId fill).2)
    rw [← hsent]
    exact hfill
  | ack ack => exact (hsend _ _).mono (by omega)
  | reject reject =>
    obtain ⟨serverSeq,clientSeq,orderId,reason⟩ := reject
    cases orderId with
    | none => exact (hsend _ _).mono (by omega)
    | some orderId =>
      simp only [Option.bind_some,handleEngineEvent,handleReject,release]
      cases hmd : t.gateway.pendingOrders[orderId]? with
      | none => exact (hsend _ _).mono (by omega)
      | some md => exact (Finishes.releasing (t := { t with
          gateway := { t.gateway with pendingOrders := t.gateway.pendingOrders.erase orderId }
          responder := .releasing connId ⟨serverSeq,clientSeq,some orderId,reason⟩ md.reservationToken })
          h.loops rfl).mono (by omega)
  | _ => exact (hsend _ _).mono (by omega)

/-! ### The handlers in turn -/

/-- What a step of the gateway with atomic handlers is for its tasks. -/
def inTurn : Step → List Action
  | .connect decodeCommand => [.connect decodeCommand]
  | .disconnect connId => [.disconnect connId]
  | .frame connId bytes routes => .frame connId bytes::List.replicate 4 (.proceed connId routes)
  | .event connId event => .event connId event::List.replicate 5 .respond

/-- Tasks at rest are where the gateway is between two handlers. -/
def simulation : Machine.Simulation GatewayContext.machine machine (fun _ _ => True) where
  related g t := t.gateway = g ∧ AtRest t
  actions _ := inTurn
  step := by
    rintro g t s ⟨rfl,h⟩ -
    cases s with
    | connect decodeCommand => exact ⟨⟨rfl,h.loops,h.responder⟩,rfl⟩
    | disconnect connId =>
      rw [inTurn,Machine.run_one]
      simp only [machine,step,disconnect,if_pos (h.loops connId)]
      exact ⟨⟨rfl,h.loops,h.responder⟩,rfl⟩
    | frame connId bytes routes =>
      obtain ⟨outs,hfinishes,hsent⟩ := frame_handled h connId bytes routes
      obtain ⟨t',hrun,hg,hrest⟩ := hfinishes 4 (Nat.le_refl 4)
      have hall : machine.run t (inTurn (.frame connId bytes routes)) =
          (t',sentBy connId (t.gateway.handleFrame connId bytes routes)) := by
        rw [inTurn,Machine.run,← hsent]
        exact congrArg (fun r => (r.1,(t.frame connId bytes).2 ++ r.2)) hrun
      rw [hall]
      exact ⟨⟨hg,hrest⟩,rfl⟩
    | event connId event =>
      obtain ⟨t',hrun,hg,hrest⟩ := event_handled h connId event 5 (Nat.le_refl 5)
      have hall : machine.run t (inTurn (.event connId event)) =
          (t',sentOn (t.gateway.handleEngineEvent connId event).2) := by
        rw [inTurn,Machine.run]
        exact congrArg (fun r => (r.1,[] ++ r.2)) hrun
      rw [hall]
      exact ⟨⟨hg,hrest⟩,rfl⟩

theorem allActions_simulation (g : GatewayContext) (ss : List Step) :
    simulation.allActions g ss = ss.flatMap inTurn := by
  induction ss generalizing g with
  | nil => rfl
  | cons s ss ih =>
    rw [Machine.Simulation.allActions,List.flatMap_cons,ih]
    rfl

/-- Whatever the gateway does with handlers that run to their ends, its tasks can do: they come to the same gateway,
and they send the same commands and events in the same order. -/
theorem in_turn (g : GatewayContext) (ss : List Step) :
    let r := GatewayContext.machine.run g ss
    ∃ t, machine.run (start g) (ss.flatMap inTurn) = (t,r.2) ∧ t.gateway = r.1 ∧ AtRest t := by
  have hobeys : GatewayContext.machine.Obeys (fun _ _ => True) g ss := by
    induction ss generalizing g with
    | nil => trivial
    | cons s ss ih => exact ⟨trivial,ih _⟩
  have hstart : AtRest (start g) := ⟨fun c => by simp [loop,start],rfl⟩
  obtain ⟨⟨hg,hrest⟩,hout⟩ := simulation.run (s := g) (t := start g) ⟨rfl,hstart⟩ hobeys
  rw [allActions_simulation] at hg hrest hout
  exact ⟨_,Prod.ext rfl hout,hg,hrest⟩

end Tasks
end Gateway
end HighPerfTrading
