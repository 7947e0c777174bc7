import HighPerfTrading.Gateway.Consistency
import HighPerfTrading.System.Answers

/-! Acknowledgements carry an order id only. Runs of the system in which every event on its way to the
gateway is kept with the command it answers: when an acknowledgement that releases a reservation is that of
a cancel. -/
namespace HighPerfTrading
open Gateway Gateway.GatewayContext

namespace Answer
variable {S : Type} [Slab S Order]

/-- The gateway may stop tracking the order when it handles this event. -/
def settles (x : Answer S) (orderId : OrderId) : Bool :=
  match x.event with
  | .fill f => decide (orderId = f.makerOrderId ∨ orderId = f.takerOrderId)
  | .ack a => decide (orderId = a.orderId)
  | .reject r => decide (r.orderId = some orderId)
  | _ => false

/-- An acknowledgement of anything but a cancel. -/
def keepsLive (x : Answer S) : Bool :=
  match x.event,x.command with
  | .ack _,.cancel _ => false
  | .ack _,_ => true
  | _,_ => false

end Answer

namespace Engine
variable {S : Type} [Slab S Order]

/-- The answers to commands that the engine has not read yet. -/
def upcoming (e : Engine S) : List ExecuteCommand → List (Answer S)
  | [] => []
  | x::xs => e.answers x.command ++ upcoming (e.live x.command) xs

theorem upcoming_append (e : Engine S) (xs ys : List ExecuteCommand) :
    ∃ e' : Engine S, e.upcoming (xs ++ ys) = e.upcoming xs ++ e'.upcoming ys := by
  induction xs generalizing e with
  | nil => exact ⟨e,rfl⟩
  | cons x xs ih =>
    obtain ⟨e',he⟩ := ih (e.live x.command)
    refine ⟨e',?_⟩
    rw [List.cons_append,upcoming,he,upcoming,List.append_assoc]

/-- A cancel that is acknowledged has taken a live order out of the book. -/
theorem ack_of_cancel {e : Engine S} {c : Cancel} {a : Ack} (h : .ack a ∈ (e.process (.cancel c)).2) :
    c.orderId = a.orderId ∧ (e.book.get c.orderId).isSome ∧ (e.live (.cancel c)).book.get c.orderId = none := by
  cases e.handleCancel_effect c with
  | refused r hid hev hb ha =>
    rw [process,hev] at h
    simp at h
  | cancelled o ack t ho hacct hb ha hid hev =>
    rw [process,hev] at h
    obtain rfl : a = ack := by simpa using h
    refine ⟨hid.symm,by rw [ho]; rfl,?_⟩
    have hbook : (e.live (.cancel c)).book = (e.book.cancel c.orderId o.accountId).1 := hb
    rw [hbook,OrderBook.get,OrderBook.cancel_index ho,OrdMap.get_erase,if_pos rfl]

/-- Every cancel is answered by an event about its order. -/
theorem answers_cancel (e : Engine S) (c : Cancel) : ∃ x ∈ e.answers (.cancel c), x.settles c.orderId := by
  have hevent : ∀ event ∈ (e.process (.cancel c)).2, ∃ x ∈ e.answers (.cancel c), x.event = event := by
    intro event hevent
    rw [← events_answers] at hevent
    exact List.mem_map.mp hevent
  cases e.handleCancel_effect c with
  | refused r hid hev hb ha =>
    obtain ⟨x,hx,hxe⟩ := hevent (.reject r) (by rw [process,hev]; exact List.mem_singleton_self _)
    exact ⟨x,hx,by simp [Answer.settles,hxe,hid,commandOrderId]⟩
  | cancelled o a t ho hacct hb ha hid hev =>
    obtain ⟨x,hx,hxe⟩ := hevent (.ack a) (by rw [process,hev]; simp)
    exact ⟨x,hx,by simp [Answer.settles,hxe,hid]⟩

end Engine

namespace Gateway
namespace GatewayContext
variable {g : GatewayContext} {connId : UInt64}

/-- A tracked order on whose cancel the gateway waits. -/
def Cancelling (g : GatewayContext) (orderId : OrderId) : Prop :=
  ∃ md, g.pendingOrders[orderId]? = some md ∧ md.operation = .cancelPending

/-- The cancel of a tracked order is read and sent to the engine. -/
def SendsCancel (g : GatewayContext) (connId : UInt64) (cmd : Command) (routed : Bool) (orderId : OrderId) : Prop :=
  ∃ c, cmd = .cancel c ∧ c.orderId = orderId ∧ routed ∧ (g.sessions[connId]?).isSome ∧ (g.pendingOrders[orderId]?).isSome

/-- The entries that are tracked anew are active. -/
theorem Cancelling.of_track {token : ReservationToken} {isBuy : Bool} {id orderId : OrderId}
    (h : (g.track connId id token isBuy).Cancelling orderId) : g.Cancelling orderId := by
  obtain ⟨md,hmd,hop⟩ := h
  rw [pendingOrders_track,OrdMap.get_insert] at hmd
  by_cases hid : id = orderId
  · rw [if_pos hid] at hmd
    rw [← Option.some.inj hmd] at hop
    cases hop
  · rw [if_neg hid] at hmd
    exact ⟨md,hmd,hop⟩

theorem Cancelling.of_route {cmd : Command} {token : ReservationToken} {routed : Bool} {orderId : OrderId}
    (h : (g.route connId cmd token routed).1.Cancelling orderId) : g.Cancelling orderId := by
  rwa [Cancelling,(g.route_keeps connId cmd token routed).1] at h

theorem Cancelling.of_cancel {c : Cancel} {routed : Bool} {orderId : OrderId} (hs : (g.sessions[connId]?).isSome)
    (h : (g.handleCancel connId c routed).1.Cancelling orderId) :
    g.Cancelling orderId ∨ g.SendsCancel connId (.cancel c) routed orderId := by
  obtain ⟨md,hmd,hop⟩ := h
  cases routed with
  | true =>
    simp only [handleCancel,if_true,pendingOrders_bumpSeq,pendingOrders_setOperation,get_withOperation] at hmd
    obtain ⟨md₀,hmd₀,rfl⟩ := Option.map_eq_some_iff.mp hmd
    by_cases hid : orderId = c.orderId
    · exact Or.inr ⟨c,rfl,hid.symm,rfl,hs,by rw [hmd₀]; rfl⟩
    · rw [if_neg hid] at hop
      exact Or.inl ⟨md₀,hmd₀,hop⟩
  | false =>
    left
    simp only [handleCancel,Bool.false_eq_true,if_false,reject,pendingOrders_bumpSeq,pendingOrders_setOperation,
      get_withOperation,Option.map_map] at hmd
    obtain ⟨md₀,hmd₀,rfl⟩ := Option.map_eq_some_iff.mp hmd
    rw [Function.comp_apply] at hop
    split_ifs at hop
    exact ⟨md₀,hmd₀,hop⟩

/-- An order whose cancel is awaited after a command was so before, or the command is its cancel. -/
theorem Cancelling.of_command {cmd : Command} {routed : Bool} {orderId : OrderId}
    (h : (g.handleCommand connId cmd routed).1.Cancelling orderId) :
    g.Cancelling orderId ∨ g.SendsCancel connId cmd routed orderId := by
  by_cases hcarries : g.Carries connId cmd routed
  · have hcarried := hcarries.carriedOut
    have hs := hcarries.session
    generalize g.handleCommand connId cmd routed = handled at h hcarried
    cases hcarried with
    | ordered no token m hok => exact Or.inl h.of_route.of_track
    | cancelling c => exact h.of_cancel hs
    | unknown r md token m hmd hok hl => exact Or.inl h.of_route
    | known r md token m x hmd hok hl => exact Or.inl h.of_route.of_track
    | limits srl hr => exact Or.inl h.of_route
  · left
    rwa [Cancelling,(handleCommand_quiet hcarries).pending] at h

end GatewayContext
end Gateway

namespace System
variable {S : Type} [Slab S Order]

/-- The events on their way to the gateway, and those that the engine will emit for the commands on their
way to it. -/
def outstanding (sys : System S) (inFlight : List (Answer S)) : List (Answer S) :=
  inFlight ++ sys.engine.upcoming sys.toEngine

/-- When the cancel of a tracked order is read and sent to the engine, the next event about the order is not
an acknowledgement of another command. -/
def CancelsAlone (sys : System S) (inFlight : List (Answer S)) : Action → Prop
  | .frame connId bytes up =>
    match sys.gateway.decoded connId bytes with
    | some (.cancel c) => (sys.gateway.sessions[connId]?).isSome → sys.routes up c.symbolId = true →
      (sys.gateway.pendingOrders[c.orderId]?).isSome →
        ((sys.outstanding inFlight).find? (·.settles c.orderId)).any Answer.keepsLive = false
    | _ => True
  | _ => True

instance (sys : System S) (inFlight : List (Answer S)) (a : Action) : Decidable (sys.CancelsAlone inFlight a) := by
  unfold CancelsAlone
  split
  · split <;> infer_instance
  · infer_instance

/-- Of the orders whose cancel is awaited, the next event is not an acknowledgement of another command. -/
def Awaiting (sys : System S) (inFlight : List (Answer S)) : Prop :=
  ∀ orderId, sys.gateway.Cancelling orderId →
    ∃ x, (sys.outstanding inFlight).find? (·.settles orderId) = some x ∧ x.keepsLive = false

variable {sys : System S} {inFlight : List (Answer S)}

/-- Processing a command turns what the engine will emit into what it has emitted. -/
theorem outstanding_engine (sys : System S) (inFlight : List (Answer S)) :
    (sys.step .engine).outstanding (sys.inFlightAfter inFlight .engine) = sys.outstanding inFlight := by
  cases hq : sys.toEngine with
  | nil => simp [outstanding,inFlightAfter,System.step,engineStep,hq]
  | cons x rest => simp [outstanding,inFlightAfter,System.step,engineStep,hq,Engine.upcoming]

theorem Awaiting.engine (h : Awaiting sys inFlight) : Awaiting (sys.step .engine) (sys.inFlightAfter inFlight .engine) := by
  have hgateway : (sys.step .engine).gateway = sys.gateway := by
    simp only [System.step,engineStep]
    cases sys.toEngine <;> rfl
  intro orderId hc
  rw [outstanding_engine]
  rw [hgateway] at hc
  exact h orderId hc

theorem Awaiting.deliver (h : Awaiting sys inFlight) (hev : inFlight.map Answer.event = sys.toGateway.map Prod.snd) :
    Awaiting (sys.step .deliver) (sys.inFlightAfter inFlight .deliver) := by
  cases hq : sys.toGateway with
  | nil =>
    obtain rfl : inFlight = [] := by simpa [hq] using hev
    have hsys : sys.step .deliver = sys := by simp only [System.step,System.deliver,hq]
    rw [hsys]
    exact h
  | cons p rest =>
    obtain ⟨connId,event⟩ := p
    obtain ⟨x,later,rfl,hx⟩ := next_answer hev hq
    rw [step_deliver hq]
    intro orderId hc
    obtain ⟨md,hmd,hop⟩ := hc
    simp only [get_handleEngineEvent] at hmd
    split_ifs at hmd with hdrops
    -- an event about the order would have ended its tracking
    have hskip : x.settles orderId = false := by
      rw [Answer.settles,hx]
      unfold drops at hdrops
      cases event with
      | fill f => simpa using hdrops
      | ack a => simpa [hmd,hop] using hdrops
      | reject r => simpa using hdrops
      | _ => rfl
    obtain ⟨y,hy,hlive⟩ := h orderId ⟨md,hmd,hop⟩
    refine ⟨y,?_,hlive⟩
    rw [outstanding,List.cons_append,List.find?_cons_of_neg (by simp [hskip])] at hy
    exact hy

/-- A cancel that is read is answered in any case, and it is the last to be answered. -/
theorem find_cancel {c : Cancel} {e : Engine S} {out : Option ExecuteCommand}
    (ha : ((sys.outstanding inFlight).find? (·.settles c.orderId)).any Answer.keepsLive = false)
    (hout : out.map ExecuteCommand.command = some (.cancel c)) :
    ∃ x, (sys.outstanding inFlight ++ e.upcoming out.toList).find? (·.settles c.orderId) = some x ∧ x.keepsLive = false := by
  rw [List.find?_append]
  cases hfind : (sys.outstanding inFlight).find? (·.settles c.orderId) with
  | some x =>
    rw [hfind,Option.any_some] at ha
    exact ⟨x,rfl,ha⟩
  | none =>
    obtain ⟨sent,rfl,hsent⟩ := Option.map_eq_some_iff.mp hout
    obtain ⟨y,hy,hsettles⟩ := e.answers_cancel c
    obtain ⟨x,hx⟩ := Option.isSome_iff_exists.mp (List.find?_isSome (p := (·.settles c.orderId)).mpr ⟨y,hy,hsettles⟩)
    refine ⟨x,?_,?_⟩
    · rw [Option.none_or,Option.toList_some,Engine.upcoming,Engine.upcoming,List.append_nil,hsent]
      exact hx
    · rw [Answer.keepsLive,Engine.command_answers (List.mem_of_find?_eq_some hx)]
      cases x.event <;> rfl

theorem Awaiting.frame (h : Awaiting sys inFlight) {connId : UInt64} {bytes : List UInt8} {up : Bool}
    (ha : sys.CancelsAlone inFlight (.frame connId bytes up)) : Awaiting (sys.step (.frame connId bytes up)) inFlight := by
  rw [System.step]
  cases hcmd : sys.gateway.decoded connId bytes with
  | none =>
    rw [frame_skipped hcmd]
    exact h
  | some cmd =>
    rw [frame_decoded hcmd]
    obtain ⟨e,hupcoming⟩ := sys.engine.upcoming_append sys.toEngine
      (sys.gateway.handleCommand connId cmd (sys.routed up cmd)).2.1.toList
    intro orderId hc
    rw [outstanding,hupcoming,← List.append_assoc]
    cases Cancelling.of_command hc with
    | inl hold =>
      obtain ⟨x,hx,hlive⟩ := h orderId hold
      rw [outstanding] at hx
      exact ⟨x,by rw [List.find?_append,hx]; rfl,hlive⟩
    | inr hsends =>
      obtain ⟨c,rfl,rfl,hrouted,hs,htracked⟩ := hsends
      simp only [CancelsAlone,hcmd] at ha
      refine find_cancel (ha hs hrouted htracked) ?_
      rw [handleCommand_cancel hs,handleCancel]
      simp only [hrouted,if_true]
      rfl

theorem Awaiting.step (h : Awaiting sys inFlight) (hev : inFlight.map Answer.event = sys.toGateway.map Prod.snd)
    {a : Action} (ha : sys.CancelsAlone inFlight a) : Awaiting (sys.step a) (sys.inFlightAfter inFlight a) := by
  cases a with
  | connect decodeCommand => exact h
  | disconnect connId => exact h
  | frame connId bytes up => exact h.frame ha
  | engine => exact h.engine
  | deliver => exact h.deliver hev

variable {funding : List (AccountId × Int64)} {apiKeys : OrdMap String AccountId}

theorem Answered.awaiting (h : Answered funding apiKeys CancelsAlone sys inFlight) : Awaiting sys inFlight := by
  refine h.keeps (fun orderId hc => ?_) fun hrun hawaiting ha => hawaiting.step hrun.events ha
  obtain ⟨md,hmd,-⟩ := hc
  simp [System.start] at hmd

/-- An acknowledgement that ends the tracking of an order is the answer to a cancel of it, which has taken
the order out of the engine's book. -/
theorem Answered.acked_cancel (h : Answered funding apiKeys CancelsAlone sys inFlight) {connId : UInt64} {a : Ack}
    {rest : List (UInt64 × Event)} (hq : sys.toGateway = (connId,.ack a)::rest)
    (htracked : (sys.gateway.pendingOrders[a.orderId]?).isSome)
    (hgone : (sys.step .deliver).gateway.pendingOrders[a.orderId]? = none) :
    ∃ x later c, inFlight = x::later ∧ x.event = .ack a ∧ x.command = .cancel c ∧ c.orderId = a.orderId ∧
      (x.engine.book.get a.orderId).isSome ∧ (x.engine.live x.command).book.get a.orderId = none := by
  obtain ⟨x,later,rfl,hx⟩ := next_answer h.events hq
  obtain ⟨md,hmd⟩ := Option.isSome_iff_exists.mp htracked
  have hcancelling : sys.gateway.Cancelling a.orderId := by
    simp only [step_deliver hq,get_handleEngineEvent,drops,hmd] at hgone
    exact ⟨md,hmd,by simpa using hgone⟩
  obtain ⟨y,hy,hlive⟩ := h.awaiting a.orderId hcancelling
  rw [outstanding,List.cons_append,List.find?_cons_of_pos (by simp [Answer.settles,hx])] at hy
  obtain rfl := Option.some.inj hy
  rw [Answer.keepsLive,hx] at hlive
  cases hcmd : x.command with
  | cancel c =>
    have hem := x.emitted
    rw [hx,hcmd] at hem
    obtain ⟨hid,hlive,hgone⟩ := Engine.ack_of_cancel hem
    rw [hid] at hlive hgone
    exact ⟨x,later,c,rfl,hx,hcmd,hid,hlive,by rw [hcmd]; exact hgone⟩
  | _ => rw [hcmd] at hlive; cases hlive

/-- A buy is sent and acknowledged, then it is cancelled. -/
def patientCancel : List Action := logins ++
  [.send 1 (.newOrder ⟨1,1,1,1,.buy,100,10,.gtc,⟨false⟩⟩),.engine,.deliver,.deliver,
    .send 1 (.cancel ⟨2,1,1,1⟩),.engine,.deliver]

theorem patientCancel_acked :
    let p := (System.start twoAccounts twoKeys : System (FreeListSlab Order)).follow [] patientCancel
    (p.1.gateway.pendingOrders[(1 : OrderId)]?).isSome ∧
      (p.1.step .deliver).gateway.pendingOrders[(1 : OrderId)]? = none ∧
      ∃ x later c, p.2 = x::later ∧ x.command = .cancel c ∧ c.orderId = 1 ∧
        (x.engine.live x.command).book.get 1 = none := by
  have hrun : AllAllowed CancelsAlone (System.start twoAccounts twoKeys : System (FreeListSlab Order)) [] patientCancel := by
    decide +kernel
  have hq : ((System.start twoAccounts twoKeys : System (FreeListSlab Order)).follow [] patientCancel).1.toGateway =
      [(1,.ack ⟨4,2,1⟩)] := by
    decide +kernel
  have htracked : (((System.start twoAccounts twoKeys : System (FreeListSlab Order)).follow []
      patientCancel).1.gateway.pendingOrders[(1 : OrderId)]?).isSome := by
    decide +kernel
  have hgone : (((System.start twoAccounts twoKeys : System (FreeListSlab Order)).follow []
      patientCancel).1.step .deliver).gateway.pendingOrders[(1 : OrderId)]? = none := by
    decide +kernel
  obtain ⟨x,later,c,hx,-,hcmd,hid,-,hbook⟩ := (Answered.start.follow patientCancel hrun).acked_cancel hq htracked hgone
  exact ⟨htracked,hgone,x,later,c,hx,hcmd,hid,hbook⟩

/-- The cancel is read before the acknowledgement of the order has arrived. -/
def hastyCancel : List Action := logins ++
  [.send 1 (.newOrder ⟨1,1,1,1,.buy,100,10,.gtc,⟨false⟩⟩),.send 1 (.cancel ⟨2,1,1,1⟩),.engine,.deliver]

/-- The acknowledgement of the order itself releases its reservation, while it rests in the book. -/
theorem hastyCancel_released : ∃ (sys : System (FreeListSlab Order)) (x : Answer (FreeListSlab Order)),
    Answered twoAccounts twoKeys (fun _ _ _ => True) sys [x] ∧ sys.toGateway = [(1,.ack ⟨2,1,1⟩)] ∧
      x.event = .ack ⟨2,1,1⟩ ∧ x.command = .newOrder ⟨1,1,1,1,.buy,100,10,.gtc,⟨false⟩⟩ ∧
      (sys.gateway.pendingOrders[(1 : OrderId)]?).isSome ∧
      (sys.step .deliver).gateway.pendingOrders[(1 : OrderId)]? = none ∧
      sys.gateway.accountManager.getTentativeReserved 1 = 1000 ∧
      (sys.step .deliver).gateway.accountManager.getTentativeReserved 1 = 0 ∧
      ((x.engine.live x.command).book.get 1).isSome ∧ (sys.engine.book.get 1).isSome := by
  have hlast : ((System.start twoAccounts twoKeys : System (FreeListSlab Order)).follow [] hastyCancel).2.length = 1 := by
    decide +kernel
  obtain ⟨x,hx⟩ := List.length_eq_one_iff.mp hlast
  have hrun : Answered twoAccounts twoKeys (fun _ _ _ => True)
      ((System.start twoAccounts twoKeys : System (FreeListSlab Order)).follow [] hastyCancel).1
      ((System.start twoAccounts twoKeys : System (FreeListSlab Order)).follow [] hastyCancel).2 :=
    Answered.start.follow hastyCancel (by decide +kernel)
  have hevent : ((System.start twoAccounts twoKeys : System (FreeListSlab Order)).follow [] hastyCancel).2.map Answer.event =
      [.ack ⟨2,1,1⟩] := by
    decide +kernel
  have hcmd : ((System.start twoAccounts twoKeys : System (FreeListSlab Order)).follow [] hastyCancel).2.map Answer.command =
      [.newOrder ⟨1,1,1,1,.buy,100,10,.gtc,⟨false⟩⟩] := by
    decide +kernel
  have hlive : ((System.start twoAccounts twoKeys : System (FreeListSlab Order)).follow [] hastyCancel).2.all
      fun x => ((x.engine.live x.command).book.get 1).isSome := by
    decide +kernel
  rw [hx] at hrun hevent hcmd hlive
  refine ⟨_,x,hrun,?_,List.singleton_inj.mp hevent,List.singleton_inj.mp hcmd,?_,?_,?_,?_,by simpa using hlive,?_⟩ <;>
  decide +kernel

end System

end HighPerfTrading
