import HighPerfTrading.Gateway.ClientHandler
import HighPerfTrading.Library.Simulation

/-! The gateway's tasks side by side: a read loop for each connection, and one task that handles the engines' events.
Each takes its locks one after the other, and between two locks of a task the others go on. A step is what a task does
up to the release of one lock. -/
namespace HighPerfTrading
namespace Gateway

/-- Where a read loop is: before the next frame, with a reservation for an order that is not tracked yet, with the old
token of an order that it replaces, with the new one, before the router, or after it when the engine was not reached. -/
inductive ReadLoop
  | idle
  | reserved (order : NewOrder) (token : ReservationToken)
  | found (replace : Replace) (oldToken : ReservationToken)
  | adjusted (replace : Replace) (token : ReservationToken)
  | approved (cmd : Command) (token : ReservationToken)
  | unrouted (cmd : Command) (token : ReservationToken)
  | cancelling (cancel : Cancel)
  | notCancelled (cancel : Cancel)
  deriving DecidableEq

/-- The sides of a fill are settled one by one, and each is removed after it is settled. -/
inductive Settling
  | maker
  | makerSettled
  | taker
  | takerSettled
  deriving DecidableEq

/-- Where the task for the engines' events is: before the next event, with the orders of a fill as it has found them,
with the token of a rejected order, or before the clients that the event is sent to. -/
inductive Responder
  | idle
  | filling (connId : UInt64) (fill : Fill) (maker taker : Option OrderMetadata) (stage : Settling)
  | releasing (connId : UInt64) (reject : Reject) (token : ReservationToken)
  | sending (connIds : List UInt64) (event : Event)
  deriving DecidableEq

/-- What the tasks send: commands to the engines, and events to the clients. -/
inductive Output
  | command (x : ExecuteCommand)
  | event (connId : UInt64) (event : Event)
  deriving DecidableEq

/-- The read loops that are not listed are idle. -/
structure Tasks where
  gateway : GatewayContext
  loops : OrdMap UInt64 ReadLoop
  responder : Responder

namespace Tasks

inductive Action
  | connect (decodeCommand : List UInt8 → Option Command)
  | disconnect (connId : UInt64)
  | frame (connId : UInt64) (bytes : List UInt8)
  | proceed (connId : UInt64) (routes : SymbolId → Bool)
  | event (connId : UInt64) (event : Event)
  | respond

def loop (t : Tasks) (connId : UInt64) : ReadLoop := (t.loops[connId]?).getD .idle

/-- The read loop goes on from there, with the gateway as it is then. -/
def goes (t : Tasks) (connId : UInt64) (l : ReadLoop) (g : GatewayContext) : Tasks :=
  { t with gateway := g, loops := t.loops.insert connId l }

/-- The read loop is done with its command and has answered it. -/
def replies (t : Tasks) (connId : UInt64) (h : GatewayContext.Handled) : Tasks × List Output :=
  (t.goes connId .idle h.1,h.2.1.toList.map .command ++ h.2.2.map (.event connId))

/-- A read loop ends between two frames. -/
def disconnect (t : Tasks) (connId : UInt64) : Tasks :=
  if t.loop connId = .idle then { t with gateway := t.gateway.disconnect connId } else t

/-! ### Read loops -/

/-- The map of the connection is the read loop's own. -/
def reserve (t : Tasks) (connId : UInt64) (cmd : Command) : Tasks × List Output :=
  match t.gateway.accountManager.checkAndReserve cmd with
  | .error _ =>
    match cmd with
    | .newOrder order => t.replies connId (t.gateway.reject order.clientSeq (some order.orderId) .risk)
    | _ => t.replies connId (t.gateway.reject 0 none .risk)
  | .ok (token,accountManager) =>
    let g := { t.gateway with accountManager := accountManager }
    match cmd with
    | .newOrder order =>
      (t.goes connId (.reserved order token)
        (g.updateLocal connId (·.insert order.orderId (token,decide (order.side = Side.buy),.active))),[])
    | _ => (t.goes connId (.approved cmd token) g,[])

/-- The command that has come, up to the first lock that is for more than a look at the connection's own session. -/
def begin (t : Tasks) (connId : UInt64) (cmd : Command) : Tasks × List Output :=
  match cmd with
  | .queryAccount query => t.replies connId (t.gateway.handleQueryAccount query)
  | .authenticate auth => t.replies connId (t.gateway.handleAuthenticate connId auth)
  | cmd =>
    if (t.gateway.sessions[connId]?).isNone then t.replies connId (t.gateway.reject 0 none .invalid) else
      match cmd with
      | .cancel cancel =>
        (t.goes connId (.cancelling cancel) (t.gateway.setOperation connId cancel.orderId .cancelPending),[])
      | .replace replace =>
        match t.gateway.pendingOrders[replace.orderId]? with
        | none => t.replies connId (t.gateway.reject replace.clientSeq (some replace.orderId) .notFound)
        | some metadata => (t.goes connId (.found replace metadata.reservationToken) t.gateway,[])
      | cmd => t.reserve connId cmd

def frame (t : Tasks) (connId : UInt64) (bytes : List UInt8) : Tasks × List Output :=
  if t.loop connId ≠ .idle then (t,[]) else
    match t.gateway.decoded connId bytes with
    | none => (t,[])
    | some cmd => t.begin connId cmd

/-- The next lock of the read loop's command. `routes` says whether the router reaches the engine of a symbol. -/
def proceed (t : Tasks) (connId : UInt64) (routes : SymbolId → Bool) : Tasks × List Output :=
  let g := t.gateway
  match t.loop connId with
  | .idle => (t,[])
  | .reserved order token =>
    let side := if decide (order.side = Side.buy) then Side.buy else .sell
    let pendingOrders := g.pendingOrders.insert order.orderId ⟨token,side,.active,connId⟩
    (t.goes connId (.approved (.newOrder order) token) { g with pendingOrders := pendingOrders },[])
  | .found replace oldToken =>
    match g.accountManager.adjustReservation oldToken replace with
    | .error _ => t.replies connId (g.reject replace.clientSeq (some replace.orderId) .risk)
    | .ok (token,accountManager) =>
      (t.goes connId (.adjusted replace token) { g with accountManager := accountManager },[])
  | .adjusted replace token =>
    (t.goes connId (.approved (.replace replace) token)
      (match g.localOrder connId replace.orderId with
        | some (_,isBuy,_) => g.track connId replace.orderId token isBuy
        | none => g),[])
  | .approved cmd token =>
    if ((commandSymbolId cmd).map routes).getD false then
      t.replies connId
        (g.bumpSeq,some ⟨cmd,connId,⟨token.accountId,token.amount,g.accountManager.nextSeq.1⟩⟩,[])
    else (t.goes connId (.unrouted cmd token) g.bumpSeq,[])
  | .unrouted cmd token =>
    let released := { g with accountManager := g.accountManager.releaseReservation token }
    let forgotten := match cmd with
      | .newOrder order => released.updateLocal connId (·.erase order.orderId)
      | _ => released
    t.replies connId
      (forgotten.reject (GatewayContext.replyIds cmd).1 (GatewayContext.replyIds cmd).2 .overloaded)
  | .cancelling cancel =>
    if routes cancel.symbolId then
      t.replies connId
        (g.bumpSeq,some ⟨.cancel cancel,connId,⟨cancel.accountId,0,g.accountManager.nextSeq.1⟩⟩,[])
    else (t.goes connId (.notCancelled cancel) g.bumpSeq,[])
  | .notCancelled cancel =>
    t.replies connId ((g.setOperation connId cancel.orderId .active).reject cancel.clientSeq
      (some cancel.orderId) .overloaded)

/-! ### Events of the engines -/

def event (t : Tasks) (connId : UInt64) (event : Event) : Tasks :=
  if t.responder ≠ .idle then t else
    let g := t.gateway
    match event with
    | .fill fill =>
      { t with
        responder := .filling connId fill g.pendingOrders[fill.makerOrderId]? g.pendingOrders[fill.takerOrderId]?
          .maker }
    | .ack ack => { t with gateway := g.handleAck ack, responder := .sending [connId] event }
    | .reject reject =>
      match reject.orderId.bind fun orderId => g.pendingOrders[orderId]?.map fun metadata => (orderId,metadata) with
      | none => { t with responder := .sending [connId] event }
      | some (orderId,metadata) =>
        { t with
          gateway := { g with pendingOrders := g.pendingOrders.erase orderId }
          responder := .releasing connId reject metadata.reservationToken }
    | event => { t with responder := .sending [connId] event }

/-- One side of a fill is settled with the token that was found. -/
def settle (t : Tasks) (fill : Fill) (metadata : OrderMetadata) : GatewayContext :=
  { t.gateway with
    accountManager := t.gateway.accountManager.applyFill fill metadata.reservationToken
      (decide (metadata.side = Side.buy)) }

def untrack (t : Tasks) (orderId : OrderId) : GatewayContext :=
  { t.gateway with pendingOrders := t.gateway.pendingOrders.erase orderId }

/-- Both clients of a fill are sent it. -/
def recipients (connId : UInt64) (maker : Option OrderMetadata) : List UInt64 :=
  (maker.map OrderMetadata.connId).toList ++ [connId]

/-- The next lock of the event in hand. -/
def respond (t : Tasks) : Tasks × List Output :=
  match t.responder with
  | .idle => (t,[])
  | .filling connId fill maker taker .maker =>
    match maker with
    | none => ({ t with responder := .filling connId fill maker taker .taker },[])
    | some md =>
      ({ t with gateway := t.settle fill md, responder := .filling connId fill maker taker .makerSettled },[])
  | .filling connId fill maker taker .makerSettled =>
    ({ t with gateway := t.untrack fill.makerOrderId, responder := .filling connId fill maker taker .taker },[])
  | .filling connId fill maker taker .taker =>
    match taker with
    | none => ({ t with responder := .sending (recipients connId maker) (.fill fill) },[])
    | some md =>
      ({ t with gateway := t.settle fill md, responder := .filling connId fill maker taker .takerSettled },[])
  | .filling connId fill maker _ .takerSettled =>
    ({ t with
      gateway := t.untrack fill.takerOrderId
      responder := .sending (recipients connId maker) (.fill fill) },[])
  | .releasing connId reject token =>
    ({ t with
      gateway := { t.gateway with accountManager := t.gateway.accountManager.releaseReservation token }
      responder := .sending [connId] (.reject reject) },[])
  | .sending connIds event =>
    ({ t with responder := .idle },
      (connIds.flatMap fun connId => t.gateway.sendTo connId event).map fun sent => .event sent.1 sent.2)

/-! ### Steps -/

def step (t : Tasks) : Action → Tasks × List Output
  | .connect decodeCommand => ({ t with gateway := t.gateway.connect decodeCommand },[])
  | .disconnect connId => (t.disconnect connId,[])
  | .frame connId bytes => t.frame connId bytes
  | .proceed connId routes => t.proceed connId routes
  | .event connId event => (t.event connId event,[])
  | .respond => t.respond

def machine : Machine Tasks Action Output := ⟨step⟩

/-- All tasks wait for work. -/
def start (g : GatewayContext) : Tasks := ⟨g,∅,.idle⟩

end Tasks
end Gateway
end HighPerfTrading
