import HighPerfTrading.Gateway.AccountManager

/-! Client connections of the gateway: what one frame of a client does, and what one event of an
engine does. Each runs to its end before the next; frames and events sent are returned. Encoding
an event never fails. -/
namespace HighPerfTrading

/-- Proof that the gateway has approved an order. -/
structure RiskToken where
  accountId : AccountId
  reservedAmount : Int64
  gatewaySeq : UInt64
  deriving DecidableEq, Repr

structure ExecuteCommand where
  command : Command
  connId : UInt64
  riskToken : RiskToken
  deriving DecidableEq, Repr

namespace Gateway

inductive PendingOperation
  | active
  | cancelPending
  deriving DecidableEq, Repr

structure OrderMetadata where
  reservationToken : ReservationToken
  side : Side
  operation : PendingOperation
  connId : UInt64
  deriving DecidableEq, Repr

/-- A connection: how its frames are decoded, and the orders its read loop tracks. -/
structure Client where
  decodeCommand : List UInt8 → Option Command
  pendingOrders : OrdMap OrderId (ReservationToken × Bool × PendingOperation)

structure GatewayContext where
  accountManager : AccountManager
  /-- The accounts behind the API keys. -/
  apiKeys : OrdMap String AccountId
  sessions : OrdMap UInt64 AccountId
  pendingOrders : OrdMap OrderId OrderMetadata
  clients : OrdMap UInt64 Client
  nextConnId : UInt64

namespace GatewayContext

/-- What handling a frame leads to: the next state, a command for an engine, and the events
sent on the same connection. -/
abbrev Handled := GatewayContext × Option ExecuteCommand × List Event

def connect (g : GatewayContext) (decodeCommand : List UInt8 → Option Command) : GatewayContext :=
  { g with
    clients := g.clients.insert g.nextConnId ⟨decodeCommand,∅⟩
    nextConnId := g.nextConnId+1 }

def disconnect (g : GatewayContext) (connId : UInt64) : GatewayContext :=
  { g with clients := g.clients.erase connId, sessions := g.sessions.erase connId }

def bumpSeq (g : GatewayContext) : GatewayContext := { g with accountManager := g.accountManager.nextSeq.2 }

def reject (g : GatewayContext) (clientSeq : UInt64) (orderId : Option OrderId) (reason : RejectReason) :
    Handled :=
  (g.bumpSeq,none,[.reject ⟨g.accountManager.nextSeq.1,clientSeq,orderId,reason⟩])

/-- Positions and limits of any account are shown to any connection. -/
def handleQueryAccount (g : GatewayContext) (query : QueryAccount) : Handled :=
  match g.accountManager.accounts[query.accountId]? with
  | none => g.reject query.clientSeq none .notFound
  | some state =>
    (g.bumpSeq,none,[.accountState ⟨g.accountManager.nextSeq.1,query.clientSeq,query.accountId,query.symbolId,
      state.getPosition query.symbolId,state.getRiskLimits query.symbolId⟩])

def handleAuthenticate (g : GatewayContext) (connId : UInt64) (auth : Authenticate) : Handled :=
  match g.apiKeys[auth.apiKey]? with
  | some accountId =>
    ({ g with sessions := g.sessions.insert connId accountId },none,[.authSuccess ⟨accountId⟩])
  | none => (g,none,[.authFailure ⟨"Authentication failed: Invalid API key"⟩])

/-- Change the orders that a connection's read loop tracks. -/
def updateLocal (g : GatewayContext) (connId : UInt64)
    (f : OrdMap OrderId (ReservationToken × Bool × PendingOperation) →
      OrdMap OrderId (ReservationToken × Bool × PendingOperation)) : GatewayContext :=
  match g.clients[connId]? with
  | none => g
  | some client =>
    { g with clients := g.clients.insert connId { client with pendingOrders := f client.pendingOrders } }

def localOrder (g : GatewayContext) (connId : UInt64) (orderId : OrderId) :
    Option (ReservationToken × Bool × PendingOperation) :=
  (g.clients[connId]?).bind fun client => client.pendingOrders[orderId]?

/-- The global map after setting the operation of an order, when it tracks the order. -/
def withOperation (pending : OrdMap OrderId OrderMetadata) (orderId : OrderId) (op : PendingOperation) :
    OrdMap OrderId OrderMetadata :=
  match pending[orderId]? with
  | some metadata => pending.insert orderId { metadata with operation := op }
  | none => pending

/-- Set the operation of an order wherever it is tracked. -/
def setOperation (g : GatewayContext) (connId : UInt64) (orderId : OrderId) (op : PendingOperation) :
    GatewayContext :=
  let g' := match g.localOrder connId orderId with
    | some (token,isBuy,_) => g.updateLocal connId (·.insert orderId (token,isBuy,op))
    | none => g
  { g' with pendingOrders := withOperation g'.pendingOrders orderId op }

/-- The order is looked up by its id alone. -/
def handleCancel (g : GatewayContext) (connId : UInt64) (cancel : Cancel) (routed : Bool) : Handled :=
  let g₁ := g.setOperation connId cancel.orderId .cancelPending
  let riskToken : RiskToken := ⟨cancel.accountId,0,g₁.accountManager.nextSeq.1⟩
  let g₂ := g₁.bumpSeq
  if routed then (g₂,some ⟨.cancel cancel,connId,riskToken⟩,[])
  else (g₂.setOperation connId cancel.orderId .active).reject cancel.clientSeq (some cancel.orderId) .overloaded

/-- Start to track an order, in the connection's map and in the global one. -/
def track (g : GatewayContext) (connId : UInt64) (orderId : OrderId) (token : ReservationToken) (isBuy : Bool) :
    GatewayContext :=
  { g.updateLocal connId (·.insert orderId (token,isBuy,.active)) with
    pendingOrders := g.pendingOrders.insert orderId ⟨token,if isBuy then .buy else .sell,.active,connId⟩ }

def replyIds : Command → UInt64 × Option OrderId
  | .newOrder order => (order.clientSeq,some order.orderId)
  | .cancel cancel => (cancel.clientSeq,some cancel.orderId)
  | .replace replace => (replace.clientSeq,some replace.orderId)
  | _ => (0,none)

/-- When the engine is not reached the reservation is released again. -/
def route (g : GatewayContext) (connId : UInt64) (cmd : Command) (token : ReservationToken) (routed : Bool) :
    Handled :=
  let riskToken : RiskToken := ⟨token.accountId,token.amount,g.accountManager.nextSeq.1⟩
  let g₁ := g.bumpSeq
  if routed then (g₁,some ⟨cmd,connId,riskToken⟩,[])
  else
    let g₂ := { g₁ with accountManager := g₁.accountManager.releaseReservation token }
    let g₃ := match cmd with
      | .newOrder order => g₂.updateLocal connId (·.erase order.orderId)
      | _ => g₂
    g₃.reject (replyIds cmd).1 (replyIds cmd).2 .overloaded

/-- A replacement is tracked only on the connection that has tracked the order before. -/
def handleReplace (g : GatewayContext) (connId : UInt64) (replace : Replace) (routed : Bool) : Handled :=
  match g.pendingOrders[replace.orderId]? with
  | none => g.reject replace.clientSeq (some replace.orderId) .notFound
  | some metadata =>
    match g.accountManager.adjustReservation metadata.reservationToken replace with
    | .error _ => g.reject replace.clientSeq (some replace.orderId) .risk
    | .ok (token,accountManager) =>
      let g₁ := { g with accountManager := accountManager }
      let g₂ := match g₁.localOrder connId replace.orderId with
        | some (_,isBuy,_) => g₁.track connId replace.orderId token isBuy
        | none => g₁
      g₂.route connId (.replace replace) token routed

/-- New orders are tracked; of the other commands that come here only the limits are left. -/
def handleReserving (g : GatewayContext) (connId : UInt64) (cmd : Command) (routed : Bool) : Handled :=
  match g.accountManager.checkAndReserve cmd with
  | .error _ =>
    match cmd with
    | .newOrder order => g.reject order.clientSeq (some order.orderId) .risk
    | _ => g.reject 0 none .risk
  | .ok (token,accountManager) =>
    let g₁ := { g with accountManager := accountManager }
    let g₂ := match cmd with
      | .newOrder order => g₁.track connId order.orderId token (decide (order.side = Side.buy))
      | _ => g₁
    g₂.route connId cmd token routed

/-- The session is asked for, but not for its account. -/
def handleCommand (g : GatewayContext) (connId : UInt64) (cmd : Command) (routed : Bool) : Handled :=
  match cmd with
  | .queryAccount query => g.handleQueryAccount query
  | .authenticate auth => g.handleAuthenticate connId auth
  | cmd =>
    if (g.sessions[connId]?).isNone then g.reject 0 none .invalid else
      match cmd with
      | .cancel cancel => g.handleCancel connId cancel routed
      | .replace replace => g.handleReplace connId replace routed
      | cmd => g.handleReserving connId cmd routed

/-- The command that a frame decodes to. -/
def decoded (g : GatewayContext) (connId : UInt64) (frame : List UInt8) : Option Command :=
  (g.clients[connId]?).bind fun client => client.decodeCommand frame

/-- `routes` says whether the router reaches the engine of a symbol. A frame that does not decode
is skipped. -/
def handleFrame (g : GatewayContext) (connId : UInt64) (frame : List UInt8) (routes : SymbolId → Bool) : Handled :=
  match g.decoded connId frame with
  | none => (g,none,[])
  | some cmd => g.handleCommand connId cmd (((commandSymbolId cmd).map routes).getD false)

theorem handleFrame_none {g : GatewayContext} {connId : UInt64} {frame : List UInt8} (h : g.decoded connId frame = none)
    (routes : SymbolId → Bool) : g.handleFrame connId frame routes = (g,none,[]) := by
  rw [handleFrame,h]

theorem handleFrame_some {g : GatewayContext} {connId : UInt64} {frame : List UInt8} {cmd : Command}
    (h : g.decoded connId frame = some cmd) (routes : SymbolId → Bool) : g.handleFrame connId frame routes =
      g.handleCommand connId cmd (((commandSymbolId cmd).map routes).getD false) := by
  rw [handleFrame,h]

/-! ### Events of the engines -/

def sendTo (g : GatewayContext) (connId : UInt64) (event : Event) : List (UInt64 × Event) :=
  if (g.clients[connId]?).isSome then [(connId,event)] else []

/-- One side of a fill: settle with the tracked order's token and stop tracking it, as if every
fill were a full one. -/
def settleFill (g : GatewayContext) (fill : Fill) (orderId : OrderId) (metadata : Option OrderMetadata) :
    GatewayContext :=
  match metadata with
  | none => g
  | some md =>
    { g with
      accountManager := g.accountManager.applyFill fill md.reservationToken (decide (md.side = Side.buy))
      pendingOrders := g.pendingOrders.erase orderId }

def handleFill (g : GatewayContext) (connId : UInt64) (fill : Fill) : GatewayContext × List (UInt64 × Event) :=
  let maker := g.pendingOrders[fill.makerOrderId]?
  let taker := g.pendingOrders[fill.takerOrderId]?
  ((g.settleFill fill fill.makerOrderId maker).settleFill fill fill.takerOrderId taker,
    maker.elim [] (fun md => g.sendTo md.connId (.fill fill)) ++ g.sendTo connId (.fill fill))

/-- Stop tracking an order and release what it has reserved. -/
def release (g : GatewayContext) (orderId : OrderId) : GatewayContext :=
  match g.pendingOrders[orderId]? with
  | none => g
  | some md =>
    { g with
      accountManager := g.accountManager.releaseReservation md.reservationToken
      pendingOrders := g.pendingOrders.erase orderId }

/-- Any acknowledgement of an order that is being cancelled counts as that of the cancel. -/
def handleAck (g : GatewayContext) (ack : Ack) : GatewayContext :=
  match g.pendingOrders[ack.orderId]? with
  | none => g
  | some md =>
    match md.operation with
    | .cancelPending => g.release ack.orderId
    | .active => g

def handleReject (g : GatewayContext) (reject : Reject) : GatewayContext :=
  match reject.orderId with
  | none => g
  | some orderId => g.release orderId

def handleEngineEvent (g : GatewayContext) (connId : UInt64) (event : Event) :
    GatewayContext × List (UInt64 × Event) :=
  match event with
  | .fill fill => g.handleFill connId fill
  | .ack ack => (g.handleAck ack,(g.handleAck ack).sendTo connId event)
  | .reject reject => (g.handleReject reject,(g.handleReject reject).sendTo connId event)
  | event => (g,g.sendTo connId event)

end GatewayContext
end Gateway
end HighPerfTrading
