import HighPerfTrading.Common.Wire
import HighPerfTrading.Gateway.ClientHandler

/-! The protocol between the gateway and the engine servers, and how its messages are serialized. -/
namespace HighPerfTrading
open Wire

/-! ### Messages -/

inductive GatewayToEngine
  | execute (exec : ExecuteCommand)
  | ping
  | queryAllOrders
  deriving DecidableEq

inductive EngineToGateway
  | clientEvent (connId : UInt64) (event : Event) (riskToken : Option RiskToken)
  | pong (symbolId : SymbolId) (ordersInBook : UInt64)
  | marketData (symbolId : SymbolId) (event : Event)
  | allOrders (orders : List OrderSnapshot)
  | engineReady (symbolId : SymbolId) (orders : List OrderSnapshot)
  deriving DecidableEq

/-! ### Events -/

def RejectReason.wire : Wire RejectReason :=
  choice [.invalid,.risk,.overloaded,.notFound,.postOnlyWouldCross,.rateLimitExceeded] (by rintro (_ | _) <;> decide)

def Ack.wire : Wire Ack :=
  (u64.pair (u64.pair u64)).via (fun a => (a.serverSeq,a.clientSeq,a.orderId)) (fun (s,cs,id) => some ⟨s,cs,id⟩)
    fun _ => rfl

def Reject.wire : Wire Reject :=
  (u64.pair (u64.pair (u64.opt.pair RejectReason.wire))).via (fun r => (r.serverSeq,r.clientSeq,r.orderId,r.reason))
    (fun (s,cs,id,r) => some ⟨s,cs,id,r⟩) fun _ => rfl

def Fill.wire : Wire Fill :=
  (u64.pair (u64.pair (u32.pair (u64.pair (u64.pair (i64.pair i64)))))).via
    (fun f => (f.serverSeq,f.clientSeq,f.symbolId,f.takerOrderId,f.makerOrderId,f.price,f.qty))
    (fun (s,cs,sym,t,m,px,qty) => some ⟨s,cs,sym,t,m,px,qty⟩) fun _ => rfl

def BookTop.wire : Wire BookTop :=
  (u64.pair (u32.pair (i64.opt.pair (i64.opt.pair (i64.opt.pair i64.opt))))).via
    (fun t => (t.serverSeq,t.symbolId,t.bestBidPx,t.bestBidQty,t.bestAskPx,t.bestAskQty))
    (fun (s,sym,bp,bq,ap,aq) => some ⟨s,sym,bp,bq,ap,aq⟩) fun _ => rfl

def AccountState.wire : Wire AccountState :=
  (u64.pair (u64.pair (u32.pair (u32.pair (Position.wire.pair RiskLimits.wire))))).via
    (fun s => (s.serverSeq,s.clientSeq,s.accountId,s.symbolId,s.position,s.riskLimits))
    (fun (s,cs,acct,sym,pos,l) => some ⟨s,cs,acct,sym,pos,l⟩) fun _ => rfl

def AuthSuccess.wire : Wire AuthSuccess := u32.via AuthSuccess.accountId (fun a => some ⟨a⟩) fun _ => rfl

def AuthFailure.wire : Wire AuthFailure := stringWire.via AuthFailure.reason (fun s => some ⟨s⟩) fun _ => rfl

namespace Event

def write : Event → List UInt8
  | .ack a => 0::Ack.wire.write a
  | .reject r => 1::Reject.wire.write r
  | .fill f => 2::Fill.wire.write f
  | .bookTop t => 3::BookTop.wire.write t
  | .accountState s => 4::AccountState.wire.write s
  | .authSuccess a => 5::AuthSuccess.wire.write a
  | .authFailure a => 6::AuthFailure.wire.write a

def read (bs : List UInt8) : Option (Event × List UInt8) :=
  ((varint 5).read bs).bind fun (tag,bs) =>
    match tag with
    | 0 => (Ack.wire.read bs).map fun r => (.ack r.1,r.2)
    | 1 => (Reject.wire.read bs).map fun r => (.reject r.1,r.2)
    | 2 => (Fill.wire.read bs).map fun r => (.fill r.1,r.2)
    | 3 => (BookTop.wire.read bs).map fun r => (.bookTop r.1,r.2)
    | 4 => (AccountState.wire.read bs).map fun r => (.accountState r.1,r.2)
    | 5 => (AuthSuccess.wire.read bs).map fun r => (.authSuccess r.1,r.2)
    | 6 => (AuthFailure.wire.read bs).map fun r => (.authFailure r.1,r.2)
    | _ => none

def wire : Wire Event where
  write := write
  read := read
  read_write e rest := by cases e <;> simp [write,read]

end Event

/-! ### Orders and tokens -/

def RiskToken.wire : Wire RiskToken :=
  (u32.pair (i64.pair u64)).via (fun t => (t.accountId,t.reservedAmount,t.gatewaySeq))
    (fun (acct,amount,seq) => some ⟨acct,amount,seq⟩) fun _ => rfl

def ExecuteCommand.wire : Wire ExecuteCommand :=
  (Command.wire.pair (u64.pair RiskToken.wire)).via (fun x => (x.command,x.connId,x.riskToken))
    (fun (cmd,conn,token) => some ⟨cmd,conn,token⟩) fun _ => rfl

def OrderSnapshot.wire : Wire OrderSnapshot :=
  (u64.pair (u32.pair (u32.pair (Side.wire.pair (i64.pair (i64.pair i64)))))).via
    (fun o => (o.orderId,o.accountId,o.symbolId,o.side,o.price,o.qtyRem,o.reservedAmount))
    (fun (id,acct,sym,side,px,qty,amount) => some ⟨id,acct,sym,side,px,qty,amount⟩) fun _ => rfl

namespace GatewayToEngine

def write : GatewayToEngine → List UInt8
  | .execute exec => 0::ExecuteCommand.wire.write exec
  | .ping => [1]
  | .queryAllOrders => [2]

def read (bs : List UInt8) : Option (GatewayToEngine × List UInt8) :=
  ((varint 5).read bs).bind fun (tag,bs) =>
    match tag with
    | 0 => (ExecuteCommand.wire.read bs).map fun r => (.execute r.1,r.2)
    | 1 => some (.ping,bs)
    | 2 => some (.queryAllOrders,bs)
    | _ => none

def wire : Wire GatewayToEngine where
  write := write
  read := read
  read_write m rest := by cases m <;> simp [write,read]

end GatewayToEngine

namespace EngineToGateway

def write : EngineToGateway → List UInt8
  | .clientEvent connId event riskToken =>
    0::(u64.pair (Event.wire.pair RiskToken.wire.opt)).write (connId,event,riskToken)
  | .pong symbolId ordersInBook => 1::(u32.pair u64).write (symbolId,ordersInBook)
  | .marketData symbolId event => 2::(u32.pair Event.wire).write (symbolId,event)
  | .allOrders orders => 3::OrderSnapshot.wire.seq.write orders
  | .engineReady symbolId orders => 4::(u32.pair OrderSnapshot.wire.seq).write (symbolId,orders)

def read (bs : List UInt8) : Option (EngineToGateway × List UInt8) :=
  ((varint 5).read bs).bind fun (tag,bs) =>
    match tag with
    | 0 => ((u64.pair (Event.wire.pair RiskToken.wire.opt)).read bs).map fun r => (.clientEvent r.1.1 r.1.2.1 r.1.2.2,r.2)
    | 1 => ((u32.pair u64).read bs).map fun r => (.pong r.1.1 r.1.2,r.2)
    | 2 => ((u32.pair Event.wire).read bs).map fun r => (.marketData r.1.1 r.1.2,r.2)
    | 3 => (OrderSnapshot.wire.seq.read bs).map fun r => (.allOrders r.1,r.2)
    | 4 => ((u32.pair OrderSnapshot.wire.seq).read bs).map fun r => (.engineReady r.1.1 r.1.2,r.2)
    | _ => none

def wire : Wire EngineToGateway where
  write := write
  read := read
  read_write m rest := by cases m <;> simp [write,read]

example : (wire.read (wire.write (.allOrders [⟨7,1,1,.sell,-3,300,0⟩]))).map Prod.fst =
    some (.allOrders [⟨7,1,1,.sell,-3,300,0⟩]) := by
  decide +kernel

end EngineToGateway

end HighPerfTrading
