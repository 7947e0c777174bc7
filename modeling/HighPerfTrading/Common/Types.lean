import Mathlib.Init

/-! Identifiers, commands and events shared by the gateway and the engines. Prices,
quantities and identifiers keep the widths of the source; arithmetic on them wraps as in
the release profile. -/
namespace HighPerfTrading

abbrev OrderId := UInt64
abbrev AccountId := UInt32
abbrev SymbolId := UInt32
/-- Ticks. -/
abbrev Price := Int64
/-- Lots. -/
abbrev Qty := Int64

inductive Side
  | buy
  | sell
  deriving DecidableEq, Repr

def Side.opposite : Side → Side
  | .buy => .sell
  | .sell => .buy

@[simp] theorem Side.opposite_opposite (s : Side) : s.opposite.opposite = s := by cases s <;> rfl

theorem Side.opposite_ne (s : Side) : s.opposite ≠ s := by cases s <;> decide

/-- Position of one account: net lots, average entry price and realized profit. -/
structure Position where
  netPosition : Int64
  avgPrice : Int64
  realizedPnl : Int64
  deriving DecidableEq, Repr

instance : Inhabited Position := ⟨⟨0,0,0⟩⟩

structure RiskLimits where
  maxLongPosition : Int64
  maxShortPosition : Int64
  maxOrderSize : Int64
  deriving DecidableEq, Repr

instance : Inhabited RiskLimits := ⟨⟨10000,10000,1000⟩⟩

inductive TimeInForce
  | gtc
  | ioc
  deriving DecidableEq, Repr

structure OrderFlags where
  postOnly : Bool
  deriving DecidableEq, Repr

structure Authenticate where
  apiKey : String
  deriving DecidableEq, Repr

structure NewOrder where
  clientSeq : UInt64
  orderId : OrderId
  accountId : AccountId
  symbolId : SymbolId
  side : Side
  price : Price
  qty : Qty
  tif : TimeInForce
  flags : OrderFlags
  deriving DecidableEq, Repr

structure Cancel where
  clientSeq : UInt64
  orderId : OrderId
  accountId : AccountId
  symbolId : SymbolId
  deriving DecidableEq, Repr

structure Replace where
  clientSeq : UInt64
  orderId : OrderId
  accountId : AccountId
  symbolId : SymbolId
  newPrice : Price
  newQty : Qty
  deriving DecidableEq, Repr

structure SetRiskLimits where
  clientSeq : UInt64
  accountId : AccountId
  symbolId : SymbolId
  limits : RiskLimits
  deriving DecidableEq, Repr

structure QueryAccount where
  clientSeq : UInt64
  accountId : AccountId
  symbolId : SymbolId
  deriving DecidableEq, Repr

inductive Command
  | newOrder (no : NewOrder)
  | cancel (c : Cancel)
  | replace (r : Replace)
  | setRiskLimits (srl : SetRiskLimits)
  | queryAccount (qa : QueryAccount)
  | authenticate (auth : Authenticate)
  deriving DecidableEq, Repr

structure AuthSuccess where
  accountId : AccountId
  deriving DecidableEq, Repr

structure AuthFailure where
  reason : String
  deriving DecidableEq, Repr

structure Ack where
  serverSeq : UInt64
  clientSeq : UInt64
  orderId : OrderId
  deriving DecidableEq, Repr

inductive RejectReason
  | invalid
  | risk
  | overloaded
  | notFound
  | postOnlyWouldCross
  | rateLimitExceeded
  deriving DecidableEq, Repr

structure Reject where
  serverSeq : UInt64
  clientSeq : UInt64
  orderId : Option OrderId
  reason : RejectReason
  deriving DecidableEq, Repr

structure Fill where
  serverSeq : UInt64
  clientSeq : UInt64
  symbolId : SymbolId
  takerOrderId : OrderId
  makerOrderId : OrderId
  price : Price
  qty : Qty
  deriving DecidableEq, Repr

structure BookTop where
  serverSeq : UInt64
  symbolId : SymbolId
  bestBidPx : Option Price
  bestBidQty : Option Qty
  bestAskPx : Option Price
  bestAskQty : Option Qty
  deriving DecidableEq, Repr

structure AccountState where
  serverSeq : UInt64
  clientSeq : UInt64
  accountId : AccountId
  symbolId : SymbolId
  position : Position
  riskLimits : RiskLimits
  deriving DecidableEq, Repr

inductive Event
  | ack (a : Ack)
  | reject (r : Reject)
  | fill (f : Fill)
  | bookTop (t : BookTop)
  | accountState (s : AccountState)
  | authSuccess (a : AuthSuccess)
  | authFailure (a : AuthFailure)
  deriving DecidableEq, Repr

def Event.toFill : Event → Option Fill
  | .fill f => some f
  | _ => none

/-- A live order as an engine reports it, with the buying power it reserves. -/
structure OrderSnapshot where
  orderId : OrderId
  accountId : AccountId
  symbolId : SymbolId
  side : Side
  price : Price
  qtyRem : Qty
  reservedAmount : Int64
  deriving DecidableEq, Repr

/-- The symbol a command is routed by; none for `authenticate`, which is never routed. -/
def commandSymbolId : Command → Option SymbolId
  | .newOrder o => some o.symbolId
  | .cancel c => some c.symbolId
  | .replace r => some r.symbolId
  | .setRiskLimits s => some s.symbolId
  | .queryAccount q => some q.symbolId
  | .authenticate _ => none

def commandAccountId : Command → Option AccountId
  | .newOrder o => some o.accountId
  | .cancel c => some c.accountId
  | .replace r => some r.accountId
  | .setRiskLimits s => some s.accountId
  | .queryAccount q => some q.accountId
  | .authenticate _ => none

def commandOrderId : Command → Option OrderId
  | .newOrder o => some o.orderId
  | .cancel c => some c.orderId
  | .replace r => some r.orderId
  | .setRiskLimits _ => none
  | .queryAccount _ => none
  | .authenticate _ => none

end HighPerfTrading
