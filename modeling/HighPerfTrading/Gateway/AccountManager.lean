import HighPerfTrading.Common.Types
import HighPerfTrading.Library.MachineInt
import HighPerfTrading.Library.OrderedMap

/-! The gateway's accounts: buying power, tentative reservations for orders on their way, and
positions as far as the delivered fills tell them. The journal of account creations is left
out. -/
namespace HighPerfTrading
namespace Gateway

structure AccountState where
  accountId : AccountId
  buyingPower : Int64
  tentativeReserved : Int64
  positions : OrdMap SymbolId Position
  riskLimits : OrdMap SymbolId RiskLimits

namespace AccountState

def new (accountId : AccountId) (initialBuyingPower : Int64) : AccountState :=
  ⟨accountId,initialBuyingPower,0,∅,∅⟩

def getRiskLimits (s : AccountState) (symbolId : SymbolId) : RiskLimits := (s.riskLimits[symbolId]?).getD default

def getPosition (s : AccountState) (symbolId : SymbolId) : Position := (s.positions[symbolId]?).getD default

end AccountState

/-- A reservation of buying power for one order. -/
structure ReservationToken where
  accountId : AccountId
  symbolId : SymbolId
  amount : Int64
  orderId : OrderId
  deriving DecidableEq, Repr

inductive RiskViolation
  | insufficientFunds
  | positionLimitExceeded
  | orderSizeTooLarge
  | accountNotFound
  deriving DecidableEq, Repr

structure AccountManager where
  accounts : OrdMap AccountId AccountState
  nextGatewaySeq : UInt64

namespace AccountManager

def new : AccountManager := ⟨∅,1⟩

def createAccount (m : AccountManager) (accountId : AccountId) (buyingPower : Int64) : AccountManager :=
  { m with accounts := m.accounts.insert accountId (AccountState.new accountId buyingPower) }

def nextSeq (m : AccountManager) : UInt64 × AccountManager :=
  (m.nextGatewaySeq,{ m with nextGatewaySeq := m.nextGatewaySeq+1 })

/-- Put an account's new state in place. -/
def put (m : AccountManager) (accountId : AccountId) (s : AccountState) : AccountManager :=
  { m with accounts := m.accounts.insert accountId s }

/-- A buy reserves its whole notional, a sell nothing. -/
def orderRequired (order : NewOrder) : Int64 :=
  match order.side with
  | .buy => order.price*order.qty
  | .sell => 0

def checkAndReserveOrder (m : AccountManager) (order : NewOrder) :
    Except RiskViolation (ReservationToken × AccountManager) :=
  match m.accounts[order.accountId]? with
  | none => .error .accountNotFound
  | some state =>
    let limits := state.getRiskLimits order.symbolId
    if limits.maxOrderSize < order.qty.abs then .error .orderSizeTooLarge else
      let position := state.getPosition order.symbolId
      let newPosition := match order.side with
        | .buy => position.netPosition+order.qty
        | .sell => position.netPosition-order.qty
      if limits.maxLongPosition < newPosition then .error .positionLimitExceeded
      else if newPosition < -limits.maxShortPosition then .error .positionLimitExceeded
      else
        let available := state.buyingPower-state.tentativeReserved
        if available < orderRequired order then .error .insufficientFunds else
          .ok (⟨order.accountId,order.symbolId,orderRequired order,order.orderId⟩,
            m.put order.accountId
              { state with tentativeReserved := state.tentativeReserved+orderRequired order })

/-- Reserve for a replacement without releasing what the old order holds. The side is not known
here, so the order is taken for a buy. -/
def checkAndReserveReplace (m : AccountManager) (replace : Replace) :
    Except RiskViolation (ReservationToken × AccountManager) :=
  match m.accounts[replace.accountId]? with
  | none => .error .accountNotFound
  | some state =>
    let limits := state.getRiskLimits replace.symbolId
    if limits.maxOrderSize < replace.newQty.abs then .error .orderSizeTooLarge else
      let newAmount := replace.newPrice*replace.newQty
      let available := state.buyingPower-state.tentativeReserved
      if available < newAmount then .error .insufficientFunds else
        .ok (⟨replace.accountId,replace.symbolId,newAmount,replace.orderId⟩,
          m.put replace.accountId { state with tentativeReserved := state.tentativeReserved+newAmount })

def checkAndReserve (m : AccountManager) (cmd : Command) :
    Except RiskViolation (ReservationToken × AccountManager) :=
  match cmd with
  | .newOrder order => m.checkAndReserveOrder order
  | .replace replace => m.checkAndReserveReplace replace
  | cmd => .ok (⟨(commandAccountId cmd).getD 0,(commandSymbolId cmd).getD 0,0,0⟩,m)

/-- Swap the reservation of an order for that of its replacement. -/
def adjustReservation (m : AccountManager) (oldToken : ReservationToken) (replace : Replace) :
    Except RiskViolation (ReservationToken × AccountManager) :=
  match m.accounts[replace.accountId]? with
  | none => .error .accountNotFound
  | some state =>
    let limits := state.getRiskLimits replace.symbolId
    if limits.maxOrderSize < replace.newQty.abs then .error .orderSizeTooLarge else
      let newAmount := replace.newPrice*replace.newQty
      let available := state.buyingPower-state.tentativeReserved+oldToken.amount
      if available < newAmount then .error .insufficientFunds else
        .ok (⟨replace.accountId,replace.symbolId,newAmount,replace.orderId⟩,
          m.put replace.accountId
            { state with tentativeReserved := state.tentativeReserved-oldToken.amount+newAmount })

/-- A fill releases the token's whole amount and moves money and position. -/
def fillAccount (s : AccountState) (fill : Fill) (token : ReservationToken) (isBuy : Bool) : AccountState :=
  let actualCost := fill.price*fill.qty
  let position := s.getPosition fill.symbolId
  let netPosition := if isBuy then position.netPosition+fill.qty else position.netPosition-fill.qty
  { s with
    tentativeReserved := s.tentativeReserved-token.amount
    buyingPower := if isBuy then s.buyingPower-actualCost else s.buyingPower+actualCost
    positions := s.positions.insert fill.symbolId
      { position with
        netPosition := netPosition
        avgPrice := if netPosition ≠ 0 then fill.price else position.avgPrice } }

def applyFill (m : AccountManager) (fill : Fill) (token : ReservationToken) (isBuy : Bool) : AccountManager :=
  match m.accounts[token.accountId]? with
  | none => m
  | some state => m.put token.accountId (fillAccount state fill token isBuy)

/-- The order was cancelled, or rejected by the engine. -/
def releaseReservation (m : AccountManager) (token : ReservationToken) : AccountManager :=
  match m.accounts[token.accountId]? with
  | none => m
  | some state =>
    m.put token.accountId { state with tentativeReserved := state.tentativeReserved-token.amount }

def getTentativeReserved (m : AccountManager) (accountId : AccountId) : Int64 :=
  (m.accounts[accountId]?).elim 0 AccountState.tentativeReserved

/-! ### What changes -/

variable {m m' : AccountManager} {token : ReservationToken}

@[simp] theorem accounts_put (m : AccountManager) (a b : AccountId) (s : AccountState) :
    (m.put a s).accounts[b]? = if a = b then some s else m.accounts[b]? := OrdMap.get_insert ..

/-- Accounts that are only funded have no positions and reserve nothing. -/
theorem accounts_funded (funding : List (AccountId × Int64)) {m : AccountManager}
    (hm : ∀ (a : AccountId) s, m.accounts[a]? = some s → s.positions = ∅ ∧ s.tentativeReserved = 0)
    (a : AccountId) (s : AccountState) (hs : (funding.foldl (fun m f => m.createAccount f.1 f.2) m).accounts[a]? = some s) :
    s.positions = ∅ ∧ s.tentativeReserved = 0 := by
  induction funding generalizing m with
  | nil => exact hm a s hs
  | cons f funding ih =>
    refine ih (fun b t ht => ?_) hs
    simp only [createAccount,OrdMap.get_insert] at ht
    split_ifs at ht
    · obtain rfl := Option.some.inj ht
      exact ⟨rfl,rfl⟩
    · exact hm b t ht

theorem checkAndReserveOrder_ok {order : NewOrder} (h : m.checkAndReserveOrder order = .ok (token,m')) :
    ∃ state, m.accounts[order.accountId]? = some state ∧
      token = ⟨order.accountId,order.symbolId,orderRequired order,order.orderId⟩ ∧
      m' = m.put order.accountId
        { state with tentativeReserved := state.tentativeReserved+orderRequired order } := by
  unfold checkAndReserveOrder at h
  cases hs : m.accounts[order.accountId]? with
  | none => rw [hs] at h; cases h
  | some state =>
    rw [hs] at h
    simp only at h
    split_ifs at h
    obtain ⟨rfl,rfl⟩ := Prod.mk.inj (Except.ok.inj h)
    exact ⟨state,rfl,rfl,rfl⟩

theorem adjustReservation_ok {old : ReservationToken} {replace : Replace}
    (h : m.adjustReservation old replace = .ok (token,m')) :
    ∃ state, m.accounts[replace.accountId]? = some state ∧
      token = ⟨replace.accountId,replace.symbolId,replace.newPrice*replace.newQty,replace.orderId⟩ ∧
      m' = m.put replace.accountId { state with
        tentativeReserved := state.tentativeReserved-old.amount+replace.newPrice*replace.newQty } := by
  unfold adjustReservation at h
  cases hs : m.accounts[replace.accountId]? with
  | none => rw [hs] at h; cases h
  | some state =>
    rw [hs] at h
    simp only at h
    split_ifs at h
    obtain ⟨rfl,rfl⟩ := Prod.mk.inj (Except.ok.inj h)
    exact ⟨state,rfl,rfl,rfl⟩

/-- Changing an account where there is one. -/
theorem accounts_changed (m : AccountManager) (id a : AccountId) (change : AccountState → AccountState) :
    (match m.accounts[id]? with
      | none => m
      | some state => m.put id (change state)).accounts[a]? =
    (m.accounts[a]?).map fun s => if a = id then change s else s := by
  by_cases ha : a = id
  · subst ha
    cases hs : m.accounts[a]? with
    | none => simp [hs]
    | some state => simp
  · cases hs : m.accounts[id]? with
    | none => simp [ha]
    | some state => simp [ha,Ne.symm ha]

theorem accounts_releaseReservation (m : AccountManager) (token : ReservationToken) (a : AccountId) :
    (m.releaseReservation token).accounts[a]? = (m.accounts[a]?).map fun s =>
      if a = token.accountId then { s with tentativeReserved := s.tentativeReserved-token.amount } else s :=
  m.accounts_changed token.accountId a fun s => { s with tentativeReserved := s.tentativeReserved-token.amount }

theorem accounts_applyFill (m : AccountManager) (fill : Fill) (token : ReservationToken) (isBuy : Bool)
    (a : AccountId) : (m.applyFill fill token isBuy).accounts[a]? = (m.accounts[a]?).map fun s =>
      if a = token.accountId then fillAccount s fill token isBuy else s :=
  m.accounts_changed token.accountId a fun s => fillAccount s fill token isBuy

theorem getPosition_fillAccount (s : AccountState) (fill : Fill) (token : ReservationToken) (isBuy : Bool)
    (sym : SymbolId) : ((fillAccount s fill token isBuy).getPosition sym).netPosition =
      (s.getPosition sym).netPosition+
        if sym = fill.symbolId then (if isBuy then fill.qty else -fill.qty) else 0 := by
  by_cases h : fill.symbolId = sym
  · subst h
    cases isBuy <;> simp [fillAccount,AccountState.getPosition,sub_eq_add_neg]
  · simp [fillAccount,AccountState.getPosition,h,Ne.symm h]

end AccountManager
end Gateway
end HighPerfTrading
