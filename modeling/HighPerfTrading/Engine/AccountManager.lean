import HighPerfTrading.Common.Types
import HighPerfTrading.Library.MachineInt
import HighPerfTrading.Library.OrderedMap

/-! Positions and risk limits of the accounts of one engine. -/
namespace HighPerfTrading

structure AccountManager where
  positions : OrdMap AccountId Position
  riskLimits : OrdMap AccountId RiskLimits
  defaultLimits : RiskLimits

namespace AccountManager

def new (defaultLimits : RiskLimits) : AccountManager := ⟨∅,∅,defaultLimits⟩

def getPosition (m : AccountManager) (accountId : AccountId) : Position :=
  (m.positions[accountId]?).getD default

def getLimits (m : AccountManager) (accountId : AccountId) : RiskLimits :=
  (m.riskLimits[accountId]?).getD m.defaultLimits

def setLimits (m : AccountManager) (accountId : AccountId) (limits : RiskLimits) : AccountManager :=
  { m with riskLimits := m.riskLimits.insert accountId limits }

/-- The order size, then the position the order would lead to if it filled completely. -/
def checkRisk (m : AccountManager) (accountId : AccountId) (side : Side) (qty : Int64) :
    Except RejectReason Unit :=
  let limits := m.getLimits accountId
  if limits.maxOrderSize < qty then .error .risk else
    let currentPos := (m.getPosition accountId).netPosition
    let newPosition := match side with
      | .buy => currentPos+qty
      | .sell => currentPos-qty
    if limits.maxLongPosition < newPosition then .error .risk
    else if newPosition < -limits.maxShortPosition then .error .risk
    else .ok ()

/-- Buying: close a short first, then open or add to a long at its average price. -/
def buyFill (pos : Position) (price qty : Int64) : Position :=
  let pos' :=
    if pos.netPosition < 0 then
      let closingQty := min qty (-pos.netPosition)
      { pos with
        realizedPnl := pos.realizedPnl+closingQty*(pos.avgPrice-price)
        avgPrice := if 0 < qty-closingQty then price else pos.avgPrice }
    else if pos.netPosition = 0 then { pos with avgPrice := price }
    else { pos with
      avgPrice := (pos.netPosition*pos.avgPrice+qty*price)/(pos.netPosition+qty) }
  { pos' with netPosition := pos.netPosition+qty }

/-- Selling: close a long first, then open or add to a short at its average price. -/
def sellFill (pos : Position) (price qty : Int64) : Position :=
  let pos' :=
    if 0 < pos.netPosition then
      let closingQty := min qty pos.netPosition
      { pos with
        realizedPnl := pos.realizedPnl+closingQty*(price-pos.avgPrice)
        avgPrice := if 0 < qty-closingQty then price else pos.avgPrice }
    else if pos.netPosition = 0 then { pos with avgPrice := price }
    else { pos with
      avgPrice := ((-pos.netPosition)*pos.avgPrice+qty*price)/(-pos.netPosition+qty) }
  { pos' with netPosition := pos.netPosition-qty }

def applyFill (m : AccountManager) (accountId : AccountId) (side : Side) (price qty : Int64) :
    AccountManager :=
  let pos := m.getPosition accountId
  { m with positions := m.positions.insert accountId (match side with
      | .buy => buyFill pos price qty
      | .sell => sellFill pos price qty) }

/-- The signed quantity a fill adds to the position of a party on this side. -/
def signed (side : Side) (qty : Int64) : Int64 :=
  match side with
  | .buy => qty
  | .sell => -qty

theorem getPosition_applyFill (m : AccountManager) (acct x : AccountId) (side : Side) (price qty : Int64) :
    ((m.applyFill acct side price qty).getPosition x).netPosition =
      (m.getPosition x).netPosition+if x = acct then signed side qty else 0 := by
  unfold applyFill getPosition
  simp only [OrdMap.get_insert]
  by_cases h : acct = x
  · subst h
    cases side with
    | buy => simp [buyFill,signed]
    | sell => simp [sellFill,signed,sub_eq_add_neg]
  · simp [h,Ne.symm h]

theorem getLimits_setLimits (m : AccountManager) (acct x : AccountId) (limits : RiskLimits) :
    (m.setLimits acct limits).getLimits x = if x = acct then limits else m.getLimits x := by
  unfold setLimits getLimits
  simp only [OrdMap.get_insert]
  by_cases h : acct = x <;> simp [h,eq_comm]

/-- An accepted order keeps the position inside the limits if it fills completely. -/
theorem checkRisk_ok {m : AccountManager} {acct : AccountId} {side : Side} {qty : Int64}
    (h : m.checkRisk acct side qty = .ok ()) :
    qty ≤ (m.getLimits acct).maxOrderSize ∧
      (m.getPosition acct).netPosition+signed side qty ≤ (m.getLimits acct).maxLongPosition ∧
      -(m.getLimits acct).maxShortPosition ≤ (m.getPosition acct).netPosition+signed side qty := by
  unfold checkRisk at h
  cases side with
  | buy =>
    simp only at h
    split_ifs at h with h1 h2 h3
    exact ⟨Int64.not_lt.mp h1,Int64.not_lt.mp h2,Int64.not_lt.mp h3⟩
  | sell =>
    simp only [sub_eq_add_neg] at h
    split_ifs at h with h1 h2 h3
    exact ⟨Int64.not_lt.mp h1,Int64.not_lt.mp h2,Int64.not_lt.mp h3⟩

end AccountManager
end HighPerfTrading
