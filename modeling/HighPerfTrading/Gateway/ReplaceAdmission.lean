import HighPerfTrading.Gateway.BuyingPower

/-! How a replacement is admitted. The gateway does not know the side of the order that is replaced: it takes the
replacement for a buy, whatever the side, and leaves the position to the engine. -/
namespace HighPerfTrading
namespace Gateway

/-- A new order with the replacement's price and quantity. -/
def freshOrder (r : Replace) (side : Side) (clientSeq : UInt64) (orderId : OrderId) (tif : TimeInForce)
    (flags : OrderFlags) : NewOrder :=
  ⟨clientSeq,orderId,r.accountId,r.symbolId,side,r.newPrice,r.newQty,tif,flags⟩

/-- Buying the replacement's quantity would leave the position within the account's limits. -/
def BuyWithinLimits (m : AccountManager) (r : Replace) : Prop :=
  ∀ s, m.accounts[r.accountId]? = some s →
    (s.getPosition r.symbolId).netPosition+r.newQty ≤ (s.getRiskLimits r.symbolId).maxLongPosition ∧
      -(s.getRiskLimits r.symbolId).maxShortPosition ≤ (s.getPosition r.symbolId).netPosition+r.newQty

namespace AccountManager
variable {m m' : AccountManager} {s : AccountState} {old token : ReservationToken} {r : Replace}

theorem put_put (m : AccountManager) (a : AccountId) (s s' : AccountState) : (m.put a s).put a s' = m.put a s' := by
  simp only [put,AccountManager.mk.injEq,and_true]
  refine OrdMap.ext fun b => ?_
  rw [OrdMap.get_insert,OrdMap.get_insert,OrdMap.get_insert]
  split_ifs <;> rfl

/-- What is free once the old reservation is given back. -/
theorem available_released (buyingPower reserved freed : Int64) :
    buyingPower-(reserved-freed) = buyingPower-reserved+freed := by
  rw [sub_sub_eq_add_sub,add_sub_right_comm]

/-- An accepted buy passed the position check. -/
theorem checkAndReserveOrder_position (order : NewOrder) (hs : m.accounts[order.accountId]? = some s)
    (hside : order.side = .buy) (h : m.checkAndReserveOrder order = .ok (token,m')) :
    (s.getPosition order.symbolId).netPosition+order.qty ≤ (s.getRiskLimits order.symbolId).maxLongPosition ∧
      -(s.getRiskLimits order.symbolId).maxShortPosition ≤ (s.getPosition order.symbolId).netPosition+order.qty := by
  unfold checkAndReserveOrder at h
  rw [hs] at h
  simp only [hside] at h
  split_ifs at h with hsize hlong hshort hfunds
  exact ⟨Int64.not_lt.mp hlong,Int64.not_lt.mp hshort⟩

theorem withinLimits_of_fresh (hacct : old.accountId = r.accountId) {clientSeq : UInt64} {orderId : OrderId}
    {tif : TimeInForce} {flags : OrderFlags}
    (h : (m.releaseReservation old).checkAndReserveOrder (freshOrder r .buy clientSeq orderId tif flags) =
      .ok (token,m')) : BuyWithinLimits m r := by
  intro s hs
  have hreleased : (m.releaseReservation old).accounts[r.accountId]? =
      some { s with tentativeReserved := s.tentativeReserved-old.amount } := by
    rw [accounts_releaseReservation,hs,Option.map_some,if_pos hacct.symm]
  have hwithin := checkAndReserveOrder_position (freshOrder r .buy clientSeq orderId tif flags) hreleased rfl h
  exact hwithin

/-- Within the position limits adjusting a reservation is giving the old one back and reserving for a fresh buy. -/
theorem adjust_iff_fresh (hacct : old.accountId = r.accountId) (hlimits : BuyWithinLimits m r) (clientSeq : UInt64)
    (orderId : OrderId) (tif : TimeInForce) (flags : OrderFlags) (amount : Int64) (m' : AccountManager) :
    (∃ token, m.adjustReservation old r = .ok (token,m') ∧ token.amount = amount) ↔
      ∃ token, (m.releaseReservation old).checkAndReserveOrder (freshOrder r .buy clientSeq orderId tif flags) =
        .ok (token,m') ∧ token.amount = amount := by
  unfold adjustReservation checkAndReserveOrder
  rw [show (freshOrder r .buy clientSeq orderId tif flags).accountId = r.accountId from rfl,
    accounts_releaseReservation,releaseReservation,hacct]
  cases hs : m.accounts[r.accountId]? with
  | none => simp
  | some s =>
    obtain ⟨hlong,hshort⟩ := hlimits s hs
    simp only [Option.map_some,if_true,freshOrder,orderRequired,available_released]
    have hrisk : AccountState.getRiskLimits { s with tentativeReserved := s.tentativeReserved-old.amount } r.symbolId =
        s.getRiskLimits r.symbolId := rfl
    have hposition : AccountState.getPosition { s with tentativeReserved := s.tentativeReserved-old.amount } r.symbolId =
        s.getPosition r.symbolId := rfl
    rw [hrisk,hposition,if_neg (Int64.not_lt.mpr hlong),if_neg (Int64.not_lt.mpr hshort)]
    split_ifs with hsize hfunds
    · simp
    · simp
    · simp only [Except.ok.injEq,Prod.mk.injEq,put_put]
      constructor
      · rintro ⟨token,⟨rfl,rfl⟩,rfl⟩
        exact ⟨_,⟨rfl,rfl⟩,rfl⟩
      · rintro ⟨token,⟨rfl,rfl⟩,rfl⟩
        exact ⟨_,⟨rfl,rfl⟩,rfl⟩

/-- A replacement is admitted like a fresh buy, whichever side the order has that it replaces: when the buy is
accepted, after the old reservation is given back, then so is the replacement, and within the position limits
the other way round as well, with the same accounts and the same amount reserved. -/
theorem adjustReservation_as_fresh_buy (hacct : old.accountId = r.accountId) (clientSeq : UInt64) (orderId : OrderId)
    (tif : TimeInForce) (flags : OrderFlags) :
    (∀ token m', (m.releaseReservation old).checkAndReserve (.newOrder (freshOrder r .buy clientSeq orderId tif flags)) =
      .ok (token,m') → ∃ token', m.adjustReservation old r = .ok (token',m') ∧ token'.amount = token.amount) ∧
    (BuyWithinLimits m r → ∀ token m', m.adjustReservation old r = .ok (token,m') →
      ∃ token', (m.releaseReservation old).checkAndReserve (.newOrder (freshOrder r .buy clientSeq orderId tif flags)) =
        .ok (token',m') ∧ token'.amount = token.amount) := by
  constructor
  · intro token m' h
    exact (adjust_iff_fresh hacct (withinLimits_of_fresh hacct h) clientSeq orderId tif flags token.amount m').mpr
      ⟨token,h,rfl⟩
  · intro hlimits token m' h
    exact (adjust_iff_fresh hacct hlimits clientSeq orderId tif flags token.amount m').mp ⟨token,h,rfl⟩

/-- The saver replaces a buy that holds 200 by one of 10 at 90. -/
theorem saver_replaces : ∃ token m', (AccountManager.new.put 7 saver).adjustReservation ⟨7,1,200,3⟩ ⟨1,3,7,1,90,10⟩ =
    .ok (token,m') ∧ token.amount = 900 := by
  have hacct : (⟨7,1,200,3⟩ : ReservationToken).accountId = (⟨1,3,7,1,90,10⟩ : Replace).accountId := rfl
  obtain ⟨token,hadjust,hamount⟩ := (adjustReservation_as_fresh_buy (m := AccountManager.new.put 7 saver) hacct 1 3 .gtc
    ⟨false⟩).1 ⟨7,1,900,3⟩ _ rfl
  exact ⟨token,_,hadjust,hamount⟩

/-- An account close to its position limit. -/
def nearLimit : AccountState := { AccountState.new 7 1000 with positions := .ofList [(1,⟨9995,1,0⟩)] compare }

/-- A seller with 1000 to spend is refused the replacement by a sale of 20 at 100, for lack of funds, and granted it
as a fresh order; a buyer close to the position limit is granted the replacement and refused the fresh order. -/
theorem replaced_unlike_fresh :
    (∃ old m token m', (AccountManager.new.createAccount 7 1000).checkAndReserve
        (.newOrder ⟨1,1,7,1,.sell,100,10,.gtc,⟨false⟩⟩) = .ok (old,m) ∧
      m.adjustReservation old ⟨2,1,7,1,100,20⟩ = .error .insufficientFunds ∧
      (m.releaseReservation old).checkAndReserve (.newOrder (freshOrder ⟨2,1,7,1,100,20⟩ .sell 2 1 .gtc ⟨false⟩)) =
        .ok (token,m')) ∧
    ∃ old m token m', (AccountManager.new.put 7 nearLimit).checkAndReserve
        (.newOrder ⟨1,1,7,1,.buy,1,5,.gtc,⟨false⟩⟩) = .ok (old,m) ∧
      m.adjustReservation old ⟨2,1,7,1,1,10⟩ = .ok (token,m') ∧
      (m.releaseReservation old).checkAndReserve (.newOrder (freshOrder ⟨2,1,7,1,1,10⟩ .buy 2 1 .gtc ⟨false⟩)) =
        .error .positionLimitExceeded :=
  ⟨⟨_,_,_,_,rfl,rfl,rfl⟩,⟨_,_,_,_,rfl,rfl,rfl⟩⟩

end AccountManager
end Gateway
end HighPerfTrading
