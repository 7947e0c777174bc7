import HighPerfTrading.Gateway.AccountManager

/-! The buying-power check over all 64-bit prices and quantities: what is reserved is the notional, and is
covered by the available funds, exactly when the notional is neither negative nor too large for 64 bits. -/
namespace HighPerfTrading
namespace Gateway

/-- The account can pay for the notional `n` once `freed` is given back, the token holds exactly that, and
the account is still solvent and has no more to spend than before. -/
structure Reserved (s s' : AccountState) (freed n : ℤ) (token : ReservationToken) : Prop where
  nonneg : 0 ≤ n
  affordable : n ≤ s.buyingPower.toInt-s.tentativeReserved.toInt+freed
  amount : token.amount.toInt = n
  reserved : 0 ≤ s'.tentativeReserved.toInt
  solvent : s'.tentativeReserved.toInt ≤ s'.buyingPower.toInt
  available : s'.buyingPower.toInt-s'.tentativeReserved.toInt ≤ s.buyingPower.toInt-s.tentativeReserved.toInt+freed

/-- What a buy costs in exact arithmetic; a sell costs nothing. -/
def notional (order : NewOrder) : ℤ :=
  match order.side with
  | .buy => order.price.toInt*order.qty.toInt
  | .sell => 0

/-- Swapping a reservation of `freed` for one of `price*qty`, when the wrapped product passes the check. -/
theorem reserved_iff {s : AccountState} (h0 : 0 ≤ s.tentativeReserved) (hle : s.tentativeReserved ≤ s.buyingPower)
    (freed : Int64) {price qty : Int64} (hok : price*qty ≤ s.buyingPower-s.tentativeReserved+freed)
    {token : ReservationToken}
    (htoken : token.amount = price*qty) :
    Reserved s { s with tentativeReserved := s.tentativeReserved-freed+price*qty } freed.toInt
        (price.toInt*qty.toInt) token ↔
      (0 ≤ price.toInt*qty.toInt ∧ price.toInt*qty.toInt < 2^63) ∧
        freed.toInt ≤ s.tentativeReserved.toInt+price.toInt*qty.toInt := by
  have h0' := Int64.le_iff_toInt_le.mp h0
  have hle' := Int64.le_iff_toInt_le.mp hle
  rw [Int64.toInt_zero] at h0'
  have hbp := Int64.toInt_lt s.buyingPower
  have hfl := Int64.le_toInt freed
  have hfu := Int64.toInt_lt freed
  -- the new reservation, as long as the exact one is in range
  have hnew : ∀ n : ℤ, (price*qty).toInt = n → -2^63 ≤ s.tentativeReserved.toInt-freed.toInt+n →
      s.tentativeReserved.toInt-freed.toInt+n < 2^63 →
      (s.tentativeReserved-freed+price*qty).toInt = s.tentativeReserved.toInt-freed.toInt+n := by
    intro n hn hl hu
    have hwrap : s.tentativeReserved-freed+price*qty = Int64.ofInt (s.tentativeReserved.toInt-freed.toInt+n) := by
      rw [Int64.ofInt_add,Int64.ofInt_sub,Int64.ofInt_toInt,Int64.ofInt_toInt,← hn,Int64.ofInt_toInt]
    rw [hwrap,Int64.toInt_ofInt_of_le hl hu]
  constructor
  · intro h
    have hlt := Int64.toInt_lt token.amount
    have hamount := h.amount
    have hn0 := h.nonneg
    have hafford := h.affordable
    have hprod : (price*qty).toInt = price.toInt*qty.toInt := htoken ▸ h.amount
    have hres := h.reserved
    simp only at hres
    rw [hnew _ hprod (by omega) (by omega)] at hres
    exact ⟨⟨hn0,by omega⟩,by omega⟩
  · rintro ⟨⟨hn0,hnlt⟩,hfreed⟩
    have hprod := Int64.toInt_mul_of_range (a := price) (b := qty) (by omega) hnlt
    have hok' := Int64.le_iff_toInt_le.mp hok
    have hsum : s.buyingPower-s.tentativeReserved+freed =
        Int64.ofInt (s.buyingPower.toInt-s.tentativeReserved.toInt+freed.toInt) := by
      rw [Int64.ofInt_add,Int64.ofInt_sub,Int64.ofInt_toInt,Int64.ofInt_toInt,Int64.ofInt_toInt]
    rw [hprod,hsum] at hok'
    -- a sum that wraps is negative or smaller, so it covers no more than the exact one
    have hafford : price.toInt*qty.toInt ≤ s.buyingPower.toInt-s.tentativeReserved.toInt+freed.toInt := by
      by_cases hneg : s.buyingPower.toInt-s.tentativeReserved.toInt+freed.toInt < 0
      · rw [Int64.toInt_ofInt_of_le (by omega) (by omega)] at hok'
        exact hok'
      · exact hok'.trans (Int64.toInt_ofInt_le (by omega))
    have hres := hnew _ hprod (by omega) (by omega)
    exact ⟨hn0,hafford,htoken ▸ hprod,by simp only; omega,by simp only; omega,by simp only; omega⟩

namespace AccountManager
variable {m m' : AccountManager} {s : AccountState} {token : ReservationToken}

theorem checkAndReserveOrder_afford {order : NewOrder} (hs : m.accounts[order.accountId]? = some s)
    (h : m.checkAndReserveOrder order = .ok (token,m')) : orderRequired order ≤ s.buyingPower-s.tentativeReserved := by
  unfold checkAndReserveOrder at h
  rw [hs] at h
  simp only at h
  split_ifs at h with hsize hlong hshort hfunds
  exact Int64.not_lt.mp hfunds

theorem checkAndReserveReplace_ok {r : Replace} (hs : m.accounts[r.accountId]? = some s)
    (h : m.checkAndReserveReplace r = .ok (token,m')) :
    r.newPrice*r.newQty ≤ s.buyingPower-s.tentativeReserved ∧
      token = ⟨r.accountId,r.symbolId,r.newPrice*r.newQty,r.orderId⟩ ∧
      m' = m.put r.accountId { s with tentativeReserved := s.tentativeReserved+r.newPrice*r.newQty } := by
  unfold checkAndReserveReplace at h
  rw [hs] at h
  simp only at h
  split_ifs at h with hsize hfunds
  obtain ⟨rfl,rfl⟩ := Prod.mk.inj (Except.ok.inj h)
  exact ⟨Int64.not_lt.mp hfunds,rfl,rfl⟩

theorem adjustReservation_afford {old : ReservationToken} {r : Replace} (hs : m.accounts[r.accountId]? = some s)
    (h : m.adjustReservation old r = .ok (token,m')) :
    r.newPrice*r.newQty ≤ s.buyingPower-s.tentativeReserved+old.amount := by
  unfold adjustReservation at h
  rw [hs] at h
  simp only at h
  split_ifs at h with hsize hfunds
  exact Int64.not_lt.mp hfunds

/-- The account's state after a reservation. -/
theorem put_reserved (a : AccountId) (s s' : AccountState) (freed n : ℤ) (token : ReservationToken) :
    (∃ x, (m.put a s').accounts[a]? = some x ∧ Reserved s x freed n token) ↔ Reserved s s' freed n token := by
  simp only [accounts_put,if_true,Option.some.injEq,exists_eq_left']

/-- On all three paths an accepted order reserves its notional, out of the available funds, exactly when
the notional is not negative and fits in 64 bits; a replaced reservation must also be part of the account's. -/
theorem reservation_iff (h0 : 0 ≤ s.tentativeReserved) (hle : s.tentativeReserved ≤ s.buyingPower) :
    (∀ order, m.accounts[order.accountId]? = some s → m.checkAndReserve (.newOrder order) = .ok (token,m') →
      ((∃ s', m'.accounts[order.accountId]? = some s' ∧ Reserved s s' 0 (notional order) token) ↔
        0 ≤ notional order ∧ notional order < 2^63)) ∧
    (∀ r, m.accounts[r.accountId]? = some s → m.checkAndReserve (.replace r) = .ok (token,m') →
      ((∃ s', m'.accounts[r.accountId]? = some s' ∧ Reserved s s' 0 (r.newPrice.toInt*r.newQty.toInt) token) ↔
        0 ≤ r.newPrice.toInt*r.newQty.toInt ∧ r.newPrice.toInt*r.newQty.toInt < 2^63)) ∧
    ∀ old r, m.accounts[r.accountId]? = some s → m.adjustReservation old r = .ok (token,m') →
      ((∃ s', m'.accounts[r.accountId]? = some s' ∧
          Reserved s s' old.amount.toInt (r.newPrice.toInt*r.newQty.toInt) token) ↔
        (0 ≤ r.newPrice.toInt*r.newQty.toInt ∧ r.newPrice.toInt*r.newQty.toInt < 2^63) ∧
          old.amount.toInt ≤ s.tentativeReserved.toInt+r.newPrice.toInt*r.newQty.toInt) := by
  have h0' := Int64.le_iff_toInt_le.mp h0
  rw [Int64.toInt_zero] at h0'
  -- reserving is swapping nothing for the new amount
  have hfresh : ∀ {price qty : Int64} {a : AccountId}, token.amount = price*qty →
      price*qty ≤ s.buyingPower-s.tentativeReserved →
      ((∃ s', (m.put a { s with tentativeReserved := s.tentativeReserved+price*qty }).accounts[a]? = some s' ∧
        Reserved s s' 0 (price.toInt*qty.toInt) token) ↔
          0 ≤ price.toInt*qty.toInt ∧ price.toInt*qty.toInt < 2^63) := by
    intro price qty a htoken hok
    have hiff := reserved_iff h0 hle 0 (by rwa [add_zero]) htoken
    rw [sub_zero,Int64.toInt_zero] at hiff
    rw [put_reserved,hiff]
    exact and_iff_left_of_imp fun h => by omega
  refine ⟨fun order hs h => ?_,fun r hs h => ?_,fun old r hs h => ?_⟩
  · have hafford := checkAndReserveOrder_afford hs h
    obtain ⟨x,hx,htoken,rfl⟩ := checkAndReserveOrder_ok h
    obtain rfl := Option.some.inj (hs.symm.trans hx)
    cases hside : order.side with
    | buy =>
      have hreq : orderRequired order = order.price*order.qty := by rw [orderRequired,hside]
      have hn : notional order = order.price.toInt*order.qty.toInt := by rw [notional,hside]
      rw [hreq] at hafford ⊢
      rw [hn]
      exact hfresh (by rw [htoken,hreq]) hafford
    | sell =>
      have hreq : orderRequired order = 0*0 := by rw [orderRequired,hside]; rfl
      have hn : notional order = Int64.toInt 0*Int64.toInt 0 := by rw [notional,hside]; rfl
      rw [hreq] at hafford ⊢
      rw [hn]
      exact hfresh (by rw [htoken,hreq]) hafford
  · obtain ⟨hafford,rfl,rfl⟩ := checkAndReserveReplace_ok hs h
    exact hfresh rfl hafford
  · have hafford := adjustReservation_afford hs h
    obtain ⟨x,hx,rfl,rfl⟩ := adjustReservation_ok h
    obtain rfl := Option.some.inj (hs.symm.trans hx)
    rw [put_reserved]
    exact reserved_iff h0 hle old.amount hafford rfl

/-- An account with 1000 to spend, 200 of it reserved. -/
def saver : AccountState := { AccountState.new 7 1000 with tentativeReserved := 200 }

theorem saver_reserves : ∃ token m',
    (AccountManager.new.put 7 saver).adjustReservation ⟨7,1,200,3⟩ ⟨1,3,7,1,90,10⟩ = .ok (token,m') ∧
    ∃ s', m'.accounts[(7 : AccountId)]? = some s' ∧ Reserved saver s' 200 900 token := by
  refine ⟨⟨7,1,900,3⟩,_,rfl,?_⟩
  exact ((reservation_iff (m := AccountManager.new.put 7 saver) (s := saver) (by decide) (by decide)).2.2
    ⟨7,1,200,3⟩ ⟨1,3,7,1,90,10⟩ (by simp) rfl).mpr
    (by decide)

/-- A buy at a negative price is accepted and adds 50 to the available funds; one whose notional is `2^64`
is accepted and reserves nothing. -/
theorem negativePrice_raises :
    let m := AccountManager.new.put 7 saver
    (∃ token m', m.checkAndReserve (.newOrder ⟨1,1,7,1,.buy,-5,10,.gtc,⟨false⟩⟩) = .ok (token,m') ∧ token.amount = -50 ∧
      ∀ s', m'.accounts[(7 : AccountId)]? = some s' → s'.buyingPower-s'.tentativeReserved = 850) ∧
    ∃ token m', m.checkAndReserve (.newOrder ⟨1,1,7,1,.buy,4611686018427387904,4,.gtc,⟨false⟩⟩) = .ok (token,m') ∧
      token.amount = 0 := by
  refine ⟨⟨⟨7,1,-50,1⟩,_,rfl,rfl,fun s' hs' => ?_⟩,⟨7,1,0,1⟩,_,rfl,rfl⟩
  rw [accounts_put,if_pos rfl] at hs'
  obtain rfl := Option.some.inj hs'
  decide

end AccountManager
end Gateway
end HighPerfTrading
