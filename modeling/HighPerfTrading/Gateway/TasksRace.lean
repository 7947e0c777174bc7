import HighPerfTrading.Gateway.TasksApart

/-! A replacement across a fill of the same order: two tasks that do not keep apart. -/
namespace HighPerfTrading
namespace Gateway
open GatewayContext
namespace Tasks
variable {t : Tasks} {connId c : UInt64} {r : Replace} {md : OrderMetadata} {fill : Fill} {routes : SymbolId → Bool}

/-- A fill of one order that is tracked, from the event to the clients. -/
def settlesFill (c : UInt64) (fill : Fill) : List Action := [.event c (.fill fill),.respond,.respond,.respond,.respond]

/-- The maker's side is settled, and its order forgotten. -/
def filled (t : Tasks) (fill : Fill) (md : OrderMetadata) : Tasks :=
  { t with gateway := { t.settle fill md with pendingOrders := t.gateway.pendingOrders.erase fill.makerOrderId } }

theorem run_settlesFill (hidle : t.responder = .idle) (hmaker : t.gateway.pendingOrders[fill.makerOrderId]? = some md)
    (htaker : t.gateway.pendingOrders[fill.takerOrderId]? = none) :
    (machine.run t (settlesFill c fill)).1 = t.filled fill md := by
  obtain ⟨g,loops,responder⟩ := t
  obtain rfl : responder = .idle := hidle
  simp only [settlesFill,machine,Machine.run,step,event,respond,hmaker,htaker,filled,settle,untrack,ne_eq,
    not_true_eq_false,if_false]

/-- A replacement that is granted, from the token that it has found to the router. -/
theorem run_replaces {old : ReservationToken} (hfound : t.loop connId = .found r old) {token : ReservationToken}
    {am : AccountManager} (hok : t.gateway.accountManager.adjustReservation old r = .ok (token,am))
    {x : ReservationToken × Bool × PendingOperation} (hx : t.gateway.localOrder connId r.orderId = some x) :
    (machine.run t [.proceed connId routes,.proceed connId routes]).1 =
      (t.goes connId (.adjusted r token) { t.gateway with accountManager := am }).goes connId
        (.approved (.replace r) token)
        (({ t.gateway with accountManager := am } : GatewayContext).track connId r.orderId token x.2.1) := by
  have hadjusted : (t.proceed connId routes).1 =
      t.goes connId (.adjusted r token) { t.gateway with accountManager := am } := by
    simp only [proceed,hfound,hok]
  have hlocal : (t.goes connId (.adjusted r token) { t.gateway with accountManager := am }).gateway.localOrder connId
      r.orderId = some x := hx
  simp only [machine,Machine.run,step,hadjusted]
  simp only [proceed,loop_goes_self,hlocal]
  rfl

/-- A replacement whose order is filled between the look at its token and the change of the reservation gives the token
back a second time. What its account reserves, less what its orders hold, goes down by the whole token. -/
theorem token_twice (hfound : t.loop connId = .found r md.reservationToken) (hidle : t.responder = .idle)
    (hmaker : fill.makerOrderId = r.orderId) (htracked : t.gateway.pendingOrders[r.orderId]? = some md)
    (htaker : t.gateway.pendingOrders[fill.takerOrderId]? = none) (hacct : md.reservationToken.accountId = r.accountId)
    (hlocal : (t.gateway.localOrder connId r.orderId).isSome) {s : AccountState}
    (hs : t.gateway.accountManager.accounts[r.accountId]? = some s) {token : ReservationToken} {am : AccountManager}
    (hok : (t.settle fill md).accountManager.adjustReservation md.reservationToken r = .ok (token,am)) :
    let t' := (machine.run t (settlesFill c fill ++ [.proceed connId routes,.proceed connId routes])).1
    t'.loop connId = .approved (.replace r) token ∧ ∃ s', t'.gateway.accountManager.accounts[r.accountId]? = some s' ∧
      s'.tentativeReserved-reserved t'.gateway.pendingOrders r.accountId =
        s.tentativeReserved-reserved t.gateway.pendingOrders r.accountId-md.reservationToken.amount := by
  obtain ⟨x,hx⟩ := Option.isSome_iff_exists.mp hlocal
  obtain ⟨s₁,hs₁,htoken,ham⟩ := AccountManager.adjustReservation_ok hok
  have hsettled : s₁ = AccountManager.fillAccount s fill md.reservationToken (decide (md.side = Side.buy)) := by
    rw [settle,AccountManager.accounts_applyFill,hs,Option.map_some,if_pos hacct.symm] at hs₁
    exact (Option.some.inj hs₁).symm
  intro t'
  -- the read loop goes on with the token that it has found before the fill
  have hrun : t' = _ := congrArg Prod.fst (machine.run_append t (settlesFill c fill) _)
  simp only [run_settlesFill hidle (hmaker ▸ htracked) htaker,run_replaces (t := t.filled fill md) hfound hok hx] at hrun
  refine ⟨?_,{ s₁ with tentativeReserved := s₁.tentativeReserved-md.reservationToken.amount+r.newPrice*r.newQty },?_,?_⟩
  · rw [hrun,loop_goes_self]
  · rw [hrun,goes,track,accountManager_updateLocal,ham,AccountManager.accounts_put,if_pos rfl]
  · have hheld : held r.accountId md = md.reservationToken.amount := if_pos hacct
    have hpending : reserved t'.gateway.pendingOrders r.accountId =
        reserved t.gateway.pendingOrders r.accountId-md.reservationToken.amount+r.newPrice*r.newQty := by
      rw [hrun,goes,track]
      simp only [filled]
      rw [hmaker,reserved_insert,OrdMap.get_erase,if_pos rfl,reserved_erase htracked,hheld,htoken]
      simp [held]
    rw [hpending,hsettled,AccountManager.fillAccount]
    grind

/-- A client has bought 5 for 10 each. -/
def boughtFive : OrderMetadata := ⟨⟨1,1,50,3⟩,.buy,.active,1⟩

def eightInstead : Replace := ⟨2,3,1,1,10,8⟩

def fillOfFive : Fill := ⟨1,2,1,9,3,10,5⟩

/-- The client asks for 8 instead of 5, and its read loop has found the token of 50. -/
def askedForMore : Tasks :=
  let send (cmd : Command) : Action := .frame 1 (BinaryCodec.encodeCommand cmd)
  let go : Action := .proceed 1 fun _ => true
  (machine.run (start opening) [.connect fun bytes => (BinaryCodec.decodeCommand bytes).toOption,
    send (.authenticate ⟨"test-key-1"⟩),send (.newOrder ⟨1,3,1,1,.buy,10,5,.gtc,⟨false⟩⟩),go,go,
    send (.replace eightInstead)]).1

theorem askedForMore_short : askedForMore.gateway.accountManager.getTentativeReserved 1 = 50 ∧
    reserved askedForMore.gateway.pendingOrders 1 = 50 ∧
    let t' := (machine.run askedForMore (settlesFill 2 fillOfFive ++
      [.proceed 1 fun _ => true,.proceed 1 fun _ => true])).1
    ∃ s', t'.gateway.accountManager.accounts[(1 : AccountId)]? = some s' ∧
      s'.tentativeReserved-reserved t'.gateway.pendingOrders 1 = -50 := by
  have hreserved : reserved askedForMore.gateway.pendingOrders 1 = 50 := by decide +kernel
  have hbefore : askedForMore.gateway.accountManager.getTentativeReserved 1 = 50 := by decide +kernel
  have hfound : askedForMore.loop 1 = .found eightInstead boughtFive.reservationToken := by decide +kernel
  have htracked : askedForMore.gateway.pendingOrders[eightInstead.orderId]? = some boughtFive := by decide +kernel
  have hmaker : fillOfFive.makerOrderId = eightInstead.orderId := rfl
  have hgranted : ((askedForMore.settle fillOfFive boughtFive).accountManager.adjustReservation
      boughtFive.reservationToken eightInstead).isOk := by decide +kernel
  obtain ⟨s,hs⟩ := Option.isSome_iff_exists.mp
    (by decide +kernel : (askedForMore.gateway.accountManager.accounts[eightInstead.accountId]?).isSome)
  cases hok : (askedForMore.settle fillOfFive boughtFive).accountManager.adjustReservation
      boughtFive.reservationToken eightInstead with
  | error violation =>
    rw [hok] at hgranted
    cases hgranted
  | ok p =>
    obtain ⟨-,s',hs',hshort⟩ := token_twice (c := 2) hfound (by decide +kernel) hmaker htracked (by decide +kernel) rfl
      (by decide +kernel) hs hok
    refine ⟨hbefore,hreserved,s',hs',hshort.trans ?_⟩
    have heq : s.tentativeReserved = 50 := by
      rw [← hbefore,AccountManager.getTentativeReserved]
      exact (congrArg (Option.elim · 0 AccountState.tentativeReserved) hs).symm
    rw [heq]
    exact congrArg (50-·-50) hreserved

end Tasks
end Gateway
end HighPerfTrading
