import HighPerfTrading.Gateway.CarriedOut

/-! Commands that pass the gateway's checks but do not reach an engine: when their handling leaves the
accounts and both maps of tracked orders as they were. -/
namespace HighPerfTrading
namespace Gateway
namespace GatewayContext
variable {g : GatewayContext} {connId : UInt64} {client : Client}

/-- The funds of all accounts, the global map and the connection's own map are the same. -/
structure Restored (g g' : GatewayContext) (connId : UInt64) : Prop where
  funds : ∀ a : AccountId, (g'.accountManager.accounts[a]?).map (fun s => (s.tentativeReserved,s.buyingPower)) =
    (g.accountManager.accounts[a]?).map fun s => (s.tentativeReserved,s.buyingPower)
  pending : g'.pendingOrders = g.pendingOrders
  tracked : ∀ id, g'.localOrder connId id = g.localOrder connId id

def orderToken (no : NewOrder) : ReservationToken :=
  ⟨no.accountId,no.symbolId,AccountManager.orderRequired no,no.orderId⟩

def replaceToken (r : Replace) : ReservationToken :=
  ⟨r.accountId,r.symbolId,r.newPrice*r.newQty,r.orderId⟩

/-- What the handling would write is there already: the entry of a new order, which is then tracked nowhere
else; the entries of a replacement, of an order that reserves nothing; the state of an order that is not
being cancelled. -/
def WritesNothing (g : GatewayContext) (connId : UInt64) : Command → Prop
  | .newOrder no => g.pendingOrders[no.orderId]? = some ⟨orderToken no,no.side,.active,connId⟩ ∧
    g.localOrder connId no.orderId = none
  | .replace r => ∀ md, g.pendingOrders[r.orderId]? = some md → md.reservationToken.amount = 0 ∧
    ∀ x, g.localOrder connId r.orderId = some x → x = (replaceToken r,x.2.1,.active) ∧
      md = ⟨replaceToken r,if x.2.1 then .buy else .sell,.active,connId⟩
  | .cancel c => (∀ md, g.pendingOrders[c.orderId]? = some md → md.operation = .active) ∧
    ∀ x, g.localOrder connId c.orderId = some x → x.2.2 = .active
  | _ => True

/-! ### Maps -/

theorem clients_updateLocal (hc : g.clients[connId]? = some client)
    (f : OrdMap OrderId (ReservationToken × Bool × PendingOperation) →
      OrdMap OrderId (ReservationToken × Bool × PendingOperation)) :
    (g.updateLocal connId f).clients[connId]? = some { client with pendingOrders := f client.pendingOrders } := by
  unfold updateLocal
  rw [hc]
  simp

theorem get_localInsert (hc : g.clients[connId]? = some client) (i id : OrderId)
    (v : ReservationToken × Bool × PendingOperation) :
    (g.updateLocal connId (·.insert i v)).localOrder connId id = if i = id then some v else g.localOrder connId id := by
  rw [localOrder_updateLocal,if_pos rfl,localOrder,hc,Option.bind_some,OrdMap.get_insert]
  rfl

theorem get_localErase (hc : g.clients[connId]? = some client) (i id : OrderId) :
    (g.updateLocal connId (·.erase i)).localOrder connId id = if i = id then none else g.localOrder connId id := by
  rw [localOrder_updateLocal,if_pos rfl,localOrder,hc,Option.bind_some,OrdMap.get_erase]
  rfl

theorem localOrder_setOperation (g : GatewayContext) (connId : UInt64) (id i : OrderId) (op : PendingOperation) :
    (g.setOperation connId id op).localOrder connId i =
      if id = i then (g.localOrder connId id).map fun x => (x.1,x.2.1,op) else g.localOrder connId i := by
  cases hl : g.localOrder connId id with
  | none =>
    rw [localOrder_untouched op hl]
    split_ifs with hi
    · rw [← hi]; exact hl
    · rfl
  | some x =>
    obtain ⟨client,hc,-⟩ := Option.bind_eq_some_iff.mp hl
    rw [localOrder_touched op hl,get_localInsert hc]
    rfl

/-! ### The three commands -/

/-- A release undoes the reservation of a new order. -/
theorem funds_order {m m' : AccountManager} {no : NewOrder} {token : ReservationToken}
    (h : m.checkAndReserveOrder no = .ok (token,m')) (a : AccountId) :
    ((m'.releaseReservation token).accounts[a]?) = m.accounts[a]? := by
  obtain ⟨state,hs,rfl,rfl⟩ := AccountManager.checkAndReserveOrder_ok h
  rw [AccountManager.accounts_releaseReservation,AccountManager.accounts_put]
  by_cases ha : no.accountId = a
  · subst ha
    simp [hs]
  · simp [ha,Ne.symm ha]

/-- After a replacement it leaves the account without what the old order had reserved. -/
theorem funds_replace {m m' : AccountManager} {old token : ReservationToken} {r : Replace}
    (h : m.adjustReservation old r = .ok (token,m')) (a : AccountId) :
    ((m'.releaseReservation token).accounts[a]?) = (m.accounts[a]?).map fun s =>
      if a = r.accountId then { s with tentativeReserved := s.tentativeReserved-old.amount } else s := by
  obtain ⟨state,hs,rfl,rfl⟩ := AccountManager.adjustReservation_ok h
  rw [AccountManager.accounts_releaseReservation,AccountManager.accounts_put]
  by_cases ha : r.accountId = a
  · subst ha
    simp [hs]
  · simp [ha,Ne.symm ha]

theorem clients_track (hc : g.clients[connId]? = some client) (id : OrderId) (token : ReservationToken) (isBuy : Bool) :
    (g.track connId id token isBuy).clients[connId]? =
      some { client with pendingOrders := client.pendingOrders.insert id (token,isBuy,.active) } :=
  clients_updateLocal hc _

theorem localOrder_track (hc : g.clients[connId]? = some client) (id i : OrderId) (token : ReservationToken) (isBuy : Bool) :
    (g.track connId id token isBuy).localOrder connId i =
      if id = i then some (token,isBuy,.active) else g.localOrder connId i := get_localInsert hc id i _

theorem newOrder_restored (hc : g.clients[connId]? = some client) (hs : (g.sessions[connId]?).isSome) (no : NewOrder)
    {token : ReservationToken} {m : AccountManager} (h : g.accountManager.checkAndReserve (.newOrder no) = .ok (token,m)) :
    Restored g (g.handleCommand connId (.newOrder no) false).1 connId ↔ WritesNothing g connId (.newOrder no) := by
  obtain ⟨-,-,htoken,-⟩ := AccountManager.checkAndReserveOrder_ok h
  obtain ⟨hfunds,hpending,htracked⟩ := (({ g with accountManager := m } : GatewayContext).track connId no.orderId token
    (decide (no.side = .buy))).route_failed connId (.newOrder no) token
  rw [← handleCommand_newOrder hs h] at hfunds hpending htracked
  have hpending' : (g.handleCommand connId (.newOrder no) false).1.pendingOrders =
      g.pendingOrders.insert no.orderId ⟨token,no.side,.active,connId⟩ := by
    rw [hpending,pendingOrders_track,side_of_decide]
  have htracked' : ∀ id, (g.handleCommand connId (.newOrder no) false).1.localOrder connId id =
      if no.orderId = id then none else g.localOrder connId id := by
    intro id
    refine (htracked id).trans ?_
    simp only
    rw [get_localErase (clients_track (g := { g with accountManager := m }) hc _ _ _),
      localOrder_track (g := { g with accountManager := m }) hc]
    split_ifs with hid
    · rfl
    · rfl
  constructor
  · intro hr
    refine ⟨?_,?_⟩
    · have hentry := OrdMap.insert_eq_self.mp (hpending'.symm.trans hr.pending)
      rw [hentry,htoken]; rfl
    · rw [← hr.tracked,htracked',if_pos rfl]
  · rintro ⟨hentry,hnone⟩
    refine ⟨fun a => ?_,?_,fun id => ?_⟩
    · rw [hfunds,accountManager_track,funds_order h]
    · rw [hpending',OrdMap.insert_eq_self,hentry,htoken]; rfl
    · rw [htracked']
      split_ifs with hid
      · rw [← hid,hnone]
      · rfl

theorem cancel_restored (hs : (g.sessions[connId]?).isSome) (c : Cancel) :
    Restored g (g.handleCommand connId (.cancel c) false).1 connId ↔ WritesNothing g connId (.cancel c) := by
  rw [handleCommand_cancel hs]
  have hpending : (g.handleCancel connId c false).1.pendingOrders =
      withOperation (withOperation g.pendingOrders c.orderId .cancelPending) c.orderId .active := by
    simp [handleCancel,reject]
  have htracked : ∀ id, (g.handleCancel connId c false).1.localOrder connId id =
      if c.orderId = id then (g.localOrder connId c.orderId).map fun x => (x.1,x.2.1,.active)
      else g.localOrder connId id := by
    intro id
    simp only [handleCancel,reject,Bool.false_eq_true,if_false,localOrder_bumpSeq,
      localOrder_setOperation]
    split_ifs <;> simp [Function.comp_def]
  have hget : ∀ id, (g.handleCancel connId c false).1.pendingOrders[id]? =
      (g.pendingOrders[id]?).map fun md => if id = c.orderId then { md with operation := .active } else md := by
    intro id
    rw [hpending,get_withOperation,get_withOperation,Option.map_map]
    refine congrArg (Option.map · _) (funext fun md => ?_)
    rw [Function.comp_apply]
    split_ifs <;> rfl
  constructor
  · intro hr
    refine ⟨fun md hmd => ?_,fun x hx => ?_⟩
    · have hsame := hget c.orderId
      rw [hr.pending,hmd,Option.map_some,if_pos rfl] at hsame
      rw [Option.some.inj hsame]
    · have hsame := htracked c.orderId
      rw [hr.tracked,if_pos rfl,hx,Option.map_some] at hsame
      rw [Option.some.inj hsame]
  · rintro ⟨hglobal,hlocal⟩
    refine ⟨fun a => ?_,OrdMap.ext fun id => ?_,fun id => ?_⟩
    · simp [handleCancel,reject]
    · rw [hget]
      by_cases hid : id = c.orderId
      · subst hid
        cases hmd : g.pendingOrders[c.orderId]? with
        | none => rfl
        | some md => rw [Option.map_some,if_pos rfl,← hglobal md hmd]
      · simp [hid]
    · rw [htracked]
      split_ifs with hid
      · subst hid
        cases hx : g.localOrder connId c.orderId with
        | none => rfl
        | some x => rw [Option.map_some,← hlocal x hx]
      · rfl

theorem replace_restored (hc : g.clients[connId]? = some client) (hs : (g.sessions[connId]?).isSome) (r : Replace)
    {md : OrderMetadata} {token : ReservationToken} {m : AccountManager} (hmd : g.pendingOrders[r.orderId]? = some md)
    (h : g.accountManager.adjustReservation md.reservationToken r = .ok (token,m)) :
    Restored g (g.handleCommand connId (.replace r) false).1 connId ↔ WritesNothing g connId (.replace r) := by
  obtain ⟨state,hstate,htoken,-⟩ := AccountManager.adjustReservation_ok h
  have hmoney := funds_replace h
  -- the funds are the same exactly when the old order reserved nothing
  have hfunds : ∀ g' : GatewayContext, (∀ a : AccountId, g'.accountManager.accounts[a]? =
      (m.releaseReservation token).accounts[a]?) → ((∀ a : AccountId,
        (g'.accountManager.accounts[a]?).map (fun s => (s.tentativeReserved,s.buyingPower)) =
          (g.accountManager.accounts[a]?).map fun s => (s.tentativeReserved,s.buyingPower)) ↔
        md.reservationToken.amount = 0) := by
    intro g' hg'
    simp only [hg',hmoney,Option.map_map]
    constructor
    · intro hsame
      have hown := hsame r.accountId
      rw [hstate,Option.map_some,Option.map_some,Function.comp_apply,if_pos rfl] at hown
      exact sub_eq_self.mp (Prod.mk.inj (Option.some.inj hown)).1
    · intro hzero a
      refine congrArg (Option.map · _) (funext fun s => ?_)
      rw [Function.comp_apply,hzero,sub_zero]
      split_ifs <;> rfl
  cases hl : g.localOrder connId r.orderId with
  | none =>
    obtain ⟨hrelease,hpending,htracked⟩ := ({ g with accountManager := m } : GatewayContext).route_failed connId
      (.replace r) token
    rw [← handleCommand_unknown hs hmd h hl] at hrelease hpending htracked
    constructor
    · intro hr md' hmd'
      obtain rfl := Option.some.inj (hmd.symm.trans hmd')
      exact ⟨(hfunds _ hrelease).mp hr.funds,fun x hx => by rw [hl] at hx; cases hx⟩
    · intro hw
      exact ⟨(hfunds _ hrelease).mpr (hw md hmd).1,hpending,htracked⟩
  | some x =>
    obtain ⟨hrelease,hpending,htracked⟩ := (({ g with accountManager := m } : GatewayContext).track connId r.orderId
      token x.2.1).route_failed connId (.replace r) token
    rw [← handleCommand_known hs hmd h hl] at hrelease hpending htracked
    rw [accountManager_track] at hrelease
    rw [pendingOrders_track] at hpending
    have htracked' : ∀ id, (g.handleCommand connId (.replace r) false).1.localOrder connId id =
        if r.orderId = id then some (token,x.2.1,.active) else g.localOrder connId id :=
      fun id => (htracked id).trans (localOrder_track (g := { g with accountManager := m }) hc _ _ _ _)
    have htoken' : token = replaceToken r := htoken
    constructor
    · intro hr md' hmd'
      obtain rfl := Option.some.inj (hmd.symm.trans hmd')
      refine ⟨(hfunds _ hrelease).mp hr.funds,fun y hy => ?_⟩
      obtain rfl := Option.some.inj (hl.symm.trans hy)
      have hown := htracked' r.orderId
      rw [hr.tracked,hl,if_pos rfl,htoken'] at hown
      have hentry := OrdMap.insert_eq_self.mp (hpending.symm.trans hr.pending)
      rw [hmd,htoken'] at hentry
      exact ⟨Option.some.inj hown,Option.some.inj hentry⟩
    · intro hw
      obtain ⟨hzero,hlocal⟩ := hw md hmd
      obtain ⟨hx,hentry⟩ := hlocal x hl
      refine ⟨(hfunds _ hrelease).mpr hzero,?_,fun id => ?_⟩
      · rw [hpending,htoken']
        exact OrdMap.insert_eq_self.mpr (hmd.trans (congrArg some hentry))
      · rw [htracked']
        split_ifs with hid
        · rw [← hid,hl,htoken',← hx]
        · rfl

/-- When a NewOrder, Cancel or Replace is not routed, its handling leaves everything as it was exactly if it
has nothing to write. -/
theorem routing_failure_iff (hc : g.clients[connId]? = some client) {cmd : Command} (h : ReachesRouter g connId cmd) :
    Restored g (g.handleCommand connId cmd false).1 connId ↔ WritesNothing g connId cmd := by
  obtain ⟨hs,hcmd⟩ := h
  cases cmd with
  | newOrder no =>
    obtain ⟨⟨token,m⟩,hok⟩ := hcmd
    exact newOrder_restored hc hs no hok
  | cancel c => exact cancel_restored hs c
  | replace r =>
    obtain ⟨md,⟨token,m⟩,hmd,hok⟩ := hcmd
    exact replace_restored hc hs r hmd hok
  | setRiskLimits srl => exact hcmd.elim
  | queryAccount qa => exact hcmd.elim
  | authenticate auth => exact hcmd.elim

/-- One account with 1000 to spend, authenticated on connection 1. -/
def oneAccount : GatewayContext where
  accountManager := AccountManager.new.createAccount 7 1000
  apiKeys := ∅
  sessions := (∅ : OrdMap UInt64 AccountId).insert 1 7
  pendingOrders := ∅
  clients := (∅ : OrdMap UInt64 Client).insert 1 ⟨fun _ => none,∅⟩
  nextConnId := 2

/-- A buy for 50 that is tracked already. -/
def oneOrder : GatewayContext := (oneAccount.handleCommand 1 (.newOrder ⟨1,3,7,1,.buy,10,5,.gtc,⟨false⟩⟩) true).1

theorem failedCancel_restored : Restored oneOrder (oneOrder.handleCommand 1 (.cancel ⟨2,3,7,1⟩) false).1 1 := by
  have hentry : oneOrder.pendingOrders[(3 : OrderId)]? = some ⟨⟨7,1,50,3⟩,.buy,.active,1⟩ := by decide +kernel
  have hlocal : oneOrder.localOrder 1 3 = some (⟨7,1,50,3⟩,true,.active) := by decide +kernel
  have hclient : oneOrder.clients[(1 : UInt64)]? =
      some ⟨fun _ => none,(∅ : OrdMap OrderId _).insert 3 (⟨7,1,50,3⟩,true,.active)⟩ := rfl
  refine (routing_failure_iff hclient ⟨by decide +kernel,trivial⟩).mpr ⟨fun md hmd => ?_,fun x hx => ?_⟩
  · rw [← Option.some.inj (hentry.symm.trans hmd)]
  · rw [← Option.some.inj (hlocal.symm.trans hx)]

/-- A new order that is not routed stays in the global map; a replacement that is not routed gives up the
reservation of the order, which the engine still has, and tracks what the replacement would reserve. -/
theorem failedOrder_left :
    ReachesRouter oneAccount 1 (.newOrder ⟨1,3,7,1,.buy,10,5,.gtc,⟨false⟩⟩) ∧
    ¬ Restored oneAccount (oneAccount.handleCommand 1 (.newOrder ⟨1,3,7,1,.buy,10,5,.gtc,⟨false⟩⟩) false).1 1 ∧
    ReachesRouter oneOrder 1 (.replace ⟨2,3,7,1,10,8⟩) ∧
    ¬ Restored oneOrder (oneOrder.handleCommand 1 (.replace ⟨2,3,7,1,10,8⟩) false).1 1 := by
  refine ⟨⟨by decide +kernel,_,rfl⟩,fun h => ?_,⟨by decide +kernel,_,_,rfl,rfl⟩,fun h => ?_⟩
  · have hleft :
        (oneAccount.handleCommand 1 (.newOrder ⟨1,3,7,1,.buy,10,5,.gtc,⟨false⟩⟩) false).1.pendingOrders[(3 : OrderId)]? =
          some ⟨⟨7,1,50,3⟩,.buy,.active,1⟩ := by decide +kernel
    rw [h.pending] at hleft
    exact absurd hleft (by decide +kernel)
  · have hfunds := h.funds 7
    exact absurd hfunds (by decide +kernel)

end GatewayContext
end Gateway
end HighPerfTrading
