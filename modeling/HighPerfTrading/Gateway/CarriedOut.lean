import HighPerfTrading.Gateway.FrameEffect

/-! Which commands get past the checks of the gateway, and what these are handled as. The others touch no
account and no entry. -/
namespace HighPerfTrading
namespace Gateway
namespace GatewayContext
variable {g : GatewayContext} {connId : UInt64} {routed : Bool}

/-- The command gets as far as the router. -/
def ReachesRouter (g : GatewayContext) (connId : UInt64) (cmd : Command) : Prop :=
  (g.sessions[connId]?).isSome ∧ match cmd with
    | .newOrder no => ∃ p, g.accountManager.checkAndReserve (.newOrder no) = .ok p
    | .replace r => ∃ md p, g.pendingOrders[r.orderId]? = some md ∧
      g.accountManager.adjustReservation md.reservationToken r = .ok p
    | .cancel _ => True
    | _ => False

/-- The command gets as far as the router, or reaches an engine with limits. -/
def Carries (g : GatewayContext) (connId : UInt64) (cmd : Command) (routed : Bool) : Prop :=
  g.ReachesRouter connId cmd ∨ routed ∧ (g.sessions[connId]?).isSome ∧ ∃ srl, cmd = .setRiskLimits srl

theorem Carries.session {cmd : Command} (h : g.Carries connId cmd routed) : (g.sessions[connId]?).isSome := by
  rcases h with ⟨hs,-⟩ | ⟨-,hs,-⟩ <;> exact hs

/-- No account and no order of a map is touched, and nothing is sent. -/
structure Quiet (g : GatewayContext) (h : Handled) : Prop where
  accounts : ∀ a : AccountId, h.1.accountManager.accounts[a]? = g.accountManager.accounts[a]?
  pending : h.1.pendingOrders = g.pendingOrders
  clients : h.1.clients = g.clients
  out : h.2.1 = none

theorem quiet_reject (g : GatewayContext) (cs : UInt64) (id : Option OrderId) (reason : RejectReason) :
    g.Quiet (g.reject cs id reason) := ⟨fun _ => rfl,rfl,rfl,rfl⟩

/-! ### Tracking and routing -/

@[simp] theorem pendingOrders_track (g : GatewayContext) (connId : UInt64) (id : OrderId) (token : ReservationToken)
    (isBuy : Bool) : (g.track connId id token isBuy).pendingOrders =
      g.pendingOrders.insert id ⟨token,if isBuy then .buy else .sell,.active,connId⟩ := rfl

@[simp] theorem accountManager_track (g : GatewayContext) (connId : UInt64) (id : OrderId) (token : ReservationToken)
    (isBuy : Bool) : (g.track connId id token isBuy).accountManager = g.accountManager :=
  accountManager_updateLocal _ g connId

/-- Bumping the sequence counter first changes nothing. -/
theorem release_bumpSeq (m : AccountManager) (token : ReservationToken) (a : AccountId) :
    (m.nextSeq.2.releaseReservation token).accounts[a]? = (m.releaseReservation token).accounts[a]? := by
  rw [AccountManager.accounts_releaseReservation,AccountManager.accounts_releaseReservation]
  rfl

/-- What a command that reserves leaves behind when it is not routed. -/
theorem route_failed (g : GatewayContext) (connId : UInt64) (cmd : Command) (token : ReservationToken) :
    (∀ a : AccountId, (g.route connId cmd token false).1.accountManager.accounts[a]? =
        (g.accountManager.releaseReservation token).accounts[a]?) ∧
      (g.route connId cmd token false).1.pendingOrders = g.pendingOrders ∧
      ∀ id, (g.route connId cmd token false).1.localOrder connId id = match cmd with
        | .newOrder no => (g.updateLocal connId (·.erase no.orderId)).localOrder connId id
        | _ => g.localOrder connId id := by
  have hrelease := release_bumpSeq g.accountManager token
  cases cmd with
  | newOrder no =>
    refine ⟨fun a => ?_,?_,fun id => ?_⟩
    · simp only [route,reject,Bool.false_eq_true,if_false,accounts_bumpSeq,accountManager_updateLocal]
      exact hrelease a
    · simp only [route,reject,Bool.false_eq_true,if_false,pendingOrders_bumpSeq,pendingOrders_updateLocal]
    · simp only [route,reject,Bool.false_eq_true,if_false,localOrder_bumpSeq,localOrder_updateLocal]
      rfl
  | _ => exact ⟨hrelease,rfl,fun _ => rfl⟩

/-! ### Handling -/

section Handling
variable (hs : (g.sessions[connId]?).isSome)
include hs

theorem handleCommand_newOrder {no : NewOrder} {token : ReservationToken} {m : AccountManager}
    (hok : g.accountManager.checkAndReserve (.newOrder no) = .ok (token,m)) :
    g.handleCommand connId (.newOrder no) routed =
      (({ g with accountManager := m } : GatewayContext).track connId no.orderId token (decide (no.side = .buy))).route
        connId (.newOrder no) token routed := by
  have hsession : ¬ (g.sessions[connId]?).isNone := by simpa using hs
  simp only [handleCommand,if_neg hsession]
  exact newOrder_reserved connId routed hok

theorem handleCommand_cancel (c : Cancel) :
    g.handleCommand connId (.cancel c) routed = g.handleCancel connId c routed := by
  have hsession : ¬ (g.sessions[connId]?).isNone := by simpa using hs
  simp only [handleCommand,if_neg hsession]

theorem handleCommand_limits (srl : SetRiskLimits) : g.handleCommand connId (.setRiskLimits srl) routed =
    g.route connId (.setRiskLimits srl) ⟨srl.accountId,srl.symbolId,0,0⟩ routed := by
  have hsession : ¬ (g.sessions[connId]?).isNone := by simpa using hs
  simp only [handleCommand,if_neg hsession]
  rfl

section Replacing
variable {r : Replace} {md : OrderMetadata} {token : ReservationToken} {m : AccountManager}
  (hmd : g.pendingOrders[r.orderId]? = some md)
  (hok : g.accountManager.adjustReservation md.reservationToken r = .ok (token,m))
include hmd hok

/-- A replacement on a connection that does not know the order. -/
theorem handleCommand_unknown (hl : g.localOrder connId r.orderId = none) :
    g.handleCommand connId (.replace r) routed =
      ({ g with accountManager := m } : GatewayContext).route connId (.replace r) token routed := by
  have hsession : ¬ (g.sessions[connId]?).isNone := by simpa using hs
  simp only [handleCommand,if_neg hsession]
  rw [replace_reserved connId routed hmd hok,hl]

/-- A replacement on a connection that tracks the order. -/
theorem handleCommand_known {x : ReservationToken × Bool × PendingOperation}
    (hl : g.localOrder connId r.orderId = some x) : g.handleCommand connId (.replace r) routed =
      (({ g with accountManager := m } : GatewayContext).track connId r.orderId token x.2.1).route connId (.replace r)
        token routed := by
  have hsession : ¬ (g.sessions[connId]?).isNone := by simpa using hs
  simp only [handleCommand,if_neg hsession]
  rw [replace_reserved connId routed hmd hok,hl]

end Replacing
end Handling

/-- What the commands that get past the checks are handled as. -/
inductive CarriedOut (g : GatewayContext) (connId : UInt64) (routed : Bool) : Command → Handled → Prop
  | ordered (no : NewOrder) (token : ReservationToken) (m : AccountManager)
      (hok : g.accountManager.checkAndReserve (.newOrder no) = .ok (token,m)) :
      CarriedOut g connId routed (.newOrder no)
        ((({ g with accountManager := m } : GatewayContext).track connId no.orderId token (decide (no.side = .buy))).route
          connId (.newOrder no) token routed)
  | cancelling (c : Cancel) : CarriedOut g connId routed (.cancel c) (g.handleCancel connId c routed)
  | unknown (r : Replace) (md : OrderMetadata) (token : ReservationToken) (m : AccountManager)
      (hmd : g.pendingOrders[r.orderId]? = some md)
      (hok : g.accountManager.adjustReservation md.reservationToken r = .ok (token,m))
      (hl : g.localOrder connId r.orderId = none) : CarriedOut g connId routed (.replace r)
        (({ g with accountManager := m } : GatewayContext).route connId (.replace r) token routed)
  | known (r : Replace) (md : OrderMetadata) (token : ReservationToken) (m : AccountManager)
      (x : ReservationToken × Bool × PendingOperation) (hmd : g.pendingOrders[r.orderId]? = some md)
      (hok : g.accountManager.adjustReservation md.reservationToken r = .ok (token,m))
      (hl : g.localOrder connId r.orderId = some x) : CarriedOut g connId routed (.replace r)
        ((({ g with accountManager := m } : GatewayContext).track connId r.orderId token x.2.1).route connId (.replace r)
          token routed)
  | limits (srl : SetRiskLimits) (hr : routed = true) : CarriedOut g connId routed (.setRiskLimits srl)
      (g.route connId (.setRiskLimits srl) ⟨srl.accountId,srl.symbolId,0,0⟩ routed)

theorem Carries.carriedOut {cmd : Command} (h : g.Carries connId cmd routed) :
    g.CarriedOut connId routed cmd (g.handleCommand connId cmd routed) := by
  rcases h with ⟨hs,hcmd⟩ | ⟨hr,hs,srl,rfl⟩
  · cases cmd with
    | newOrder no =>
      obtain ⟨⟨token,m⟩,hok⟩ := hcmd
      rw [handleCommand_newOrder hs hok]
      exact .ordered no token m hok
    | cancel c =>
      rw [handleCommand_cancel hs]
      exact .cancelling c
    | replace r =>
      obtain ⟨md,⟨token,m⟩,hmd,hok⟩ := hcmd
      cases hl : g.localOrder connId r.orderId with
      | none =>
        rw [handleCommand_unknown hs hmd hok hl]
        exact .unknown r md token m hmd hok hl
      | some x =>
        rw [handleCommand_known hs hmd hok hl]
        exact .known r md token m x hmd hok hl
    | setRiskLimits srl => exact hcmd.elim
    | queryAccount qa => exact hcmd.elim
    | authenticate auth => exact hcmd.elim
  · rw [handleCommand_limits hs]
    exact .limits srl hr

/-- A command that goes no further than the checks is quiet. -/
theorem handleCommand_quiet {cmd : Command} (h : ¬ g.Carries connId cmd routed) :
    g.Quiet (g.handleCommand connId cmd routed) := by
  obtain ⟨hr,hl⟩ := not_or.mp h
  cases cmd with
  | queryAccount q =>
    simp only [handleCommand,handleQueryAccount]
    cases g.accountManager.accounts[q.accountId]? with
    | none => exact g.quiet_reject ..
    | some state => exact ⟨fun _ => rfl,rfl,rfl,rfl⟩
  | authenticate auth =>
    simp only [handleCommand,handleAuthenticate]
    cases g.apiKeys[auth.apiKey]? with
    | none => exact ⟨fun _ => rfl,rfl,rfl,rfl⟩
    | some accountId => exact ⟨fun _ => rfl,rfl,rfl,rfl⟩
  | cancel c =>
    simp only [handleCommand]
    split_ifs with hs
    · exact g.quiet_reject ..
    · exact absurd ⟨by simpa using hs,trivial⟩ hr
  | setRiskLimits srl =>
    simp only [handleCommand]
    split_ifs with hs
    · exact g.quiet_reject ..
    · cases routed with
      | true => exact absurd ⟨rfl,by simpa using hs,srl,rfl⟩ hl
      | false =>
        obtain ⟨hfunds,hpending,-⟩ := g.route_failed connId (.setRiskLimits srl) ⟨srl.accountId,srl.symbolId,0,0⟩
        refine ⟨fun a => (hfunds a).trans ?_,hpending,rfl,rfl⟩
        rw [AccountManager.accounts_releaseReservation]
        simp
  | newOrder no =>
    simp only [handleCommand]
    split_ifs with hs
    · exact g.quiet_reject ..
    · cases hok : g.accountManager.checkAndReserve (.newOrder no) with
      | error violation =>
        rw [newOrder_refused connId routed hok]
        exact g.quiet_reject ..
      | ok p => exact absurd ⟨by simpa using hs,p,hok⟩ hr
  | replace r =>
    simp only [handleCommand]
    split_ifs with hs
    · exact g.quiet_reject ..
    · cases hmd : g.pendingOrders[r.orderId]? with
      | none =>
        simp only [handleReplace,hmd]
        exact g.quiet_reject ..
      | some md =>
        cases hok : g.accountManager.adjustReservation md.reservationToken r with
        | error violation =>
          rw [replace_refused connId routed hmd hok]
          exact g.quiet_reject ..
        | ok p => exact absurd ⟨by simpa using hs,md,p,hmd,hok⟩ hr

theorem route_out {g' : GatewayContext} {cmd : Command} {token : ReservationToken} {x : ExecuteCommand}
    (h : (g'.route connId cmd token routed).2.1 = some x) : x.command = cmd ∧ x.connId = connId := by
  cases routed with
  | true => obtain rfl := Option.some.inj h; exact ⟨rfl,rfl⟩
  | false => cases h

/-- Only commands that are carried out reach the engine. -/
theorem carries_of_sent {cmd : Command} {x : ExecuteCommand} (h : (g.handleCommand connId cmd routed).2.1 = some x) :
    g.Carries connId cmd routed := by
  by_contra hquiet
  rw [(handleCommand_quiet hquiet).out] at h
  cases h

/-- What goes to the engine is the command that was read, on behalf of an authenticated
connection. -/
theorem handleCommand_out {cmd : Command} {x : ExecuteCommand} (h : (g.handleCommand connId cmd routed).2.1 = some x) :
    x.command = cmd ∧ x.connId = connId ∧ (g.sessions[connId]?).isSome := by
  have hcarries := carries_of_sent h
  suffices hgoal : x.command = cmd ∧ x.connId = connId from ⟨hgoal.1,hgoal.2,hcarries.session⟩
  have hcarried := hcarries.carriedOut
  generalize g.handleCommand connId cmd routed = handled at h hcarried
  cases hcarried with
  | ordered no token m hok => exact route_out h
  | cancelling c =>
    cases routed with
    | true => obtain rfl := Option.some.inj h; exact ⟨rfl,rfl⟩
    | false => cases h
  | unknown r md token m hmd hok hl => exact route_out h
  | known r md token m y hmd hok hl => exact route_out h
  | limits srl hr => exact route_out h

/-! ### Where tracked orders come from -/

/-- An entry after a command: it was there before, perhaps with another operation, or the command wrote it with the
token of its reservation. -/
inductive EntryOrigin (g : GatewayContext) (connId : UInt64) (id : OrderId) (md : OrderMetadata) : Command → Prop
  | stays (cmd : Command) (old : OrderMetadata) (hold : g.pendingOrders[id]? = some old)
      (hmd : md = { old with operation := md.operation }) : EntryOrigin g connId id md cmd
  | ordered (no : NewOrder) (hid : id = no.orderId) (hacct : md.reservationToken.accountId = no.accountId)
      (hside : md.side = no.side) (hconn : md.connId = connId) : EntryOrigin g connId id md (.newOrder no)
  | replaced (r : Replace) (old : OrderMetadata) (p : ReservationToken × AccountManager)
      (x : ReservationToken × Bool × PendingOperation) (hid : id = r.orderId) (hold : g.pendingOrders[id]? = some old)
      (hok : g.accountManager.adjustReservation old.reservationToken r = .ok p)
      (hl : g.localOrder connId id = some x) (hacct : md.reservationToken.accountId = r.accountId)
      (hside : md.side = if x.2.1 then .buy else .sell) (hconn : md.connId = connId) :
      EntryOrigin g connId id md (.replace r)

theorem pendingOrders_route (g : GatewayContext) (connId : UInt64) (cmd : Command) (token : ReservationToken)
    (routed : Bool) : (g.route connId cmd token routed).1.pendingOrders = g.pendingOrders := by
  cases routed with
  | true => rfl
  | false => exact (g.route_failed connId cmd token).2.1

theorem get_handleCancel (g : GatewayContext) (connId : UInt64) (c : Cancel) (routed : Bool) (id : OrderId) :
    (g.handleCancel connId c routed).1.pendingOrders[id]? = (g.pendingOrders[id]?).map fun md =>
      if id = c.orderId then { md with operation := if routed then .cancelPending else .active } else md := by
  cases routed with
  | true => simp [handleCancel,get_withOperation]
  | false =>
    simp only [handleCancel,Bool.false_eq_true,if_false,reject,pendingOrders_bumpSeq,pendingOrders_setOperation,
      get_withOperation,Option.map_map]
    refine congrArg (Option.map · _) (funext fun md => ?_)
    rw [Function.comp_apply]
    split_ifs <;> rfl

theorem entryOrigin {cmd : Command} {id : OrderId} {md : OrderMetadata}
    (h : (g.handleCommand connId cmd routed).1.pendingOrders[id]? = some md) : g.EntryOrigin connId id md cmd := by
  by_cases hcarries : g.Carries connId cmd routed
  · have hcarried := hcarries.carriedOut
    generalize g.handleCommand connId cmd routed = handled at h hcarried
    cases hcarried with
    | ordered no token m hok =>
      obtain ⟨_,-,rfl,-⟩ := AccountManager.checkAndReserveOrder_ok hok
      rw [pendingOrders_route,pendingOrders_track,OrdMap.get_insert] at h
      by_cases hid : no.orderId = id
      · rw [if_pos hid] at h
        obtain rfl := Option.some.inj h
        exact .ordered no hid.symm rfl (side_of_decide no.side) rfl
      · rw [if_neg hid] at h
        exact .stays _ md h rfl
    | cancelling c =>
      rw [get_handleCancel] at h
      obtain ⟨old,hold,rfl⟩ := Option.map_eq_some_iff.mp h
      refine .stays _ old hold ?_
      split_ifs <;> rfl
    | unknown r old token m hold hok hl =>
      rw [pendingOrders_route] at h
      exact .stays _ md h rfl
    | known r old token m x hold hok hl =>
      have htoken := hok
      obtain ⟨_,-,rfl,-⟩ := AccountManager.adjustReservation_ok htoken
      rw [pendingOrders_route,pendingOrders_track,OrdMap.get_insert] at h
      by_cases hid : r.orderId = id
      · subst hid
        rw [if_pos rfl] at h
        obtain rfl := Option.some.inj h
        exact .replaced r old _ x rfl hold hok hl rfl rfl rfl
      · rw [if_neg hid] at h
        exact .stays _ md h rfl
    | limits srl hr =>
      rw [pendingOrders_route] at h
      exact .stays _ md h rfl
  · rw [(handleCommand_quiet hcarries).pending] at h
    exact .stays _ md h rfl

theorem localOrder_route {g : GatewayContext} {cmd : Command} {token : ReservationToken} {c : UInt64} {id : OrderId}
    {x : ReservationToken × Bool × PendingOperation}
    (h : (g.route connId cmd token routed).1.localOrder c id = some x) : g.localOrder c id = some x := by
  cases routed with
  | true => exact h
  | false =>
    cases cmd with
    | newOrder no =>
      simp only [route,reject,Bool.false_eq_true,if_false,localOrder_bumpSeq] at h
      rw [localOrder_updateLocal] at h
      split_ifs at h with hc
      · obtain ⟨client,hclient,hx⟩ := Option.bind_eq_some_iff.mp h
        rw [OrdMap.get_erase] at hx
        split_ifs at hx
        rw [hc,localOrder]
        exact Option.bind_eq_some_iff.mpr ⟨client,hclient,hx⟩
      · exact h
    | _ => exact h

theorem localOrder_of_track {g : GatewayContext} {c : UInt64} {id i : OrderId} {token : ReservationToken} {isBuy : Bool}
    {x : ReservationToken × Bool × PendingOperation} (h : (g.track connId id token isBuy).localOrder c i = some x) :
    (c = connId ∧ i = id ∧ x = (token,isBuy,.active)) ∨ g.localOrder c i = some x :=
  localOrder_insert (g := g) h

/-- An order tracked on a connection after a command was tracked there before, on the same side, or is the command's. -/
theorem localOrigin {cmd : Command} {c : UInt64} {id : OrderId} {x : ReservationToken × Bool × PendingOperation}
    (h : (g.handleCommand connId cmd routed).1.localOrder c id = some x) :
    (∃ y, g.localOrder c id = some y ∧ x.2.1 = y.2.1) ∨
      ∃ no, cmd = .newOrder no ∧ c = connId ∧ id = no.orderId ∧ x.2.1 = decide (no.side = .buy) := by
  by_cases hcarries : g.Carries connId cmd routed
  · have hcarried := hcarries.carriedOut
    generalize g.handleCommand connId cmd routed = handled at h hcarried
    cases hcarried with
    | ordered no token m hok =>
      have htracked := localOrder_route h
      rcases localOrder_of_track htracked with ⟨hc,hid,rfl⟩ | hx
      · exact Or.inr ⟨no,rfl,hc,hid,rfl⟩
      · exact Or.inl ⟨x,hx,rfl⟩
    | cancelling c' =>
      refine Or.inl ?_
      cases routed with
      | true => exact localFrom_setOperation g connId c'.orderId .cancelPending c id x h
      | false =>
        have hback : ((g.setOperation connId c'.orderId .cancelPending).bumpSeq.setOperation connId c'.orderId
            .active).localOrder c id = some x := by
          simpa [handleCancel,reject] using h
        obtain ⟨y,hy,hxy⟩ := localFrom_setOperation _ connId c'.orderId .active c id x hback
        obtain ⟨z,hz,hyz⟩ := localFrom_setOperation g connId c'.orderId .cancelPending c id y hy
        exact ⟨z,hz,hxy.trans hyz⟩
    | unknown r old token m hold hok hl =>
      have hkept := localOrder_route h
      exact Or.inl ⟨x,hkept,rfl⟩
    | known r old token m y hold hok hl =>
      have htracked := localOrder_route h
      rcases localOrder_of_track htracked with ⟨rfl,rfl,rfl⟩ | hx
      · exact Or.inl ⟨y,hl,rfl⟩
      · exact Or.inl ⟨x,hx,rfl⟩
    | limits srl hr => exact Or.inl ⟨x,localOrder_route h,rfl⟩
  · refine Or.inl ⟨x,?_,rfl⟩
    rw [localOrder,(handleCommand_quiet hcarries).clients] at h
    exact h

end GatewayContext
end Gateway
end HighPerfTrading
