import HighPerfTrading.Gateway.ClientHandler

/-! What one frame does to the accounts and to the tracked orders when the engine of its symbol
is reached: one case for every outcome. -/
namespace HighPerfTrading
namespace Gateway
namespace GatewayContext
variable {g g' : GatewayContext} {connId : UInt64}

@[simp] theorem accounts_bumpSeq (g : GatewayContext) :
    g.bumpSeq.accountManager.accounts = g.accountManager.accounts := rfl
@[simp] theorem pendingOrders_bumpSeq (g : GatewayContext) : g.bumpSeq.pendingOrders = g.pendingOrders := rfl
@[simp] theorem localOrder_bumpSeq (g : GatewayContext) (c : UInt64) (id : OrderId) :
    g.bumpSeq.localOrder c id = g.localOrder c id := rfl

section UpdateLocal
variable (f : OrdMap OrderId (ReservationToken × Bool × PendingOperation) →
  OrdMap OrderId (ReservationToken × Bool × PendingOperation))

@[simp] theorem accountManager_updateLocal (g : GatewayContext) (connId : UInt64) :
    (g.updateLocal connId f).accountManager = g.accountManager := by
  unfold updateLocal
  cases g.clients[connId]? <;> rfl

@[simp] theorem pendingOrders_updateLocal (g : GatewayContext) (connId : UInt64) :
    (g.updateLocal connId f).pendingOrders = g.pendingOrders := by
  unfold updateLocal
  cases g.clients[connId]? <;> rfl

theorem localOrder_updateLocal (g : GatewayContext) (connId c : UInt64) (id : OrderId) :
    (g.updateLocal connId f).localOrder c id =
      if c = connId then (g.clients[connId]?).bind fun client => (f client.pendingOrders)[id]?
      else g.localOrder c id := by
  unfold updateLocal localOrder
  cases hc : g.clients[connId]? with
  | none =>
    split_ifs with h
    · rw [h,hc]; rfl
    · rfl
  | some client =>
    simp only [OrdMap.get_insert]
    split_ifs with h1 h2
    · rfl
    · exact absurd h1.symm h2
    · exact absurd (by assumption : c = connId).symm h1
    · rfl

end UpdateLocal

/-- Every order tracked on a connection was tracked there before, on the same side. -/
def LocalFrom (g g' : GatewayContext) : Prop :=
  ∀ c id x, g'.localOrder c id = some x → ∃ y, g.localOrder c id = some y ∧ x.2.1 = y.2.1

theorem LocalFrom.of_eq (h : ∀ c id, g'.localOrder c id = g.localOrder c id) : LocalFrom g g' :=
  fun c id x hx => ⟨x,(h c id).symm.trans hx,rfl⟩

theorem localOrder_insert {c : UInt64} {id orderId : OrderId} {v x : ReservationToken × Bool × PendingOperation}
    (h : (g.updateLocal connId (·.insert orderId v)).localOrder c id = some x) :
    (c = connId ∧ id = orderId ∧ x = v) ∨ g.localOrder c id = some x := by
  rw [localOrder_updateLocal] at h
  split_ifs at h with hc
  · obtain ⟨client,hclient,hx⟩ := Option.bind_eq_some_iff.mp h
    rw [OrdMap.get_insert] at hx
    split_ifs at hx with hid
    · exact Or.inl ⟨hc,hid.symm,(Option.some.inj hx).symm⟩
    · right
      rw [hc,localOrder,hclient]
      exact hx
  · exact Or.inr h

theorem localOrder_untouched {g : GatewayContext} {connId c : UInt64} {id i : OrderId} (op : PendingOperation)
    (h : g.localOrder connId id = none) : (g.setOperation connId id op).localOrder c i = g.localOrder c i := by
  unfold setOperation
  rw [h]
  rfl

theorem localOrder_touched {g : GatewayContext} {connId c : UInt64} {id i : OrderId} (op : PendingOperation)
    {x : ReservationToken × Bool × PendingOperation} (h : g.localOrder connId id = some x) :
    (g.setOperation connId id op).localOrder c i =
      (g.updateLocal connId (·.insert id (x.1,x.2.1,op))).localOrder c i := by
  unfold setOperation
  rw [h]
  rfl

theorem localFrom_setOperation (g : GatewayContext) (connId : UInt64) (id : OrderId) (op : PendingOperation) :
    LocalFrom g (g.setOperation connId id op) := by
  intro c id' x hx
  cases hl : g.localOrder connId id with
  | none =>
    rw [localOrder_untouched op hl] at hx
    exact ⟨x,hx,rfl⟩
  | some y =>
    rw [localOrder_touched op hl] at hx
    rcases localOrder_insert hx with ⟨rfl,rfl,rfl⟩ | hx
    · exact ⟨y,hl,rfl⟩
    · exact ⟨x,hx,rfl⟩

@[simp] theorem accountManager_setOperation (g : GatewayContext) (connId : UInt64) (id : OrderId)
    (op : PendingOperation) : (g.setOperation connId id op).accountManager = g.accountManager := by
  unfold setOperation
  cases g.localOrder connId id <;> simp

@[simp] theorem pendingOrders_setOperation (g : GatewayContext) (connId : UInt64) (id : OrderId)
    (op : PendingOperation) :
    (g.setOperation connId id op).pendingOrders = withOperation g.pendingOrders id op := by
  unfold setOperation
  cases g.localOrder connId id <;> simp

theorem get_withOperation (pending : OrdMap OrderId OrderMetadata) (id i : OrderId) (op : PendingOperation) :
    (withOperation pending id op)[i]? =
      (pending[i]?).map fun md => if i = id then { md with operation := op } else md := by
  unfold withOperation
  cases hm : pending[id]? with
  | none =>
    by_cases hi : i = id
    · simp [hi,hm]
    · simp [hi]
  | some md =>
    by_cases hi : id = i
    · subst hi; simp [hm]
    · simp [hi,Ne.symm hi]

/-- The outcomes of a frame: nothing but the sequence counter and the sessions; an order reserved
and tracked; a cancel; a replacement reserved, and tracked if its connection knows the order. -/
inductive FrameEffect (g g' : GatewayContext) (connId : UInt64) : Option ExecuteCommand → Prop
  | quiet (ha : g'.accountManager.accounts = g.accountManager.accounts)
      (hp : g'.pendingOrders = g.pendingOrders) (hl : LocalFrom g g') : FrameEffect g g' connId none
  | ordered (no : NewOrder) (token : ReservationToken) (am : AccountManager) (risk : RiskToken)
      (hok : g.accountManager.checkAndReserveOrder no = .ok (token,am))
      (ha : g'.accountManager.accounts = am.accounts)
      (hp : g'.pendingOrders = g.pendingOrders.insert no.orderId ⟨token,no.side,.active,connId⟩)
      (hl : ∀ c id x, g'.localOrder c id = some x →
        (c = connId ∧ id = no.orderId ∧ x.2.1 = decide (no.side = .buy)) ∨ g.localOrder c id = some x) :
      FrameEffect g g' connId (some ⟨.newOrder no,connId,risk⟩)
  | cancelling (c : Cancel) (risk : RiskToken)
      (ha : g'.accountManager.accounts = g.accountManager.accounts)
      (hp : g'.pendingOrders = withOperation g.pendingOrders c.orderId .cancelPending)
      (hl : LocalFrom g g') : FrameEffect g g' connId (some ⟨.cancel c,connId,risk⟩)
  | replacing (r : Replace) (md : OrderMetadata) (token : ReservationToken) (am : AccountManager)
      (risk : RiskToken) (hmd : g.pendingOrders[r.orderId]? = some md)
      (hok : g.accountManager.adjustReservation md.reservationToken r = .ok (token,am))
      (ha : g'.accountManager.accounts = am.accounts)
      (hp : g'.pendingOrders = match g.localOrder connId r.orderId with
        | some x => g.pendingOrders.insert r.orderId
          ⟨token,if x.2.1 then .buy else .sell,.active,connId⟩
        | none => g.pendingOrders)
      (hl : LocalFrom g g') : FrameEffect g g' connId (some ⟨.replace r,connId,risk⟩)

theorem reject_effect (g : GatewayContext) (connId cs : UInt64) (id : Option OrderId) (reason : RejectReason) :
    FrameEffect g (g.reject cs id reason).1 connId (g.reject cs id reason).2.1 :=
  .quiet rfl rfl (.of_eq fun _ _ => rfl)

theorem handleCancel_effect (g : GatewayContext) (connId : UInt64) (c : Cancel) :
    FrameEffect g (g.handleCancel connId c true).1 connId (g.handleCancel connId c true).2.1 := by
  refine .cancelling c _ ?_ ?_ ?_
  · simp [handleCancel]
  · simp [handleCancel]
  · exact localFrom_setOperation g connId c.orderId .cancelPending

theorem side_of_decide (s : Side) : (if decide (s = .buy) = true then Side.buy else .sell) = s := by
  cases s <;> rfl

theorem newOrder_refused {g : GatewayContext} {no : NewOrder} {violation : RiskViolation} (connId : UInt64) (routed : Bool)
    (h : g.accountManager.checkAndReserveOrder no = .error violation) :
    g.handleReserving connId (.newOrder no) routed = g.reject no.clientSeq (some no.orderId) .risk := by
  have hcheck : g.accountManager.checkAndReserve (.newOrder no) = .error violation := h
  simp only [handleReserving,hcheck]

theorem newOrder_reserved {g : GatewayContext} {no : NewOrder} {token : ReservationToken} {am : AccountManager}
    (connId : UInt64) (routed : Bool) (h : g.accountManager.checkAndReserveOrder no = .ok (token,am)) :
    g.handleReserving connId (.newOrder no) routed =
      (({ g with accountManager := am } : GatewayContext).track connId no.orderId token
        (decide (no.side = Side.buy))).route connId (.newOrder no) token routed := by
  have hcheck : g.accountManager.checkAndReserve (.newOrder no) = .ok (token,am) := h
  simp only [handleReserving,hcheck]

theorem replace_refused {g : GatewayContext} {r : Replace} {md : OrderMetadata} {violation : RiskViolation}
    (connId : UInt64) (routed : Bool) (hmd : g.pendingOrders[r.orderId]? = some md)
    (h : g.accountManager.adjustReservation md.reservationToken r = .error violation) :
    g.handleReplace connId r routed = g.reject r.clientSeq (some r.orderId) .risk := by
  simp only [handleReplace,hmd,h]

/-- A replacement is tracked if its connection knows the order. -/
theorem replace_reserved {g : GatewayContext} {r : Replace} {md : OrderMetadata} {token : ReservationToken}
    {am : AccountManager} (connId : UInt64) (routed : Bool) (hmd : g.pendingOrders[r.orderId]? = some md)
    (h : g.accountManager.adjustReservation md.reservationToken r = .ok (token,am)) :
    g.handleReplace connId r routed = (match g.localOrder connId r.orderId with
      | some x => ({ g with accountManager := am } : GatewayContext).track connId r.orderId token x.2.1
      | none => { g with accountManager := am }).route connId (.replace r) token routed := by
  have hlocal : ({ g with accountManager := am } : GatewayContext).localOrder connId r.orderId =
      g.localOrder connId r.orderId := rfl
  simp only [handleReplace,hmd,h,hlocal]
  cases g.localOrder connId r.orderId <;> rfl

theorem handleNewOrder_effect (g : GatewayContext) (connId : UInt64) (no : NewOrder) :
    FrameEffect g (g.handleReserving connId (.newOrder no) true).1 connId
      (g.handleReserving connId (.newOrder no) true).2.1 := by
  cases hok : g.accountManager.checkAndReserveOrder no with
  | error violation =>
    rw [newOrder_refused connId true hok]
    exact g.reject_effect ..
  | ok p =>
    obtain ⟨token,am⟩ := p
    rw [newOrder_reserved connId true hok]
    refine .ordered no token am _ hok ?_ ?_ ?_
    · simp [route,track]
    · simp only [route,track,pendingOrders_bumpSeq,if_true,side_of_decide]
    · intro c id x hx
      rcases localOrder_insert (g := { g with accountManager := am }) hx with ⟨rfl,rfl,rfl⟩ | hx
      · exact Or.inl ⟨rfl,rfl,rfl⟩
      · exact Or.inr hx

theorem handleReplace_effect (g : GatewayContext) (connId : UInt64) (r : Replace) :
    FrameEffect g (g.handleReplace connId r true).1 connId (g.handleReplace connId r true).2.1 := by
  cases hmd : g.pendingOrders[r.orderId]? with
  | none =>
    simp only [handleReplace,hmd]
    exact g.reject_effect ..
  | some md =>
    cases hok : g.accountManager.adjustReservation md.reservationToken r with
    | error violation =>
      rw [replace_refused connId true hmd hok]
      exact g.reject_effect ..
    | ok p =>
      obtain ⟨token,am⟩ := p
      rw [replace_reserved connId true hmd hok]
      cases hl : g.localOrder connId r.orderId with
      | none =>
        refine .replacing r md token am _ hmd hok rfl ?_ (.of_eq fun _ _ => rfl)
        rw [hl]; rfl
      | some y =>
        refine .replacing r md token am _ hmd hok ?_ ?_ ?_
        · simp [route,track]
        · rw [hl]
          simp only [route,track,pendingOrders_bumpSeq,if_true]
        · intro c id x hx
          rcases localOrder_insert (g := { g with accountManager := am }) hx with ⟨rfl,rfl,rfl⟩ | hx
          · exact ⟨y,hl,rfl⟩
          · exact ⟨x,hx,rfl⟩

theorem handleQueryAccount_effect (g : GatewayContext) (connId : UInt64) (q : QueryAccount) :
    FrameEffect g (g.handleQueryAccount q).1 connId (g.handleQueryAccount q).2.1 := by
  unfold handleQueryAccount
  cases g.accountManager.accounts[q.accountId]? with
  | none => exact g.reject_effect ..
  | some state => exact .quiet rfl rfl (.of_eq fun _ _ => rfl)

theorem handleAuthenticate_effect (g : GatewayContext) (connId : UInt64) (auth : Authenticate) :
    FrameEffect g (g.handleAuthenticate connId auth).1 connId (g.handleAuthenticate connId auth).2.1 := by
  unfold handleAuthenticate
  cases g.apiKeys[auth.apiKey]? with
  | none => exact .quiet rfl rfl (.of_eq fun _ _ => rfl)
  | some accountId => exact .quiet rfl rfl (.of_eq fun _ _ => rfl)

/-- Every outcome of a command that does not change limits. -/
theorem handleCommand_effect (g : GatewayContext) (connId : UInt64) {cmd : Command}
    (hcmd : ∀ srl, cmd ≠ .setRiskLimits srl) :
    FrameEffect g (g.handleCommand connId cmd true).1 connId (g.handleCommand connId cmd true).2.1 := by
  cases cmd with
  | queryAccount q => exact g.handleQueryAccount_effect connId q
  | authenticate auth => exact g.handleAuthenticate_effect connId auth
  | setRiskLimits srl => exact absurd rfl (hcmd srl)
  | newOrder no =>
    simp only [handleCommand]
    split_ifs
    · exact g.reject_effect ..
    · exact g.handleNewOrder_effect connId no
  | cancel c =>
    simp only [handleCommand]
    split_ifs
    · exact g.reject_effect ..
    · exact g.handleCancel_effect connId c
  | replace r =>
    simp only [handleCommand]
    split_ifs
    · exact g.reject_effect ..
    · exact g.handleReplace_effect connId r

/-! ### Events -/

/-- The orders that an event stops being tracked. -/
def drops (g : GatewayContext) (event : Event) (id : OrderId) : Bool :=
  match event with
  | .fill f => decide (id = f.makerOrderId ∨ id = f.takerOrderId)
  | .ack a => decide (id = a.orderId ∧ (g.pendingOrders[id]?).map OrderMetadata.operation = some .cancelPending)
  | .reject r => decide (r.orderId = some id)
  | _ => false

theorem get_settleFill (g : GatewayContext) (f : Fill) (orderId id : OrderId) {md : Option OrderMetadata}
    (h : md = none → g.pendingOrders[orderId]? = none) :
    (g.settleFill f orderId md).pendingOrders[id]? = if id = orderId then none else g.pendingOrders[id]? := by
  unfold settleFill
  cases md with
  | none =>
    split_ifs with hid
    · rw [hid]; exact h rfl
    · rfl
  | some md => simp [eq_comm]

theorem get_release (g : GatewayContext) (orderId id : OrderId) :
    (g.release orderId).pendingOrders[id]? = if id = orderId then none else g.pendingOrders[id]? := by
  unfold release
  cases hmd : g.pendingOrders[orderId]? with
  | none =>
    split_ifs with hid
    · rw [hid]; exact hmd
    · rfl
  | some md => simp [eq_comm]

/-- An event removes the orders it drops and touches no other. -/
theorem get_handleEngineEvent (g : GatewayContext) (c : UInt64) (event : Event) (id : OrderId) :
    (g.handleEngineEvent c event).1.pendingOrders[id]? =
      if g.drops event id then none else g.pendingOrders[id]? := by
  cases event with
  | fill f =>
    simp only [handleEngineEvent,handleFill,drops]
    rw [get_settleFill _ _ _ _ ?_,get_settleFill _ _ _ _ fun h => h]
    · by_cases hm : id = f.makerOrderId <;> by_cases ht : id = f.takerOrderId <;> simp [hm,ht]
    · intro h
      rw [get_settleFill _ _ _ _ fun h => h,h]
      split_ifs <;> rfl
  | ack a =>
    simp only [handleEngineEvent,handleAck,drops]
    cases hmd : g.pendingOrders[a.orderId]? with
    | none =>
      by_cases hid : id = a.orderId
      · simp [hid,hmd]
      · simp [hid]
    | some md =>
      cases hop : md.operation with
      | active =>
        by_cases hid : id = a.orderId
        · simp [hid,hmd,hop]
        · simp [hid,hop]
      | cancelPending =>
        simp only [hop]
        rw [get_release]
        by_cases hid : id = a.orderId
        · simp [hid,hmd,hop]
        · simp [hid]
  | reject r =>
    obtain ⟨_,_,orderId,_⟩ := r
    simp only [handleEngineEvent,handleReject,drops]
    cases orderId with
    | none => simp
    | some orderId =>
      rw [get_release]
      by_cases hid : id = orderId
      · simp [hid]
      · simp [hid,Ne.symm hid]
  | bookTop t => simp [handleEngineEvent,drops]
  | accountState s => simp [handleEngineEvent,drops]
  | authSuccess a => simp [handleEngineEvent,drops]
  | authFailure a => simp [handleEngineEvent,drops]

@[simp] theorem clients_release (g : GatewayContext) (id : OrderId) : (g.release id).clients = g.clients := by
  unfold release
  cases g.pendingOrders[id]? <;> rfl

@[simp] theorem clients_settleFill (g : GatewayContext) (f : Fill) (id : OrderId) (md : Option OrderMetadata) :
    (g.settleFill f id md).clients = g.clients := by
  unfold settleFill
  cases md <;> rfl

@[simp] theorem clients_handleEngineEvent (g : GatewayContext) (c : UInt64) (event : Event) :
    (g.handleEngineEvent c event).1.clients = g.clients := by
  cases event with
  | fill f => simp [handleEngineEvent,handleFill]
  | ack a =>
    simp only [handleEngineEvent,handleAck]
    cases g.pendingOrders[a.orderId]? with
    | none => rfl
    | some md => cases hop : md.operation <;> simp [hop]
  | reject r =>
    simp only [handleEngineEvent,handleReject]
    cases r.orderId <;> simp
  | bookTop t => rfl
  | accountState s => rfl
  | authSuccess a => rfl
  | authFailure a => rfl

end GatewayContext
end Gateway
end HighPerfTrading
