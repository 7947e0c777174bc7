import HighPerfTrading.Gateway.Consistency

/-! What handling a command or an event can reach in the gateway: the account that the command names and the
entry of its order; the entries of the orders that the event names and the accounts of their tokens. -/
namespace HighPerfTrading
namespace Gateway
namespace GatewayContext
variable {g g' : GatewayContext} {connId : UInt64} {routed : Bool}

/-- Only the account and the order that the command names are touched; a token in the order's entry is the
account's or was there before. -/
structure Confined (g g' : GatewayContext) (cmd : Command) : Prop where
  accounts : ∀ a : AccountId, commandAccountId cmd ≠ some a → g'.accountManager.accounts[a]? = g.accountManager.accounts[a]?
  others : ∀ id, commandOrderId cmd ≠ some id → g'.pendingOrders[id]? = g.pendingOrders[id]?
  tokens : ∀ (id : OrderId) (md' : OrderMetadata), g'.pendingOrders[id]? = some md' →
    commandAccountId cmd = some md'.reservationToken.accountId ∨
      ∃ md, g.pendingOrders[id]? = some md ∧ md.reservationToken = md'.reservationToken

theorem Confined.untracked {cmd : Command} (ha : ∀ a : AccountId, commandAccountId cmd ≠ some a →
    g'.accountManager.accounts[a]? = g.accountManager.accounts[a]?) (hp : g'.pendingOrders = g.pendingOrders) :
    Confined g g' cmd where
  accounts := ha
  others id _ := by rw [hp]
  tokens id md' hmd' := Or.inr ⟨md',hp ▸ hmd',rfl⟩

/-- The entry of the order is written, with a token of the account. -/
theorem Confined.tracked {cmd : Command} {id : OrderId} {md : OrderMetadata} (hid : commandOrderId cmd = some id)
    (hacct : commandAccountId cmd = some md.reservationToken.accountId)
    (ha : ∀ a : AccountId, commandAccountId cmd ≠ some a → g'.accountManager.accounts[a]? = g.accountManager.accounts[a]?)
    (hp : g'.pendingOrders = g.pendingOrders.insert id md) :
    Confined g g' cmd where
  accounts := ha
  others i hi := by
    rw [hp,OrdMap.get_insert,if_neg]
    exact fun heq => hi (heq ▸ hid)
  tokens i md' hmd' := by
    rw [hp,OrdMap.get_insert] at hmd'
    split_ifs at hmd'
    · rw [← Option.some.inj hmd']
      exact Or.inl hacct
    · exact Or.inr ⟨md',hmd',rfl⟩

/-! ### The commands that are carried out -/

/-- A reservation touches the account of its token, whether its command is routed or not. -/
theorem accounts_route {g₁ : GatewayContext} {token : ReservationToken} {state : AccountState}
    (hm : g₁.accountManager = g.accountManager.put token.accountId state) (cmd : Command) (routed : Bool) {a : AccountId}
    (ha : token.accountId ≠ a) :
    (g₁.route connId cmd token routed).1.accountManager.accounts[a]? = g.accountManager.accounts[a]? := by
  have hput : g₁.accountManager.accounts[a]? = g.accountManager.accounts[a]? := by
    rw [hm,AccountManager.accounts_put,if_neg ha]
  cases routed with
  | true => exact hput
  | false =>
    rw [(g₁.route_failed connId cmd token).1,AccountManager.accounts_releaseReservation,hput]
    simp [Ne.symm ha]

theorem cancel_confined (g : GatewayContext) (connId : UInt64) (c : Cancel) (routed : Bool) :
    Confined g (g.handleCancel connId c routed).1 (.cancel c) := by
  refine ⟨fun a _ => ?_,fun id hid => ?_,fun id md' hmd' => ?_⟩
  · cases routed with
    | true => simp [handleCancel]
    | false => simp [handleCancel,reject]
  · rw [get_handleCancel]
    have hne : id ≠ c.orderId := fun heq => hid (congrArg some heq.symm)
    simp [hne]
  · rw [get_handleCancel] at hmd'
    obtain ⟨md,hmd,rfl⟩ := Option.map_eq_some_iff.mp hmd'
    refine Or.inr ⟨md,hmd,?_⟩
    split_ifs <;> rfl

theorem CarriedOut.confined {cmd : Command} {handled : Handled} (h : g.CarriedOut connId routed cmd handled) :
    Confined g handled.1 cmd := by
  cases h with
  | ordered no token m hok =>
    obtain ⟨state,-,rfl,rfl⟩ := AccountManager.checkAndReserveOrder_ok hok
    refine .tracked rfl rfl (fun a ha => ?_) (route_keeps _ connId _ _ routed).1
    exact accounts_route (accountManager_track ..) _ routed fun heq => ha (congrArg some heq)
  | cancelling c => exact g.cancel_confined connId c routed
  | unknown r md token m hmd hok hl =>
    obtain ⟨state,-,rfl,rfl⟩ := AccountManager.adjustReservation_ok hok
    refine .untracked (fun a ha => ?_) (route_keeps _ connId _ _ routed).1
    exact accounts_route rfl _ routed fun heq => ha (congrArg some heq)
  | known r md token m x hmd hok hl =>
    obtain ⟨state,-,rfl,rfl⟩ := AccountManager.adjustReservation_ok hok
    refine .tracked rfl rfl (fun a ha => ?_) (route_keeps _ connId _ _ routed).1
    exact accounts_route (accountManager_track ..) _ routed fun heq => ha (congrArg some heq)
  | limits srl hr =>
    subst hr
    exact .untracked (fun _ _ => rfl) rfl

theorem handleCommand_confined (g : GatewayContext) (connId : UInt64) (cmd : Command) (routed : Bool) :
    Confined g (g.handleCommand connId cmd routed).1 cmd := by
  by_cases h : g.Carries connId cmd routed
  · exact h.carriedOut.confined
  · have hquiet := handleCommand_quiet h
    exact .untracked (fun a _ => hquiet.accounts a) hquiet.pending

/-! ### Events -/

theorem accounts_release {id : OrderId} {a : AccountId}
    (h : ∀ md : OrderMetadata, g.pendingOrders[id]? = some md → md.reservationToken.accountId ≠ a) :
    (g.release id).accountManager.accounts[a]? = g.accountManager.accounts[a]? := by
  unfold release
  cases hmd : g.pendingOrders[id]? with
  | none => rfl
  | some md =>
    simp only
    rw [AccountManager.accounts_releaseReservation]
    simp [Ne.symm (h md hmd)]

theorem accounts_settleFill (g : GatewayContext) (f : Fill) (id : OrderId) {md : Option OrderMetadata} {a : AccountId}
    (h : ∀ x : OrderMetadata, md = some x → x.reservationToken.accountId ≠ a) :
    (g.settleFill f id md).accountManager.accounts[a]? = g.accountManager.accounts[a]? := by
  unfold settleFill
  cases md with
  | none => rfl
  | some md =>
    simp only
    rw [AccountManager.accounts_applyFill]
    simp [Ne.symm (h md rfl)]

/-- The accounts of the orders that an event drops are the only ones it touches. -/
theorem accounts_event (g : GatewayContext) (connId : UInt64) {event : Event} {a : AccountId}
    (h : ∀ (id : OrderId) (md : OrderMetadata), g.drops event id = true → g.pendingOrders[id]? = some md →
      md.reservationToken.accountId ≠ a) :
    (g.handleEngineEvent connId event).1.accountManager.accounts[a]? = g.accountManager.accounts[a]? := by
  cases event with
  | fill f =>
    simp only [handleEngineEvent,handleFill]
    rw [accounts_settleFill _ f _ fun md hmd => h f.takerOrderId md (by simp [drops]) hmd,
      accounts_settleFill _ f _ fun md hmd => h f.makerOrderId md (by simp [drops]) hmd]
  | ack ack =>
    simp only [handleEngineEvent,handleAck]
    cases hmd : g.pendingOrders[ack.orderId]? with
    | none => rfl
    | some md =>
      cases hop : md.operation with
      | active => simp only [hop]
      | cancelPending =>
        simp only [hop]
        refine accounts_release fun x hx => h ack.orderId x ?_ hx
        simp [drops,hmd,hop]
  | reject r =>
    simp only [handleEngineEvent,handleReject]
    cases hid : r.orderId with
    | none => rfl
    | some orderId => exact accounts_release fun x hx => h orderId x (by simp [drops,hid]) hx
  | bookTop t => rfl
  | accountState s => rfl
  | authSuccess s => rfl
  | authFailure s => rfl

end GatewayContext
end Gateway
end HighPerfTrading
