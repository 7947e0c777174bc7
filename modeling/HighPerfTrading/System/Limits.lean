import HighPerfTrading.Engine.Positions
import HighPerfTrading.Gateway.Confined
import HighPerfTrading.Library.CheckedInt
import HighPerfTrading.System.Restart

/-! Risk limits, which the gateway keeps by account and symbol and each engine by account. Nothing that reaches the
gateway changes its limits: an engine alone takes new ones over. -/
namespace HighPerfTrading

/-- An order of this quantity is small enough, and the position it leads to is allowed. -/
structure RiskLimits.Allow (limits : RiskLimits) (netPosition : Int64) (side : Side) (qty : Int64) : Prop where
  size : qty.toInt ≤ limits.maxOrderSize.toInt
  long : netPosition.toInt+Engine.signed side qty.toInt ≤ limits.maxLongPosition.toInt
  short : -limits.maxShortPosition.toInt ≤ netPosition.toInt+Engine.signed side qty.toInt

/-! ### What the checks make of allowed orders -/

section Checks
variable {limits : RiskLimits} {net qty : Int64} {side : Side}

/-- The comparisons that both checks make. -/
theorem RiskLimits.Allow.passes (h : limits.Allow net side qty) (hq : 0 < qty) :
    ¬ limits.maxOrderSize < qty ∧ ¬ limits.maxLongPosition < net+AccountManager.signed side qty ∧
      ¬ net+AccountManager.signed side qty < -limits.maxShortPosition := by
  obtain ⟨hsize,hlong,hshort⟩ := h
  have hq' := Int64.pos_iff_toInt.mp hq
  have hmax := Int64.toInt_lt limits.maxLongPosition
  have hmin := Int64.toInt_lt limits.maxShortPosition
  have hneg : (-limits.maxShortPosition).toInt = -limits.maxShortPosition.toInt :=
    Int64.toInt_neg_of_range ⟨by omega,by omega⟩
  have hnew : (net+AccountManager.signed side qty).toInt = net.toInt+Engine.signed side qty.toInt := by
    rw [Engine.signed_ofInt,Int64.toInt_add_ofInt (by omega) (by omega)]
  rw [Int64.lt_iff_toInt_lt,Int64.lt_iff_toInt_lt,Int64.lt_iff_toInt_lt,hnew,hneg]
  exact ⟨not_lt.mpr hsize,not_lt.mpr hlong,not_lt.mpr hshort⟩

theorem AccountManager.checkRisk_of_allow {m : AccountManager} {a : AccountId} (hq : 0 < qty)
    (h : (m.getLimits a).Allow (m.getPosition a).netPosition side qty) : m.checkRisk a side qty = .ok () := by
  obtain ⟨hsize,hlong,hshort⟩ := h.passes hq
  unfold checkRisk
  cases side with
  | buy =>
    simp only [signed] at hlong hshort
    simp only [if_neg hsize,if_neg hlong,if_neg hshort]
  | sell =>
    simp only [signed,← sub_eq_add_neg] at hlong hshort
    simp only [if_neg hsize,if_neg hlong,if_neg hshort]

theorem Gateway.AccountManager.reserves_of_allow {m : Gateway.AccountManager} {order : NewOrder}
    {st : Gateway.AccountState} (hst : m.accounts[order.accountId]? = some st) (hq : 0 < order.qty)
    (h : (st.getRiskLimits order.symbolId).Allow (st.getPosition order.symbolId).netPosition order.side order.qty)
    (hfunds : orderRequired order ≤ st.buyingPower-st.tentativeReserved) :
    ∃ r, m.checkAndReserve (.newOrder order) = .ok r := by
  obtain ⟨hsize,hlong,hshort⟩ := h.passes hq
  have habs : order.qty.abs = order.qty := Int64.abs_of_pos hq
  have hfunds' := Int64.not_lt.mpr hfunds
  unfold checkAndReserve checkAndReserveOrder
  simp only [hst,habs]
  cases hside : order.side with
  | buy =>
    simp only [hside,HighPerfTrading.AccountManager.signed] at hlong hshort
    simp only [if_neg hsize,if_neg hlong,if_neg hshort,if_neg hfunds']
    exact ⟨_,rfl⟩
  | sell =>
    simp only [hside,HighPerfTrading.AccountManager.signed,← sub_eq_add_neg] at hlong hshort
    simp only [if_neg hsize,if_neg hlong,if_neg hshort,if_neg hfunds']
    exact ⟨_,rfl⟩

end Checks

/-! ### The gateway's limits never change -/

namespace Gateway

def AccountManager.KeepsLimits (m m' : AccountManager) : Prop :=
  ∀ a : AccountId, (m'.accounts[a]?).map AccountState.riskLimits = (m.accounts[a]?).map AccountState.riskLimits

namespace GatewayContext
open Gateway.AccountManager
variable {g g₁ : GatewayContext} {m m' : AccountManager} {connId : UInt64}

theorem keepsLimits_put {a : AccountId} {s s' : AccountState} (hs : m.accounts[a]? = some s)
    (h : s'.riskLimits = s.riskLimits) : KeepsLimits m (m.put a s') := by
  intro b
  rw [accounts_put]
  split_ifs with hab
  · rw [← hab,hs,Option.map_some,Option.map_some,h]
  · rfl

theorem keepsLimits_releaseReservation (m : AccountManager) (token : ReservationToken) :
    KeepsLimits m (m.releaseReservation token) := by
  unfold releaseReservation
  cases hs : m.accounts[token.accountId]? with
  | none => exact fun _ => rfl
  | some st => exact keepsLimits_put hs rfl

theorem keepsLimits_applyFill (m : AccountManager) (f : Fill) (token : ReservationToken) (isBuy : Bool) :
    KeepsLimits m (m.applyFill f token isBuy) := by
  unfold applyFill
  cases hs : m.accounts[token.accountId]? with
  | none => exact fun _ => rfl
  | some st => exact keepsLimits_put hs rfl

theorem keepsLimits_route (hm : KeepsLimits m g₁.accountManager) (cmd : Command) (token : ReservationToken)
    (routed : Bool) : KeepsLimits m (g₁.route connId cmd token routed).1.accountManager := by
  intro a
  cases routed with
  | true => exact hm a
  | false =>
    rw [(g₁.route_failed connId cmd token).1]
    exact (keepsLimits_releaseReservation _ token a).trans (hm a)

theorem CarriedOut.keepsLimits {cmd : Command} {routed : Bool} {handled : Handled}
    (h : g.CarriedOut connId routed cmd handled) : KeepsLimits g.accountManager handled.1.accountManager := by
  cases h with
  | ordered no token m hok =>
    obtain ⟨state,hs,rfl,rfl⟩ := checkAndReserveOrder_ok hok
    refine keepsLimits_route ?_ _ _ routed
    rw [accountManager_track]
    exact keepsLimits_put hs rfl
  | cancelling c =>
    intro a
    cases routed <;> simp [handleCancel,reject]
  | unknown r md token m hmd hok hl =>
    obtain ⟨state,hs,rfl,rfl⟩ := adjustReservation_ok hok
    refine keepsLimits_route ?_ _ _ routed
    exact keepsLimits_put hs rfl
  | known r md token m x hmd hok hl =>
    obtain ⟨state,hs,rfl,rfl⟩ := adjustReservation_ok hok
    refine keepsLimits_route ?_ _ _ routed
    rw [accountManager_track]
    exact keepsLimits_put hs rfl
  | limits srl hr => exact keepsLimits_route (fun _ => rfl) _ _ routed

theorem keepsLimits_handleCommand (g : GatewayContext) (connId : UInt64) (cmd : Command) (routed : Bool) :
    KeepsLimits g.accountManager (g.handleCommand connId cmd routed).1.accountManager := by
  by_cases h : g.Carries connId cmd routed
  · exact h.carriedOut.keepsLimits
  · intro a
    rw [(handleCommand_quiet h).accounts a]

theorem keepsLimits_handleFrame (g : GatewayContext) (connId : UInt64) (bytes : List UInt8) (routes : SymbolId → Bool) :
    KeepsLimits g.accountManager (g.handleFrame connId bytes routes).1.accountManager := by
  unfold handleFrame
  cases g.decoded connId bytes with
  | none => exact fun _ => rfl
  | some cmd => exact keepsLimits_handleCommand g connId cmd _

theorem keepsLimits_release (g : GatewayContext) (id : OrderId) :
    KeepsLimits g.accountManager (g.release id).accountManager := by
  unfold release
  cases g.pendingOrders[id]? with
  | none => exact fun _ => rfl
  | some md => exact keepsLimits_releaseReservation _ _

theorem keepsLimits_settleFill (hm : KeepsLimits m g.accountManager) (f : Fill) (id : OrderId)
    (md : Option OrderMetadata) : KeepsLimits m (g.settleFill f id md).accountManager := by
  unfold settleFill
  cases md with
  | none => exact hm
  | some md => exact fun a => (keepsLimits_applyFill _ f md.reservationToken _ a).trans (hm a)

theorem keepsLimits_handleEngineEvent (g : GatewayContext) (connId : UInt64) (event : Event) :
    KeepsLimits g.accountManager (g.handleEngineEvent connId event).1.accountManager := by
  cases event with
  | fill f => exact keepsLimits_settleFill (keepsLimits_settleFill (fun _ => rfl) f _ _) f _ _
  | ack ack =>
    simp only [handleEngineEvent,handleAck]
    cases g.pendingOrders[ack.orderId]? with
    | none => exact fun _ => rfl
    | some md =>
      simp only
      cases md.operation with
      | active => exact fun _ => rfl
      | cancelPending => exact keepsLimits_release g _
  | reject r =>
    simp only [handleEngineEvent,handleReject]
    cases r.orderId with
    | none => exact fun _ => rfl
    | some id => exact keepsLimits_release g id
  | _ => exact fun _ => rfl

end GatewayContext
end Gateway

/-! ### The engine's limits -/

section Engine
variable {S : Type} [Slab S Order]

theorem Engine.getLimits_live (e : Engine S) (cmd : Command) (a : AccountId) :
    (e.live cmd).accountManager.getLimits a = e.accountManager.getLimits a ∨
      ∃ srl, cmd = .setRiskLimits srl ∧ srl.accountId = a ∧ (e.live cmd).accountManager.getLimits a = srl.limits := by
  have hstep := e.process_core cmd
  change (e.process cmd).1.accountManager.getLimits a = _ ∨
    ∃ srl, cmd = .setRiskLimits srl ∧ srl.accountId = a ∧ (e.process cmd).1.accountManager.getLimits a = srl.limits
  generalize (e.process cmd).1.book = b' at hstep
  generalize (e.process cmd).1.accountManager = m' at hstep ⊢
  cases hstep with
  | @limits srl =>
    by_cases ha : a = srl.accountId
    · exact Or.inr ⟨srl,rfl,ha.symm,by rw [AccountManager.getLimits_setLimits,if_pos ha]⟩
    · exact Or.inl (by rw [AccountManager.getLimits_setLimits,if_neg ha])
  | same => exact Or.inl rfl
  | placed hr => exact Or.inl (getLimits_settle ..)
  | cancelled ho hacct => exact Or.inl rfl
  | lost ho hacct => exact Or.inl rfl
  | replaced ho hacct hr => exact Or.inl (getLimits_settle ..)

end Engine

/-! ### Runs -/

namespace Exchange
open Gateway
variable {S : Type} {ex : Exchange S}

/-- The gateway's limits of an account for a symbol are those of the symbol's engine for the account. -/
def LimitsAgree (ex : Exchange S) : Prop :=
  ∀ (a : AccountId) (s : SymbolId) st v, ex.gateway.accountManager.accounts[a]? = some st → ex.venues[s]? = some v →
    st.getRiskLimits s = v.engine.accountManager.getLimits a

/-- Limits that an engine takes over next are already those of the gateway. -/
def SetsKnownLimits (ex : Exchange S) : Action → Prop
  | .engine s => ∀ v x rest srl st, ex.venues[s]? = some v → v.toEngine = x::rest → x.command = .setRiskLimits srl →
      ex.gateway.accountManager.accounts[srl.accountId]? = some st → srl.limits = st.getRiskLimits s
  | _ => True

/-- The gateway's account with the limits it had before. -/
theorem account_of_keepsLimits {m m' : Gateway.AccountManager} (h : m.KeepsLimits m') {a : AccountId}
    {st' : Gateway.AccountState} (hst : m'.accounts[a]? = some st') (s : SymbolId) :
    ∃ st, m.accounts[a]? = some st ∧ st'.getRiskLimits s = st.getRiskLimits s := by
  have hmap := h a
  rw [hst,Option.map_some] at hmap
  obtain ⟨st,hs,hlimits⟩ := Option.map_eq_some_iff.mp hmap.symm
  refine ⟨st,hs,?_⟩
  unfold Gateway.AccountState.getRiskLimits
  rw [hlimits]

theorem LimitsAgree.gateway (h : ex.LimitsAgree) {ex' : Exchange S}
    (hg : ex.gateway.accountManager.KeepsLimits ex'.gateway.accountManager)
    (hv : ∀ (s : SymbolId) v', ex'.venues[s]? = some v' → ∃ v, ex.venues[s]? = some v ∧
      v'.engine.accountManager = v.engine.accountManager) : ex'.LimitsAgree := by
  intro a s st' v' hst' hv'
  obtain ⟨st,hst,hlimits⟩ := account_of_keepsLimits hg hst' s
  obtain ⟨v,hvenue,hengine⟩ := hv s v' hv'
  rw [hlimits,hengine]
  exact h a s st v hst hvenue

variable [Slab S Order]

theorem step_engine {s : SymbolId} {v : Venue S} {x : ExecuteCommand} {rest : List ExecuteCommand}
    (hv : ex.venues[s]? = some v) (hto : v.toEngine = x::rest) :
    ex.step (.engine s) = ⟨ex.gateway,ex.venues.insert s (v.processed x rest)⟩ := by
  simp only [step,hv,putView,view,System.engineStep,hto]
  rfl

theorem LimitsAgree.step (h : ex.LimitsAgree) {a : Action} (ha : ex.SetsKnownLimits a) : (ex.step a).LimitsAgree := by
  cases a with
  | connect decodeCommand => exact h.gateway (fun _ => rfl) fun s v hv => ⟨v,hv,rfl⟩
  | disconnect connId => exact h.gateway (fun _ => rfl) fun s v hv => ⟨v,hv,rfl⟩
  | frame connId bytes up =>
    refine h.gateway (GatewayContext.keepsLimits_handleFrame _ _ _ _) fun s v' hv' => ?_
    have hsent := get_sent ex.venues (ex.gateway.handleFrame connId bytes (ex.routes up)).2.1 s
    obtain ⟨v,hv,rfl⟩ := Option.map_eq_some_iff.mp (hsent.symm.trans hv')
    exact ⟨v,hv,rfl⟩
  | engine s =>
    cases hv : ex.venues[s]? with
    | none => simpa only [Exchange.step,hv] using h
    | some v =>
      cases hto : v.toEngine with
      | nil =>
        refine h.gateway (fun _ => by simp only [Exchange.step,hv,putView,view,System.engineStep,hto]) fun s' v' hv' => ?_
        simp only [Exchange.step,hv,putView,view,System.engineStep,hto,OrdMap.get_insert] at hv'
        split_ifs at hv' with hs
        · exact ⟨v,hs ▸ hv,by rw [← Option.some.inj hv']⟩
        · exact ⟨v',hv',rfl⟩
      | cons x rest =>
        rw [step_engine hv hto]
        intro a s' st v' hst hv'
        rw [OrdMap.get_insert] at hv'
        split_ifs at hv' with hs
        swap
        · exact h a s' st v' hst hv'
        subst hs
        rw [← Option.some.inj hv']
        rcases v.engine.getLimits_live x.command a with hsame | ⟨srl,hcmd,rfl,hset⟩
        · exact (h a s st v hst hv).trans hsame.symm
        · exact (ha v x rest srl st hv hto hcmd hst).symm.trans hset.symm
  | deliver s =>
    cases hv : ex.venues[s]? with
    | none => simpa only [Exchange.step,hv] using h
    | some v =>
      cases hto : v.toGateway with
      | nil =>
        refine h.gateway (fun _ => by simp only [Exchange.step,hv,putView,view,System.deliver,hto]) fun s' v' hv' => ?_
        simp only [Exchange.step,hv,putView,view,System.deliver,hto,OrdMap.get_insert] at hv'
        split_ifs at hv' with hs
        · exact ⟨v,hs ▸ hv,by rw [← Option.some.inj hv']⟩
        · exact ⟨v',hv',rfl⟩
      | cons e rest =>
        refine h.gateway ?_ fun s' v' hv' => ?_
        · simp only [Exchange.step,hv,putView,view,System.deliver,hto]
          exact GatewayContext.keepsLimits_handleEngineEvent _ _ _
        · simp only [Exchange.step,hv,putView,view,System.deliver,hto,OrdMap.get_insert] at hv'
          split_ifs at hv' with hs
          · exact ⟨v,hs ▸ hv,by rw [← Option.some.inj hv']⟩
          · exact ⟨v',hv',rfl⟩

theorem Run.limitsAgree {ex₀ : Exchange S} (h₀ : ex₀.LimitsAgree) (h : Run ex₀ SetsKnownLimits ex) : ex.LimitsAgree :=
  h.keeps h₀ fun _ _ hagree ha => hagree.step ha

theorem keepsLimits_rebuild (m : Gateway.AccountManager) (orders : List OrderSnapshot) :
    m.KeepsLimits (Reconciliation.rebuildReservations m orders) := by
  have hset : ∀ (m : Gateway.AccountManager) (a : AccountId) (n : Int64), m.KeepsLimits (m.setTentativeReserved a n) := by
    intro m a n
    unfold Gateway.AccountManager.setTentativeReserved
    cases hs : m.accounts[a]? with
    | none => exact fun _ => rfl
    | some st => exact GatewayContext.keepsLimits_put hs rfl
  unfold Reconciliation.rebuildReservations
  generalize (Reconciliation.reservationsByAccount orders).toList = es
  induction es generalizing m with
  | nil => exact fun _ => rfl
  | cons e es ih => exact fun a => (ih _ a).trans (hset m e.1 e.2 a)

theorem LimitsAgree.restart {m : Gateway.AccountManager} {engines : OrdMap SymbolId (Engine S)}
    (hm : ∀ (a : AccountId) st, m.accounts[a]? = some st → st.riskLimits = ∅)
    (he : ∀ (s : SymbolId) e, engines[s]? = some e → ∀ a, e.accountManager.getLimits a = default)
    (apiKeys : OrdMap String AccountId) : (Exchange.restart m apiKeys engines).LimitsAgree := by
  intro a s st v hst hv
  obtain ⟨st₀,hst₀,hlimits⟩ := account_of_keepsLimits (keepsLimits_rebuild m _) hst s
  simp only [Exchange.restart,Std.ExtTreeMap.getElem?_map,Option.map_eq_some_iff] at hv
  obtain ⟨e,hs,rfl⟩ := hv
  rw [hlimits,he s e hs a,Gateway.AccountState.getRiskLimits,hm a st₀ hst₀]
  rfl

/-- When accounts and engines start with the default limits, and an engine takes over only limits that the gateway
has, the gateway checks against and reports the limits of the engine in every state; neither side refuses an order
that these allow; and limits that are taken over hold on both sides. -/
theorem Run.one_set_of_limits {m : Gateway.AccountManager} {apiKeys : OrdMap String AccountId}
    {engines : OrdMap SymbolId (Engine S)} (hm : ∀ (a : AccountId) st, m.accounts[a]? = some st → st.riskLimits = ∅)
    (he : ∀ (s : SymbolId) e, engines[s]? = some e → ∀ a, e.accountManager.getLimits a = default)
    (h : Run (restart m apiKeys engines) SetsKnownLimits ex) {a : AccountId} {s : SymbolId} {st : Gateway.AccountState}
    {v : Venue S} (hst : ex.gateway.accountManager.accounts[a]? = some st) (hv : ex.venues[s]? = some v) :
    st.getRiskLimits s = v.engine.accountManager.getLimits a ∧
    (∀ clientSeq, (ex.gateway.handleQueryAccount ⟨clientSeq,a,s⟩).2.2 =
      [.accountState ⟨ex.gateway.accountManager.nextGatewaySeq,clientSeq,a,s,st.getPosition s,
        v.engine.accountManager.getLimits a⟩]) ∧
    (∀ order : NewOrder, order.accountId = a → order.symbolId = s → 0 < order.qty →
      (v.engine.accountManager.getLimits a).Allow (st.getPosition s).netPosition order.side order.qty →
      (v.engine.accountManager.getLimits a).Allow (v.engine.accountManager.getPosition a).netPosition order.side order.qty →
      Gateway.AccountManager.orderRequired order ≤ st.buyingPower-st.tentativeReserved →
      (∃ r, ex.gateway.accountManager.checkAndReserve (.newOrder order) = .ok r) ∧
        v.engine.accountManager.checkRisk a order.side order.qty = .ok ()) ∧
    ∀ x rest srl, v.toEngine = x::rest → x.command = .setRiskLimits srl → srl.accountId = a →
      ex.SetsKnownLimits (.engine s) → ∃ v', (ex.step (.engine s)).venues[s]? = some v' ∧
        v'.engine.accountManager.getLimits a = srl.limits ∧
        (ex.step (.engine s)).gateway = ex.gateway ∧ st.getRiskLimits s = srl.limits := by
  have hagree := h.limitsAgree (.restart hm he apiKeys) a s st v hst hv
  refine ⟨hagree,fun clientSeq => ?_,?_,?_⟩
  · rw [← hagree]
    simp only [GatewayContext.handleQueryAccount,hst]
    rfl
  · rintro order rfl rfl hq hgateway hengine hfunds
    rw [← hagree] at hgateway
    exact ⟨Gateway.AccountManager.reserves_of_allow hst hq hgateway hfunds,AccountManager.checkRisk_of_allow hq hengine⟩
  · rintro x rest srl hto hcmd rfl hknown
    rw [step_engine hv hto]
    refine ⟨v.processed x rest,by rw [OrdMap.get_insert,if_pos rfl],?_,rfl,(hknown v x rest srl st hv hto hcmd hst).symm⟩
    rw [Venue.processed,hcmd]
    exact (AccountManager.getLimits_setLimits _ _ _ _).trans (if_pos rfl)

def newEngine : OrdMap SymbolId (Engine (FreeListSlab Order)) :=
  (∅ : OrdMap SymbolId (Engine (FreeListSlab Order))).insert 1 Engine.new

/-- Account 1 asks for these limits, and the engine has acknowledged them. -/
def limitsSet (limits : RiskLimits) : List Action :=
  [.connectBinary,.send 1 (.authenticate ⟨"test-key-1"⟩),.send 1 (.setRiskLimits ⟨1,1,1,limits⟩),.engine 1,.deliver 1]

/-- Raised limits hold in the engine alone: the gateway refuses an order of 1500 lots. -/
theorem raisedLimits_ignored :
    ∃ (ex : Exchange (FreeListSlab Order)) (st : Gateway.AccountState) (v : Venue (FreeListSlab Order)),
    Run (restart recovered twoKeys newEngine) (fun _ _ => True) ex ∧ ex.Quiescent ∧
      ex.gateway.accountManager.accounts[(1 : AccountId)]? = some st ∧ ex.venues[(1 : SymbolId)]? = some v ∧
      v.engine.accountManager.getLimits 1 = ⟨20000,20000,2000⟩ ∧ st.getRiskLimits 1 = default ∧
      (ex.gateway.handleCommand 1 (.newOrder ⟨2,1,1,1,.buy,1,1500,.gtc,⟨false⟩⟩) true).2.1 = none ∧
      v.engine.accountManager.checkRisk 1 .buy 1500 = .ok () := by
  have hrun : Allowed (fun _ _ => True) (restart recovered twoKeys newEngine) (limitsSet ⟨20000,20000,2000⟩) :=
    ⟨trivial,trivial,trivial,trivial,trivial,trivial⟩
  refine ⟨_,_,_,Run.start.execute _ hrun,quiescent_of_toList ?_,Option.some_get ?_ |>.symm,Option.some_get ?_ |>.symm,
    ?_,?_,?_,?_⟩ <;>
    decide +kernel

theorem setsKnownLimits_of {ex : Exchange (FreeListSlab Order)} {s : SymbolId}
    (h : (ex.venues[s]?).all fun v => v.toEngine.head?.all fun x => match x.command with
      | .setRiskLimits srl => (ex.gateway.accountManager.accounts[srl.accountId]?).all fun st =>
          decide (srl.limits = st.getRiskLimits s)
      | _ => true) : ex.SetsKnownLimits (.engine s) := by
  intro v x rest srl st hv hto hcmd hst
  rw [hv,Option.all_some,hto] at h
  simpa [hcmd,hst] using h

/-- Acknowledged limits that are the gateway's own. -/
theorem defaultLimits_agree : ∃ (st : Gateway.AccountState) (v : Venue (FreeListSlab Order)),
    let ex := (restart recovered twoKeys newEngine).execute (limitsSet default)
    ex.gateway.accountManager.accounts[(1 : AccountId)]? = some st ∧ ex.venues[(1 : SymbolId)]? = some v ∧
      st.getRiskLimits 1 = v.engine.accountManager.getLimits 1 := by
  have hrun : Allowed SetsKnownLimits (restart recovered twoKeys newEngine) (limitsSet default) :=
    ⟨trivial,trivial,trivial,setsKnownLimits_of (by decide +kernel),trivial,trivial⟩
  have hm : ∀ (a : AccountId) st, recovered.accounts[a]? = some st → st.riskLimits = ∅ := by
    intro a st hst
    have hall : ∀ e ∈ recovered.accounts.toList, e.2.riskLimits = ∅ := by decide +kernel
    exact hall (a,st) (OrdMap.mem_toList.mpr hst)
  have he : ∀ (s : SymbolId) e, newEngine[s]? = some e → ∀ a, e.accountManager.getLimits a = default := by
    intro s e hs a
    rw [newEngine,OrdMap.get_insert] at hs
    split_ifs at hs with h1
    · rw [← Option.some.inj hs,Engine.new,AccountManager.new,AccountManager.getLimits]
      simp
    · simp at hs
  have hst : (((restart recovered twoKeys newEngine).execute (limitsSet default)).gateway.accountManager.accounts[
      (1 : AccountId)]?).isSome := by decide +kernel
  have hv : (((restart recovered twoKeys newEngine).execute (limitsSet default)).venues[(1 : SymbolId)]?).isSome := by
    decide +kernel
  obtain ⟨st,hst⟩ := Option.isSome_iff_exists.mp hst
  obtain ⟨v,hv⟩ := Option.isSome_iff_exists.mp hv
  exact ⟨st,v,hst,hv,(Run.one_set_of_limits hm he (Run.start.execute _ hrun) hst hv).1⟩

end Exchange
end HighPerfTrading
