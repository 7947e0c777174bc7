import HighPerfTrading.Gateway.FrameEffect

/-! The tentative reservation of an account is the sum of the tokens of its tracked orders, as
long as replacements swap the token they are accounted for. -/
namespace HighPerfTrading
namespace Gateway
namespace GatewayContext
variable {g g' : GatewayContext}

/-- What a tracked order holds of an account's buying power. -/
def held (a : AccountId) (md : OrderMetadata) : Int64 :=
  if md.reservationToken.accountId = a then md.reservationToken.amount else 0

def reserved (pending : OrdMap OrderId OrderMetadata) (a : AccountId) : Int64 :=
  OrdMap.sumEntries (fun _ => held a) pending

def Balanced (g : GatewayContext) : Prop :=
  ∀ a s, g.accountManager.accounts[a]? = some s → s.tentativeReserved = reserved g.pendingOrders a

theorem reserved_erase {pending : OrdMap OrderId OrderMetadata} {id : OrderId} {md : OrderMetadata}
    (h : pending[id]? = some md) (a : AccountId) : reserved (pending.erase id) a = reserved pending a-held a md := by
  rw [reserved,reserved,OrdMap.sumEntries_erase _ h,add_sub_cancel_left]

theorem reserved_insert (pending : OrdMap OrderId OrderMetadata) (id : OrderId) (md : OrderMetadata)
    (a : AccountId) :
    reserved (pending.insert id md) a = reserved pending a-((pending[id]?).elim 0 (held a))+held a md := by
  rw [reserved,OrdMap.sumEntries_insert,add_comm]
  congr 1
  cases h : pending[id]? with
  | none => rw [OrdMap.erase_of_get_none h,Option.elim_none,sub_zero]; rfl
  | some md' => exact reserved_erase h a

/-- Changing operations leaves the sums alone. -/
theorem reserved_withOperation (pending : OrdMap OrderId OrderMetadata) (id : OrderId) (op : PendingOperation)
    (a : AccountId) : reserved (withOperation pending id op) a = reserved pending a := by
  unfold withOperation
  cases h : pending[id]? with
  | none => rfl
  | some md =>
    rw [reserved_insert,h,Option.elim_some]
    exact sub_add_cancel _ _

/-- Every account reserves what it did at the outset and the tokens of its tracked orders. -/
def BalancedFrom (base : AccountId → Int64) (g : GatewayContext) : Prop :=
  ∀ a s, g.accountManager.accounts[a]? = some s → s.tentativeReserved = base a+reserved g.pendingOrders a

theorem balancedFrom_zero : BalancedFrom (fun _ => 0) g ↔ Balanced g := by
  simp [BalancedFrom,Balanced]

namespace BalancedFrom
variable {base : AccountId → Int64}

/-! ### Events -/

/-- An order is no longer tracked, and its token is taken off its account. -/
theorem drop (h : BalancedFrom base g) {id : OrderId} {md : OrderMetadata} (hmd : g.pendingOrders[id]? = some md)
    {f : AccountState → AccountState}
    (hf : ∀ s, (f s).tentativeReserved = s.tentativeReserved-md.reservationToken.amount)
    (ha : ∀ a, g'.accountManager.accounts[a]? = (g.accountManager.accounts[a]?).map fun s =>
      if a = md.reservationToken.accountId then f s else s)
    (hp : g'.pendingOrders = g.pendingOrders.erase id) : BalancedFrom base g' := by
  intro a s' hs'
  rw [ha] at hs'
  obtain ⟨s,hs,rfl⟩ := Option.map_eq_some_iff.mp hs'
  rw [hp,reserved_erase hmd,← add_sub_assoc,← h a s hs,held]
  by_cases hacct : a = md.reservationToken.accountId
  · rw [if_pos hacct,if_pos hacct.symm,hf]
  · rw [if_neg hacct,if_neg (Ne.symm hacct),sub_zero]

theorem release (h : BalancedFrom base g) (id : OrderId) : BalancedFrom base (g.release id) := by
  unfold GatewayContext.release
  cases hmd : g.pendingOrders[id]? with
  | none => exact h
  | some md => exact h.drop hmd (fun _ => rfl) (AccountManager.accounts_releaseReservation _ _) rfl

theorem settleFill (h : BalancedFrom base g) (f : Fill) {id : OrderId} {md : Option OrderMetadata}
    (hmd : g.pendingOrders[id]? = md) : BalancedFrom base (g.settleFill f id md) := by
  unfold GatewayContext.settleFill
  cases md with
  | none => exact h
  | some md => exact h.drop hmd (fun _ => rfl) (AccountManager.accounts_applyFill _ _ _ _) rfl

theorem handleEngineEvent (h : BalancedFrom base g) (c : UInt64) {event : Event}
    (hne : ∀ f, event = .fill f → f.makerOrderId ≠ f.takerOrderId) :
    BalancedFrom base (g.handleEngineEvent c event).1 := by
  cases event with
  | fill f =>
    refine (h.settleFill f rfl).settleFill f ?_
    rw [get_settleFill _ _ _ _ id,if_neg (Ne.symm (hne f rfl))]
  | ack a =>
    simp only [GatewayContext.handleEngineEvent,handleAck]
    cases g.pendingOrders[a.orderId]? with
    | none => exact h
    | some md =>
      simp only
      cases md.operation with
      | active => exact h
      | cancelPending => exact h.release a.orderId
  | reject r =>
    simp only [GatewayContext.handleEngineEvent,handleReject]
    cases r.orderId with
    | none => exact h
    | some orderId => exact h.release orderId
  | bookTop t => exact h
  | accountState s => exact h
  | authSuccess a => exact h
  | authFailure a => exact h

/-! ### Frames -/

/-- New orders are not tracked yet; replacements come from the connection that tracks the order,
for the account of its token. -/
theorem frame {connId : UInt64} {out : Option ExecuteCommand} (h : BalancedFrom base g)
    (heff : FrameEffect g g' connId out)
    (hnew : ∀ x no, out = some x → x.command = .newOrder no → g.pendingOrders[no.orderId]? = none)
    (hrep : ∀ x r md p, out = some x → x.command = .replace r → g.pendingOrders[r.orderId]? = some md →
      g.accountManager.adjustReservation md.reservationToken r = .ok p →
        (g.localOrder connId r.orderId).isSome ∧ md.reservationToken.accountId = r.accountId) :
    BalancedFrom base g' := by
  intro a s' hs'
  cases heff with
  | quiet ha hp hl =>
    rw [ha] at hs'
    rw [hp]
    exact h a s' hs'
  | ordered no token am risk hok ha hp hl =>
    obtain ⟨s,hs,rfl,rfl⟩ := AccountManager.checkAndReserveOrder_ok hok
    rw [ha,AccountManager.accounts_put] at hs'
    rw [hp,reserved_insert,hnew _ no rfl rfl,Option.elim_none,sub_zero,held,← add_assoc]
    split_ifs at hs' ⊢ with hacct
    · obtain rfl := Option.some.inj hs'
      rw [← h a s (hacct ▸ hs)]
    · rw [add_zero]
      exact h a s' hs'
  | cancelling c risk ha hp hl =>
    rw [ha] at hs'
    rw [hp,reserved_withOperation]
    exact h a s' hs'
  | replacing r md token am risk hmd hok ha hp hl =>
    obtain ⟨hlocal,hacct⟩ := hrep _ r md _ rfl rfl hmd hok
    obtain ⟨s,hs,rfl,rfl⟩ := AccountManager.adjustReservation_ok hok
    obtain ⟨x,hx⟩ := Option.isSome_iff_exists.mp hlocal
    rw [ha,AccountManager.accounts_put] at hs'
    rw [hx] at hp
    rw [hp,reserved_insert,hmd,Option.elim_some,held,held,hacct,← add_assoc,← add_sub_assoc]
    by_cases ha' : r.accountId = a
    · rw [if_pos ha'] at hs'
      obtain rfl := Option.some.inj hs'
      rw [if_pos ha',if_pos ha',← h a s (ha' ▸ hs)]
    · rw [if_neg ha'] at hs'
      rw [if_neg ha',if_neg ha',sub_zero,add_zero]
      exact h a s' hs'

end BalancedFrom

theorem Balanced.settleFill (h : Balanced g) (f : Fill) {id : OrderId} {md : Option OrderMetadata}
    (hmd : g.pendingOrders[id]? = md) : Balanced (g.settleFill f id md) :=
  balancedFrom_zero.mp ((balancedFrom_zero.mpr h).settleFill f hmd)

theorem Balanced.handleEngineEvent (h : Balanced g) (c : UInt64) {event : Event}
    (hne : ∀ f, event = .fill f → f.makerOrderId ≠ f.takerOrderId) : Balanced (g.handleEngineEvent c event).1 :=
  balancedFrom_zero.mp ((balancedFrom_zero.mpr h).handleEngineEvent c hne)

end GatewayContext
end Gateway
end HighPerfTrading
