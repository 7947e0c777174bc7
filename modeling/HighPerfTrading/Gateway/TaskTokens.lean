import HighPerfTrading.Gateway.TasksInTurn
import HighPerfTrading.Gateway.TokenLedger
import HighPerfTrading.Library.Custody

/-! The tokens of the gateway's tasks: each is with the order that it is for, and each order is worked on by one task at
most. -/
namespace HighPerfTrading
namespace Gateway
open GatewayContext TokenLedger
namespace Tasks

/-! ### Tokens -/

/-- The tokens that are not used up, by their orders. -/
abbrev Tokens := OrdMap OrderId ReservationToken

namespace Tokens
variable {owned : Tokens} {id : OrderId} {token : ReservationToken} {m : AccountManager}

def all (owned : Tokens) : List ReservationToken := owned.toList.map Prod.snd

theorem all_insert (owned : Tokens) (id : OrderId) (token : ReservationToken) :
    (all (owned.insert id token)).Perm (token::all (owned.erase id)) :=
  (OrdMap.toList_insert_perm owned id token).map Prod.snd

theorem all_perm (h : owned[id]? = some token) : (all owned).Perm (token::all (owned.erase id)) := by
  have hsame : owned.insert id token = owned := OrdMap.insert_eq_self.mpr h
  have hperm := all_insert owned id token
  rwa [hsame] at hperm

theorem mem_all (h : owned[id]? = some token) : token ∈ all owned :=
  (all_perm h).mem_iff.mpr (List.mem_cons_self ..)

theorem erase_perm (h : owned[id]? = some token) : ((all owned).erase token).Perm (all (owned.erase id)) := by
  have hperm := (all_perm h).erase token
  rwa [List.erase_cons_head] at hperm

/-- The accounts have reserved what these tokens hold. -/
def Backed (m : AccountManager) (owned : Tokens) : Prop := Sound ⟨m,all owned⟩

theorem sound_perm {xs ys : List ReservationToken} (h : Sound ⟨m,xs⟩) (hp : xs.Perm ys) : Sound ⟨m,ys⟩ := by
  refine ⟨fun token ht => h.nonneg token (hp.mem_iff.mpr ht),fun a => ?_,h.solvent⟩
  rw [← h.balanced a]
  exact ((hp.map (amountFor a)).sum_eq).symm

theorem backed_congr {m' : AccountManager} (h : Backed m owned) (ha : m'.accounts = m.accounts) : Backed m' owned :=
  ⟨h.nonneg,fun a => by rw [h.balanced a,ha],fun a s hs => h.solvent a s (by rwa [ha] at hs)⟩

theorem insert_backed (h : Sound ⟨m,token::all owned⟩) (hnew : owned[id]? = none) :
    Backed m (owned.insert id token) := by
  refine sound_perm h ?_
  have hperm := all_insert owned id token
  rw [OrdMap.erase_of_get_none hnew] at hperm
  exact hperm.symm

theorem swap_backed {token' : ReservationToken} (h : Sound ⟨m,token'::(all owned).erase token⟩)
    (hold : owned[id]? = some token) : Backed m (owned.insert id token') :=
  sound_perm h (((erase_perm hold).cons token').trans (all_insert owned id token').symm)

theorem erase_backed (h : Sound ⟨m,(all owned).erase token⟩) (hold : owned[id]? = some token) :
    Backed m (owned.erase id) :=
  sound_perm h (erase_perm hold)

end Tokens

end Tasks

/-! ### Who works on which order -/

/-- The order that a read loop works on. -/
def ReadLoop.order : ReadLoop → Option OrderId
  | .reserved order _ => some order.orderId
  | .found replace _ => some replace.orderId
  | .adjusted replace _ => some replace.orderId
  | _ => none

/-- The command that a read loop is to hand to the router. -/
def ReadLoop.approval : ReadLoop → Option Command
  | .approved cmd _ => some cmd
  | _ => none

/-- The order that a read loop replaces. -/
def ReadLoop.replaced : ReadLoop → Option OrderId
  | .found replace _ => some replace.orderId
  | .adjusted replace _ => some replace.orderId
  | _ => none

/-- The orders that the event in hand is about, as long as it is not settled for them. -/
def Responder.orders : Responder → List OrderId
  | .filling _ fill _ _ .maker => [fill.makerOrderId,fill.takerOrderId]
  | .filling _ fill _ _ .makerSettled => [fill.makerOrderId,fill.takerOrderId]
  | .filling _ fill _ _ .taker => [fill.takerOrderId]
  | .filling _ fill _ _ .takerSettled => [fill.takerOrderId]
  | .releasing _ reject _ => reject.orderId.toList
  | _ => []

/-- The token of an order that is not used up, and the one that it is tracked with. -/
abbrev Custodian := Option ReservationToken × Option ReservationToken

def tokenOf (md : Option OrderMetadata) : Option ReservationToken := md.map OrderMetadata.reservationToken

def ReadLoop.Holds (v : OrderId → Custodian) : ReadLoop → Prop
  | .reserved order token => v order.orderId = (some token,none)
  | .found replace oldToken => v replace.orderId = (some oldToken,some oldToken) ∧
      oldToken.accountId = replace.accountId ∧ Priced replace.newPrice replace.newQty
  | .adjusted replace token => (v replace.orderId).1 = some token
  | .unrouted .. => False
  | _ => True

def Responder.Holds (v : OrderId → Custodian) : Responder → Prop
  | .filling _ fill maker taker .maker => fill.makerOrderId ≠ fill.takerOrderId ∧
      v fill.makerOrderId = (tokenOf maker,tokenOf maker) ∧ v fill.takerOrderId = (tokenOf taker,tokenOf taker)
  | .filling _ fill _ taker .makerSettled => fill.makerOrderId ≠ fill.takerOrderId ∧ (v fill.makerOrderId).1 = none ∧
      v fill.takerOrderId = (tokenOf taker,tokenOf taker)
  | .filling _ fill _ taker .taker => v fill.takerOrderId = (tokenOf taker,tokenOf taker)
  | .filling _ fill _ _ .takerSettled => (v fill.takerOrderId).1 = none
  | .releasing _ reject token => ∃ id, reject.orderId = some id ∧ v id = (some token,none)
  | _ => True

/-- A task works on its orders alone. The token of an order that nobody works on is the one that it is tracked with. -/
def discipline : Discipline (ReadLoop ⊕ Responder) OrderId Custodian where
  keys
    | .inl l => l.order.toList
    | .inr r => r.orders
  Holds
    | .inl l,v => l.Holds v
    | .inr r,v => r.Holds v
  Clean a := a.1 = a.2
  holds_congr := by
    rintro (l | r) v v' hv h
    · cases l with
      | reserved order token => exact (hv _ (by simp [ReadLoop.order])).trans h
      | found replace oldToken => exact ⟨(hv _ (by simp [ReadLoop.order])).trans h.1,h.2⟩
      | adjusted replace token => exact (congrArg Prod.fst (hv _ (by simp [ReadLoop.order]))).trans h
      | _ => exact h
    · cases r with
      | filling connId fill maker taker stage =>
        cases stage with
        | maker =>
          exact ⟨h.1,(hv _ (by simp [Responder.orders])).trans h.2.1,(hv _ (by simp [Responder.orders])).trans h.2.2⟩
        | makerSettled =>
          exact ⟨h.1,(congrArg Prod.fst (hv _ (by simp [Responder.orders]))).trans h.2.1,
            (hv _ (by simp [Responder.orders])).trans h.2.2⟩
        | taker => exact (hv _ (by simp [Responder.orders])).trans h
        | takerSettled => exact (congrArg Prod.fst (hv _ (by simp [Responder.orders]))).trans h
      | releasing connId reject token =>
        obtain ⟨id,hid,hview⟩ := h
        exact ⟨id,hid,(hv id (by simp [Responder.orders,hid])).trans hview⟩
      | _ => exact h

namespace Tasks
variable {t : Tasks} {owned : Tokens} {connId : UInt64}

def phase (t : Tasks) : Option UInt64 → ReadLoop ⊕ Responder
  | none => .inr t.responder
  | some connId => .inl (t.loop connId)

def view (g : GatewayContext) (owned : Tokens) (id : OrderId) : Custodian :=
  (owned[id]?,tokenOf g.pendingOrders[id]?)

/-- No task works on the order. -/
def Free (t : Tasks) (id : OrderId) : Prop := ∀ w, id ∉ discipline.keys (t.phase w)

theorem free_iff {id : OrderId} : t.Free id ↔ (∀ c, (t.loop c).order ≠ some id) ∧ id ∉ t.responder.orders := by
  constructor
  · exact fun h => ⟨fun c hc => h (some c) (Option.mem_toList.mpr hc),h none⟩
  · rintro ⟨hloops,hresponder⟩ (_ | c) hmem
    · exact hresponder hmem
    · exact hloops c (Option.mem_toList.mp hmem)

instance (t : Tasks) (id : OrderId) : Decidable (t.Free id) :=
  decidable_of_iff ((∀ e ∈ t.loops.toList, e.2.order ≠ some id) ∧ id ∉ t.responder.orders) <| by
    rw [free_iff]
    refine and_congr_left fun _ => ⟨fun h c hc => ?_,fun h e he hid => ?_⟩
    · cases hl : t.loops[c]? with
      | none => simp [loop,hl,ReadLoop.order] at hc
      | some l =>
        rw [loop,hl] at hc
        exact h (c,l) (OrdMap.mem_toList.mpr hl) hc
    · refine h e.1 ?_
      rw [loop,OrdMap.mem_toList.mp he]
      exact hid

/-- Every token is with the order that it is for, and backs what its account has reserved. -/
structure Owned (t : Tasks) (owned : Tokens) : Prop where
  backed : Tokens.Backed t.gateway.accountManager owned
  custody : Custody discipline t.phase (view t.gateway owned)
  known : ∀ c id, (t.loop c).replaced = some id → (t.gateway.localOrder c id).isSome

namespace Owned

/-- A read loop goes on. Only its order is touched, and only its own map. -/
theorem goes (h : Owned t owned) {l : ReadLoop} {g : GatewayContext} {owned' : Tokens}
    (hbacked : Tokens.Backed g.accountManager owned')
    (htaken : ∀ id, l.order = some id → (t.loop connId).order = some id ∨ t.Free id)
    (hframe : ∀ id, (t.loop connId).order ≠ some id → l.order ≠ some id →
      view g owned' id = view t.gateway owned id)
    (hholds : l.Holds (view g owned'))
    (hclean : ∀ id, (t.loop connId).order = some id → l.order ≠ some id →
      owned'[id]? = tokenOf g.pendingOrders[id]?)
    (hothers : ∀ c id, c ≠ connId → g.localOrder c id = t.gateway.localOrder c id)
    (hknown : ∀ id, l.replaced = some id → (g.localOrder connId id).isSome) : Owned (t.goes connId l g) owned' := by
  have hphase : (t.goes connId l g).phase (some connId) = .inl l := congrArg Sum.inl (loop_goes_self ..)
  have hkey (id : OrderId) (l : ReadLoop) : id ∈ discipline.keys (.inl l) ↔ l.order = some id := Option.mem_toList
  refine ⟨hbacked,?_,fun c id hid => ?_⟩
  · refine h.custody.step (some connId) (fun w hw => ?_) (fun id hid => ?_) (fun id hold hnew => ?_) ?_
      fun id hold hnew => ?_
    · cases w with
      | none => rfl
      | some c =>
        have hne : connId ≠ c := fun heq => hw (congrArg some heq.symm)
        exact congrArg Sum.inl ((loop_goes t connId c l g).trans (if_neg hne))
    · rw [hphase,hkey] at hid
      exact (htaken id hid).imp (hkey id _).mpr fun hfree => hfree
    · rw [hphase,hkey] at hnew
      exact .inl (hframe id (fun ho => hold ((hkey id _).mpr ho)) hnew)
    · rw [hphase]
      exact hholds
    · rw [hphase,hkey] at hnew
      exact hclean id ((hkey id _).mp hold) hnew
  · rw [loop_goes] at hid
    split_ifs at hid with hc
    · exact hc ▸ hknown id hid
    · change (g.localOrder c id).isSome
      rw [hothers c id (Ne.symm hc)]
      exact h.known c id hid

/-- A read loop that works on no order goes on without one, and touches no account and no token. -/
theorem quiet (h : Owned t owned) (hloop : (t.loop connId).order = none) {l : ReadLoop} {g : GatewayContext}
    (haccounts : g.accountManager.accounts = t.gateway.accountManager.accounts)
    (htokens : ∀ id : OrderId, tokenOf g.pendingOrders[id]? = tokenOf t.gateway.pendingOrders[id]?)
    (horder : l.order = none) (hreplaced : l.replaced = none) (hholds : ∀ v, l.Holds v)
    (hothers : ∀ c id, c ≠ connId → g.localOrder c id = t.gateway.localOrder c id) :
    Owned (t.goes connId l g) owned := by
  refine h.goes (Tokens.backed_congr h.backed haccounts) (fun id hid => ?_) (fun id _ _ => ?_) (hholds _)
    (fun id hid _ => ?_) hothers fun id hid => ?_
  · rw [horder] at hid
    cases hid
  · rw [view,htokens]
    rfl
  · rw [hloop] at hid
    cases hid
  · rw [hreplaced] at hid
    cases hid

theorem replies (h : Owned t owned) (hloop : (t.loop connId).order = none) {r : Handled}
    (haccounts : r.1.accountManager.accounts = t.gateway.accountManager.accounts)
    (hpending : r.1.pendingOrders = t.gateway.pendingOrders) (hclients : r.1.clients = t.gateway.clients) :
    Owned (t.replies connId r).1 owned := by
  refine h.quiet hloop haccounts (fun id => by rw [hpending]) rfl rfl (fun _ => trivial) fun c id _ => ?_
  simp only [localOrder,hclients]

end Owned

end Tasks
end Gateway
end HighPerfTrading
