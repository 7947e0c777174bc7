import HighPerfTrading.Engine.Positions
import HighPerfTrading.System.Provenance

/-! Positions and money of the gateway against the engine's fills. The gateway follows them while
every fill that it handles finds both of its orders still tracked. -/
namespace HighPerfTrading
open Gateway Gateway.GatewayContext

/-- The accounts and sides of the orders that were placed. -/
def Ledger.owners (l : Ledger) : Engine.Owners := fun id => (l.placed id).map fun p => (p.2.accountId,p.2.side)

namespace System
variable {S : Type} [Slab S Order] {sys : System S} {l : Ledger}

/-! ### One account -/

/-- The fills' quantities of one symbol. -/
def qtyOf (sym : SymbolId) (f : Fill) : ℤ := if f.symbolId = sym then f.qty.toInt else 0

def costOf (f : Fill) : ℤ := f.price.toInt*f.qty.toInt

/-- The positions are the signed quantities of the fills, and the buying power has paid for the buys
and received the sells, all modulo 2^64. -/
structure Mirrored (owners : Engine.Owners) (fs : List Fill) (a : AccountId) (s₀ s : Gateway.AccountState) : Prop where
  net : ∀ sym, (s.getPosition sym).netPosition = Int64.ofInt (Engine.netOf owners a (qtyOf sym) fs)
  power : s.buyingPower = s₀.buyingPower-Int64.ofInt (Engine.netOf owners a costOf fs)

/-- The account moves by one side of a fill. -/
structure Moves (owners : Engine.Owners) (f : Fill) (id : OrderId) (a : AccountId) (s s' : Gateway.AccountState) :
    Prop where
  net : ∀ sym, (s'.getPosition sym).netPosition =
    (s.getPosition sym).netPosition+Int64.ofInt (Engine.share owners a id (qtyOf sym f))
  power : s'.buyingPower = s.buyingPower-Int64.ofInt (Engine.share owners a id (costOf f))

theorem moves_fillAccount {owners : Engine.Owners} {md : OrderMetadata} {id : OrderId}
    (hown : owners id = some (md.reservationToken.accountId,md.side)) (f : Fill) (a : AccountId)
    (s : Gateway.AccountState) : Moves owners f id a s (if a = md.reservationToken.accountId then
      Gateway.AccountManager.fillAccount s f md.reservationToken (decide (md.side = .buy)) else s) := by
  by_cases ha : a = md.reservationToken.accountId
  · have hshare : ∀ n, Engine.share owners a id n = Engine.signed md.side n := by
      intro n
      rw [Engine.share,hown,Option.elim_some,if_pos ha.symm]
    rw [if_pos ha]
    refine ⟨fun sym => ?_,?_⟩
    · rw [Gateway.AccountManager.getPosition_fillAccount,hshare,qtyOf]
      congr 1
      by_cases hsym : f.symbolId = sym
      · rw [if_pos hsym.symm,if_pos hsym]
        cases md.side <;> simp [Engine.signed]
      · rw [if_neg (Ne.symm hsym),if_neg hsym]
        cases md.side <;> rfl
    · rw [hshare,costOf]
      cases md.side <;> simp [Engine.signed,Gateway.AccountManager.fillAccount]
  · have hshare : ∀ n, Engine.share owners a id n = 0 := by
      intro n
      rw [Engine.share,hown,Option.elim_some,if_neg (Ne.symm ha)]
    rw [if_neg ha]
    exact ⟨fun sym => by rw [hshare]; exact (add_zero _).symm,by rw [hshare]; exact (sub_zero _).symm⟩

/-- One more fill, with both of its sides. -/
theorem Mirrored.fill {owners : Engine.Owners} {fs : List Fill} {f : Fill} {a : AccountId}
    {s₀ s s₁ s₂ : Gateway.AccountState} (h : Mirrored owners fs a s₀ s) (hm : Moves owners f f.makerOrderId a s s₁)
    (ht : Moves owners f f.takerOrderId a s₁ s₂) : Mirrored owners (fs ++ [f]) a s₀ s₂ := by
  refine ⟨fun sym => ?_,?_⟩
  · rw [ht.net,hm.net,h.net]
    simp only [Engine.netOf_append,Engine.netOf_cons,Engine.netOf_nil,add_zero,Int64.ofInt_add,add_assoc]
  · rw [ht.power,hm.power,h.power]
    simp only [Engine.netOf_append,Engine.netOf_cons,Engine.netOf_nil,add_zero,Int64.ofInt_add,sub_sub,add_assoc]

/-- Handling a fill moves its maker and then its taker. -/
theorem handleFill_moves {owners : Engine.Owners} {g : GatewayContext} {f : Fill} {m t : OrderMetadata}
    (hm : g.pendingOrders[f.makerOrderId]? = some m) (ht : g.pendingOrders[f.takerOrderId]? = some t)
    (hmown : owners f.makerOrderId = some (m.reservationToken.accountId,m.side))
    (htown : owners f.takerOrderId = some (t.reservationToken.accountId,t.side)) (c : UInt64) {a : AccountId}
    {s₂ : Gateway.AccountState} (hs₂ : (g.handleFill c f).1.accountManager.accounts[a]? = some s₂) :
    ∃ s s₁, g.accountManager.accounts[a]? = some s ∧ Moves owners f f.makerOrderId a s s₁ ∧
      Moves owners f f.takerOrderId a s₁ s₂ := by
  simp only [handleFill,hm,ht,settleFill,Gateway.AccountManager.accounts_applyFill,Option.map_map] at hs₂
  obtain ⟨s,hs,rfl⟩ := Option.map_eq_some_iff.mp hs₂
  exact ⟨s,_,hs,moves_fillAccount hmown f a s,moves_fillAccount htown f a _⟩

/-! ### What does not move an account -/

/-- Positions and money stay; reservations may change. -/
def SameMoney (s s' : Gateway.AccountState) : Prop := s'.positions = s.positions ∧ s'.buyingPower = s.buyingPower

theorem Mirrored.same {owners : Engine.Owners} {fs : List Fill} {a : AccountId} {s₀ s s' : Gateway.AccountState}
    (h : Mirrored owners fs a s₀ s) (hs : SameMoney s s') : Mirrored owners fs a s₀ s' := by
  refine ⟨fun sym => ?_,by rw [hs.2]; exact h.power⟩
  rw [Gateway.AccountState.getPosition,hs.1]
  exact h.net sym

theorem SameMoney.trans {s s' s'' : Gateway.AccountState} (h : SameMoney s s') (h' : SameMoney s' s'') : SameMoney s s'' :=
  ⟨h'.1.trans h.1,h'.2.trans h.2⟩

/-- A write of an account that moves no money. -/
theorem sameMoney_put {m : Gateway.AccountManager} {acct a : AccountId} {x y s' : Gateway.AccountState}
    (hx : m.accounts[acct]? = some x) (hxy : SameMoney x y) (hs' : (m.put acct y).accounts[a]? = some s') :
    ∃ s, m.accounts[a]? = some s ∧ SameMoney s s' := by
  rw [Gateway.AccountManager.accounts_put] at hs'
  split_ifs at hs' with hacct
  · obtain rfl := Option.some.inj hs'
    exact ⟨x,hacct ▸ hx,hxy⟩
  · exact ⟨s',hs',rfl,rfl⟩

theorem sameMoney_route {g : GatewayContext} {connId : UInt64} {cmd : Command} {token : ReservationToken} {routed : Bool}
    {a : AccountId} {s' : Gateway.AccountState}
    (hs' : (g.route connId cmd token routed).1.accountManager.accounts[a]? = some s') :
    ∃ s, g.accountManager.accounts[a]? = some s ∧ SameMoney s s' := by
  cases routed with
  | true => exact ⟨s',hs',rfl,rfl⟩
  | false =>
    rw [(g.route_failed connId cmd token).1,Gateway.AccountManager.accounts_releaseReservation] at hs'
    obtain ⟨s,hs,rfl⟩ := Option.map_eq_some_iff.mp hs'
    refine ⟨s,hs,?_⟩
    split_ifs <;> exact ⟨rfl,rfl⟩

/-- No command moves money at the gateway. -/
theorem sameMoney_handled {g : GatewayContext} {connId : UInt64} {cmd : Command} {routed : Bool} {a : AccountId}
    {s' : Gateway.AccountState}
    (hs' : (g.handleCommand connId cmd routed).1.accountManager.accounts[a]? = some s') :
    ∃ s, g.accountManager.accounts[a]? = some s ∧ SameMoney s s' := by
  have hreserved : ∀ {g₁ : GatewayContext} {acct : AccountId} {x y : Gateway.AccountState} {cmd : Command}
      {token : ReservationToken}, g₁.accountManager = g.accountManager.put acct y →
      g.accountManager.accounts[acct]? = some x → SameMoney x y →
      (g₁.route connId cmd token routed).1.accountManager.accounts[a]? = some s' →
      ∃ s, g.accountManager.accounts[a]? = some s ∧ SameMoney s s' := by
    intro g₁ acct x y cmd token hm hx hxy hroute
    obtain ⟨s₁,hs₁,hmoney₁⟩ := sameMoney_route hroute
    rw [hm] at hs₁
    obtain ⟨s,hs,hmoney⟩ := sameMoney_put hx hxy hs₁
    exact ⟨s,hs,hmoney.trans hmoney₁⟩
  by_cases hcarries : g.Carries connId cmd routed
  · have hcarried := hcarries.carriedOut
    generalize g.handleCommand connId cmd routed = handled at hs' hcarried
    cases hcarried with
    | ordered no token m hok =>
      obtain ⟨x,hx,-,rfl⟩ := Gateway.AccountManager.checkAndReserveOrder_ok hok
      refine hreserved (accountManager_track ..) hx ?_ hs'
      exact ⟨rfl,rfl⟩
    | cancelling c =>
      have hsame : (g.handleCancel connId c routed).1.accountManager.accounts = g.accountManager.accounts := by
        cases routed <;> simp [handleCancel,reject]
      exact ⟨s',hsame ▸ hs',rfl,rfl⟩
    | unknown r md token m hmd hok hl =>
      obtain ⟨x,hx,-,rfl⟩ := Gateway.AccountManager.adjustReservation_ok hok
      refine hreserved rfl hx ?_ hs'
      exact ⟨rfl,rfl⟩
    | known r md token m y hmd hok hl =>
      obtain ⟨x,hx,-,rfl⟩ := Gateway.AccountManager.adjustReservation_ok hok
      refine hreserved (accountManager_track ..) hx ?_ hs'
      exact ⟨rfl,rfl⟩
    | limits srl hr => exact sameMoney_route hs'
  · exact ⟨s',((handleCommand_quiet hcarries).accounts a).symm.trans hs',rfl,rfl⟩

theorem sameMoney_release (g : GatewayContext) (id : OrderId) {a : AccountId} {s' : Gateway.AccountState}
    (hs' : (g.release id).accountManager.accounts[a]? = some s') :
    ∃ s, g.accountManager.accounts[a]? = some s ∧ SameMoney s s' := by
  unfold release at hs'
  cases hmd : g.pendingOrders[id]? with
  | none =>
    rw [hmd] at hs'
    exact ⟨s',hs',rfl,rfl⟩
  | some md =>
    rw [hmd] at hs'
    simp only [Gateway.AccountManager.accounts_releaseReservation] at hs'
    obtain ⟨s,hs,rfl⟩ := Option.map_eq_some_iff.mp hs'
    refine ⟨s,hs,?_⟩
    split_ifs <;> exact ⟨rfl,rfl⟩

theorem sameMoney_event {g : GatewayContext} {c : UInt64} {event : Event} (hev : event.toFill = none)
    {a : AccountId} {s' : Gateway.AccountState}
    (hs' : (g.handleEngineEvent c event).1.accountManager.accounts[a]? = some s') :
    ∃ s, g.accountManager.accounts[a]? = some s ∧ SameMoney s s' := by
  cases event with
  | fill f => cases hev
  | ack ak =>
    simp only [handleEngineEvent,handleAck] at hs'
    cases hmd : g.pendingOrders[ak.orderId]? with
    | none =>
      rw [hmd] at hs'
      exact ⟨s',hs',rfl,rfl⟩
    | some md =>
      rw [hmd] at hs'
      cases hop : md.operation with
      | active =>
        simp only [hop] at hs'
        exact ⟨s',hs',rfl,rfl⟩
      | cancelPending =>
        simp only [hop] at hs'
        exact sameMoney_release g _ hs'
  | reject r =>
    simp only [handleEngineEvent,handleReject] at hs'
    cases hid : r.orderId with
    | none =>
      rw [hid] at hs'
      exact ⟨s',hs',rfl,rfl⟩
    | some id =>
      rw [hid] at hs'
      exact sameMoney_release g id hs'
  | bookTop t => exact ⟨s',hs',rfl,rfl⟩
  | accountState st => exact ⟨s',hs',rfl,rfl⟩
  | authSuccess au => exact ⟨s',hs',rfl,rfl⟩
  | authFailure au => exact ⟨s',hs',rfl,rfl⟩

/-! ### The invariant -/

/-- The steps that the gateway follows. A delivered fill finds both orders tracked and the maker's
connection open; a replacement that a connection tracks is for the account of the order's token. -/
def FollowsFills (sys : System S) : Action → Prop
  | .frame connId bytes _ => ∀ r md p, sys.gateway.decoded connId bytes = some (.replace r) →
      sys.gateway.pendingOrders[r.orderId]? = some md →
      sys.gateway.accountManager.adjustReservation md.reservationToken r = .ok p →
      (sys.gateway.localOrder connId r.orderId).isSome → md.reservationToken.accountId = r.accountId
  | .deliver => ∀ c f rest, sys.toGateway = (c,.fill f)::rest →
      (∃ md, sys.gateway.pendingOrders[f.makerOrderId]? = some md ∧ (sys.gateway.clients[md.connId]?).isSome) ∧
        (sys.gateway.pendingOrders[f.takerOrderId]?).isSome
  | _ => True

/-- `m₀` are the accounts of the start. -/
structure Mirror (m₀ : Gateway.AccountManager) (sys : System S) (l : Ledger) : Prop where
  owned : ∀ id md, sys.gateway.pendingOrders[id]? = some md →
    l.owners id = some (md.reservationToken.accountId,md.side)
  known : ∀ f ∈ l.fills, FillKnown l f
  order : l.fills = l.settled ++ (sys.toGateway.map Prod.snd).filterMap Event.toFill
  accounts : ∀ a s, sys.gateway.accountManager.accounts[a]? = some s →
    ∃ s₀, m₀.accounts[a]? = some s₀ ∧ Mirrored l.owners l.settled a s₀ s
  engine : ∀ a, (sys.engine.accountManager.getPosition a).netPosition =
    Int64.ofInt (Engine.netOf l.owners a (fun f => f.qty.toInt) l.fills)
  symbol : ∀ f ∈ l.fills, f.symbolId = sys.engine.book.symbolId
  forwarded : ∀ f ∈ l.settled, ∀ c no, l.placed f.makerOrderId = some (c,no) → (c,.fill f) ∈ l.sent

theorem FillKnown.owners {l' : Ledger} {f : Fill} (h : FillKnown l f) (hl : Extends l l') :
    l.owners f.makerOrderId = l'.owners f.makerOrderId ∧ l.owners f.takerOrderId = l'.owners f.takerOrderId := by
  obtain ⟨-,m,t,hm,ht,-⟩ := h
  simp [Ledger.owners,hm,ht,hl _ _ hm,hl _ _ ht]

namespace Mirror
variable {m₀ : Gateway.AccountManager}

theorem start (funding : List (AccountId × Int64)) (apiKeys : OrdMap String AccountId)
    (hm : ∀ (a : AccountId) s, m₀.accounts[a]? = some s → s.positions = ∅)
    (hs : (System.start funding apiKeys : System S).gateway.accountManager = m₀) :
    Mirror m₀ (System.start funding apiKeys : System S) Ledger.empty where
  owned := by simp [System.start]
  known := by simp [Ledger.empty]
  order := rfl
  accounts a s h := by
    rw [hs] at h
    refine ⟨s,h,fun sym => ?_,(sub_zero _).symm⟩
    rw [Gateway.AccountState.getPosition,hm a s h]
    simp [Ledger.empty]; rfl
  engine a := by simp [System.start,Engine.new,AccountManager.new,AccountManager.getPosition,Ledger.empty]; rfl
  symbol := by simp [Ledger.empty]
  forwarded := by simp [Ledger.empty]

omit [Slab S Order] in
theorem settled_known (h : Mirror m₀ sys l) {f : Fill} (hf : f ∈ l.settled) : FillKnown l f :=
  h.known f (by rw [h.order]; exact List.mem_append_left _ hf)

omit [Slab S Order] in
/-- More orders are placed and more events sent. -/
theorem extend (h : Mirror m₀ sys l) {l' : Ledger} (hl : Extends l l') (hfills : l'.fills = l.fills)
    (hsettled : l'.settled = l.settled) (hsent : l.sent ⊆ l'.sent) : Mirror m₀ sys l' where
  owned id md hmd := by
    obtain ⟨p,hp,heq⟩ := Option.map_eq_some_iff.mp (h.owned id md hmd)
    rw [Ledger.owners,hl _ _ hp,Option.map_some,heq]
  known f hf := (h.known f (hfills ▸ hf)).extends hl
  order := by rw [hfills,hsettled]; exact h.order
  accounts a s hs := by
    obtain ⟨s₀,hs₀,hmir⟩ := h.accounts a s hs
    have hown : ∀ f ∈ l.settled, _ := fun f hf => (h.settled_known hf).owners hl
    refine ⟨s₀,hs₀,fun sym => ?_,?_⟩
    · rw [hsettled,← Engine.netOf_congr a _ hown]
      exact hmir.net sym
    · rw [hsettled,← Engine.netOf_congr a _ hown]
      exact hmir.power
  engine a := by
    have hown : ∀ f ∈ l.fills, _ := fun f hf => (h.known f hf).owners hl
    rw [hfills,← Engine.netOf_congr a _ hown]
    exact h.engine a
  symbol f hf := h.symbol f (hfills ▸ hf)
  forwarded f hf c no hno := by
    rw [hsettled] at hf
    obtain ⟨-,m,-,hm,-⟩ := h.settled_known hf
    obtain rfl := Option.some.inj ((hl _ _ hm).symm.trans hno)
    exact hsent (h.forwarded f hf c no hm)

omit [Slab S Order] in
/-- A gateway that moves no money, with new commands on their way. -/
theorem withGateway (h : Mirror m₀ sys l) {g : GatewayContext} {queue : List ExecuteCommand}
    (howned : ∀ id md, g.pendingOrders[id]? = some md → l.owners id = some (md.reservationToken.accountId,md.side))
    (hsame : ∀ {a : AccountId} {s'}, g.accountManager.accounts[a]? = some s' →
      ∃ s, sys.gateway.accountManager.accounts[a]? = some s ∧ SameMoney s s') :
    Mirror m₀ { sys with gateway := g, toEngine := queue } l where
  owned := howned
  known := h.known
  order := h.order
  accounts a s' hs' := by
    obtain ⟨s,hs,hmoney⟩ := hsame hs'
    obtain ⟨s₀,hs₀,hmir⟩ := h.accounts a s hs
    exact ⟨s₀,hs₀,hmir.same hmoney⟩
  engine := h.engine
  symbol := h.symbol
  forwarded := h.forwarded

theorem frame (h : Mirror m₀ sys l) (hk : Placed sys l) {connId : UInt64} {bytes : List UInt8} {up : Bool}
    (hp : sys.Placing l (.frame connId bytes up)) (hf : sys.FollowsFills (.frame connId bytes up)) :
    Mirror m₀ (sys.frame connId bytes up).1 (l.step sys (.frame connId bytes up)) := by
  have hm := h.extend (extends_step l sys (.frame connId bytes up)) rfl rfl (List.subset_append_left _ _)
  cases hd : sys.gateway.decoded connId bytes with
  | none =>
    rw [frame_skipped hd]
    exact hm
  | some cmd =>
    rw [frame_decoded hd]
    refine hm.withGateway (fun id md hmd => ?_) sameMoney_handled
    cases entryOrigin hmd with
    | stays cmd old hold hmd =>
      rw [hmd]
      exact hm.owned id old hold
    | ordered no hid hacct hside hconn =>
      have hno := (hp _ hd).2.2
      simp [Ledger.owners,Ledger.step,Ledger.place,hd,hid,hno,hacct,hside]
    | replaced r old p x hid hold hok hlocal hacct hside hconn =>
      subst hid
      have hsame := hf r old p hd hold hok (by rw [hlocal]; rfl)
      rw [hm.owned _ old hold,hacct,← hsame,hside,hk.side_agrees hlocal hold]

/-- The engine's positions move by the fills that it emits. -/
theorem engineStep (h : Mirror m₀ sys l) (hk : Placed sys l) :
    Mirror m₀ sys.engineStep.1 (l.step sys .engine) := by
  have hk' := hk.engineStep
  simp only [Ledger.step]
  unfold System.engineStep at hk' ⊢
  cases hto : sys.toEngine with
  | nil => simpa using h
  | cons x rest =>
    rw [hto] at hk'
    have hfill : ∀ f ∈ (sys.engine.process x.command).2.filterMap Event.toFill,
        .fill f ∈ (sys.engine.process x.command).2 := by
      intro f hf
      obtain ⟨ev,hev,heq⟩ := List.mem_filterMap.mp hf
      cases ev with
      | fill f' => exact Option.some.inj heq ▸ hev
      | _ => cases heq
    have hsymbol := Engine.symbolId_live hk.wf (hk.incoming hto)
    refine ⟨h.owned,?_,?_,h.accounts,?_,?_,h.forwarded⟩
    · intro f hf
      rcases List.mem_append.mp hf with hf | hf
      · exact h.known f hf
      · refine hk'.events x.connId f (List.mem_append_right _ ?_)
        exact List.mem_map_of_mem (f := fun event => (x.connId,event)) (hfill f hf)
    · simp only [h.order,List.map_append,List.map_map,List.filterMap_append,List.append_assoc]
      congr 2
      simp [Function.comp_def]
    · intro a
      have hlive : ∀ id o, sys.engine.book.get id = some o → l.owners id = some (o.accountId,o.side) := by
        intro id o ho
        obtain ⟨p,hp,hacct,hside,-⟩ := hk.live id o ho
        rw [Ledger.owners,hp,Option.map_some,hacct,hside]
      have hnew : ∀ no, x.command = .newOrder no → l.owners no.orderId = some (no.accountId,no.side) := by
        intro no hno
        have hx := hk.queued x (by rw [hto]; exact List.mem_cons_self ..)
        rw [Ledger.owners,(hx.new no hno).1,Option.map_some]
      rw [Engine.positions_live hk.wf (hk.incoming hto) hlive hnew a,h.engine a,← Int64.ofInt_add,← Engine.netOf_append]
      rfl
    · intro f hf
      rcases List.mem_append.mp hf with hf | hf
      · exact (h.symbol f hf).trans hsymbol.symm
      · exact (Engine.fill_live hk.wf (hk.incoming hto) (hfill f hf)).1.trans hsymbol.symm

/-- One event is handled: a fill moves both of its accounts, and nothing else moves any. -/
theorem delivered (h : Mirror m₀ sys l) (hk : Placed sys l) (hf : sys.FollowsFills .deliver) {c : UInt64} {event : Event}
    {rest : List (UInt64 × Event)} (hto : sys.toGateway = (c,event)::rest) :
    Mirror m₀ { sys with gateway := (sys.gateway.handleEngineEvent c event).1, toGateway := rest }
      { l with
        settled := l.settled ++ [event].filterMap Event.toFill
        sent := l.sent ++ (sys.gateway.handleEngineEvent c event).2 } := by
  have howned : ∀ id md, (sys.gateway.handleEngineEvent c event).1.pendingOrders[id]? = some md →
      l.owners id = some (md.reservationToken.accountId,md.side) := by
    intro id md hmd
    rw [get_handleEngineEvent] at hmd
    split_ifs at hmd
    exact h.owned id md hmd
  have horder : l.fills = l.settled ++ ([event].filterMap Event.toFill ++ (rest.map Prod.snd).filterMap Event.toFill) := by
    rw [h.order,hto,← List.filterMap_append]; rfl
  cases event with
  | fill f =>
    obtain ⟨⟨m,hm,hopen⟩,htaker⟩ := hf c f rest hto
    obtain ⟨t,ht⟩ := Option.isSome_iff_exists.mp htaker
    refine ⟨howned,h.known,by rw [List.append_assoc]; exact horder,?_,h.engine,h.symbol,?_⟩
    · intro a s' hs'
      obtain ⟨s,s₁,hs,hmaker,htake⟩ := handleFill_moves hm ht (h.owned _ m hm) (h.owned _ t ht) c hs'
      obtain ⟨s₀,hs₀,hmir⟩ := h.accounts a s hs
      exact ⟨s₀,hs₀,hmir.fill hmaker htake⟩
    · intro g hg c' no hno
      rcases List.mem_append.mp hg with hg | hg
      · exact List.mem_append_left _ (h.forwarded g hg c' no hno)
      · obtain rfl : g = f := by simpa [Event.toFill] using hg
        obtain ⟨no',hno',-⟩ := hk.tracked _ m hm
        obtain ⟨rfl,-⟩ := Prod.mk.inj (Option.some.inj (hno'.symm.trans hno))
        refine List.mem_append_right _ ?_
        simp only [handleEngineEvent,handleFill,hm]
        refine List.mem_append_left _ ?_
        simp only [Option.elim_some,sendTo,hopen,if_true]
        exact List.mem_singleton_self _
  | _ =>
    refine ⟨howned,h.known,by rw [List.append_assoc]; exact horder,?_,h.engine,h.symbol,?_⟩
    · intro a s' hs'
      obtain ⟨s,hs,hmoney⟩ := sameMoney_event rfl hs'
      obtain ⟨s₀,hs₀,hmir⟩ := h.accounts a s hs
      refine ⟨s₀,hs₀,?_⟩
      change Mirrored l.owners (l.settled ++ []) a s₀ s'
      rw [List.append_nil]
      exact hmir.same hmoney
    · intro g hg c' no hno
      have hg' : g ∈ l.settled := by simpa [Event.toFill] using hg
      exact List.mem_append_left _ (h.forwarded g hg' c' no hno)

theorem deliver (h : Mirror m₀ sys l) (hk : Placed sys l) (hf : sys.FollowsFills .deliver) :
    Mirror m₀ sys.deliver.1 (l.step sys .deliver) := by
  simp only [Ledger.step]
  unfold System.deliver
  cases hto : sys.toGateway with
  | nil => simpa using h
  | cons e rest => exact h.delivered hk hf hto

theorem step (h : Mirror m₀ sys l) (hk : Placed sys l) {a : Action} (hp : sys.Placing l a) (hf : sys.FollowsFills a) :
    Mirror m₀ (sys.step a) (l.step sys a) := by
  cases a with
  | connect decodeCommand => exact h.withGateway h.owned fun hs => ⟨_,hs,rfl,rfl⟩
  | disconnect connId => exact h.withGateway h.owned fun hs => ⟨_,hs,rfl,rfl⟩
  | frame connId bytes up => exact h.frame hk hp hf
  | engine => exact h.engineStep hk
  | deliver => exact h.deliver hk hf

end Mirror

variable {funding : List (AccountId × Int64)} {apiKeys : OrdMap String AccountId}

/-- The accounts as they are funded. -/
def funded (funding : List (AccountId × Int64)) : Gateway.AccountManager :=
  funding.foldl (fun m f => m.createAccount f.1 f.2) Gateway.AccountManager.new

theorem Run.mirror (h : Run funding apiKeys (fun sys l a => sys.Placing l a ∧ sys.FollowsFills a) sys l) :
    Mirror (funded funding) sys l := by
  refine h.keeps (Mirror.start funding apiKeys (fun a s hs => ?_) rfl) fun hrun hmirror ha =>
    hmirror.step (hrun.placed fun _ _ _ ha => ha.1) ha.1 ha.2
  exact (Gateway.AccountManager.accounts_funded funding (by simp [Gateway.AccountManager.new]) a s hs).1

/-- In runs with fresh ids and positive prices and quantities whose fills the gateway follows, once
every fill is delivered: the gateway's positions are the signed quantities of the engine's fills, and
so are the engine's; buying power is the funding less what was bought plus what was sold; and every
fill went to the connection that placed its maker. -/
theorem Run.mirrors_fills (h : Run funding apiKeys (fun sys l a => sys.Placing l a ∧ sys.FollowsFills a) sys l)
    (hdone : ∀ c f, (c,Event.fill f) ∉ sys.toGateway) :
    (∀ a s, sys.gateway.accountManager.accounts[a]? = some s →
      (∀ sym, (s.getPosition sym).netPosition = Int64.ofInt (Engine.netOf l.owners a (qtyOf sym) l.fills)) ∧
      (s.getPosition sys.engine.book.symbolId).netPosition = (sys.engine.accountManager.getPosition a).netPosition ∧
      ∃ s₀, (funded funding).accounts[a]? = some s₀ ∧
        s.buyingPower = s₀.buyingPower-Int64.ofInt (Engine.netOf l.owners a costOf l.fills)) ∧
    ∀ f ∈ l.fills, ∀ c no, l.placed f.makerOrderId = some (c,no) → (c,.fill f) ∈ l.sent := by
  have hm := h.mirror
  have hall : l.fills = l.settled := by
    have hnone : (sys.toGateway.map Prod.snd).filterMap Event.toFill = [] := by
      refine List.filterMap_eq_nil_iff.mpr fun ev hev => ?_
      obtain ⟨⟨c,ev'⟩,hmem,rfl⟩ := List.mem_map.mp hev
      cases ev' with
      | fill f => exact absurd hmem (hdone c f)
      | _ => rfl
    rw [hm.order,hnone,List.append_nil]
  refine ⟨fun a s hs => ?_,fun f hf => hm.forwarded f (hall ▸ hf)⟩
  obtain ⟨s₀,hs₀,hmir⟩ := hm.accounts a s hs
  rw [hall]
  refine ⟨hmir.net,?_,s₀,hs₀,hmir.power⟩
  have hqty : Engine.netOf l.owners a (qtyOf sys.engine.book.symbolId) l.settled =
      Engine.netOf l.owners a (fun f => f.qty.toInt) l.settled := by
    unfold Engine.netOf
    congr 1
    refine List.map_congr_left fun f hf => ?_
    rw [qtyOf,if_pos (hm.symbol f (hall ▸ hf))]
  rw [hmir.net,hqty,hm.engine a,hall]

omit [Slab S Order] in
theorem followsFills_frame {connId : UInt64} {bytes : List UInt8} {up : Bool} (cmd : Command)
    (hd : sys.gateway.decoded connId bytes = some cmd) (hcmd : ∀ r, cmd ≠ .replace r) :
    sys.FollowsFills (.frame connId bytes up) := by
  intro r md p hr
  exact absurd (Option.some.inj (hd.symm.trans hr)) (hcmd r)

omit [Slab S Order] in
/-- The next event is no fill, or both of its orders are tracked. -/
theorem followsFills_deliver (h : sys.toGateway.head?.all fun e => match e.2 with
    | .fill f => (sys.gateway.pendingOrders[f.makerOrderId]?).any
        (fun md => (sys.gateway.clients[md.connId]?).isSome) && (sys.gateway.pendingOrders[f.takerOrderId]?).isSome
    | _ => true) : sys.FollowsFills .deliver := by
  intro c f rest hto
  rw [hto] at h
  simpa [Option.any_eq_true] using h

/-- A sell takes the whole of a resting buy, after new limits, an order that is not routed and one for a
symbol without an engine. -/
def fullFill : List Action := logins ++
  [.send 1 (.setRiskLimits ⟨1,1,1,500,1000,1000⟩),.engine,.deliver,
    .frame 2 (BinaryCodec.encodeCommand (.newOrder ⟨1,8,2,1,.sell,100,3,.gtc,⟨false⟩⟩)) false,
    .send 1 (.newOrder ⟨1,9,1,2,.buy,100,3,.gtc,⟨false⟩⟩),
    .send 1 (.newOrder ⟨2,1,1,1,.buy,100,10,.gtc,⟨false⟩⟩),.engine,.deliver,.deliver,
    .send 2 (.newOrder ⟨2,2,2,1,.sell,100,10,.gtc,⟨false⟩⟩),.engine,.deliver,.deliver,.deliver]

/-- After that both have the position, and the buyer has paid. -/
theorem fullFill_mirrored :
    let sys := ((System.start twoAccounts twoKeys : System (FreeListSlab Order)).execute Ledger.empty fullFill).1
    ∃ s, sys.gateway.accountManager.accounts[(1 : AccountId)]? = some s ∧
      (sys.engine.accountManager.getPosition 1).netPosition = 10 ∧
      (s.getPosition sys.engine.book.symbolId).netPosition = (sys.engine.accountManager.getPosition 1).netPosition ∧
      s.buyingPower = 999000 := by
  have hrun : Allowed (fun sys l a => sys.Placing l a ∧ sys.FollowsFills a)
      (System.start twoAccounts twoKeys : System (FreeListSlab Order)) Ledger.empty fullFill := by
    refine ⟨⟨?_,trivial⟩,⟨?_,trivial⟩,⟨?_,followsFills_frame (.authenticate ⟨"test-key-1"⟩) ?_ (by simp)⟩,
      ⟨?_,followsFills_frame (.authenticate ⟨"test-key-2"⟩) ?_ (by simp)⟩,
      ⟨?_,followsFills_frame (.setRiskLimits ⟨1,1,1,500,1000,1000⟩) ?_ (by simp)⟩,
      ⟨?_,trivial⟩,⟨?_,followsFills_deliver ?_⟩,
      ⟨?_,followsFills_frame (.newOrder ⟨1,8,2,1,.sell,100,3,.gtc,⟨false⟩⟩) ?_ (by simp)⟩,
      ⟨?_,followsFills_frame (.newOrder ⟨1,9,1,2,.buy,100,3,.gtc,⟨false⟩⟩) ?_ (by simp)⟩,
      ⟨?_,followsFills_frame (.newOrder ⟨2,1,1,1,.buy,100,10,.gtc,⟨false⟩⟩) ?_ (by simp)⟩,
      ⟨?_,trivial⟩,⟨?_,followsFills_deliver ?_⟩,⟨?_,followsFills_deliver ?_⟩,
      ⟨?_,followsFills_frame (.newOrder ⟨2,2,2,1,.sell,100,10,.gtc,⟨false⟩⟩) ?_ (by simp)⟩,
      ⟨?_,trivial⟩,⟨?_,followsFills_deliver ?_⟩,⟨?_,followsFills_deliver ?_⟩,⟨?_,followsFills_deliver ?_⟩,trivial⟩ <;>
    decide +kernel
  have hdone : ((System.start twoAccounts twoKeys : System (FreeListSlab Order)).execute Ledger.empty
      fullFill).1.toGateway = [] := by
    decide +kernel
  have hsome : (((System.start twoAccounts twoKeys : System (FreeListSlab Order)).execute Ledger.empty
      fullFill).1.gateway.accountManager.accounts[(1 : AccountId)]?).any (fun s => s.buyingPower = 999000) := by
    decide +kernel
  obtain ⟨s,hs,hpower⟩ := (Option.any_eq_true ..).mp hsome
  obtain ⟨hacct,-⟩ := (Run.start.execute fullFill hrun).mirrors_fills (by simp [hdone])
  refine ⟨s,hs,by decide +kernel,(hacct 1 s hs).2.1,by simpa using hpower⟩

/-- Two sells take 4 and 3 of the 10 of a resting buy. The gateway forgets the buy with the first
fill, and the second never reaches its account. -/
theorem secondFill_lost : ∃ (sys : System (FreeListSlab Order)) (l : Ledger),
    Run twoAccounts twoKeys Trading sys l ∧ sys.toEngine = [] ∧ sys.toGateway = [] ∧
      (sys.engine.accountManager.getPosition 1).netPosition = 7 ∧
      (sys.gateway.accountManager.accounts[(1 : AccountId)]?).map
        (fun s => ((s.getPosition 1).netPosition,s.buyingPower)) = some (4,999600) ∧
      l.fills.map (fun f => (f.makerOrderId,f.qty)) = [(1,4),(1,3)] ∧
      (l.sent.filterMap fun e => if e.1 = 1 then e.2.toFill else none).map Fill.qty = [4] := by
  refine ⟨_,_,Run.start.execute (logins ++
    [.send 1 (.newOrder ⟨1,1,1,1,.buy,100,10,.gtc,⟨false⟩⟩),.engine,.deliver,.deliver,
      .send 2 (.newOrder ⟨1,2,2,1,.sell,100,4,.gtc,⟨false⟩⟩),.engine,.deliver,.deliver,.deliver,
      .send 2 (.newOrder ⟨2,3,2,1,.sell,100,3,.gtc,⟨false⟩⟩),.engine,.deliver,.deliver,.deliver]) ?_,
    ?_,?_,?_,?_,?_,?_⟩ <;>
  decide +kernel

end System
end HighPerfTrading
