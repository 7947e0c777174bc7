import HighPerfTrading.System.Exchange

/-! What the gateway holds after a restart. The orders that were live then hold what was rebuilt for them,
whatever becomes of them; every later buy is tracked, and holds its token until it is gone. -/
namespace HighPerfTrading
open Gateway Gateway.GatewayContext
namespace Exchange
variable {S : Type} [Slab S Order] {ex : Exchange S} {old : OrderId → Prop} {base : AccountId → Int64}
  {engines₀ : OrdMap SymbolId (Engine S)} {g : GatewayContext} {out : Option ExecuteCommand}

/-- No order has taken the id that is live, on its way or tracked, or that is old. -/
def Unused (old : OrderId → Prop) (ex : Exchange S) (id : OrderId) : Prop :=
  ¬ old id ∧ ex.gateway.pendingOrders[id]? = none ∧
    ∀ (s : SymbolId) (v : Venue S), ex.venues[s]? = some v → ∀ k, ¬ v.Has id k

/-- The steps after which every buy that is not old holds its token, and nothing else does. New orders have
unused ids. An accepted replacement is of a buy, for the account of its token, on a connection that tracks
the order as a buy. An immediate-or-cancel buy that an engine does not refuse finds a maker. An event drops
no tracked buy that is live or on its way. -/
def Settles (old : OrderId → Prop) (ex : Exchange S) : Action → Prop
  | .frame connId bytes _ => ∀ cmd, ex.gateway.decoded connId bytes = some cmd →
      (∀ no, cmd = .newOrder no → ex.Unused old no.orderId) ∧
      ∀ r md p, cmd = .replace r → ex.gateway.pendingOrders[r.orderId]? = some md →
        ex.gateway.accountManager.adjustReservation md.reservationToken r = .ok p →
        (∃ x, ex.gateway.localOrder connId r.orderId = some x ∧ x.2.1 = true) ∧
          md.reservationToken.accountId = r.accountId ∧ md.side = .buy
  | .engine s => ∀ v x rest no, ex.venues[s]? = some v → v.toEngine = x::rest → x.command = .newOrder no →
      no.side = .buy → no.tif = .ioc → v.engine.refusal no = none → Engine.Crosses v.engine.book no
  | .deliver s => ∀ v c event rest, ex.venues[s]? = some v → v.toGateway = (c,event)::rest →
      ∀ id, (ex.gateway.pendingOrders[id]?).isSome → ex.gateway.drops event id = true →
        ∀ (s' : SymbolId) (v' : Venue S), ex.venues[s']? = some v' → ¬ v'.Has id .buy
  | _ => True

/-- A token that some venue accounts for. -/
def Accounted (ex : Exchange S) (id : OrderId) (md : OrderMetadata) : Prop :=
  ∃ (s : SymbolId) (v : Venue S), ex.venues[s]? = some v ∧ System.Accounted (ex.view v) id md

/-- The state some time after a restart with these engines, which rebuilt these reservations. -/
structure Resumed (old : OrderId → Prop) (base : AccountId → Int64) (engines₀ : OrdMap SymbolId (Engine S))
    (ex : Exchange S) : Prop where
  sound : ∀ (s : SymbolId) (v : Venue S), ex.venues[s]? = some v → ∃ e₀, engines₀[s]? = some e₀ ∧ v.Sound old e₀
  connected : ∀ s : SymbolId, (engines₀[s]?).isSome → (ex.venues[s]?).isSome
  apart : ∀ id, ¬ old id → ∀ (s s' : SymbolId) (v v' : Venue S) k k', ex.venues[s]? = some v → v.Has id k →
    ex.venues[s']? = some v' → v'.Has id k' → s = s'
  balanced : BalancedFrom base ex.gateway
  recent : ∀ id md, ex.gateway.pendingOrders[id]? = some md → ¬ old id
  sides : ∀ (id : OrderId) (md : OrderMetadata), ex.gateway.pendingOrders[id]? = some md → ∀ (s : SymbolId) (v : Venue S) k,
    ex.venues[s]? = some v → v.Has id k → k = md.side
  covered : ∀ id, ¬ old id → ∀ (s : SymbolId) (v : Venue S), ex.venues[s]? = some v → v.Has id .buy →
    (ex.gateway.pendingOrders[id]?).isSome
  sells : ∀ (id : OrderId) (md : OrderMetadata), ex.gateway.pendingOrders[id]? = some md → md.side = .sell →
    md.reservationToken.amount = 0
  buys : ∀ (id : OrderId) (md : OrderMetadata), ex.gateway.pendingOrders[id]? = some md → md.side = .buy → ex.Accounted id md

/-! ### A command on its way -/

theorem has_sent {venues : OrdMap SymbolId (Venue S)} {s : SymbolId} {v' : Venue S} {id : OrderId} {k : Side}
    (hv' : (sent venues out)[s]? = some v') (hid : v'.Has id k) : (∃ v, venues[s]? = some v ∧ v.Has id k) ∨
      ∃ x no, out = some x ∧ commandSymbolId x.command = some s ∧ x.command = .newOrder no ∧ no.orderId = id ∧
        no.side = k := by
  rw [get_sent] at hv'
  obtain ⟨v,hv,rfl⟩ := Option.map_eq_some_iff.mp hv'
  rcases Venue.has_receive.mp hid with hid | ⟨x,no,hx,hno⟩
  · exact Or.inl ⟨v,hv,hid⟩
  · obtain ⟨hout,hs⟩ := addressed_eq_some.mp hx
    exact Or.inr ⟨x,no,hout,hs,hno⟩

theorem has_of_sent {venues : OrdMap SymbolId (Venue S)} {s : SymbolId} {v' : Venue S} {id : OrderId} {k : Side}
    (hnew : ∀ x no, out = some x → x.command ≠ .newOrder no) (hv' : (sent venues out)[s]? = some v')
    (hid : v'.Has id k) : ∃ v, venues[s]? = some v ∧ v.Has id k := by
  rcases has_sent hv' hid with hold | ⟨x,no,hx,-,hno,-⟩
  · exact hold
  · exact absurd hno (hnew x no hx)

/-- A token stays accounted for when the order is sent nothing but a cancel. -/
theorem Accounted.sent {id : OrderId} {md md' : OrderMetadata} (h : ex.Accounted id md)
    (hmd : ex.gateway.pendingOrders[id]? = some md) (hmd' : g.pendingOrders[id]? = some md')
    (htoken : md'.reservationToken = md.reservationToken)
    (hop : md.operation = .cancelPending → md'.operation = .cancelPending)
    (hout : ∀ x, out = some x → commandOrderId x.command = some id →
      md'.operation = .cancelPending ∧ ∃ c, x.command = .cancel c) :
    Accounted ⟨g,Exchange.sent ex.venues out⟩ id md' := by
  obtain ⟨s,v,hv,hacc⟩ := h
  refine ⟨s,v.receive (addressed out s),by rw [get_sent,hv]; rfl,?_⟩
  exact hacc.send hmd hmd' htoken hop fun x hx => hout x (addressed_eq_some.mp hx).1

/-- The order's own command becomes its last one. -/
theorem accounted_sized {id : OrderId} {md : OrderMetadata} {x : ExecuteCommand} {s : SymbolId}
    (hs : commandSymbolId x.command = some s) (hv : (ex.venues[s]?).isSome)
    (hx : System.Sizing id md.reservationToken.accountId md.reservationToken.amount x.command) :
    Accounted ⟨g,sent ex.venues (some x)⟩ id md := by
  obtain ⟨v,hv⟩ := Option.isSome_iff_exists.mp hv
  refine ⟨s,v.receive (addressed (some x) s),by rw [get_sent,hv]; rfl,?_⟩
  rw [show addressed (some x) s = some x from addressed_eq_some.mpr ⟨rfl,hs⟩]
  have hsized : System.Accounted { ex.view v with gateway := g, toEngine := v.toEngine ++ (some x).toList } id md :=
    .onWay v.toEngine [] x rfl hx (by simp [System.OnlyCancels])
  exact hsized

namespace Resumed

theorem sound_sent (h : Resumed old base engines₀ ex)
    (hnew : ∀ x no, out = some x → x.command = .newOrder no → ex.Unused old no.orderId)
    (hnamed : ∀ x i, out = some x → commandOrderId x.command = some i → (∃ c, x.command = .cancel c) ∨ ¬ old i)
    (s : SymbolId) (v' : Venue S) (hv' : (sent ex.venues out)[s]? = some v') :
    ∃ e₀, engines₀[s]? = some e₀ ∧ v'.Sound old e₀ := by
  rw [get_sent] at hv'
  obtain ⟨v,hv,rfl⟩ := Option.map_eq_some_iff.mp hv'
  obtain ⟨e₀,he₀,hsound⟩ := h.sound s v hv
  refine ⟨e₀,he₀,hsound.receive ?_ ?_⟩
  · intro x no hx hno
    exact (hnew x no (addressed_eq_some.mp hx).1 hno).2.2 s v hv
  · intro x i hx
    exact hnamed x i (addressed_eq_some.mp hx).1

theorem connected_sent (h : Resumed old base engines₀ ex) (s : SymbolId) (hs : (engines₀[s]?).isSome) :
    ((sent ex.venues out)[s]?).isSome := by
  rw [get_sent,Option.isSome_map]
  exact h.connected s hs

theorem apart_sent (h : Resumed old base engines₀ ex)
    (hnew : ∀ x no, out = some x → x.command = .newOrder no → ex.Unused old no.orderId) (id : OrderId) (hid : ¬ old id)
    (s s' : SymbolId) (v v' : Venue S) (k k' : Side) (hv : (sent ex.venues out)[s]? = some v) (hk : v.Has id k)
    (hv' : (sent ex.venues out)[s']? = some v') (hk' : v'.Has id k') : s = s' := by
  rcases has_sent hv hk with ⟨w,hw,hwid⟩ | ⟨x,no,hx,hs,hno,rfl,-⟩
  · rcases has_sent hv' hk' with ⟨w',hw',hwid'⟩ | ⟨x,no,hx,-,hno,rfl,-⟩
    · exact h.apart id hid s s' w w' k k' hw hwid hw' hwid'
    · exact absurd hwid ((hnew x no hx hno).2.2 s w hw k)
  · rcases has_sent hv' hk' with ⟨w',hw',hwid'⟩ | ⟨x',no',hx',hs',-⟩
    · exact absurd hwid' ((hnew x no hx hno).2.2 s' w' hw' k')
    · obtain rfl := Option.some.inj (hx.symm.trans hx')
      exact Option.some.inj (hs.symm.trans hs')

/-- Entries keep their tokens and sides, and at most a cancel is sent, of an order that is marked for it. -/
theorem kept (h : Resumed old base engines₀ ex) (hb : BalancedFrom base g)
    (hcancel : ∀ x i, out = some x → commandOrderId x.command = some i → ∃ c, x.command = .cancel c)
    (hsome : ∀ id : OrderId, (g.pendingOrders[id]?).isSome = (ex.gateway.pendingOrders[id]?).isSome)
    (hentry : ∀ (id : OrderId) (md : OrderMetadata), g.pendingOrders[id]? = some md →
      ∃ md₀, ex.gateway.pendingOrders[id]? = some md₀ ∧ md.side = md₀.side ∧
        md.reservationToken = md₀.reservationToken ∧
        (md₀.operation = .cancelPending → md.operation = .cancelPending) ∧
        ∀ x, out = some x → commandOrderId x.command = some id → md.operation = .cancelPending) :
    Resumed old base engines₀ ⟨g,sent ex.venues out⟩ := by
  have hnew : ∀ x no, out = some x → x.command ≠ .newOrder no := by
    intro x no hx hno
    obtain ⟨c,hc⟩ := hcancel x no.orderId hx (by rw [hno]; rfl)
    rw [hno] at hc
    cases hc
  refine ⟨?_,h.connected_sent,?_,hb,?_,?_,?_,?_,?_⟩
  · refine h.sound_sent (fun x no hx hno => absurd hno (hnew x no hx)) fun x i hx hi => ?_
    exact Or.inl (hcancel x i hx hi)
  · exact h.apart_sent fun x no hx hno => absurd hno (hnew x no hx)
  · intro id md hmd
    obtain ⟨md₀,hmd₀,-⟩ := hentry id md hmd
    exact h.recent id md₀ hmd₀
  · intro id md hmd s v' k hv' hk
    obtain ⟨md₀,hmd₀,hside,-⟩ := hentry id md hmd
    obtain ⟨v,hv,hvid⟩ := has_of_sent hnew hv' hk
    rw [hside]
    exact h.sides id md₀ hmd₀ s v k hv hvid
  · intro id hold s v' hv' hk
    obtain ⟨v,hv,hvid⟩ := has_of_sent hnew hv' hk
    exact (hsome id).trans (h.covered id hold s v hv hvid)
  · intro id md hmd hs
    obtain ⟨md₀,hmd₀,hside,htoken,-⟩ := hentry id md hmd
    rw [htoken]
    exact h.sells id md₀ hmd₀ (hside.symm.trans hs)
  · intro id md hmd hs
    obtain ⟨md₀,hmd₀,hside,htoken,hop,hmark⟩ := hentry id md hmd
    refine (h.buys id md₀ hmd₀ (hside.symm.trans hs)).sent hmd₀ hmd htoken hop fun x hx hid => ?_
    exact ⟨hmark x hx hid,hcancel x id hx hid⟩

/-- What changes neither an account nor a tracked order, and sends no order. -/
theorem plain (h : Resumed old base engines₀ ex) (ha : g.accountManager.accounts = ex.gateway.accountManager.accounts)
    (hp : g.pendingOrders = ex.gateway.pendingOrders) (hout : ∀ x, out = some x → commandOrderId x.command = none) :
    Resumed old base engines₀ ⟨g,sent ex.venues out⟩ := by
  have hnamed : ∀ x i, out = some x → commandOrderId x.command ≠ some i := by
    intro x i hx hi
    rw [hout x hx] at hi
    cases hi
  refine h.kept ?_ (fun x i hx hi => absurd hi (hnamed x i hx)) (fun id => by rw [hp]) fun id md hmd => ?_
  · intro a s hs
    rw [ha] at hs
    rw [hp]
    exact h.balanced a s hs
  · rw [hp] at hmd
    exact ⟨md,hmd,rfl,rfl,fun hop => hop,fun x hx hid => absurd hid (hnamed x id hx)⟩

theorem cancelling (h : Resumed old base engines₀ ex) {connId : UInt64} {c : Cancel} {risk : RiskToken}
    (hb : BalancedFrom base g) (hp : g.pendingOrders = withOperation ex.gateway.pendingOrders c.orderId .cancelPending) :
    Resumed old base engines₀ ⟨g,sent ex.venues (some ⟨.cancel c,connId,risk⟩)⟩ := by
  refine h.kept hb ?_ (fun id => by rw [hp,get_withOperation,Option.isSome_map]) fun id md hmd => ?_
  · rintro x i ⟨rfl⟩ -
    exact ⟨c,rfl⟩
  · rw [hp,get_withOperation] at hmd
    obtain ⟨md₀,hmd₀,rfl⟩ := Option.map_eq_some_iff.mp hmd
    refine ⟨md₀,hmd₀,?_⟩
    by_cases hid : id = c.orderId
    · rw [if_pos hid]
      exact ⟨rfl,rfl,fun _ => rfl,fun _ _ _ => rfl⟩
    · rw [if_neg hid]
      refine ⟨rfl,rfl,fun hop => hop,?_⟩
      rintro x ⟨rfl⟩ hx
      exact absurd (Option.some.inj hx).symm hid

/-- The order that a command names gets a new entry, and the command is what its token pays for. -/
theorem entered (h : Resumed old base engines₀ ex) {x : ExecuteCommand} {id : OrderId} {md : OrderMetadata}
    {s₀ : SymbolId} (hb : BalancedFrom base g) (hx : commandOrderId x.command = some id)
    (hs₀ : commandSymbolId x.command = some s₀) (hrouted : (ex.venues[s₀]?).isSome) (hrecent : ¬ old id)
    (hp : g.pendingOrders = ex.gateway.pendingOrders.insert id md)
    (hnew : ∀ no, x.command = .newOrder no → ex.Unused old no.orderId ∧ no.side = md.side)
    (hside : ∀ (s : SymbolId) (v : Venue S) k, ex.venues[s]? = some v → v.Has id k → k = md.side)
    (hsell : md.side = .sell → md.reservationToken.amount = 0)
    (hbuy : md.side = .buy → System.Sizing id md.reservationToken.accountId md.reservationToken.amount x.command) :
    Resumed old base engines₀ ⟨g,sent ex.venues (some x)⟩ := by
  have hnew' : ∀ x' no, some x = some x' → x'.command = .newOrder no → ex.Unused old no.orderId := by
    rintro x' no ⟨rfl⟩ hno
    exact (hnew no hno).1
  -- another order is where it was before
  have hhas : ∀ {s : SymbolId} {v' : Venue S} {i : OrderId} {k : Side}, id ≠ i →
      (sent ex.venues (some x))[s]? = some v' → v'.Has i k → ∃ v, ex.venues[s]? = some v ∧ v.Has i k := by
    intro s v' i k hne hv' hi
    rcases has_sent hv' hi with hold | ⟨x',no,⟨rfl⟩,-,hno,hi',-⟩
    · exact hold
    · rw [hno] at hx
      exact absurd ((Option.some.inj hx).symm.trans hi') hne
  refine ⟨?_,h.connected_sent,h.apart_sent hnew',hb,?_,?_,?_,?_,?_⟩
  · refine h.sound_sent hnew' ?_
    rintro x' i ⟨rfl⟩ hi
    obtain rfl := Option.some.inj (hx.symm.trans hi)
    exact Or.inr hrecent
  · intro i md' hmd
    rw [hp,OrdMap.get_insert] at hmd
    split_ifs at hmd with hi
    · exact hi ▸ hrecent
    · exact h.recent i md' hmd
  · intro i md' hmd s v' k hv' hk
    rw [hp,OrdMap.get_insert] at hmd
    split_ifs at hmd with hi
    · subst hi
      obtain rfl := Option.some.inj hmd
      rcases has_sent hv' hk with ⟨v,hv,hvid⟩ | ⟨x',no,⟨rfl⟩,-,hno,-,hk'⟩
      · exact hside s v k hv hvid
      · exact hk'.symm.trans (hnew no hno).2
    · obtain ⟨v,hv,hvid⟩ := hhas hi hv' hk
      exact h.sides i md' hmd s v k hv hvid
  · intro i hold s v' hv' hk
    rw [hp,OrdMap.get_insert]
    split_ifs with hi
    · rfl
    · obtain ⟨v,hv,hvid⟩ := hhas hi hv' hk
      exact h.covered i hold s v hv hvid
  · intro i md' hmd hs
    rw [hp,OrdMap.get_insert] at hmd
    split_ifs at hmd with hi
    · obtain rfl := Option.some.inj hmd
      exact hsell hs
    · exact h.sells i md' hmd hs
  · intro i md' hmd hs
    have hget := hmd
    rw [hp,OrdMap.get_insert] at hget
    split_ifs at hget with hi
    · subst hi
      obtain rfl := Option.some.inj hget
      exact accounted_sized hs₀ hrouted (hbuy hs)
    · refine (h.buys i md' hget hs).sent hget hmd rfl (fun hop => hop) ?_
      rintro x' ⟨rfl⟩ hx'
      exact absurd (Option.some.inj (hx.symm.trans hx')) hi

theorem ordered (h : Resumed old base engines₀ ex) {connId : UInt64} {no : NewOrder} {risk : RiskToken}
    {token : ReservationToken} {am : Gateway.AccountManager} (hunused : ex.Unused old no.orderId)
    (hrouted : (ex.venues[no.symbolId]?).isSome)
    (hok : ex.gateway.accountManager.checkAndReserveOrder no = .ok (token,am))
    (hb : BalancedFrom base g)
    (hp : g.pendingOrders = ex.gateway.pendingOrders.insert no.orderId ⟨token,no.side,.active,connId⟩) :
    Resumed old base engines₀ ⟨g,sent ex.venues (some ⟨.newOrder no,connId,risk⟩)⟩ := by
  obtain ⟨_,-,rfl,-⟩ := Gateway.AccountManager.checkAndReserveOrder_ok hok
  refine h.entered hb rfl rfl hrouted hunused.1 hp ?_ ?_ (fun hs => ?_) fun hs => ?_
  · rintro no' ⟨rfl⟩
    exact ⟨hunused,rfl⟩
  · intro s v k hv hvid
    exact absurd hvid (hunused.2.2 s v hv k)
  · simp only at hs
    simp [Gateway.AccountManager.orderRequired,hs]
  · simp only at hs
    exact .order no rfl rfl hs (by simp [Gateway.AccountManager.orderRequired,hs])

theorem replacing (h : Resumed old base engines₀ ex) {connId : UInt64} {r : Replace} {risk : RiskToken}
    {md : OrderMetadata} {token : ReservationToken} {am : Gateway.AccountManager}
    (hmd : ex.gateway.pendingOrders[r.orderId]? = some md) (hbuy : md.side = .buy)
    (hrouted : (ex.venues[r.symbolId]?).isSome)
    (hok : ex.gateway.accountManager.adjustReservation md.reservationToken r = .ok (token,am))
    (hb : BalancedFrom base g)
    (hp : g.pendingOrders = ex.gateway.pendingOrders.insert r.orderId ⟨token,.buy,.active,connId⟩) :
    Resumed old base engines₀ ⟨g,sent ex.venues (some ⟨.replace r,connId,risk⟩)⟩ := by
  obtain ⟨_,-,rfl,-⟩ := Gateway.AccountManager.adjustReservation_ok hok
  refine h.entered hb rfl rfl hrouted (h.recent _ md hmd) hp ?_ ?_ (fun hs => ?_) fun _ => .replacement r rfl rfl rfl
  · intro no hno
    cases hno
  · intro s v k hv hvid
    exact (h.sides _ md hmd s v k hv hvid).trans hbuy
  · cases hs

theorem frame (h : Resumed old base engines₀ ex) {connId : UInt64} {bytes : List UInt8} {up : Bool}
    (hr : ex.Routed (.frame connId bytes up)) (hs : ex.Settles old (.frame connId bytes up)) :
    Resumed old base engines₀ (ex.frame connId bytes up) := by
  obtain ⟨g,out,hframe,hdec,heff⟩ := frame_effect hr
  rw [hframe]
  rcases heff with heff | ⟨ha,hp,hout⟩
  · have hb : BalancedFrom base g := by
      refine h.balanced.frame heff ?_ ?_
      · intro x no hx hno
        exact ((hs _ (hdec x hx)).1 no hno).2.1
      · intro x r md p hx hcmd hmd hok
        obtain ⟨⟨y,hy,-⟩,hacct,-⟩ := (hs _ (hdec x hx)).2 r md p hcmd hmd hok
        exact ⟨by rw [hy]; rfl,hacct⟩
    cases heff with
    | quiet ha hp hl => exact h.plain ha hp (by simp)
    | ordered no token am risk hok ha hp hl =>
      have hd := hdec _ rfl
      exact h.ordered ((hs _ hd).1 no rfl) (hr.2 _ _ hd (by simp) rfl) hok hb hp
    | cancelling c risk ha hp hl => exact h.cancelling hb hp
    | replacing r md token am risk hmd hok ha hp hl =>
      have hd := hdec _ rfl
      obtain ⟨⟨y,hy,hybuy⟩,-,hbuy⟩ := (hs _ hd).2 r md _ rfl hmd hok
      simp only [hy,hybuy,if_true] at hp
      exact h.replacing hmd hbuy (hr.2 _ _ hd (by simp) rfl) hok hb hp
  · exact h.plain ha hp hout

/-! ### A step of one venue -/

section Insert
variable {s : SymbolId} {v w : Venue S} (hv : ex.venues[s]? = some v) (hkeeps : ∀ id k, w.Has id k → v.Has id k)
include hv hkeeps

theorem has_of_insert {s' : SymbolId} {u : Venue S} {id : OrderId} {k : Side}
    (hu : (ex.venues.insert s w)[s']? = some u) (hid : u.Has id k) : ∃ u₀, ex.venues[s']? = some u₀ ∧ u₀.Has id k := by
  rw [OrdMap.get_insert] at hu
  split_ifs at hu with hs
  · obtain rfl := Option.some.inj hu
    exact ⟨v,hs ▸ hv,hkeeps id k hid⟩
  · exact ⟨u,hu,hid⟩

/-- A venue moves on, and the gateway with it. -/
theorem insert (h : Resumed old base engines₀ ex) (hsound : ∀ e₀, v.Sound old e₀ → w.Sound old e₀)
    (hb : BalancedFrom base g)
    (hp : ∀ (id : OrderId) (md : OrderMetadata), g.pendingOrders[id]? = some md → ex.gateway.pendingOrders[id]? = some md)
    (hcovered : ∀ id, ¬ old id → ∀ (s' : SymbolId) (u : Venue S), ex.venues[s']? = some u → u.Has id .buy →
      (g.pendingOrders[id]?).isSome)
    (hbuys : ∀ (id : OrderId) (md : OrderMetadata), g.pendingOrders[id]? = some md → md.side = .buy →
      Accounted ⟨g,ex.venues.insert s w⟩ id md) :
    Resumed old base engines₀ ⟨g,ex.venues.insert s w⟩ := by
  refine ⟨?_,?_,?_,hb,?_,?_,?_,?_,hbuys⟩
  · intro s' u hu
    rw [OrdMap.get_insert] at hu
    split_ifs at hu with hs
    · obtain rfl := Option.some.inj hu
      obtain ⟨e₀,he₀,hold⟩ := h.sound s v hv
      exact ⟨e₀,hs ▸ he₀,hsound e₀ hold⟩
    · exact h.sound s' u hu
  · intro s' hs'
    rw [OrdMap.get_insert]
    split_ifs
    · rfl
    · exact h.connected s' hs'
  · intro id hid s₁ s₂ u₁ u₂ k₁ k₂ hu₁ hk₁ hu₂ hk₂
    obtain ⟨t₁,ht₁,hk₁⟩ := has_of_insert hv hkeeps hu₁ hk₁
    obtain ⟨t₂,ht₂,hk₂⟩ := has_of_insert hv hkeeps hu₂ hk₂
    exact h.apart id hid s₁ s₂ t₁ t₂ k₁ k₂ ht₁ hk₁ ht₂ hk₂
  · exact fun id md hmd => h.recent id md (hp id md hmd)
  · intro id md hmd s' u k hu hk
    obtain ⟨t,ht,hk⟩ := has_of_insert hv hkeeps hu hk
    exact h.sides id md (hp id md hmd) s' t k ht hk
  · intro id hold s' u hu hk
    obtain ⟨t,ht,hk⟩ := has_of_insert hv hkeeps hu hk
    exact hcovered id hold s' t ht hk
  · exact fun id md hmd => h.sells id md (hp id md hmd)

end Insert

theorem engine (h : Resumed old base engines₀ ex) {s : SymbolId} (hs : ex.Settles old (.engine s)) :
    Resumed old base engines₀ (ex.step (.engine s)) := by
  simp only [step]
  cases hv : ex.venues[s]? with
  | none => exact h
  | some v =>
    simp only [System.engineStep]
    cases hto : (ex.view v).toEngine with
    | nil =>
      simp only [putView,view]
      rw [OrdMap.insert_eq_self.mpr hv]
      exact h
    | cons x rest =>
      have hto' : v.toEngine = x::rest := hto
      obtain ⟨e₀,-,hsound⟩ := h.sound s v hv
      refine h.insert (w := v.processed x rest) hv (fun id k => hsound.has_processed hto')
        (fun e₁ h₁ => h₁.processed hto') h.balanced (fun id md hmd => hmd) h.covered ?_
      intro id md hmd hbuy
      obtain ⟨s',w,hw,hacc⟩ := h.buys id md hmd hbuy
      by_cases hss : s = s'
      · subst hss
        obtain rfl := Option.some.inj (hv.symm.trans hw)
        refine ⟨s,v.processed x rest,by rw [OrdMap.get_insert,if_pos rfl],?_⟩
        have hlive : ∀ o, v.engine.book.get id = some o → o.side = .buy ∧ o.tif = .gtc := by
          intro o ho
          have hside := h.sides id md hmd s v o.side hv (Or.inl ⟨o,ho,rfl⟩)
          exact ⟨hside.trans hbuy,hsound.rests id o (h.recent id md hmd) ho⟩
        rcases hsound.effect hto' with heff | ⟨hnone,hb,-⟩
        · exact hacc.processed hsound.wf hlive hmd hto (fun no => hs v x rest no hv hto') heff
        · exact hacc.unnamed hto hnone hb _
      · exact ⟨s',w,by rw [OrdMap.get_insert,if_neg hss]; exact hw,hacc⟩

theorem deliver (h : Resumed old base engines₀ ex) {s : SymbolId} (hs : ex.Settles old (.deliver s)) :
    Resumed old base engines₀ (ex.step (.deliver s)) := by
  simp only [step]
  cases hv : ex.venues[s]? with
  | none => exact h
  | some v =>
    simp only [System.deliver]
    cases hto : (ex.view v).toGateway with
    | nil =>
      simp only [putView,view]
      rw [OrdMap.insert_eq_self.mpr hv]
      exact h
    | cons e rest =>
      obtain ⟨c,event⟩ := e
      have hto' : v.toGateway = (c,event)::rest := hto
      obtain ⟨e₀,-,hsound⟩ := h.sound s v hv
      have hget := get_handleEngineEvent ex.gateway c event
      refine h.insert (w := { v with toGateway := rest }) (g := (ex.gateway.handleEngineEvent c event).1) hv
        (fun id k hk => hk) (fun e₁ h₁ => h₁.delivered fun e he => by rw [hto']; exact List.mem_cons_of_mem _ he)
        (h.balanced.handleEngineEvent c ?_) ?_ ?_ ?_
      · rintro f rfl
        exact hsound.fills c f (by rw [hto']; exact List.mem_cons_self ..)
      · intro id md hmd
        rw [hget] at hmd
        split_ifs at hmd
        exact hmd
      · intro id hold s' w hw hk
        have hsome := h.covered id hold s' w hw hk
        rw [hget,if_neg]
        · exact hsome
        · exact fun hdrop => hs v c event rest hv hto' id hsome hdrop s' w hw hk
      · intro id md hmd hbuy
        have hmd' := hmd
        rw [hget] at hmd'
        split_ifs at hmd' with hdrop
        obtain ⟨s',w,hw,hacc⟩ := h.buys id md hmd' hbuy
        by_cases hss : s = s'
        · subst hss
          obtain rfl := Option.some.inj (hv.symm.trans hw)
          refine ⟨s,{ v with toGateway := rest },by rw [OrdMap.get_insert,if_pos rfl],?_⟩
          exact hacc.deliver hto (Bool.not_eq_true _ ▸ hdrop) hmd'
        · refine ⟨s',w,by rw [OrdMap.get_insert,if_neg hss]; exact hw,?_⟩
          have hsent : System.Accounted { ex.view w with
              gateway := (ex.gateway.handleEngineEvent c event).1
              toEngine := w.toEngine ++ (none : Option ExecuteCommand).toList } id md :=
            hacc.send hmd' hmd rfl (fun h => h) (by simp)
          rwa [Option.toList_none,List.append_nil] at hsent

theorem step (h : Resumed old base engines₀ ex) {a : Action} (hr : ex.Routed a) (hs : ex.Settles old a) :
    Resumed old base engines₀ (ex.step a) := by
  cases a with
  | connect decodeCommand =>
    have hplain : Resumed old base engines₀ ⟨ex.gateway.connect decodeCommand,sent ex.venues none⟩ :=
      h.plain rfl rfl (by simp)
    exact hplain
  | disconnect connId =>
    have hplain : Resumed old base engines₀ ⟨ex.gateway.disconnect connId,sent ex.venues none⟩ :=
      h.plain rfl rfl (by simp)
    exact hplain
  | frame connId bytes up => exact h.frame hr hs
  | engine s => exact h.engine hs
  | deliver s => exact h.deliver hs

end Resumed
end Exchange
end HighPerfTrading
