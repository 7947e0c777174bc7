import HighPerfTrading.Gateway.Reconciliation
import HighPerfTrading.Gateway.Reservations
import HighPerfTrading.System.Provenance

/-! What the gateway holds for orders that are gone. A token is accounted for by a command on its
way that gives the order its size, by an event on its way that drops it, or by the live order. -/
namespace HighPerfTrading
open Gateway Gateway.GatewayContext
namespace System
variable {S : Type} [Slab S Order] {sys : System S} {l : Ledger}

/-- A command that gives a buy order this account and notional. -/
inductive Sizing (id : OrderId) (acct : AccountId) (amount : Int64) : Command → Prop
  | order (no : NewOrder) (hid : no.orderId = id) (hacct : no.accountId = acct) (hs : no.side = .buy)
      (hamount : no.price*no.qty = amount) : Sizing id acct amount (.newOrder no)
  | replacement (r : Replace) (hid : r.orderId = id) (hacct : r.accountId = acct)
      (hamount : r.newPrice*r.newQty = amount) : Sizing id acct amount (.replace r)

/-- Of the order only cancels are on their way, and only while the gateway waits for one. -/
def OnlyCancels (queue : List ExecuteCommand) (id : OrderId) (md : OrderMetadata) : Prop :=
  ∀ x ∈ queue, commandOrderId x.command = some id → md.operation = .cancelPending ∧ ∃ c, x.command = .cancel c

/-- Why a tracked order holds its token. -/
inductive Accounted (sys : System S) (id : OrderId) (md : OrderMetadata) : Prop
  | onWay (pre post : List ExecuteCommand) (x : ExecuteCommand) (hq : sys.toEngine = pre ++ x::post)
      (hx : Sizing id md.reservationToken.accountId md.reservationToken.amount x.command)
      (hpost : OnlyCancels post id md) : Accounted sys id md
  | reported (c : UInt64) (event : Event) (hev : (c,event) ∈ sys.toGateway)
      (hdrop : sys.gateway.drops event id = true) : Accounted sys id md
  | live (o : Order) (ho : sys.engine.book.get id = some o) (hs : o.side = .buy)
      (hacct : o.accountId = md.reservationToken.accountId)
      (hamount : o.price*o.qtyRem = md.reservationToken.amount)
      (hqueue : OnlyCancels sys.toEngine id md) : Accounted sys id md

/-- The steps that leave no token behind. An accepted replacement is of a buy, for the account of its
token, on the connection that tracks the order; an immediate-or-cancel buy that the engine does not
refuse finds a maker. -/
def FreesTokens (sys : System S) : Action → Prop
  | .frame connId bytes _ => ∀ r md p, sys.gateway.decoded connId bytes = some (.replace r) →
      sys.gateway.pendingOrders[r.orderId]? = some md →
      sys.gateway.accountManager.adjustReservation md.reservationToken r = .ok p →
      (sys.gateway.localOrder connId r.orderId).isSome ∧ md.reservationToken.accountId = r.accountId ∧ md.side = .buy
  | .engine => ∀ x rest no, sys.toEngine = x::rest → x.command = .newOrder no → no.side = .buy → no.tif = .ioc →
      sys.engine.refusal no = none → Engine.Crosses sys.engine.book no
  | _ => True

/-! ### Tokens under the steps -/

theorem OnlyCancels.of_cons {x : ExecuteCommand} {rest : List ExecuteCommand} {id : OrderId} {md : OrderMetadata}
    (h : OnlyCancels (x::rest) id md) : OnlyCancels rest id md :=
  fun y hy => h y (List.mem_cons_of_mem _ hy)

/-- One more command, and maybe the wait for a cancel. -/
theorem OnlyCancels.send {queue : List ExecuteCommand} {id : OrderId} {md md' : OrderMetadata}
    (h : OnlyCancels queue id md) (hop : md.operation = .cancelPending → md'.operation = .cancelPending)
    {out : Option ExecuteCommand} (hout : ∀ x, out = some x → commandOrderId x.command = some id →
      md'.operation = .cancelPending ∧ ∃ c, x.command = .cancel c) :
    OnlyCancels (queue ++ out.toList) id md' := by
  intro x hx hid
  rcases List.mem_append.mp hx with hx | hx
  · obtain ⟨hpending,hc⟩ := h x hx hid
    exact ⟨hop hpending,hc⟩
  · exact hout x (Option.mem_toList.mp hx) hid

/-- An event that drops an order keeps dropping it while the gateway waits for its cancel. -/
theorem drops_of_pending {g g' : GatewayContext} {event : Event} {id : OrderId} {md md' : OrderMetadata}
    (hmd : g.pendingOrders[id]? = some md) (hmd' : g'.pendingOrders[id]? = some md')
    (hop : md.operation = .cancelPending → md'.operation = .cancelPending) (h : g.drops event id = true) :
    g'.drops event id = true := by
  cases event with
  | ack a =>
    simp only [drops,hmd,hmd',Option.map_some,Option.some.injEq,decide_eq_true_eq] at h ⊢
    exact ⟨h.1,hop h.2⟩
  | _ => exact h

namespace Accounted
variable {id : OrderId} {md md' : OrderMetadata}

/-- A frame that sends the order nothing but a cancel, and does not change its token. -/
theorem send (h : Accounted sys id md) {g : GatewayContext} {out : Option ExecuteCommand}
    (hmd : sys.gateway.pendingOrders[id]? = some md) (hmd' : g.pendingOrders[id]? = some md')
    (htoken : md'.reservationToken = md.reservationToken)
    (hop : md.operation = .cancelPending → md'.operation = .cancelPending)
    (hout : ∀ x, out = some x → commandOrderId x.command = some id →
      md'.operation = .cancelPending ∧ ∃ c, x.command = .cancel c) :
    Accounted { sys with gateway := g, toEngine := sys.toEngine ++ out.toList } id md' := by
  cases h with
  | onWay pre post x hq hx hpost =>
    refine .onWay pre (post ++ out.toList) x ?_ (htoken ▸ hx) (hpost.send hop hout)
    rw [hq,List.append_assoc,List.cons_append]
  | reported c event hev hdrop => exact .reported c event hev (drops_of_pending hmd hmd' hop hdrop)
  | live o ho hs hacct hamount hqueue =>
    exact .live o ho hs (htoken ▸ hacct) (htoken ▸ hamount) (hqueue.send hop hout)

/-- The order's own command becomes its last one. -/
theorem sized {g : GatewayContext} {x : ExecuteCommand}
    (hx : Sizing id md.reservationToken.accountId md.reservationToken.amount x.command) :
    Accounted { sys with gateway := g, toEngine := sys.toEngine ++ (some x).toList } id md :=
  .onWay sys.toEngine [] x rfl hx (by simp [OnlyCancels])

theorem deliver (h : Accounted sys id md) {c : UInt64} {event : Event} {rest : List (UInt64 × Event)}
    (hto : sys.toGateway = (c,event)::rest) (hdrop : sys.gateway.drops event id = false)
    (hmd : sys.gateway.pendingOrders[id]? = some md) :
    Accounted { sys with gateway := (sys.gateway.handleEngineEvent c event).1, toGateway := rest } id md := by
  cases h with
  | onWay pre post x hq hx hpost => exact .onWay pre post x hq hx hpost
  | reported c' event' hev hdrop' =>
    rw [hto] at hev
    rcases List.mem_cons.mp hev with heq | hev
    · obtain ⟨rfl,rfl⟩ := Prod.mk.inj heq
      rw [hdrop] at hdrop'
      cases hdrop'
    · refine .reported c' event' hev (drops_of_pending hmd ?_ (fun h => h) hdrop')
      rw [get_handleEngineEvent,hdrop]
      exact hmd
  | live o ho hs hacct hamount hqueue => exact .live o ho hs hacct hamount hqueue

/-- What the engine reports of an order drops it. -/
theorem of_reports {sys' : System S} {connId : UInt64} {evs : List Event} (h : Engine.Reports id evs)
    (hto : ∀ event ∈ evs, (connId,event) ∈ sys'.toGateway) : Accounted sys' id md := by
  cases h with
  | reject r hr hid => exact .reported connId _ (hto _ hr) (by simp [drops,hid])
  | fill f hf hid => exact .reported connId _ (hto _ hf) (by simp [drops,hid])

/-- What is accounted for stays so when the engine processes a command, if the order is a buy that may
rest, and trades at once when it may not. -/
theorem processed (h : Accounted sys id md) (hwf : OrderBook.Wf sys.engine.book)
    (hlive : ∀ o, sys.engine.book.get id = some o → o.side = .buy ∧ o.tif = .gtc)
    (hmd : sys.gateway.pendingOrders[id]? = some md) {x : ExecuteCommand} {rest : List ExecuteCommand}
    (hto : sys.toEngine = x::rest)
    (hioc : ∀ no, x.command = .newOrder no → no.side = .buy → no.tif = .ioc → sys.engine.refusal no = none →
      Engine.Crosses sys.engine.book no) {e : Engine S} {evs : List Event}
    (heff : Engine.Effect sys.engine e evs x.command) :
    Accounted { sys with
      toEngine := rest
      engine := e
      toGateway := sys.toGateway ++ evs.map fun event => (x.connId,event) } id md := by
  have hmem : ∀ event ∈ evs, (x.connId,event) ∈ sys.toGateway ++ evs.map fun event => (x.connId,event) :=
    fun event hev => List.mem_append_right _ (List.mem_map_of_mem hev)
  cases h with
  | reported c event hev hdrop => exact .reported c event (List.mem_append_left _ hev) hdrop
  | onWay pre post y hq hy hpost =>
    rw [hto] at hq
    cases pre with
    | cons z pre => exact .onWay pre post y (List.cons.inj hq).2 hy hpost
    | nil =>
      -- the command that gives the order its size is processed
      obtain ⟨rfl,rfl⟩ := List.cons.inj hq
      obtain ⟨cmd,connId,risk⟩ := x
      cases hy with
      | order no hid hacct hs hamount =>
        subst hid
        rcases heff.order with hr | hrest | ⟨htif,href,hnone⟩
        · exact of_reports hr hmem
        · exact .live _ hrest hs hacct hamount hpost
        · exact absurd (hioc no rfl hs htif href) hnone
      | replacement r hid hacct hamount =>
        subst hid
        rcases heff.replacement fun o ho => (hlive o ho).2 with hr | ⟨o,ho,-,hrest⟩
        · exact of_reports hr hmem
        · exact .live _ hrest (hlive o ho).1 hacct hamount hpost
  | live o ho hs hacct hamount hqueue =>
    rw [hto] at hqueue
    by_cases hid : commandOrderId x.command = some id
    · obtain ⟨hop,c,hc⟩ := hqueue x (List.mem_cons_self ..) hid
      obtain ⟨cmd,connId,risk⟩ := x
      subst hc
      obtain rfl := Option.some.inj hid
      rcases heff.cancel with hr | ⟨a,ha,haid⟩
      · exact of_reports hr hmem
      · exact .reported connId _ (hmem _ ha) (by simp [drops,haid,hmd,hop])
    · rcases heff.others hwf hid with hget | ⟨f,hfill,hm⟩
      · exact .live o (hget.trans ho) hs hacct hamount hqueue.of_cons
      · exact .reported x.connId _ (hmem _ hfill) (by simp [drops,hm])

/-- A command that names no order leaves the tokens as they are. -/
theorem unnamed (h : Accounted sys id md) {x : ExecuteCommand} {rest : List ExecuteCommand}
    (hto : sys.toEngine = x::rest) (hx : commandOrderId x.command = none) {e : Engine S}
    (hb : e.book = sys.engine.book) (evs : List (UInt64 × Event)) :
    Accounted { sys with toEngine := rest, engine := e, toGateway := sys.toGateway ++ evs } id md := by
  cases h with
  | reported c event hev hdrop => exact .reported c event (List.mem_append_left _ hev) hdrop
  | onWay pre post y hq hy hpost =>
    rw [hto] at hq
    cases pre with
    | cons z pre => exact .onWay pre post y (List.cons.inj hq).2 hy hpost
    | nil =>
      obtain ⟨rfl,-⟩ := List.cons.inj hq
      obtain ⟨cmd,connId,risk⟩ := x
      cases hy <;> cases hx
  | live o ho hs hacct hamount hqueue =>
    rw [hto] at hqueue
    exact .live o (hb ▸ ho) hs hacct hamount hqueue.of_cons

end Accounted

/-! ### The invariant -/

structure Reserving (sys : System S) : Prop where
  balanced : Balanced sys.gateway
  accounted : ∀ id md, sys.gateway.pendingOrders[id]? = some md → md.reservationToken.amount ≠ 0 →
    md.side = .buy ∧ Accounted sys id md

namespace Reserving

theorem start (funding : List (AccountId × Int64)) (apiKeys : OrdMap String AccountId) :
    Reserving (System.start funding apiKeys : System S) where
  balanced a s hs := by
    have hnew := Gateway.AccountManager.accounts_funded funding (by simp [Gateway.AccountManager.new]) a s hs
    rw [hnew.2]
    simp [System.start,reserved]
  accounted := by simp [System.start]

theorem frame (h : Reserving sys) (hk : Known sys l) {connId : UInt64} {bytes : List UInt8} {up : Bool}
    (ht : sys.Trading l (.frame connId bytes up)) (hf : sys.FreesTokens (.frame connId bytes up)) :
    Reserving (sys.frame connId bytes up).1 := by
  obtain ⟨g,out,hframe,heff,hout⟩ := frame_effect ht
  rw [hframe]
  refine ⟨balancedFrom_zero.mp ((balancedFrom_zero.mpr h.balanced).frame heff ?_ ?_),?_⟩
  · intro x no hx hcmd
    obtain ⟨-,htrade⟩ := hout x hx
    rw [hcmd] at htrade
    exact (hk.fresh htrade.2.2.2.2).2.1
  · intro x r md p hx hcmd hmd hok
    obtain ⟨hd,-⟩ := hout x hx
    rw [hcmd] at hd
    obtain ⟨hlocal,hacct,-⟩ := hf r md p hd hmd hok
    exact ⟨hlocal,hacct⟩
  intro id md hmd hne
  cases heff with
  | quiet ha hp hlocal =>
    have hmd' : sys.gateway.pendingOrders[id]? = some md := hp ▸ hmd
    obtain ⟨hs,hacc⟩ := h.accounted id md hmd' hne
    exact ⟨hs,hacc.send hmd' hmd rfl (fun h => h) (by simp)⟩
  | ordered no token am risk hok ha hp hlocal =>
    obtain ⟨_,-,rfl,-⟩ := Gateway.AccountManager.checkAndReserveOrder_ok hok
    have hget := hmd
    rw [hp,OrdMap.get_insert] at hget
    split_ifs at hget with hid
    · obtain rfl := Option.some.inj hget
      have hamount : Gateway.AccountManager.orderRequired no ≠ 0 := hne
      unfold Gateway.AccountManager.orderRequired at hamount
      cases hs : no.side with
      | sell => rw [hs] at hamount; exact absurd rfl hamount
      | buy => exact ⟨rfl,.sized (.order no hid rfl hs (by simp [Gateway.AccountManager.orderRequired,hs]))⟩
    · obtain ⟨hs,hacc⟩ := h.accounted id md hget hne
      refine ⟨hs,hacc.send hget hmd rfl (fun h => h) ?_⟩
      rintro x ⟨rfl⟩ hx
      exact absurd (Option.some.inj hx) hid
  | cancelling c risk ha hp hlocal =>
    have hget := hmd
    rw [hp,get_withOperation] at hget
    obtain ⟨old,hold,rfl⟩ := Option.map_eq_some_iff.mp hget
    by_cases hid : id = c.orderId
    · rw [if_pos hid] at hmd hne ⊢
      obtain ⟨hs,hacc⟩ := h.accounted id old hold hne
      exact ⟨hs,hacc.send hold hmd rfl (fun _ => rfl) fun x hx _ => ⟨rfl,c,by rw [← Option.some.inj hx]⟩⟩
    · rw [if_neg hid] at hmd hne ⊢
      obtain ⟨hs,hacc⟩ := h.accounted id old hold hne
      refine ⟨hs,hacc.send hold hmd rfl (fun h => h) ?_⟩
      rintro x ⟨rfl⟩ hx
      exact absurd (Option.some.inj hx).symm hid
  | replacing r old token am risk hold hok ha hp hlocal =>
    obtain ⟨hd,-⟩ := hout _ rfl
    obtain ⟨hsome,hacct,hbuy⟩ := hf r old _ hd hold hok
    obtain ⟨y,hy⟩ := Option.isSome_iff_exists.mp hsome
    obtain ⟨_,-,rfl,-⟩ := Gateway.AccountManager.adjustReservation_ok hok
    have hget := hmd
    rw [hp,hy] at hget
    simp only [OrdMap.get_insert] at hget
    by_cases hid : r.orderId = id
    · rw [if_pos hid] at hget
      obtain rfl := Option.some.inj hget
      refine ⟨?_,.sized (.replacement r hid rfl rfl)⟩
      exact (hk.side_agrees hy hold).trans hbuy
    · rw [if_neg hid] at hget
      obtain ⟨hs,hacc⟩ := h.accounted id md hget hne
      refine ⟨hs,hacc.send hget hmd rfl (fun h => h) ?_⟩
      rintro x ⟨rfl⟩ hx
      exact absurd (Option.some.inj hx) hid

theorem engineStep (h : Reserving sys) (hk : Known sys l) (hf : sys.FreesTokens .engine) :
    Reserving sys.engineStep.1 := by
  unfold System.engineStep
  cases hto : sys.toEngine with
  | nil => exact h
  | cons x rest =>
    refine ⟨h.balanced,fun id md hmd hne => ?_⟩
    obtain ⟨hs,hacc⟩ := h.accounted id md hmd hne
    have hlive : ∀ o, sys.engine.book.get id = some o → o.side = .buy ∧ o.tif = .gtc := by
      intro o ho
      obtain ⟨p,hp,-,hside,-,htif⟩ := hk.live id o ho
      obtain ⟨no,hno,hmdside⟩ := hk.tracked id md hmd
      obtain rfl := Option.some.inj (hno.symm.trans hp)
      exact ⟨hside.trans (hmdside.symm.trans hs),htif⟩
    exact ⟨hs,hacc.processed hk.wf hlive hmd hto (fun no => hf x rest no hto) (hk.effect hto)⟩

theorem deliver (h : Reserving sys) (hk : Known sys l) : Reserving sys.deliver.1 := by
  unfold System.deliver
  cases hto : sys.toGateway with
  | nil => exact h
  | cons e rest =>
    obtain ⟨c,event⟩ := e
    refine ⟨h.balanced.handleEngineEvent c ?_,?_⟩
    · rintro f rfl
      exact (hk.events c f (by rw [hto]; exact List.mem_cons_self ..)).1
    · intro id md hmd hne
      have hget : (sys.gateway.handleEngineEvent c event).1.pendingOrders[id]? = some md := hmd
      rw [get_handleEngineEvent] at hget
      split_ifs at hget with hdrop
      obtain ⟨hs,hacc⟩ := h.accounted id md hget hne
      exact ⟨hs,hacc.deliver hto (by simpa using hdrop) hget⟩

/-- Connections come and go without touching accounts or tracked orders. -/
theorem withGateway (h : Reserving sys) {g : GatewayContext} (ha : g.accountManager = sys.gateway.accountManager)
    (hp : g.pendingOrders = sys.gateway.pendingOrders) : Reserving { sys with gateway := g } := by
  refine ⟨fun a s hs => ?_,fun id md hmd hne => ?_⟩
  · rw [hp]
    exact h.balanced a s (ha ▸ hs)
  · have hmd' : sys.gateway.pendingOrders[id]? = some md := hp ▸ hmd
    obtain ⟨hs,hacc⟩ := h.accounted id md hmd' hne
    have hsent : Accounted { sys with gateway := g, toEngine := sys.toEngine ++ (none : Option ExecuteCommand).toList }
        id md := hacc.send hmd' hmd rfl (fun h => h) (by simp)
    rw [Option.toList_none,List.append_nil] at hsent
    exact ⟨hs,hsent⟩

theorem step (h : Reserving sys) (hk : Known sys l) {a : Action} (ht : sys.Trading l a) (hf : sys.FreesTokens a) :
    Reserving (sys.step a) := by
  cases a with
  | connect decodeCommand => exact h.withGateway rfl rfl
  | disconnect connId => exact h.withGateway rfl rfl
  | frame connId bytes up => exact h.frame hk ht hf
  | engine => exact h.engineStep hk hf
  | deliver => exact h.deliver hk

end Reserving

variable {funding : List (AccountId × Int64)} {apiKeys : OrdMap String AccountId}

theorem Run.reserving (h : Run funding apiKeys (fun sys l a => sys.Trading l a ∧ sys.FreesTokens a) sys l) :
    Reserving sys :=
  h.keeps_known (P := fun sys _ => Reserving sys) (Reserving.start funding apiKeys) fun hs hk ht hf => hs.step hk ht hf

/-! ### Quiescence -/

/-- What an order of its owner reserves for an account. -/
def notional (a owner : AccountId) (side : Side) (price : Price) (qty : Qty) : ℤ :=
  if owner = a ∧ side = .buy then price.toInt*qty.toInt else 0

def notionalFor (a : AccountId) (o : Order) : ℤ := notional a o.accountId o.side o.price o.qtyRem

theorem notionalFor_eq (a : AccountId) (o : Order) :
    notionalFor a o = if o.accountId = a ∧ o.side = .buy then o.price.toInt*o.qtyRem.toInt else 0 := rfl

/-- The notional of an account's live buy orders. -/
def liveNotional (b : OrderBook S) (a : AccountId) : ℤ :=
  (b.getAllOrderSnapshots.map fun o => notional a o.accountId o.side o.price o.qtyRem).sum

theorem liveNotional_eq (b : OrderBook S) (a : AccountId) : liveNotional b a =
    OrdMap.sumEntries (fun _ k => (Slab.get b.orders k).elim 0 (notionalFor a)) b.index := by
  unfold liveNotional OrderBook.getAllOrderSnapshots OrdMap.sumEntries
  induction b.index.toList with
  | nil => rfl
  | cons e es ih =>
    rw [List.map_cons,List.sum_cons,← ih]
    cases ho : Slab.get b.orders e.2 with
    | none => simp [ho]
    | some o => simp [ho,notionalFor]

/-- The gateway would rebuild the wrapped notional. -/
theorem reservedBy_snapshots (b : OrderBook S) (a : AccountId) :
    Reconciliation.reservedBy b.getAllOrderSnapshots a = Int64.ofInt (liveNotional b a) := by
  unfold Reconciliation.reservedBy liveNotional
  rw [← Int64.sum_ofInt]
  congr 1
  refine List.map_congr_left fun s hs => ?_
  obtain ⟨e,-,he⟩ := List.mem_filterMap.mp hs
  obtain ⟨o,-,rfl⟩ := Option.map_eq_some_iff.mp he
  by_cases ha : o.accountId = a
  · cases o.side with
    | buy => simp [ha,notional]
    | sell => simp [ha,notional]
  · simp [ha,notional]

/-- The notional of a live order whose token an account pays for. -/
def trackedNotional (b : OrderBook S) (a : AccountId) (id : OrderId) (md : OrderMetadata) : ℤ :=
  if md.reservationToken.accountId = a ∧ md.reservationToken.amount ≠ 0 then
    (b.get id).elim 0 fun o => o.price.toInt*o.qtyRem.toInt
  else 0

/-- With nothing in flight, every token is that of a live buy. -/
theorem Reserving.token_live (h : Reserving sys) (hq : sys.toEngine = []) (hg : sys.toGateway = []) {id : OrderId}
    {md : OrderMetadata} (hmd : sys.gateway.pendingOrders[id]? = some md) (hne : md.reservationToken.amount ≠ 0) :
    ∃ o, sys.engine.book.get id = some o ∧ o.side = .buy ∧ o.accountId = md.reservationToken.accountId ∧
      o.price*o.qtyRem = md.reservationToken.amount := by
  obtain ⟨-,hacc⟩ := h.accounted id md hmd hne
  cases hacc with
  | onWay pre post x hq' hx hpost => simp [hq] at hq'
  | reported c event hev hdrop => simp [hg] at hev
  | live o ho hs hacct hamount hqueue => exact ⟨o,ho,hs,hacct,hamount⟩

theorem Known.notional_nonneg (hk : Known sys l) {id : OrderId} {o : Order} (ho : sys.engine.book.get id = some o) :
    0 ≤ o.price.toInt*o.qtyRem.toInt := by
  obtain ⟨_,-,-,-,hprice,-⟩ := hk.live id o ho
  have hqty := (hk.wf.get_live ho).2
  exact Int.mul_nonneg (Int64.pos_iff_toInt.mp hprice).le (Int64.pos_iff_toInt.mp hqty).le

theorem Reserving.reserved_eq (h : Reserving sys) (hq : sys.toEngine = []) (hg : sys.toGateway = [])
    (a : AccountId) : reserved sys.gateway.pendingOrders a =
    Int64.ofInt (OrdMap.sumEntries (trackedNotional sys.engine.book a) sys.gateway.pendingOrders) := by
  unfold reserved OrdMap.sumEntries
  rw [← Int64.sum_ofInt]
  congr 1
  refine List.map_congr_left fun e he => ?_
  change held a e.2 = Int64.ofInt (trackedNotional sys.engine.book a e.1 e.2)
  unfold held trackedNotional
  by_cases hacct : e.2.reservationToken.accountId = a
  · by_cases hne : e.2.reservationToken.amount = 0
    · simp [hne]
    · obtain ⟨o,ho,-,-,hamount⟩ := h.token_live hq hg (OrdMap.mem_toList.mp he) hne
      rw [if_pos hacct,if_pos ⟨hacct,hne⟩,ho,Option.elim_some,← Int64.mul_eq_ofInt,hamount]
  · simp [hacct]

theorem Reserving.tracked_le (h : Reserving sys) (hk : Known sys l) (hq : sys.toEngine = [])
    (hg : sys.toGateway = []) (a : AccountId) :
    OrdMap.sumEntries (trackedNotional sys.engine.book a) sys.gateway.pendingOrders ≤
      liveNotional sys.engine.book a := by
  rw [liveNotional_eq]
  refine OrdMap.sumEntries_le ?_ ?_
  · intro id k hk'
    cases ho : Slab.get sys.engine.book.orders k with
    | none => exact Int.le_refl _
    | some o =>
      have hnonneg := hk.notional_nonneg (OrderBook.get_eq_some.mpr ⟨k,hk',ho⟩)
      simp only [Option.elim_some,notionalFor_eq]
      split_ifs <;> omega
  · intro id md hmd
    unfold trackedNotional
    split_ifs with hc
    · obtain ⟨o,ho,hs,hacct,-⟩ := h.token_live hq hg hmd hc.2
      obtain ⟨k,hk',hget⟩ := OrderBook.get_eq_some.mp ho
      simp [ho,hk',hget,notionalFor_eq,hacct,hc.1,hs]
    · cases hk' : sys.engine.book.index[id]? with
      | none => exact Int.le_refl _
      | some k =>
        cases ho : Slab.get sys.engine.book.orders k with
        | none => simp [ho]
        | some o =>
          have hnonneg := hk.notional_nonneg (OrderBook.get_eq_some.mpr ⟨k,hk',ho⟩)
          simp only [Option.elim_some,ho,notionalFor_eq]
          split_ifs <;> omega

theorem Known.liveNotional_nonneg (hk : Known sys l) (a : AccountId) : 0 ≤ liveNotional sys.engine.book a := by
  rw [liveNotional_eq]
  refine List.sum_nonneg fun n hn => ?_
  obtain ⟨⟨id,k⟩,he,rfl⟩ := List.mem_map.mp hn
  cases ho : Slab.get sys.engine.book.orders k with
  | none => simp [ho]
  | some o =>
    have hnonneg := hk.notional_nonneg (OrderBook.get_eq_some.mpr ⟨k,OrdMap.mem_toList.mp he,ho⟩)
    simp only [ho,Option.elim_some,notionalFor_eq]
    split_ifs <;> omega

theorem Known.trackedNotional_nonneg (hk : Known sys l) (a : AccountId) :
    0 ≤ OrdMap.sumEntries (trackedNotional sys.engine.book a) sys.gateway.pendingOrders := by
  refine List.sum_nonneg fun n hn => ?_
  obtain ⟨⟨id,md⟩,-,rfl⟩ := List.mem_map.mp hn
  unfold trackedNotional
  split_ifs
  · cases ho : sys.engine.book.get id with
    | none => exact Int.le_refl _
    | some o => simpa using hk.notional_nonneg ho
  · exact Int.le_refl _

/-- In runs of trading clients whose steps free their tokens, an account with nothing in flight holds
at most the notional of its live buy orders, which is what a rebuild from the engine's orders would
reserve while it fits in 64 bits. -/
theorem Run.reserved_le_live (h : Run funding apiKeys (fun sys l a => sys.Trading l a ∧ sys.FreesTokens a) sys l)
    (hq : sys.toEngine = []) (hg : sys.toGateway = []) (a : AccountId) :
    (sys.gateway.accountManager.getTentativeReserved a).toInt ≤ liveNotional sys.engine.book a ∧
      (liveNotional sys.engine.book a < 2^63 → sys.gateway.accountManager.getTentativeReserved a ≤
        Reconciliation.reservedBy sys.engine.book.getAllOrderSnapshots a) := by
  have hk := h.known fun _ _ _ ha => ha.1
  have hnonneg := hk.liveNotional_nonneg a
  have hle : (sys.gateway.accountManager.getTentativeReserved a).toInt ≤ liveNotional sys.engine.book a := by
    unfold Gateway.AccountManager.getTentativeReserved
    cases hs : sys.gateway.accountManager.accounts[a]? with
    | none => exact hnonneg
    | some s =>
      have htracked := hk.trackedNotional_nonneg a
      rw [Option.elim_some,h.reserving.balanced a s hs,h.reserving.reserved_eq hq hg]
      exact le_trans (Int64.toInt_ofInt_le htracked) (h.reserving.tracked_le hk hq hg a)
  refine ⟨hle,fun hfits => ?_⟩
  rw [Int64.le_iff_toInt_le,reservedBy_snapshots,Int64.toInt_ofInt_of_lt hnonneg hfits]
  exact hle

/-- The head of the queue is no immediate-or-cancel order. -/
theorem freesTokens_engine (h : sys.toEngine.head?.all fun x => match x.command with
    | .newOrder no => no.tif = .gtc
    | _ => true) : sys.FreesTokens .engine := by
  intro x rest no hto hcmd hs htif
  rw [hto] at h
  simp [hcmd,htif] at h

theorem freesTokens_frame {connId : UInt64} {bytes : List UInt8} {up : Bool} (cmd : Command)
    (hd : sys.gateway.decoded connId bytes = some cmd) (hcmd : ∀ r, cmd ≠ .replace r) :
    sys.FreesTokens (.frame connId bytes up) := by
  intro r md p hr
  exact absurd (Option.some.inj (hd.symm.trans hr)) (hcmd r)

/-- Two buys rest, and one of them is cancelled. -/
def cancelledBuy : List Action := logins ++
  [.send 1 (.newOrder ⟨1,1,1,1,.buy,100,10,.gtc,⟨false⟩⟩),.engine,.deliver,.deliver,
    .send 1 (.newOrder ⟨2,2,1,1,.buy,90,10,.gtc,⟨false⟩⟩),.engine,.deliver,.deliver,
    .send 1 (.cancel ⟨3,1,1,1⟩),.engine,.deliver,.deliver]

/-- What is held after that is the notional of the other. -/
theorem cancelledBuy_freed :
    let sys := ((System.start twoAccounts twoKeys : System (FreeListSlab Order)).execute Ledger.empty cancelledBuy).1
    liveNotional sys.engine.book 1 = 900 ∧ (sys.gateway.accountManager.getTentativeReserved 1).toInt ≤ 900 := by
  have hrun : Allowed (fun sys l a => sys.Trading l a ∧ sys.FreesTokens a)
      (System.start twoAccounts twoKeys : System (FreeListSlab Order)) Ledger.empty cancelledBuy := by
    refine ⟨⟨?_,trivial⟩,⟨?_,trivial⟩,⟨?_,freesTokens_frame (.authenticate ⟨"test-key-1"⟩) ?_ (by simp)⟩,
      ⟨?_,freesTokens_frame (.authenticate ⟨"test-key-2"⟩) ?_ (by simp)⟩,
      ⟨?_,freesTokens_frame (.newOrder ⟨1,1,1,1,.buy,100,10,.gtc,⟨false⟩⟩) ?_ (by simp)⟩,
      ⟨?_,freesTokens_engine ?_⟩,⟨?_,trivial⟩,⟨?_,trivial⟩,
      ⟨?_,freesTokens_frame (.newOrder ⟨2,2,1,1,.buy,90,10,.gtc,⟨false⟩⟩) ?_ (by simp)⟩,
      ⟨?_,freesTokens_engine ?_⟩,⟨?_,trivial⟩,⟨?_,trivial⟩,
      ⟨?_,freesTokens_frame (.cancel ⟨3,1,1,1⟩) ?_ (by simp)⟩,
      ⟨?_,freesTokens_engine ?_⟩,⟨?_,trivial⟩,⟨?_,trivial⟩,trivial⟩ <;>
    decide +kernel
  have hlive : liveNotional ((System.start twoAccounts twoKeys : System (FreeListSlab Order)).execute Ledger.empty
      cancelledBuy).1.engine.book 1 = 900 := by
    decide +kernel
  have hq : ((System.start twoAccounts twoKeys : System (FreeListSlab Order)).execute Ledger.empty
      cancelledBuy).1.toEngine = [] := by
    decide +kernel
  have hg : ((System.start twoAccounts twoKeys : System (FreeListSlab Order)).execute Ledger.empty
      cancelledBuy).1.toGateway = [] := by
    decide +kernel
  obtain ⟨hle,-⟩ := (Run.start.execute cancelledBuy hrun).reserved_le_live hq hg 1
  rw [hlive] at hle
  exact ⟨hlive,hle⟩

/-- An immediate-or-cancel buy that finds no maker leaves its reservation behind. -/
theorem discarded_ioc_held : ∃ (sys : System (FreeListSlab Order)) (l : Ledger),
    Run twoAccounts twoKeys Trading sys l ∧ sys.toEngine = [] ∧ sys.toGateway = [] ∧
      liveNotional sys.engine.book 1 = 0 ∧ sys.gateway.accountManager.getTentativeReserved 1 = 1000 := by
  refine ⟨_,_,Run.start.execute (logins ++
    [.send 1 (.newOrder ⟨1,1,1,1,.buy,100,10,.ioc,⟨false⟩⟩),.engine,.deliver,.deliver]) ?_,?_,?_,?_,?_⟩ <;>
  decide +kernel

end System
end HighPerfTrading
