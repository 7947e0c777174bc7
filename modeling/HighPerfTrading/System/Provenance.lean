import HighPerfTrading.Gateway.CarriedOut
import HighPerfTrading.System.System

/-! Where orders come from. While order ids are fresh, every order that is live, tracked or on its
way was placed once, by one connection, and fills name placed orders of both sides. -/
namespace HighPerfTrading
open Gateway Gateway.GatewayContext
namespace System
variable {S : Type} [Slab S Order] {sys : System S} {l : Ledger}

omit [Slab S Order] in
/-- A frame of a trading client has one of the outcomes of its command. -/
theorem frame_effect {connId : UInt64} {bytes : List UInt8} {up : Bool}
    (ht : sys.Trading l (.frame connId bytes up)) :
    ∃ g out, (sys.frame connId bytes up).1 = { sys with gateway := g, toEngine := sys.toEngine ++ out.toList } ∧
      FrameEffect sys.gateway g connId out ∧
      ∀ x, out = some x → sys.gateway.decoded connId bytes = some x.command ∧ sys.Trades l connId x.command := by
  obtain ⟨rfl,ht⟩ := ht
  refine ⟨_,(sys.gateway.handleFrame connId bytes (sys.routes true)).2.1,rfl,?_,?_⟩
  · cases hd : sys.gateway.decoded connId bytes with
    | none =>
      rw [handleFrame_none hd]
      exact .quiet rfl rfl (.of_eq fun _ _ => rfl)
    | some cmd =>
      rw [handleFrame_some hd]
      have hcmd := ht cmd hd
      cases cmd with
      | queryAccount q => exact handleQueryAccount_effect _ connId q
      | authenticate auth => exact handleAuthenticate_effect _ connId auth
      | setRiskLimits srl => exact hcmd.elim
      | newOrder no =>
        have hroute : sys.routes true no.symbolId = true := by simp [routes,hcmd.2.1]
        simp only [commandSymbolId,Option.map_some,Option.getD_some,hroute]
        exact handleCommand_effect _ connId (by simp)
      | cancel c =>
        have hroute : sys.routes true c.symbolId = true := by simp [routes,hcmd.2]
        simp only [commandSymbolId,Option.map_some,Option.getD_some,hroute]
        exact handleCommand_effect _ connId (by simp)
      | replace r =>
        have hroute : sys.routes true r.symbolId = true := by simp [routes,hcmd.2.1]
        simp only [commandSymbolId,Option.map_some,Option.getD_some,hroute]
        exact handleCommand_effect _ connId (by simp)
  · intro x hx
    cases hd : sys.gateway.decoded connId bytes with
    | none => rw [handleFrame_none hd] at hx; cases hx
    | some cmd =>
      rw [handleFrame_some hd] at hx
      obtain ⟨rfl,-,-⟩ := handleCommand_out hx
      exact ⟨rfl,ht _ hd⟩

/-! ### The invariant -/

/-- A new order on its way to the engine has yet to become live, and a replacement is of an order that was
placed before. -/
structure Queued (b : OrderBook S) (l : Ledger) (x : ExecuteCommand) : Prop where
  new : ∀ no, x.command = .newOrder no → l.placed no.orderId = some (x.connId,no) ∧
    b.get no.orderId = none ∧ 0 < no.price ∧ 0 < no.qty
  replace : ∀ r, x.command = .replace r → 0 < r.newPrice ∧ 0 < r.newQty ∧ ∃ p, l.placed r.orderId = some p

def newOrderId (x : ExecuteCommand) : Option OrderId :=
  match x.command with
  | .newOrder no => some no.orderId
  | _ => none

theorem newOrderId_eq_some {x : ExecuteCommand} {id : OrderId} :
    newOrderId x = some id ↔ ∃ no, x.command = .newOrder no ∧ no.orderId = id := by
  unfold newOrderId
  cases x.command <;> simp

/-- Both orders of a fill were placed, on opposite sides, and they are not the same. -/
def FillKnown (l : Ledger) (f : Fill) : Prop :=
  f.makerOrderId ≠ f.takerOrderId ∧ ∃ m t, l.placed f.makerOrderId = some m ∧
    l.placed f.takerOrderId = some t ∧ m.2.side = t.2.side.opposite

structure Placed (sys : System S) (l : Ledger) : Prop where
  wf : OrderBook.Wf sys.engine.book
  live : ∀ id o, sys.engine.book.get id = some o → ∃ p, l.placed id = some p ∧
    o.accountId = p.2.accountId ∧ o.side = p.2.side ∧ 0 < o.price ∧ o.tif = .gtc
  queued : ∀ x ∈ sys.toEngine, Queued sys.engine.book l x
  distinct : (sys.toEngine.filterMap newOrderId).Nodup
  tracked : ∀ id md, sys.gateway.pendingOrders[id]? = some md →
    ∃ no, l.placed id = some (md.connId,no) ∧ md.side = no.side
  locals : ∀ c id x, sys.gateway.localOrder c id = some x →
    ∃ no, l.placed id = some (c,no) ∧ x.2.1 = decide (no.side = .buy)
  events : ∀ c f, (c,Event.fill f) ∈ sys.toGateway → FillKnown l f

/-- Orders once placed stay so. -/
def Extends (l l' : Ledger) : Prop := ∀ id p, l.placed id = some p → l'.placed id = some p

theorem extends_step (l : Ledger) (sys : System S) (a : Action) : Extends l (l.step sys a) := by
  intro id p h
  cases a with
  | frame connId bytes up =>
    simp only [Ledger.step,Ledger.place]
    cases sys.gateway.decoded connId bytes with
    | none => exact h
    | some cmd =>
      cases cmd with
      | newOrder no =>
        simp only
        rw [if_neg (by simp [h])]
        exact h
      | _ => exact h
  | connect decodeCommand => exact h
  | disconnect connId => exact h
  | engine => exact h
  | deliver => exact h

theorem FillKnown.extends {l' : Ledger} {f : Fill} (h : FillKnown l f) (hl : Extends l l') : FillKnown l' f := by
  obtain ⟨hne,m,t,hm,ht,hs⟩ := h
  exact ⟨hne,m,t,hl _ _ hm,hl _ _ ht,hs⟩

theorem Queued.extends {b : OrderBook S} {l' : Ledger} {x : ExecuteCommand} (h : Queued b l x)
    (hl : Extends l l') : Queued b l' x :=
  ⟨fun no hno => ⟨hl _ _ (h.new no hno).1,(h.new no hno).2⟩,fun r hr =>
    let ⟨hprice,hqty,p,hp⟩ := h.replace r hr
    ⟨hprice,hqty,p,hl _ _ hp⟩⟩

namespace Placed

theorem start (funding : List (AccountId × Int64)) (apiKeys : OrdMap String AccountId) :
    Placed (System.start funding apiKeys : System S) Ledger.empty where
  wf := OrderBook.Wf.new 1
  live := by simp [System.start,Engine.new,OrderBook.get,OrderBook.new]
  queued := by simp [System.start]
  distinct := by simp [System.start]
  tracked := by simp [System.start]
  locals := by simp [System.start,localOrder]
  events := by simp [System.start]

/-- What a frame may change: the gateway, and a command sent to the engine. -/
theorem send (h : Placed sys l) (g : GatewayContext) (out : Option ExecuteCommand)
    (ht : ∀ id md, g.pendingOrders[id]? = some md → ∃ no, l.placed id = some (md.connId,no) ∧ md.side = no.side)
    (hl : ∀ c id x, g.localOrder c id = some x →
      ∃ no, l.placed id = some (c,no) ∧ x.2.1 = decide (no.side = .buy))
    (hq : ∀ x, out = some x → Queued sys.engine.book l x ∧
      ∀ id, newOrderId x = some id → id ∉ sys.toEngine.filterMap newOrderId) :
    Placed { sys with gateway := g, toEngine := sys.toEngine ++ out.toList } l where
  wf := h.wf
  live := h.live
  queued x hx := by
    rcases List.mem_append.mp hx with hx | hx
    · exact h.queued x hx
    · exact (hq x (Option.mem_toList.mp hx)).1
  distinct := by
    cases out with
    | none => simpa using h.distinct
    | some x =>
      simp only [Option.toList_some,List.filterMap_append]
      refine List.Nodup.append h.distinct ?_ ?_
      · cases hid : newOrderId x <;> simp [hid]
      · intro id hid hx
        obtain ⟨y,hy,hyid⟩ := List.mem_filterMap.mp hx
        rw [List.mem_singleton.mp hy] at hyid
        exact (hq x rfl).2 id hyid hid
  tracked := ht
  locals := hl
  events := h.events

/-- A gateway that tracks nothing new, with the engine and the channels as before. -/
theorem withGateway (h : Placed sys l) {g : GatewayContext} (hp : g.pendingOrders = sys.gateway.pendingOrders)
    (hl : LocalFrom sys.gateway g) : Placed { sys with gateway := g } l := by
  have hs := h.send g none (by rw [hp]; exact h.tracked) (fun c id x hx => ?_) (by simp)
  · rwa [Option.toList_none,List.append_nil] at hs
  · obtain ⟨y,hy,hxy⟩ := hl c id x hx
    rw [hxy]
    exact h.locals c id y hy

theorem extend (h : Placed sys l) {l' : Ledger} (hl : Extends l l') : Placed sys l' where
  wf := h.wf
  live id o ho := by
    obtain ⟨p,hp,hrest⟩ := h.live id o ho
    exact ⟨p,hl _ _ hp,hrest⟩
  queued x hx := (h.queued x hx).extends hl
  distinct := h.distinct
  tracked id md hmd := by
    obtain ⟨no,hno,hs⟩ := h.tracked id md hmd
    exact ⟨no,hl _ _ hno,hs⟩
  locals c id x hx := by
    obtain ⟨no,hno,hs⟩ := h.locals c id x hx
    exact ⟨no,hl _ _ hno,hs⟩
  events c f hf := (h.events c f hf).extends hl

theorem localFrom_connect (g : GatewayContext) (decodeCommand : List UInt8 → Option Command) :
    LocalFrom g (g.connect decodeCommand) := by
  intro c id x hx
  simp only [localOrder,connect,OrdMap.get_insert] at hx
  split_ifs at hx with hc
  · simp at hx
  · exact ⟨x,hx,rfl⟩

theorem localFrom_disconnect (g : GatewayContext) (connId : UInt64) : LocalFrom g (g.disconnect connId) := by
  intro c id x hx
  simp only [localOrder,disconnect,OrdMap.get_erase] at hx
  split_ifs at hx with hc
  · simp at hx
  · exact ⟨x,hx,rfl⟩

/-! ### One step -/

/-- A fresh order is neither tracked nor on its way. -/
theorem fresh (h : Placed sys l) {no : NewOrder} (hno : l.placed no.orderId = none) :
    sys.engine.book.get no.orderId = none ∧ sys.gateway.pendingOrders[no.orderId]? = none ∧
      no.orderId ∉ sys.toEngine.filterMap newOrderId := by
  refine ⟨?_,?_,?_⟩
  · refine Option.eq_none_iff_forall_ne_some.mpr fun o ho => ?_
    obtain ⟨p,hp,-⟩ := h.live _ o ho
    rw [hno] at hp; cases hp
  · refine Option.eq_none_iff_forall_ne_some.mpr fun md hmd => ?_
    obtain ⟨_,hp,-⟩ := h.tracked _ md hmd
    rw [hno] at hp; cases hp
  · intro hm
    obtain ⟨x,hx,hid⟩ := List.mem_filterMap.mp hm
    obtain ⟨no',hno',heq⟩ := newOrderId_eq_some.mp hid
    have hp := ((h.queued x hx).new no' hno').1
    rw [heq,hno] at hp
    cases hp

/-- What a command sends to the engine is in order. -/
theorem queued_sent (h : Placed sys l) {connId : UInt64} {cmd : Command} {routed : Bool} (hp : Places l cmd)
    {l' : Ledger} (hl : Extends l l') (hplaced : ∀ no, cmd = .newOrder no → l'.placed no.orderId = some (connId,no))
    {x : ExecuteCommand} (hx : (sys.gateway.handleCommand connId cmd routed).2.1 = some x) :
    Queued sys.engine.book l' x ∧ ∀ id, newOrderId x = some id → id ∉ sys.toEngine.filterMap newOrderId := by
  obtain ⟨rfl,rfl,-⟩ := handleCommand_out hx
  refine ⟨⟨fun no hno => ?_,fun r hr => ?_⟩,fun id hid => ?_⟩
  · rw [hno] at hp
    exact ⟨hplaced no hno,(h.fresh hp.2.2).1,hp.1,hp.2.1⟩
  · have hcarries := carries_of_sent hx
    rw [hr] at hp hcarries
    rcases hcarries with ⟨-,md,-,hmd,-⟩ | ⟨-,-,srl,hsrl⟩
    · obtain ⟨no,hno,-⟩ := h.tracked _ md hmd
      exact ⟨hp.1,hp.2,_,hl _ _ hno⟩
    · cases hsrl
  · obtain ⟨no,hno,rfl⟩ := newOrderId_eq_some.mp hid
    rw [hno] at hp
    exact (h.fresh hp.2.2).2.2

theorem frame (h : Placed sys l) {connId : UInt64} {bytes : List UInt8} {up : Bool}
    (hp : sys.Placing l (.frame connId bytes up)) :
    Placed (sys.frame connId bytes up).1 (l.step sys (.frame connId bytes up)) := by
  have hl := extends_step l sys (.frame connId bytes up)
  have hk := h.extend hl
  cases hd : sys.gateway.decoded connId bytes with
  | none =>
    rw [frame_skipped hd]
    exact hk
  | some cmd =>
    have hplaces := hp cmd hd
    have hplaced : ∀ no, cmd = .newOrder no →
        (l.step sys (.frame connId bytes up)).placed no.orderId = some (connId,no) := by
      rintro no rfl
      simp [Ledger.step,hd,Ledger.place,hplaces.2.2]
    rw [frame_decoded hd]
    refine hk.send _ _ (fun id md hmd => ?_) (fun c id x hx => ?_) fun x hx => h.queued_sent hplaces hl hplaced hx
    · cases entryOrigin hmd with
      | stays cmd old hold hmd =>
        rw [hmd]
        exact hk.tracked id old hold
      | ordered no hid hacct hside hconn =>
        rw [hid,hconn]
        exact ⟨no,hplaced no rfl,hside⟩
      | replaced r old p x hid hold hok hlocal hacct hside hconn =>
        obtain ⟨no,hno,hbuy⟩ := hk.locals connId id x hlocal
        rw [hconn]
        exact ⟨no,hno,hside.trans (by rw [hbuy,side_of_decide])⟩
    · rcases localOrigin hx with ⟨y,hy,hxy⟩ | ⟨no,hno,rfl,rfl,hside⟩
      · rw [hxy]
        exact hk.locals c id y hy
      · exact ⟨no,hplaced no hno,hside⟩

theorem drop (h : Placed sys l) {c : UInt64} {event : Event} {rest : List (UInt64 × Event)}
    (hto : sys.toGateway = (c,event)::rest) :
    Placed { sys with gateway := (sys.gateway.handleEngineEvent c event).1, toGateway := rest } l where
  wf := h.wf
  live := h.live
  queued := h.queued
  distinct := h.distinct
  tracked id md hmd := by
    rw [get_handleEngineEvent] at hmd
    split_ifs at hmd
    exact h.tracked id md hmd
  locals c' id x hx := by
    simp only [localOrder,clients_handleEngineEvent] at hx
    exact h.locals c' id x hx
  events c' f hf := h.events c' f (by rw [hto]; exact List.mem_cons_of_mem _ hf)

theorem deliver (h : Placed sys l) : Placed sys.deliver.1 l := by
  unfold System.deliver
  cases hto : sys.toGateway with
  | nil => exact h
  | cons e rest => exact h.drop hto

/-- The gateway and a connection that track an order agree on its side. -/
theorem side_agrees (h : Placed sys l) {c : UInt64} {id : OrderId} {x : ReservationToken × Bool × PendingOperation}
    {md : OrderMetadata} (hx : sys.gateway.localOrder c id = some x) (hmd : sys.gateway.pendingOrders[id]? = some md) :
    (if x.2.1 then Side.buy else .sell) = md.side := by
  obtain ⟨no,hno,hside⟩ := h.locals c id x hx
  obtain ⟨no',hno',hside'⟩ := h.tracked id md hmd
  obtain ⟨-,rfl⟩ := Prod.mk.inj (Option.some.inj (hno.symm.trans hno'))
  rw [hside,side_of_decide,hside']

/-- A new order at the head of the queue is not live. -/
theorem incoming (h : Placed sys l) {x : ExecuteCommand} {rest : List ExecuteCommand} (hto : sys.toEngine = x::rest)
    (no : NewOrder) (hno : x.command = .newOrder no) : sys.engine.book.get no.orderId = none :=
  ((h.queued x (by rw [hto]; exact List.mem_cons_self ..)).new no hno).2.1

theorem engineStep (h : Placed sys l) : Placed sys.engineStep.1 l := by
  unfold System.engineStep
  cases hto : sys.toEngine with
  | nil => exact h
  | cons x rest =>
    have hx := h.queued x (by rw [hto]; exact List.mem_cons_self ..)
    have hdist := h.distinct
    rw [hto] at hdist
    refine ⟨Engine.wf_live h.wf (h.incoming hto),?_,?_,?_,h.tracked,h.locals,?_⟩
    · intro id o' ho'
      cases Engine.origin_live h.wf (h.incoming hto) ho' with
      | stays o ho hshrunk hle =>
        obtain ⟨p,hp,hacct,hside,hprice,htif⟩ := h.live id o ho
        rw [hshrunk]
        exact ⟨p,hp,hacct,hside,hprice,htif⟩
      | rests no q hcmd hid htif hshrunk hq hle =>
        obtain ⟨hp,-,hprice,-⟩ := hx.new no hcmd
        subst hid hshrunk
        exact ⟨_,hp,rfl,rfl,hprice,htif⟩
      | replaces r o q hcmd hid ho hacct htif hshrunk hq hle =>
        obtain ⟨p,hp,hacct',hside,-,-⟩ := h.live id o ho
        subst hid hshrunk
        exact ⟨p,hp,hacct.symm.trans hacct',hside,(hx.replace r hcmd).1,htif⟩
    · intro y hy
      have hq := h.queued y (by rw [hto]; exact List.mem_cons_of_mem _ hy)
      refine ⟨fun no hno => ?_,hq.replace⟩
      obtain ⟨hp,hget,hpos⟩ := hq.new no hno
      refine ⟨hp,Option.eq_none_iff_forall_ne_some.mpr fun o' ho' => ?_,hpos⟩
      cases Engine.origin_live h.wf (h.incoming hto) ho' with
      | stays o ho hshrunk hle => rw [hget] at ho; cases ho
      | rests no' q hcmd hid htif hshrunk hq hle =>
        have hxid : newOrderId x = some no.orderId := newOrderId_eq_some.mpr ⟨no',hcmd,hid⟩
        rw [List.filterMap_cons_some hxid] at hdist
        exact (List.nodup_cons.mp hdist).1 (List.mem_filterMap.mpr ⟨y,hy,newOrderId_eq_some.mpr ⟨no,hno,rfl⟩⟩)
      | replaces r o q hcmd hid ho hacct htif hshrunk hq hle => rw [hget] at ho; cases ho
    · exact hdist.sublist ((List.sublist_cons_self x rest).filterMap _)
    · intro c f hf
      rcases List.mem_append.mp hf with hf | hf
      · exact h.events c f hf
      · obtain ⟨ev,hev,heq⟩ := List.mem_map.mp hf
        obtain ⟨rfl,rfl⟩ := Prod.mk.inj heq
        obtain ⟨-,taker,m,htaker,hid,hm,hside,hne⟩ := Engine.fill_live h.wf (h.incoming hto) hev
        obtain ⟨p,hp,-,hpside,-⟩ := h.live _ m hm
        rw [hpside] at hside
        cases htaker with
        | order hcmd => exact ⟨hne,p,_,hp,hid ▸ (hx.new _ hcmd).1,hside⟩
        | @replacement r o hcmd ho hacct =>
          obtain ⟨t,ht,-,htside,-⟩ := h.live _ o ho
          refine ⟨hne,p,t,hp,hid ▸ ht,?_⟩
          rw [← htside]
          exact hside

theorem step (h : Placed sys l) {a : Action} (hp : sys.Placing l a) : Placed (sys.step a) (l.step sys a) := by
  cases a with
  | connect decodeCommand => exact h.withGateway rfl (localFrom_connect _ _)
  | disconnect connId => exact h.withGateway rfl (localFrom_disconnect _ _)
  | frame connId bytes up => exact h.frame hp
  | engine => exact h.engineStep.extend (extends_step l sys .engine)
  | deliver => exact h.deliver.extend (extends_step l sys .deliver)

end Placed

/-! ### Trading clients -/

/-- Clients that change no limits send only commands about orders. -/
structure Known (sys : System S) (l : Ledger) : Prop extends Placed sys l where
  named : ∀ x ∈ sys.toEngine, commandOrderId x.command ≠ none

namespace Known

/-- A command at the head of the queue has one of its outcomes. -/
theorem effect (h : Known sys l) {x : ExecuteCommand} {rest : List ExecuteCommand}
    (hto : sys.toEngine = x::rest) :
    Engine.Effect sys.engine (sys.engine.live x.command) (sys.engine.process x.command).2 x.command :=
  (Engine.process_effect h.wf (h.named x (by rw [hto]; exact List.mem_cons_self ..)) (h.incoming hto)).live

theorem step (h : Known sys l) {a : Action} (ht : sys.Trading l a) : Known (sys.step a) (l.step sys a) where
  toPlaced := h.toPlaced.step ht.placing
  named x hx := by
    cases a with
    | connect decodeCommand => exact h.named x hx
    | disconnect connId => exact h.named x hx
    | frame connId bytes up =>
      obtain ⟨g,out,hframe,heff,-⟩ := frame_effect ht
      rw [System.step,hframe] at hx
      rcases List.mem_append.mp hx with hx | hx
      · exact h.named x hx
      · rw [Option.mem_toList] at hx
        cases heff with
        | quiet ha hp hlocal => cases hx
        | _ => rw [← Option.some.inj hx]; simp [commandOrderId]
    | engine =>
      simp only [System.step,System.engineStep] at hx
      cases hto : sys.toEngine with
      | nil => simp [hto] at hx
      | cons y rest =>
        rw [hto] at hx
        exact h.named x (by rw [hto]; exact List.mem_cons_of_mem _ hx)
    | deliver =>
      have hsame : sys.deliver.1.toEngine = sys.toEngine := by
        unfold System.deliver
        cases sys.toGateway <;> rfl
      rw [System.step,hsame] at hx
      exact h.named x hx

end Known

variable {funding : List (AccountId × Int64)} {apiKeys : OrdMap String AccountId}

theorem Run.placed {allows : System S → Ledger → Action → Prop} (h : Run funding apiKeys allows sys l)
    (hp : ∀ sys l a, allows sys l a → sys.Placing l a) : Placed sys l :=
  h.keeps (Placed.start funding apiKeys) fun _ hplaced ha => hplaced.step (hp _ _ _ ha)

theorem Run.known {allows : System S → Ledger → Action → Prop} (h : Run funding apiKeys allows sys l)
    (ht : ∀ sys l a, allows sys l a → sys.Trading l a) : Known sys l :=
  h.keeps ⟨Placed.start funding apiKeys,by simp [System.start]⟩ fun _ hknown ha => hknown.step (ht _ _ _ ha)

/-- What the allowed steps of trading clients keep holds in every state of their runs. -/
theorem Run.keeps_known {allows : System S → Action → Prop} {P : System S → Ledger → Prop}
    (h : Run funding apiKeys (fun sys l a => sys.Trading l a ∧ allows sys a) sys l)
    (h₀ : P (System.start funding apiKeys) Ledger.empty)
    (hstep : ∀ {sys l a}, P sys l → Known sys l → sys.Trading l a → allows sys a → P (sys.step a) (l.step sys a)) :
    P sys l :=
  h.keeps h₀ fun hrun hp ha => hstep hp (hrun.known fun _ _ _ ha => ha.1) ha.1 ha.2

end System
end HighPerfTrading
