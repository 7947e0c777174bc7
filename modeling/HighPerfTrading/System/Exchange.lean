import HighPerfTrading.System.Reservations

/-! The gateway with the engines behind its router, each with a channel in each direction, and their
runs from a restart of the gateway. The channels of one engine keep their order; those of two do not wait
for each other. -/
namespace HighPerfTrading
open Gateway

/-- An engine with its connection to the gateway. -/
structure Venue (S : Type) where
  toEngine : List ExecuteCommand
  engine : Engine S
  toGateway : List (UInt64 × Event)

structure Exchange (S : Type) where
  gateway : GatewayContext
  /-- The router's connections. -/
  venues : OrdMap SymbolId (Venue S)

namespace Exchange

inductive Action
  | connect (decodeCommand : List UInt8 → Option Command)
  | disconnect (connId : UInt64)
  | frame (connId : UInt64) (bytes : List UInt8) (up : Bool)
  | engine (symbolId : SymbolId)
  | deliver (symbolId : SymbolId)

variable {S : Type} [Slab S Order]

/-- The gateway and one engine, as if there were no other. -/
def view (ex : Exchange S) (v : Venue S) : System S := ⟨ex.gateway,v.toEngine,v.engine,v.toGateway⟩

def putView (ex : Exchange S) (symbolId : SymbolId) (sys : System S) : Exchange S :=
  ⟨sys.gateway,ex.venues.insert symbolId ⟨sys.toEngine,sys.engine,sys.toGateway⟩⟩

def routes (ex : Exchange S) (up : Bool) (symbolId : SymbolId) : Bool := up && (ex.venues[symbolId]?).isSome

/-- A command goes to the engine of its symbol. -/
def routeToEngine (venues : OrdMap SymbolId (Venue S)) (x : ExecuteCommand) : OrdMap SymbolId (Venue S) :=
  match commandSymbolId x.command with
  | some symbolId => venues.modify symbolId fun v => { v with toEngine := v.toEngine ++ [x] }
  | none => venues

def sent (venues : OrdMap SymbolId (Venue S)) (out : Option ExecuteCommand) : OrdMap SymbolId (Venue S) :=
  out.elim venues (routeToEngine venues)

def frame (ex : Exchange S) (connId : UInt64) (bytes : List UInt8) (up : Bool) : Exchange S :=
  let handled := ex.gateway.handleFrame connId bytes (ex.routes up)
  ⟨handled.1,sent ex.venues handled.2.1⟩

def step (ex : Exchange S) : Action → Exchange S
  | .connect decodeCommand => { ex with gateway := ex.gateway.connect decodeCommand }
  | .disconnect connId => { ex with gateway := ex.gateway.disconnect connId }
  | .frame connId bytes up => ex.frame connId bytes up
  | .engine symbolId =>
    match ex.venues[symbolId]? with
    | none => ex
    | some v => ex.putView symbolId (ex.view v).engineStep.1
  | .deliver symbolId =>
    match ex.venues[symbolId]? with
    | none => ex
    | some v => ex.putView symbolId (ex.view v).deliver.1

def engines (ex : Exchange S) : OrdMap SymbolId (Engine S) := ex.venues.map fun _ v => v.engine

def queryAllEnginesForOrders (engines : OrdMap SymbolId (Engine S)) : List OrderSnapshot :=
  engines.toList.flatMap fun e => e.2.book.getAllOrderSnapshots

/-- The gateway server has recovered its accounts, connected to the engines and rebuilt its reservations.
No client is connected, and no order is tracked. -/
def restart (m : Gateway.AccountManager) (apiKeys : OrdMap String AccountId) (engines : OrdMap SymbolId (Engine S)) :
    Exchange S where
  gateway :=
    { accountManager := Reconciliation.rebuildReservations m (queryAllEnginesForOrders engines)
      apiKeys := apiKeys
      sessions := ∅
      pendingOrders := ∅
      clients := ∅
      nextConnId := 1 }
  venues := engines.map fun _ e => ⟨[],e,[]⟩

/-- No command and no event is on its way. -/
def Quiescent (ex : Exchange S) : Prop :=
  ∀ (s : SymbolId) (v : Venue S), ex.venues[s]? = some v → v.toEngine = [] ∧ v.toGateway = []

def machine : Machine (Exchange S) Action Empty := .silent step

/-- Where the runs lead whose every step is allowed. -/
def Run (ex₀ : Exchange S) (allows : Exchange S → Action → Prop) (ex : Exchange S) : Prop :=
  machine.Reaches allows ex₀ ex

/-- Every action of a sequence is allowed where it is taken. -/
def Allowed (allows : Exchange S → Action → Prop) (ex : Exchange S) (as : List Action) : Prop :=
  machine.Obeys allows ex as

def execute (ex : Exchange S) (as : List Action) : Exchange S := machine.after ex as

theorem Run.start {ex₀ : Exchange S} {allows : Exchange S → Action → Prop} : Run ex₀ allows ex₀ :=
  Machine.Reaches.start

theorem Run.execute {ex₀ ex : Exchange S} {allows : Exchange S → Action → Prop} (h : Run ex₀ allows ex)
    (as : List Action) (ha : Allowed allows ex as) : Run ex₀ allows (ex.execute as) :=
  Machine.Reaches.after h as ha

theorem Run.keeps {ex₀ ex : Exchange S} {allows : Exchange S → Action → Prop} {P : Exchange S → Prop}
    (h : Run ex₀ allows ex) (h₀ : P ex₀) (hstep : ∀ ex a, P ex → allows ex a → P (ex.step a)) : P ex :=
  Machine.Reaches.keeps h h₀ fun ex a _ => hstep ex a

/-- Every command that needs an engine reaches that of its symbol. -/
def Routed (ex : Exchange S) : Action → Prop
  | .frame connId bytes up => up = true ∧ ∀ cmd s, ex.gateway.decoded connId bytes = some cmd →
      (∀ q, cmd ≠ .queryAccount q) → commandSymbolId cmd = some s → (ex.venues[s]?).isSome
  | _ => True

end Exchange

/-! ### One venue -/

namespace Venue
variable {S : Type} [Slab S Order] {v : Venue S} {id : OrderId} {side : Side}

/-- An order of this side is live under the id, or on its way as a new one. -/
def Has (v : Venue S) (id : OrderId) (side : Side) : Prop :=
  (∃ o, v.engine.book.get id = some o ∧ o.side = side) ∨
    ∃ x ∈ v.toEngine, ∃ no, x.command = .newOrder no ∧ no.orderId = id ∧ no.side = side

def receive (v : Venue S) (out : Option ExecuteCommand) : Venue S := { v with toEngine := v.toEngine ++ out.toList }

/-- The engine has processed the command at the head of its queue. -/
def processed (v : Venue S) (x : ExecuteCommand) (rest : List ExecuteCommand) : Venue S where
  toEngine := rest
  engine := v.engine.live x.command
  toGateway := v.toGateway ++ (v.engine.process x.command).2.map fun event => (x.connId,event)

omit [Slab S Order] in
@[simp] theorem receive_none (v : Venue S) : v.receive none = v := by simp [receive]

theorem has_receive {out : Option ExecuteCommand} : (v.receive out).Has id side ↔
    v.Has id side ∨ ∃ x no, out = some x ∧ x.command = .newOrder no ∧ no.orderId = id ∧ no.side = side := by
  unfold Has receive
  constructor
  · rintro (ho | ⟨x,hx,no,hno⟩)
    · exact Or.inl (Or.inl ho)
    · rcases List.mem_append.mp hx with hx | hx
      · exact Or.inl (Or.inr ⟨x,hx,no,hno⟩)
      · exact Or.inr ⟨x,no,Option.mem_toList.mp hx,hno⟩
  · rintro ((ho | ⟨x,hx,no,hno⟩) | ⟨x,no,hx,hno⟩)
    · exact Or.inl ho
    · exact Or.inr ⟨x,List.mem_append_left _ hx,no,hno⟩
    · exact Or.inr ⟨x,List.mem_append_right _ (Option.mem_toList.mpr hx),no,hno⟩

/-- The venue some time after its engine was this one, when the ids of `old` were taken by its orders.
Old orders only shrink; what else is live or on its way has a free id. -/
structure Sound (old : OrderId → Prop) (e₀ : Engine S) (v : Venue S) : Prop where
  wf : OrderBook.Wf v.engine.book
  incoming : ∀ x ∈ v.toEngine, ∀ no, x.command = .newOrder no → v.engine.book.get no.orderId = none
  distinct : (v.toEngine.filterMap System.newOrderId).Nodup
  named : ∀ x ∈ v.toEngine, ∀ i, commandOrderId x.command = some i → (∃ c, x.command = .cancel c) ∨ ¬ old i
  rests : ∀ i o, ¬ old i → v.engine.book.get i = some o → o.tif = .gtc
  shrunk : ∀ i o, old i → v.engine.book.get i = some o →
    ∃ o₀, e₀.book.get i = some o₀ ∧ o = { o₀ with qtyRem := o.qtyRem } ∧ o.qtyRem ≤ o₀.qtyRem
  fills : ∀ c f, (c,Event.fill f) ∈ v.toGateway → f.makerOrderId ≠ f.takerOrderId

namespace Sound
variable {old : OrderId → Prop} {e₀ : Engine S}

theorem receive (h : v.Sound old e₀) {out : Option ExecuteCommand}
    (hnew : ∀ x no, out = some x → x.command = .newOrder no → ∀ k, ¬ v.Has no.orderId k)
    (hold : ∀ x i, out = some x → commandOrderId x.command = some i → (∃ c, x.command = .cancel c) ∨ ¬ old i) :
    (v.receive out).Sound old e₀ where
  wf := h.wf
  incoming x hx no hno := by
    rcases List.mem_append.mp hx with hx | hx
    · exact h.incoming x hx no hno
    · refine Option.eq_none_iff_forall_ne_some.mpr fun o ho => ?_
      exact hnew x no (Option.mem_toList.mp hx) hno o.side (Or.inl ⟨o,ho,rfl⟩)
  distinct := by
    cases out with
    | none => simpa [Venue.receive] using h.distinct
    | some x =>
      simp only [Venue.receive,Option.toList_some,List.filterMap_append]
      refine List.Nodup.append h.distinct ?_ ?_
      · cases hid : System.newOrderId x <;> simp [hid]
      · intro i hi hx
        obtain ⟨y,hy,hyi⟩ := List.mem_filterMap.mp hx
        rw [List.mem_singleton.mp hy] at hyi
        obtain ⟨no,hno,hnoid⟩ := System.newOrderId_eq_some.mp hyi
        obtain ⟨z,hz,hzi⟩ := List.mem_filterMap.mp hi
        obtain ⟨no',hno',hid'⟩ := System.newOrderId_eq_some.mp hzi
        exact hnew x no rfl hno no'.side (Or.inr ⟨z,hz,no',hno',hid'.trans hnoid.symm,rfl⟩)
  named x hx := by
    rcases List.mem_append.mp hx with hx | hx
    · exact h.named x hx
    · exact fun i => hold x i (Option.mem_toList.mp hx)
  rests := h.rests
  shrunk := h.shrunk
  fills := h.fills

/-- A command at the head of the queue has one of its outcomes, or names no order and leaves the book. -/
theorem effect (h : v.Sound old e₀) {x : ExecuteCommand} {rest : List ExecuteCommand} (hto : v.toEngine = x::rest) :
    Engine.Effect v.engine (v.engine.live x.command) (v.engine.process x.command).2 x.command ∨
      commandOrderId x.command = none ∧ (v.engine.live x.command).book = v.engine.book ∧
        ∀ f, .fill f ∉ (v.engine.process x.command).2 :=
  Engine.live_outcome h.wf (h.incoming x (by rw [hto]; exact List.mem_cons_self ..))

/-- Where an order of the book after the command comes from. -/
theorem origin (h : v.Sound old e₀) {x : ExecuteCommand} {rest : List ExecuteCommand} (hto : v.toEngine = x::rest)
    {o' : Order} (ho' : (v.engine.live x.command).book.get id = some o') :
    Engine.Origin v.engine.book x.command id o' :=
  Engine.origin_live h.wf (h.incoming x (by rw [hto]; exact List.mem_cons_self ..)) ho'

/-- No order is filled against itself. -/
theorem fill_ne (h : v.Sound old e₀) {x : ExecuteCommand} {rest : List ExecuteCommand} (hto : v.toEngine = x::rest)
    {f : Fill} (hf : .fill f ∈ (v.engine.process x.command).2) : f.makerOrderId ≠ f.takerOrderId := by
  obtain ⟨-,-,-,-,-,-,-,hne⟩ := Engine.fill_live h.wf (h.incoming x (by rw [hto]; exact List.mem_cons_self ..)) hf
  exact hne

/-- The engine brings up no order. -/
theorem has_processed (h : v.Sound old e₀) {x : ExecuteCommand} {rest : List ExecuteCommand}
    (hto : v.toEngine = x::rest) (hid : (v.processed x rest).Has id side) : v.Has id side := by
  rcases hid with ⟨o',ho',hs⟩ | ⟨y,hy,hno⟩
  · cases h.origin hto ho' with
    | stays o ho hshrunk hle =>
      refine Or.inl ⟨o,ho,?_⟩
      rw [← hs,hshrunk]
    | rests no q hcmd hnoid htif hrest hq hle =>
      refine Or.inr ⟨x,by rw [hto]; exact List.mem_cons_self ..,no,hcmd,hnoid,?_⟩
      rw [← hs,hrest]
      rfl
    | replaces r o q hcmd hrid ho hacct htif hrest hq hle =>
      refine Or.inl ⟨o,ho,?_⟩
      rw [← hs,hrest]
      rfl
  · exact Or.inr ⟨y,by rw [hto]; exact List.mem_cons_of_mem _ hy,hno⟩

theorem processed (h : v.Sound old e₀) {x : ExecuteCommand} {rest : List ExecuteCommand}
    (hto : v.toEngine = x::rest) : (v.processed x rest).Sound old e₀ := by
  have hx : x ∈ v.toEngine := by rw [hto]; exact List.mem_cons_self ..
  have hmem : ∀ y ∈ rest, y ∈ v.toEngine := fun y hy => by rw [hto]; exact List.mem_cons_of_mem _ hy
  have hdist := h.distinct
  rw [hto] at hdist
  -- only a cancel names an old order
  have hrecent : ∀ i, commandOrderId x.command = some i → (∀ c, x.command ≠ .cancel c) → ¬ old i := by
    intro i hi hc hold
    rcases h.named x hx i hi with ⟨c,hcmd⟩ | hnot
    · exact hc c hcmd
    · exact hnot hold
  refine ⟨?_,?_,hdist.sublist ((List.sublist_cons_self x rest).filterMap _),fun y hy => h.named y (hmem y hy),?_,?_,?_⟩
  · rcases h.effect hto with heff | ⟨-,hb,-⟩
    · exact heff.wf h.wf
    · exact hb ▸ h.wf
  · intro y hy no hno
    refine Option.eq_none_iff_forall_ne_some.mpr fun o' ho' => ?_
    have hget := h.incoming y (hmem y hy) no hno
    cases h.origin hto ho' with
    | stays o ho hshrunk hle => rw [hget] at ho; cases ho
    | rests no' q hcmd hid htif hrest hq hle =>
      have hxid : System.newOrderId x = some no.orderId := System.newOrderId_eq_some.mpr ⟨no',hcmd,hid⟩
      rw [List.filterMap_cons_some hxid] at hdist
      refine (List.nodup_cons.mp hdist).1 (List.mem_filterMap.mpr ⟨y,hy,?_⟩)
      exact System.newOrderId_eq_some.mpr ⟨no,hno,rfl⟩
    | replaces r o q hcmd hid ho hacct htif hrest hq hle => rw [hget] at ho; cases ho
  · intro i o' hi ho'
    cases h.origin hto ho' with
    | stays o ho hshrunk hle =>
      rw [hshrunk]
      exact h.rests i o hi ho
    | rests no q hcmd hid htif hrest hq hle => rw [hrest]; exact htif
    | replaces r o q hcmd hid ho hacct htif hrest hq hle => rw [hrest]; exact htif
  · intro i o' hi ho'
    cases h.origin hto ho' with
    | stays o ho hshrunk hle =>
      obtain ⟨o₀,ho₀,hfrom,hle₀⟩ := h.shrunk i o hi ho
      refine ⟨o₀,ho₀,?_,Int64.le_trans hle hle₀⟩
      rw [hshrunk,hfrom]
    | rests no q hcmd hid htif hrest hq hle =>
      exact absurd hi (hrecent i (by rw [hcmd,← hid]; rfl) fun c => by rw [hcmd]; simp)
    | replaces r o q hcmd hid ho hacct htif hrest hq hle =>
      exact absurd hi (hrecent i (by rw [hcmd,← hid]; rfl) fun c => by rw [hcmd]; simp)
  · intro c f hf
    rcases List.mem_append.mp hf with hf | hf
    · exact h.fills c f hf
    · obtain ⟨ev,hev,heq⟩ := List.mem_map.mp hf
      obtain ⟨-,rfl⟩ := Prod.mk.inj heq
      exact h.fill_ne hto hev

/-- The engine and its queue stay, and events are taken from its channel. -/
theorem delivered (h : v.Sound old e₀) {rest : List (UInt64 × Event)} (hrest : ∀ e ∈ rest, e ∈ v.toGateway) :
    ({ v with toGateway := rest } : Venue S).Sound old e₀ where
  wf := h.wf
  incoming := h.incoming
  distinct := h.distinct
  named := h.named
  rests := h.rests
  shrunk := h.shrunk
  fills c f hf := h.fills c f (hrest _ hf)

end Sound
end Venue

/-! ### Frames -/

namespace Exchange
open Gateway.GatewayContext
variable {S : Type}

/-- What of a command a venue gets. -/
def addressed (out : Option ExecuteCommand) (s : SymbolId) : Option ExecuteCommand :=
  out.filter fun x => commandSymbolId x.command = some s

theorem addressed_eq_some {out : Option ExecuteCommand} {s : SymbolId} {x : ExecuteCommand} :
    addressed out s = some x ↔ out = some x ∧ commandSymbolId x.command = some s := by
  simp [addressed,Option.filter_eq_some_iff]

theorem get_sent (venues : OrdMap SymbolId (Venue S)) (out : Option ExecuteCommand) (s : SymbolId) :
    (sent venues out)[s]? = (venues[s]?).map fun v => v.receive (addressed out s) := by
  cases out with
  | none => simp [sent,addressed]
  | some x =>
    simp only [sent,Option.elim_some,routeToEngine,addressed,Option.filter_some]
    cases hs : commandSymbolId x.command with
    | none => simp
    | some sym =>
      simp only [Std.ExtTreeMap.getElem?_modify,Std.LawfulEqOrd.compare_eq_iff_eq,Option.some.injEq]
      by_cases hsym : sym = s
      · subst hsym
        simp only [if_true,decide_true]
        rfl
      · simp [hsym]

/-- A frame that nothing keeps from its engine has one of the outcomes of its command, or passes limits on. -/
theorem frame_effect {ex : Exchange S} {connId : UInt64} {bytes : List UInt8} {up : Bool}
    (hr : ex.Routed (.frame connId bytes up)) :
    ∃ g out, ex.frame connId bytes up = ⟨g,sent ex.venues out⟩ ∧
      (∀ x, out = some x → ex.gateway.decoded connId bytes = some x.command) ∧
      (FrameEffect ex.gateway g connId out ∨
        g.accountManager.accounts = ex.gateway.accountManager.accounts ∧
          g.pendingOrders = ex.gateway.pendingOrders ∧ ∀ x, out = some x → commandOrderId x.command = none) := by
  obtain ⟨rfl,hr⟩ := hr
  refine ⟨_,_,rfl,?_,?_⟩
  · intro x hx
    cases hd : ex.gateway.decoded connId bytes with
    | none => rw [handleFrame_none hd] at hx; cases hx
    | some cmd =>
      rw [handleFrame_some hd] at hx
      obtain ⟨rfl,-,-⟩ := handleCommand_out hx
      rfl
  simp only [handleFrame]
  cases hd : ex.gateway.decoded connId bytes with
  | none => exact Or.inl (.quiet rfl rfl (.of_eq fun _ _ => rfl))
  | some cmd =>
    have hroute : ∀ s, (∀ q, cmd ≠ .queryAccount q) → commandSymbolId cmd = some s → ex.routes true s = true :=
      fun s hq hs => by simpa [routes] using hr cmd s hd hq hs
    cases cmd with
    | queryAccount q => exact Or.inl (handleQueryAccount_effect _ connId q)
    | authenticate auth => exact Or.inl (handleAuthenticate_effect _ connId auth)
    | newOrder no =>
      simp only [commandSymbolId,Option.map_some,Option.getD_some,hroute no.symbolId (by simp) rfl]
      exact Or.inl (handleCommand_effect _ connId (by simp))
    | cancel c =>
      simp only [commandSymbolId,Option.map_some,Option.getD_some,hroute c.symbolId (by simp) rfl]
      exact Or.inl (handleCommand_effect _ connId (by simp))
    | replace r =>
      simp only [commandSymbolId,Option.map_some,Option.getD_some,hroute r.symbolId (by simp) rfl]
      exact Or.inl (handleCommand_effect _ connId (by simp))
    | setRiskLimits srl =>
      simp only [commandSymbolId,Option.map_some,Option.getD_some,hroute srl.symbolId (by simp) rfl]
      by_cases hsession : (ex.gateway.sessions[connId]?).isSome
      · rw [handleCommand_limits hsession]
        refine Or.inr ⟨rfl,rfl,fun x hx => ?_⟩
        rw [← Option.some.inj hx]
        rfl
      · have hnone : (ex.gateway.sessions[connId]?).isNone := by simpa using hsession
        simp only [handleCommand,if_pos hnone]
        exact Or.inl (reject_effect ..)

end Exchange
end HighPerfTrading
