import HighPerfTrading.Codecs.Binary
import HighPerfTrading.Engine.EngineStep
import HighPerfTrading.Gateway.ClientHandler
import HighPerfTrading.Library.Simulation

/-! The gateway and one engine with a channel in each direction, and their runs. The channels
keep their order, lose nothing and have room for everything. -/
namespace HighPerfTrading
open Gateway

structure System (S : Type) where
  gateway : GatewayContext
  toEngine : List ExecuteCommand
  engine : Engine S
  toGateway : List (UInt64 × Event)

/-- Who moves next: a client, the engine with its next command, or the gateway with the engine's
next event. `up` says whether the connection to the engine is up. -/
inductive Action
  | connect (decodeCommand : List UInt8 → Option Command)
  | disconnect (connId : UInt64)
  | frame (connId : UInt64) (bytes : List UInt8) (up : Bool)
  | engine
  | deliver

namespace System
variable {S : Type} [Slab S Order]

/-- A gateway with freshly created accounts, and an empty engine. -/
def start (funding : List (AccountId × Int64)) (apiKeys : OrdMap String AccountId) : System S where
  gateway :=
    { accountManager := funding.foldl (fun m f => m.createAccount f.1 f.2) Gateway.AccountManager.new
      apiKeys := apiKeys
      sessions := ∅
      pendingOrders := ∅
      clients := ∅
      nextConnId := 1 }
  toEngine := []
  engine := Engine.new
  toGateway := []

def routes (sys : System S) (up : Bool) (symbolId : SymbolId) : Bool :=
  up && decide (symbolId = sys.engine.book.symbolId)

def frame (sys : System S) (connId : UInt64) (bytes : List UInt8) (up : Bool) :
    System S × List (UInt64 × Event) :=
  let handled := sys.gateway.handleFrame connId bytes (sys.routes up)
  ({ sys with gateway := handled.1, toEngine := sys.toEngine ++ handled.2.1.toList },
    handled.2.2.map fun event => (connId,event))

/-- The events come back with the connection of their command. -/
def engineStep (sys : System S) : System S × List Event :=
  match sys.toEngine with
  | [] => (sys,[])
  | x::rest =>
    ({ sys with
        toEngine := rest
        engine := sys.engine.live x.command
        toGateway := sys.toGateway ++ (sys.engine.process x.command).2.map fun event => (x.connId,event) },
      (sys.engine.process x.command).2)

def deliver (sys : System S) : System S × List (UInt64 × Event) :=
  match sys.toGateway with
  | [] => (sys,[])
  | (connId,event)::rest =>
    ({ sys with gateway := (sys.gateway.handleEngineEvent connId event).1, toGateway := rest },
      (sys.gateway.handleEngineEvent connId event).2)

def step (sys : System S) : Action → System S
  | .connect decodeCommand => { sys with gateway := sys.gateway.connect decodeCommand }
  | .disconnect connId => { sys with gateway := sys.gateway.disconnect connId }
  | .frame connId bytes up => (sys.frame connId bytes up).1
  | .engine => sys.engineStep.1
  | .deliver => sys.deliver.1

/-! ### One frame and one event -/

/-- The router reaches the engine of the command's symbol. -/
def routed (sys : System S) (up : Bool) (cmd : Command) : Bool := ((commandSymbolId cmd).map (sys.routes up)).getD false

variable {sys : System S} {connId : UInt64}

omit [Slab S Order] in
theorem frame_skipped {bytes : List UInt8} (h : sys.gateway.decoded connId bytes = none) (up : Bool) :
    (sys.frame connId bytes up).1 = sys := by
  simp only [System.frame,GatewayContext.handleFrame_none h,Option.toList_none,List.append_nil]

omit [Slab S Order] in
theorem frame_decoded {bytes : List UInt8} {cmd : Command} (h : sys.gateway.decoded connId bytes = some cmd) (up : Bool) :
    (sys.frame connId bytes up).1 = { sys with
      gateway := (sys.gateway.handleCommand connId cmd (sys.routed up cmd)).1
      toEngine := sys.toEngine ++ (sys.gateway.handleCommand connId cmd (sys.routed up cmd)).2.1.toList } := by
  simp only [System.frame,GatewayContext.handleFrame_some h,routed]

theorem step_deliver {event : Event} {rest : List (UInt64 × Event)} (hq : sys.toGateway = (connId,event)::rest) :
    sys.step .deliver = { sys with gateway := (sys.gateway.handleEngineEvent connId event).1, toGateway := rest } := by
  simp only [System.step,System.deliver,hq]

end System

/-- What a run has done so far: the first order sent under each id with its connection, the fills
the engine has emitted and the gateway has handled, and the events sent to clients. -/
structure Ledger where
  placed : OrderId → Option (UInt64 × NewOrder)
  fills : List Fill
  settled : List Fill
  sent : List (UInt64 × Event)

namespace Ledger
variable {S : Type} [Slab S Order]

def empty : Ledger := ⟨fun _ => none,[],[],[]⟩

def place (l : Ledger) (connId : UInt64) (cmd : Option Command) : OrderId → Option (UInt64 × NewOrder) :=
  match cmd with
  | some (.newOrder no) => fun id => if id = no.orderId ∧ (l.placed id).isNone then some (connId,no) else l.placed id
  | _ => l.placed

def step (l : Ledger) (sys : System S) : Action → Ledger
  | .frame connId bytes up =>
    { l with
      placed := l.place connId (sys.gateway.decoded connId bytes)
      sent := l.sent ++ (sys.frame connId bytes up).2 }
  | .engine => { l with fills := l.fills ++ sys.engineStep.2.filterMap Event.toFill }
  | .deliver =>
    { l with
      settled := l.settled ++ ((sys.toGateway.take 1).map Prod.snd).filterMap Event.toFill
      sent := l.sent ++ sys.deliver.2 }
  | _ => l

end Ledger

namespace System
variable {S : Type} [Slab S Order]

/-- The system with the ledger of its run. -/
def ledgered : Machine (System S × Ledger) Action Empty := .silent fun s a => (s.1.step a,s.2.step s.1 a)

/-- Where the runs lead whose every step is allowed. -/
def Run (funding : List (AccountId × Int64)) (apiKeys : OrdMap String AccountId)
    (allows : System S → Ledger → Action → Prop) (sys : System S) (l : Ledger) : Prop :=
  ledgered.Reaches (fun s a => allows s.1 s.2 a) (System.start funding apiKeys,Ledger.empty) (sys,l)

/-- Every action of a sequence is allowed where it is taken. -/
def Allowed (allows : System S → Ledger → Action → Prop) (sys : System S) (l : Ledger) (as : List Action) : Prop :=
  ledgered.Obeys (fun s a => allows s.1 s.2 a) (sys,l) as

instance (allows : System S → Ledger → Action → Prop) [∀ sys l a, Decidable (allows sys l a)] (sys : System S)
    (l : Ledger) (as : List Action) : Decidable (Allowed allows sys l as) :=
  Machine.decidableObeys ledgered _ _ _

def execute (sys : System S) (l : Ledger) (as : List Action) : System S × Ledger := ledgered.after (sys,l) as

namespace Run
variable {funding : List (AccountId × Int64)} {apiKeys : OrdMap String AccountId}
  {allows : System S → Ledger → Action → Prop} {sys : System S} {l : Ledger}

theorem start : Run funding apiKeys allows (System.start funding apiKeys) Ledger.empty := Machine.Reaches.start

theorem execute (h : Run funding apiKeys allows sys l) (as : List Action) (ha : Allowed allows sys l as) :
    Run funding apiKeys allows (sys.execute l as).1 (sys.execute l as).2 :=
  Machine.Reaches.after h as ha

/-- What holds at first and is kept by every allowed step of a run holds in every state of it. -/
theorem keeps {P : System S → Ledger → Prop} (h : Run funding apiKeys allows sys l)
    (h₀ : P (System.start funding apiKeys) Ledger.empty)
    (hstep : ∀ {sys l a}, Run funding apiKeys allows sys l → P sys l → allows sys l a → P (sys.step a) (l.step sys a)) :
    P sys l :=
  Machine.Reaches.keeps (P := fun s => P s.1 s.2) h h₀ fun _ _ hs hp ha => hstep hs hp ha

end Run

/-- A client trades for the account it is authenticated as, through the engine of its symbol, with
positive prices and quantities and fresh order ids. -/
def Trades (sys : System S) (l : Ledger) (connId : UInt64) : Command → Prop
  | .newOrder no => sys.gateway.sessions[connId]? = some no.accountId ∧
      no.symbolId = sys.engine.book.symbolId ∧ 0 < no.price ∧ 0 < no.qty ∧ l.placed no.orderId = none
  | .cancel c => sys.gateway.sessions[connId]? = some c.accountId ∧ c.symbolId = sys.engine.book.symbolId
  | .replace r => sys.gateway.sessions[connId]? = some r.accountId ∧
      r.symbolId = sys.engine.book.symbolId ∧ 0 < r.newPrice ∧ 0 < r.newQty
  | .setRiskLimits _ => False
  | .queryAccount _ => True
  | .authenticate _ => True

/-- Clients authenticate, query, and send orders, cancels and replacements for themselves; the
engine's connection stays up. -/
def Trading (sys : System S) (l : Ledger) : Action → Prop
  | .frame connId bytes up => up = true ∧ ∀ cmd, sys.gateway.decoded connId bytes = some cmd → sys.Trades l connId cmd
  | _ => True

/-- A new order has a fresh id and a positive price and quantity, and a replacement a positive price and
quantity. -/
def Places (l : Ledger) : Command → Prop
  | .newOrder no => 0 < no.price ∧ 0 < no.qty ∧ l.placed no.orderId = none
  | .replace r => 0 < r.newPrice ∧ 0 < r.newQty
  | _ => True

/-- Clients send what they like, for any symbol, whether it can be routed or not, as long as their orders and
replacements are such. -/
def Placing (sys : System S) (l : Ledger) : Action → Prop
  | .frame connId bytes _ => ∀ cmd, sys.gateway.decoded connId bytes = some cmd → Places l cmd
  | _ => True

omit [Slab S Order] in
theorem Trades.places {sys : System S} {l : Ledger} {connId : UInt64} {cmd : Command} (h : sys.Trades l connId cmd) :
    Places l cmd := by
  cases cmd with
  | newOrder no => exact ⟨h.2.2.1,h.2.2.2⟩
  | replace r => exact ⟨h.2.2.1,h.2.2.2⟩
  | _ => trivial

omit [Slab S Order] in
theorem Trading.placing {sys : System S} {l : Ledger} {a : Action} (h : sys.Trading l a) : sys.Placing l a := by
  cases a with
  | frame connId bytes up => exact fun cmd hcmd => (h.2 cmd hcmd).places
  | _ => trivial

instance (sys : System S) (l : Ledger) (connId : UInt64) (cmd : Command) : Decidable (sys.Trades l connId cmd) :=
  match cmd with
  | .newOrder _ => inferInstanceAs (Decidable (_ ∧ _))
  | .cancel _ => inferInstanceAs (Decidable (_ ∧ _))
  | .replace _ => inferInstanceAs (Decidable (_ ∧ _))
  | .setRiskLimits _ => isFalse id
  | .queryAccount _ => isTrue trivial
  | .authenticate _ => isTrue trivial

instance (sys : System S) (l : Ledger) (a : Action) : Decidable (sys.Trading l a) :=
  match a with
  | .frame connId bytes up =>
    decidable_of_iff (up = true ∧ ∀ cmd ∈ (sys.gateway.decoded connId bytes).toList, sys.Trades l connId cmd) <| by
      simp only [Trading,Option.mem_toList]
  | .connect _ => isTrue trivial
  | .disconnect _ => isTrue trivial
  | .engine => isTrue trivial
  | .deliver => isTrue trivial

instance (l : Ledger) (cmd : Command) : Decidable (Places l cmd) :=
  match cmd with
  | .newOrder _ => inferInstanceAs (Decidable (_ ∧ _))
  | .replace _ => inferInstanceAs (Decidable (_ ∧ _))
  | .cancel _ => isTrue trivial
  | .setRiskLimits _ => isTrue trivial
  | .queryAccount _ => isTrue trivial
  | .authenticate _ => isTrue trivial

instance (sys : System S) (l : Ledger) (a : Action) : Decidable (sys.Placing l a) :=
  match a with
  | .frame connId bytes _ =>
    decidable_of_iff (∀ cmd ∈ (sys.gateway.decoded connId bytes).toList, Places l cmd) <| by
      simp only [Placing,Option.mem_toList]
  | .connect _ => isTrue trivial
  | .disconnect _ => isTrue trivial
  | .engine => isTrue trivial
  | .deliver => isTrue trivial

end System

/-! ### Clients of the binary protocol -/

namespace Action

def connectBinary : Action := .connect fun bytes => (BinaryCodec.decodeCommand bytes).toOption

def send (connId : UInt64) (cmd : Command) : Action := .frame connId (BinaryCodec.encodeCommand cmd) true

end Action

/-- Two of the accounts that the gateway server sets up, with their keys. -/
def twoAccounts : List (AccountId × Int64) := [(1,1000000),(2,1000000)]

def twoKeys : OrdMap String AccountId := (∅ : OrdMap String AccountId).insert "test-key-1" 1 |>.insert "test-key-2" 2

/-- Both accounts connect and authenticate, in this order. -/
def logins : List Action :=
  [.connectBinary,.connectBinary,.send 1 (.authenticate ⟨"test-key-1"⟩),.send 2 (.authenticate ⟨"test-key-2"⟩)]
end HighPerfTrading
