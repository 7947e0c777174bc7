import HighPerfTrading.Engine.SymbolIds
import HighPerfTrading.Library.Simulation
import HighPerfTrading.System.EngineLink
import HighPerfTrading.System.System

/-! The gateway and one engine server with the connection between them: the router writes frames and its reader task
reads them, the three tasks of the engine server run as they like, and another task of the gateway handles the
messages. -/
namespace HighPerfTrading
open Gateway

/-- `events` are the messages that the reader task has passed on. -/
structure Deployment (S : Type) where
  gateway : GatewayContext
  symbolId : SymbolId
  link : EngineLink S
  events : List EngineToGateway

namespace Deployment

inductive Action
  | connect (decodeCommand : List UInt8 → Option Command)
  | disconnect (connId : UInt64)
  | frame (connId : UInt64) (bytes : List UInt8) (up : Bool)
  | arrive
  | server (a : EngineServer.Action)
  | readEvent
  | handleResponse

variable {S : Type}

/-- The gateway has connected to an engine server, and no client has come yet. -/
def start (gateway : GatewayContext) (symbolId : SymbolId) (sv : Server S) : Deployment S :=
  ⟨gateway,symbolId,.connect sv,[]⟩

/-- The router knows the engine by its configured symbol. -/
def routes (d : Deployment S) (up : Bool) (symbolId : SymbolId) : Bool := up && decide (symbolId = d.symbolId)

section Frames
variable (postcard : ServerPostcard)

/-- The router takes the frame of the client's command, if the gateway sends the command on. -/
def takesFrame (d : Deployment S) (connId : UInt64) (bytes : List UInt8) (up : Bool) : Bool :=
  (d.gateway.handleFrame connId bytes (d.routes up)).2.1.all fun x => EngineLink.takes postcard (.execute x)

/-- To the gateway it is the same whether the router has no engine for the command or refuses its frame. -/
def routesFrame (d : Deployment S) (connId : UInt64) (bytes : List UInt8) (up : Bool) (symbolId : SymbolId) : Bool :=
  d.takesFrame postcard connId bytes up && d.routes up symbolId

def frame (d : Deployment S) (connId : UInt64) (bytes : List UInt8) (up : Bool) :
    Deployment S × List (UInt64 × Event) :=
  let handled := d.gateway.handleFrame connId bytes (d.routesFrame postcard connId bytes up)
  ({ d with
      gateway := handled.1
      link := handled.2.1.elim d.link fun x => d.link.send postcard (.execute x) },
    handled.2.2.map fun event => (connId,event))

def readEvent (d : Deployment S) : Deployment S :=
  { d with link := (d.link.readEvent postcard).1, events := d.events ++ (d.link.readEvent postcard).2 }

end Frames

/-- Messages that are not for clients are logged only. -/
def handleResponse (d : Deployment S) : Deployment S × List (UInt64 × Event) :=
  match d.events with
  | [] => (d,[])
  | .clientEvent connId event _::rest =>
    ({ d with gateway := (d.gateway.handleEngineEvent connId event).1, events := rest },
      (d.gateway.handleEngineEvent connId event).2)
  | _::rest => ({ d with events := rest },[])

section Steps
variable [Slab S Order] (postcard : ServerPostcard) (crc32 : List UInt8 → UInt32) (args : EngineServer.Args)

/-- The events that are sent to clients are the outputs. -/
def step (d : Deployment S) : Action → Deployment S × List (UInt64 × Event)
  | .connect decodeCommand => ({ d with gateway := d.gateway.connect decodeCommand },[])
  | .disconnect connId => ({ d with gateway := d.gateway.disconnect connId },[])
  | .frame connId bytes up => d.frame postcard connId bytes up
  | .arrive => ({ d with link := d.link.arrive postcard args },[])
  | .server a => ({ d with link := d.link.serverStep postcard crc32 args a },[])
  | .readEvent => (d.readEvent postcard,[])
  | .handleResponse => d.handleResponse

def machine : Machine (Deployment S) Action (UInt64 × Event) := ⟨step postcard crc32 args⟩

end Steps

section Lossless
variable (postcard : ServerPostcard) (args : EngineServer.Args)

/-- The network fails the read loop or the write loop, or the next event is too long for a frame. -/
def breaks (c : EngineServer.Connection S) : EngineServer.Action → Bool
  | .hangUp => true
  | .fail => true
  | .feed => c.egress.head?.any fun out =>
    args.maxFrame < (postcard.toGateway.encode (.clientEvent out.connId out.ev none)).length
  | _ => false

/-- The network does not fail, the engine's queue has room for the commands that come, and no frame is too long for
its writer or its reader. -/
def Lossless (d : Deployment S) : Action → Prop
  | .frame connId bytes up => d.takesFrame postcard connId bytes up = true
  | .arrive => d.link.connection.ingress.length < args.ingressCap ∧
      ∀ bytes ∈ d.link.sent.head?, bytes.length ≤ args.maxFrame
  | .server a => breaks postcard args d.link.connection a = false
  | .readEvent => ∀ bytes ∈ d.link.connection.fed[d.link.read]?, bytes.length ≤ EngineRouter.maxFrameLength
  | _ => True

instance (d : Deployment S) (a : Action) : Decidable (Lossless postcard args d a) :=
  match a with
  | .frame .. => inferInstanceAs (Decidable (_ = _))
  | .arrive => inferInstanceAs (Decidable (_ ∧ _))
  | .server _ => inferInstanceAs (Decidable (_ = _))
  | .readEvent => inferInstanceAs (Decidable (∀ bytes ∈ _, _))
  | .connect _ => isTrue trivial
  | .disconnect _ => isTrue trivial
  | .handleResponse => isTrue trivial

end Lossless

end Deployment

namespace System
variable {S : Type} [Slab S Order]

/-- The events that a step sends to clients. -/
def outputs (sys : System S) : Action → List (UInt64 × Event)
  | .frame connId bytes up => (sys.frame connId bytes up).2
  | .deliver => sys.deliver.2
  | _ => []

def machine : Machine (System S) Action (UInt64 × Event) := ⟨fun sys a => (sys.step a,sys.outputs a)⟩

end System
end HighPerfTrading
