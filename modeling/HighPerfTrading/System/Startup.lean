import HighPerfTrading.System.EngineLink
import HighPerfTrading.System.Exchange

/-! The startup of the gateway server: it asks every engine server for its orders and rebuilds the reservations from
the answers. The reader tasks of all links put what they read into one channel. -/
namespace HighPerfTrading
open Gateway

/-- How far the question has come: which engines are still to be asked, how many messages have come and the orders
in them, or how it ended. -/
inductive Query
  | asking (left : List SymbolId)
  | collecting (received : ℕ) (orders : List OrderSnapshot)
  | done (orders : List OrderSnapshot)
  | failed
  deriving DecidableEq

structure Startup (S : Type) where
  symbolIds : List SymbolId
  links : OrdMap SymbolId (EngineLink S)
  channel : List EngineToGateway
  query : Query

namespace Startup
variable {S : Type}

inductive Action
  | ask
  | collect
  | fail
  | arrive (s : SymbolId)
  | server (s : SymbolId) (a : EngineServer.Action)
  | readEvent (s : SymbolId)

/-- All links are up. `symbolIds` are their symbols in the order in which the router happens to list them. -/
def start (servers : OrdMap SymbolId (Server S)) (symbolIds : List SymbolId) : Startup S :=
  ⟨symbolIds,servers.map fun _ sv => .connect sv,[],.asking symbolIds⟩

def ask (postcard : ServerPostcard) (x : Startup S) : Startup S :=
  match x.query with
  | .asking [] => { x with query := .collecting 0 [] }
  | .asking (s::left) =>
    match x.links[s]? with
    | none => { x with query := .failed }
    | some k =>
      if EngineLink.takes postcard .queryAllOrders then
        { x with links := x.links.insert s (k.send postcard .queryAllOrders), query := .asking left }
      else { x with query := .failed }
  | _ => x

/-- Every message counts, also one that is no answer. -/
def collect (x : Startup S) : Startup S :=
  match x.query with
  | .collecting received orders =>
    if received = x.symbolIds.length then { x with query := .done orders }
    else
      match x.channel with
      | [] => x
      | .allOrders more::rest => { x with channel := rest, query := .collecting (received+1) (orders ++ more) }
      | _::rest => { x with channel := rest, query := .collecting (received+1) orders }
  | _ => x

/-- A query could not be sent, or no message came in time. -/
def fail (x : Startup S) : Startup S :=
  match x.query with
  | .done _ => x
  | _ => { x with query := .failed }

def update (x : Startup S) (s : SymbolId) (f : EngineLink S → EngineLink S) : Startup S :=
  match x.links[s]? with
  | none => x
  | some k => { x with links := x.links.insert s (f k) }

def readEvent (postcard : ServerPostcard) (x : Startup S) (s : SymbolId) : Startup S :=
  match x.links[s]? with
  | none => x
  | some k => { x with
      links := x.links.insert s (k.readEvent postcard).1
      channel := x.channel ++ (k.readEvent postcard).2 }

section Steps
variable [Slab S Order] (postcard : ServerPostcard) (crc32 : List UInt8 → UInt32) (args : SymbolId → EngineServer.Args)

def step (x : Startup S) : Action → Startup S
  | .ask => x.ask postcard
  | .collect => x.collect
  | .fail => x.fail
  | .arrive s => x.update s fun k => k.arrive postcard (args s)
  | .server s a => x.update s fun k => k.serverStep postcard crc32 (args s) a
  | .readEvent s => x.readEvent postcard s

def machine : Machine (Startup S) Action Empty := .silent (step postcard crc32 args)

def execute (x : Startup S) (as : List Action) : Startup S := (machine postcard crc32 args).after x as

end Steps
end Startup
end HighPerfTrading
