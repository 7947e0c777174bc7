import HighPerfTrading.Gateway.ClientHandler
import HighPerfTrading.Library.Simulation

/-! The tasks around the gateway's clients: each connection has a read loop and a write loop with a bounded channel
between them, and one task sends the engines' events into the channels of all connections. It holds the registry's
lock while it sends. The steps of the tasks come in any order. -/
namespace HighPerfTrading
namespace Gateway

def writeBufSize : ℕ := 1024

/-- Where the task of a connection is: before its entry in the registry, in the read loop, or before the entry is
taken out again. -/
inductive Stage
  | registering
  | reading
  | leaving
  deriving DecidableEq

/-- `queue` is the channel to the write loop, `fed` are the frames that have left it. -/
structure ClientConnection where
  encodeEvent : Event → List UInt8
  stage : Stage
  writing : Bool
  queue : List (List UInt8)
  fed : List (List UInt8)

namespace ClientConnection

def accept (encodeEvent : Event → List UInt8) : ClientConnection := ⟨encodeEvent,.registering,true,[],[]⟩

/-- A full channel makes the sender wait. An event for a write loop that has ended is lost. -/
def send (c : ClientConnection) (ev : Event) : Option ClientConnection :=
  if c.writing then
    if c.queue.length < writeBufSize then some { c with queue := c.queue ++ [c.encodeEvent ev] } else none
  else some c

def register (c : ClientConnection) : ClientConnection :=
  if c.stage = .registering then { c with stage := .reading } else c

def hangUp (c : ClientConnection) : ClientConnection :=
  if c.stage = .reading then { c with stage := .leaving } else c

def take (c : ClientConnection) : ClientConnection :=
  match c.queue with
  | [] => c
  | frame::rest => { c with queue := rest, fed := c.fed ++ [frame] }

def fail (c : ClientConnection) : ClientConnection := { c with writing := false, queue := [] }

end ClientConnection

/-- `sending` is what the task for the engines' events still has to send of the event in hand. It holds the lock of
the registry until it has no event in hand. -/
structure ClientConnections where
  connections : OrdMap UInt64 ClientConnection
  sending : Option (List (UInt64 × Event))

namespace ClientConnections

/-- Connections get fresh ids. -/
inductive Action
  | accept (connId : UInt64) (encodeEvent : Event → List UInt8)
  | register (connId : UInt64)
  | reply (connId : UInt64) (ev : Event)
  | hangUp (connId : UInt64)
  | leave (connId : UInt64)
  | take (connId : UInt64)
  | fail (connId : UInt64)
  | handle (connIds : List UInt64) (ev : Event)
  | deliver

def empty : ClientConnections := ⟨∅,none⟩

def update (s : ClientConnections) (connId : UInt64) (f : ClientConnection → ClientConnection) : ClientConnections :=
  match s.connections[connId]? with
  | none => s
  | some c => { s with connections := s.connections.insert connId (f c) }

/-- The connection that the registry has under an id. -/
def registered (s : ClientConnections) (connId : UInt64) : Option ClientConnection :=
  (s.connections[connId]?).filter fun c => c.stage ≠ .registering

def accept (s : ClientConnections) (connId : UInt64) (encodeEvent : Event → List UInt8) : ClientConnections :=
  if (s.connections[connId]?).isNone then
    { s with connections := s.connections.insert connId (.accept encodeEvent) }
  else s

/-- The write loop is aborted with the entry. -/
def leave (s : ClientConnections) (connId : UInt64) : ClientConnections :=
  match s.connections[connId]? with
  | some c => if c.stage = .leaving then { s with connections := s.connections.erase connId } else s
  | none => s

/-- The connection whose read loop can send an event on its own channel now, and what this makes of it. -/
def replying (s : ClientConnections) (connId : UInt64) (ev : Event) : Option ClientConnection :=
  ((s.connections[connId]?).filter fun c => c.stage = .reading).bind fun c => c.send ev

def reply (s : ClientConnections) (connId : UInt64) (ev : Event) : ClientConnections :=
  match s.replying connId ev with
  | none => s
  | some c => { s with connections := s.connections.insert connId c }

/-- An event for a connection that is not registered goes nowhere. -/
def deliver (s : ClientConnections) : ClientConnections :=
  match s.sending with
  | none => s
  | some [] => { s with sending := none }
  | some ((connId,ev)::rest) =>
    match s.registered connId with
    | none => { s with sending := some rest }
    | some c =>
      match c.send ev with
      | none => s
      | some c => ⟨s.connections.insert connId c,some rest⟩

def step (s : ClientConnections) : Action → ClientConnections
  | .accept connId encodeEvent => s.accept connId encodeEvent
  | .register connId => if s.sending.isNone then s.update connId .register else s
  | .reply connId ev => s.reply connId ev
  | .hangUp connId => s.update connId .hangUp
  | .leave connId => if s.sending.isNone then s.leave connId else s
  | .take connId => s.update connId .take
  | .fail connId => s.update connId .fail
  | .handle connIds ev => if s.sending.isNone then { s with sending := some (connIds.map fun c => (c,ev)) } else s
  | .deliver => s.deliver

/-- What a run has done so far: the events of engines that the sending task is done with, each with its connection,
how many these were when a connection was last registered, and what was sent on each connection, by the sending task
or by the read loop. -/
structure Ledger where
  handled : List (UInt64 × Event)
  since : UInt64 → ℕ
  owed : UInt64 → List (Bool × Event)

namespace Ledger

def empty : Ledger := ⟨[],fun _ => 0,fun _ => []⟩

def owe (l : Ledger) (connId : UInt64) (fromEngine : Bool) (ev : Event) : Ledger :=
  { l with owed := Function.update l.owed connId (l.owed connId ++ [(fromEngine,ev)]) }

def deliver (l : Ledger) (s : ClientConnections) : Ledger :=
  match s.sending with
  | some ((connId,ev)::_) =>
    let done := { l with handled := l.handled ++ [(connId,ev)] }
    match s.registered connId with
    | none => done
    | some c => if (c.send ev).isSome then done.owe connId true ev else l
  | _ => l

def step (l : Ledger) (s : ClientConnections) : Action → Ledger
  | .accept connId _ =>
    if (s.connections[connId]?).isNone then { l with owed := Function.update l.owed connId [] } else l
  | .register connId =>
    if s.sending.isNone ∧ (s.connections[connId]?).any (fun c => c.stage = .registering) then
      { l with since := Function.update l.since connId l.handled.length }
    else l
  | .reply connId ev => if (s.replying connId ev).isSome then l.owe connId false ev else l
  | .deliver => l.deliver s
  | _ => l

end Ledger

/-- The connections with their ledger. -/
def machine : Machine (ClientConnections × Ledger) Action Empty := .silent fun s a => (s.1.step a,s.2.step s.1 a)

def execute (s : ClientConnections × Ledger) (as : List Action) : ClientConnections × Ledger := machine.after s as

end ClientConnections
end Gateway
end HighPerfTrading
