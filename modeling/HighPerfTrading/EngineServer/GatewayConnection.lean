import HighPerfTrading.Common.GatewayProtocol
import HighPerfTrading.Library.Simulation
import HighPerfTrading.Persistence.Recovery

/-! The engine server around its one gateway connection: the task that reads commands, the engine thread, and the
task that writes events, with the channels between them. Every action of one of the three is a step, and the steps
of the three come in any order. -/
namespace HighPerfTrading

/-- The encodings that an engine server uses: those of its files, and those of its messages with the gateway. -/
structure ServerPostcard extends Postcard where
  toEngine : Codec GatewayToEngine
  toGateway : Codec EngineToGateway

instance : Coe ServerPostcard Postcard := ⟨ServerPostcard.toPostcard⟩

def ServerPostcard.standard : ServerPostcard where
  toPostcard := .standard
  toEngine := GatewayToEngine.wire.codec
  toGateway := EngineToGateway.wire.codec

namespace EngineServer

structure Inbound where
  connId : UInt64
  cmd : Command
  deriving DecidableEq

structure Outbound where
  connId : UInt64
  ev : Event
  deriving DecidableEq

/-- The ingress queue has room for at least one command. -/
structure Args where
  maxFrame : ℕ
  ingressCap : ℕ
  ingressCap_pos : 0 < ingressCap

structure Metrics where
  framesIn : UInt64
  framesOut : UInt64
  engineInQueueDepth : Int64

namespace Metrics

def incFramesIn (m : Metrics) : Metrics := { m with framesIn := m.framesIn+1 }

def incFramesOut (m : Metrics) : Metrics := { m with framesOut := m.framesOut+1 }

def queueInc (m : Metrics) : Metrics := { m with engineInQueueDepth := m.engineInQueueDepth+1 }

def queueDec (m : Metrics) : Metrics := { m with engineInQueueDepth := m.engineInQueueDepth-1 }

end Metrics

/-- Where the read loop is: before the next frame, between a command's send and its count, or waiting for the
engine's answer to a query, which may have come. -/
inductive Reader
  | next
  | counting
  | asked
  | answered (orders : List OrderSnapshot)
  | returned
  deriving DecidableEq

/-- Where the engine thread is: in its select, with a command that it has received, or sending events. -/
inductive EngineThread
  | selecting
  | received (inb : Inbound)
  | sending (connId : UInt64) (events : List Event)
  | returned
  deriving DecidableEq

/-- Where the write loop is: in its select, or taking events off the channel. -/
inductive Writer
  | selecting
  | draining
  | returned
  deriving DecidableEq

/-- `fed` are the frames that the connection has taken for the gateway, of which `flushed` have been sent for sure. -/
structure Connection (S : Type) where
  server : Server S
  reader : Reader
  thread : EngineThread
  writer : Writer
  ingress : List Inbound
  egress : List Outbound
  responses : List EngineToGateway
  fed : List (List UInt8)
  flushed : ℕ
  metrics : Metrics

inductive Action
  | frame (bytes : List UInt8)
  | count
  | resume
  | hangUp
  | receive
  | process (elapsed : Bool)
  | send
  | finish (timestamp : UInt64)
  | answer
  | close
  | tick
  | feed
  | flush
  | respond
  | abort
  | fail

namespace Connection
variable {S : Type}

/-- The gateway has connected to a server that has recovered. -/
def accept (sv : Server S) : Connection S :=
  ⟨sv,.next,.selecting,.selecting,[],[],[],[],0,⟨0,0,0⟩⟩

/-! ### The read loop -/

/-- A full queue drops the command, and so does a channel without a receiver. -/
def trySend (args : Args) (c : Connection S) (inb : Inbound) : Connection S :=
  if c.thread ≠ .returned ∧ c.ingress.length < args.ingressCap then
    { c with ingress := c.ingress ++ [inb], reader := .counting }
  else c

def query (c : Connection S) : Connection S :=
  if c.thread ≠ .returned then { c with reader := .asked } else c

/-- A frame that does not deserialize is passed over, one that is too long ends the loop. -/
def readFrame (postcard : ServerPostcard) (args : Args) (c : Connection S) (bytes : List UInt8) : Connection S :=
  if c.reader ≠ .next then c
  else if args.maxFrame < bytes.length then { c with reader := .returned }
  else
    let c := { c with metrics := c.metrics.incFramesIn }
    match postcard.toEngine.decode bytes with
    | none => c
    | some (.execute exec) => c.trySend args ⟨exec.connId,exec.command⟩
    | some .ping => c
    | some .queryAllOrders => c.query

def count (c : Connection S) : Connection S :=
  if c.reader = .counting then { c with metrics := c.metrics.queueInc, reader := .next } else c

/-- The answer goes to the write loop. There is none if the engine thread has ended. -/
def resume (c : Connection S) : Connection S :=
  match c.reader with
  | .answered orders =>
    if c.writer ≠ .returned then { c with responses := c.responses ++ [.allOrders orders], reader := .next }
    else { c with reader := .returned }
  | .asked => if c.thread = .returned then { c with reader := .next } else c
  | _ => c

/-- The gateway has closed the connection, or it broke. -/
def hangUp (c : Connection S) : Connection S := if c.reader = .next then { c with reader := .returned } else c

/-! ### The engine thread -/

def receive (c : Connection S) : Connection S :=
  match c.thread,c.ingress with
  | .selecting,inb::rest => { c with thread := .received inb, ingress := rest }
  | _,_ => c

/-- An event sent to a channel without a receiver ends the thread. -/
def send (c : Connection S) : Connection S :=
  match c.thread with
  | .sending connId (ev::evs) =>
    if c.writer ≠ .returned then { c with thread := .sending connId evs, egress := c.egress ++ [⟨connId,ev⟩] }
    else { c with thread := .returned }
  | _ => c

section Journal
variable [Slab S Order] (postcard : ServerPostcard) (crc32 : List UInt8 → UInt32)

/-- The command is journaled and carried out. -/
def process (c : Connection S) (elapsed : Bool) : Connection S :=
  match c.thread with
  | .received inb =>
    { c with
      metrics := c.metrics.queueDec
      server := (c.server.journaled postcard crc32 inb.cmd elapsed).processed inb.cmd
      thread := .sending inb.connId (c.server.engine.process inb.cmd).2 }
  | _ => c

/-- When all events are sent, a snapshot is taken and the journal rotated if they are due. -/
def finish (c : Connection S) (timestamp : UInt64) : Connection S :=
  match c.thread with
  | .sending _ [] =>
    { c with
      server := (c.server.snapshotIfDue postcard crc32).rotateIfDue postcard crc32 timestamp
      thread := .selecting }
  | _ => c

/-- The read loop has dropped its end of the channel. -/
def close (c : Connection S) : Connection S :=
  if c.thread = .selecting ∧ c.ingress = [] ∧ c.reader = .returned then
    { c with server := c.server.shutdown postcard crc32, thread := .returned }
  else c

end Journal

def answer (c : Connection S) [Slab S Order] : Connection S :=
  if c.thread = .selecting ∧ c.reader = .asked then
    { c with reader := .answered c.server.engine.book.getAllOrderSnapshots }
  else c

/-! ### The write loop -/

/-- What the channels hold is lost with their receivers. -/
def writerReturns (c : Connection S) : Connection S := { c with writer := .returned, egress := [], responses := [] }

/-- The connection takes a frame unless it is too long. -/
def put (postcard : ServerPostcard) (args : Args) (c : Connection S) (m : EngineToGateway) : Connection S :=
  if (postcard.toGateway.encode m).length ≤ args.maxFrame then
    { c with fed := c.fed ++ [postcard.toGateway.encode m], metrics := c.metrics.incFramesOut }
  else c.writerReturns

def tick (c : Connection S) : Connection S := if c.writer = .selecting then { c with writer := .draining } else c

def feed (postcard : ServerPostcard) (args : Args) (c : Connection S) : Connection S :=
  match c.writer,c.egress with
  | .draining,out::rest => { c with egress := rest }.put postcard args (.clientEvent out.connId out.ev none)
  | _,_ => c

def flush (c : Connection S) : Connection S :=
  if c.writer = .draining ∧ c.egress = [] then { c with flushed := c.fed.length, writer := .selecting } else c

/-- An answer is flushed at once. -/
def respond (postcard : ServerPostcard) (args : Args) (c : Connection S) : Connection S :=
  match c.writer,c.responses with
  | .selecting,m::rest =>
    let c := { c with responses := rest }.put postcard args m
    if c.writer = .returned then c else { c with flushed := c.fed.length }
  | _,_ => c

/-- The write loop is aborted after the read loop. -/
def abort (c : Connection S) : Connection S := if c.reader = .returned then c.writerReturns else c

def step [Slab S Order] (postcard : ServerPostcard) (crc32 : List UInt8 → UInt32) (args : Args) (c : Connection S) :
    Action → Connection S
  | .frame bytes => c.readFrame postcard args bytes
  | .count => c.count
  | .resume => c.resume
  | .hangUp => c.hangUp
  | .receive => c.receive
  | .process elapsed => c.process postcard crc32 elapsed
  | .send => c.send
  | .finish timestamp => c.finish postcard crc32 timestamp
  | .answer => c.answer
  | .close => c.close postcard crc32
  | .tick => c.tick
  | .feed => c.feed postcard args
  | .flush => c.flush
  | .respond => c.respond postcard args
  | .abort => c.abort
  | .fail => c.writerReturns

end Connection

/-- What a query was answered with: how many commands the engine had processed and how many the queue had taken when
it was read, and how many had been processed when it was answered. -/
structure Reply where
  processed : ℕ
  accepted : ℕ
  shown : ℕ
  deriving DecidableEq

/-- What a run has done so far: the commands that were read, those that the queue took and those that the engine has
processed, the counts when the last query was read, and the answers. -/
structure Ledger where
  frames : ℕ
  offered : List Inbound
  accepted : List Inbound
  processed : List Inbound
  asked : ℕ × ℕ
  replies : List Reply

namespace Ledger
variable {S : Type}

def empty : Ledger := ⟨0,[],[],[],(0,0),[]⟩

def readFrame (postcard : ServerPostcard) (args : Args) (l : Ledger) (c : Connection S) (bytes : List UInt8) : Ledger :=
  if c.reader = .next ∧ bytes.length ≤ args.maxFrame then
    let l := { l with frames := l.frames+1 }
    match postcard.toEngine.decode bytes with
    | some (.execute exec) =>
      { l with
        offered := l.offered ++ [⟨exec.connId,exec.command⟩]
        accepted := if c.thread ≠ .returned ∧ c.ingress.length < args.ingressCap
          then l.accepted ++ [⟨exec.connId,exec.command⟩] else l.accepted }
    | some .queryAllOrders => { l with asked := (l.processed.length,l.accepted.length) }
    | _ => l
  else l

def process (l : Ledger) (c : Connection S) : Ledger :=
  match c.thread with
  | .received inb => { l with processed := l.processed ++ [inb] }
  | _ => l

def answer (l : Ledger) (c : Connection S) : Ledger :=
  if c.thread = .selecting ∧ c.reader = .asked then
    { l with replies := l.replies ++ [⟨l.asked.1,l.asked.2,l.processed.length⟩] }
  else l

def step (postcard : ServerPostcard) (args : Args) (l : Ledger) (c : Connection S) : Action → Ledger
  | .frame bytes => l.readFrame postcard args c bytes
  | .process _ => l.process c
  | .answer => l.answer c
  | _ => l

end Ledger

/-- The connection with its ledger. -/
def machine {S : Type} [Slab S Order] (postcard : ServerPostcard) (crc32 : List UInt8 → UInt32) (args : Args) :
    Machine (Connection S × Ledger) Action Empty :=
  .silent fun s a => (s.1.step postcard crc32 args a,s.2.step postcard args s.1 a)

/-- The connection and its ledger after a sequence of actions. -/
def execute {S : Type} [Slab S Order] (postcard : ServerPostcard) (crc32 : List UInt8 → UInt32) (args : Args)
    (s : Connection S × Ledger) (as : List Action) : Connection S × Ledger :=
  (machine postcard crc32 args).after s as

/-- A server that has found no files. -/
def freshServer : Server (FreeListSlab Order) := Server.start Postcard.standard Crc32.hash ⟨2,0⟩ 2 [] ∅ ∅

end EngineServer
end HighPerfTrading
