import HighPerfTrading.EngineServer.GatewayConnection

/-! The router's connection to one engine server: it writes frames, and a reader task gets the messages out of the
frames that come back. -/
namespace HighPerfTrading

/-- `sent` are the frames of the gateway that the engine server has not yet read, and `read` counts those of the
engine server that the reader task has read while it runs. -/
structure EngineLink (S : Type) where
  sent : List (List UInt8)
  connection : EngineServer.Connection S
  read : ℕ
  reading : Bool

/-- The router's limit on frames, in both directions. -/
def EngineRouter.maxFrameLength : ℕ := 10*1024*1024

namespace EngineLink
variable {S : Type}

def connect (sv : Server S) : EngineLink S := ⟨[],.accept sv,0,true⟩

section Frames
variable (postcard : ServerPostcard)

/-- The router refuses a message whose frame is too long. -/
def takes (m : GatewayToEngine) : Bool := (postcard.toEngine.encode m).length ≤ EngineRouter.maxFrameLength

def send (k : EngineLink S) (m : GatewayToEngine) : EngineLink S :=
  { k with sent := k.sent ++ [postcard.toEngine.encode m] }

/-- The reader task skips what does not deserialize. -/
def readEvent (k : EngineLink S) : EngineLink S × List EngineToGateway :=
  match k.reading,k.connection.fed[k.read]? with
  | true,some bytes =>
    if EngineRouter.maxFrameLength < bytes.length then ({ k with reading := false },[])
    else ({ k with read := k.read+1 },(postcard.toGateway.decode bytes).toList)
  | _,_ => (k,[])

variable {postcard}

theorem readEvent_next {k : EngineLink S} {bytes : List UInt8} (hreading : k.reading = true)
    (hframe : k.connection.fed[k.read]? = some bytes) (hsmall : bytes.length ≤ EngineRouter.maxFrameLength) :
    k.readEvent postcard = ({ k with read := k.read+1 },(postcard.toGateway.decode bytes).toList) := by
  unfold readEvent
  split
  case h_1 bytes' _ hframe' =>
    obtain rfl := Option.some.inj (hframe.symm.trans hframe')
    exact if_neg (Nat.not_lt.mpr hsmall)
  case h_2 hnone => exact absurd hframe (hnone _ hreading)

theorem readEvent_none {k : EngineLink S} (hframe : k.connection.fed[k.read]? = none) :
    k.readEvent postcard = (k,[]) := by
  unfold readEvent
  rw [hframe]
  cases k.reading <;> rfl

end Frames

section Steps
variable [Slab S Order] (postcard : ServerPostcard) (crc32 : List UInt8 → UInt32) (args : EngineServer.Args)

/-- The next frame of the gateway reaches the read loop. -/
def arrive (k : EngineLink S) : EngineLink S :=
  match k.connection.reader,k.sent with
  | .next,bytes::rest => { k with sent := rest, connection := k.connection.readFrame postcard args bytes }
  | _,_ => k

/-- A step of one of the three tasks. Frames come from the gateway only. -/
def serverStep (k : EngineLink S) : EngineServer.Action → EngineLink S
  | .frame _ => k
  | a => { k with connection := k.connection.step postcard crc32 args a }

variable {postcard crc32 args}

theorem serverStep_eq {k : EngineLink S} {a : EngineServer.Action} (ha : ∀ bytes, a ≠ .frame bytes) :
    k.serverStep postcard crc32 args a = { k with connection := k.connection.step postcard crc32 args a } := by
  cases a with
  | frame bytes => exact absurd rfl (ha bytes)
  | _ => rfl

end Steps
end EngineLink
end HighPerfTrading
