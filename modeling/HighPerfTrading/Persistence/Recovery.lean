import HighPerfTrading.Engine.BookSnapshot
import HighPerfTrading.Engine.EngineSpec
import HighPerfTrading.Persistence.Journal
import HighPerfTrading.Persistence.Snapshot

/-! The engine process with its journal and snapshots: the loop that journals, processes,
snapshots and rotates, and the restart that loads the latest snapshot and replays. All
writes succeed. -/
namespace HighPerfTrading

/-- The two parts of a snapshot's data. -/
structure EngineSnapshot where
  book : List UInt8
  accounts : List UInt8

/-- The encodings the engine persists its state with. -/
structure Postcard where
  command : Codec Command
  orders : Codec (List Order)
  accounts : Codec AccountManager
  engineSnapshot : Codec EngineSnapshot

def EngineSnapshot.wire : Wire EngineSnapshot :=
  (Wire.byte.seq.pair Wire.byte.seq).via (fun s => (s.book,s.accounts)) (fun (b,a) => some ⟨b,a⟩) fun _ => rfl

def AccountManager.wire : Wire AccountManager :=
  ((Wire.u32.pair Position.wire).seq.pair ((Wire.u32.pair RiskLimits.wire).seq.pair RiskLimits.wire)).via
    (fun m => (m.positions.toList,m.riskLimits.toList,m.defaultLimits))
    (fun (p,r,d) => some ⟨.ofList p compare,.ofList r compare,d⟩) fun m => by
      simp only [OrdMap.ofList_toList]

/-- The wire format of the crate of that name. -/
def Postcard.standard : Postcard where
  command := Command.wire.codec
  orders := Order.wire.seq.codec
  accounts := AccountManager.wire.codec
  engineSnapshot := EngineSnapshot.wire.codec

inductive RestoreError
  | snapshot (e : SnapshotError)
  | journal (e : JournalError)
  | deserialize
  deriving DecidableEq

section Restore
variable {S : Type} [Slab S Order] (postcard : Postcard) (crc32 : List UInt8 → UInt32)

namespace Engine

def snapshotData (e : Engine S) : List UInt8 :=
  postcard.engineSnapshot.encode
    ⟨e.book.serializeSnapshot postcard.orders,postcard.accounts.encode e.accountManager⟩

/-- Put a snapshot's state in place. A failure leaves what was done before it. -/
def loadSnapshot (e : Engine S) (s : Snapshot) : Engine S × Except RestoreError Unit :=
  match postcard.engineSnapshot.decode s.data with
  | none => (e,.error .deserialize)
  | some combined =>
    match e.book.restoreFromSnapshot postcard.orders combined.book with
    | none => (e,.error .deserialize)
    | some book =>
      match postcard.accounts.decode combined.accounts with
      | none => ({ e with book := book },.error .deserialize)
      | some accounts =>
        ({ e with
            book := book
            accountManager := accounts
            commandSeq := s.sequence
            serverSeq := s.sequence+1 },.ok ())

/-- Replay what the journal holds past the first `command_seq` commands. The result is the
list of commands replayed. -/
def replayJournal (e : Engine S) (file : List UInt8) : Engine S × Except RestoreError (List Command) :=
  match readAll postcard.command crc32 file with
  | .error err => (e,.error (.journal err))
  | .ok all =>
    let replayStart := e.commandSeq.toNat
    let cmds := if replayStart < all.length then all.drop replayStart else []
    (e.replay cmds,.ok cmds)

/-- Start from the latest snapshot, when there is one. -/
def loadLatest (e : Engine S) (dir : SnapshotDir) : Engine S × Except RestoreError Unit :=
  match Snapshot.loadLatest crc32 dir with
  | .error err => (e,.error (.snapshot err))
  | .ok none => (e,.ok ())
  | .ok (some s) => e.loadSnapshot postcard s

def restoreFromPersistence (e : Engine S) (dir : SnapshotDir) (file : List UInt8) :
    Engine S × Except RestoreError (List Command) :=
  match e.loadLatest postcard crc32 dir with
  | (e',.error err) => (e',.error err)
  | (e',.ok _) => e'.replayJournal postcard crc32 file

end Engine

/-- One engine process and what it keeps on disk. Backups are the rotated journals by
timestamp. -/
structure Server (S : Type) where
  engine : Engine S
  journal : Journal
  snapshots : SnapshotDir
  backups : OrdMap UInt64 (List UInt8)
  snapshotInterval : UInt64

namespace Server

/-- A new process over what is on disk. It runs even when the restore has failed. -/
def start (config : JournalConfig) (interval : UInt64) (file : List UInt8) (dir : SnapshotDir)
    (backups : OrdMap UInt64 (List UInt8)) : Server S :=
  ⟨((Engine.new : Engine S).restoreFromPersistence postcard crc32 dir file).1,
    Journal.openWithConfig file config,dir,backups,interval⟩

/-- A crash loses the engine's memory and the batch buffer. -/
def restart (sv : Server S) (config : JournalConfig) (interval : UInt64) : Server S :=
  start postcard crc32 config interval sv.journal.file sv.snapshots sv.backups

def journaled (sv : Server S) (cmd : Command) (elapsed : Bool) : Server S :=
  { sv with journal := sv.journal.append postcard.command crc32 cmd elapsed }

def processed (sv : Server S) (cmd : Command) : Server S := { sv with engine := sv.engine.live cmd }

def takeSnapshot (sv : Server S) : Server S :=
  let saved := Snapshot.save crc32 sv.snapshots ⟨sv.engine.commandSeq,sv.engine.snapshotData postcard⟩
  { sv with snapshots := Snapshot.cleanupOld saved 3 }

def snapshotDue (sv : Server S) : Bool :=
  decide (0 < sv.snapshotInterval) && decide (sv.engine.commandSeq%sv.snapshotInterval = 0)

def snapshotIfDue (sv : Server S) : Server S :=
  if sv.snapshotDue then sv.takeSnapshot postcard crc32 else sv

def rotateIfDue (sv : Server S) (timestamp : UInt64) : Server S :=
  if sv.journal.shouldRotate then
    { sv with
      journal := (sv.journal.rotate postcard.command crc32).1
      backups := sv.backups.insert timestamp (sv.journal.rotate postcard.command crc32).2 }
  else sv

/-- One pass of the engine loop. -/
def step (sv : Server S) (cmd : Command) (elapsed : Bool) (timestamp : UInt64) : Server S :=
  (((sv.journaled postcard crc32 cmd elapsed).processed cmd).snapshotIfDue postcard crc32).rotateIfDue
    postcard crc32 timestamp

/-- The loop ends with a last flush. -/
def shutdown (sv : Server S) : Server S := { sv with journal := sv.journal.flush postcard.command crc32 }

/-- The position in the journal from which a restart would replay. -/
def replayStart (sv : Server S) : ℕ :=
  match Snapshot.loadLatest crc32 sv.snapshots with
  | .ok (some s) => s.sequence.toNat
  | _ => 0

end Server
end Restore

/-! ### Command counts -/

namespace Engine
variable {S : Type} [Slab S Order]

theorem handleNew_commandSeq (e : Engine S) (no : NewOrder) :
    (e.handleNew no).1.commandSeq = e.commandSeq := by
  rw [handleNew_eq]
  cases h : e.refusal no with
  | some reason => rfl
  | none => exact (accepted_spec h).2.2.1

theorem process_commandSeq (e : Engine S) (cmd : Command) : (e.process cmd).1.commandSeq = e.commandSeq := by
  cases cmd with
  | newOrder no => exact e.handleNew_commandSeq no
  | setRiskLimits srl => rfl
  | queryAccount qa => rfl
  | authenticate a => rfl
  | cancel c =>
    rcases e.handleCancel_cases c with ⟨o,-,-,-,hc⟩ | ⟨reason,hc⟩
    · rw [process,hc,topThenAck_commandSeq]
    · rw [process,hc,rejected_commandSeq]
  | replace r =>
    rcases e.handleReplace_cases r with ⟨o,-,-,-,-,hc⟩ | ⟨-,reason,hc⟩
    · rw [process,hc,handleNew_commandSeq]
    · rw [process,hc,rejected_commandSeq]

theorem replayCommand_commandSeq (e : Engine S) (cmd : Command) :
    (e.replayCommand cmd).commandSeq = e.commandSeq+1 := by
  cases cmd with
  | newOrder no => exact congrArg (· + 1) (e.handleNew_commandSeq no)
  | replace r => exact congrArg (· + 1) (e.process_commandSeq (.replace r))
  | cancel c => rfl
  | setRiskLimits srl => rfl
  | queryAccount qa => rfl
  | authenticate a => rfl

theorem replay_commandSeq (e : Engine S) (cmds : List Command) :
    (e.replay cmds).commandSeq = e.commandSeq+UInt64.ofNat cmds.length := by
  induction cmds generalizing e with
  | nil => simp [replay]
  | cons cmd cmds ih =>
    have h := ih (e.replayCommand cmd)
    rw [replayCommand_commandSeq] at h
    change ((e.replayCommand cmd).replay cmds).commandSeq = _
    rw [h,List.length_cons,UInt64.ofNat_add]
    grind

end Engine
end HighPerfTrading
