import HighPerfTrading.Gateway.AccountRecovery
import HighPerfTrading.Persistence.Snapshot

/-! The gateway's periodic snapshots. Every minute the task counts up, and from the interval on it saves all
accounts under the number it has counted to; a save that succeeds starts the count again. -/
namespace HighPerfTrading
namespace Gateway

inductive AccountSnapshotError
  | file (e : SnapshotError)
  | deserialize
  deriving DecidableEq

namespace AccountStateSnapshot

def wire : Wire AccountStateSnapshot :=
  (Wire.u32.pair (Wire.i64.pair ((Wire.u32.pair Position.wire).seq.pair (Wire.u32.pair RiskLimits.wire).seq))).via
    (fun s => (s.accountId,s.buyingPower,s.positions,s.riskLimits)) (fun (a,b,p,r) => some ⟨a,b,p,r⟩) fun _ => rfl

end AccountStateSnapshot

namespace AccountSnapshot

def wire : Wire AccountSnapshot :=
  (Wire.u64.pair AccountStateSnapshot.wire.seq).via (fun s => (s.sequence,s.accounts)) (fun (n,a) => some ⟨n,a⟩)
    fun _ => rfl

variable (postcard : Codec AccountSnapshot) (crc32 : List UInt8 → UInt32)

def fileName (sequence : UInt64) : String :=
  String.ofList ("account_snapshot_".toList ++ Decimal.padded 12 sequence.toNat ++ ".bin".toList)

/-- `[u64 sequence][u32 len][data][u32 crc32]`. -/
def fileBytes (s : AccountSnapshot) : List UInt8 := Snapshot.fileBytes crc32 ⟨s.sequence,postcard.encode s⟩

def save (dir : SnapshotDir) (s : AccountSnapshot) : SnapshotDir :=
  dir.insert (fileName s.sequence) (s.fileBytes postcard crc32)

/-- A save that fails before it creates the file, or with the first `k` bytes written. -/
def saveFailed (dir : SnapshotDir) (s : AccountSnapshot) : Option ℕ → SnapshotDir
  | none => dir
  | some k => dir.insert (fileName s.sequence) ((s.fileBytes postcard crc32).take k)

def loadFromFile (bs : List UInt8) : Except AccountSnapshotError AccountSnapshot :=
  match Snapshot.loadFromFile crc32 bs with
  | .error e => .error (.file e)
  | .ok s =>
    match postcard.decode s.data with
    | none => .error .deserialize
    | some snapshot => .ok snapshot

def loadLatest (dir : SnapshotDir) : Except AccountSnapshotError (Option AccountSnapshot) :=
  match dir.last? with
  | none => .ok none
  | some (_,bs) => (loadFromFile postcard crc32 bs).map some

def cleanupOld (dir : SnapshotDir) (keep : ℕ) : SnapshotDir := Snapshot.cleanupOld dir keep

end AccountSnapshot

/-! ### The task -/

structure SnapshotTask where
  dir : SnapshotDir
  snapshotInterval : UInt64
  updatesSinceSnapshot : UInt64

inductive SaveOutcome
  | saved
  | failed (written : Option ℕ)

namespace SnapshotTask
variable (postcard : Codec AccountSnapshot) (crc32 : List UInt8 → UInt32)

/-- The task starts with its count at zero, whatever the directory holds. -/
def start (dir : SnapshotDir) (snapshotInterval : UInt64) : SnapshotTask := ⟨dir,snapshotInterval,0⟩

def sequence (t : SnapshotTask) : UInt64 := t.updatesSinceSnapshot+1

/-- Is a snapshot due at the next tick? -/
def Due (t : SnapshotTask) : Prop := t.snapshotInterval/60 ≤ t.sequence

instance (t : SnapshotTask) : Decidable t.Due := inferInstanceAs (Decidable (_ ≤ _))

/-- One tick, with the accounts as they are then. -/
def tick (t : SnapshotTask) (m : AccountManager) (outcome : SaveOutcome) : SnapshotTask :=
  if t.Due then
    let snapshot := m.createSnapshot t.sequence
    match outcome with
    | .saved =>
      { t with dir := AccountSnapshot.cleanupOld (snapshot.save postcard crc32 t.dir) 3, updatesSinceSnapshot := 0 }
    | .failed written =>
      { t with dir := snapshot.saveFailed postcard crc32 t.dir written, updatesSinceSnapshot := t.sequence }
  else { t with updatesSinceSnapshot := t.sequence }

/-- The most recent snapshot saved, after a tick. -/
def lastSaved (t : SnapshotTask) (last : Option AccountSnapshot) (m : AccountManager) :
    SaveOutcome → Option AccountSnapshot
  | .saved => if t.Due then some (m.createSnapshot t.sequence) else last
  | .failed _ => last

/-- No file of another name sorts after the snapshot's, whose data has a length that fits the header. -/
def NamedLast (t : SnapshotTask) (m : AccountManager) : Prop :=
  (∀ (name : String) bs, t.dir[name]? = some bs → name ≠ AccountSnapshot.fileName t.sequence →
      compare name (AccountSnapshot.fileName t.sequence) = .lt) ∧
    (postcard.encode (m.createSnapshot t.sequence)).length < 2^32

/-- Some file sorts after the snapshot's. -/
def Covered (t : SnapshotTask) : Prop :=
  ∃ (name : String) (bs : List UInt8), t.dir[name]? = some bs ∧ compare (AccountSnapshot.fileName t.sequence) name = .lt

/-- A save that succeeds is named last; one that fails once there is a snapshot leaves no file or one that is
covered. -/
def Sound (t : SnapshotTask) (last : Option AccountSnapshot) (m : AccountManager) : SaveOutcome → Prop
  | .saved => t.Due → t.NamedLast postcard m
  | .failed none => True
  | .failed (some _) => t.Due → last ≠ none → t.Covered

/-- Runs of the task over any restarts, each with its own interval, and with any accounts at each tick. The ticks
are all sound. -/
inductive Run : SnapshotTask → Option AccountSnapshot → Prop
  | start (snapshotInterval : UInt64) : Run (start ∅ snapshotInterval) none
  | tick {t last} (run : Run t last) (m : AccountManager) (outcome : SaveOutcome)
      (sound : t.Sound postcard last m outcome) : Run (t.tick postcard crc32 m outcome) (t.lastSaved last m outcome)
  | restart {t last} (run : Run t last) (snapshotInterval : UInt64) : Run (SnapshotTask.start t.dir snapshotInterval) last

variable {postcard crc32} {t : SnapshotTask} {last : Option AccountSnapshot} {s : AccountSnapshot}

theorem loadLatest_eq {dir : SnapshotDir} {name : String} (hlast : dir.last? = some (name,s.fileBytes postcard crc32))
    (hfits : (postcard.encode s).length < 2^32) : AccountSnapshot.loadLatest postcard crc32 dir = .ok (some s) := by
  have hfile : AccountSnapshot.loadFromFile postcard crc32 (s.fileBytes postcard crc32) = .ok s := by
    rw [AccountSnapshot.loadFromFile,AccountSnapshot.fileBytes,Snapshot.loadFromFile_fileBytes _ hfits]
    simp only [Codec.decode_encode]
  rw [AccountSnapshot.loadLatest,hlast]
  simp only [hfile]
  rfl

/-- The last file is that of the most recent snapshot saved. -/
def Shows (postcard : Codec AccountSnapshot) (crc32 : List UInt8 → UInt32) (dir : SnapshotDir) (s : AccountSnapshot) :
    Prop :=
  dir.last? = some (AccountSnapshot.fileName s.sequence,s.fileBytes postcard crc32) ∧
    (postcard.encode s).length < 2^32

theorem shows_save {m : AccountManager} (hlast : t.NamedLast postcard m) :
    Shows postcard crc32 (AccountSnapshot.cleanupOld ((m.createSnapshot t.sequence).save postcard crc32 t.dir) 3)
      (m.createSnapshot t.sequence) := by
  refine ⟨?_,hlast.2⟩
  rw [AccountSnapshot.cleanupOld,Snapshot.last?_cleanupOld _ (by decide)]
  exact OrdMap.last?_insert_max _ hlast.1

theorem Shows.tick {m : AccountManager} {outcome : SaveOutcome} (h : ∀ s, last = some s → Shows postcard crc32 t.dir s)
    (hsound : t.Sound postcard last m outcome) :
    ∀ s, t.lastSaved last m outcome = some s → Shows postcard crc32 (t.tick postcard crc32 m outcome).dir s := by
  intro s hs
  unfold SnapshotTask.tick
  by_cases hdue : t.Due
  · rw [if_pos hdue]
    cases outcome with
    | saved =>
      rw [lastSaved,if_pos hdue] at hs
      obtain rfl := Option.some.inj hs
      exact shows_save (hsound hdue)
    | failed written =>
      have hold := h s hs
      cases written with
      | none => exact hold
      | some k =>
        -- the file that is left sorts before the last one
        obtain ⟨name,bs,hget,hlt⟩ := hsound hdue (by rw [show last = some s from hs]; exact Option.some_ne_none s)
        exact ⟨(OrdMap.last?_insert_below _ hget hlt).trans hold.1,hold.2⟩
  · rw [if_neg hdue]
    cases outcome with
    | saved =>
      rw [lastSaved,if_neg hdue] at hs
      exact h s hs
    | failed written => exact h s hs

theorem Run.shows (run : Run postcard crc32 t last) : ∀ s, last = some s → Shows postcard crc32 t.dir s := by
  induction run with
  | start snapshotInterval => exact fun s hs => by cases hs
  | tick run m outcome sound ih => exact Shows.tick ih sound
  | restart run snapshotInterval ih => exact ih

/-- When every save that succeeds is named last and no file of a failed one comes after it, the snapshot loaded is
the most recent one saved. -/
theorem Run.loads_last_saved (run : Run postcard crc32 t last) (hlast : last = some s) :
    AccountSnapshot.loadLatest postcard crc32 t.dir = .ok (some s) :=
  loadLatest_eq (run.shows s hlast).1 (run.shows s hlast).2

/-- The accounts of a gateway with one account. -/
def oneAccount (buyingPower : Int64) : AccountManager := AccountManager.new.createAccount 1 buyingPower

/-- Two saves without a failure have one name. -/
theorem saved_under_one_name : AccountSnapshot.loadLatest AccountSnapshot.wire.codec Crc32.hash
    (((start ∅ 60).tick AccountSnapshot.wire.codec Crc32.hash (oneAccount 100) .saved).tick
      AccountSnapshot.wire.codec Crc32.hash (oneAccount 50) .saved).dir =
    .ok (some ((oneAccount 50).createSnapshot 1)) := by
  refine Run.loads_last_saved (.tick (.tick (.start 60) (oneAccount 100) .saved ?_) (oneAccount 50) .saved ?_) rfl
  · exact fun _ => ⟨by simp [start],by decide +kernel⟩
  · refine fun _ => ⟨fun name bs hget hne => absurd ?_ hne,by decide +kernel⟩
    have hnames : ((start ∅ 60).tick AccountSnapshot.wire.codec Crc32.hash (oneAccount 100) .saved).dir.toList.map
        Prod.fst = [AccountSnapshot.fileName 1] := by decide +kernel
    have hname := List.mem_map_of_mem (f := Prod.fst) (OrdMap.mem_toList.mpr hget)
    rw [hnames] at hname
    exact List.mem_singleton.mp hname

/-- A save that fails makes the next one's number larger than those after it: the snapshot saved last is hidden by
the one before. -/
theorem failed_once_hides :
    (AccountSnapshot.loadLatest AccountSnapshot.wire.codec Crc32.hash
      ((((start ∅ 60).tick AccountSnapshot.wire.codec Crc32.hash (oneAccount 100) (.failed none)).tick
        AccountSnapshot.wire.codec Crc32.hash (oneAccount 100) .saved).tick AccountSnapshot.wire.codec Crc32.hash
        (oneAccount 50) .saved).dir).map (·.map fun s => s.accounts.map AccountStateSnapshot.buyingPower) =
      .ok (some [100]) ∧
    ((oneAccount 50).createSnapshot 1).accounts.map AccountStateSnapshot.buyingPower = [50] := by
  decide +kernel

end SnapshotTask
end Gateway
end HighPerfTrading
