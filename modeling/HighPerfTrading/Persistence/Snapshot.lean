import HighPerfTrading.Library.Codec
import HighPerfTrading.Library.Decimal
import HighPerfTrading.Library.OrderedMap

/-! Snapshot files. The directory lists the files whose names start with `snapshot_` and end
in `.bin`, in the order of their names; the last of them counts as the latest. -/
namespace HighPerfTrading

structure Snapshot where
  sequence : UInt64
  data : List UInt8
  deriving DecidableEq

inductive SnapshotError
  | unexpectedEof
  | checksumMismatch
  deriving DecidableEq, Repr

abbrev SnapshotDir := OrdMap String (List UInt8)

namespace Snapshot

/-- With at least twelve digits. -/
def fileName (sequence : UInt64) : String :=
  String.ofList ("snapshot_".toList ++ Decimal.padded 12 sequence.toNat ++ ".bin".toList)

/-- `[u64 sequence][u32 len][data][u32 crc32]`. -/
def fileBytes (crc32 : List UInt8 → UInt32) (s : Snapshot) : List UInt8 :=
  Wire.le64.write s.sequence ++ Wire.le32.write (UInt32.ofNat s.data.length) ++ s.data ++
    Wire.le32.write (crc32 s.data)

def save (crc32 : List UInt8 → UInt32) (dir : SnapshotDir) (s : Snapshot) : SnapshotDir :=
  dir.insert (fileName s.sequence) (s.fileBytes crc32)

/-- A missing checksum is accepted, a wrong one is not. -/
def loadFromFile (crc32 : List UInt8 → UInt32) (bs : List UInt8) : Except SnapshotError Snapshot :=
  match Wire.le64.read bs with
  | none => .error .unexpectedEof
  | some (sequence,bs) =>
    match Wire.le32.read bs with
    | none => .error .unexpectedEof
    | some (len,bs) =>
      match readExact len.toNat bs with
      | none => .error .unexpectedEof
      | some (data,bs) =>
        match Wire.le32.read bs with
        | none => .ok ⟨sequence,data⟩
        | some (expected,_) => if crc32 data ≠ expected then .error .checksumMismatch else .ok ⟨sequence,data⟩

def loadLatest (crc32 : List UInt8 → UInt32) (dir : SnapshotDir) : Except SnapshotError (Option Snapshot) :=
  match dir.last? with
  | none => .ok none
  | some (_,bs) => (loadFromFile crc32 bs).map some

/-- Remove the first files by name until `keep` are left. -/
def cleanupOld (dir : SnapshotDir) (keep : ℕ) : SnapshotDir :=
  (dir.toList.take (dir.toList.length-keep)).foldl (fun d e => d.erase e.1) dir

example : fileName 1234 = "snapshot_000000001234.bin" := by decide +kernel

/-! ### The latest file -/

variable {crc32 : List UInt8 → UInt32}

/-- What was saved is loaded, as long as its length fits the header. -/
theorem loadFromFile_fileBytes (s : Snapshot) (h : s.data.length < 2^32) :
    loadFromFile crc32 (s.fileBytes crc32) = .ok s := by
  have hlen : (UInt32.ofNat s.data.length).toNat = s.data.length := by
    rw [UInt32.toNat_ofNat',Nat.mod_eq_of_lt h]
  have hcrc := Wire.le32.read_write (crc32 s.data) []
  rw [List.append_nil] at hcrc
  simp only [loadFromFile,fileBytes,List.append_assoc,Wire.read_write,hlen,readExact_append,hcrc,ne_eq,
    not_true_eq_false,if_false]

theorem loadLatest_eq {dir : SnapshotDir} {name : String} {s : Snapshot}
    (hl : dir.last? = some (name,s.fileBytes crc32)) (h : s.data.length < 2^32) :
    loadLatest crc32 dir = .ok (some s) := by
  rw [loadLatest,hl]
  simp only
  rw [loadFromFile_fileBytes s h]
  rfl

theorem toList_cleanupOld (dir : SnapshotDir) (keep : ℕ) :
    (cleanupOld dir keep).toList = dir.toList.drop (dir.toList.length-keep) :=
  OrdMap.toList_erase_take dir _

/-- Cleaning up never removes the latest file. -/
theorem last?_cleanupOld (dir : SnapshotDir) {keep : ℕ} (hk : 0 < keep) :
    (cleanupOld dir keep).last? = dir.last? := by
  rw [OrdMap.last?,toList_cleanupOld,List.getLast?_drop]
  split_ifs with hlen
  · have hnil : dir.toList = [] := List.eq_nil_of_length_eq_zero (by omega)
    rw [OrdMap.last?,hnil,List.getLast?_nil]
  · rfl

/-- After a save and a clean-up the latest file is the new one or the one before. -/
theorem last?_save (dir : SnapshotDir) (s : Snapshot) {keep : ℕ} (hk : 0 < keep) :
    (cleanupOld (save crc32 dir s) keep).last? = some (fileName s.sequence,s.fileBytes crc32) ∨
      (cleanupOld (save crc32 dir s) keep).last? = dir.last? ∧
        ∀ bs, dir.last? ≠ some (fileName s.sequence,bs) := by
  rw [last?_cleanupOld _ hk]
  exact OrdMap.last?_insert dir _ _

end Snapshot
end HighPerfTrading
