import HighPerfTrading.Common.Wire
import Mathlib.Data.List.Basic

/-! The command journal: a file of checksummed frames and a buffer of commands that have not
reached it yet. Every write succeeds; the checksum is any function of the payload. -/
namespace HighPerfTrading

/-- `[u32 len][payload][u32 crc32]`. -/
def writeFrame (postcard : Codec Command) (crc32 : List UInt8 → UInt32) (cmd : Command) : List UInt8 :=
  let payload := postcard.encode cmd
  Wire.le32.write (UInt32.ofNat payload.length) ++ payload ++ Wire.le32.write (crc32 payload)

inductive JournalError
  | frameTooLarge (len offset : ℕ)
  | unexpectedEof
  | deserialize
  deriving DecidableEq, Repr

def maxPayload : ℕ := 10*1024*1024

/-- Read frames until the file ends, a checksum is missing or a checksum is wrong. -/
def readFrames (postcard : Codec Command) (crc32 : List UInt8 → UInt32) :
    ℕ → ℕ → List UInt8 → Except JournalError (List Command)
  | 0,_,_ => .ok []
  | fuel+1,offset,bs =>
    match Wire.le32.read bs with
    | none => .ok []
    | some (hdr,bs) =>
      if maxPayload < hdr.toNat then .error (.frameTooLarge hdr.toNat (offset+4)) else
        match readExact hdr.toNat bs with
        | none => .error .unexpectedEof
        | some (buf,bs) =>
          match Wire.le32.read bs with
          | none => .ok []
          | some (expected,bs) =>
            if crc32 buf ≠ expected then .ok [] else
              match postcard.decode buf with
              | none => .error .deserialize
              | some cmd => (readFrames postcard crc32 fuel (offset+4+hdr.toNat+4) bs).map (cmd::·)

/-- A frame takes eight bytes at least, so the length of the file is fuel enough. -/
def readAll (postcard : Codec Command) (crc32 : List UInt8 → UInt32) (file : List UInt8) :
    Except JournalError (List Command) :=
  readFrames postcard crc32 (file.length+1) 0 file

structure JournalConfig where
  batchSize : ℕ
  rotationThreshold : UInt64

/-- `file` is what the file at the journal's path holds. -/
structure Journal where
  file : List UInt8
  batchBuffer : List Command
  batchSize : ℕ
  commandsWritten : UInt64
  commandsSinceRotation : UInt64
  rotationThreshold : UInt64

namespace Journal

def openWithConfig (file : List UInt8) (config : JournalConfig) : Journal :=
  ⟨file,[],config.batchSize,0,0,config.rotationThreshold⟩

variable (postcard : Codec Command) (crc32 : List UInt8 → UInt32)

/-- With an empty buffer this changes nothing. -/
def flush (j : Journal) : Journal :=
  { j with
    file := j.file ++ j.batchBuffer.flatMap (writeFrame postcard crc32)
    batchBuffer := []
    commandsWritten := j.commandsWritten+UInt64.ofNat j.batchBuffer.length
    commandsSinceRotation := j.commandsSinceRotation+UInt64.ofNat j.batchBuffer.length }

/-- The batch is full, or the sync interval has elapsed since the last sync. -/
def shouldFlush (j : Journal) (elapsed : Bool) : Bool := decide (j.batchSize ≤ j.batchBuffer.length) || elapsed

def append (j : Journal) (cmd : Command) (elapsed : Bool) : Journal :=
  let j' := { j with batchBuffer := j.batchBuffer ++ [cmd] }
  if j'.shouldFlush elapsed then j'.flush postcard crc32 else j'

def shouldRotate (j : Journal) : Bool :=
  decide (0 < j.rotationThreshold) && decide (j.rotationThreshold ≤ j.commandsSinceRotation)

/-- Flush, move the file to its backup name and start an empty one. The second component is
what the backup holds. -/
def rotate (j : Journal) : Journal × List UInt8 :=
  ({ j.flush postcard crc32 with file := [], commandsSinceRotation := 0 },(j.flush postcard crc32).file)

end Journal

/-! ### Reading back -/

section Roundtrip
variable {postcard : Codec Command} {crc32 : List UInt8 → UInt32}

/-- Commands whose payload a reader accepts. -/
def Fits (postcard : Codec Command) (cmd : Command) : Prop := (postcard.encode cmd).length ≤ maxPayload

instance (postcard : Codec Command) (cmd : Command) : Decidable (Fits postcard cmd) :=
  inferInstanceAs (Decidable (_ ≤ _))

/-- The header holds the length. -/
theorem toNat_length {payload : List UInt8} (h : payload.length ≤ maxPayload) :
    (UInt32.ofNat payload.length).toNat = payload.length := by
  rw [UInt32.toNat_ofNat',Nat.mod_eq_of_lt]
  exact Nat.lt_of_le_of_lt h (by decide)

theorem Fits.toNat_length {cmd : Command} (h : Fits postcard cmd) :
    (UInt32.ofNat (postcard.encode cmd).length).toNat = (postcard.encode cmd).length :=
  HighPerfTrading.toNat_length h

theorem length_writeFrame (cmd : Command) : 8 ≤ (writeFrame postcard crc32 cmd).length := by
  simp only [writeFrame,List.length_append,Wire.length_le32]
  omega

theorem length_le_frames (postcard : Codec Command) (crc32 : List UInt8 → UInt32) (cmds : List Command) :
    cmds.length ≤ (cmds.flatMap (writeFrame postcard crc32)).length := by
  induction cmds with
  | nil => exact Nat.le_refl 0
  | cons cmd cmds ih =>
    have h : 8 ≤ (writeFrame postcard crc32 cmd).length := length_writeFrame cmd
    simp only [List.flatMap_cons,List.length_append,List.length_cons]
    omega

/-- A whole frame at the front gives its command. -/
theorem readFrames_frame (crc32 : List UInt8 → UInt32) {cmd : Command} (hfit : Fits postcard cmd) (fuel offset : ℕ)
    (rest : List UInt8) : ∃ next, readFrames postcard crc32 (fuel+1) offset (writeFrame postcard crc32 cmd ++ rest) =
      (readFrames postcard crc32 fuel next rest).map (cmd::·) := by
  refine ⟨offset+4+(postcard.encode cmd).length+4,?_⟩
  simp only [writeFrame,List.append_assoc,readFrames,Wire.read_write,hfit.toNat_length,if_neg (Nat.not_lt.mpr hfit),
    readExact_append,ne_eq,not_true_eq_false,if_false,Codec.decode_encode]

theorem readFrames_append (crc32 : List UInt8 → UInt32) {cmds : List Command} (h : ∀ cmd ∈ cmds, Fits postcard cmd)
    (fuel offset : ℕ) (rest : List UInt8) : ∃ next, readFrames postcard crc32 (cmds.length+fuel) offset
      (cmds.flatMap (writeFrame postcard crc32) ++ rest) = (readFrames postcard crc32 fuel next rest).map (cmds ++ ·) := by
  induction cmds generalizing offset with
  | nil =>
    refine ⟨offset,?_⟩
    rw [List.length_nil,Nat.zero_add,List.flatMap_nil,List.nil_append]
    cases readFrames postcard crc32 fuel offset rest <;> rfl
  | cons cmd cmds ih =>
    obtain ⟨mid,hmid⟩ := readFrames_frame crc32 (h cmd (List.mem_cons_self ..)) (cmds.length+fuel) offset
      (cmds.flatMap (writeFrame postcard crc32) ++ rest)
    obtain ⟨next,hnext⟩ := ih (fun c hc => h c (List.mem_cons_of_mem _ hc)) mid
    refine ⟨next,?_⟩
    rw [List.flatMap_cons,List.append_assoc,List.length_cons,Nat.add_right_comm,hmid,hnext]
    cases readFrames postcard crc32 fuel next rest <;> rfl

theorem readFrames_nil (fuel offset : ℕ) : readFrames postcard crc32 fuel offset [] = .ok [] := by
  cases fuel <;> rfl

theorem readAll_append (crc32 : List UInt8 → UInt32) {cmds : List Command} (h : ∀ cmd ∈ cmds, Fits postcard cmd)
    (rest : List UInt8) : ∃ fuel next, 0 < fuel ∧ readAll postcard crc32 (cmds.flatMap (writeFrame postcard crc32) ++ rest) =
      (readFrames postcard crc32 fuel next rest).map (cmds ++ ·) := by
  have hle := length_le_frames postcard crc32 cmds
  obtain ⟨fuel,hfuel⟩ := Nat.exists_eq_add_of_le hle
  obtain ⟨next,hnext⟩ := readFrames_append crc32 h (fuel+rest.length+1) 0 rest
  refine ⟨fuel+rest.length+1,next,Nat.succ_pos _,?_⟩
  rw [readAll,List.length_append,hfuel,← hnext]
  congr 1
  omega

/-- A file of frames reads back as the commands written. -/
theorem readAll_frames {cmds : List Command} (h : ∀ cmd ∈ cmds, Fits postcard cmd) :
    readAll postcard crc32 (cmds.flatMap (writeFrame postcard crc32)) = .ok cmds := by
  obtain ⟨fuel,next,-,hread⟩ := readAll_append crc32 h []
  rw [List.append_nil] at hread
  rw [hread,readFrames_nil]
  exact congrArg Except.ok (List.append_nil cmds)

end Roundtrip
end HighPerfTrading
