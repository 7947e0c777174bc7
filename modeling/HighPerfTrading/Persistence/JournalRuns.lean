import HighPerfTrading.Persistence.Recovery
import Mathlib.Data.List.Induction
import Mathlib.Order.MinMax

/-! The journal behind its open file, under any calls in any order. The file is open for appending: a write
goes to its end wherever the position is, and only `read_all` moves the position elsewhere. -/
namespace HighPerfTrading

/-! ### Reading at a position -/

/-- Fill a buffer of `n` bytes. When the file ends before that, the position stays at its end. -/
def readExactAt (file : List UInt8) (n position : ℕ) : Option (List UInt8) × ℕ :=
  if position+n ≤ file.length then (some ((file.drop position).take n),position+n)
  else (none,max position file.length)

def fromLeBytes (bs : List UInt8) : UInt32 := UInt32.ofNat (Wire.leValue bs)

/-- The loop of `read_all`, with the file's position. -/
def readLoop (postcard : Codec Command) (crc32 : List UInt8 → UInt32) (file : List UInt8) :
    ℕ → ℕ → ℕ → List Command → Except JournalError (List Command) × ℕ
  | 0,_,position,out => (.ok out,position)
  | fuel+1,offset,position,out =>
    match readExactAt file 4 position with
    | (none,position) => (.ok out,position)
    | (some hdr,position) =>
      let len := (fromLeBytes hdr).toNat
      if maxPayload < len then (.error (.frameTooLarge len (offset+4)),position) else
        match readExactAt file len position with
        | (none,position) => (.error .unexpectedEof,position)
        | (some buf,position) =>
          match readExactAt file 4 position with
          | (none,position) => (.ok out,position)
          | (some crcBytes,position) =>
            if crc32 buf ≠ fromLeBytes crcBytes then (.ok out,position) else
              match postcard.decode buf with
              | none => (.error .deserialize,position)
              | some cmd => readLoop postcard crc32 file fuel (offset+4+len+4) position (out ++ [cmd])

theorem le32_eq {bs : List UInt8} (h : 4 ≤ bs.length) :
    Wire.le32.read bs = some (fromLeBytes (bs.take 4),bs.drop 4) := by
  change (Wire.readLe 4 bs).map _ = _
  rw [Wire.readLe_eq h]
  rfl

/-- Four bytes at a position against four bytes of what is left of the file. -/
theorem le32_drop (file : List UInt8) (position : ℕ) :
    Wire.le32.read (file.drop position) =
      (readExactAt file 4 position).1.map fun bs => (fromLeBytes bs,file.drop (readExactAt file 4 position).2) := by
  unfold readExactAt
  by_cases h : position+4 ≤ file.length
  · rw [if_pos h,le32_eq (by rw [List.length_drop]; omega),List.drop_drop]
    rfl
  · rw [if_neg h,Wire.le32_short (by rw [List.length_drop]; omega)]
    rfl

theorem readExact_drop (file : List UInt8) (n position : ℕ) (h : position ≤ file.length) :
    readExact n (file.drop position) =
      (readExactAt file n position).1.map fun bs => (bs,file.drop (readExactAt file n position).2) := by
  unfold readExactAt readExact
  rw [List.length_drop]
  by_cases hle : position+n ≤ file.length
  · rw [if_pos (by omega),if_pos hle,List.drop_drop]
    rfl
  · rw [if_neg (by omega),if_neg hle]
    rfl

theorem readExactAt_le {file bs : List UInt8} {n position next : ℕ} (h : readExactAt file n position = (some bs,next)) :
    next ≤ file.length := by
  unfold readExactAt at h
  split_ifs at h with hle
  · obtain ⟨-,rfl⟩ := Prod.mk.inj h
    exact hle
  · cases h

/-- Reading at a position is reading what is left of the file. -/
theorem readLoop_fst (postcard : Codec Command) (crc32 : List UInt8 → UInt32) (file : List UInt8)
    (fuel offset position : ℕ) (out : List Command) (h : position ≤ file.length) :
    (readLoop postcard crc32 file fuel offset position out).1 =
      (readFrames postcard crc32 fuel offset (file.drop position)).map (out ++ ·) := by
  induction fuel generalizing offset position out with
  | zero => exact congrArg Except.ok (List.append_nil out).symm
  | succ fuel ih =>
    unfold readLoop readFrames
    rw [le32_drop]
    rcases hhdr : readExactAt file 4 position with ⟨_ | hdr,next⟩
    · exact congrArg Except.ok (List.append_nil out).symm
    have hnext := readExactAt_le hhdr
    simp only [Option.map_some]
    split_ifs with hlen
    · rfl
    rw [readExact_drop _ _ _ hnext]
    rcases hbuf : readExactAt file (fromLeBytes hdr).toNat next with ⟨_ | buf,next'⟩
    · rfl
    simp only [Option.map_some]
    rw [le32_drop]
    rcases hcrc : readExactAt file 4 next' with ⟨_ | crcBytes,last⟩
    · exact congrArg Except.ok (List.append_nil out).symm
    have hlast := readExactAt_le hcrc
    simp only [Option.map_some]
    split_ifs with hsum
    · exact congrArg Except.ok (List.append_nil out).symm
    cases hcmd : postcard.decode buf with
    | none => rfl
    | some cmd =>
      simp only
      rw [ih _ _ _ hlast]
      cases readFrames postcard crc32 fuel (offset+4+(fromLeBytes hdr).toNat+4) (file.drop last) with
      | error e => rfl
      | ok cmds => exact congrArg Except.ok (List.append_assoc out [cmd] cmds)

/-! ### The journal's calls -/

/-- A journal and the position in its file. -/
structure OpenJournal where
  journal : Journal
  position : ℕ

/-- The calls; `elapsed` says whether the sync interval has passed when a command is appended. -/
inductive JournalOp
  | append (cmd : Command) (elapsed : Bool)
  | flush
  | readAll
  | rotate

section Runs
variable (postcard : Codec Command) (crc32 : List UInt8 → UInt32)

namespace OpenJournal

def openWithConfig (file : List UInt8) (config : JournalConfig) : OpenJournal := ⟨.openWithConfig file config,0⟩

/-- A write leaves the position at the end of the file. -/
def flush (o : OpenJournal) : OpenJournal :=
  if o.journal.batchBuffer = [] then o
  else ⟨o.journal.flush postcard crc32,(o.journal.flush postcard crc32).file.length⟩

def append (o : OpenJournal) (cmd : Command) (elapsed : Bool) : OpenJournal :=
  let o' := { o with journal := { o.journal with batchBuffer := o.journal.batchBuffer ++ [cmd] } }
  if o'.journal.shouldFlush elapsed then o'.flush postcard crc32 else o'

/-- Read from the start. An error leaves the position where it was met. -/
def readAll (o : OpenJournal) : OpenJournal × Except JournalError (List Command) :=
  match readLoop postcard crc32 o.journal.file (o.journal.file.length+1) 0 0 [] with
  | (.ok out,_) => ({ o with position := o.journal.file.length },.ok out)
  | (.error e,position) => ({ o with position := position },.error e)

/-- The new file is opened at its start. -/
def rotate (o : OpenJournal) : OpenJournal := ⟨(o.journal.rotate postcard crc32).1,0⟩

def step (o : OpenJournal) : JournalOp → OpenJournal
  | .append cmd elapsed => o.append postcard crc32 cmd elapsed
  | .flush => o.flush postcard crc32
  | .readAll => (o.readAll postcard crc32).1
  | .rotate => o.rotate postcard crc32

def run (o : OpenJournal) (ops : List JournalOp) : OpenJournal := ops.foldl (step postcard crc32) o

/-- What calls on a new journal lead to. -/
def after (config : JournalConfig) (ops : List JournalOp) : OpenJournal :=
  (openWithConfig [] config).run postcard crc32 ops

end OpenJournal

/-- What a call does to the journal, whatever the position. -/
def Journal.step (j : Journal) : JournalOp → Journal
  | .append cmd elapsed => j.append postcard crc32 cmd elapsed
  | .flush => j.flush postcard crc32
  | .readAll => j
  | .rotate => (j.rotate postcard crc32).1

def Journal.run (j : Journal) (ops : List JournalOp) : Journal := ops.foldl (step postcard crc32) j

/-- The commands appended since the last rotation. -/
def sinceRotation (ops : List JournalOp) : List Command :=
  ops.foldl (fun cmds op => match op with
    | .append cmd _ => cmds ++ [cmd]
    | .rotate => []
    | .flush | .readAll => cmds) []

def JournalOp.Fits : JournalOp → Prop
  | .append cmd _ => HighPerfTrading.Fits postcard cmd
  | .flush | .readAll | .rotate => True

instance (op : JournalOp) : Decidable (op.Fits postcard) :=
  match op with
  | .append _ _ => inferInstanceAs (Decidable (HighPerfTrading.Fits _ _))
  | .flush | .readAll | .rotate => inferInstanceAs (Decidable True)

/-! ### The position does not matter to the journal -/

variable {postcard crc32}

theorem Journal.flush_empty {j : Journal} (h : j.batchBuffer = []) : j.flush postcard crc32 = j := by
  obtain ⟨file,buffer,batchSize,written,since,threshold⟩ := j
  obtain rfl : buffer = [] := h
  simp [flush]

namespace OpenJournal

theorem flush_journal (o : OpenJournal) : (o.flush postcard crc32).journal = o.journal.flush postcard crc32 := by
  unfold flush
  split_ifs with h
  · exact (Journal.flush_empty h).symm
  · rfl

theorem readAll_journal (o : OpenJournal) : (o.readAll postcard crc32).1.journal = o.journal := by
  unfold readAll
  split <;> rfl

/-- The answer is what the bytes of the file say. -/
theorem readAll_snd (o : OpenJournal) :
    (o.readAll postcard crc32).2 = HighPerfTrading.readAll postcard crc32 o.journal.file := by
  have hloop := readLoop_fst postcard crc32 o.journal.file (o.journal.file.length+1) 0 0 [] (Nat.zero_le _)
  have hread : (o.readAll postcard crc32).2 =
      (readLoop postcard crc32 o.journal.file (o.journal.file.length+1) 0 0 []).1 := by
    unfold readAll
    rcases readLoop postcard crc32 o.journal.file (o.journal.file.length+1) 0 0 [] with ⟨_ | _,_⟩ <;> rfl
  rw [hread,hloop,List.drop_zero,HighPerfTrading.readAll]
  cases readFrames postcard crc32 (o.journal.file.length+1) 0 o.journal.file <;> rfl

theorem step_journal (o : OpenJournal) (op : JournalOp) :
    (o.step postcard crc32 op).journal = o.journal.step postcard crc32 op := by
  cases op with
  | append cmd elapsed =>
    change (o.append postcard crc32 cmd elapsed).journal = o.journal.append postcard crc32 cmd elapsed
    simp only [append,Journal.append]
    split_ifs
    · exact flush_journal _
    · rfl
  | flush => exact flush_journal o
  | readAll => exact readAll_journal o
  | rotate => rfl

theorem run_journal (o : OpenJournal) (ops : List JournalOp) :
    (o.run postcard crc32 ops).journal = o.journal.run postcard crc32 ops := by
  induction ops generalizing o with
  | nil => rfl
  | cons op ops ih =>
    change ((o.step postcard crc32 op).run postcard crc32 ops).journal =
      (o.journal.step postcard crc32 op).run postcard crc32 ops
    rw [ih,step_journal]

end OpenJournal

/-! ### What every run keeps -/

/-- The file has the frames of `written`, and these with the buffer are the commands of `log`. -/
structure Journal.Keeps (postcard : Codec Command) (crc32 : List UInt8 → UInt32) (j : Journal)
    (written log : List Command) : Prop where
  file : j.file = written.flatMap (writeFrame postcard crc32)
  log : written ++ j.batchBuffer = log
  count : j.commandsSinceRotation = UInt64.ofNat written.length
  buffer : j.batchBuffer.length < max 1 j.batchSize

namespace Journal.Keeps
variable {j : Journal} {written log : List Command}

theorem openWithConfig (config : JournalConfig) :
    Keeps postcard crc32 (Journal.openWithConfig [] config) [] [] :=
  ⟨rfl,rfl,rfl,lt_max_of_lt_left Nat.zero_lt_one⟩

/-- A flush writes the log out, also of a buffer that has just been filled up. -/
theorem flushed (hfile : j.file = written.flatMap (writeFrame postcard crc32))
    (hlog : written ++ j.batchBuffer = log) (hcount : j.commandsSinceRotation = UInt64.ofNat written.length) :
    Keeps postcard crc32 (j.flush postcard crc32) log log where
  file := by rw [← hlog,List.flatMap_append,← hfile]; rfl
  log := List.append_nil log
  count := by
    change j.commandsSinceRotation+UInt64.ofNat j.batchBuffer.length = _
    rw [hcount,← UInt64.ofNat_add,← List.length_append,hlog]
  buffer := lt_max_of_lt_left Nat.zero_lt_one

theorem append (h : Keeps postcard crc32 j written log) (cmd : Command) (elapsed : Bool) :
    ∃ written', Keeps postcard crc32 (j.append postcard crc32 cmd elapsed) written' (log ++ [cmd]) := by
  have hlog : written ++ (j.batchBuffer ++ [cmd]) = log ++ [cmd] := by rw [← List.append_assoc,h.log]
  simp only [Journal.append]
  by_cases hflush : ({ j with batchBuffer := j.batchBuffer ++ [cmd] } : Journal).shouldFlush elapsed = true
  · rw [if_pos hflush]
    exact ⟨_,flushed h.file hlog h.count⟩
  · rw [if_neg hflush]
    refine ⟨written,h.file,hlog,h.count,?_⟩
    -- a batch that is full is flushed
    simp only [shouldFlush,Bool.or_eq_true,decide_eq_true_eq,not_or,Nat.not_le] at hflush
    exact lt_max_of_lt_right hflush.1

theorem rotate (h : Keeps postcard crc32 j written log) :
    Keeps postcard crc32 (j.rotate postcard crc32).1 [] [] :=
  ⟨rfl,rfl,rfl,(flushed h.file h.log h.count).buffer⟩

theorem step (h : Keeps postcard crc32 j written log) (op : JournalOp) :
    ∃ written', Keeps postcard crc32 (j.step postcard crc32 op) written'
      (match op with
        | .append cmd _ => log ++ [cmd]
        | .rotate => []
        | .flush | .readAll => log) := by
  cases op with
  | append cmd elapsed => exact h.append cmd elapsed
  | flush => exact ⟨log,flushed h.file h.log h.count⟩
  | readAll => exact ⟨written,h⟩
  | rotate => exact ⟨[],h.rotate⟩

theorem run (postcard : Codec Command) (crc32 : List UInt8 → UInt32) (config : JournalConfig) (ops : List JournalOp) :
    ∃ written, Keeps postcard crc32 ((Journal.openWithConfig [] config).run postcard crc32 ops) written
      (sinceRotation ops) := by
  induction ops using List.reverseRecOn with
  | nil => exact ⟨[],openWithConfig config⟩
  | append_singleton ops op ih =>
    obtain ⟨written,h⟩ := ih
    rw [Journal.run,sinceRotation,List.foldl_append,List.foldl_append]
    exact h.step op

end Journal.Keeps

theorem Journal.step_batchSize (j : Journal) (op : JournalOp) : (j.step postcard crc32 op).batchSize = j.batchSize := by
  cases op with
  | append cmd elapsed =>
    simp only [step,append]
    split_ifs <;> rfl
  | flush | readAll | rotate => rfl

theorem Journal.run_batchSize (postcard : Codec Command) (crc32 : List UInt8 → UInt32) (j : Journal)
    (ops : List JournalOp) : (j.run postcard crc32 ops).batchSize = j.batchSize := by
  induction ops generalizing j with
  | nil => rfl
  | cons op ops ih =>
    change ((j.step postcard crc32 op).run postcard crc32 ops).batchSize = _
    rw [ih,step_batchSize]

/-- Whatever fits all commands appended fits those since the last rotation. -/
theorem sinceRotation_fits {ops : List JournalOp} (h : ∀ op ∈ ops, op.Fits postcard) :
    ∀ cmd ∈ sinceRotation ops, Fits postcard cmd := by
  induction ops using List.reverseRecOn with
  | nil => exact fun cmd hcmd => absurd hcmd List.not_mem_nil
  | append_singleton ops op ih =>
    have hold := ih fun op hop => h op (List.mem_append_left _ hop)
    have hnew := h op (List.mem_append_right _ (List.mem_singleton_self op))
    rw [sinceRotation,List.foldl_append]
    intro cmd hcmd
    cases op with
    | append new elapsed =>
      rcases List.mem_append.mp hcmd with hcmd | hcmd
      · exact hold cmd hcmd
      · rw [List.mem_singleton.mp hcmd]
        exact hnew
    | flush | readAll => exact hold cmd hcmd
    | rotate => cases hcmd

/-- After any calls on a journal opened on an empty file, the commands read back from the file and those in the
buffer are the commands appended since the last rotation, the counter counts the frames of the file, the buffer
holds less than a batch, and reading changes nothing for the calls that follow. -/
theorem OpenJournal.after_keeps (config : JournalConfig) {ops : List JournalOp} (h : ∀ op ∈ ops, op.Fits postcard) :
    ∃ written, (after postcard crc32 config ops).journal.file = written.flatMap (writeFrame postcard crc32) ∧
      ((after postcard crc32 config ops).readAll postcard crc32).2 = .ok written ∧
      written ++ (after postcard crc32 config ops).journal.batchBuffer = sinceRotation ops ∧
      (after postcard crc32 config ops).journal.commandsSinceRotation = UInt64.ofNat written.length ∧
      ((after postcard crc32 config ops).journal.file.length < 2^64 →
        (after postcard crc32 config ops).journal.commandsSinceRotation.toNat = written.length) ∧
      (after postcard crc32 config ops).journal.batchBuffer.length < max 1 config.batchSize ∧
      ∀ later, (after postcard crc32 config (ops ++ .readAll::later)).journal =
        (after postcard crc32 config (ops ++ later)).journal := by
  obtain ⟨written,hkeeps⟩ := Journal.Keeps.run postcard crc32 config ops
  have hbatch := Journal.run_batchSize postcard crc32 (.openWithConfig [] config) ops
  have hfits : ∀ cmd ∈ written, Fits postcard cmd := fun cmd hcmd =>
    sinceRotation_fits h cmd (hkeeps.log ▸ List.mem_append_left _ hcmd)
  rw [readAll_snd]
  simp only [after,run_journal]
  refine ⟨written,hkeeps.file,?_,hkeeps.log,hkeeps.count,?_,?_,fun later => ?_⟩
  · exact hkeeps.file ▸ readAll_frames hfits
  · intro hlen
    have hcount : written.length < 2^64 := (hkeeps.file ▸ length_le_frames postcard crc32 written).trans_lt hlen
    exact hkeeps.count ▸ (UInt64.toNat_ofNat').trans (Nat.mod_eq_of_lt hcount)
  · have hbuffer := hkeeps.buffer
    rwa [hbatch] at hbuffer
  · rw [Journal.run,Journal.run,List.foldl_append,List.foldl_append]
    rfl

/-- A batch of two, a rotation and a read between appends. -/
theorem OpenJournal.after_rotation : ∃ written,
    ((after Postcard.standard.command Crc32.hash ⟨2,0⟩ [.append (.cancel ⟨1,7,1,1⟩) false,.rotate,
      .append (.cancel ⟨2,8,1,1⟩) true,.readAll,.append (.cancel ⟨3,9,1,1⟩) false]).readAll
        Postcard.standard.command Crc32.hash).2 = .ok written ∧
      written ++ (after Postcard.standard.command Crc32.hash ⟨2,0⟩ [.append (.cancel ⟨1,7,1,1⟩) false,.rotate,
        .append (.cancel ⟨2,8,1,1⟩) true,.readAll,.append (.cancel ⟨3,9,1,1⟩) false]).journal.batchBuffer =
      [.cancel ⟨2,8,1,1⟩,.cancel ⟨3,9,1,1⟩] := by
  obtain ⟨written,-,hread,hlog,-⟩ := OpenJournal.after_keeps ⟨2,0⟩ (by decide +kernel : ∀ op ∈ [
    .append (.cancel ⟨1,7,1,1⟩) false,.rotate,.append (.cancel ⟨2,8,1,1⟩) true,.readAll,
    .append (.cancel ⟨3,9,1,1⟩) false],JournalOp.Fits Postcard.standard.command op)
  exact ⟨written,hread,hlog⟩

end Runs
end HighPerfTrading
