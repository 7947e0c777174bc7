import HighPerfTrading.Library.Decimal
import HighPerfTrading.Persistence.Recovery

/-! The journal's directory over many rotations. A rotation renames the file to a name with the second it
happens in, which replaces a backup of that name. -/
namespace HighPerfTrading

/-- `{stem}_{secs}.bin`, of a rotation `ts` seconds after the epoch. -/
def backupName (stem : String) (ts : UInt64) : String :=
  String.ofList (stem.toList ++ '_'::(Nat.toDigits 10 ts.toNat ++ ".bin".toList))

/-- The journal and the backups beside its file. -/
structure JournalDir where
  journal : Journal
  backups : OrdMap String (List UInt8)

section Rotation
variable (postcard : Codec Command) (crc32 : List UInt8 → UInt32)

namespace JournalDir

def openWithConfig (config : JournalConfig) : JournalDir := ⟨.openWithConfig [] config,∅⟩

def append (d : JournalDir) (cmd : Command) (elapsed : Bool) : JournalDir :=
  { d with journal := d.journal.append postcard crc32 cmd elapsed }

def flush (d : JournalDir) : JournalDir := { d with journal := d.journal.flush postcard crc32 }

def rotate (d : JournalDir) (stem : String) (ts : UInt64) : JournalDir :=
  ⟨(d.journal.rotate postcard crc32).1,d.backups.insert (backupName stem ts) (d.journal.rotate postcard crc32).2⟩

/-- What `read_all` finds in the files of a list, one after the other. -/
def readFiles : List (List UInt8) → Except JournalError (List Command)
  | [] => .ok []
  | file::files => (readAll postcard crc32 file).bind fun cmds => (readFiles files).map (cmds ++ ·)

/-- What is read from the backups, in the order of their names, from the file and from the buffer. -/
def history (d : JournalDir) : Except JournalError (List Command) :=
  (readFiles postcard crc32 (d.backups.toList.map Prod.snd ++ [d.journal.file])).map (· ++ d.journal.batchBuffer)

/-- The backups in the order of their names, the file and the buffer hold the commands of `log`. -/
def Holds (d : JournalDir) (log : List Command) : Prop :=
  ∃ (parts : List (List Command)) (written : List Command),
    d.backups.toList.map Prod.snd = parts.map (·.flatMap (writeFrame postcard crc32)) ∧
      d.journal.file = written.flatMap (writeFrame postcard crc32) ∧
      parts.flatten ++ (written ++ d.journal.batchBuffer) = log

/-- The name of a rotation's backup sorts after those of the backups there are. -/
def Later (d : JournalDir) (stem : String) (ts : UInt64) : Prop :=
  ∀ (name : String) bs, d.backups[name]? = some bs → compare name (backupName stem ts) = .lt

/-- Runs whose rotations all have later names, with the commands appended. -/
inductive Run (stem : String) (config : JournalConfig) : JournalDir → List Command → Prop
  | opened : Run stem config (openWithConfig config) []
  | append {d log} (run : Run stem config d log) (cmd : Command) (elapsed : Bool) :
      Run stem config (d.append postcard crc32 cmd elapsed) (log ++ [cmd])
  | flush {d log} (run : Run stem config d log) : Run stem config (d.flush postcard crc32) log
  | rotate {d log} (run : Run stem config d log) (ts : UInt64) (later : d.Later stem ts) :
      Run stem config (d.rotate postcard crc32 stem ts) log

variable {postcard crc32} {d : JournalDir} {log : List Command}

theorem toList_backupName (stem : String) (ts : UInt64) :
    (backupName stem ts).toList = stem.toList ++ ['_'] ++ Nat.toDigits 10 ts.toNat ++ ".bin".toList := by
  rw [backupName,String.toList_ofList]
  simp

/-- In seconds with as many digits the names are in the order of the seconds. -/
theorem backupName_lt (stem : String) {w : ℕ} {a b : UInt64} (hab : a < b) (ha : 10^w ≤ a.toNat)
    (hb : b.toNat < 10^(w+1)) : compare (backupName stem a) (backupName stem b) = .lt := by
  have hlt := UInt64.lt_iff_toNat_lt.mp hab
  have hbetween := Decimal.between_lt (stem.toList ++ ['_']) ".bin".toList (Nat.succ_pos w) hlt hb
  rw [Decimal.padded_of_le ha,Decimal.padded_of_le (ha.trans hlt.le)] at hbetween
  have hname : backupName stem a < backupName stem b := by
    rw [String.lt_iff,toList_backupName,toList_backupName]
    exact hbetween
  exact Decimal.compare_of_lt hname

theorem readFiles_frames (crc32 : List UInt8 → UInt32) (parts : List (List Command))
    (h : ∀ cmd ∈ parts.flatten, Fits postcard cmd) :
    readFiles postcard crc32 (parts.map (·.flatMap (writeFrame postcard crc32))) = .ok parts.flatten := by
  induction parts with
  | nil => rfl
  | cons cmds parts ih =>
    rw [List.flatten_cons] at h ⊢
    rw [List.map_cons,readFiles,readAll_frames fun c hc => h c (List.mem_append_left _ hc),
      ih fun c hc => h c (List.mem_append_right _ hc)]
    rfl

/-- What the directory holds is read back from it. -/
theorem Holds.history (h : d.Holds postcard crc32 log) (hfits : ∀ cmd ∈ log, Fits postcard cmd) :
    d.history postcard crc32 = .ok log := by
  obtain ⟨parts,written,hparts,hfile,rfl⟩ := h
  have hread := readFiles_frames crc32 (parts ++ [written]) fun c hc => hfits c (by
      rw [List.flatten_concat] at hc
      rw [← List.append_assoc]
      exact List.mem_append_left _ hc)
  simp only [List.map_append,List.map_cons,List.map_nil,List.flatten_concat] at hread
  rw [JournalDir.history,hparts,hfile,hread]
  exact congrArg Except.ok (List.append_assoc ..)

theorem Holds.flush (h : d.Holds postcard crc32 log) : (d.flush postcard crc32).Holds postcard crc32 log := by
  obtain ⟨parts,written,hparts,hfile,hlog⟩ := h
  refine ⟨parts,written ++ d.journal.batchBuffer,hparts,?_,?_⟩
  · rw [List.flatMap_append,← hfile]
    rfl
  · rw [← hlog]
    exact congrArg _ (List.append_nil _)

theorem Holds.append (h : d.Holds postcard crc32 log) (cmd : Command) (elapsed : Bool) :
    (d.append postcard crc32 cmd elapsed).Holds postcard crc32 (log ++ [cmd]) := by
  obtain ⟨parts,written,hparts,hfile,hlog⟩ := h
  have hpushed : Holds postcard crc32
      { d with journal := { d.journal with batchBuffer := d.journal.batchBuffer ++ [cmd] } } (log ++ [cmd]) :=
    ⟨parts,written,hparts,hfile,by rw [← hlog]; simp only [List.append_assoc]⟩
  simp only [JournalDir.append,Journal.append]
  split_ifs
  · exact hpushed.flush
  · exact hpushed

/-- The flushed file becomes the last backup. -/
theorem Holds.rotate (h : d.Holds postcard crc32 log) {stem : String} {ts : UInt64} (hlater : d.Later stem ts) :
    (d.rotate postcard crc32 stem ts).Holds postcard crc32 log := by
  obtain ⟨parts,written,hparts,hfile,hlog⟩ := h.flush
  refine ⟨parts ++ [written],[],?_,rfl,?_⟩
  · have hlast : (d.rotate postcard crc32 stem ts).backups.toList =
        d.backups.toList ++ [(backupName stem ts,(d.flush postcard crc32).journal.file)] :=
      OrdMap.toList_insert_last _ hlater
    rw [hlast,List.map_append,List.map_append,hfile]
    exact congrArg (· ++ _) hparts
  · rw [← hlog,List.flatten_concat]
    exact List.append_assoc ..

/-- When every rotation gives its backup a later name, nothing of the history is lost: the backups in the order
of their names, the file and the buffer hold all commands appended, and these are read back. -/
theorem Run.holds {stem : String} {config : JournalConfig} (run : Run postcard crc32 stem config d log) :
    d.Holds postcard crc32 log ∧ ((∀ cmd ∈ log, Fits postcard cmd) → d.history postcard crc32 = .ok log) := by
  have hholds : d.Holds postcard crc32 log := by
    induction run with
    | opened => exact ⟨[],[],by simp [openWithConfig],rfl,rfl⟩
    | append run cmd elapsed ih => exact ih.append cmd elapsed
    | flush run ih => exact ih.flush
    | rotate run ts later ih => exact ih.rotate later
  exact ⟨hholds,hholds.history⟩

/-- Two rotations in the seconds 1700000000 and 1700000001. -/
theorem rotated_twice : (((((openWithConfig ⟨1,1⟩).append Postcard.standard.command Crc32.hash (.cancel ⟨1,7,1,1⟩)
      false).rotate Postcard.standard.command Crc32.hash "journal" 1700000000).append Postcard.standard.command
      Crc32.hash (.cancel ⟨2,8,1,1⟩) false).rotate Postcard.standard.command Crc32.hash "journal"
      1700000001).history Postcard.standard.command Crc32.hash = .ok [.cancel ⟨1,7,1,1⟩,.cancel ⟨2,8,1,1⟩] := by
  have hopened : Run Postcard.standard.command Crc32.hash "journal" ⟨1,1⟩ (openWithConfig ⟨1,1⟩) [] := .opened
  refine (Run.holds (.rotate (.append (.rotate (.append hopened _ _) _ ?_) _ _) _ ?_)).2 (by decide +kernel)
  · intro name bs hget
    simp [JournalDir.append,openWithConfig] at hget
  · intro name bs hget
    simp only [JournalDir.append,JournalDir.rotate,OrdMap.get_insert,openWithConfig] at hget
    split_ifs at hget with hname
    · rw [← hname]
      exact backupName_lt "journal" (w := 9) (by decide) (by decide) (by decide)
    · simp at hget

/-- Two rotations in one second. -/
def withinSecond : JournalDir :=
  ((((openWithConfig ⟨1,1⟩).append Postcard.standard.command Crc32.hash (.cancel ⟨1,7,1,1⟩) false).rotate
    Postcard.standard.command Crc32.hash "journal" 1700000000).append Postcard.standard.command Crc32.hash
    (.cancel ⟨2,8,1,1⟩) false).rotate Postcard.standard.command Crc32.hash "journal" 1700000000

/-- The second backup has replaced the first. -/
theorem withinSecond_loses :
    ¬ withinSecond.Holds Postcard.standard.command Crc32.hash [.cancel ⟨1,7,1,1⟩,.cancel ⟨2,8,1,1⟩] ∧
      withinSecond.history Postcard.standard.command Crc32.hash = .ok [.cancel ⟨2,8,1,1⟩] := by
  refine ⟨?_,by decide +kernel⟩
  rintro ⟨parts,written,hparts,hfile,hlog⟩
  have hbackups : withinSecond.backups.toList.map Prod.snd =
      [[.cancel ⟨2,8,1,1⟩].flatMap (writeFrame Postcard.standard.command Crc32.hash)] := by decide +kernel
  have hwritten : written = [] := by
    have hle := length_le_frames Postcard.standard.command Crc32.hash written
    rw [← hfile] at hle
    exact List.eq_nil_of_length_eq_zero (Nat.le_zero.mp hle)
  -- the only backup would have to hold both commands
  rw [hbackups] at hparts
  obtain ⟨cmds,rfl⟩ := List.length_eq_one_iff.mp ((List.length_map _).symm.trans (congrArg List.length hparts.symm))
  rw [hwritten,List.flatten_singleton,List.nil_append] at hlog
  obtain rfl : cmds = [.cancel ⟨1,7,1,1⟩,.cancel ⟨2,8,1,1⟩] := (List.append_nil cmds).symm.trans hlog
  revert hparts
  decide +kernel

end JournalDir
end Rotation
end HighPerfTrading
