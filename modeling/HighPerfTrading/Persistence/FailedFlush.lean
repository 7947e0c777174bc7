import HighPerfTrading.Library.Runs
import HighPerfTrading.Persistence.TornTail
import HighPerfTrading.Persistence.JournalRuns

/-! Flushes on a disk that fails. The buffer is emptied before its first frame is written, a frame takes three
writes, and the first write that fails ends the flush. -/
namespace HighPerfTrading

section FailedFlush
variable (postcard : Codec Command) (crc32 : List UInt8 → UInt32)

/-- The three writes of a frame. -/
def frameWrites (cmd : Command) : List (List UInt8) :=
  let payload := postcard.encode cmd
  [Wire.le32.write (UInt32.ofNat payload.length),payload,Wire.le32.write (crc32 payload)]

/-- Write one piece after the other to a file whose disk takes `writes` more writes. What is left of them comes
back, or nothing when a write failed. -/
def tryWrites : List (List UInt8) → ℕ → List UInt8 → List UInt8 × Option ℕ
  | [],writes,file => (file,some writes)
  | _::_,0,file => (file,none)
  | bytes::rest,writes+1,file => tryWrites rest writes (file ++ bytes)

namespace Journal

/-- The loop of `flush`. -/
def tryFrames (j : Journal) : List Command → ℕ → Journal × Option ℕ
  | [],writes => (j,some writes)
  | cmd::cmds,writes =>
    match tryWrites (frameWrites postcard crc32 cmd) writes j.file with
    | (file,none) => ({ j with file := file },none)
    | (file,some writes) =>
      tryFrames { j with
        file := file
        commandsWritten := j.commandsWritten+1
        commandsSinceRotation := j.commandsSinceRotation+1 } cmds writes

/-- A flush with its answer. The sync at the end fails when no write is left for it. -/
def tryFlush (j : Journal) (writes : ℕ) : Journal × Bool :=
  if j.batchBuffer = [] then (j,true)
  else match tryFrames postcard crc32 { j with batchBuffer := [] } j.batchBuffer writes with
    | (j',none) => (j',false)
    | (j',some writes) => (j',decide (0 < writes))

def tryAppend (j : Journal) (cmd : Command) (elapsed : Bool) (writes : ℕ) : Journal × Bool :=
  let j' := { j with batchBuffer := j.batchBuffer ++ [cmd] }
  if j'.shouldFlush elapsed then j'.tryFlush postcard crc32 writes else (j',true)

end Journal

/-! ### What a flush leaves -/

variable {postcard crc32}

theorem tryWrites_frame {writes : ℕ} (h : 3 ≤ writes) (cmd : Command) (file : List UInt8) :
    tryWrites (frameWrites postcard crc32 cmd) writes file = (file ++ writeFrame postcard crc32 cmd,some (writes-3)) := by
  obtain ⟨left,rfl⟩ := Nat.exists_eq_add_of_le' h
  simp [frameWrites,tryWrites,writeFrame]

/-- The front of a frame that the disk takes. -/
theorem tryWrites_torn (postcard : Codec Command) (crc32 : List UInt8 → UInt32) {writes : ℕ} (h : writes < 3)
    (cmd : Command) (file : List UInt8) :
    ∃ k < (writeFrame postcard crc32 cmd).length,
      tryWrites (frameWrites postcard crc32 cmd) writes file = (file ++ (writeFrame postcard crc32 cmd).take k,none) := by
  have hlen : (writeFrame postcard crc32 cmd).length = 8+(postcard.encode cmd).length := length_frame cmd
  obtain rfl | rfl | rfl : writes = 0 ∨ writes = 1 ∨ writes = 2 := by omega
  · exact ⟨0,by omega,by simp [frameWrites,tryWrites]⟩
  · refine ⟨4,by omega,?_⟩
    rw [writeFrame_eq,List.take_left' (Wire.length_le32 _)]
    rfl
  · refine ⟨4+(postcard.encode cmd).length,by omega,?_⟩
    rw [writeFrame_eq,List.take_append,Wire.length_le32,Nat.add_sub_cancel_left,List.take_left' rfl,
      List.take_of_length_le (by rw [Wire.length_le32]; omega),← List.append_assoc]
    rfl

namespace Journal

/-- With three writes for every frame all of them are written. -/
theorem tryFrames_all (j : Journal) (cmds : List Command) {writes : ℕ} (h : 3*cmds.length ≤ writes) :
    j.tryFrames postcard crc32 cmds writes = ({ j with
      file := j.file ++ cmds.flatMap (writeFrame postcard crc32)
      commandsWritten := j.commandsWritten+UInt64.ofNat cmds.length
      commandsSinceRotation := j.commandsSinceRotation+UInt64.ofNat cmds.length },some (writes-3*cmds.length)) := by
  induction cmds generalizing j writes with
  | nil => simp [tryFrames]
  | cons cmd cmds ih =>
    rw [List.length_cons] at h
    have hcount : ∀ n : UInt64, n+1+UInt64.ofNat cmds.length = n+UInt64.ofNat (cmds.length+1) := fun n => by
      rw [UInt64.ofNat_add,UInt64.add_assoc,UInt64.add_comm 1]
      rfl
    rw [tryFrames,tryWrites_frame (by omega)]
    simp only
    rw [ih _ (by omega)]
    simp only [hcount,List.flatMap_cons,List.append_assoc,List.length_cons]
    congr 2
    omega

/-- With fewer, one frame is cut and those behind it are gone. -/
theorem tryFrames_torn (postcard : Codec Command) (crc32 : List UInt8 → UInt32) (j : Journal) (cmds : List Command)
    {writes : ℕ} (h : writes < 3*cmds.length) :
    ∃ pre torn post k, cmds = pre ++ torn::post ∧ k < (writeFrame postcard crc32 torn).length ∧
      (j.tryFrames postcard crc32 cmds writes).1.file =
        j.file ++ (pre.flatMap (writeFrame postcard crc32) ++ (writeFrame postcard crc32 torn).take k) ∧
      (j.tryFrames postcard crc32 cmds writes).1.batchBuffer = j.batchBuffer ∧
      (j.tryFrames postcard crc32 cmds writes).2 = none := by
  induction cmds generalizing j writes with
  | nil => exact absurd h (Nat.not_lt_zero _)
  | cons cmd cmds ih =>
    rw [List.length_cons] at h
    rw [tryFrames]
    by_cases h3 : 3 ≤ writes
    · rw [tryWrites_frame h3]
      simp only
      obtain ⟨pre,torn,post,k,rfl,hk,hfile,hbuffer,hnone⟩ := ih { j with
        file := j.file ++ writeFrame postcard crc32 cmd
        commandsWritten := j.commandsWritten+1
        commandsSinceRotation := j.commandsSinceRotation+1 } (show writes-3 < 3*cmds.length by omega)
      refine ⟨cmd::pre,torn,post,k,rfl,hk,?_,hbuffer,hnone⟩
      rw [hfile,List.flatMap_cons,List.append_assoc,List.append_assoc]
    · obtain ⟨k,hk,htorn⟩ := tryWrites_torn postcard crc32 (Nat.lt_of_not_le h3) cmd j.file
      rw [htorn]
      exact ⟨[],cmd,cmds,k,rfl,hk,rfl,rfl,rfl⟩

theorem tryFlush_all {j : Journal} {writes : ℕ} (h : 3*j.batchBuffer.length ≤ writes) :
    (j.tryFlush postcard crc32 writes).1 = j.flush postcard crc32 := by
  unfold tryFlush
  split_ifs with hempty
  · exact (flush_empty hempty).symm
  · rw [tryFrames_all _ _ h]
    rfl

theorem tryFlush_torn (postcard : Codec Command) (crc32 : List UInt8 → UInt32) {j : Journal} {writes : ℕ}
    (h : writes < 3*j.batchBuffer.length) :
    ∃ pre torn post k, j.batchBuffer = pre ++ torn::post ∧ k < (writeFrame postcard crc32 torn).length ∧
      (j.tryFlush postcard crc32 writes).1.file =
        j.file ++ (pre.flatMap (writeFrame postcard crc32) ++ (writeFrame postcard crc32 torn).take k) ∧
      (j.tryFlush postcard crc32 writes).1.batchBuffer = [] ∧ (j.tryFlush postcard crc32 writes).2 = false := by
  obtain ⟨pre,torn,post,k,heq,hk,hfile,hbuffer,hnone⟩ :=
    tryFrames_torn postcard crc32 { j with batchBuffer := [] } j.batchBuffer h
  have hne : j.batchBuffer ≠ [] := by rw [heq]; simp
  refine ⟨pre,torn,post,k,heq,hk,?_⟩
  rw [tryFlush,if_neg hne]
  generalize tryFrames postcard crc32 { j with batchBuffer := [] } j.batchBuffer writes = r at hfile hbuffer hnone
  obtain ⟨j',left⟩ := r
  obtain rfl : left = none := hnone
  exact ⟨hfile,hbuffer,rfl⟩

end Journal

/-! ### Recovering from a failure -/

namespace Journal

/-- The file has whole frames only, and these with the buffer are the commands of `log`. -/
def Intact (postcard : Codec Command) (crc32 : List UInt8 → UInt32) (j : Journal) (log : List Command) : Prop :=
  ∃ written, j.file = written.flatMap (writeFrame postcard crc32) ∧ written ++ j.batchBuffer = log

/-- Every command of `log` is completely on disk or in the buffer, and whatever is appended next, a flush that
succeeds makes `read_all` return it behind the commands of `log`. -/
structure Recoverable (postcard : Codec Command) (crc32 : List UInt8 → UInt32) (j : Journal) (log : List Command) :
    Prop where
  kept : ∃ saved, saved.flatMap (writeFrame postcard crc32) <+: j.file ∧ saved ++ j.batchBuffer = log
  readBack : ∀ es : List (Command × Bool), (∀ e ∈ es, Fits postcard e.1) →
    readAll postcard crc32 ((j.appendAll postcard crc32 es).flush postcard crc32).file = .ok (log ++ es.map Prod.fst)

variable {j : Journal} {log : List Command}

theorem Intact.recoverable (h : Intact postcard crc32 j log) (hfits : ∀ cmd ∈ log, Fits postcard cmd) :
    Recoverable postcard crc32 j log := by
  obtain ⟨written,hfile,hlog⟩ := h
  refine ⟨⟨written,hfile ▸ List.prefix_rfl,hlog⟩,fun es hes => ?_⟩
  rw [file_flush_appendAll,hfile,← List.flatMap_append,← List.append_assoc,hlog]
  refine readAll_frames fun cmd hcmd => ?_
  rcases List.mem_append.mp hcmd with hcmd | hcmd
  · exact hfits cmd hcmd
  · obtain ⟨e,he,rfl⟩ := List.mem_map.mp hcmd
    exact hes e he

theorem Intact.flush (h : Intact postcard crc32 j log) : Intact postcard crc32 (j.flush postcard crc32) log := by
  obtain ⟨written,hfile,hlog⟩ := h
  refine ⟨log,?_,List.append_nil log⟩
  rw [← hlog,List.flatMap_append,← hfile]
  rfl

/-- A frame that is cut takes its command with it. -/
theorem Intact.not_recoverable_torn (h : Intact postcard crc32 j log) (hfits : ∀ cmd ∈ log, Fits postcard cmd)
    {writes : ℕ} (hw : writes < 3*j.batchBuffer.length) :
    ¬ Recoverable postcard crc32 (j.tryFlush postcard crc32 writes).1 log := by
  obtain ⟨written,hfile,rfl⟩ := h
  obtain ⟨pre,torn,post,k,heq,hk,hfile',hbuffer,-⟩ := tryFlush_torn postcard crc32 hw
  intro hrec
  have hread := hrec.readBack [] fun e he => absurd he List.not_mem_nil
  rw [file_flush_appendAll,hbuffer,hfile',hfile] at hread
  rw [heq] at hread hfits
  simp only [List.map_nil,List.append_nil,List.flatMap_nil,← List.append_assoc,← List.flatMap_append] at hread
  -- the file reads as an error or as the commands before the cut frame
  have hpre : ∀ c ∈ written ++ pre, Fits postcard c := fun c hc => by
    refine hfits c ?_
    rw [← List.append_assoc]
    exact List.mem_append_left _ hc
  rw [readAll_torn hpre (hfits torn (by simp)) hk] at hread
  split_ifs at hread
  have hlength := congrArg List.length (Except.ok.inj hread)
  simp only [List.length_append,List.length_cons] at hlength
  omega

end Journal

/-! ### Runs of a journal on a failing disk -/

/-- The calls; `writes` says how many writes the disk takes during the call. -/
inductive FlushCall
  | append (cmd : Command) (elapsed : Bool) (writes : ℕ)
  | flush (writes : ℕ)

namespace FlushCall

def commands : FlushCall → List Command
  | .append cmd _ _ => [cmd]
  | .flush _ => []

/-- The journal a flush of the call starts from. -/
def filled (j : Journal) (call : FlushCall) : Journal := { j with batchBuffer := j.batchBuffer ++ call.commands }

/-- Does the call flush? -/
def Flushes (j : Journal) : FlushCall → Prop
  | .append cmd elapsed writes => (filled j (.append cmd elapsed writes)).shouldFlush elapsed
  | .flush _ => True

def writes : FlushCall → ℕ
  | .append _ _ writes => writes
  | .flush writes => writes

/-- When the call flushes, the disk takes the three writes of every buffered frame. -/
def WritesAll (j : Journal) (call : FlushCall) : Prop :=
  call.Flushes j → 3*(call.filled j).batchBuffer.length ≤ call.writes

instance (j : Journal) (call : FlushCall) : Decidable (call.Flushes j) :=
  match call with
  | .append _ elapsed _ => inferInstanceAs (Decidable (Journal.shouldFlush _ elapsed = true))
  | .flush _ => inferInstanceAs (Decidable True)

end FlushCall

def appendedBy (calls : List FlushCall) : List Command := calls.flatMap FlushCall.commands

namespace Journal

/-- One call with its answer. -/
def call (postcard : Codec Command) (crc32 : List UInt8 → UInt32) (j : Journal) : FlushCall → Journal × Bool
  | .append cmd elapsed writes => j.tryAppend postcard crc32 cmd elapsed writes
  | .flush writes => j.tryFlush postcard crc32 writes

def calls (postcard : Codec Command) (crc32 : List UInt8 → UInt32) (j : Journal) (cs : List FlushCall) : Journal :=
  cs.foldl (fun j c => (j.call postcard crc32 c).1) j

theorem call_eq (j : Journal) (c : FlushCall) : j.call postcard crc32 c =
    if c.Flushes j then (c.filled j).tryFlush postcard crc32 c.writes else (c.filled j,true) := by
  cases c with
  | append cmd elapsed writes => rfl
  | flush writes =>
    rw [if_pos (show FlushCall.Flushes j (.flush writes) from trivial)]
    simp only [call,FlushCall.filled,FlushCall.commands,List.append_nil]
    rfl

variable {j : Journal} {log : List Command}

theorem Intact.filled (h : Intact postcard crc32 j log) (c : FlushCall) :
    Intact postcard crc32 (c.filled j) (log ++ c.commands) := by
  obtain ⟨written,hfile,hlog⟩ := h
  exact ⟨written,hfile,by rw [← hlog,List.append_assoc]; rfl⟩

theorem Intact.call (h : Intact postcard crc32 j log) {c : FlushCall} (hw : c.WritesAll j) :
    Intact postcard crc32 (j.call postcard crc32 c).1 (log ++ c.commands) := by
  rw [call_eq]
  split_ifs with hflush
  · rw [tryFlush_all (hw hflush)]
    exact (h.filled c).flush
  · exact h.filled c

/-- A call that fails is recovered from exactly when it wrote all its frames. -/
theorem Intact.call_iff (h : Intact postcard crc32 j log) {c : FlushCall}
    (hfits : ∀ cmd ∈ log ++ c.commands, Fits postcard cmd) :
    ((j.call postcard crc32 c).2 = false → Recoverable postcard crc32 (j.call postcard crc32 c).1 (log ++ c.commands)) ↔
      c.WritesAll j := by
  constructor
  · intro hrec hflush
    by_contra hw
    obtain ⟨-,-,-,-,-,-,-,-,herr⟩ := tryFlush_torn postcard crc32 (Nat.lt_of_not_le hw)
    rw [call_eq,if_pos hflush] at hrec
    exact (h.filled c).not_recoverable_torn hfits (Nat.lt_of_not_le hw) (hrec herr)
  · intro hw _
    exact (h.call hw).recoverable hfits

theorem calls_concat (j : Journal) (cs : List FlushCall) (c : FlushCall) :
    j.calls postcard crc32 (cs ++ [c]) = ((j.calls postcard crc32 cs).call postcard crc32 c).1 := by
  rw [calls,List.foldl_append]
  rfl

theorem appendedBy_concat (cs : List FlushCall) (c : FlushCall) :
    appendedBy (cs ++ [c]) = appendedBy cs ++ c.commands := by
  rw [appendedBy,List.flatMap_append,List.flatMap_singleton]
  rfl

end Journal

/-- Every failed call of a run is recovered from exactly when every flush of the run writes all its frames, so
that only the sync may fail. -/
theorem Journal.calls_recoverable_iff (config : JournalConfig) {cs : List FlushCall}
    (h : ∀ cmd ∈ appendedBy cs, Fits postcard cmd) :
    (∀ pre c, pre ++ [c] <+: cs →
      (((openWithConfig [] config).calls postcard crc32 pre).call postcard crc32 c).2 = false →
        Recoverable postcard crc32 ((openWithConfig [] config).calls postcard crc32 (pre ++ [c]))
          (appendedBy (pre ++ [c]))) ↔
      ∀ pre c, pre ++ [c] <+: cs → c.WritesAll ((openWithConfig [] config).calls postcard crc32 pre) := by
  have hfits : ∀ {pre}, pre <+: cs → ∀ cmd ∈ appendedBy pre, Fits postcard cmd := by
    rintro pre ⟨post,rfl⟩ cmd hcmd
    refine h cmd ?_
    rw [appendedBy,List.flatMap_append]
    exact List.mem_append_left _ hcmd
  refine Runs.forall_iff
    (fun pre => Intact postcard crc32 ((openWithConfig [] config).calls postcard crc32 pre) (appendedBy pre))
    ⟨[],rfl,rfl⟩ (fun pre c _ hintact hw => ?_) fun pre c hpre hintact => ?_
  · rw [calls_concat,appendedBy_concat]
    exact hintact.call hw
  · rw [calls_concat,appendedBy_concat]
    exact hintact.call_iff (appendedBy_concat pre c ▸ hfits hpre)

/-- The sync fails behind two frames. -/
theorem Journal.sync_failed_recovers : Recoverable Postcard.standard.command Crc32.hash
    ((openWithConfig [] ⟨2,0⟩).calls Postcard.standard.command Crc32.hash
      [.append (.cancel ⟨1,7,1,1⟩) false 0,.append (.cancel ⟨2,8,1,1⟩) false 6])
    [.cancel ⟨1,7,1,1⟩,.cancel ⟨2,8,1,1⟩] := by
  refine (calls_recoverable_iff ⟨2,0⟩ (by decide +kernel)).mpr (fun pre c hpre => ?_)
    [.append (.cancel ⟨1,7,1,1⟩) false 0] (.append (.cancel ⟨2,8,1,1⟩) false 6) List.prefix_rfl (by decide +kernel)
  rcases List.prefix_concat_iff.mp (show pre ++ [c] <+: [_] ++ [_] from hpre) with heq | hfirst
  · obtain ⟨rfl,rfl⟩ := List.append_singleton_inj.mp heq
    exact fun _ => by decide +kernel
  · rcases List.prefix_concat_iff.mp (show pre ++ [c] <+: [] ++ [_] from hfirst) with heq | hnil
    · obtain ⟨rfl,rfl⟩ := List.append_singleton_inj.mp heq
      intro hflush
      revert hflush
      decide +kernel
    · exact absurd (List.prefix_nil.mp hnil) (by simp)

/-- The second frame's payload is not written: its command is neither on disk nor in the buffer. -/
theorem Journal.payload_failed_loses :
    ((openWithConfig [] ⟨2,0⟩).calls Postcard.standard.command Crc32.hash
      [.append (.cancel ⟨1,7,1,1⟩) false 0] |>.call Postcard.standard.command Crc32.hash
        (.append (.cancel ⟨2,8,1,1⟩) false 4)).2 = false ∧
    ¬ Recoverable Postcard.standard.command Crc32.hash
      ((openWithConfig [] ⟨2,0⟩).calls Postcard.standard.command Crc32.hash
        [.append (.cancel ⟨1,7,1,1⟩) false 0,.append (.cancel ⟨2,8,1,1⟩) false 4])
      [.cancel ⟨1,7,1,1⟩,.cancel ⟨2,8,1,1⟩] := by
  refine ⟨by decide +kernel,fun hrec => ?_⟩
  have hread := hrec.readBack [] fun e he => absurd he List.not_mem_nil
  revert hread
  decide +kernel

end FailedFlush
end HighPerfTrading
