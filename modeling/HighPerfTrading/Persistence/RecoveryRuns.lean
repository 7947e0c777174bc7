import HighPerfTrading.Persistence.Recovery
import Mathlib.Logic.Function.Basic

/-! Runs of the engine process over any number of crashes, beside the true history of its
commands: which were processed, which reached the journal, which were rotated away. A restart
is right when it replays the history's commands since the loaded snapshot. -/
namespace HighPerfTrading

/-- A command with the number of commands processed before it. -/
abbrev Stamped := ℕ × Command

/-- The history of a run. `taken` says when the snapshot under a name was taken. -/
structure History where
  time : ℕ
  processed : List Stamped
  rotated : List Stamped
  disk : List Stamped
  buffered : List Stamped
  taken : String → ℕ

namespace History

def empty : History := ⟨0,[],[],[],[],fun _ => 0⟩

/-- Every command that is in a journal file or on its way to one. -/
def log (g : History) : List Stamped := g.rotated ++ (g.disk ++ g.buffered)

def journaled (g : History) (cmd : Command) (flushed : Bool) : History :=
  { g with
    time := g.time+1
    processed := g.processed ++ [(g.time,cmd)]
    disk := if flushed then g.disk ++ (g.buffered ++ [(g.time,cmd)]) else g.disk
    buffered := if flushed then [] else g.buffered ++ [(g.time,cmd)] }

def snapshot (g : History) (name : String) : History :=
  { g with taken := Function.update g.taken name g.time }

def rotate (g : History) : History :=
  { g with rotated := g.rotated ++ (g.disk ++ g.buffered), disk := [], buffered := [] }

def flush (g : History) : History := { g with disk := g.disk ++ g.buffered, buffered := [] }

/-- The buffer is lost. -/
def crash (g : History) : History := { g with buffered := [] }

end History

section Runs
variable {S : Type} [Slab S Order] (postcard : Postcard) (crc32 : List UInt8 → UInt32)

/-- Does the append of a command end in a flush? -/
def Server.flushes (sv : Server S) (cmd : Command) (elapsed : Bool) : Bool :=
  ({ sv.journal with batchBuffer := sv.journal.batchBuffer ++ [cmd] } : Journal).shouldFlush elapsed

namespace History

def snapshotIfDue (g : History) (sv : Server S) : History :=
  if sv.snapshotDue then g.snapshot (Snapshot.fileName sv.engine.commandSeq) else g

def rotateIfDue (g : History) (sv : Server S) : History := if sv.journal.shouldRotate then g.rotate else g

/-- The history's side of one pass of the loop. -/
def step (g : History) (sv : Server S) (cmd : Command) (elapsed : Bool) : History :=
  let sv₁ := (sv.journaled postcard crc32 cmd elapsed).processed cmd
  let g₁ := (g.journaled cmd (sv.flushes cmd elapsed)).snapshotIfDue sv₁
  g₁.rotateIfDue (sv₁.snapshotIfDue postcard crc32)

end History

/-- The formats have room: the payload is one that `read_all` accepts, the snapshot's length
fits its header and the command count its counter. -/
structure StepFits (sv : Server S) (cmd : Command) : Prop where
  payload : Fits postcard.command cmd
  snapshot : ((sv.processed cmd).engine.snapshotData postcard).length < 2^32
  count : sv.engine.commandSeq.toNat+1 < 2^64

instance (sv : Server S) (cmd : Command) : Decidable (StepFits postcard sv cmd) :=
  decidable_of_iff (Fits postcard.command cmd ∧ ((sv.processed cmd).engine.snapshotData postcard).length < 2^32 ∧
    sv.engine.commandSeq.toNat+1 < 2^64) ⟨fun h => ⟨h.1,h.2.1,h.2.2⟩,fun h => ⟨h.payload,h.snapshot,h.count⟩⟩

/-- Runs from an empty disk. Every life may have its own configuration; `crashes` says from
which states the process may crash and be restarted. -/
inductive Run (crashes : Server S → Prop) : Server S → History → Prop
  | start (config : JournalConfig) (interval : UInt64) :
      Run crashes (Server.start postcard crc32 config interval [] ∅ ∅) History.empty
  | step {sv : Server S} {g : History} (h : Run crashes sv g) (cmd : Command) (elapsed : Bool)
      (timestamp : UInt64) (hf : StepFits postcard sv cmd) :
      Run crashes (sv.step postcard crc32 cmd elapsed timestamp) (g.step postcard crc32 sv cmd elapsed)
  | shutdown {sv : Server S} {g : History} (h : Run crashes sv g) :
      Run crashes (sv.shutdown postcard crc32) g.flush
  | restart {sv : Server S} {g : History} (h : Run crashes sv g) (config : JournalConfig)
      (interval : UInt64) (hc : crashes sv) :
      Run crashes (sv.restart postcard crc32 config interval) g.crash

/-- The commands from a time on. -/
def since (es : List Stamped) (time : ℕ) : List Command :=
  (es.filter fun e => decide (time ≤ e.1)).map Prod.snd

/-- The time of the snapshot a restart would load. -/
def Server.takenAt (sv : Server S) (g : History) : ℕ := sv.snapshots.last?.elim 0 fun e => g.taken e.1

/-! ### Snapshots on the time line -/

/-- A snapshot of sequence `seq` was taken at time `taken`: the first `seq` commands of the
log came before it and the others after. -/
structure Mark (log : List Stamped) (time seq taken : ℕ) : Prop where
  le : seq ≤ log.length
  past : taken ≤ time
  before : ∀ e ∈ log.take seq, e.1 < taken
  after : ∀ e ∈ log.drop seq, taken ≤ e.1

namespace Mark
variable {log : List Stamped} {time seq taken : ℕ}

theorem now (h : ∀ e ∈ log, e.1 < time) : Mark log time log.length time :=
  ⟨Nat.le_refl _,Nat.le_refl _,by simpa using h,by simp⟩

theorem append (h : Mark log time seq taken) (cmd : Command) :
    Mark (log ++ [(time,cmd)]) (time+1) seq taken where
  le := by rw [List.length_append]; exact Nat.le_add_right_of_le h.le
  past := Nat.le_succ_of_le h.past
  before := by rw [List.take_append_of_le_length h.le]; exact h.before
  after := by
    rw [List.drop_append_of_le_length h.le]
    intro e he
    rcases List.mem_append.mp he with he | he
    · exact h.after e he
    · rw [List.mem_singleton.mp he]; exact h.past

/-- Of any prefix of the log, the commands since the snapshot are those past `seq`. -/
theorem filter_prefix {front rest : List Stamped} (h : Mark (front ++ rest) time seq taken) :
    (front.filter fun e => decide (taken ≤ e.1)) = front.drop seq := by
  have hb : ∀ e ∈ front.take seq, ¬ taken ≤ e.1 := fun e he =>
    Nat.not_le.mpr (h.before e (by rw [List.take_append]; exact List.mem_append_left _ he))
  have ha : ∀ e ∈ front.drop seq, taken ≤ e.1 := fun e he =>
    h.after e (by rw [List.drop_append]; exact List.mem_append_left _ he)
  calc (front.filter fun e => decide (taken ≤ e.1))
      = ((front.take seq ++ front.drop seq).filter fun e => decide (taken ≤ e.1)) := by
        rw [List.take_append_drop]
    _ = front.drop seq := by
        rw [List.filter_append,List.filter_eq_nil_iff.mpr (by simpa using hb),
          List.filter_eq_self.mpr (by simpa using ha),List.nil_append]

theorem front {front rest : List Stamped} (h : Mark (front ++ rest) time seq taken)
    (hl : seq ≤ front.length) : Mark front time seq taken where
  le := hl
  past := h.past
  before e he := h.before e (by rw [List.take_append]; exact List.mem_append_left _ he)
  after e he := h.after e (by rw [List.drop_append]; exact List.mem_append_left _ he)

end Mark

/-! ### The invariant -/

/-- The files and counters agree with the history. -/
structure Tracks (sv : Server S) (g : History) : Prop where
  file : sv.journal.file = (g.disk.map Prod.snd).flatMap (writeFrame postcard.command crc32)
  buffer : sv.journal.batchBuffer = g.buffered.map Prod.snd
  fits : ∀ e ∈ g.log, Fits postcard.command e.2
  count : sv.engine.commandSeq.toNat = g.log.length
  times : ∀ e ∈ g.log, e.1 < g.time
  backups : sv.backups = ∅ ↔ g.rotated = []
  since : sv.journal.commandsSinceRotation ≠ 0 → g.disk ≠ []
  latest : ∀ name bs, sv.snapshots.last? = some (name,bs) → ∃ (e : Engine S) (seq : UInt64),
    bs = (⟨seq,e.snapshotData postcard⟩ : Snapshot).fileBytes crc32 ∧
      (e.snapshotData postcard).length < 2^32 ∧ Mark g.log g.time seq.toNat (g.taken name)

namespace History

theorem log_journaled (g : History) (cmd : Command) (flushed : Bool) :
    (g.journaled cmd flushed).log = g.log ++ [(g.time,cmd)] := by
  cases flushed <;> simp [journaled,log]

theorem taken_snapshot_self (g : History) (name : String) : (g.snapshot name).taken name = g.time :=
  Function.update_self ..

theorem taken_snapshot_of_ne (g : History) {name other : String} (h : other ≠ name) :
    (g.snapshot name).taken other = g.taken other :=
  Function.update_of_ne h ..

@[simp] theorem log_rotate (g : History) : g.rotate.log = g.log := by simp [rotate,log]

@[simp] theorem log_flush (g : History) : g.flush.log = g.log := by simp [flush,log]

end History

namespace Tracks
variable {postcard crc32} {sv : Server S} {g : History}

theorem flush (h : Tracks postcard crc32 sv g) : Tracks postcard crc32 (sv.shutdown postcard crc32) g.flush where
  file := by
    simp only [Server.shutdown,Journal.flush,History.flush,h.file,h.buffer,List.map_append,List.flatMap_append]
  buffer := rfl
  fits := by rw [History.log_flush]; exact h.fits
  count := by rw [History.log_flush]; exact h.count
  times := by rw [History.log_flush]; exact h.times
  backups := h.backups
  since hs := by
    intro hnil
    obtain ⟨hd,hb⟩ := List.append_eq_nil_iff.mp hnil
    refine h.since (fun h0 => hs ?_) hd
    simp only [Server.shutdown,Journal.flush,h0,h.buffer,hb,List.map_nil,List.length_nil]
    rfl
  latest := by rw [History.log_flush]; exact h.latest

theorem buffered (h : Tracks postcard crc32 sv g) (cmd : Command) (hf : Fits postcard.command cmd)
    (hc : sv.engine.commandSeq.toNat+1 < 2^64) :
    Tracks postcard crc32
      (({ sv with journal := { sv.journal with batchBuffer := sv.journal.batchBuffer ++ [cmd] } } :
        Server S).processed cmd)
      (g.journaled cmd false) where
  file := h.file
  buffer := by simp [Server.processed,History.journaled,h.buffer]
  fits e he := by
    rw [History.log_journaled] at he
    rcases List.mem_append.mp he with he | he
    · exact h.fits e he
    · rw [List.mem_singleton.mp he]; exact hf
  count := by
    have hseq : (sv.engine.live cmd).commandSeq = sv.engine.commandSeq+1 :=
      congrArg (· + 1) (sv.engine.process_commandSeq cmd)
    rw [History.log_journaled,List.length_append,← h.count]
    change (sv.engine.live cmd).commandSeq.toNat = _
    rw [hseq,UInt64.toNat_add]
    exact Nat.mod_eq_of_lt hc
  times e he := by
    rw [History.log_journaled] at he
    rcases List.mem_append.mp he with he | he
    · exact Nat.lt_succ_of_lt (h.times e he)
    · rw [List.mem_singleton.mp he]; exact Nat.lt_succ_self _
  backups := h.backups
  since := h.since
  latest name bs hl := by
    obtain ⟨e,seq,hbs,hlen,hm⟩ := h.latest name bs hl
    refine ⟨e,seq,hbs,hlen,?_⟩
    rw [History.log_journaled]
    exact hm.append cmd

/-- An append is a buffering with or without a flush. -/
theorem journaled (h : Tracks postcard crc32 sv g) (cmd : Command) (elapsed : Bool)
    (hf : Fits postcard.command cmd) (hc : sv.engine.commandSeq.toNat+1 < 2^64) :
    Tracks postcard crc32 ((sv.journaled postcard crc32 cmd elapsed).processed cmd)
      (g.journaled cmd (sv.flushes cmd elapsed)) := by
  simp only [Server.journaled,Journal.append,Server.flushes]
  split_ifs with hflush
  · rw [hflush]; exact (h.buffered cmd hf hc).flush
  · rw [Bool.not_eq_true] at hflush
    rw [hflush]; exact h.buffered cmd hf hc

/-- Other files in the directory change nothing but the latest snapshot. -/
theorem withSnapshots (h : Tracks postcard crc32 sv g) (dir : SnapshotDir) (saved : String)
    (hl : ∀ name bs, dir.last? = some (name,bs) → ∃ (e : Engine S) (seq : UInt64),
      bs = (⟨seq,e.snapshotData postcard⟩ : Snapshot).fileBytes crc32 ∧
        (e.snapshotData postcard).length < 2^32 ∧
        Mark g.log g.time seq.toNat ((g.snapshot saved).taken name)) :
    Tracks postcard crc32 { sv with snapshots := dir } (g.snapshot saved) :=
  ⟨h.file,h.buffer,h.fits,h.count,h.times,h.backups,h.since,hl⟩

theorem snapshot (h : Tracks postcard crc32 sv g) (hlen : (sv.engine.snapshotData postcard).length < 2^32) :
    Tracks postcard crc32 (sv.takeSnapshot postcard crc32)
      (g.snapshot (Snapshot.fileName sv.engine.commandSeq)) := by
  refine h.withSnapshots _ _ fun name bs hl => ?_
  rcases Snapshot.last?_save sv.snapshots ⟨sv.engine.commandSeq,sv.engine.snapshotData postcard⟩
    (Nat.succ_pos 2) with hnew | ⟨hold,hne⟩
  · rw [hnew] at hl
    obtain ⟨rfl,rfl⟩ := Prod.mk.inj (Option.some.inj hl)
    refine ⟨sv.engine,sv.engine.commandSeq,rfl,hlen,?_⟩
    rw [History.taken_snapshot_self,h.count]
    exact Mark.now h.times
  · rw [hold] at hl
    obtain ⟨e,seq,hbs,hlen',hm⟩ := h.latest name bs hl
    have hname : name ≠ Snapshot.fileName sv.engine.commandSeq := by
      intro hn
      exact hne bs (by rw [hl,hn])
    refine ⟨e,seq,hbs,hlen',?_⟩
    rw [History.taken_snapshot_of_ne g hname]
    exact hm

theorem snapshotIfDue (h : Tracks postcard crc32 sv g) (hlen : (sv.engine.snapshotData postcard).length < 2^32) :
    Tracks postcard crc32 (sv.snapshotIfDue postcard crc32) (g.snapshotIfDue sv) := by
  simp only [Server.snapshotIfDue,History.snapshotIfDue]
  split_ifs with hdue
  · exact h.snapshot hlen
  · exact h

theorem rotated (h : Tracks postcard crc32 sv g) (hr : sv.journal.shouldRotate = true) (timestamp : UInt64) :
    Tracks postcard crc32
      { sv with
        journal := (sv.journal.rotate postcard.command crc32).1
        backups := sv.backups.insert timestamp (sv.journal.rotate postcard.command crc32).2 } g.rotate where
  file := rfl
  buffer := rfl
  fits := by rw [History.log_rotate]; exact h.fits
  count := by rw [History.log_rotate]; exact h.count
  times := by rw [History.log_rotate]; exact h.times
  backups := by
    have hdisk : g.disk ≠ [] := by
      refine h.since fun h0 => ?_
      simp only [Journal.shouldRotate,h0,Bool.and_eq_true,decide_eq_true_eq] at hr
      exact absurd (UInt64.lt_of_lt_of_le hr.1 hr.2) (UInt64.lt_irrefl 0)
    constructor
    · intro he
      have hget := congrArg (·[timestamp]?) he
      simp at hget
    · intro he
      simp [History.rotate,hdisk] at he
  since hs := absurd rfl hs
  latest := by rw [History.log_rotate]; exact h.latest

theorem rotateIfDue (h : Tracks postcard crc32 sv g) (timestamp : UInt64) :
    Tracks postcard crc32 (sv.rotateIfDue postcard crc32 timestamp) (g.rotateIfDue sv) := by
  simp only [Server.rotateIfDue,History.rotateIfDue]
  split_ifs with hr
  · exact h.rotated hr timestamp
  · exact h

/-- One pass of the loop. -/
theorem step (h : Tracks postcard crc32 sv g) (cmd : Command) (elapsed : Bool) (timestamp : UInt64)
    (hf : StepFits postcard sv cmd) :
    Tracks postcard crc32 (sv.step postcard crc32 cmd elapsed timestamp) (g.step postcard crc32 sv cmd elapsed) :=
  ((h.journaled cmd elapsed hf.payload hf.count).snapshotIfDue hf.snapshot).rotateIfDue timestamp

/-! ### A restart -/

theorem latestSnapshot (h : Tracks postcard crc32 sv g) :
    (sv.snapshots.last? = none ∧ Snapshot.loadLatest crc32 sv.snapshots = .ok none) ∨
    ∃ (name : String) (bs : List UInt8) (e : Engine S) (seq : UInt64),
      sv.snapshots.last? = some (name,bs) ∧
      Snapshot.loadLatest crc32 sv.snapshots = .ok (some ⟨seq,e.snapshotData postcard⟩) ∧
      Mark g.log g.time seq.toNat (g.taken name) := by
  cases hl : sv.snapshots.last? with
  | none =>
    left
    exact ⟨rfl,by simp only [Snapshot.loadLatest,hl]⟩
  | some entry =>
    right
    obtain ⟨name,bs⟩ := entry
    obtain ⟨e,seq,rfl,hlen,hm⟩ := h.latest name bs hl
    exact ⟨name,_,e,seq,rfl,Snapshot.loadLatest_eq hl hlen,hm⟩

theorem replayStart (h : Tracks postcard crc32 sv g) :
    Mark g.log g.time (sv.replayStart crc32) (sv.takenAt g) := by
  rcases h.latestSnapshot with ⟨hl,hload⟩ | ⟨name,bs,e,seq,hl,hload,hm⟩
  · simp only [Server.replayStart,Server.takenAt,hl,hload]
    exact ⟨Nat.zero_le _,Nat.zero_le _,by simp,by simp⟩
  · simp only [Server.replayStart,Server.takenAt,hl,hload]
    exact hm

theorem loadLatest (h : Tracks postcard crc32 sv g) : ∃ e : Engine S,
    (Engine.new : Engine S).loadLatest postcard crc32 sv.snapshots = (e,.ok ()) ∧
      e.commandSeq.toNat = sv.replayStart crc32 := by
  rcases h.latestSnapshot with ⟨hl,hload⟩ | ⟨name,bs,e,seq,hl,hload,hm⟩
  · simp only [Engine.loadLatest,Server.replayStart,hload]
    exact ⟨_,rfl,rfl⟩
  · simp only [Engine.loadLatest,Server.replayStart,hload,Engine.loadSnapshot,Engine.snapshotData,
      Codec.decode_encode,OrderBook.restoreFromSnapshot,OrderBook.serializeSnapshot,Option.map_some]
    exact ⟨_,rfl,rfl⟩

theorem readAll (h : Tracks postcard crc32 sv g) :
    readAll postcard.command crc32 sv.journal.file = .ok (g.disk.map Prod.snd) := by
  rw [h.file]
  refine readAll_frames fun cmd hc => ?_
  obtain ⟨e,he,rfl⟩ := List.mem_map.mp hc
  exact h.fits e (by simp [History.log,he])

end Tracks

/-- Recovery starts from the latest snapshot and replays exactly these commands. -/
def Server.Recovers (sv : Server S) (cmds : List Command) : Prop :=
  ∃ e : Engine S, (Engine.new : Engine S).loadLatest postcard crc32 sv.snapshots = (e,.ok ()) ∧
    (Engine.new : Engine S).restoreFromPersistence postcard crc32 sv.snapshots sv.journal.file =
      (e.replay cmds,.ok cmds)

variable {postcard crc32} in
theorem Server.Recovers.replayed {sv : Server S} {cmds : List Command} (h : sv.Recovers postcard crc32 cmds) :
    ((Engine.new : Engine S).restoreFromPersistence postcard crc32 sv.snapshots sv.journal.file).2 = .ok cmds := by
  obtain ⟨e,-,hr⟩ := h
  rw [hr]

namespace Tracks
variable {postcard crc32} {sv : Server S} {g : History}

/-- Recovery indexes the current journal file by the snapshot's lifetime count. -/
theorem restore (h : Tracks postcard crc32 sv g) : ∃ e : Engine S,
    (Engine.new : Engine S).loadLatest postcard crc32 sv.snapshots = (e,.ok ()) ∧
    e.commandSeq.toNat = sv.replayStart crc32 ∧
    (Engine.new : Engine S).restoreFromPersistence postcard crc32 sv.snapshots sv.journal.file =
      (e.replay ((g.disk.map Prod.snd).drop (sv.replayStart crc32)),
        .ok ((g.disk.map Prod.snd).drop (sv.replayStart crc32))) := by
  obtain ⟨e,he,hseq⟩ := h.loadLatest
  refine ⟨e,he,hseq,?_⟩
  have hcmds : (if sv.replayStart crc32 < (g.disk.map Prod.snd).length
      then (g.disk.map Prod.snd).drop (sv.replayStart crc32) else []) =
      (g.disk.map Prod.snd).drop (sv.replayStart crc32) := by
    split_ifs with hlt
    · rfl
    · rw [List.drop_eq_nil_of_le (Nat.le_of_not_lt hlt)]
  simp only [Engine.restoreFromPersistence,he,Engine.replayJournal,h.readAll,hseq,hcmds]

theorem recovers_iff (h : Tracks postcard crc32 sv g) (cmds : List Command) :
    sv.Recovers postcard crc32 cmds ↔ (g.disk.map Prod.snd).drop (sv.replayStart crc32) = cmds := by
  obtain ⟨e,he,-,hr⟩ := h.restore
  constructor
  · intro hrec
    have hreplayed := hrec.replayed
    rw [hr] at hreplayed
    exact Except.ok.inj hreplayed
  · intro hc
    rw [hc] at hr
    exact ⟨e,he,hr⟩

end Tracks

/-! ### Runs -/

/-- Crashes that keep the count of commands and the journal's index together: nothing has been
rotated away and the file reaches the snapshot, or the snapshot covers every frame there ever
was. -/
def SafeCrash (sv : Server S) (g : History) : Prop :=
  (g.rotated = [] ∧ sv.replayStart crc32 ≤ g.disk.length) ∨
    sv.replayStart crc32 = (g.rotated ++ g.disk).length

omit [Slab S Order] in
theorem SafeCrash.max_eq {sv : Server S} {g : History} (h : SafeCrash crc32 sv g) :
    sv.replayStart crc32 + (g.disk.length - sv.replayStart crc32) = (g.rotated ++ g.disk).length := by
  rw [List.length_append]
  rcases h with ⟨hr,hle⟩ | heq
  · rw [hr,List.length_nil]; omega
  · rw [List.length_append] at heq; omega

namespace Tracks
variable {postcard crc32} {sv : Server S} {g : History}

theorem restart (h : Tracks postcard crc32 sv g) (hs : SafeCrash crc32 sv g) (config : JournalConfig)
    (interval : UInt64) : Tracks postcard crc32 (sv.restart postcard crc32 config interval) g.crash := by
  have hlog : g.log = g.crash.log ++ g.buffered := by simp [History.log,History.crash]
  have hcrash : g.crash.log = g.rotated ++ g.disk := by simp [History.log,History.crash]
  have hstart : sv.replayStart crc32 ≤ (g.rotated ++ g.disk).length := by
    rw [← hs.max_eq]; exact Nat.le_add_right _ _
  refine ⟨h.file,rfl,fun e he => h.fits e ?_,?_,fun e he => h.times e ?_,h.backups,fun hc => absurd rfl hc,?_⟩
  · rw [hlog]; exact List.mem_append_left _ he
  · obtain ⟨e,-,hseq,hr⟩ := h.restore
    change ((Engine.new : Engine S).restoreFromPersistence postcard crc32 sv.snapshots
      sv.journal.file).1.commandSeq.toNat = _
    have hbound : g.crash.log.length < 2^64 := by
      have hlt := sv.engine.commandSeq.toNat_lt
      rw [h.count,hlog,List.length_append] at hlt
      omega
    rw [hr,hcrash,← hs.max_eq]
    rw [hcrash,← hs.max_eq] at hbound
    simp only [Engine.replay_commandSeq,List.length_drop,List.length_map,UInt64.toNat_add,
      UInt64.toNat_ofNat',hseq]
    have hn : g.disk.length-sv.replayStart crc32 < 2^64 := by omega
    rw [Nat.mod_eq_of_lt hn,Nat.mod_eq_of_lt hbound]
  · rw [hlog]; exact List.mem_append_left _ he
  · intro name bs hl
    obtain ⟨e,seq,hbs,hlen,hm⟩ := h.latest name bs hl
    refine ⟨e,seq,hbs,hlen,?_⟩
    rw [hlog] at hm
    refine hm.front ?_
    have hload : Snapshot.loadLatest crc32 sv.snapshots = .ok (some ⟨seq,e.snapshotData postcard⟩) := by
      rw [hbs] at hl
      exact Snapshot.loadLatest_eq hl hlen
    have hseq : sv.replayStart crc32 = seq.toNat := by simp only [Server.replayStart,hload]
    rw [hcrash,← hseq]
    exact hstart

end Tracks

namespace Run
variable {postcard crc32} {sv : Server S} {g : History} {crashes : Server S → Prop}

theorem tracks_start (config : JournalConfig) (interval : UInt64) :
    Tracks postcard crc32 (Server.start postcard crc32 config interval [] ∅ ∅ : Server S) History.empty where
  file := rfl
  buffer := rfl
  fits := by simp [History.empty,History.log]
  count := rfl
  times := by simp [History.empty,History.log]
  backups := ⟨fun _ => rfl,fun _ => rfl⟩
  since hc := absurd rfl hc
  latest name bs hl := by
    have hnone : (∅ : SnapshotDir).last? = none := OrdMap.last?_eq_none.mpr (by simp)
    rw [show (Server.start postcard crc32 config interval [] ∅ ∅ : Server S).snapshots = ∅ from rfl,hnone] at hl
    cases hl

/-- The invariant lives through crashes that are safe. -/
theorem tracks (h : Run postcard crc32 crashes sv g)
    (hs : ∀ sv g, Tracks postcard crc32 sv g → crashes sv → SafeCrash crc32 sv g) :
    Tracks postcard crc32 sv g := by
  induction h with
  | start config interval => exact tracks_start config interval
  | step _ cmd elapsed timestamp hf ih => exact ih.step cmd elapsed timestamp hf
  | shutdown _ ih => exact ih.flush
  | restart _ config interval hc ih => exact ih.restart (hs _ _ ih hc) config interval

/-- Without losses at a crash every processed command is in the log. -/
theorem processed_eq_log (h : Run postcard crc32 crashes sv g)
    (hs : ∀ sv g, Tracks postcard crc32 sv g → crashes sv → SafeCrash crc32 sv g)
    (hb : ∀ sv, crashes sv → sv.journal.batchBuffer = []) : g.processed = g.log := by
  induction h with
  | start config interval => rfl
  | @step sv g _ cmd elapsed timestamp hf ih =>
    have hp : ∀ (g : History) (sv : Server S), g.processed = g.log →
        (g.snapshotIfDue sv).processed = (g.snapshotIfDue sv).log := by
      intro g sv hg
      unfold History.snapshotIfDue
      split_ifs <;> exact hg
    have hr : ∀ (g : History) (sv : Server S), g.processed = g.log →
        (g.rotateIfDue sv).processed = (g.rotateIfDue sv).log := by
      intro g sv hg
      unfold History.rotateIfDue
      split_ifs
      · rw [History.log_rotate]; exact hg
      · exact hg
    refine hr _ _ (hp _ _ ?_)
    rw [History.log_journaled,← ih]
    rfl
  | shutdown _ ih => rw [History.log_flush]; exact ih
  | @restart sv g hrun config interval hc ih =>
    have hbuf := (hrun.tracks hs).buffer
    rw [hb _ hc] at hbuf
    have hnil : g.buffered = [] := List.map_eq_nil_iff.mp hbuf.symm
    rw [History.crash,← hnil]
    exact ih

end Run

end Runs
end HighPerfTrading
