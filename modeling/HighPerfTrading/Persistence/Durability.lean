import HighPerfTrading.Engine.Alike
import HighPerfTrading.Persistence.RecoveryRuns
import Mathlib.Logic.Relation

/-! Durability of the engine process. Through any number of crashes the process shows the market in which exactly
the surviving commands were processed, and a command that has once reached a journal file survives. -/
namespace HighPerfTrading

namespace History

/-- The commands whose effects the process has. -/
def commands (g : History) : List Command := g.log.map Prod.snd

/-- What has reached a journal file. -/
def durable (g : History) : List Stamped := g.rotated ++ g.disk

theorem log_eq (g : History) : g.log = g.durable ++ g.buffered := (List.append_assoc ..).symm

theorem commands_journaled (g : History) (cmd : Command) (flushed : Bool) :
    (g.journaled cmd flushed).commands = g.commands ++ [cmd] := by
  rw [commands,log_journaled,List.map_append]
  rfl

end History

section Durable
variable {S : Type} [Slab S Order] (postcard : Postcard) (crc32 : List UInt8 → UInt32)
open Engine OrderBook

/-- The loop can take a command: it fits the formats, it is orderly, and if a snapshot falls due after it then no
level's time order differs from its slab order. -/
structure Takes (sv : Server S) (cmd : Command) : Prop where
  fits : StepFits postcard sv cmd
  redoable : sv.engine.Redoable cmd
  snapshot : (sv.processed cmd).snapshotDue = true → SnapshotSafe (sv.processed cmd).engine.book

/-- What can happen to a process: a pass of its loop, a shutdown, or a crash and a restart under any configuration. -/
inductive Moves : Server S × History → Server S × History → Prop
  | step {sv : Server S} {g : History} (cmd : Command) (elapsed : Bool) (timestamp : UInt64) (h : Takes postcard sv cmd) :
      Moves (sv,g) (sv.step postcard crc32 cmd elapsed timestamp,g.step postcard crc32 sv cmd elapsed)
  | shutdown {sv : Server S} {g : History} : Moves (sv,g) (sv.shutdown postcard crc32,g.flush)
  | restart {sv : Server S} {g : History} (config : JournalConfig) (interval : UInt64) (hs : SafeCrash crc32 sv g) :
      Moves (sv,g) (sv.restart postcard crc32 config interval,g.crash)

/-- Every command of a log could be redone where it was processed. -/
abbrev Redone (cmds : List Command) : Prop :=
  RedoLog.Allowed (fun (e : Engine S) cmd => (e.process cmd).1) Redoable new cmds

/-- The process and its latest snapshot show markets of its log. -/
structure Holds (sv : Server S) (g : History) : Prop where
  tracks : Tracks postcard crc32 sv g
  redone : Redone (S := S) g.commands
  engine : Alike ((new : Engine S).after g.commands) sv.engine
  latest : ∀ name bs, sv.snapshots.last? = some (name,bs) → ∃ (e : Engine S) (seq : UInt64),
    bs = (⟨seq,e.snapshotData postcard⟩ : Snapshot).fileBytes crc32 ∧ (e.snapshotData postcard).length < 2^32 ∧
      seq.toNat ≤ g.log.length ∧ SnapshotSafe e.book ∧ Alike ((new : Engine S).after (g.commands.take seq.toNat)) e

namespace Holds
variable {postcard crc32} {sv : Server S} {g : History}

theorem journaled (h : Holds postcard crc32 sv g) {cmd : Command} (ht : Takes postcard sv cmd) (elapsed : Bool) :
    Holds postcard crc32 ((sv.journaled postcard crc32 cmd elapsed).processed cmd)
      (g.journaled cmd (sv.flushes cmd elapsed)) where
  tracks := h.tracks.journaled cmd elapsed ht.fits.payload ht.fits.count
  redone := by
    rw [History.commands_journaled]
    exact RedoLog.allowed_append.mpr ⟨h.redone,h.engine.redoable.mpr ht.redoable,trivial⟩
  engine := by
    rw [History.commands_journaled,after_append]
    exact follows_live h.engine (h.engine.redoable.mpr ht.redoable)
  latest name bs hl := by
    obtain ⟨e,seq,hbs,hlen,hseq,hsafe,halike⟩ := h.latest name bs hl
    have hlog : g.commands.length = g.log.length := List.length_map ..
    refine ⟨e,seq,hbs,hlen,?_,hsafe,?_⟩
    · rw [History.log_journaled,List.length_append]
      exact Nat.le_add_right_of_le hseq
    · rw [History.commands_journaled,List.take_append_of_le_length (hlog ▸ hseq)]
      exact halike

theorem snapshotIfDue (h : Holds postcard crc32 sv g) (hlen : (sv.engine.snapshotData postcard).length < 2^32)
    (hsafe : sv.snapshotDue = true → SnapshotSafe sv.engine.book) :
    Holds postcard crc32 (sv.snapshotIfDue postcard crc32) (g.snapshotIfDue sv) := by
  have ht := h.tracks.snapshotIfDue hlen
  unfold Server.snapshotIfDue History.snapshotIfDue at ht ⊢
  split_ifs at ht ⊢ with hdue
  · refine ⟨ht,h.redone,h.engine,fun name bs hl => ?_⟩
    rcases Snapshot.last?_save sv.snapshots ⟨sv.engine.commandSeq,sv.engine.snapshotData postcard⟩
      (Nat.succ_pos 2) with hnew | ⟨hold,-⟩
    · obtain ⟨-,rfl⟩ := Prod.mk.inj (Option.some.inj (hnew.symm.trans hl))
      have hall : g.commands.take sv.engine.commandSeq.toNat = g.commands := by
        rw [h.tracks.count,History.commands,List.take_of_length_le (List.length_map ..).le]
      refine ⟨sv.engine,sv.engine.commandSeq,rfl,hlen,h.tracks.count.le,hsafe hdue,?_⟩
      have halike := h.engine
      rwa [← hall] at halike
    · exact h.latest name bs (hold.symm.trans hl)
  · exact h

/-- The log is the same when its files are moved. -/
theorem moved (h : Holds postcard crc32 sv g) {sv' : Server S} {g' : History} (ht : Tracks postcard crc32 sv' g')
    (he : sv'.engine = sv.engine) (hd : sv'.snapshots = sv.snapshots) (hl : g'.log = g.log) :
    Holds postcard crc32 sv' g' := by
  have hc : g'.commands = g.commands := congrArg (List.map Prod.snd) hl
  exact ⟨ht,by rw [hc]; exact h.redone,by rw [hc,he]; exact h.engine,by rw [hc,hd,hl]; exact h.latest⟩

theorem rotateIfDue (h : Holds postcard crc32 sv g) (timestamp : UInt64) :
    Holds postcard crc32 (sv.rotateIfDue postcard crc32 timestamp) (g.rotateIfDue sv) := by
  have ht := h.tracks.rotateIfDue timestamp
  unfold Server.rotateIfDue History.rotateIfDue at ht ⊢
  split_ifs at ht ⊢ with hr
  · exact h.moved ht rfl rfl g.log_rotate
  · exact h

theorem step (h : Holds postcard crc32 sv g) {cmd : Command} (ht : Takes postcard sv cmd) (elapsed : Bool)
    (timestamp : UInt64) :
    Holds postcard crc32 (sv.step postcard crc32 cmd elapsed timestamp) (g.step postcard crc32 sv cmd elapsed) :=
  ((h.journaled ht elapsed).snapshotIfDue ht.fits.snapshot ht.snapshot).rotateIfDue timestamp

/-! ### A restart -/

/-- A snapshot in slab order loads as an engine of the same market. -/
theorem loaded {e : Engine S} (he : Inv e.book) (hs : SnapshotSafe e.book) (hsym : e.book.symbolId = 1)
    (count : UInt64) :
    Alike e ⟨count+1,count,(new : Engine S).book.restoreOrders e.book.liveOrders,e.accountManager⟩ := by
  obtain ⟨hw,-,-⟩ := restoreOrders_spec he.toWf.restorable (new : Engine S).book
  have hview := hs.sameView he.toWf (new : Engine S).book
  have hinv : Inv ((new : Engine S).book.restoreOrders e.book.liveOrders) := by
    refine ⟨hw,⟨fun {s p t os} hv => he.total ((hview.level s p).trans hv)⟩,fun {id o} ho => ?_⟩
    rw [← hview.level]
    exact he.reach ((hview.get id).trans ho)
  have hsymbol : ∀ (os : List Order) (b : OrderBook S), (os.foldl insertResting b).symbolId = b.symbolId := by
    intro os b
    induction os generalizing b with
    | nil => rfl
    | cons o os ih => exact (ih _).trans (setLevels_symbolId ..)
  have habs : ((new : Engine S).book.restoreOrders e.book.liveOrders).abs = e.book.abs := by
    funext s p
    exact congrArg (fun v => v.elim [] Prod.snd) (hview.level s p).symm
  refine ⟨he,hinv,?_⟩
  have hone : ((new : Engine S).book.restoreOrders e.book.liveOrders).symbolId = 1 := hsymbol ..
  unfold market
  rw [habs,hsym,hone]

/-- Loading gives the market of as many commands as it says. -/
theorem loadLatest (h : Holds postcard crc32 sv g) : ∃ e : Engine S,
    (new : Engine S).loadLatest postcard crc32 sv.snapshots = (e,.ok ()) ∧
      Alike ((new : Engine S).after (g.commands.take (sv.replayStart crc32))) e := by
  cases hl : sv.snapshots.last? with
  | none =>
    have hload : Snapshot.loadLatest crc32 sv.snapshots = .ok none := by simp only [Snapshot.loadLatest,hl]
    simp only [Engine.loadLatest,Server.replayStart,hload,List.take_zero]
    exact ⟨_,rfl,.refl (Inv.new 1)⟩
  | some entry =>
    obtain ⟨e,seq,hbs,hlen,-,hsafe,halike⟩ := h.latest entry.1 entry.2 hl
    have hload : Snapshot.loadLatest crc32 sv.snapshots = .ok (some ⟨seq,e.snapshotData postcard⟩) :=
      Snapshot.loadLatest_eq (hl.trans (by rw [← hbs])) hlen
    simp only [Engine.loadLatest,Server.replayStart,hload,Engine.loadSnapshot,Engine.snapshotData,Codec.decode_encode,
      OrderBook.restoreFromSnapshot,OrderBook.serializeSnapshot,Option.map_some]
    exact ⟨_,rfl,halike.trans (loaded halike.right hsafe (halike.symbolId.symm.trans (symbolId_after ..)) seq)⟩

theorem restart (h : Holds postcard crc32 sv g) (hs : SafeCrash crc32 sv g) (config : JournalConfig)
    (interval : UInt64) : Holds postcard crc32 (sv.restart postcard crc32 config interval) g.crash := by
  have hlog : g.crash.log = g.durable := by simp [History.log,History.crash,History.durable]
  have hfront : g.crash.commands <+: g.commands := by
    rw [History.commands,History.commands,hlog,g.log_eq,List.map_append]
    exact List.prefix_append ..
  have hstart : sv.replayStart crc32 ≤ g.durable.length := by
    rw [History.durable,← hs.max_eq]
    exact Nat.le_add_right ..
  have htake : ∀ n, n ≤ g.durable.length → g.crash.commands.take n = g.commands.take n := by
    intro n hn
    rw [History.commands,History.commands,hlog,g.log_eq,List.map_append,List.take_append_of_le_length]
    rwa [List.length_map]
  have hredone := h.redone.of_prefix hfront
  obtain ⟨e,hload,halike⟩ := h.loadLatest
  refine ⟨h.tracks.restart hs config interval,hredone,?_,fun name bs hl => ?_⟩
  · obtain ⟨e',hload',-,hrestore⟩ := h.tracks.restore
    obtain rfl := (Prod.mk.inj (hload'.symm.trans hload)).1
    have hcmds : (g.disk.map Prod.snd).drop (sv.replayStart crc32) = g.crash.commands.drop (sv.replayStart crc32) := by
      rw [History.commands,hlog,History.durable]
      rcases hs with ⟨hr,-⟩ | hall
      · rw [hr,List.nil_append]
      · have hle : g.disk.length ≤ sv.replayStart crc32 := by rw [hall,List.length_append]; exact Nat.le_add_left ..
        rw [List.drop_eq_nil_of_le (by rwa [List.length_map]),List.drop_eq_nil_of_le (by rw [List.length_map,hall])]
    have hengine : (sv.restart postcard crc32 config interval).engine =
        e'.replay (g.crash.commands.drop (sv.replayStart crc32)) := by
      change ((new : Engine S).restoreFromPersistence postcard crc32 sv.snapshots sv.journal.file).1 = _
      rw [hrestore,hcmds]
    rw [← htake _ hstart] at halike
    rw [hengine]
    exact follows_replay.recover halike hredone
  · have hl : sv.snapshots.last? = some (name,bs) := hl
    obtain ⟨e',seq,hbs,hlen,-,hsafe,hold⟩ := h.latest name bs hl
    have hseq : sv.replayStart crc32 = seq.toNat := by
      rw [hbs] at hl
      simp only [Server.replayStart,Snapshot.loadLatest_eq hl hlen]
    rw [hseq] at hstart
    exact ⟨e',seq,hbs,hlen,hlog ▸ hstart,hsafe,by rw [htake _ hstart]; exact hold⟩

theorem start (config : JournalConfig) (interval : UInt64) :
    Holds postcard crc32 (Server.start postcard crc32 config interval [] ∅ ∅ : Server S) History.empty where
  tracks := Run.tracks_start config interval
  redone := trivial
  engine := .refl (Inv.new 1)
  latest name bs hl := by
    have hnone : (∅ : SnapshotDir).last? = none := OrdMap.last?_eq_none.mpr (by simp)
    exact absurd (hnone.symm.trans hl) (by simp)

end Holds

/-! ### Runs -/

/-- A journal file only grows, and the log takes its commands from those that were processed. -/
structure Extends (g g' : History) : Prop where
  durable : g.durable <+: g'.durable
  processed : g.log.Sublist g.processed → g'.log.Sublist g'.processed

namespace Extends
variable {g g' g'' : History}

theorem refl (g : History) : Extends g g := ⟨List.prefix_rfl,id⟩

theorem trans (h : Extends g g') (k : Extends g' g'') : Extends g g'' :=
  ⟨h.durable.trans k.durable,k.processed ∘ h.processed⟩

theorem journaled (cmd : Command) (flushed : Bool) : Extends g (g.journaled cmd flushed) where
  durable := by
    cases flushed with
    | false => exact List.prefix_rfl
    | true => exact ⟨g.buffered ++ [(g.time,cmd)],List.append_assoc ..⟩
  processed h := by
    rw [History.log_journaled]
    exact h.append (List.Sublist.refl _)

theorem flush (g : History) : Extends g g.flush :=
  ⟨⟨g.buffered,List.append_assoc ..⟩,fun h => by rw [History.log_flush]; exact h⟩

theorem crash (g : History) : Extends g g.crash := by
  refine ⟨List.prefix_rfl,fun h => List.Sublist.trans ?_ h⟩
  rw [History.log,History.log,← List.append_assoc,← List.append_assoc]
  exact List.Sublist.append (List.Sublist.refl _) (List.nil_sublist _)

theorem snapshot (g : History) (name : String) : Extends g (g.snapshot name) := ⟨List.prefix_rfl,id⟩

theorem rotate (g : History) : Extends g g.rotate := by
  refine ⟨⟨g.buffered,?_⟩,fun h => by rw [History.log_rotate]; exact h⟩
  simp [History.durable,History.rotate]

variable {postcard crc32} {sv : Server S}

theorem step (cmd : Command) (elapsed : Bool) : Extends g (g.step postcard crc32 sv cmd elapsed) := by
  refine (journaled cmd (sv.flushes cmd elapsed)).trans ?_
  simp only [History.step,History.rotateIfDue,History.snapshotIfDue]
  split_ifs
  · exact (snapshot _ _).trans (rotate _)
  · exact rotate _
  · exact snapshot _ _
  · exact refl _

end Extends

variable {postcard crc32} {s s' : Server S × History}

theorem Moves.keeps (h : Moves postcard crc32 s s') (hs : Holds postcard crc32 s.1 s.2) :
    Holds postcard crc32 s'.1 s'.2 := by
  cases h with
  | step cmd elapsed timestamp ht => exact hs.step ht elapsed timestamp
  | shutdown => exact hs.moved hs.tracks.flush rfl rfl (History.log_flush _)
  | restart config interval hsafe => exact hs.restart hsafe config interval

theorem Moves.extends (h : Moves postcard crc32 s s') : Extends s.2 s'.2 := by
  cases h with
  | step cmd elapsed timestamp ht => exact .step cmd elapsed
  | shutdown => exact .flush _
  | restart config interval hsafe => exact .crash _

/-- An ask of an account, and the next one. -/
def ask (n : OrderId) : Command := .newOrder ⟨n,n,7,1,.sell,100,5,.gtc,⟨false⟩⟩

end Durable
end HighPerfTrading
