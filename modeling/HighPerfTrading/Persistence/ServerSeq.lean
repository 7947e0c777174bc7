import HighPerfTrading.Engine.Numbering
import HighPerfTrading.Persistence.ReplaySuffix

/-! Event numbers over the lives of an engine process. A snapshot stores the number of commands, from which
the next process numbers its events, and a replayed cancel takes no number. -/
namespace HighPerfTrading

/-- The commands processed in earlier lives and in this one, with the events that each emitted. -/
structure Emitted where
  earlier : List (Command × List Event)
  life : List (Command × List Event)

namespace Emitted

def events (xs : List (Command × List Event)) : List Event := xs.flatMap Prod.snd

def all (w : Emitted) : List (Command × List Event) := w.earlier ++ w.life

def processed (w : Emitted) (cmd : Command) (evs : List Event) : Emitted := { w with life := w.life ++ [(cmd,evs)] }

def crash (w : Emitted) : Emitted := ⟨w.all,[]⟩

/-- The counter has room for a number per command and per event. -/
def Room (w : Emitted) : Prop := w.all.length+(events w.all).length+1 < 2^64

instance (w : Emitted) : Decidable w.Room := inferInstanceAs (Decidable (_ < _))

/-- The events of this life come after all earlier ones, and their numbers are consecutive. -/
structure Ascending (w : Emitted) : Prop where
  later : ∀ a ∈ events w.earlier, ∀ b ∈ events w.life, ∃ m n, a.serverSeq = some m ∧ b.serverSeq = some n ∧ m < n
  consecutive : (events w.life).IsChain fun a b =>
    ∃ m n, a.serverSeq = some m ∧ b.serverSeq = some n ∧ n.toNat = m.toNat+1

theorem all_processed (w : Emitted) (cmd : Command) (evs : List Event) :
    (w.processed cmd evs).all = w.all ++ [(cmd,evs)] := by simp [processed,all]

theorem all_crash (w : Emitted) : w.crash.all = w.all := List.append_nil _

theorem events_append (xs ys : List (Command × List Event)) : events (xs ++ ys) = events xs ++ events ys :=
  List.flatMap_append

theorem events_single (cmd : Command) (evs : List Event) : events [(cmd,evs)] = evs := List.append_nil evs

theorem length_events_le {xs : List (Command × List Event)} (h : ∀ x ∈ xs, x.2.length ≤ 1) :
    (events xs).length ≤ xs.length := by
  induction xs with
  | nil => exact Nat.le_refl 0
  | cons x xs ih =>
    have hx := h x (List.mem_cons_self ..)
    have hxs := ih fun y hy => h y (List.mem_cons_of_mem _ hy)
    rw [events,List.flatMap_cons,List.length_append,List.length_cons]
    rw [events] at hxs
    omega

end Emitted

def Command.isCancel : Command → Bool
  | .cancel _ => true
  | _ => false

section Lives
variable {S : Type} [Slab S Order] (postcard : Postcard) (crc32 : List UInt8 → UInt32)

/-- Runs of the engine process without rotation, over any number of crashes that lose nothing; `crashes` says
from which states the process may crash and be restarted. -/
inductive Lives (crashes : Server S → Emitted → Prop) : Server S → Emitted → Prop
  | start (config : JournalConfig) (interval : UInt64) (hr : config.rotationThreshold = 0) :
      Lives crashes (Server.start postcard crc32 config interval [] ∅ ∅) ⟨[],[]⟩
  | step {sv : Server S} {w : Emitted} (h : Lives crashes sv w) (cmd : Command) (elapsed : Bool)
      (timestamp : UInt64) (hf : StepFits postcard sv cmd) (hroom : (w.processed cmd (sv.engine.process cmd).2).Room) :
      Lives crashes (sv.step postcard crc32 cmd elapsed timestamp) (w.processed cmd (sv.engine.process cmd).2)
  | shutdown {sv : Server S} {w : Emitted} (h : Lives crashes sv w) : Lives crashes (sv.shutdown postcard crc32) w
  | restart {sv : Server S} {w : Emitted} (h : Lives crashes sv w) (config : JournalConfig) (interval : UInt64)
      (hr : config.rotationThreshold = 0) (hb : sv.Flushed) (hc : crashes sv w) :
      Lives crashes (sv.restart postcard crc32 config interval) w.crash

/-- No command that the latest snapshot counts has emitted two events, and none since is a cancel. -/
def CountsEvents (sv : Server S) (w : Emitted) : Prop :=
  (∀ x ∈ w.all.take (sv.replayStart crc32), x.2.length ≤ 1) ∧
    ∀ x ∈ w.all.drop (sv.replayStart crc32), x.1.isCancel = false

instance (sv : Server S) (w : Emitted) : Decidable (CountsEvents crc32 sv w) :=
  inferInstanceAs (Decidable (_ ∧ _))

/-! ### The next number -/

namespace Engine

/-- Other commands than cancels are replayed as they are carried out. -/
theorem replay_eq_liveRun (e : Engine S) {cmds : List Command} (h : ∀ cmd ∈ cmds, cmd.isCancel = false) :
    e.replay cmds = e.liveRun cmds := by
  induction cmds generalizing e with
  | nil => rfl
  | cons cmd cmds ih =>
    have hcmd : e.replayCommand cmd = e.live cmd := by
      cases cmd with
      | cancel c => exact Bool.noConfusion (h (.cancel c) (List.mem_cons_self ..))
      | newOrder no => rfl
      | replace r => rfl
      | setRiskLimits srl => rfl
      | queryAccount qa => rfl
      | authenticate auth => rfl
    change (e.replayCommand cmd).replay cmds = (e.live cmd).liveRun cmds
    rw [hcmd,ih (e.live cmd) fun c hc => h c (List.mem_cons_of_mem _ hc)]

theorem liveRun_append (e : Engine S) (cmds : List Command) (cmd : Command) :
    e.liveRun (cmds ++ [cmd]) = (e.liveRun cmds).live cmd := by
  rw [liveRun,List.foldl_append]
  rfl

end Engine

/-- What the latest snapshot loads, with the commands that it counts and those since. While none of the
former has emitted two events, the run of the latter from it numbers at least as high as the process has. -/
structure Loads (sv : Server S) (w : Emitted) (r : Engine S) (old new : List (Command × List Event)) : Prop where
  all : w.all = old ++ new
  load : (Engine.new : Engine S).loadLatest postcard crc32 sv.snapshots = (r,.ok ())
  start : sv.replayStart crc32 = old.length
  agrees : (∀ x ∈ old, x.2.length ≤ 1) → Engine.Agrees sv.engine (r.liveRun (new.map Prod.fst))
  next : (∀ x ∈ old, x.2.length ≤ 1) →
    (r.liveRun (new.map Prod.fst)).serverSeq.toNat = old.length+1+(Emitted.events new).length
  above : (∀ x ∈ old, x.2.length ≤ 1) →
    sv.engine.serverSeq.toNat ≤ (r.liveRun (new.map Prod.fst)).serverSeq.toNat

/-- The process's files hold every command, and its next number is above all numbers given out. -/
structure Keeps (sv : Server S) (w : Emitted) : Prop where
  rotation : sv.journal.rotationThreshold = 0
  tracks : ∃ g, Tracks postcard crc32 sv g ∧ g.rotated = [] ∧ g.log.map Prod.snd = w.all.map Prod.fst
  room : w.Room
  bound : sv.engine.serverSeq.toNat ≤ w.all.length+1+(Emitted.events w.all).length
  fresh : (∀ x ∈ w.all, x.2.length ≤ 1) → sv.engine.book = OrderBook.new 1
  loads : ∃ r old new, Loads postcard crc32 sv w r old new
  numbers : ∃ first : UInt64, first.toNat+(Emitted.events w.life).length < 2^64 ∧
    (∀ a ∈ Emitted.events w.earlier, ∃ m, a.serverSeq = some m ∧ m.toNat < first.toNat) ∧
    Numbered first (Emitted.events w.life) sv.engine.serverSeq

section Steps
variable {postcard crc32} {sv : Server S} {w : Emitted} {r : Engine S} {old new : List (Command × List Event)}

/-! ### One pass of the loop -/

theorem Loads.processed (h : Loads postcard crc32 sv w r old new) (hbound : sv.engine.serverSeq.toNat ≤
    w.all.length+1+(Emitted.events w.all).length) (cmd : Command) (elapsed : Bool)
    (hroom : (w.processed cmd (sv.engine.process cmd).2).Room) :
    Loads postcard crc32 ((sv.journaled postcard crc32 cmd elapsed).processed cmd)
      (w.processed cmd (sv.engine.process cmd).2) r old (new ++ [(cmd,(sv.engine.process cmd).2)]) := by
  have hrun : ((new ++ [(cmd,(sv.engine.process cmd).2)]).map Prod.fst) = new.map Prod.fst ++ [cmd] := by simp
  have hlen : (Emitted.events (new ++ [(cmd,(sv.engine.process cmd).2)])).length =
      (Emitted.events new).length+(sv.engine.process cmd).2.length := by
    rw [Emitted.events_append,Emitted.events_single,List.length_append]
  have hall : w.all.length = old.length+new.length := by rw [h.all,List.length_append]
  have hevents : (Emitted.events w.all).length = (Emitted.events old).length+(Emitted.events new).length := by
    rw [h.all,Emitted.events_append,List.length_append]
  rw [Emitted.Room,Emitted.all_processed,Emitted.events_append,Emitted.events_single,List.length_append,
    List.length_append,List.length_singleton] at hroom
  have hnext : (∀ x ∈ old, x.2.length ≤ 1) → ((r.liveRun (new.map Prod.fst)).live cmd).serverSeq.toNat =
      (r.liveRun (new.map Prod.fst)).serverSeq.toNat+(sv.engine.process cmd).2.length := by
    intro hq
    have hsame := (h.agrees hq).length_process cmd
    have hseq := h.next hq
    rw [hsame]
    exact ((r.liveRun (new.map Prod.fst)).process_numbered cmd).next (by omega)
  refine ⟨?_,h.load,h.start,fun hq => ?_,fun hq => ?_,fun hq => ?_⟩
  · rw [Emitted.all_processed,h.all,List.append_assoc]
  · rw [hrun,Engine.liveRun_append]
    exact (h.agrees hq).live cmd
  · rw [hrun,Engine.liveRun_append,hnext hq,h.next hq,hlen]
    omega
  · have hown : (sv.engine.live cmd).serverSeq.toNat =
        sv.engine.serverSeq.toNat+(sv.engine.process cmd).2.length :=
      (sv.engine.process_numbered cmd).next (by omega)
    have habove := h.above hq
    rw [hrun,Engine.liveRun_append,hnext hq]
    change (sv.engine.live cmd).serverSeq.toNat ≤ _
    rw [hown]
    omega

theorem Keeps.processed (h : Keeps postcard crc32 sv w) (cmd : Command) (elapsed : Bool)
    (hf : StepFits postcard sv cmd) (hroom : (w.processed cmd (sv.engine.process cmd).2).Room) :
    Keeps postcard crc32 ((sv.journaled postcard crc32 cmd elapsed).processed cmd)
      (w.processed cmd (sv.engine.process cmd).2) := by
  obtain ⟨g,ht,hrot,hlog⟩ := h.tracks
  obtain ⟨r,old,new,hl⟩ := h.loads
  obtain ⟨first,hfit,hearlier,hlife⟩ := h.numbers
  have hbound := h.bound
  have hroom' := hroom
  rw [Emitted.Room,Emitted.all_processed,Emitted.events_append,Emitted.events_single,List.length_append,
    List.length_append,List.length_singleton] at hroom'
  have hown : (sv.engine.live cmd).serverSeq.toNat =
      sv.engine.serverSeq.toNat+(sv.engine.process cmd).2.length :=
    (sv.engine.process_numbered cmd).next (by omega)
  have hcur := hlife.next hfit
  refine ⟨?_,⟨_,ht.journaled cmd elapsed hf.payload hf.count,hrot,?_⟩,hroom,?_,fun hq => ?_,
    ⟨r,old,_,hl.processed hbound cmd elapsed hroom⟩,first,?_,hearlier,?_⟩
  · change (sv.journal.append postcard.command crc32 cmd elapsed).rotationThreshold = 0
    rw [Journal.append]
    split_ifs <;> exact h.rotation
  · rw [History.log_journaled,List.map_append,hlog,Emitted.all_processed,List.map_append]
    rfl
  · change (sv.engine.live cmd).serverSeq.toNat ≤ _
    rw [hown,Emitted.all_processed,Emitted.events_append,Emitted.events_single,List.length_append,
      List.length_append,List.length_singleton]
    omega
  · rw [Emitted.all_processed] at hq
    have hnew := h.fresh fun x hx => hq x (List.mem_append_left _ hx)
    have hquiet : (sv.engine.process cmd).1.book = sv.engine.book := by
      refine Engine.process_empty_book (fun id => ?_) (hq (cmd,(sv.engine.process cmd).2) (by simp))
      rw [hnew]
      simp [OrderBook.get,OrderBook.new]
    exact hquiet.trans hnew
  · change first.toNat+(Emitted.events (w.life ++ [(cmd,(sv.engine.process cmd).2)])).length < 2^64
    rw [Emitted.events_append,Emitted.events_single,List.length_append]
    omega
  · change Numbered first (Emitted.events (w.life ++ [(cmd,(sv.engine.process cmd).2)])) (sv.engine.live cmd).serverSeq
    rw [Emitted.events_append,Emitted.events_single]
    exact hlife.append (sv.engine.process_numbered cmd)

/-- The snapshot of a process that has emitted no two events for a command loads as the process itself. -/
theorem loads_snapshot (hseq : sv.engine.commandSeq.toNat = w.all.length) (hroom : w.Room)
    (hlen : (sv.engine.snapshotData postcard).length < 2^32)
    (hfresh : (∀ x ∈ w.all, x.2.length ≤ 1) → sv.engine.book = OrderBook.new 1)
    (habove : (∀ x ∈ w.all, x.2.length ≤ 1) → sv.engine.serverSeq.toNat ≤ w.all.length+1)
    (hlast : (sv.takeSnapshot postcard crc32).snapshots.last? = some (Snapshot.fileName sv.engine.commandSeq,
      (⟨sv.engine.commandSeq,sv.engine.snapshotData postcard⟩ : Snapshot).fileBytes crc32)) :
    ∃ r, Loads postcard crc32 (sv.takeSnapshot postcard crc32) w r w.all [] := by
  have hload := Snapshot.loadLatest_eq hlast hlen
  have hnext : (sv.engine.commandSeq+1).toNat = w.all.length+1 := by
    rw [Emitted.Room] at hroom
    rw [toNat_succ (by omega),hseq]
  have hbook : (∀ x ∈ w.all, x.2.length ≤ 1) →
      (Engine.new : Engine S).book.restoreOrders sv.engine.book.liveOrders = OrderBook.new 1 := by
    intro hq
    rw [hfresh hq]
    simp [OrderBook.liveOrders,OrderBook.new,OrderBook.restoreOrders,OrderBook.clear,Engine.new]
  refine ⟨⟨sv.engine.commandSeq+1,sv.engine.commandSeq,
    (Engine.new : Engine S).book.restoreOrders sv.engine.book.liveOrders,sv.engine.accountManager⟩,
    (List.append_nil _).symm,?_,?_,fun hq => ?_,fun _ => ?_,fun hq => ?_⟩
  · simp only [Engine.loadLatest,hload,Engine.loadSnapshot,Engine.snapshotData,Codec.decode_encode,
      OrderBook.restoreFromSnapshot,OrderBook.serializeSnapshot,Option.map_some]
  · simp only [Server.replayStart,hload]
    exact hseq
  · exact ⟨(hfresh hq).trans (hbook hq).symm,rfl,rfl⟩
  · exact hnext
  · change sv.engine.serverSeq.toNat ≤ (sv.engine.commandSeq+1).toNat
    rw [hnext]
    exact habove hq

theorem Keeps.snapshot (h : Keeps postcard crc32 sv w) (hlen : (sv.engine.snapshotData postcard).length < 2^32) :
    Keeps postcard crc32 (sv.takeSnapshot postcard crc32) w := by
  obtain ⟨g,ht,hrot,hlog⟩ := h.tracks
  have hnil : g.log.length = w.all.length := by simpa using congrArg List.length hlog
  refine ⟨h.rotation,⟨_,ht.snapshot hlen,hrot,hlog⟩,h.room,h.bound,h.fresh,?_,h.numbers⟩
  obtain ⟨r,old,new,hl⟩ := h.loads
  rcases Snapshot.last?_save sv.snapshots ⟨sv.engine.commandSeq,sv.engine.snapshotData postcard⟩
    (Nat.succ_pos 2) with hnew | ⟨hold,-⟩
  · have hseq : (∀ x ∈ w.all, x.2.length ≤ 1) → sv.engine.serverSeq.toNat ≤ w.all.length+1 := by
      intro hq
      rw [hl.all] at hq ⊢
      have hold : ∀ x ∈ old, x.2.length ≤ 1 := fun x hx => hq x (List.mem_append_left _ hx)
      have hsum : (Emitted.events new).length ≤ new.length :=
        Emitted.length_events_le fun x hx => hq x (List.mem_append_right _ hx)
      have habove := hl.above hold
      rw [hl.next hold] at habove
      rw [List.length_append]
      omega
    obtain ⟨r',hl'⟩ := loads_snapshot (ht.count.trans hnil) h.room hlen h.fresh hseq hnew
    exact ⟨r',_,_,hl'⟩
  · have hsame : Snapshot.loadLatest crc32 (sv.takeSnapshot postcard crc32).snapshots =
        Snapshot.loadLatest crc32 sv.snapshots := by
      simp only [Snapshot.loadLatest,Server.takeSnapshot,hold]
    refine ⟨r,old,new,hl.all,?_,?_,hl.agrees,hl.next,hl.above⟩
    · rw [← hl.load]
      simp only [Engine.loadLatest,hsame]
    · rw [← hl.start]
      simp only [Server.replayStart,hsame]

theorem Keeps.step (h : Keeps postcard crc32 sv w) (cmd : Command) (elapsed : Bool) (timestamp : UInt64)
    (hf : StepFits postcard sv cmd) (hroom : (w.processed cmd (sv.engine.process cmd).2).Room) :
    Keeps postcard crc32 (sv.step postcard crc32 cmd elapsed timestamp)
      (w.processed cmd (sv.engine.process cmd).2) := by
  have hp := h.processed cmd elapsed hf hroom
  have hs : Keeps postcard crc32
      (((sv.journaled postcard crc32 cmd elapsed).processed cmd).snapshotIfDue postcard crc32)
      (w.processed cmd (sv.engine.process cmd).2) := by
    rw [Server.snapshotIfDue]
    split_ifs
    · exact hp.snapshot hf.snapshot
    · exact hp
  have hstay : ¬ (((sv.journaled postcard crc32 cmd elapsed).processed cmd).snapshotIfDue
      postcard crc32).journal.shouldRotate = true := by
    simp [Journal.shouldRotate,hs.rotation]
  rw [Server.step,Server.rotateIfDue,if_neg hstay]
  exact hs

theorem Keeps.shutdown (h : Keeps postcard crc32 sv w) : Keeps postcard crc32 (sv.shutdown postcard crc32) w := by
  obtain ⟨g,ht,hrot,hlog⟩ := h.tracks
  obtain ⟨r,old,new,hl⟩ := h.loads
  exact ⟨h.rotation,⟨_,ht.flush,hrot,by rw [History.log_flush,hlog]⟩,h.room,h.bound,h.fresh,
    ⟨r,old,new,hl.all,hl.load,hl.start,hl.agrees,hl.next,hl.above⟩,h.numbers⟩

/-! ### A crash and the restart -/

theorem Keeps.restart (h : Keeps postcard crc32 sv w) (config : JournalConfig) (interval : UInt64)
    (hr : config.rotationThreshold = 0) (hb : sv.Flushed) (hc : CountsEvents crc32 sv w) :
    Keeps postcard crc32 (sv.restart postcard crc32 config interval) w.crash := by
  obtain ⟨g,ht,hrot,hlog⟩ := h.tracks
  obtain ⟨r,old,new,hl⟩ := h.loads
  obtain ⟨first,hfit,hearlier,hlife⟩ := h.numbers
  obtain ⟨hq,hcancels⟩ := hc
  rw [hl.start,hl.all,List.take_left] at hq
  rw [hl.start,hl.all,List.drop_left] at hcancels
  have hdisk : g.log = g.disk := by
    rw [History.log,hrot,ht.buffered_eq_nil hb,List.append_nil,List.nil_append]
  have hcmds : (g.disk.map Prod.snd).drop (sv.replayStart crc32) = new.map Prod.fst := by
    rw [← hdisk,hlog,hl.start,hl.all,List.map_append,← List.length_map Prod.fst,List.drop_left]
  have hengine : (sv.restart postcard crc32 config interval).engine = r.liveRun (new.map Prod.fst) := by
    obtain ⟨e,he,-,hrestore⟩ := ht.restore
    rw [hl.load] at he
    obtain rfl := (Prod.mk.inj he).1
    change ((Engine.new : Engine S).restoreFromPersistence postcard crc32 sv.snapshots sv.journal.file).1 = _
    rw [hrestore,hcmds]
    refine Engine.replay_eq_liveRun r fun cmd hcmd => ?_
    obtain ⟨x,hx,rfl⟩ := List.mem_map.mp hcmd
    exact hcancels x hx
  have hnext := hl.next hq
  have habove := hl.above hq
  have hcur := hlife.next hfit
  have hroom := h.room
  rw [Emitted.Room,hl.all,Emitted.events_append,List.length_append,List.length_append] at hroom
  have hsafe : SafeCrash crc32 sv g := by
    refine Or.inl ⟨hrot,?_⟩
    rw [← hdisk,← List.length_map Prod.snd,hlog,List.length_map,hl.start,hl.all,List.length_append]
    exact Nat.le_add_right _ _
  refine ⟨hr,⟨_,ht.restart hsafe config interval,hrot,?_⟩,?_,?_,fun hall => ?_,⟨r,old,new,?_,hl.load,hl.start,
    fun _ => ?_,fun _ => hnext,fun _ => ?_⟩,(r.liveRun (new.map Prod.fst)).serverSeq,?_,fun a ha => ?_,?_⟩
  · rw [Emitted.all_crash,← hlog,hdisk,History.log,History.crash,hrot]
    simp
  · rw [Emitted.Room,Emitted.all_crash]
    exact h.room
  · rw [hengine,Emitted.all_crash,hnext,hl.all,Emitted.events_append,List.length_append,List.length_append]
    omega
  · rw [Emitted.all_crash] at hall
    rw [hengine,← (hl.agrees hq).book]
    exact h.fresh hall
  · rw [Emitted.all_crash]
    exact hl.all
  · rw [hengine]
    exact .refl _
  · rw [hengine]
  · change _+0 < 2^64
    omega
  · change a ∈ Emitted.events (w.earlier ++ w.life) at ha
    rw [Emitted.events_append] at ha
    rcases List.mem_append.mp ha with ha | ha
    · obtain ⟨m,hm,hlt⟩ := hearlier a ha
      exact ⟨m,hm,by omega⟩
    · obtain ⟨m,hm,-,hlt⟩ := hlife.bounds hfit ha
      exact ⟨m,hm,by omega⟩
  · rw [hengine]
    exact .nil _

theorem keeps_start (config : JournalConfig) (interval : UInt64) (hr : config.rotationThreshold = 0) :
    Keeps postcard crc32 (Server.start postcard crc32 config interval [] ∅ ∅ : Server S) ⟨[],[]⟩ := by
  have hlast : (∅ : SnapshotDir).last? = none := OrdMap.last?_eq_none.mpr (by simp)
  have hload : Snapshot.loadLatest crc32 (∅ : SnapshotDir) = .ok none := by rw [Snapshot.loadLatest,hlast]
  refine ⟨hr,⟨_,Run.tracks_start config interval,rfl,rfl⟩,by decide,Nat.le_refl 1,fun _ => rfl,
    ⟨Engine.new,[],[],rfl,?_,?_,fun _ => .refl _,fun _ => rfl,fun _ => Nat.le_refl 1⟩,1,by decide,by simp [Emitted.events],
    .nil _⟩
  · simp only [Engine.loadLatest,Server.start,hload]
  · simp only [Server.replayStart,Server.start,hload,List.length_nil]

theorem Lives.keeps (h : Lives postcard crc32 (CountsEvents crc32) sv w) : Keeps postcard crc32 sv w := by
  induction h with
  | start config interval hr => exact keeps_start config interval hr
  | step _ cmd elapsed timestamp hf hroom ih => exact ih.step cmd elapsed timestamp hf hroom
  | shutdown _ ih => exact ih.shutdown
  | restart _ config interval hr hb hc ih => exact ih.restart config interval hr hb hc

/-- While at every crash the snapshot counts no command with two events and no cancel came after it, numbers
go up through all lives. -/
theorem Lives.ascending (h : Lives postcard crc32 (CountsEvents crc32) sv w) : w.Ascending := by
  obtain ⟨first,hfit,hearlier,hlife⟩ := h.keeps.numbers
  refine ⟨fun a ha b hb => ?_,hlife.isChain hfit⟩
  obtain ⟨m,hm,hlt⟩ := hearlier a ha
  obtain ⟨n,hn,hle,-⟩ := hlife.bounds hfit hb
  exact ⟨m,n,hm,hn,UInt64.lt_iff_toNat_lt.mpr (by omega)⟩

/-- A refused cancel, a snapshot, a crash, and then an order. -/
theorem ascending_refused : ∃ w : Emitted, w.Ascending ∧
    (Emitted.events w.earlier).map Event.serverSeq = [some 1] ∧
      (Emitted.events w.life).map Event.serverSeq = [some 2,some 3] := by
  have hrun : Lives (S := FreeListSlab Order) Postcard.standard Crc32.hash (CountsEvents Crc32.hash) _ _ :=
    .step (.restart (.step (.start ⟨1,0⟩ 1 rfl) (.cancel ⟨1,9,7,1⟩) false 1000 (by decide +kernel) (by decide +kernel))
      ⟨1,0⟩ 1 rfl (by decide +kernel) (by decide +kernel)) (placeOrder 1) false 2000 (by decide +kernel)
      (by decide +kernel)
  exact ⟨_,hrun.ascending,by decide +kernel,by decide +kernel⟩

/-- An order is acknowledged with number 2. After a snapshot and a crash number 2 is given to another event. -/
theorem ack_number_repeated : ∃ (sv : Server (FreeListSlab Order)) (w : Emitted),
    Lives Postcard.standard Crc32.hash (fun _ _ => True) sv w ∧ ¬ w.Ascending := by
  refine ⟨_,_,.step (.restart (.step (.start ⟨1,0⟩ 1 rfl) (placeOrder 1) false 1000 ?_ ?_) ⟨1,0⟩ 1 rfl ?_ trivial)
    (.cancel ⟨2,9,7,1⟩) false 2000 ?_ ?_,fun h => ?_⟩
  · decide +kernel
  · decide +kernel
  · decide +kernel
  · decide +kernel
  · decide +kernel
  · obtain ⟨m,n,hm,hn,hlt⟩ := h.later (.ack ⟨2,1,1⟩) (by decide +kernel) (.reject ⟨2,2,some 9,.notFound⟩)
      (by decide +kernel)
    rw [← Option.some.inj hm,← Option.some.inj hn] at hlt
    exact absurd hlt (by decide)

end Steps

end Lives
end HighPerfTrading
