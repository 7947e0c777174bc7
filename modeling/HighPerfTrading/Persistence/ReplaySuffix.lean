import HighPerfTrading.Persistence.RecoveryRuns
import HighPerfTrading.Library.Slab

/-! Which commands a recovery replays. The snapshot counts the commands of all lives while the
journal is indexed by the frames of its current file, so the two agree only while no journal was
rotated away and no crash lost commands that a snapshot had counted. -/
namespace HighPerfTrading

theorem drop_append_eq_iff {α : Type} {xs ys : List α} {n : ℕ} (hn : n ≤ (xs ++ ys).length) :
    ys.drop n = (xs ++ ys).drop n ↔ xs = [] ∨ n = (xs ++ ys).length := by
  constructor
  · intro h
    have hlen := congrArg List.length h
    rw [List.length_drop,List.length_drop] at hlen
    rw [List.length_append] at hn hlen ⊢
    rcases Nat.eq_zero_or_pos xs.length with hx | hx
    · exact Or.inl (List.length_eq_zero_iff.mp hx)
    · right; omega
  · rintro (rfl | hlen)
    · rfl
    · rw [List.drop_eq_nil_of_le (Nat.le_of_eq hlen.symm)]
      refine List.drop_eq_nil_of_le ?_
      rw [hlen,List.length_append]
      exact Nat.le_add_left _ _

section Suffix
variable {S : Type} [Slab S Order] {postcard : Postcard} {crc32 : List UInt8 → UInt32} {sv : Server S}
  {g : History}

/-! ### Rotation -/

/-- No journal was ever rotated away, or the latest snapshot counts every command. -/
def Server.Aligned (crc32 : List UInt8 → UInt32) (sv : Server S) : Prop :=
  sv.backups = ∅ ∨ sv.replayStart crc32 = sv.engine.commandSeq.toNat

/-- Nothing is waiting in the batch buffer. -/
def Server.Flushed (sv : Server S) : Prop := sv.journal.batchBuffer = []

omit [Slab S Order] in
instance (sv : Server S) : Decidable sv.Flushed := inferInstanceAs (Decidable (_ = _))

def placeOrder (id : OrderId) : Command := .newOrder ⟨id,id,7,1,.buy,100,5,.gtc,⟨false⟩⟩

theorem Tracks.buffered_eq_nil (h : Tracks postcard crc32 sv g) (hb : sv.Flushed) : g.buffered = [] := by
  have hbuf := h.buffer
  rw [hb] at hbuf
  exact List.map_eq_nil_iff.mp hbuf.symm

/-- A flushed state is aligned when nothing was rotated away or the snapshot is at the end. -/
theorem Tracks.aligned_iff (h : Tracks postcard crc32 sv g) (hb : sv.Flushed) :
    sv.Aligned crc32 ↔ g.rotated = [] ∨ sv.replayStart crc32 = (g.rotated ++ g.disk).length := by
  rw [Server.Aligned,h.backups,h.count,History.log,h.buffered_eq_nil hb,List.append_nil]

theorem Tracks.safeCrash (h : Tracks postcard crc32 sv g) (hb : sv.Flushed) (ha : sv.Aligned crc32) :
    SafeCrash crc32 sv g := by
  rcases (h.aligned_iff hb).mp ha with hr | hseq
  · have hle := h.replayStart.le
    rw [History.log,h.buffered_eq_nil hb,List.append_nil,hr,List.nil_append] at hle
    exact Or.inl ⟨hr,hle⟩
  · exact Or.inr hseq

/-- In runs whose crashes lose nothing and are aligned, a recovery replays the commands
processed since the snapshot exactly from the aligned states. -/
theorem Run.recovers_processed_iff
    (h : Run postcard crc32 (fun sv : Server S => sv.Flushed ∧ sv.Aligned crc32) sv g) (hb : sv.Flushed) :
    sv.Recovers postcard crc32 (since g.processed (sv.takenAt g)) ↔ sv.Aligned crc32 := by
  have hs : ∀ (sv : Server S) g, Tracks postcard crc32 sv g → sv.Flushed ∧ sv.Aligned crc32 →
      SafeCrash crc32 sv g := fun _ _ ht hc => ht.safeCrash hc.1 hc.2
  have ht := h.tracks hs
  have hlog : g.log = g.rotated ++ g.disk := by
    rw [History.log,ht.buffered_eq_nil hb,List.append_nil]
  have hmark : Mark (g.log ++ []) g.time (sv.replayStart crc32) (sv.takenAt g) := by
    rw [List.append_nil]; exact ht.replayStart
  have hsince : since g.processed (sv.takenAt g) =
      ((g.rotated ++ g.disk).map Prod.snd).drop (sv.replayStart crc32) := by
    rw [since,h.processed_eq_log hs fun _ hc => hc.1,hmark.filter_prefix,List.map_drop,hlog]
  have hle : sv.replayStart crc32 ≤ (g.rotated.map Prod.snd ++ g.disk.map Prod.snd).length := by
    rw [← List.map_append,List.length_map,← hlog]; exact ht.replayStart.le
  rw [ht.recovers_iff,ht.aligned_iff hb,hsince,List.map_append,drop_append_eq_iff hle,List.map_eq_nil_iff,
    ← List.map_append,List.length_map]

/-- Two orders are journaled, the second append rotates the journal away, and the process
crashes: nothing is replayed. -/
theorem rotated_not_replayed : ∃ (sv : Server (FreeListSlab Order)) (g : History),
    Run Postcard.standard Crc32.hash Server.Flushed sv g ∧ sv.Flushed ∧
      ¬ sv.Recovers Postcard.standard Crc32.hash (since g.processed (sv.takenAt g)) := by
  refine ⟨_,_,.step (.step (.start ⟨1,2⟩ 0) (placeOrder 1) false 1000 ?_) (placeOrder 2) false 2000 ?_,?_,?_⟩
  · decide +kernel
  · decide +kernel
  · decide +kernel
  · exact fun h => absurd h.replayed (by decide +kernel)

/-- A snapshot after two orders, a third order, no rotation. -/
theorem recovers_processed_third : ∃ (sv : Server (FreeListSlab Order)) (g : History),
    (sv.Recovers Postcard.standard Crc32.hash (since g.processed (sv.takenAt g)) ↔ sv.Aligned Crc32.hash) ∧
      since g.processed (sv.takenAt g) = [placeOrder 3] := by
  refine ⟨_,_,Run.recovers_processed_iff (.step (.step (.step (.start ⟨1,10⟩ 2) (placeOrder 1) false 1000 ?_)
    (placeOrder 2) false 2000 ?_) (placeOrder 3) false 3000 ?_) ?_,?_⟩ <;> decide +kernel

/-! ### Repeated crashes -/

/-- No journal was rotated away and the journal has every frame that the latest snapshot
counts. -/
def Server.Covered (postcard : Postcard) (crc32 : List UInt8 → UInt32) (sv : Server S) : Prop :=
  sv.backups = ∅ ∧ ∃ all, readAll postcard.command crc32 sv.journal.file = .ok all ∧
    sv.replayStart crc32 ≤ all.length

theorem Tracks.safeCrash_of_covered (h : Tracks postcard crc32 sv g) (hc : sv.Covered postcard crc32) :
    SafeCrash crc32 sv g := by
  obtain ⟨hb,all,hall,hle⟩ := hc
  rw [h.readAll] at hall
  rw [← Except.ok.inj hall,List.length_map] at hle
  exact Or.inl ⟨h.backups.mp hb,hle⟩

/-- In runs whose crashes all come when the journal covers the snapshot, a recovery replays
every flushed command since the snapshot. -/
theorem Run.recovers_flushed (h : Run postcard crc32 (Server.Covered (S := S) postcard crc32) sv g)
    (hb : sv.backups = ∅) : sv.Recovers postcard crc32 (since g.disk (sv.takenAt g)) := by
  have ht := h.tracks fun _ _ ht hc => ht.safeCrash_of_covered hc
  have hmark := ht.replayStart
  rw [History.log,ht.backups.mp hb,List.nil_append] at hmark
  rw [ht.recovers_iff,since,hmark.filter_prefix,List.map_drop]

/-- A batch of three and a snapshot after two commands: the first crash loses both commands,
so the third, which is flushed as the first frame, lies below the snapshot's count. -/
theorem flushed_not_replayed : ∃ (sv : Server (FreeListSlab Order)) (g : History),
    Run Postcard.standard Crc32.hash (fun sv => sv.backups = ∅) sv g ∧ sv.backups = ∅ ∧
      ¬ sv.Recovers Postcard.standard Crc32.hash (since g.disk (sv.takenAt g)) := by
  refine ⟨_,_,.step (.restart (.step (.step (.start ⟨3,0⟩ 2) (placeOrder 1) false 1000 ?_) (placeOrder 2) false
    2000 ?_) ⟨3,0⟩ 2 ?_) (placeOrder 3) true 3000 ?_,?_,?_⟩
  · decide +kernel
  · decide +kernel
  · decide +kernel
  · decide +kernel
  · decide +kernel
  · exact fun h => absurd h.replayed (by decide +kernel)

/-- A crash loses the second order, the third is replayed. -/
theorem recovers_flushed_third : ∃ (sv : Server (FreeListSlab Order)) (g : History),
    sv.Recovers Postcard.standard Crc32.hash (since g.disk (sv.takenAt g)) ∧
      since g.disk (sv.takenAt g) = [placeOrder 1,placeOrder 3] := by
  refine ⟨_,_,Run.recovers_flushed (.step (.restart (.step (.step (.start ⟨3,0⟩ 0) (placeOrder 1) true 1000 ?_)
    (placeOrder 2) false 2000 ?_) ⟨3,0⟩ 0 ⟨?_,[placeOrder 1],?_,?_⟩) (placeOrder 3) true 3000 ?_) ?_,?_⟩ <;>
  decide +kernel

end Suffix

end HighPerfTrading
