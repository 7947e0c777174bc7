import HighPerfTrading.Library.Runs
import HighPerfTrading.Persistence.FailedRecovery

/-! Which snapshot counts as the latest. Files are compared by name and the numerals in the names have at least
twelve digits, so the order of the names is the order of the sequences as long as no sequence has more. -/
namespace HighPerfTrading
namespace Snapshot

inductive DirOp
  | save (s : Snapshot)
  | cleanupOld (keep : ℕ)

def DirOp.apply (crc32 : List UInt8 → UInt32) (dir : SnapshotDir) : DirOp → SnapshotDir
  | .save s => Snapshot.save crc32 dir s
  | .cleanupOld keep => Snapshot.cleanupOld dir keep

/-- The directory after some calls on an empty one. -/
def dirAfter (crc32 : List UInt8 → UInt32) (ops : List DirOp) : SnapshotDir := ops.foldl (DirOp.apply crc32) ∅

def DirOp.snapshots : DirOp → List Snapshot
  | .save s => [s]
  | .cleanupOld _ => []

/-- The snapshots saved, the last one last. -/
def saved (ops : List DirOp) : List Snapshot := ops.flatMap DirOp.snapshots

/-- Every snapshot in `dir` that is not in `dir'` is older than all that are. -/
def RemovesOlder (crc32 : List UInt8 → UInt32) (dir dir' : SnapshotDir) : Prop :=
  ∀ (name name' : String) bs bs', dir[name]? = some bs → dir'[name]? = none → dir'[name']? = some bs' →
    ∃ s t, loadFromFile crc32 bs = .ok s ∧ loadFromFile crc32 bs' = .ok t ∧ s.sequence < t.sequence

/-- The name of the snapshot's file sorts after those of the files there are. -/
def NamedLast (dir : SnapshotDir) (s : Snapshot) : Prop :=
  ∀ (name : String) bs, dir[name]? = some bs → compare name (fileName s.sequence) = .lt

/-- A save names its file last, and its data has a length that fits the header. -/
def DirOp.Sound (dir : SnapshotDir) : DirOp → Prop
  | .save s => NamedLast dir s ∧ s.data.length < 2^32
  | .cleanupOld _ => True

variable {crc32 : List UInt8 → UInt32} {dir : SnapshotDir} {log : List Snapshot}

/-! ### The files of a sound run -/

/-- The files are those of the last snapshots of `log`, and of one at least if there is any; they can be read. -/
structure Kept (crc32 : List UInt8 → UInt32) (dir : SnapshotDir) (log : List Snapshot) : Prop where
  files : ∃ older kept : List Snapshot, log = older ++ kept ∧ (kept = [] → older = []) ∧
    dir.toList = kept.map fun s => (fileName s.sequence,s.fileBytes crc32)
  fits : ∀ s ∈ log, s.data.length < 2^32

theorem Kept.empty : Kept crc32 ∅ [] := ⟨⟨[],[],rfl,fun _ => rfl,by simp⟩,fun s hs => absurd hs List.not_mem_nil⟩

/-- A file is that of a snapshot. -/
theorem Kept.of_get (h : Kept crc32 dir log) {name : String} {bs : List UInt8} (hget : dir[name]? = some bs) :
    ∃ s ∈ log, name = fileName s.sequence ∧ loadFromFile crc32 bs = .ok s := by
  obtain ⟨older,kept,rfl,-,hlist⟩ := h.files
  have hmem := OrdMap.mem_toList.mpr hget
  rw [hlist] at hmem
  obtain ⟨s,hs,heq⟩ := List.mem_map.mp hmem
  obtain ⟨rfl,rfl⟩ := Prod.mk.inj heq
  have hlog := List.mem_append_right older hs
  exact ⟨s,hlog,rfl,loadFromFile_fileBytes s (h.fits s hlog)⟩

theorem Kept.loadLatest (h : Kept crc32 dir log) : Snapshot.loadLatest crc32 dir = .ok log.getLast? := by
  obtain ⟨older,kept,rfl,hnil,hlist⟩ := h.files
  have hlast : dir.last? = kept.getLast?.map fun s => (fileName s.sequence,s.fileBytes crc32) := by
    rw [OrdMap.last?,hlist,List.getLast?_map]
  cases hs : kept.getLast? with
  | none =>
    have hempty := List.getLast?_eq_none_iff.mp hs
    rw [hs] at hlast
    rw [hnil hempty,hempty,Snapshot.loadLatest,hlast]
    rfl
  | some s =>
    rw [hs] at hlast
    rw [loadLatest_eq hlast (h.fits s (List.mem_append_right _ (List.mem_of_getLast? hs))),
      List.getLast?_append,hs]
    rfl

theorem Kept.save (h : Kept crc32 dir log) {s : Snapshot} (hlast : NamedLast dir s) (hfits : s.data.length < 2^32) :
    Kept crc32 (Snapshot.save crc32 dir s) (log ++ [s]) where
  files := by
    obtain ⟨older,kept,rfl,-,hlist⟩ := h.files
    refine ⟨older,kept ++ [s],List.append_assoc .. |>.symm ▸ rfl,by simp,?_⟩
    rw [Snapshot.save,OrdMap.toList_insert_last _ hlast,hlist,List.map_append]
    rfl
  fits := by
    intro t ht
    rcases List.mem_append.mp ht with ht | ht
    · exact h.fits t ht
    · rw [List.mem_singleton.mp ht]
      exact hfits

theorem Kept.cleanupOld (h : Kept crc32 dir log) {keep : ℕ} (hkeep : 0 < keep) :
    Kept crc32 (Snapshot.cleanupOld dir keep) log where
  files := by
    obtain ⟨older,kept,rfl,hnil,hlist⟩ := h.files
    refine ⟨older ++ kept.take (kept.length-keep),kept.drop (kept.length-keep),?_,fun hdrop => ?_,?_⟩
    · rw [List.append_assoc,List.take_append_drop]
    · have hle := List.drop_eq_nil_iff.mp hdrop
      have hempty : kept = [] := List.eq_nil_of_length_eq_zero (by omega)
      rw [hnil hempty,hempty,List.take_nil,List.append_nil]
    · rw [toList_cleanupOld,hlist,List.length_map,List.map_drop]
  fits := h.fits

theorem Kept.removesOlder (h : Kept crc32 dir log) (hseq : log.Pairwise fun s t => s.sequence < t.sequence) (keep : ℕ) :
    RemovesOlder crc32 dir (Snapshot.cleanupOld dir keep) := by
  obtain ⟨older,kept,rfl,-,hlist⟩ := h.files
  intro name name' bs bs' hget hgone hget'
  have hclean : (Snapshot.cleanupOld dir keep).toList =
      (kept.drop (kept.length-keep)).map fun s => (fileName s.sequence,s.fileBytes crc32) := by
    rw [toList_cleanupOld,hlist,List.length_map,List.map_drop]
  have hmem := OrdMap.mem_toList.mpr hget
  have hmem' := OrdMap.mem_toList.mpr hget'
  rw [hlist] at hmem
  rw [hclean] at hmem'
  obtain ⟨s,hs,heq⟩ := List.mem_map.mp hmem
  obtain ⟨t,ht,heq'⟩ := List.mem_map.mp hmem'
  obtain ⟨rfl,rfl⟩ := Prod.mk.inj heq
  obtain ⟨rfl,rfl⟩ := Prod.mk.inj heq'
  -- a file that is gone is not among those left, so it is one of the first
  have hfirst : s ∈ kept.take (kept.length-keep) := by
    rw [← List.take_append_drop (kept.length-keep) kept] at hs
    rcases List.mem_append.mp hs with hs | hs
    · exact hs
    · have hstill := OrdMap.mem_toList.mp (hclean ▸ List.mem_map_of_mem (f := fun s : Snapshot =>
        (fileName s.sequence,s.fileBytes crc32)) hs)
      rw [hgone] at hstill
      cases hstill
  have hkept := (List.pairwise_append.mp hseq).2.1
  rw [← List.take_append_drop (kept.length-keep) kept] at hkept
  refine ⟨s,t,loadFromFile_fileBytes s (h.fits s ?_),loadFromFile_fileBytes t (h.fits t ?_),
    (List.pairwise_append.mp hkept).2.2 s hfirst t ht⟩
  · exact List.mem_append_right _ (List.mem_of_mem_take hfirst)
  · exact List.mem_append_right _ (List.mem_of_mem_drop ht)

/-- Up to twelve digits a snapshot newer than all others is named last. -/
theorem Kept.namedLast (h : Kept crc32 dir log) {s : Snapshot} (hnew : ∀ t ∈ log, t.sequence < s.sequence)
    (hdigits : s.sequence.toNat < 10^12) : NamedLast dir s := by
  intro name bs hget
  obtain ⟨t,ht,rfl,-⟩ := h.of_get hget
  exact fileName_lt (hnew t ht) hdigits

/-! ### What a save that is found says about its file -/

theorem fileName_inj {a b : UInt64} : fileName a = fileName b ↔ a = b := by
  constructor
  · intro h
    have hlist := congrArg String.toList h
    rw [toList_fileName,toList_fileName,List.append_left_inj,List.append_right_inj,Decimal.padded_inj] at hlist
    exact UInt64.toNat_inj.mp hlist
  · exact congrArg _

theorem length_of_loadFromFile {bs : List UInt8} {s : Snapshot} (h : loadFromFile crc32 bs = .ok s) :
    s.data.length < 2^32 := by
  unfold loadFromFile at h
  cases hseq : Wire.le64.read bs with
  | none => rw [hseq] at h; cases h
  | some r =>
    simp only [hseq] at h
    cases hhdr : Wire.le32.read r.2 with
    | none => rw [hhdr] at h; cases h
    | some len =>
      simp only [hhdr,readExact] at h
      by_cases hlen : len.1.toNat ≤ len.2.length
      · have hs : s.data = len.2.take len.1.toNat := by
          simp only [if_pos hlen] at h
          cases hcrc : Wire.le32.read (len.2.drop len.1.toNat) with
          | none => rw [hcrc] at h; rw [← Except.ok.inj h]
          | some crc =>
            simp only [hcrc] at h
            split_ifs at h
            rw [← Except.ok.inj h]
        rw [hs,List.length_take]
        exact (Nat.min_le_left _ _).trans_lt len.1.toNat_lt
      · rw [if_neg hlen] at h
        cases h

/-- A snapshot that is newer than the others and found after its save has the last name and data that fits. -/
theorem Kept.sound_of_found (h : Kept crc32 dir log) {s : Snapshot} (hnew : ∀ t ∈ log, t.sequence < s.sequence)
    (hfound : Snapshot.loadLatest crc32 (Snapshot.save crc32 dir s) = .ok (some s)) :
    NamedLast dir s ∧ s.data.length < 2^32 := by
  rw [Snapshot.loadLatest] at hfound
  rcases OrdMap.last?_insert dir (fileName s.sequence) (s.fileBytes crc32) with hlast | ⟨hlast,-⟩
  · rw [Snapshot.save,hlast] at hfound
    have hload : loadFromFile crc32 (s.fileBytes crc32) = .ok s := by
      simp only at hfound
      cases hr : loadFromFile crc32 (s.fileBytes crc32) with
      | error e => rw [hr] at hfound; cases hfound
      | ok t => rw [hr] at hfound; exact congrArg Except.ok (Option.some.inj (Except.ok.inj hfound))
    refine ⟨fun name bs hget => ?_,length_of_loadFromFile hload⟩
    obtain ⟨t,ht,rfl,-⟩ := h.of_get hget
    have hne : fileName s.sequence ≠ fileName t.sequence := fun heq =>
      absurd (hnew t ht) (fileName_inj.mp heq ▸ UInt64.lt_irrefl _)
    exact (OrdMap.last?_eq_some hlast).2 _ bs (by rw [OrdMap.get_insert,if_neg hne,hget]) hne.symm
  · -- the file found is that of an older snapshot
    rw [Snapshot.save,hlast] at hfound
    cases hl : dir.last? with
    | none => rw [hl] at hfound; cases hfound
    | some e =>
      obtain ⟨t,ht,-,hload⟩ := h.of_get (OrdMap.last?_eq_some hl).1
      have hlt := hnew t ht
      rw [hl] at hfound
      simp only [hload] at hfound
      rw [Option.some.inj (Except.ok.inj hfound)] at hlt
      exact absurd hlt (UInt64.lt_irrefl _)

/-! ### Runs -/

theorem dirAfter_concat (ops : List DirOp) (op : DirOp) :
    dirAfter crc32 (ops ++ [op]) = op.apply crc32 (dirAfter crc32 ops) := by
  rw [dirAfter,List.foldl_append]
  rfl

theorem saved_concat (ops : List DirOp) (op : DirOp) : saved (ops ++ [op]) = saved ops ++ op.snapshots := by
  rw [saved,List.flatMap_append,List.flatMap_singleton]
  rfl

theorem saved_front {front ops : List DirOp} (h : front <+: ops) : saved front <+: saved ops := by
  obtain ⟨rest,rfl⟩ := h
  rw [saved,saved,List.flatMap_append]
  exact List.prefix_append _ _

theorem Kept.apply (h : Kept crc32 dir log) {op : DirOp} (hsound : op.Sound dir)
    (hkeep : ∀ keep, op = .cleanupOld keep → 0 < keep) : Kept crc32 (op.apply crc32 dir) (log ++ op.snapshots) := by
  cases op with
  | save s => exact h.save hsound.1 hsound.2
  | cleanupOld keep =>
    change Kept crc32 (Snapshot.cleanupOld dir keep) (log ++ [])
    rw [List.append_nil]
    exact h.cleanupOld (hkeep keep rfl)

/-- Calls as they should come: saves of growing sequences, and clean-ups that keep something. -/
structure Orderly (ops : List DirOp) : Prop where
  sequences : (saved ops).Pairwise fun s t => s.sequence < t.sequence
  keeps : ∀ keep, .cleanupOld keep ∈ ops → 0 < keep

theorem Orderly.front {front ops : List DirOp} (h : Orderly ops) (hfront : front <+: ops) : Orderly front :=
  ⟨h.sequences.sublist (saved_front hfront).sublist,fun keep hmem => h.keeps keep (hfront.subset hmem)⟩

theorem Orderly.last {front : List DirOp} {op : DirOp} (h : Orderly (front ++ [op])) {keep : ℕ}
    (hop : op = .cleanupOld keep) : 0 < keep :=
  h.keeps keep (List.mem_append_right _ (hop ▸ List.mem_singleton_self _))

theorem Orderly.newer {front : List DirOp} {s : Snapshot} (h : Orderly (front ++ [.save s])) :
    ∀ t ∈ saved front, t.sequence < s.sequence := by
  have hseq := h.sequences
  rw [saved_concat] at hseq
  exact fun t ht => (List.pairwise_append.mp hseq).2.2 t ht s (List.mem_singleton_self s)

/-- After every call the newest snapshot is the one found, and every clean-up removes older snapshots only, exactly
when every save names its file last and has data whose length fits. -/
theorem latest_iff {ops : List DirOp} (h : Orderly ops) :
    (∀ front op, front ++ [op] <+: ops →
      loadLatest crc32 (dirAfter crc32 (front ++ [op])) = .ok (saved (front ++ [op])).getLast? ∧
        ∀ keep, op = .cleanupOld keep → RemovesOlder crc32 (dirAfter crc32 front) (dirAfter crc32 (front ++ [op]))) ↔
      ∀ front op, front ++ [op] <+: ops → op.Sound (dirAfter crc32 front) := by
  have hkeep : ∀ front op, front ++ [op] <+: ops → op.Sound (dirAfter crc32 front) →
      Kept crc32 (dirAfter crc32 front) (saved front) →
        Kept crc32 (dirAfter crc32 (front ++ [op])) (saved (front ++ [op])) := by
    intro front op hfront hsound hkept
    rw [dirAfter_concat,saved_concat]
    exact hkept.apply hsound fun keep => (h.front hfront).last
  refine Runs.forall_iff (fun front => Kept crc32 (dirAfter crc32 front) (saved front)) Kept.empty
    (fun front op hfront hkept hsound => hkeep front op hfront hsound hkept) fun front op hfront hkept => ⟨?_,?_⟩
  · rintro ⟨hfound,-⟩
    cases op with
    | save s =>
      rw [saved_concat,dirAfter_concat,show (DirOp.save s).snapshots = [s] from rfl,List.getLast?_concat] at hfound
      exact hkept.sound_of_found (h.front hfront).newer hfound
    | cleanupOld keep => exact trivial
  · intro hsound
    refine ⟨(hkeep front op hfront hsound hkept).loadLatest,?_⟩
    rintro keep rfl
    rw [dirAfter_concat]
    exact hkept.removesOlder (h.front ((List.prefix_append front _).trans hfront)).sequences keep

/-- Twelve digits are enough. -/
theorem sound_of_digits {ops : List DirOp} (h : Orderly ops)
    (hsmall : ∀ s ∈ saved ops, s.sequence.toNat < 10^12 ∧ s.data.length < 2^32) :
    ∀ front op, front ++ [op] <+: ops → op.Sound (dirAfter crc32 front) := by
  have hstep : ∀ front op, front ++ [op] <+: ops → Kept crc32 (dirAfter crc32 front) (saved front) →
      op.Sound (dirAfter crc32 front) := by
    intro front op hfront hkept
    cases op with
    | save s =>
      have hs : s ∈ saved ops := (saved_front hfront).subset (by
        rw [saved_concat]
        exact List.mem_append_right _ (List.mem_singleton_self s))
      exact ⟨hkept.namedLast (h.front hfront).newer (hsmall s hs).1,(hsmall s hs).2⟩
    | cleanupOld keep => exact trivial
  intro front op hfront
  refine hstep front op hfront (Runs.invariant (fun front => Kept crc32 (dirAfter crc32 front) (saved front)) Kept.empty
    (fun front op hfront hkept => ?_) front ((List.prefix_append front [op]).trans hfront))
  rw [dirAfter_concat,saved_concat]
  exact hkept.apply (hstep front op hfront hkept) fun keep => (h.front hfront).last

/-- Two saves and a clean-up that keeps one file. -/
theorem saved_twice :
    loadLatest Crc32.hash (dirAfter Crc32.hash [.save ⟨1,[5]⟩,.save ⟨2,[7]⟩,.cleanupOld 1]) = .ok (some ⟨2,[7]⟩) ∧
      RemovesOlder Crc32.hash (dirAfter Crc32.hash [.save ⟨1,[5]⟩,.save ⟨2,[7]⟩])
        (dirAfter Crc32.hash [.save ⟨1,[5]⟩,.save ⟨2,[7]⟩,.cleanupOld 1]) := by
  have horderly : Orderly [.save ⟨1,[5]⟩,.save ⟨2,[7]⟩,.cleanupOld 1] := by
    refine ⟨by decide,fun keep hmem => ?_⟩
    obtain rfl : keep = 1 := by simpa using hmem
    decide
  obtain ⟨hfound,hremoves⟩ := (latest_iff horderly).mpr (sound_of_digits horderly (by decide))
    [.save ⟨1,[5]⟩,.save ⟨2,[7]⟩] (.cleanupOld 1) List.prefix_rfl
  exact ⟨hfound,hremoves 1 rfl⟩

/-- The first number of thirteen digits sorts before the last one of twelve: the older snapshot is found, and a
clean-up removes the newer one. -/
theorem thirteen_digits :
    Orderly [.save ⟨999999999999,[5]⟩,.save ⟨1000000000000,[7]⟩,.cleanupOld 1] ∧
      loadLatest Crc32.hash (dirAfter Crc32.hash [.save ⟨999999999999,[5]⟩,.save ⟨1000000000000,[7]⟩]) =
        .ok (some ⟨999999999999,[5]⟩) ∧
      (dirAfter Crc32.hash [.save ⟨999999999999,[5]⟩,.save ⟨1000000000000,[7]⟩,.cleanupOld 1]).toList =
        [(fileName 999999999999,fileBytes Crc32.hash ⟨999999999999,[5]⟩)] := by
  refine ⟨⟨by decide,fun keep hmem => ?_⟩,by decide +kernel,by decide +kernel⟩
  obtain rfl : keep = 1 := by simpa using hmem
  decide

end Snapshot
end HighPerfTrading
