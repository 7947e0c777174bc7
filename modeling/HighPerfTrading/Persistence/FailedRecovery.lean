import HighPerfTrading.Library.Decimal
import HighPerfTrading.Persistence.Recovery

/-! Recoveries that fail: a crash while a snapshot is being saved leaves a file that does not load, and a
restore that gives up half-way keeps what it has put in place. -/
namespace HighPerfTrading

/-! ### A crash while saving -/

namespace Snapshot
variable {crc32 : List UInt8 → UInt32}

theorem toList_fileName (a : UInt64) :
    (fileName a).toList = "snapshot_".toList ++ Decimal.padded 12 a.toNat ++ ".bin".toList :=
  String.toList_ofList

/-- Files are in the order of their sequences, up to twelve digits. -/
theorem fileName_lt {a b : UInt64} (hab : a < b) (hb : b.toNat < 10^12) :
    compare (fileName a) (fileName b) = .lt := by
  have hlt : fileName a < fileName b := by
    rw [String.lt_iff,toList_fileName,toList_fileName]
    exact Decimal.between_lt _ _ (by decide) (UInt64.lt_iff_toNat_lt.mp hab) hb
  exact Decimal.compare_of_lt hlt

/-- Every file loads, and is named by its sequence. -/
def ValidDir (crc32 : List UInt8 → UInt32) (dir : SnapshotDir) : Prop :=
  ∀ (name : String) bs, dir[name]? = some bs →
    ∃ s : Snapshot, name = fileName s.sequence ∧ loadFromFile crc32 bs = .ok s

/-- `save` stopped before it creates the file, or with the first `k` bytes written. -/
def saveCrashed (crc32 : List UInt8 → UInt32) (dir : SnapshotDir) (s : Snapshot) : Option ℕ → SnapshotDir
  | none => dir
  | some k => dir.insert (fileName s.sequence) ((s.fileBytes crc32).take k)

/-- The new snapshot has a larger sequence than every file. -/
def NewerThan (crc32 : List UInt8 → UInt32) (dir : SnapshotDir) (s : Snapshot) : Prop :=
  ∀ (name : String) bs old, dir[name]? = some bs → loadFromFile crc32 bs = .ok old → old.sequence < s.sequence

theorem last?_saveCrashed {dir : SnapshotDir} (hdir : ValidDir crc32 dir) {s : Snapshot} (hnew : NewerThan crc32 dir s)
    (hseq : s.sequence.toNat < 10^12) (bs : List UInt8) :
    OrdMap.last? (dir.insert (fileName s.sequence) bs) = some (fileName s.sequence,bs) := by
  refine OrdMap.last?_insert_max bs fun name old hget _ => ?_
  obtain ⟨t,rfl,ht⟩ := hdir name old hget
  exact fileName_lt (hnew _ old t hget ht) hseq

/-- The data has to be there; the checksum does not. -/
theorem loadFromFile_take {s : Snapshot} (hdata : s.data.length < 2^32) (k : ℕ) :
    loadFromFile crc32 ((s.fileBytes crc32).take k) =
      if 12+s.data.length ≤ k then .ok s else .error .unexpectedEof := by
  have hlen : (UInt32.ofNat s.data.length).toNat = s.data.length := by
    rw [UInt32.toNat_ofNat',Nat.mod_eq_of_lt hdata]
  have hbytes : s.fileBytes crc32 = Wire.le64.write s.sequence ++ (Wire.le32.write (UInt32.ofNat s.data.length) ++
      (s.data ++ (Wire.le32.write (crc32 s.data) ++ []))) := by
    simp [fileBytes]
  rw [loadFromFile,hbytes,Wire.le64_take]
  by_cases h8 : 8 ≤ k
  · rw [if_pos h8]
    simp only [Wire.le32_take]
    by_cases h12 : 4 ≤ k-8
    · simp only [if_pos h12,hlen,readExact_take]
      by_cases hd : s.data.length ≤ k-8-4
      · simp only [if_pos hd,Wire.le32_take,if_pos (show 12+s.data.length ≤ k by omega)]
        by_cases h16 : 4 ≤ k-8-4-s.data.length
        · simp only [if_pos h16,ne_eq,not_true_eq_false,if_false]
        · simp only [if_neg h16]
      · simp only [if_neg hd,if_neg (show ¬ 12+s.data.length ≤ k by omega)]
    · simp only [if_neg h12,if_neg (show ¬ 12+s.data.length ≤ k by omega)]
  · simp only [if_neg h8,if_neg (show ¬ 12+s.data.length ≤ k by omega)]

/-- A crash while saving leaves the new snapshot or the one before exactly when it comes before the file is
created, over an older snapshot, or after all of the data is written. -/
theorem saveCrashed_iff {dir : SnapshotDir} (hdir : ValidDir crc32 dir) {s : Snapshot} (hnew : NewerThan crc32 dir s)
    (hseq : s.sequence.toNat < 10^12) (hdata : s.data.length < 2^32) (crash : Option ℕ) :
    (∃ t, loadLatest crc32 (saveCrashed crc32 dir s crash) = .ok (some t) ∧
        (t = s ∨ loadLatest crc32 dir = .ok (some t))) ↔
      (crash = none ∧ dir ≠ ∅) ∨ ∃ k, crash = some k ∧ 12+s.data.length ≤ k := by
  cases crash with
  | none =>
    cases hl : dir.last? with
    | none =>
      have hempty : dir = ∅ := OrdMap.ext fun name => by rw [OrdMap.last?_eq_none.mp hl name]; simp
      refine iff_of_false ?_ ?_
      · rintro ⟨t,ht,-⟩
        rw [saveCrashed,loadLatest,hl] at ht
        cases ht
      · rintro (⟨-,hne⟩ | ⟨k,hk,-⟩)
        · exact hne hempty
        · cases hk
    | some e =>
      obtain ⟨t,-,ht⟩ := hdir e.1 e.2 (OrdMap.last?_eq_some hl).1
      have hload : loadLatest crc32 dir = .ok (some t) := by
        rw [loadLatest,hl]
        simp only [ht]
        rfl
      refine iff_of_true ⟨t,hload,Or.inr hload⟩ (Or.inl ⟨rfl,?_⟩)
      rintro rfl
      simpa using (OrdMap.last?_eq_some hl).1
  | some k =>
    have hload : loadLatest crc32 (saveCrashed crc32 dir s (some k)) =
        (if 12+s.data.length ≤ k then .ok s else .error .unexpectedEof : Except SnapshotError Snapshot).map some := by
      rw [loadLatest,saveCrashed,last?_saveCrashed hdir hnew hseq]
      simp only [loadFromFile_take hdata]
    rw [hload]
    split_ifs with hk
    · exact iff_of_true ⟨s,rfl,Or.inl rfl⟩ (Or.inr ⟨k,rfl,hk⟩)
    · refine iff_of_false ?_ ?_
      · rintro ⟨t,ht,-⟩
        cases ht
      · rintro (⟨hnone,-⟩ | ⟨k',hk',hle⟩)
        · cases hnone
        · exact hk (Option.some.inj hk' ▸ hle)

theorem validDir_save {dir : SnapshotDir} (hdir : ValidDir crc32 dir) {s : Snapshot} (hdata : s.data.length < 2^32) :
    ValidDir crc32 (save crc32 dir s) := by
  intro name bs hget
  rw [save,OrdMap.get_insert] at hget
  split_ifs at hget with hname
  · rw [← Option.some.inj hget]
    exact ⟨s,hname.symm,loadFromFile_fileBytes s hdata⟩
  · exact hdir name bs hget

theorem validDir_empty : ValidDir crc32 ∅ := fun name bs hget => by simp at hget

/-- All but the checksum is written. -/
theorem saveCrashed_checksum :
    ∃ t, loadLatest Crc32.hash (saveCrashed Crc32.hash (save Crc32.hash ∅ ⟨1,[5]⟩) ⟨2,[7]⟩ (some 13)) = .ok (some t) ∧
      (t = ⟨2,[7]⟩ ∨ loadLatest Crc32.hash (save Crc32.hash ∅ ⟨1,[5]⟩) = .ok (some t)) := by
  refine (saveCrashed_iff (validDir_save validDir_empty (by decide)) ?_ (by decide) (by decide) _).mpr
    (Or.inr ⟨13,rfl,by decide⟩)
  intro name bs old hget hold
  rw [save,OrdMap.get_insert] at hget
  split_ifs at hget
  · rw [← Option.some.inj hget,loadFromFile_fileBytes _ (by decide)] at hold
    rw [← Except.ok.inj hold]
    decide
  · simp at hget

/-- A file that is created and still empty hides the snapshot before it. -/
theorem saveCrashed_empty_file :
    loadLatest Crc32.hash (save Crc32.hash ∅ ⟨1,[5]⟩) = .ok (some ⟨1,[5]⟩) ∧
      loadLatest Crc32.hash (saveCrashed Crc32.hash (save Crc32.hash ∅ ⟨1,[5]⟩) ⟨2,[7]⟩ (some 0)) =
        .error .unexpectedEof := by
  refine ⟨loadLatest_eq (OrdMap.last?_insert_max _ fun name bs hget => by simp at hget) (by decide),?_⟩
  have hnew : OrdMap.last? (saveCrashed Crc32.hash (save Crc32.hash ∅ ⟨1,[5]⟩) ⟨2,[7]⟩ (some 0)) =
      some (fileName 2,[]) := by
    refine OrdMap.last?_insert_max _ fun name bs hget _ => ?_
    rw [save,OrdMap.get_insert] at hget
    split_ifs at hget with hname
    · rw [← hname]
      exact fileName_lt (by decide) (by decide)
    · simp at hget
  rw [loadLatest,hnew]
  rfl

end Snapshot

/-! ### A restore that fails -/

namespace Engine
variable {S : Type} [Slab S Order] {postcard : Postcard} {crc32 : List UInt8 → UInt32}

/-- What the latest snapshot can put in place is in place: its book, and with its accounts also these and the
two counters. -/
def AlreadyInPlace (postcard : Postcard) (crc32 : List UInt8 → UInt32) (e : Engine S) (dir : SnapshotDir) : Prop :=
  ∀ s combined book, Snapshot.loadLatest crc32 dir = .ok (some s) →
    postcard.engineSnapshot.decode s.data = some combined →
    e.book.restoreFromSnapshot postcard.orders combined.book = some book →
    book = e.book ∧ ∀ accounts, postcard.accounts.decode combined.accounts = some accounts →
      accounts = e.accountManager ∧ s.sequence = e.commandSeq ∧ s.sequence+1 = e.serverSeq

/-- A failed journal has replayed nothing. -/
theorem replayJournal_error {e : Engine S} {file : List UInt8} {err : RestoreError}
    (h : (e.replayJournal postcard crc32 file).2 = .error err) : (e.replayJournal postcard crc32 file).1 = e := by
  unfold replayJournal at h ⊢
  cases hread : readAll postcard.command crc32 file with
  | error _ => rfl
  | ok all => rw [hread] at h; cases h

/-- Putting a snapshot in place changes nothing exactly when it is in place. -/
theorem loadSnapshot_eq_iff (e : Engine S) (s : Snapshot) :
    (e.loadSnapshot postcard s).1 = e ↔ ∀ combined book, postcard.engineSnapshot.decode s.data = some combined →
      e.book.restoreFromSnapshot postcard.orders combined.book = some book →
      book = e.book ∧ ∀ accounts, postcard.accounts.decode combined.accounts = some accounts →
        accounts = e.accountManager ∧ s.sequence = e.commandSeq ∧ s.sequence+1 = e.serverSeq := by
  unfold loadSnapshot
  cases hc : postcard.engineSnapshot.decode s.data with
  | none => exact iff_of_true rfl (by rintro _ _ ⟨⟩)
  | some combined =>
    cases hb : e.book.restoreFromSnapshot postcard.orders combined.book with
    | none =>
      simp only [hb]
      exact iff_of_true trivial (by rintro _ _ ⟨⟩ hbook; rw [hb] at hbook; cases hbook)
    | some book =>
      cases ha : postcard.accounts.decode combined.accounts with
      | none =>
        simp only [hb,ha]
        constructor
        · rintro heq _ _ ⟨⟩ hbook
          rw [hb] at hbook
          obtain rfl := Option.some.inj hbook
          exact ⟨congrArg Engine.book heq,fun accounts hacc => by rw [ha] at hacc; cases hacc⟩
        · intro h
          rw [(h combined book rfl hb).1]
      | some accounts =>
        simp only [hb,ha]
        constructor
        · rintro heq _ _ ⟨⟩ hbook
          rw [hb] at hbook
          obtain rfl := Option.some.inj hbook
          refine ⟨congrArg Engine.book heq,fun accounts' hacc => ?_⟩
          rw [ha] at hacc
          obtain rfl := Option.some.inj hacc
          exact ⟨congrArg Engine.accountManager heq,congrArg Engine.commandSeq heq,congrArg Engine.serverSeq heq⟩
        · intro h
          obtain ⟨hbook,hrest⟩ := h combined book rfl hb
          obtain ⟨hacc,hcmd,hserver⟩ := hrest accounts ha
          rw [hbook,hacc,hserver,hcmd]

/-- A restore that fails leaves the engine as it was exactly when what its snapshot can put in place is in
place already. -/
theorem restore_failed_iff {e : Engine S} {dir : SnapshotDir} {file : List UInt8} {err : RestoreError}
    (h : (e.restoreFromPersistence postcard crc32 dir file).2 = .error err) :
    (e.restoreFromPersistence postcard crc32 dir file).1 = e ↔ e.AlreadyInPlace postcard crc32 dir := by
  have hload : (e.restoreFromPersistence postcard crc32 dir file).1 = (e.loadLatest postcard crc32 dir).1 := by
    unfold restoreFromPersistence at h ⊢
    rcases hr : e.loadLatest postcard crc32 dir with ⟨e',r⟩
    rw [hr] at h
    cases r with
    | error err' => rfl
    | ok _ => exact replayJournal_error h
  rw [hload,loadLatest,AlreadyInPlace]
  cases hl : Snapshot.loadLatest crc32 dir with
  | error err' => exact iff_of_true rfl (by rintro _ _ _ ⟨⟩)
  | ok latest =>
    cases latest with
    | none => exact iff_of_true rfl (by rintro _ _ _ ⟨⟩)
    | some s =>
      refine (loadSnapshot_eq_iff e s).trans ⟨?_,fun hall combined book => hall s combined book rfl⟩
      rintro hall _ combined book ⟨⟩
      exact hall combined book

/-- No snapshot, and a journal whose only payload is cut. -/
theorem restore_failed_journal :
    ((new : Engine (FreeListSlab Order)).restoreFromPersistence Postcard.standard Crc32.hash ∅ [5,0,0,0,1]).1 = new := by
  have herr : ((new : Engine (FreeListSlab Order)).restoreFromPersistence Postcard.standard Crc32.hash ∅
      [5,0,0,0,1]).2 = .error (.journal .unexpectedEof) := by decide +kernel
  refine (restore_failed_iff herr).mpr fun s combined book hs => ?_
  have hnone : Snapshot.loadLatest Crc32.hash ∅ = .ok none := by decide +kernel
  rw [hnone] at hs
  cases hs

/-- The snapshot's book and counters stay behind when the journal fails, and its book alone when the accounts do
not decode. -/
theorem restore_half_done :
    let e := (new : Engine (FreeListSlab Order)).live (.newOrder ⟨1,1,7,1,.buy,100,5,.gtc,⟨false⟩⟩)
    let whole := e.snapshotData Postcard.standard
    let noAccounts := EngineSnapshot.wire.write ⟨e.book.serializeSnapshot Postcard.standard.orders,[]⟩
    let afterJournal := (new : Engine (FreeListSlab Order)).restoreFromPersistence Postcard.standard Crc32.hash
      (Snapshot.save Crc32.hash ∅ ⟨1,whole⟩) [5,0,0,0,1]
    let afterAccounts := (new : Engine (FreeListSlab Order)).restoreFromPersistence Postcard.standard Crc32.hash
      (Snapshot.save Crc32.hash ∅ ⟨1,noAccounts⟩) []
    (∃ err, afterJournal.2 = .error err) ∧ afterJournal.1.commandSeq = 1 ∧ (afterJournal.1.book.get 1).isSome ∧
      (∃ err, afterAccounts.2 = .error err) ∧ afterAccounts.1.commandSeq = 0 ∧
      (afterAccounts.1.book.get 1).isSome := by
  refine ⟨⟨.journal .unexpectedEof,?_⟩,?_,?_,⟨.deserialize,?_⟩,?_,?_⟩ <;> decide +kernel

end Engine
end HighPerfTrading
