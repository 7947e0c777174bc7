import HighPerfTrading.Common.Wire
import HighPerfTrading.Gateway.AccountManager
import HighPerfTrading.Persistence.Journal

/-! How the gateway gets its accounts back: a journal of every account creation, synced with each of them, and
snapshots of all accounts. At startup the latest snapshot is restored and the whole journal is replayed over it. -/
namespace HighPerfTrading
namespace Gateway

/-- Only the creation of accounts is journaled. -/
inductive AccountUpdate
  | createAccount (accountId : AccountId) (buyingPower : Int64)
  deriving DecidableEq

structure AccountStateSnapshot where
  accountId : AccountId
  buyingPower : Int64
  positions : List (SymbolId × Position)
  riskLimits : List (SymbolId × RiskLimits)

structure AccountSnapshot where
  sequence : UInt64
  accounts : List AccountStateSnapshot

namespace AccountUpdate

def write : AccountUpdate → List UInt8
  | .createAccount accountId buyingPower => 0::(Wire.u32.pair Wire.i64).write (accountId,buyingPower)

def read (bs : List UInt8) : Option (AccountUpdate × List UInt8) :=
  ((Wire.varint 5).read bs).bind fun (tag,bs) =>
    match tag with
    | 0 => ((Wire.u32.pair Wire.i64).read bs).map fun r => (.createAccount r.1.1 r.1.2,r.2)
    | _ => none

def wire : Wire AccountUpdate where
  write := write
  read := read
  read_write update rest := by
    cases update
    simp [write,read]

end AccountUpdate

/-! ### The journal file -/

namespace AccountJournal
variable (postcard : Codec AccountUpdate) (crc32 : List UInt8 → UInt32)

/-- `[u32 len][payload][u32 crc32]`. -/
def writeFrame (update : AccountUpdate) : List UInt8 :=
  let payload := postcard.encode update
  Wire.le32.write (UInt32.ofNat payload.length) ++ payload ++ Wire.le32.write (crc32 payload)

def readFrames : ℕ → ℕ → List UInt8 → Except JournalError (List AccountUpdate)
  | 0,_,_ => .ok []
  | fuel+1,offset,bs =>
    match Wire.le32.read bs with
    | none => .ok []
    | some (hdr,bs) =>
      if maxPayload < hdr.toNat then .error (.frameTooLarge hdr.toNat (offset+4)) else
        match readExact hdr.toNat bs with
        | none => .error .unexpectedEof
        | some (buf,bs) =>
          match Wire.le32.read bs with
          | none => .ok []
          | some (expected,bs) =>
            if crc32 buf ≠ expected then .ok [] else
              match postcard.decode buf with
              | none => .error .deserialize
              | some update => (readFrames fuel (offset+4+hdr.toNat+4) bs).map (update::·)

def readAll (file : List UInt8) : Except JournalError (List AccountUpdate) :=
  readFrames postcard crc32 (file.length+1) 0 file

/-- Updates whose payload a reader accepts. -/
def Fits (update : AccountUpdate) : Prop := (postcard.encode update).length ≤ maxPayload

instance (update : AccountUpdate) : Decidable (Fits postcard update) := inferInstanceAs (Decidable (_ ≤ _))

variable {postcard} {crc32} {updates : List AccountUpdate}

theorem readFrames_frames (h : ∀ update ∈ updates, Fits postcard update) (fuel offset : ℕ) :
    readFrames postcard crc32 (updates.length+fuel) offset (updates.flatMap (writeFrame postcard crc32)) =
      .ok updates := by
  induction updates generalizing offset with
  | nil => cases fuel <;> rfl
  | cons update updates ih =>
    have hfit := h update (List.mem_cons_self ..)
    have hlen := toNat_length hfit
    have hrest := ih (fun u hu => h u (List.mem_cons_of_mem _ hu)) (offset+4+(postcard.encode update).length+4)
    rw [List.length_cons,Nat.add_right_comm,List.flatMap_cons]
    simp only [writeFrame,List.append_assoc,readFrames,Wire.read_write,hlen,if_neg (Nat.not_lt.mpr hfit),
      readExact_append,ne_eq,not_true_eq_false,if_false,Codec.decode_encode]
    change (readFrames postcard crc32 (updates.length+fuel) _ (updates.flatMap (writeFrame postcard crc32))).map _ = _
    rw [hrest]
    rfl

theorem length_le_frames (postcard : Codec AccountUpdate) (crc32 : List UInt8 → UInt32) (updates : List AccountUpdate) :
    updates.length ≤ (updates.flatMap (writeFrame postcard crc32)).length := by
  induction updates with
  | nil => exact Nat.le_refl 0
  | cons update updates ih =>
    rw [List.flatMap_cons,List.length_append,List.length_cons]
    simp only [writeFrame,List.length_append,Wire.length_le32] at ih ⊢
    omega

theorem readAll_frames (h : ∀ update ∈ updates, Fits postcard update) :
    readAll postcard crc32 (updates.flatMap (writeFrame postcard crc32)) = .ok updates := by
  obtain ⟨fuel,hfuel⟩ := Nat.exists_eq_add_of_le (length_le_frames postcard crc32 updates)
  rw [readAll,hfuel,Nat.add_assoc]
  exact readFrames_frames h (fuel+1) 0

end AccountJournal

/-! ### Snapshots and replay -/

def AccountState.snapshot (s : AccountState) : AccountStateSnapshot :=
  ⟨s.accountId,s.buyingPower,s.positions.toList,s.riskLimits.toList⟩

def AccountStateSnapshot.restore (acc : AccountStateSnapshot) : AccountState :=
  { AccountState.new acc.accountId acc.buyingPower with
    positions := acc.positions.foldl (fun m e => m.insert e.1 e.2) ∅
    riskLimits := acc.riskLimits.foldl (fun m e => m.insert e.1 e.2) ∅ }

namespace AccountManager

def createSnapshot (m : AccountManager) (sequence : UInt64) : AccountSnapshot :=
  ⟨sequence,m.accounts.toList.map fun e => e.2.snapshot⟩

def restoreFromSnapshot (m : AccountManager) (snapshot : AccountSnapshot) : AccountManager :=
  { m with accounts := snapshot.accounts.foldl (fun accounts acc => accounts.insert acc.accountId acc.restore) ∅ }

/-- A creation puts a fresh account in place, whatever is there. -/
def replayUpdate (m : AccountManager) : AccountUpdate → AccountManager
  | .createAccount accountId buyingPower => m.put accountId (AccountState.new accountId buyingPower)

def replayJournal (m : AccountManager) (updates : List AccountUpdate) : AccountManager := updates.foldl replayUpdate m

end AccountManager

/-- The gateway's accounts, with the journal file and the latest snapshot on disk. -/
structure AccountServer where
  accountManager : AccountManager
  file : List UInt8
  snapshot : Option AccountSnapshot

namespace AccountServer
variable (postcard : Codec AccountUpdate) (crc32 : List UInt8 → UInt32)

/-- Create the account, then append to the journal with an immediate sync. -/
def createAccount (sv : AccountServer) (accountId : AccountId) (buyingPower : Int64) : AccountServer :=
  { sv with
    accountManager := sv.accountManager.createAccount accountId buyingPower
    file := sv.file ++ AccountJournal.writeFrame postcard crc32 (.createAccount accountId buyingPower) }

def applyFill (sv : AccountServer) (fill : Fill) (token : ReservationToken) (isBuy : Bool) : AccountServer :=
  { sv with accountManager := sv.accountManager.applyFill fill token isBuy }

def takeSnapshot (sv : AccountServer) (sequence : UInt64) : AccountServer :=
  { sv with snapshot := some (sv.accountManager.createSnapshot sequence) }

/-- The accounts after a restart. The journal is read from its start, with or without a snapshot. -/
def startUp (sv : AccountServer) : Except JournalError AccountManager :=
  (AccountJournal.readAll postcard crc32 sv.file).map fun updates =>
    match sv.snapshot with
    | some snapshot => (AccountManager.new.restoreFromSnapshot snapshot).replayJournal updates
    | none => AccountManager.new.replayJournal updates

end AccountServer

/-! ### Histories -/

namespace AccountUpdate

def accountId : AccountUpdate → AccountId
  | .createAccount accountId _ => accountId

def buyingPower : AccountUpdate → Int64
  | .createAccount _ buyingPower => buyingPower

/-- What the last creation of an account funds it with. -/
def lastCreation (updates : List AccountUpdate) (a : AccountId) : Option Int64 :=
  (updates.reverse.find? fun update => update.accountId = a).map buyingPower

theorem lastCreation_append (before since : List AccountUpdate) (a : AccountId) :
    lastCreation (before ++ since) a = (lastCreation since a).or (lastCreation before a) := by
  rw [lastCreation,lastCreation,lastCreation,List.reverse_append,List.find?_append,Option.map_or]

end AccountUpdate

open AccountUpdate (lastCreation lastCreation_append)

namespace AccountManager

theorem accounts_replayJournal (m : AccountManager) (updates : List AccountUpdate) (a : AccountId) :
    (m.replayJournal updates).accounts[a]? =
      ((lastCreation updates a).map (AccountState.new a)).or m.accounts[a]? := by
  have hfold : (m.replayJournal updates).accounts = updates.foldl (fun accounts update =>
      accounts.insert update.accountId (AccountState.new update.accountId update.buyingPower)) m.accounts := by
    induction updates generalizing m with
    | nil => rfl
    | cons update updates ih =>
      cases update with
      | createAccount accountId buyingPower => exact ih _
  rw [hfold,OrdMap.get_foldl_insert AccountUpdate.accountId
    (fun update => AccountState.new update.accountId update.buyingPower),lastCreation]
  cases hfind : updates.reverse.find? fun update => update.accountId = a with
  | none => rfl
  | some update =>
    have ha : update.accountId = a := by simpa using List.find?_some hfind
    rw [Option.map_some,Option.map_some,Option.map_some,ha]

/-- Whatever is restored or replayed holds nothing. -/
theorem restored_free (snapshot : AccountSnapshot) {a : AccountId} {st : AccountState}
    (hst : (AccountManager.new.restoreFromSnapshot snapshot).accounts[a]? = some st) : st.tentativeReserved = 0 := by
  simp only [restoreFromSnapshot,OrdMap.get_foldl_insert AccountStateSnapshot.accountId] at hst
  cases hfind : snapshot.accounts.reverse.find? fun acc => acc.accountId = a with
  | none => rw [hfind] at hst; simp at hst
  | some acc =>
    rw [hfind] at hst
    obtain rfl := Option.some.inj hst
    rfl

theorem replayed_free {m : AccountManager} (hm : ∀ (a : AccountId) st, m.accounts[a]? = some st → st.tentativeReserved = 0)
    (updates : List AccountUpdate) {a : AccountId} {st : AccountState}
    (hst : (m.replayJournal updates).accounts[a]? = some st) : st.tentativeReserved = 0 := by
  rw [accounts_replayJournal] at hst
  cases hlast : lastCreation updates a with
  | none =>
    rw [hlast,Option.map_none,Option.none_or] at hst
    exact hm a st hst
  | some buyingPower =>
    rw [hlast] at hst
    obtain rfl := Option.some.inj hst
    rfl

end AccountManager

namespace AccountServer
/-- Accounts are created and journaled, fills change them, snapshots are taken, and the gateway restarts. `updates`
is everything journaled, `since` what came after the latest snapshot. -/
inductive Run (postcard : Codec AccountUpdate) (crc32 : List UInt8 → UInt32) :
    AccountServer → List AccountUpdate → List AccountUpdate → Prop
  | start : Run postcard crc32 ⟨AccountManager.new,[],none⟩ [] []
  | create {sv : AccountServer} {updates since : List AccountUpdate} (h : Run postcard crc32 sv updates since)
      (accountId : AccountId) (buyingPower : Int64)
      (hfit : AccountJournal.Fits postcard (.createAccount accountId buyingPower)) :
      Run postcard crc32 (sv.createAccount postcard crc32 accountId buyingPower)
        (updates ++ [.createAccount accountId buyingPower]) (since ++ [.createAccount accountId buyingPower])
  | fill {sv : AccountServer} {updates since : List AccountUpdate} (h : Run postcard crc32 sv updates since)
      (fill : Fill) (token : ReservationToken) (isBuy : Bool) :
      Run postcard crc32 (sv.applyFill fill token isBuy) updates since
  | snapshot {sv : AccountServer} {updates since : List AccountUpdate} (h : Run postcard crc32 sv updates since)
      (sequence : UInt64) :
      Run postcard crc32 (sv.takeSnapshot sequence) updates []
  | restart {sv : AccountServer} {updates since : List AccountUpdate} (h : Run postcard crc32 sv updates since)
      {m : AccountManager} (hm : sv.startUp postcard crc32 = .ok m) :
      Run postcard crc32 { sv with accountManager := m } updates since

variable {postcard : Codec AccountUpdate} {crc32 : List UInt8 → UInt32} {sv : AccountServer}
  {updates since : List AccountUpdate}

/-- The accounts of a restarted gateway hold nothing. -/
theorem startUp_free {m : AccountManager} (hm : sv.startUp postcard crc32 = .ok m) (a : AccountId) (st : AccountState)
    (hst : m.accounts[a]? = some st) : st.tentativeReserved = 0 := by
  unfold startUp at hm
  cases hread : AccountJournal.readAll postcard crc32 sv.file with
  | error err => rw [hread] at hm; cases hm
  | ok updates =>
    rw [hread] at hm
    obtain rfl := Except.ok.inj hm
    cases hsnap : sv.snapshot with
    | none =>
      rw [hsnap] at hst
      exact AccountManager.replayed_free (by simp [AccountManager.new]) updates hst
    | some snapshot =>
      rw [hsnap] at hst
      exact AccountManager.replayed_free (fun _ _ => AccountManager.restored_free snapshot) updates hst

/-- Every account is filed under its own id and has a creation in the journal. -/
def Journaled (updates : List AccountUpdate) (m : AccountManager) : Prop :=
  ∀ (a : AccountId) s, m.accounts[a]? = some s → s.accountId = a ∧ (lastCreation updates a).isSome

/-- The journal file has every creation; so has it those of the snapshot's accounts. -/
structure Kept (postcard : Codec AccountUpdate) (crc32 : List UInt8 → UInt32) (sv : AccountServer)
    (updates since : List AccountUpdate) : Prop where
  file : sv.file = updates.flatMap (AccountJournal.writeFrame postcard crc32)
  fits : ∀ update ∈ updates, AccountJournal.Fits postcard update
  suffix : ∃ before, updates = before ++ since
  accounts : Journaled updates sv.accountManager
  snapshot : ∀ snapshot, sv.snapshot = some snapshot → ∀ acc ∈ snapshot.accounts,
    (lastCreation updates acc.accountId).isSome

theorem Journaled.append (h : Journaled updates sv.accountManager) (more : List AccountUpdate) :
    Journaled (updates ++ more) sv.accountManager := by
  intro a s hs
  obtain ⟨hid,hlast⟩ := h a s hs
  rw [lastCreation_append,Option.isSome_or,hlast,Bool.or_true]
  exact ⟨hid,rfl⟩

namespace Kept

theorem startUp (h : Kept postcard crc32 sv updates since) :
    sv.startUp postcard crc32 = .ok (match sv.snapshot with
      | some snapshot => (AccountManager.new.restoreFromSnapshot snapshot).replayJournal updates
      | none => AccountManager.new.replayJournal updates) := by
  rw [AccountServer.startUp,h.file,AccountJournal.readAll_frames h.fits]
  rfl

/-- After a restart every journaled account is as it was created. -/
theorem accounts_startUp (h : Kept postcard crc32 sv updates since) {m : AccountManager}
    (hm : sv.startUp postcard crc32 = .ok m) {a : AccountId} {buyingPower : Int64}
    (hlast : lastCreation updates a = some buyingPower) : m.accounts[a]? = some (AccountState.new a buyingPower) := by
  rw [h.startUp] at hm
  rw [← Except.ok.inj hm]
  cases sv.snapshot with
  | none => rw [AccountManager.accounts_replayJournal,hlast,Option.map_some,Option.some_or]
  | some snapshot => rw [AccountManager.accounts_replayJournal,hlast,Option.map_some,Option.some_or]

/-- No account comes from anywhere but the journal. -/
theorem startUp_journaled (h : Kept postcard crc32 sv updates since) {m : AccountManager}
    (hm : sv.startUp postcard crc32 = .ok m) : Journaled updates m := by
  intro a s hs
  cases hlast : lastCreation updates a with
  | some buyingPower =>
    rw [h.accounts_startUp hm hlast] at hs
    rw [← Option.some.inj hs]
    exact ⟨rfl,rfl⟩
  | none =>
    rw [h.startUp] at hm
    rw [← Except.ok.inj hm] at hs
    cases hsnap : sv.snapshot with
    | none =>
      rw [hsnap] at hs
      simp only [AccountManager.accounts_replayJournal,hlast] at hs
      simp [AccountManager.new] at hs
    | some snapshot =>
      rw [hsnap] at hs
      simp only [AccountManager.accounts_replayJournal,hlast,AccountManager.restoreFromSnapshot,
        OrdMap.get_foldl_insert AccountStateSnapshot.accountId AccountStateSnapshot.restore] at hs
      cases hfind : snapshot.accounts.reverse.find? fun acc => acc.accountId = a with
      | none => simp [hfind] at hs
      | some acc =>
        have hmem := List.mem_reverse.mp (List.mem_of_find?_eq_some hfind)
        have ha : acc.accountId = a := by simpa using List.find?_some hfind
        have hkept := h.snapshot snapshot hsnap acc hmem
        rw [ha,hlast] at hkept
        cases hkept

theorem create (h : Kept postcard crc32 sv updates since) {a : AccountId} {buyingPower : Int64}
    (hfit : AccountJournal.Fits postcard (.createAccount a buyingPower)) :
    Kept postcard crc32 (sv.createAccount postcard crc32 a buyingPower) (updates ++ [.createAccount a buyingPower])
      (since ++ [.createAccount a buyingPower]) where
  file := by
    rw [AccountServer.createAccount,h.file,List.flatMap_append,List.flatMap_singleton]
  fits update hu := by
    rcases List.mem_append.mp hu with hu | hu
    · exact h.fits update hu
    · rwa [List.mem_singleton.mp hu]
  suffix := by
    obtain ⟨before,hbefore⟩ := h.suffix
    exact ⟨before,by rw [hbefore,List.append_assoc]⟩
  accounts c s hs := by
    simp only [AccountServer.createAccount,AccountManager.createAccount,OrdMap.get_insert] at hs
    split_ifs at hs with hc
    · rw [← Option.some.inj hs,lastCreation_append]
      subst hc
      exact ⟨rfl,by simp [lastCreation,AccountUpdate.accountId]⟩
    · exact h.accounts.append _ c s hs
  snapshot snapshot hsnap acc hacc := by
    rw [lastCreation_append,Option.isSome_or,h.snapshot snapshot hsnap acc hacc,Bool.or_true]

theorem fill (h : Kept postcard crc32 sv updates since) (fill : Fill) (token : ReservationToken) (isBuy : Bool) :
    Kept postcard crc32 (sv.applyFill fill token isBuy) updates since := by
  refine ⟨h.file,h.fits,h.suffix,fun a s hs => ?_,h.snapshot⟩
  simp only [AccountServer.applyFill,AccountManager.accounts_applyFill] at hs
  obtain ⟨old,hold,rfl⟩ := Option.map_eq_some_iff.mp hs
  obtain ⟨hid,hlast⟩ := h.accounts a old hold
  refine ⟨?_,hlast⟩
  split_ifs
  · exact hid
  · exact hid

theorem takeSnapshot (h : Kept postcard crc32 sv updates since) (sequence : UInt64) :
    Kept postcard crc32 (sv.takeSnapshot sequence) updates [] := by
  refine ⟨h.file,h.fits,⟨updates,(List.append_nil _).symm⟩,h.accounts,fun snapshot hsnap acc hacc => ?_⟩
  rw [← Option.some.inj hsnap] at hacc
  obtain ⟨e,he,rfl⟩ := List.mem_map.mp hacc
  obtain ⟨hid,hlast⟩ := h.accounts e.1 e.2 (OrdMap.mem_toList.mp he)
  change (lastCreation updates e.2.accountId).isSome = true
  rw [hid]
  exact hlast

end Kept

theorem Run.kept (h : Run postcard crc32 sv updates since) : Kept postcard crc32 sv updates since := by
  induction h with
  | start =>
    refine ⟨rfl,fun _ hu => (List.not_mem_nil hu).elim,⟨[],rfl⟩,fun a s hs => ?_,by rintro _ ⟨⟩⟩
    simp [AccountManager.new] at hs
  | create h a buyingPower hfit ih => exact ih.create hfit
  | fill h fill token isBuy ih => exact ih.fill fill token isBuy
  | snapshot h sequence ih => exact ih.takeSnapshot sequence
  | restart h hm ih => exact ⟨ih.file,ih.fits,ih.suffix,ih.startUp_journaled hm,ih.snapshot⟩

/-- The snapshot's accounts are there with what it stores, and every account created after it as it was created. -/
structure Recovers (snapshot : AccountSnapshot) (since : List AccountUpdate) (m : AccountManager) : Prop where
  stored : ∀ acc ∈ snapshot.accounts, ∃ s, m.accounts[acc.accountId]? = some s ∧ s.buyingPower = acc.buyingPower ∧
    s.positions = acc.restore.positions ∧ s.riskLimits = acc.restore.riskLimits
  created : ∀ (a : AccountId) buyingPower, lastCreation since a = some buyingPower →
    m.accounts[a]? = some (AccountState.new a buyingPower)

/-- The snapshot stores the account as its last creation left it. -/
def Untouched (updates : List AccountUpdate) (acc : AccountStateSnapshot) : Prop :=
  lastCreation updates acc.accountId = some acc.buyingPower ∧ acc.positions = [] ∧ acc.riskLimits = []

instance (updates : List AccountUpdate) (acc : AccountStateSnapshot) : Decidable (Untouched updates acc) :=
  inferInstanceAs (Decidable (_ ∧ _ ∧ _))

theorem foldl_insert_eq_empty {V : Type} {es : List (SymbolId × V)} :
    (∅ : OrdMap SymbolId V) = es.foldl (fun m e => m.insert e.1 e.2) ∅ ↔ es = [] := by
  constructor
  · intro h
    cases es with
    | nil => rfl
    | cons e es =>
      have hget := OrdMap.get_foldl_insert Prod.fst Prod.snd (e::es) ∅ e.1
      rw [← h] at hget
      cases hfind : (e::es).reverse.find? fun x => x.1 = e.1 with
      | none => simpa using List.find?_eq_none.mp hfind e (by simp)
      | some found =>
        rw [hfind] at hget
        simp at hget
  · rintro rfl
    rfl

/-- Recovery keeps the accounts of the latest snapshot exactly when nothing has happened to them between their
creation and the snapshot. -/
theorem Run.keeps_snapshot_iff (h : Run postcard crc32 sv updates since) {snapshot : AccountSnapshot}
    (hsnap : sv.snapshot = some snapshot) :
    (∃ m, sv.startUp postcard crc32 = .ok m ∧ Recovers snapshot since m) ↔
      ∀ acc ∈ snapshot.accounts, Untouched updates acc := by
  have hk := h.kept
  obtain ⟨m,hm⟩ : ∃ m, sv.startUp postcard crc32 = .ok m := ⟨_,hk.startUp⟩
  constructor
  · rintro ⟨m',hm',hrec⟩ acc hacc
    obtain ⟨buyingPower,hlast⟩ := Option.isSome_iff_exists.mp (hk.snapshot snapshot hsnap acc hacc)
    obtain ⟨s,hs,hbp,hpos,hlim⟩ := hrec.stored acc hacc
    rw [hk.accounts_startUp hm' hlast] at hs
    rw [← Option.some.inj hs] at hbp hpos hlim
    refine ⟨hlast.trans (congrArg some hbp),foldl_insert_eq_empty.mp hpos,foldl_insert_eq_empty.mp hlim⟩
  · intro hall
    refine ⟨m,hm,fun acc hacc => ?_,fun a buyingPower hlast => ?_⟩
    · obtain ⟨hlast,hpos,hlim⟩ := hall acc hacc
      exact ⟨_,hk.accounts_startUp hm hlast,rfl,foldl_insert_eq_empty.mpr hpos,foldl_insert_eq_empty.mpr hlim⟩
    · obtain ⟨before,hbefore⟩ := hk.suffix
      refine hk.accounts_startUp hm ?_
      rw [hbefore,lastCreation_append,hlast,Option.some_or]

/-- One account that is funded. -/
def funded : AccountServer :=
  (⟨AccountManager.new,[],none⟩ : AccountServer).createAccount AccountUpdate.wire.codec Crc32.hash 7 1000

theorem funded_run :
    Run AccountUpdate.wire.codec Crc32.hash funded [.createAccount 7 1000] [.createAccount 7 1000] :=
  Run.start.create 7 1000 (by decide +kernel)

/-- Two accounts are in the snapshot and one is created after it, which then buys. -/
theorem funded_recovers :
    let before := funded.createAccount AccountUpdate.wire.codec Crc32.hash 8 2500
    let after := (before.takeSnapshot 1).createAccount AccountUpdate.wire.codec Crc32.hash 9 400
    ∃ m, (after.applyFill ⟨1,1,1,3,4,20,5⟩ ⟨9,1,100,3⟩ true).startUp AccountUpdate.wire.codec Crc32.hash = .ok m ∧
      Recovers ⟨1,[⟨7,1000,[],[]⟩,⟨8,2500,[],[]⟩]⟩ [.createAccount 9 400] m := by
  have hrun := (((funded_run.create 8 2500 (by decide +kernel)).snapshot 1).create 9 400 (by decide +kernel)).fill
    ⟨1,1,1,3,4,20,5⟩ ⟨9,1,100,3⟩ true
  exact (hrun.keeps_snapshot_iff rfl).mpr (show ∀ acc ∈ _,Untouched _ acc by decide +kernel)

/-- The account has bought 5 for 100 each before the snapshot; after a restart it has its money back and no
position. -/
theorem bought_reset :
    let sv := (funded.applyFill ⟨1,1,1,3,4,100,5⟩ ⟨7,1,0,3⟩ true).takeSnapshot 1
    Run AccountUpdate.wire.codec Crc32.hash sv [.createAccount 7 1000] [] ∧
      sv.snapshot.map AccountSnapshot.accounts = some [⟨7,500,[(1,⟨5,100,0⟩)],[]⟩] ∧
      ∃ m, sv.startUp AccountUpdate.wire.codec Crc32.hash = .ok m ∧
        (m.accounts[(7 : AccountId)]?).map AccountState.buyingPower = some 1000 ∧
        (m.accounts[(7 : AccountId)]?).map AccountState.positions = some ∅ := by
  refine ⟨(funded_run.fill _ _ _).snapshot 1,rfl,_,((funded_run.fill _ _ _).snapshot 1).kept.startUp,?_,?_⟩
  · rfl
  · rfl

end AccountServer
end Gateway
end HighPerfTrading
