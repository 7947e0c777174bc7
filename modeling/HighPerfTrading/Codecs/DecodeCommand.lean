import HighPerfTrading.Codecs.Binary

/-! The decoder over a buffer whose getters panic when they run out of bytes. Every getter is guarded, so the
decoder never panics, and it accepts exactly the inputs that start with the layout of a command. -/
namespace HighPerfTrading

/-- Why a decoder stops: a getter of the buffer panicked, or the codec refused the input. -/
inductive Fault
  | panic
  | error (e : ProtoError)
  deriving DecidableEq

abbrev BufReader := StateT (List UInt8) (Except Fault)

/-! ### The buffer -/

namespace Buf

def remaining : BufReader ℕ := fun b => .ok (b.length,b)

def copyToBytes (len : ℕ) : BufReader (List UInt8) := fun b =>
  if b.length < len then .error .panic else .ok (b.take len,b.drop len)

/-- A little-endian number of `k` bytes. -/
def getLe (k : ℕ) : BufReader ℕ := Wire.leValue <$> copyToBytes k

def getU8 : BufReader UInt8 := UInt8.ofNat <$> getLe 1
def getU16Le : BufReader UInt16 := UInt16.ofNat <$> getLe 2
def getU32Le : BufReader UInt32 := UInt32.ofNat <$> getLe 4
def getU64Le : BufReader UInt64 := UInt64.ofNat <$> getLe 8
def getI64Le : BufReader Int64 := (fun n => (UInt64.ofNat n).toInt64) <$> getLe 8

end Buf

/-! ### The decoder -/

namespace BufCodec

def malformed {α : Type} (reason : String) : BufReader α := throw (.error (.malformed reason))

/-- A getter of `k` bytes behind its check. -/
def guarded {α : Type} (k : ℕ) (getter : BufReader α) : BufReader α := do
  if (← Buf.remaining) < k then malformed "binary: underrun" else getter

def getU8 : BufReader UInt8 := guarded 1 Buf.getU8
def getU32 : BufReader UInt32 := guarded 4 Buf.getU32Le
def getU64 : BufReader UInt64 := guarded 8 Buf.getU64Le
def getI64 : BufReader Int64 := guarded 8 Buf.getI64Le

def getString : BufReader String := do
  let len ← guarded 4 Buf.getU32Le
  let bytes ← guarded len.toNat (Buf.copyToBytes len.toNat)
  match String.fromUTF8? ⟨bytes.toArray⟩ with
  | none => malformed "binary: invalid utf8"
  | some s => pure s

def getFlag {α : Type} (zero one : α) (reason : String) : BufReader α := do
  let v ← getU8
  if v = 0 then pure zero else if v = 1 then pure one else malformed reason

def getNewOrder : BufReader NewOrder := do
  let clientSeq ← getU64
  let orderId ← getU64
  let accountId ← getU32
  let symbolId ← getU32
  let side ← getFlag .buy .sell "binary: bad side"
  let price ← getI64
  let qty ← getI64
  let tif ← getFlag .gtc .ioc "binary: bad tif"
  let postOnly ← getFlag false true "binary: bad post_only"
  return ⟨clientSeq,orderId,accountId,symbolId,side,price,qty,tif,⟨postOnly⟩⟩

def getCancel : BufReader Cancel := do
  let clientSeq ← getU64
  let orderId ← getU64
  let accountId ← getU32
  let symbolId ← getU32
  return ⟨clientSeq,orderId,accountId,symbolId⟩

def getReplace : BufReader Replace := do
  let clientSeq ← getU64
  let orderId ← getU64
  let accountId ← getU32
  let symbolId ← getU32
  let newPrice ← getI64
  let newQty ← getI64
  return ⟨clientSeq,orderId,accountId,symbolId,newPrice,newQty⟩

def getSetRiskLimits : BufReader SetRiskLimits := do
  let clientSeq ← getU64
  let accountId ← getU32
  let symbolId ← getU32
  let maxLongPosition ← getI64
  let maxShortPosition ← getI64
  let maxOrderSize ← getI64
  return ⟨clientSeq,accountId,symbolId,⟨maxLongPosition,maxShortPosition,maxOrderSize⟩⟩

def getQueryAccount : BufReader QueryAccount := do
  let clientSeq ← getU64
  let accountId ← getU32
  let symbolId ← getU32
  return ⟨clientSeq,accountId,symbolId⟩

def getBody (mt : UInt16) : BufReader Command :=
  if mt = BinaryCodec.mtNewOrder then .newOrder <$> getNewOrder
  else if mt = BinaryCodec.mtCancel then .cancel <$> getCancel
  else if mt = BinaryCodec.mtReplace then .replace <$> getReplace
  else if mt = BinaryCodec.mtSetRiskLimits then .setRiskLimits <$> getSetRiskLimits
  else if mt = BinaryCodec.mtQueryAccount then .queryAccount <$> getQueryAccount
  else if mt = BinaryCodec.mtAuthenticate then (fun apiKey => .authenticate ⟨apiKey⟩) <$> getString
  else malformed "binary: unknown msg_type"

def getCommand : BufReader Command := do
  if (← Buf.remaining) < 2 then malformed "binary: missing msg_type" else
    let mt ← Buf.getU16Le
    getBody mt

def decodeCommand (input : List UInt8) : Except Fault Command := (getCommand input).map Prod.fst

/-! ### No getter panics -/

/-- The buffered reader does what the plain one does, without panicking, and refuses only what is malformed. -/
structure Agrees {α : Type} (m : BufReader α) (r : BinaryCodec.Reader α) : Prop where
  eq : ∀ b, m b = (r b).mapError Fault.error
  refuses : ∀ b e, r b = .error e → ∃ reason, e = .malformed reason

namespace Agrees
variable {α β : Type} {m : BufReader α} {r : BinaryCodec.Reader α}

theorem pure (a : α) : Agrees (Pure.pure a) (Pure.pure a) where
  eq _ := rfl
  refuses _ _ h := nomatch h

theorem malformed (reason : String) : Agrees (malformed reason : BufReader α) (throw (.malformed reason)) where
  eq _ := rfl
  refuses b e h := by
    cases h
    exact ⟨reason,rfl⟩

theorem bind {k : α → BufReader β} {l : α → BinaryCodec.Reader β} (hm : Agrees m r) (hk : ∀ a, Agrees (k a) (l a)) :
    Agrees (m >>= k) (r >>= l) where
  eq b := by
    change (m b >>= fun x => k x.1 x.2) = (r b >>= fun x => l x.1 x.2).mapError Fault.error
    rw [hm.eq b]
    cases r b with
    | error e => rfl
    | ok x => exact (hk x.1).eq x.2
  refuses b e h := by
    change (r b >>= fun x => l x.1 x.2) = _ at h
    cases hb : r b with
    | error e' =>
      rw [hb] at h
      cases h
      exact hm.refuses b e hb
    | ok x =>
      rw [hb] at h
      exact (hk x.1).refuses x.2 e h

theorem map (f : α → β) (hm : Agrees m r) : Agrees (f <$> m) (f <$> r) := hm.bind fun a => pure (f a)

/-- The last field of a record. -/
theorem last {f : α → β} (hm : Agrees m r) : Agrees (m >>= fun x => Pure.pure (f x)) (r >>= fun x => Pure.pure (f x)) :=
  hm.bind fun x => pure (f x)

end Agrees

section Guarded
variable {α : Type} {k : ℕ} {b : List UInt8} (getter : BufReader α)

theorem guarded_short (h : b.length < k) :
    guarded k getter b = .error (.error (.malformed "binary: underrun")) := by
  change (if b.length < k then malformed _ else getter) b = _
  rw [if_pos h]
  rfl

theorem guarded_long (h : k ≤ b.length) : guarded k getter b = getter b := by
  change (if b.length < k then malformed _ else getter) b = _
  rw [if_neg (Nat.not_lt.mpr h)]

/-- With enough bytes left a getter takes the first ones. -/
theorem copyToBytes_long (h : k ≤ b.length) : Buf.copyToBytes k b = .ok (b.take k,b.drop k) :=
  if_neg (Nat.not_lt.mpr h)

theorem getLe_long (f : ℕ → α) (h : k ≤ b.length) :
    (f <$> Buf.getLe k) b = .ok (f (Wire.leValue (b.take k)),b.drop k) := by
  change (Buf.copyToBytes k b >>= _) >>= _ = _
  rw [copyToBytes_long h]
  rfl

end Guarded

namespace Agrees
variable {α : Type}

theorem get {k : ℕ} {w : Wire α} {ofNat : ℕ → α}
    (hw : ∀ bs, w.read bs = (Wire.readLe k bs).map fun r => (ofNat r.1,r.2)) :
    Agrees (guarded k (ofNat <$> Buf.getLe k)) (BinaryCodec.get w) where
  eq b := by
    rw [BinaryCodec.get,hw]
    by_cases hlen : b.length < k
    · rw [guarded_short _ hlen,Wire.readLe_short hlen]
      rfl
    · rw [guarded_long _ (Nat.not_lt.mp hlen),Wire.readLe_eq (Nat.not_lt.mp hlen),getLe_long _ (Nat.not_lt.mp hlen)]
      rfl
  refuses b e h := by
    unfold BinaryCodec.get at h
    split at h <;> cases h
    exact ⟨_,rfl⟩

theorem getU8 : Agrees getU8 BinaryCodec.getU8 := by
  refine get fun bs => ?_
  cases bs with
  | nil => rfl
  | cons b bs =>
    rw [Wire.readLe,Wire.readLe]
    simp [Wire.byte]

theorem getU32 : Agrees getU32 BinaryCodec.getU32 := get fun _ => rfl

theorem getU64 : Agrees getU64 BinaryCodec.getU64 := get fun _ => rfl

theorem getI64 : Agrees getI64 BinaryCodec.getI64 where
  eq b := by
    rw [BinaryCodec.getI64,← (getU64.map UInt64.toInt64).eq b]
    change guarded 8 Buf.getI64Le b = (guarded 8 Buf.getU64Le b >>= fun x => Pure.pure (x.1.toInt64,x.2))
    by_cases hlen : b.length < 8
    · rw [guarded_short _ hlen,guarded_short _ hlen]
      rfl
    · rw [guarded_long _ (Nat.not_lt.mp hlen),guarded_long _ (Nat.not_lt.mp hlen),Buf.getI64Le,Buf.getU64Le,
        getLe_long _ (Nat.not_lt.mp hlen),getLe_long _ (Nat.not_lt.mp hlen)]
      rfl
  refuses := (getU64.map UInt64.toInt64).refuses

theorem getBytes (len : ℕ) : Agrees (guarded len (Buf.copyToBytes len)) (BinaryCodec.getBytes len) where
  eq b := by
    rw [BinaryCodec.getBytes]
    by_cases hlen : b.length < len
    · rw [guarded_short _ hlen,readExact_short hlen]
      rfl
    · rw [guarded_long _ (Nat.not_lt.mp hlen),copyToBytes_long (Nat.not_lt.mp hlen),readExact,
        if_pos (Nat.not_lt.mp hlen)]
      rfl
  refuses b e h := by
    unfold BinaryCodec.getBytes at h
    split at h <;> cases h
    exact ⟨_,rfl⟩

theorem getString : Agrees getString BinaryCodec.getString := by
  refine getU32.bind fun len => (getBytes len.toNat).bind fun bytes => ?_
  cases String.fromUTF8? ⟨bytes.toArray⟩ with
  | none => exact malformed _
  | some s => exact pure s

theorem getFlag (zero one : α) (reason : String) :
    Agrees (getFlag zero one reason) (BinaryCodec.getFlag zero one reason) := by
  refine getU8.bind fun v => ?_
  split_ifs
  · exact pure zero
  · exact pure one
  · exact malformed reason

theorem getNewOrder : Agrees getNewOrder BinaryCodec.getNewOrder :=
  getU64.bind fun _ => getU64.bind fun _ => getU32.bind fun _ => getU32.bind fun _ => (getFlag _ _ _).bind fun _ =>
    getI64.bind fun _ => getI64.bind fun _ => (getFlag _ _ _).bind fun _ => (getFlag _ _ _).last

theorem getCancel : Agrees getCancel BinaryCodec.getCancel :=
  getU64.bind fun _ => getU64.bind fun _ => getU32.bind fun _ => getU32.last

theorem getReplace : Agrees getReplace BinaryCodec.getReplace :=
  getU64.bind fun _ => getU64.bind fun _ => getU32.bind fun _ => getU32.bind fun _ => getI64.bind fun _ => getI64.last

theorem getSetRiskLimits : Agrees getSetRiskLimits BinaryCodec.getSetRiskLimits :=
  getU64.bind fun _ => getU32.bind fun _ => getU32.bind fun _ => getI64.bind fun _ => getI64.bind fun _ => getI64.last

theorem getQueryAccount : Agrees getQueryAccount BinaryCodec.getQueryAccount :=
  getU64.bind fun _ => getU32.bind fun _ => getU32.last

theorem getBody (mt : UInt16) : Agrees (getBody mt) (BinaryCodec.getBody mt) := by
  unfold BufCodec.getBody BinaryCodec.getBody
  split_ifs
  · exact getNewOrder.map _
  · exact getCancel.map _
  · exact getReplace.map _
  · exact getSetRiskLimits.map _
  · exact getQueryAccount.map _
  · exact getString.map _
  · exact malformed _

end Agrees

/-- The decoder over the buffer is the plain decoder: no getter ever runs out of bytes. -/
theorem decodeCommand_eq (input : List UInt8) :
    decodeCommand input = (BinaryCodec.decodeCommand input).mapError Fault.error := by
  unfold decodeCommand BinaryCodec.decodeCommand
  have hread : Wire.le16.read input = (Wire.readLe 2 input).map fun r => (UInt16.ofNat r.1,r.2) := rfl
  rw [hread]
  by_cases hlen : input.length < 2
  · have hshort : getCommand input = .error (.error (.malformed "binary: missing msg_type")) := by
      change (if input.length < 2 then malformed _ else _) input = _
      rw [if_pos hlen]
      rfl
    rw [hshort,Wire.readLe_short hlen]
    rfl
  · have hle := Nat.not_lt.mp hlen
    have hlong : getCommand input = getBody (UInt16.ofNat (Wire.leValue (input.take 2))) (input.drop 2) := by
      change (if input.length < 2 then malformed _ else (Buf.getU16Le >>= getBody)) input = _
      rw [if_neg hlen]
      change Buf.getU16Le input >>= _ = _
      rw [Buf.getU16Le,getLe_long _ hle]
      rfl
    rw [hlong,Wire.readLe_eq hle,(Agrees.getBody _).eq]
    simp only [Option.map_some]
    cases BinaryCodec.getBody (UInt16.ofNat (Wire.leValue (input.take 2))) (input.drop 2) <;> rfl

/-- What is refused is malformed. -/
theorem decodeCommand_refuses {input : List UInt8} {e : ProtoError} (h : BinaryCodec.decodeCommand input = .error e) :
    ∃ reason, e = .malformed reason := by
  unfold BinaryCodec.decodeCommand at h
  cases hread : Wire.le16.read input with
  | none =>
    rw [hread] at h
    cases h
    exact ⟨_,rfl⟩
  | some x =>
    rw [hread] at h
    cases hbody : BinaryCodec.getBody x.1 x.2 with
    | error e' =>
      simp only [hbody] at h
      cases h
      exact (Agrees.getBody x.1).refuses x.2 e hbody
    | ok y =>
      simp only [hbody] at h
      cases h

end BufCodec

/-! ### What is accepted -/

namespace BinaryCodec
variable {α β : Type}

theorem bind_ok {m : Reader α} {k : α → Reader β} {b : List UInt8} {c : β} {rest : List UInt8}
    (h : (m >>= k) b = .ok (c,rest)) : ∃ a r, m b = .ok (a,r) ∧ k a r = .ok (c,rest) := by
  change (m b >>= fun x => k x.1 x.2) = _ at h
  cases hb : m b with
  | error e =>
    rw [hb] at h
    cases h
  | ok x =>
    rw [hb] at h
    exact ⟨x.1,x.2,rfl,h⟩

theorem map_ok {m : Reader α} {f : α → β} {b : List UInt8} {c : β} {rest : List UInt8}
    (h : (f <$> m) b = .ok (c,rest)) : ∃ a, c = f a ∧ m b = .ok (a,rest) := by
  obtain ⟨a,r,ha,h⟩ := bind_ok (k := fun a => pure (f a)) h
  cases h
  exact ⟨a,rfl,ha⟩

theorem getBytes_ok {len : ℕ} {b bytes rest : List UInt8} (h : getBytes len b = .ok (bytes,rest)) :
    b = bytes ++ rest ∧ bytes.length = len := by
  unfold getBytes at h
  cases hread : readExact len b with
  | none =>
    rw [hread] at h
    cases h
  | some x =>
    rw [hread] at h
    obtain rfl := Except.ok.inj h
    exact readExact_eq_some hread

/-- The reader takes nothing but what `put` writes for the value. -/
def Takes (m : Reader α) (put : α → List UInt8) : Prop := ∀ {b a rest}, m b = .ok (a,rest) → b = put a ++ rest

namespace Takes

theorem bind {m : Reader α} {put : α → List UInt8} {k : α → Reader β} {b : List UInt8} {c : β} {rest : List UInt8}
    (hm : Takes m put) (h : (m >>= k) b = .ok (c,rest)) : ∃ a r, b = put a ++ r ∧ k a r = .ok (c,rest) := by
  obtain ⟨a,r,ha,hk⟩ := bind_ok h
  exact ⟨a,r,hm ha,hk⟩

theorem map {m : Reader α} {put : α → List UInt8} (hm : Takes m put) {f : α → β} {put' : β → List UInt8}
    (hf : ∀ a, put' (f a) = put a) : Takes (f <$> m) put' := by
  intro b c rest h
  obtain ⟨a,rfl,ha⟩ := map_ok h
  rw [hf]
  exact hm ha

theorem get {w : Wire α} (hw : w.Exact) : Takes (get w) w.write := by
  intro b a rest h
  unfold BinaryCodec.get at h
  cases hread : w.read b with
  | none =>
    rw [hread] at h
    cases h
  | some x =>
    rw [hread] at h
    obtain rfl := Except.ok.inj h
    exact hw hread

theorem getU8 : Takes getU8 Wire.byte.write := get Wire.exact_byte

theorem getU32 : Takes getU32 Wire.le32.write := get Wire.exact_le32

theorem getU64 : Takes getU64 Wire.le64.write := get Wire.exact_le64

theorem getI64 : Takes getI64 putI64 := getU64.map fun a => by rw [putI64,UInt64.toUInt64_toInt64]

theorem getFlag [DecidableEq α] {zero one : α} (hne : zero ≠ one) (reason : String) :
    Takes (getFlag zero one reason) fun a => putFlag (decide (a = one)) := by
  intro b a rest h
  obtain ⟨v,b₁,h₁,h⟩ := getU8.bind h
  split_ifs at h with h0 h1'
  · cases h
    simp only [h₁,h0,decide_eq_false hne]
    rfl
  · cases h
    simp only [h₁,h1',decide_true]
    rfl
  · cases h

theorem getNewOrder : Takes getNewOrder fun o => putBody (.newOrder o) := by
  have hside : Takes (BinaryCodec.getFlag Side.buy .sell _) _ := getFlag (by decide) "binary: bad side"
  have htif : Takes (BinaryCodec.getFlag TimeInForce.gtc .ioc _) _ := getFlag (by decide) "binary: bad tif"
  have hflag : Takes (BinaryCodec.getFlag false true _) _ := getFlag (by decide) "binary: bad post_only"
  intro b o rest h
  obtain ⟨clientSeq,b₁,h₁,h⟩ := getU64.bind h
  obtain ⟨orderId,b₂,h₂,h⟩ := getU64.bind h
  obtain ⟨accountId,b₃,h₃,h⟩ := getU32.bind h
  obtain ⟨symbolId,b₄,h₄,h⟩ := getU32.bind h
  obtain ⟨side,b₅,h₅,h⟩ := hside.bind h
  obtain ⟨price,b₆,h₆,h⟩ := getI64.bind h
  obtain ⟨qty,b₇,h₇,h⟩ := getI64.bind h
  obtain ⟨tif,b₈,h₈,h⟩ := htif.bind h
  obtain ⟨postOnly,b₉,h₉,h⟩ := hflag.bind h
  cases h
  rw [h₁,h₂,h₃,h₄,h₅,h₆,h₇,h₈,h₉]
  simp only [putBody,List.append_assoc,Bool.decide_eq_true]

theorem getCancel : Takes getCancel fun c => putBody (.cancel c) := by
  intro b c rest h
  obtain ⟨clientSeq,b₁,h₁,h⟩ := getU64.bind h
  obtain ⟨orderId,b₂,h₂,h⟩ := getU64.bind h
  obtain ⟨accountId,b₃,h₃,h⟩ := getU32.bind h
  obtain ⟨symbolId,b₄,h₄,h⟩ := getU32.bind h
  cases h
  rw [h₁,h₂,h₃,h₄]
  simp only [putBody,List.append_assoc]

theorem getReplace : Takes getReplace fun r => putBody (.replace r) := by
  intro b r rest h
  obtain ⟨clientSeq,b₁,h₁,h⟩ := getU64.bind h
  obtain ⟨orderId,b₂,h₂,h⟩ := getU64.bind h
  obtain ⟨accountId,b₃,h₃,h⟩ := getU32.bind h
  obtain ⟨symbolId,b₄,h₄,h⟩ := getU32.bind h
  obtain ⟨newPrice,b₅,h₅,h⟩ := getI64.bind h
  obtain ⟨newQty,b₆,h₆,h⟩ := getI64.bind h
  cases h
  rw [h₁,h₂,h₃,h₄,h₅,h₆]
  simp only [putBody,List.append_assoc]

theorem getSetRiskLimits : Takes getSetRiskLimits fun s => putBody (.setRiskLimits s) := by
  intro b s rest h
  obtain ⟨clientSeq,b₁,h₁,h⟩ := getU64.bind h
  obtain ⟨accountId,b₂,h₂,h⟩ := getU32.bind h
  obtain ⟨symbolId,b₃,h₃,h⟩ := getU32.bind h
  obtain ⟨maxLongPosition,b₄,h₄,h⟩ := getI64.bind h
  obtain ⟨maxShortPosition,b₅,h₅,h⟩ := getI64.bind h
  obtain ⟨maxOrderSize,b₆,h₆,h⟩ := getI64.bind h
  cases h
  rw [h₁,h₂,h₃,h₄,h₅,h₆]
  simp only [putBody,List.append_assoc]

theorem getQueryAccount : Takes getQueryAccount fun q => putBody (.queryAccount q) := by
  intro b q rest h
  obtain ⟨clientSeq,b₁,h₁,h⟩ := getU64.bind h
  obtain ⟨accountId,b₂,h₂,h⟩ := getU32.bind h
  obtain ⟨symbolId,b₃,h₃,h⟩ := getU32.bind h
  cases h
  rw [h₁,h₂,h₃]
  simp only [putBody,List.append_assoc]

end Takes

theorem toByteArray_of_fromUTF8 {bytes : ByteArray} {s : String} (h : String.fromUTF8? bytes = some s) :
    s.toByteArray = bytes := by
  unfold String.fromUTF8? at h
  split_ifs at h
  obtain rfl := Option.some.inj h
  rfl

/-- A string that is read is valid UTF-8 behind its length. -/
theorem getString_ok {b rest : List UInt8} {s : String} (h : getString b = .ok (s,rest)) :
    b = putString s ++ rest ∧ s.utf8ByteSize < 2^32 := by
  obtain ⟨len,b₁,h₁,h⟩ := Takes.getU32.bind h
  obtain ⟨bytes,b₂,hbytes,h⟩ := bind_ok h
  obtain ⟨h₂,hlen⟩ := getBytes_ok hbytes
  cases hutf : String.fromUTF8? ⟨bytes.toArray⟩ with
  | none =>
    simp only [hutf] at h
    cases h
  | some s' =>
    simp only [hutf] at h
    cases h
    have hs := toByteArray_of_fromUTF8 hutf
    have hdata : s.toByteArray.data.toList = bytes := by rw [hs]
    have hsize : s.utf8ByteSize = len.toNat := by
      rw [← hlen,← hdata]
      rfl
    refine ⟨?_,hsize ▸ len.toNat_lt⟩
    rw [h₁,h₂,putString,hdata,hlen,UInt32.ofNat_toNat,List.append_assoc]

/-- What is accepted is a body that fits, behind its message type. -/
theorem getBody_ok {mt : UInt16} {b rest : List UInt8} {cmd : Command} (h : getBody mt b = .ok (cmd,rest)) :
    mt = msgType cmd ∧ b = putBody cmd ++ rest ∧ Fits cmd := by
  unfold getBody at h
  split_ifs at h with h1 h2 h3 h4 h5 h6
  · obtain ⟨o,rfl,ho⟩ := map_ok h
    exact ⟨h1,Takes.getNewOrder ho,trivial⟩
  · obtain ⟨c,rfl,hc⟩ := map_ok h
    exact ⟨h2,Takes.getCancel hc,trivial⟩
  · obtain ⟨r,rfl,hr⟩ := map_ok h
    exact ⟨h3,Takes.getReplace hr,trivial⟩
  · obtain ⟨s,rfl,hs⟩ := map_ok h
    exact ⟨h4,Takes.getSetRiskLimits hs,trivial⟩
  · obtain ⟨q,rfl,hq⟩ := map_ok h
    exact ⟨h5,Takes.getQueryAccount hq,trivial⟩
  · obtain ⟨apiKey,rfl,hkey⟩ := map_ok h
    obtain ⟨hb,hfits⟩ := getString_ok hkey
    exact ⟨h6,hb,hfits⟩
  · cases h

/-- The decoder accepts exactly the inputs with a command's layout at the front. -/
theorem decodeCommand_iff {input : List UInt8} {cmd : Command} :
    decodeCommand input = .ok cmd ↔ Fits cmd ∧ encodeCommand cmd <+: input := by
  constructor
  · intro h
    unfold decodeCommand at h
    cases hread : Wire.le16.read input with
    | none =>
      rw [hread] at h
      cases h
    | some x =>
      obtain ⟨mt,b⟩ := x
      rw [hread] at h
      cases hbody : getBody mt b with
      | error e =>
        simp only [hbody] at h
        cases h
      | ok y =>
        simp only [hbody] at h
        cases h
        obtain ⟨rfl,hb,hfits⟩ := getBody_ok hbody
        refine ⟨hfits,y.2,?_⟩
        rw [encodeCommand,List.append_assoc,← hb]
        exact (Wire.exact_le16 hread).symm
  · rintro ⟨hfits,rest,rfl⟩
    exact decode_encode hfits rest

end BinaryCodec

/-! ### The decoder over the buffer -/

namespace BufCodec
open BinaryCodec (Fits encodeCommand)

theorem decodeCommand_ok_iff {input : List UInt8} {cmd : Command} :
    decodeCommand input = .ok cmd ↔ Fits cmd ∧ encodeCommand cmd <+: input := by
  rw [decodeCommand_eq,← BinaryCodec.decodeCommand_iff]
  cases BinaryCodec.decodeCommand input <;> simp [Except.mapError]

theorem recognizes : PrefixCode.Recognizes Fits encodeCommand fun input => (decodeCommand input).toOption := by
  intro input cmd
  rw [← decodeCommand_ok_iff]
  change (decodeCommand input).toOption = some cmd ↔ _
  cases decodeCommand input <;> simp [Except.toOption]

/-- Without an answer the input is refused as malformed. -/
theorem decodeCommand_malformed {input : List UInt8} (h : (decodeCommand input).toOption = none) :
    ∃ reason, decodeCommand input = .error (.error (.malformed reason)) := by
  rw [decodeCommand_eq] at h ⊢
  cases hplain : BinaryCodec.decodeCommand input with
  | ok cmd =>
    rw [hplain] at h
    cases h
  | error e =>
    obtain ⟨reason,rfl⟩ := decodeCommand_refuses hplain
    exact ⟨reason,rfl⟩

/-- No getter of the buffer panics; a command is accepted exactly when its layout is at the front of the input, and
then no other is; every other input is malformed, as is a layout cut short. -/
theorem decodeCommand_exact (input : List UInt8) :
    decodeCommand input ≠ .error .panic ∧
    (∀ cmd, decodeCommand input = .ok cmd ↔ Fits cmd ∧ encodeCommand cmd <+: input) ∧
    (∀ cmd cmd', Fits cmd → encodeCommand cmd <+: input → Fits cmd' → encodeCommand cmd' <+: input → cmd = cmd') ∧
    ((∀ cmd, Fits cmd → ¬ encodeCommand cmd <+: input) →
      ∃ reason, decodeCommand input = .error (.error (.malformed reason))) ∧
    ∀ cmd, Fits cmd → input <+: encodeCommand cmd → input ≠ encodeCommand cmd →
      ∃ reason, decodeCommand input = .error (.error (.malformed reason)) := by
  refine ⟨?_,fun cmd => decodeCommand_ok_iff,?_,?_,?_⟩
  · rw [decodeCommand_eq]
    cases BinaryCodec.decodeCommand input <;> exact nofun
  · intro cmd cmd' hfits hw hfits' hw'
    exact recognizes.recovers.unique hfits hfits' hw hw'
  · intro hnone
    apply decodeCommand_malformed
    refine Option.eq_none_iff_forall_ne_some.mpr fun cmd hcmd => ?_
    obtain ⟨hfits,hw⟩ := (recognizes input cmd).mp hcmd
    exact hnone cmd hfits hw
  · intro cmd hfits hcut hne
    exact decodeCommand_malformed (recognizes.cut hfits hcut hne)

end BufCodec
end HighPerfTrading
