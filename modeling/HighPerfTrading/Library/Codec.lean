import Mathlib.Algebra.Group.Nat.Defs
import Mathlib.Data.List.Basic
import Mathlib.Data.Int.Notation
import Mathlib.Tactic.SplitIfs

/-! Byte encodings that lose nothing, and a compact self-delimiting wire format built from
variable-length integers: fixed-width numbers, tagged variants, tuples and sequences. -/

/-- An encoding of values as bytes that its decoder undoes. -/
structure Codec (α : Type) where
  encode : α → List UInt8
  decode : List UInt8 → Option α
  decode_encode : ∀ a, decode (encode a) = some a

attribute [simp] Codec.decode_encode

/-- An encoding that its reader undoes whatever follows it. -/
structure Wire (α : Type) where
  write : α → List UInt8
  read : List UInt8 → Option (α × List UInt8)
  read_write : ∀ a rest, read (write a ++ rest) = some (a,rest)

attribute [simp] Wire.read_write

namespace Wire
variable {α β : Type}

/-- Decoding ignores what follows the value. -/
def codec (w : Wire α) : Codec α where
  encode := w.write
  decode bs := (w.read bs).map Prod.fst
  decode_encode a := by
    have h := w.read_write a []
    rw [List.append_nil] at h
    rw [h]; rfl

/-! ### Variable-length integers -/

/-- Seven bits a byte, low bits first; the high bit says that another byte follows. -/
def writeVarint : ℕ → ℕ → List UInt8
  | 0,_ => []
  | fuel+1,n => if n < 128 then [UInt8.ofNat n] else UInt8.ofNat (n%128+128)::writeVarint fuel (n/128)

def readVarint : List UInt8 → Option (ℕ × List UInt8)
  | [] => none
  | b::bs =>
    if b.toNat < 128 then some (b.toNat,bs)
    else (readVarint bs).map fun r => (b.toNat-128+128*r.1,r.2)

theorem readVarint_write {fuel n : ℕ} (h : n < fuel) (rest : List UInt8) :
    readVarint (writeVarint fuel n ++ rest) = some (n,rest) := by
  induction fuel generalizing n with
  | zero => omega
  | succ fuel ih =>
    rw [writeVarint]
    split_ifs with hn
    · have hb : (UInt8.ofNat n).toNat = n := by rw [UInt8.toNat_ofNat']; omega
      rw [List.singleton_append,readVarint,hb,if_pos hn]
    · have hb : (UInt8.ofNat (n%128+128)).toNat = n%128+128 := by rw [UInt8.toNat_ofNat']; omega
      rw [List.cons_append,readVarint,hb,if_neg (by omega),ih (by omega),Option.map_some]
      congr 2
      change n%128+128-128+128*(n/128) = n
      omega

/-- A number is read from `k` bytes at most, unless it needs more. Numbers padded beyond that are refused. -/
def varint (k : ℕ) : Wire ℕ where
  write n := writeVarint (n+1) n
  read bs := (readVarint bs).filter fun r => bs.length-r.2.length ≤ max k (writeVarint (r.1+1) r.1).length
  read_write n rest := by
    have hlen : (writeVarint (n+1) n ++ rest).length-rest.length ≤ max k (writeVarint (n+1) n).length := by
      rw [List.length_append,Nat.add_sub_cancel]
      exact Nat.le_max_right ..
    simp only [readVarint_write (Nat.lt_succ_self n)]
    exact Option.filter_some_pos (decide_eq_true hlen)

@[simp] theorem varint_read_small (k : ℕ) {b : UInt8} (h : b.toNat < 128) (rest : List UInt8) :
    (varint k).read (b::rest) = some (b.toNat,rest) := by
  have hone : (writeVarint (b.toNat+1) b.toNat).length = 1 := by rw [writeVarint,if_pos h,List.length_singleton]
  have hlen : (b::rest).length-rest.length ≤ max k 1 := by
    rw [List.length_cons,Nat.add_sub_cancel_left]
    exact Nat.le_max_right k 1
  have hread : readVarint (b::rest) = some (b.toNat,rest) := if_pos h
  simp only [varint,hread]
  exact Option.filter_some_pos (by rw [hone]; exact decide_eq_true hlen)

/-! ### Combinators -/

/-- Transport along a map with a partial inverse. -/
def via (w : Wire β) (into : α → β) (back : β → Option α) (h : ∀ a, back (into a) = some a) : Wire α where
  write a := w.write (into a)
  read bs := (w.read bs).bind fun r => (back r.1).map fun a => (a,r.2)
  read_write a rest := by simp [h]

def pair (w : Wire α) (v : Wire β) : Wire (α × β) where
  write a := w.write a.1 ++ v.write a.2
  read bs := (w.read bs).bind fun r => (v.read r.2).map fun q => ((r.1,q.1),q.2)
  read_write a rest := by simp

def readMany (w : Wire α) : ℕ → List UInt8 → Option (List α × List UInt8)
  | 0,bs => some ([],bs)
  | n+1,bs => (w.read bs).bind fun r => (readMany w n r.2).map fun q => (r.1::q.1,q.2)

theorem readMany_write (w : Wire α) (as : List α) (rest : List UInt8) :
    readMany w as.length (as.flatMap w.write ++ rest) = some (as,rest) := by
  induction as with
  | nil => rfl
  | cons a as ih => simp [readMany,ih]

/-- A length and then the elements. -/
def seq (w : Wire α) : Wire (List α) where
  write as := (varint 10).write as.length ++ as.flatMap w.write
  read bs := ((varint 10).read bs).bind fun r => readMany w r.1 r.2
  read_write as rest := by simp [readMany_write]

def byte : Wire UInt8 where
  write b := [b]
  read
    | [] => none
    | b::bs => some (b,bs)
  read_write _ _ := rfl

/-- One of finitely many constants, numbered from zero. -/
def choice [DecidableEq α] (as : List α) (h : ∀ a, a ∈ as) : Wire α :=
  (varint 5).via (fun a => as.idxOf a) (fun n => as[n]?) fun a => by
    rw [List.getElem?_eq_getElem (List.idxOf_lt_length_of_mem (h a)),List.getElem_idxOf]

/-- A byte that is zero or one. -/
def bool : Wire Bool :=
  byte.via (fun b => if b then 1 else 0) (fun b => if b = 0 then some false else if b = 1 then some true else none)
    (by decide)

/-- A byte that says whether a value follows. -/
def opt (w : Wire α) : Wire (Option α) where
  write
    | none => bool.write false
    | some a => bool.write true ++ w.write a
  read bs := (bool.read bs).bind fun r =>
    if r.1 then (w.read r.2).map fun q => (some q.1,q.2) else some (none,r.2)
  read_write a rest := by cases a <;> simp

/-! ### Machine integers -/

def u64 : Wire UInt64 :=
  (varint 10).via UInt64.toNat (fun n => if n < 2^64 then some (UInt64.ofNat n) else none) fun a => by
    rw [if_pos a.toNat_lt,UInt64.ofNat_toNat]

def u32 : Wire UInt32 :=
  (varint 5).via UInt32.toNat (fun n => if n < 2^32 then some (UInt32.ofNat n) else none) fun a => by
    rw [if_pos a.toNat_lt,UInt32.ofNat_toNat]

/-- Small magnitudes of either sign become small naturals. -/
def zigzag (i : ℤ) : ℕ := if 0 ≤ i then 2*i.toNat else 2*(-i).toNat-1

def zagzig (n : ℕ) : ℤ := if n%2 = 0 then n/2 else -((n+1)/2)

theorem zagzig_zigzag (i : ℤ) : zagzig (zigzag i) = i := by
  unfold zigzag zagzig
  split_ifs <;> omega

theorem zigzag_lt (a : Int64) : zigzag a.toInt < 2^64 := by
  have hlow := a.le_toInt
  have hhigh := a.toInt_lt
  unfold zigzag
  split_ifs <;> omega

def i64 : Wire Int64 :=
  (varint 10).via (fun a => zigzag a.toInt) (fun n => if n < 2^64 then some (Int64.ofInt (zagzig n)) else none) fun a => by
    rw [if_pos (zigzag_lt a),zagzig_zigzag,Int64.ofInt_toInt]

-- a number padded to six bytes, and a tenth byte that is too large
example : u32.read [128,128,128,128,128,0] = none ∧ u64.read (List.replicate 9 255 ++ [2]) = none := by decide +kernel

/-! ### Fixed width -/

/-- `k` bytes, low bits first. -/
def writeLe : ℕ → ℕ → List UInt8
  | 0,_ => []
  | k+1,n => UInt8.ofNat n::writeLe k (n/256)

def readLe : ℕ → List UInt8 → Option (ℕ × List UInt8)
  | 0,bs => some (0,bs)
  | _+1,[] => none
  | k+1,b::bs => (readLe k bs).map fun r => (b.toNat+256*r.1,r.2)

theorem readLe_write {k n : ℕ} (h : n < 256^k) (rest : List UInt8) :
    readLe k (writeLe k n ++ rest) = some (n,rest) := by
  induction k generalizing n with
  | zero =>
    have hn : n = 0 := by omega
    rw [hn]; rfl
  | succ k ih =>
    have hlt : n/256 < 256^k := Nat.div_lt_of_lt_mul (by rw [Nat.pow_succ] at h; omega)
    have hb : (UInt8.ofNat n).toNat = n%256 := UInt8.toNat_ofNat'
    rw [writeLe,List.cons_append,readLe,ih hlt,Option.map_some,hb]
    congr 2
    omega

@[simp] theorem length_writeLe (k n : ℕ) : (writeLe k n).length = k := by
  induction k generalizing n with
  | zero => rfl
  | succ k ih => simp [writeLe,ih]

def le16 : Wire UInt16 where
  write a := writeLe 2 a.toNat
  read bs := (readLe 2 bs).map fun r => (UInt16.ofNat r.1,r.2)
  read_write a rest := by
    rw [readLe_write (k := 2) a.toNat_lt,Option.map_some,UInt16.ofNat_toNat]

def le32 : Wire UInt32 where
  write a := writeLe 4 a.toNat
  read bs := (readLe 4 bs).map fun r => (UInt32.ofNat r.1,r.2)
  read_write a rest := by
    rw [readLe_write (k := 4) a.toNat_lt,Option.map_some,UInt32.ofNat_toNat]

def le64 : Wire UInt64 where
  write a := writeLe 8 a.toNat
  read bs := (readLe 8 bs).map fun r => (UInt64.ofNat r.1,r.2)
  read_write a rest := by
    rw [readLe_write (k := 8) a.toNat_lt,Option.map_some,UInt64.ofNat_toNat]

@[simp] theorem length_le32 (a : UInt32) : (le32.write a).length = 4 := length_writeLe 4 _

@[simp] theorem length_le64 (a : UInt64) : (le64.write a).length = 8 := length_writeLe 8 _

/-! ### Numbers cut short -/

theorem readLe_short {k : ℕ} {bs : List UInt8} (h : bs.length < k) : readLe k bs = none := by
  induction k generalizing bs with
  | zero => omega
  | succ k ih =>
    cases bs with
    | nil => rfl
    | cons b bs =>
      rw [List.length_cons] at h
      rw [readLe,ih (by omega),Option.map_none]

/-- The bytes of a number that starts with `front`. -/
theorem readLe_front (front : List UInt8) (k : ℕ) :
    ∃ low < 256^front.length, ∀ bs, readLe (front.length+k) (front ++ bs) =
      (readLe k bs).map fun r => (low+256^front.length*r.1,r.2) := by
  induction front with
  | nil =>
    refine ⟨0,Nat.one_pos,fun bs => ?_⟩
    cases h : readLe k bs with
    | none => simp [h]
    | some r => simp [h]
  | cons b front ih =>
    obtain ⟨low,hlt,hlow⟩ := ih
    have hb := b.toNat_lt
    refine ⟨b.toNat+256*low,?_,fun bs => ?_⟩
    · rw [List.length_cons,Nat.pow_succ']
      omega
    rw [List.length_cons,Nat.add_right_comm,List.cons_append,readLe,hlow bs,Option.map_map]
    congr 1
    funext r
    simp only [Function.comp_apply,Prod.mk.injEq,and_true]
    rw [Nat.mul_add,← Nat.mul_assoc,← Nat.pow_succ',Nat.add_assoc]

theorem writeLe_add (k m n : ℕ) : writeLe (k+m) n = writeLe k n ++ writeLe m (n/256^k) := by
  induction k generalizing n with
  | zero => simp [writeLe]
  | succ k ih =>
    rw [Nat.add_right_comm,writeLe,writeLe,ih,List.cons_append,Nat.div_div_eq_div_mul,Nat.pow_succ,
      Nat.mul_comm 256]

/-- The first bytes of a number hold its low part. -/
theorem readLe_low (k m n : ℕ) (rest : List UInt8) :
    readLe k (writeLe (k+m) n ++ rest) = some (n%256^k,writeLe m (n/256^k) ++ rest) := by
  have hwrite : writeLe k n = writeLe k (n%256^k) := by
    induction k generalizing n with
    | zero => rfl
    | succ k ih =>
      rw [writeLe,writeLe,ih (n/256),ih (n%256^(k+1)/256)]
      have hb : UInt8.ofNat n = UInt8.ofNat (n%256^(k+1)) := by
        refine UInt8.toNat_inj.mp ?_
        rw [UInt8.toNat_ofNat',UInt8.toNat_ofNat',Nat.mod_mod_of_dvd n ⟨256^k,Nat.pow_succ'⟩]
      rw [hb,Nat.pow_succ,Nat.mul_comm,Nat.mod_mul_right_div_self,Nat.mod_mod]
  rw [writeLe_add,List.append_assoc,hwrite,readLe_write (Nat.mod_lt _ (Nat.pow_pos (by decide)))]

theorem le32_short {bs : List UInt8} (h : bs.length < 4) : le32.read bs = none := by
  change (readLe 4 bs).map _ = none
  rw [readLe_short h,Option.map_none]

theorem le64_short {bs : List UInt8} (h : bs.length < 8) : le64.read bs = none := by
  change (readLe 8 bs).map _ = none
  rw [readLe_short h,Option.map_none]

theorem le32_take (a : UInt32) (rest : List UInt8) (k : ℕ) :
    le32.read ((le32.write a ++ rest).take k) = if 4 ≤ k then some (a,rest.take (k-4)) else none := by
  split_ifs with hk
  · rw [List.take_append,length_le32,List.take_of_length_le (by rw [length_le32]; exact hk),le32.read_write]
  · exact le32_short (by rw [List.length_take]; omega)

theorem le64_take (a : UInt64) (rest : List UInt8) (k : ℕ) :
    le64.read ((le64.write a ++ rest).take k) = if 8 ≤ k then some (a,rest.take (k-8)) else none := by
  split_ifs with hk
  · rw [List.take_append,length_le64,List.take_of_length_le (by rw [length_le64]; exact hk),le64.read_write]
  · exact le64_short (by rw [List.length_take]; omega)

/-! ### Nothing else is read -/

/-- The value of the first bytes, low bits first. -/
def leValue (bs : List UInt8) : ℕ := bs.foldr (fun b n => b.toNat+256*n) 0

theorem readLe_eq {k : ℕ} {bs : List UInt8} (h : k ≤ bs.length) :
    readLe k bs = some (leValue (bs.take k),bs.drop k) := by
  induction k generalizing bs with
  | zero => rfl
  | succ k ih =>
    cases bs with
    | nil => cases h
    | cons b bs =>
      rw [readLe,ih (Nat.le_of_succ_le_succ h)]
      rfl

theorem writeLe_of_read {k n : ℕ} {bs rest : List UInt8} (h : readLe k bs = some (n,rest)) :
    bs = writeLe k n ++ rest ∧ n < 256^k := by
  induction k generalizing bs n with
  | zero =>
    obtain ⟨rfl,rfl⟩ : 0 = n ∧ bs = rest := by simpa [readLe] using h
    exact ⟨rfl,Nat.one_pos⟩
  | succ k ih =>
    cases bs with
    | nil => cases h
    | cons b bs =>
      obtain ⟨⟨high,r⟩,hread,heq⟩ := Option.map_eq_some_iff.mp h
      obtain ⟨rfl,rfl⟩ := Prod.mk.inj heq
      obtain ⟨hbs,hlt⟩ := ih hread
      have hb := b.toNat_lt
      have hlow : UInt8.ofNat (b.toNat+256*high) = b := by
        refine UInt8.toNat_inj.mp ?_
        rw [UInt8.toNat_ofNat']
        omega
      have hdiv : (b.toNat+256*high)/256 = high := by omega
      rw [writeLe,hlow,hdiv,List.cons_append,← hbs]
      refine ⟨rfl,?_⟩
      rw [Nat.pow_succ']
      omega

/-- The reader takes nothing but what is written for the value. -/
def Exact (w : Wire α) : Prop := ∀ {bs a rest}, w.read bs = some (a,rest) → bs = w.write a ++ rest

theorem exact_byte : byte.Exact := by
  intro bs a rest h
  cases bs with
  | nil => cases h
  | cons b bs =>
    cases h
    rfl

/-- Numbers of `k` bytes, low bits first. -/
theorem exact_le {w : Wire α} {k : ℕ} {toNat : α → ℕ} {ofNat : ℕ → α}
    (hread : ∀ bs, w.read bs = (readLe k bs).map fun r => (ofNat r.1,r.2)) (hwrite : ∀ a, w.write a = writeLe k (toNat a))
    (hof : ∀ n < 256^k, toNat (ofNat n) = n) : w.Exact := by
  intro bs a rest h
  rw [hread] at h
  obtain ⟨⟨n,r⟩,hle,heq⟩ := Option.map_eq_some_iff.mp h
  obtain ⟨rfl,rfl⟩ := Prod.mk.inj heq
  obtain ⟨hbs,hlt⟩ := writeLe_of_read hle
  rw [hwrite,hof n hlt]
  exact hbs

theorem exact_le16 : le16.Exact := exact_le (fun _ => rfl) (fun _ => rfl) fun _ h => UInt16.toNat_ofNat_of_lt' h

theorem exact_le32 : le32.Exact := exact_le (fun _ => rfl) (fun _ => rfl) fun _ h => UInt32.toNat_ofNat_of_lt' h

theorem exact_le64 : le64.Exact := exact_le (fun _ => rfl) (fun _ => rfl) fun _ h => UInt64.toNat_ofNat_of_lt' h

end Wire

/-- The first `n` bytes and what follows them; nothing when there are fewer. -/
def readExact (n : ℕ) (bs : List UInt8) : Option (List UInt8 × List UInt8) :=
  if n ≤ bs.length then some (bs.take n,bs.drop n) else none

@[simp] theorem readExact_append (bs rest : List UInt8) :
    readExact bs.length (bs ++ rest) = some (bs,rest) := by
  simp [readExact]

theorem readExact_short {n : ℕ} {bs : List UInt8} (h : bs.length < n) : readExact n bs = none :=
  if_neg (Nat.not_le.mpr h)

theorem readExact_take (bs rest : List UInt8) (k : ℕ) :
    readExact bs.length ((bs ++ rest).take k) =
      if bs.length ≤ k then some (bs,rest.take (k-bs.length)) else none := by
  split_ifs with hk
  · rw [List.take_append,List.take_of_length_le hk,readExact_append]
  · exact readExact_short (by rw [List.length_take]; omega)

theorem readExact_eq_some {n : ℕ} {bs front rest : List UInt8} (h : readExact n bs = some (front,rest)) :
    bs = front ++ rest ∧ front.length = n := by
  unfold readExact at h
  split_ifs at h with hle
  obtain ⟨rfl,rfl⟩ := Prod.mk.inj (Option.some.inj h)
  exact ⟨(List.take_append_drop n bs).symm,List.length_take_of_le hle⟩

/-! ### Codewords at the front of an input -/

namespace PrefixCode
variable {α β : Type} {P : α → Prop} {write : α → List β} {decode : List β → Option α} {a a' : α} {bs : List β}

/-- The decoder gives back every value of the code, whatever follows its codeword. -/
def Recovers (P : α → Prop) (write : α → List β) (decode : List β → Option α) : Prop :=
  ∀ a, P a → ∀ rest, decode (write a ++ rest) = some a

/-- The decoder answers with a value exactly when its codeword is at the front of the input. -/
def Recognizes (P : α → Prop) (write : α → List β) (decode : List β → Option α) : Prop :=
  ∀ bs a, decode bs = some a ↔ P a ∧ write a <+: bs

theorem Recovers.unique (h : Recovers P write decode) (ha : P a) (ha' : P a') (hw : write a <+: bs)
    (hw' : write a' <+: bs) : a = a' := by
  obtain ⟨rest,rfl⟩ := hw
  obtain ⟨rest',heq⟩ := hw'
  have hdecode := h a' ha' rest'
  rw [heq,h a ha rest] at hdecode
  exact Option.some.inj hdecode

/-- No codeword is a prefix of another. -/
theorem Recovers.not_prefix (h : Recovers P write decode) (ha : P a) (ha' : P a') (hne : a ≠ a') :
    ¬ write a <+: write a' :=
  fun hw => hne (h.unique ha ha' hw (List.prefix_refl _))

theorem Recognizes.recovers (h : Recognizes P write decode) : Recovers P write decode :=
  fun a ha rest => (h _ a).mpr ⟨ha,List.prefix_append _ rest⟩

/-- A codeword cut short is not decoded. -/
theorem Recognizes.cut (h : Recognizes P write decode) (ha : P a) (hbs : bs <+: write a) (hne : bs ≠ write a) :
    decode bs = none := by
  refine Option.eq_none_iff_forall_ne_some.mpr fun a' hdecode => hne ?_
  obtain ⟨ha',hw⟩ := (h bs a').mp hdecode
  obtain rfl := h.recovers.unique ha' ha (hw.trans hbs) (List.prefix_refl _)
  exact hbs.eq_of_length_le hw.length_le

end PrefixCode

namespace Crc32

/-- One bit of the division by the reflected polynomial. -/
def shift (c : UInt32) : UInt32 := if c &&& 1 = 1 then (c >>> 1) ^^^ 0xEDB88320 else c >>> 1

def update (c : UInt32) (b : UInt8) : UInt32 := Nat.repeat shift 8 (c ^^^ b.toUInt32)

def hash (bs : List UInt8) : UInt32 := ~~~(bs.foldl update 0xFFFFFFFF)

-- the check value of the digits 1 to 9
example : hash [0x31,0x32,0x33,0x34,0x35,0x36,0x37,0x38,0x39] = 0xCBF43926 := by decide +kernel

end Crc32
