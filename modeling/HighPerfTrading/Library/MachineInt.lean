import Mathlib.Algebra.BigOperators.Group.List.Basic
import Mathlib.Algebra.Group.Defs
import Mathlib.Algebra.Order.Group.Int
import Mathlib.Algebra.Order.Group.Unbundled.Basic
import Mathlib.Algebra.Ring.Int.Defs

/-! Wrapping 64-bit integers: the additive group they form, and when an operation agrees
with the one on the integers. -/

namespace Int64

instance addCommGroup : AddCommGroup Int64 where
  add_assoc := Int64.add_assoc
  zero_add := Int64.zero_add
  add_zero := Int64.add_zero
  add_comm := Int64.add_comm
  neg_add_cancel a := by grind
  sub_eq_add_neg a b := by grind
  nsmul := nsmulRec
  zsmul := zsmulRec

theorem pos_iff_toInt {a : Int64} : 0 < a ↔ 0 < a.toInt := by
  rw [Int64.lt_iff_toInt_lt,Int64.toInt_zero]

theorem nonpos_iff_toInt {a : Int64} : a ≤ 0 ↔ a.toInt ≤ 0 := by
  rw [Int64.le_iff_toInt_le,Int64.toInt_zero]

theorem eq_zero_iff_toInt {a : Int64} : a = 0 ↔ a.toInt = 0 := by
  rw [← Int64.toInt_inj,Int64.toInt_zero]

theorem toInt_add_of_range {a b : Int64} (hl : -2^63 ≤ a.toInt+b.toInt)
    (hu : a.toInt+b.toInt < 2^63) : (a+b).toInt = a.toInt+b.toInt := by
  rw [Int64.toInt_add,Int.bmod_eq_of_le (by omega) (by omega)]

theorem toInt_sub_of_range {a b : Int64} (hl : -2^63 ≤ a.toInt-b.toInt)
    (hu : a.toInt-b.toInt < 2^63) : (a-b).toInt = a.toInt-b.toInt := by
  rw [Int64.toInt_sub,Int.bmod_eq_of_le (by omega) (by omega)]

/-- A wrapped integer is added without wrapping when the sum is in range. -/
theorem toInt_add_ofInt {a : Int64} {n : ℤ} (hl : -2^63 ≤ a.toInt+n) (hu : a.toInt+n < 2^63) :
    (a+Int64.ofInt n).toInt = a.toInt+n := by
  have hsum : a+Int64.ofInt n = Int64.ofInt (a.toInt+n) := by rw [Int64.ofInt_add,Int64.ofInt_toInt]
  rw [hsum,Int64.toInt_ofInt_of_le hl hu]

theorem toInt_mul_of_range {a b : Int64} (hl : -2^63 ≤ a.toInt*b.toInt)
    (hu : a.toInt*b.toInt < 2^63) : (a*b).toInt = a.toInt*b.toInt := by
  rw [Int64.toInt_mul,Int.bmod_eq_of_le (by omega) (by omega)]

theorem min_def (a b : Int64) : min a b = if a ≤ b then a else b := rfl

theorem toInt_min (a b : Int64) : (min a b).toInt = min a.toInt b.toInt := by
  rw [min_def]
  split_ifs with h
  · exact (min_eq_left (Int64.le_iff_toInt_le.mp h)).symm
  · rw [Int64.le_iff_toInt_le,not_le] at h
    exact (min_eq_right h.le).symm

theorem abs_of_pos {a : Int64} (h : 0 < a) : a.abs = a := by
  have hpos : 0 < a.toBitVec.toInt := pos_iff_toInt.mp h
  have hmsb : a.toBitVec.msb = false := by
    rw [BitVec.msb_eq_toInt,decide_eq_false (by omega)]
  rw [Int64.abs,BitVec.abs,hmsb]
  rfl

/-- A wrapping sum is the wrapped sum. -/
theorem sum_ofInt {α : Type} (f : α → ℤ) (xs : List α) :
    (xs.map fun x => Int64.ofInt (f x)).sum = Int64.ofInt (xs.map f).sum := by
  induction xs with
  | nil => rfl
  | cons x xs ih => simp only [List.map_cons,List.sum_cons,ih,Int64.ofInt_add]

theorem mul_eq_ofInt (a b : Int64) : a*b = Int64.ofInt (a.toInt*b.toInt) := by
  rw [Int64.ofInt_mul,Int64.ofInt_toInt,Int64.ofInt_toInt]

theorem toInt_ofInt_le {n : ℤ} (h : 0 ≤ n) : (Int64.ofInt n).toInt ≤ n := by
  rw [Int64.toInt_ofInt,Int.bmod_def]
  change (if n%2^64 < (2^64+1)/2 then n%2^64 else n%2^64-2^64) ≤ n
  split_ifs <;> omega

theorem toInt_ofInt_of_lt {n : ℤ} (h : 0 ≤ n) (hlt : n < 2^63) : (Int64.ofInt n).toInt = n :=
  Int64.toInt_ofInt_of_le (by omega) hlt

end Int64
