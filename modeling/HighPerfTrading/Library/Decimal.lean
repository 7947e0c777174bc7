import Mathlib.Data.List.Basic
import Mathlib.Data.Nat.Basic
import Mathlib.Tactic.IntervalCases

/-! Decimal numerals filled up with zeros. At one width the order of the characters is the
order of the numbers. -/
namespace Decimal

/-- At least `w` decimal digits. -/
def padded (w n : ℕ) : List Char := List.replicate (w-(Nat.toDigits 10 n).length) '0' ++ Nat.toDigits 10 n

theorem length_padded {w n : ℕ} (hw : 0 < w) (h : n < 10^w) : (padded w n).length = w := by
  have hle := (Nat.length_toDigits_le_iff (by decide) hw).mpr h
  rw [padded,List.length_append,List.length_replicate]
  omega

/-- The last digit splits off. -/
theorem padded_succ {w : ℕ} (hw : 0 < w) (n : ℕ) :
    padded (w+1) n = padded w (n/10) ++ [Nat.digitChar (n%10)] := by
  by_cases h : n < 10
  · obtain ⟨w,rfl⟩ := Nat.exists_eq_add_of_le' hw
    rw [padded,padded,Nat.div_eq_of_lt h,Nat.mod_eq_of_lt h,Nat.toDigits_of_lt_base h,Nat.toDigits_zero,
      List.length_singleton,List.length_singleton,Nat.add_sub_cancel,Nat.add_sub_cancel]
    exact congrArg (· ++ [Nat.digitChar n]) List.replicate_succ'
  · rw [padded,padded,Nat.toDigits_of_base_le (by decide) (Nat.le_of_not_lt h),List.length_append,
      List.length_singleton,Nat.add_sub_add_right,List.append_assoc]

theorem digitChar_lt {a b : ℕ} (hab : a < b) (hb : b < 10) : Nat.digitChar a < Nat.digitChar b := by
  interval_cases b <;> interval_cases a <;> decide

/-- Lists of one length are in the order of their fronts. -/
theorem append_lt_append {xs ys : List Char} (hlen : xs.length = ys.length) (h : xs < ys) (us vs : List Char) :
    xs ++ us < ys ++ vs := by
  induction xs generalizing ys with
  | nil =>
    rw [List.eq_nil_of_length_eq_zero hlen.symm] at h
    exact absurd h (List.lt_irrefl _)
  | cons x xs ih =>
    cases ys with
    | nil => cases hlen
    | cons y ys =>
      rw [List.cons_append,List.cons_append,List.cons_lt_cons_iff]
      rcases List.cons_lt_cons_iff.mp h with hlt | ⟨rfl,hlt⟩
      · exact Or.inl hlt
      · exact Or.inr ⟨rfl,ih (Nat.succ.inj hlen) hlt⟩

theorem padded_lt {w a b : ℕ} (hw : 0 < w) (hab : a < b) (hb : b < 10^w) : padded w a < padded w b := by
  induction w,hw using Nat.le_induction generalizing a b with
  | base =>
    have hb' : b < 10 := hb
    rw [padded,padded,Nat.toDigits_of_lt_base (hab.trans hb'),Nat.toDigits_of_lt_base hb']
    exact List.cons_lt_cons_iff.mpr (Or.inl (digitChar_lt hab hb'))
  | succ w hw ih =>
    rw [padded_succ hw,padded_succ hw]
    have hlt : b/10 < 10^w := by rw [Nat.pow_succ] at hb; omega
    rcases Nat.lt_or_ge (a/10) (b/10) with hdiv | hdiv
    · refine append_lt_append ?_ (ih hdiv hlt) _ _
      rw [length_padded hw (hdiv.trans hlt),length_padded hw hlt]
    · -- only the last digits differ
      have heq : a/10 = b/10 := by omega
      rw [heq]
      exact List.append_left_lt (List.cons_lt_cons_iff.mpr (Or.inl (digitChar_lt (by omega) (Nat.mod_lt b (by decide)))))

theorem ofDigitChars_padded (w n : ℕ) : Nat.ofDigitChars 10 (padded w n) 0 = n := by
  rw [padded,Nat.ofDigitChars_append,Nat.ofDigitChars_replicate_zero,Nat.mul_zero,Nat.ofDigitChars_ten_toDigits]

theorem padded_inj {w a b : ℕ} : padded w a = padded w b ↔ a = b := by
  constructor
  · intro h
    rw [← ofDigitChars_padded w a,h,ofDigitChars_padded]
  · exact congrArg _

/-- A numeral of the width needs no zeros. -/
theorem padded_of_le {w n : ℕ} (h : 10^w ≤ n) : padded (w+1) n = Nat.toDigits 10 n := by
  have hlen : w < (Nat.toDigits 10 n).length := by
    by_contra hle
    rcases Nat.eq_zero_or_pos w with rfl | hw
    · exact Nat.toDigits_ne_nil (List.eq_nil_of_length_eq_zero (Nat.le_zero.mp (Nat.le_of_not_lt hle)))
    · exact Nat.not_lt.mpr h ((Nat.length_toDigits_le_iff (by decide) hw).mp (Nat.le_of_not_lt hle))
  rw [padded,Nat.sub_eq_zero_of_le hlen,List.replicate_zero,List.nil_append]

theorem compare_of_lt {s t : String} (h : s < t) : compare s t = .lt := if_pos h

/-- Names that differ in the numeral alone. -/
theorem between_lt (pre post : List Char) {w a b : ℕ} (hw : 0 < w) (hab : a < b) (hb : b < 10^w) :
    pre ++ padded w a ++ post < pre ++ padded w b ++ post := by
  rw [List.append_assoc,List.append_assoc]
  refine List.append_left_lt (append_lt_append ?_ (padded_lt hw hab hb) _ _)
  rw [length_padded hw (hab.trans hb),length_padded hw hb]

end Decimal
