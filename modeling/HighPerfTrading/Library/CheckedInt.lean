import HighPerfTrading.Library.MachineInt
import Mathlib.Algebra.Order.BigOperators.Group.List
import Mathlib.Algebra.Order.Ring.Abs
import Mathlib.Algebra.Order.Ring.Int

/-! 64-bit arithmetic that fails instead of wrapping: an operation has a result exactly when its
mathematical value fits, and it is then the result of the wrapping operation. -/

namespace Int64

/-- The values of the type. -/
def InRange (n : ℤ) : Prop := -2^63 ≤ n ∧ n < 2^63

instance (n : ℤ) : Decidable (InRange n) := inferInstanceAs (Decidable (_ ∧ _))

theorem inRange_toInt (a : Int64) : InRange a.toInt := ⟨Int64.le_toInt a,Int64.toInt_lt a⟩

/-- A mathematical value as a machine integer. -/
def checked (n : ℤ) : Option Int64 := if InRange n then some (Int64.ofInt n) else none

def checkedAdd (a b : Int64) : Option Int64 := checked (a.toInt+b.toInt)

def checkedSub (a b : Int64) : Option Int64 := checked (a.toInt-b.toInt)

def checkedMul (a b : Int64) : Option Int64 := checked (a.toInt*b.toInt)

def checkedNeg (a : Int64) : Option Int64 := checked (-a.toInt)

/-- Division truncates towards zero. -/
def checkedDiv (a b : Int64) : Option Int64 := if b = 0 then none else checked (a.toInt.tdiv b.toInt)

theorem checkedAdd_eq (a b : Int64) :
    checkedAdd a b = if InRange (a.toInt+b.toInt) then some (a+b) else none := by
  rw [checkedAdd,checked,Int64.ofInt_add,Int64.ofInt_toInt,Int64.ofInt_toInt]

theorem checkedSub_eq (a b : Int64) :
    checkedSub a b = if InRange (a.toInt-b.toInt) then some (a-b) else none := by
  rw [checkedSub,checked,Int64.ofInt_sub,Int64.ofInt_toInt,Int64.ofInt_toInt]

theorem checkedMul_eq (a b : Int64) :
    checkedMul a b = if InRange (a.toInt*b.toInt) then some (a*b) else none := by
  rw [checkedMul,checked,Int64.ofInt_mul,Int64.ofInt_toInt,Int64.ofInt_toInt]

theorem checkedNeg_eq (a : Int64) : checkedNeg a = if InRange (-a.toInt) then some (-a) else none := by
  rw [checkedNeg,checked,Int64.ofInt_neg,Int64.ofInt_toInt]

/-! A result of a checked operation is both the wrapping result and the mathematical value. -/

section Result
variable {a b c : Int64}

theorem checked_some {n : ℤ} (h : checked n = some c) : c = Int64.ofInt n ∧ c.toInt = n := by
  rw [checked] at h
  split_ifs at h with hrange
  obtain rfl := Option.some.inj h
  exact ⟨rfl,Int64.toInt_ofInt_of_le hrange.1 hrange.2⟩

theorem checkedAdd_some (h : checkedAdd a b = some c) : c = a+b ∧ c.toInt = a.toInt+b.toInt := by
  obtain ⟨hc,hval⟩ := checked_some h
  rw [Int64.ofInt_add,Int64.ofInt_toInt,Int64.ofInt_toInt] at hc
  exact ⟨hc,hval⟩

theorem checkedSub_some (h : checkedSub a b = some c) : c = a-b ∧ c.toInt = a.toInt-b.toInt := by
  obtain ⟨hc,hval⟩ := checked_some h
  rw [Int64.ofInt_sub,Int64.ofInt_toInt,Int64.ofInt_toInt] at hc
  exact ⟨hc,hval⟩

theorem checkedMul_some (h : checkedMul a b = some c) : c = a*b ∧ c.toInt = a.toInt*b.toInt := by
  obtain ⟨hc,hval⟩ := checked_some h
  rw [Int64.ofInt_mul,Int64.ofInt_toInt,Int64.ofInt_toInt] at hc
  exact ⟨hc,hval⟩

theorem checkedNeg_some (h : checkedNeg a = some c) : c = -a ∧ c.toInt = -a.toInt := by
  obtain ⟨hc,hval⟩ := checked_some h
  rw [Int64.ofInt_neg,Int64.ofInt_toInt] at hc
  exact ⟨hc,hval⟩

theorem ofInt_tdiv_toInt (a b : Int64) : Int64.ofInt (a.toInt.tdiv b.toInt) = a/b := by
  rw [← Int64.toInt_inj,Int64.toInt_div,Int64.toInt_ofInt]

theorem checkedDiv_some (h : checkedDiv a b = some c) : c = a/b ∧ c.toInt = a.toInt.tdiv b.toInt := by
  rw [checkedDiv] at h
  split_ifs at h with hb
  obtain ⟨hc,hval⟩ := checked_some h
  rw [ofInt_tdiv_toInt] at hc
  exact ⟨hc,hval⟩

end Result

theorem toInt_neg_of_range {a : Int64} (h : InRange (-a.toInt)) : (-a).toInt = -a.toInt := by
  obtain ⟨hl,hu⟩ := h
  rw [Int64.toInt_neg,Int.bmod_eq_of_le (by omega) (by omega)]

theorem inRange_of_abs {x : ℤ} (h : |x| < 2^63) : InRange x := by
  obtain ⟨hl,hu⟩ := abs_lt.mp h
  exact ⟨hl.le,hu⟩

theorem abs_mul_le {a b p q : ℤ} (ha : |a| ≤ q) (hb : |b| ≤ p) : |a*b| ≤ p*q := by
  rw [abs_mul,mul_comm]
  exact mul_le_mul hb ha (abs_nonneg a) ((abs_nonneg b).trans hb)

theorem abs_tdiv_le {a b p : ℤ} (hb : 0 < b) (h : |a| ≤ p*b) : |a.tdiv b| ≤ p := by
  have hp : 0 ≤ p := by
    by_contra hneg
    exact absurd ((abs_nonneg a).trans h) (not_le.mpr (mul_neg_of_neg_of_pos (not_le.mp hneg) hb))
  obtain ⟨n,rfl⟩ := Int.eq_ofNat_of_zero_le hp
  obtain ⟨m,rfl⟩ := Int.eq_ofNat_of_zero_le hb.le
  rw [Int.abs_eq_natAbs] at h ⊢
  rw [Int.natAbs_tdiv,Int.natAbs_natCast]
  exact_mod_cast Nat.div_le_of_le_mul (by rw [mul_comm]; exact_mod_cast h)

/-- With a positive divisor only rounding happens. -/
theorem checkedDiv_of_pos (a : Int64) {b : Int64} (hb : 0 < b.toInt) : checkedDiv a b = some (a/b) := by
  have hne : b ≠ 0 := by
    rintro rfl
    exact absurd hb (by decide)
  have ha := inRange_toInt a
  have hle := Int.natAbs_tdiv_le_natAbs a.toInt b.toInt
  have hrange : InRange (a.toInt.tdiv b.toInt) := by
    obtain ⟨hl,hu⟩ := ha
    rcases lt_or_ge a.toInt 0 with h | h
    · have h0 := Int.tdiv_nonneg (Int.neg_nonneg_of_nonpos h.le) hb.le
      rw [Int.neg_tdiv] at h0
      exact ⟨by omega,by omega⟩
    · have h0 := Int.tdiv_nonneg h hb.le
      exact ⟨by omega,by omega⟩
  rw [checkedDiv,if_neg hne,checked,if_pos hrange,ofInt_tdiv_toInt]

/-- The sum of a list, added up from the left. -/
def checkedSum (xs : List Int64) : Option Int64 := xs.foldlM checkedAdd 0

section Sum
variable {xs : List Int64}

theorem sum_toInt_nonneg (hnn : ∀ x ∈ xs, 0 ≤ x.toInt) : 0 ≤ (xs.map Int64.toInt).sum := by
  refine List.sum_nonneg fun y hy => ?_
  obtain ⟨x,hx,rfl⟩ := List.mem_map.mp hy
  exact hnn x hx

theorem foldlM_checkedAdd (hnn : ∀ x ∈ xs, 0 ≤ x.toInt) (a : Int64) (ha : 0 ≤ a.toInt)
    (h : a.toInt+(xs.map Int64.toInt).sum < 2^63) :
    xs.foldlM checkedAdd a = some (a+xs.sum) ∧ (a+xs.sum).toInt = a.toInt+(xs.map Int64.toInt).sum := by
  induction xs generalizing a with
  | nil => simp
  | cons x xs ih =>
    have hx := hnn x (List.mem_cons_self ..)
    have hrest := sum_toInt_nonneg fun y hy => hnn y (List.mem_cons_of_mem x hy)
    rw [List.map_cons,List.sum_cons] at h
    have hrange : InRange (a.toInt+x.toInt) := ⟨by omega,by omega⟩
    have hsum : (a+x).toInt = a.toInt+x.toInt := toInt_add_of_range hrange.1 hrange.2
    obtain ⟨hfold,htotal⟩ := ih (fun y hy => hnn y (List.mem_cons_of_mem _ hy)) (a+x) (by omega) (by omega)
    rw [List.foldlM_cons,checkedAdd_eq,if_pos hrange,List.map_cons,List.sum_cons,List.sum_cons,← add_assoc,htotal,hsum]
    exact ⟨hfold,add_assoc _ _ _⟩

/-- Parts that are not negative add up when their total fits. -/
theorem checkedSum_eq (hnn : ∀ x ∈ xs, 0 ≤ x.toInt) (h : (xs.map Int64.toInt).sum < 2^63) :
    checkedSum xs = some xs.sum ∧ xs.sum.toInt = (xs.map Int64.toInt).sum := by
  have hfold := foldlM_checkedAdd hnn 0 (le_refl 0) (by rw [Int64.toInt_zero]; omega)
  rwa [zero_add,Int64.toInt_zero,zero_add] at hfold

end Sum

end Int64

/-- A list of results has a result exactly when all of them do. -/
theorem List.mapM_ite {α β : Type} {p : α → Prop} [DecidablePred p] {f : α → Option β} {g : α → β}
    (h : ∀ a, f a = if p a then some (g a) else none) (xs : List α) :
    xs.mapM f = if ∀ a ∈ xs, p a then some (xs.map g) else none := by
  induction xs with
  | nil => simp
  | cons a xs ih =>
    rw [List.mapM_cons,h,ih]
    by_cases ha : p a
    swap
    · have hno : ¬ ∀ x ∈ a::xs, p x := fun hall => ha (hall a (List.mem_cons_self ..))
      rw [if_neg ha,if_neg hno]
      rfl
    rw [if_pos ha]
    by_cases hxs : ∀ x ∈ xs, p x
    · rw [if_pos hxs,if_pos (List.forall_mem_cons.mpr ⟨ha,hxs⟩)]
      rfl
    · have hno : ¬ ∀ x ∈ a::xs, p x := fun hall => hxs (List.forall_mem_cons.mp hall).2
      rw [if_neg hxs,if_neg hno]
      rfl
