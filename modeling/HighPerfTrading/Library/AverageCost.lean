import Mathlib.Algebra.Order.Group.Unbundled.Int
import Mathlib.Algebra.Order.Ring.Int
import Mathlib.Tactic.Ring

/-! Average-cost accounts in whole units. A holding keeps one price for all of its lots: trades against it realize
the difference to that price, trades that add to it round the new average towards zero. Rounding is the only way in
which the books leave what was really paid and received. -/
namespace AverageCost

structure Holding where
  net : ℤ
  avg : ℤ
  realized : ℤ
  deriving DecidableEq

namespace Holding

/-- The lots that a trade in this direction, 1 or -1, adds to. They are negative when it closes. -/
def lots (h : Holding) (dir : ℤ) : ℤ := dir*h.net

/-- Close the lots held the other way, open at the price of the trade, or add at the rounded average. -/
def trade (h : Holding) (dir price qty : ℤ) : Holding where
  net := h.net+dir*qty
  avg :=
    if h.lots dir < 0 then (if -h.lots dir < qty then price else h.avg)
    else if h.lots dir = 0 then price
    else (h.lots dir*h.avg+qty*price).tdiv (h.lots dir+qty)
  realized :=
    if h.lots dir < 0 then h.realized+min qty (-h.lots dir)*(dir*(h.avg-price)) else h.realized

/-- What the trades have brought in if the lots are worth their average price. -/
def proceeds (h : Holding) : ℤ := h.realized-h.net*h.avg

/-- What the rounding of a trade leaves out of the value of the lots. -/
def rounding (h : Holding) (dir price qty : ℤ) : ℤ :=
  if 0 < h.lots dir then (h.lots dir*h.avg+qty*price).tmod (h.lots dir+qty) else 0

section Trade
variable (h : Holding) {dir price qty : ℤ}

theorem lots_trade (hdir : dir*dir = 1) : (h.trade dir price qty).lots dir = h.lots dir+qty := by
  simp only [lots,trade,mul_add,← mul_assoc,hdir,one_mul]

theorem net_eq (hdir : dir*dir = 1) : h.net = dir*h.lots dir := by
  rw [lots,← mul_assoc,hdir,one_mul]

/-- A trade brings in its value, and the rounding. -/
theorem proceeds_trade (hdir : dir*dir = 1) :
    (h.trade dir price qty).proceeds = h.proceeds-dir*(qty*price)+dir*h.rounding dir price qty := by
  have hnet := h.net_eq hdir
  unfold proceeds rounding trade
  generalize h.lots dir = lots at hnet ⊢
  simp only [hnet]
  rcases lt_trichotomy lots 0 with hneg | rfl | hpos
  · simp only [if_pos hneg,if_neg hneg.not_gt]
    by_cases hflip : -lots < qty
    · rw [if_pos hflip,min_eq_right hflip.le]
      ring
    · rw [if_neg hflip,min_eq_left (not_lt.mp hflip)]
      ring
  · simp only [lt_irrefl,if_false,if_true]
    ring
  · simp only [if_neg hpos.not_gt,if_neg hpos.ne',if_pos hpos]
    have hdiv := Int.mul_tdiv_add_tmod (lots*h.avg+qty*price) (lots+qty)
    generalize (lots*h.avg+qty*price).tdiv (lots+qty) = avg at hdiv ⊢
    generalize (lots*h.avg+qty*price).tmod (lots+qty) = rest at hdiv ⊢
    obtain rfl : rest = lots*h.avg+qty*price-(lots+qty)*avg := by omega
    ring

theorem rounding_of_not_adding (hadd : ¬ 0 < h.lots dir) : h.rounding dir price qty = 0 := if_neg hadd

/-- Rounding takes less than one unit from each lot. -/
theorem rounding_bounds (havg : 0 ≤ h.avg) (hprice : 0 ≤ price) (hqty : 0 < qty) (hadd : 0 < h.lots dir) :
    0 ≤ h.rounding dir price qty ∧ h.rounding dir price qty ≤ h.lots dir+qty-1 := by
  have hvalue : 0 ≤ h.lots dir*h.avg+qty*price := add_nonneg (mul_nonneg hadd.le havg) (mul_nonneg hqty.le hprice)
  have hlt := Int.tmod_lt_of_pos (h.lots dir*h.avg+qty*price) (add_pos hadd hqty)
  rw [rounding,if_pos hadd]
  exact ⟨Int.tmod_nonneg _ hvalue,by omega⟩

theorem avg_nonneg (havg : 0 ≤ h.avg) (hprice : 0 ≤ price) (hqty : 0 < qty) : 0 ≤ (h.trade dir price qty).avg := by
  unfold trade
  simp only
  split_ifs with hclose hflip hopen
  · exact hprice
  · exact havg
  · exact hprice
  · have hadd : 0 ≤ h.lots dir := not_lt.mp hclose
    exact Int.tdiv_nonneg (add_nonneg (mul_nonneg hadd havg) (mul_nonneg hqty.le hprice)) (by omega)

end Trade

end Holding
end AverageCost
