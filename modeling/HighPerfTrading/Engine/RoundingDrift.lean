import HighPerfTrading.Engine.CheckedAgrees
import HighPerfTrading.Library.AverageCost

/-! Realized profit against the money that was paid and received. While no fill overflows, a position is an
average-cost holding: its books leave the trades only where a fill that adds to it rounds the average price. -/
namespace HighPerfTrading
open AverageCost
open Int64 (toInt_min pos_iff_toInt eq_zero_iff_toInt checkedAdd_some checkedSub_some checkedMul_some checkedNeg_some
  checkedDiv_some)

def Position.holding (pos : Position) : Holding := ⟨pos.netPosition.toInt,pos.avgPrice.toInt,pos.realizedPnl.toInt⟩

/-- Buying adds to long positions, selling to short ones. -/
def Side.direction : Side → ℤ
  | .buy => 1
  | .sell => -1

theorem Side.direction_mul_self (s : Side) : s.direction*s.direction = 1 := by cases s <;> rfl

namespace Checked
variable {pos pos' : Position} {m m' : AccountManager} {price qty : Int64}

theorem closeLots_holding {a b closing : Int64} (h : closeLots pos a b closing qty price = some pos') :
    pos'.holding = ⟨pos.netPosition.toInt,if closing.toInt < qty.toInt then price.toInt else pos.avgPrice.toInt,
      pos.realizedPnl.toInt+closing.toInt*(a.toInt-b.toInt)⟩ := by
  unfold closeLots at h
  simp only [Option.bind_eq_bind,Option.bind_eq_some_iff] at h
  obtain ⟨perLot,hper,pnl,hpnl,realized,hreal,opening,hopen,h⟩ := h
  have hflip : 0 < opening ↔ closing.toInt < qty.toInt := by
    rw [pos_iff_toInt,(checkedSub_some hopen).2]
    omega
  rw [← Option.some.inj h,Position.holding,(checkedAdd_some hreal).2,(checkedMul_some hpnl).2,(checkedSub_some hper).2]
  simp only [hflip,apply_ite Int64.toInt]

theorem addLots_holding {lots : Int64} (h : addLots pos lots qty price = some pos') :
    pos'.holding = ⟨pos.netPosition.toInt,
      (lots.toInt*pos.avgPrice.toInt+qty.toInt*price.toInt).tdiv (lots.toInt+qty.toInt),pos.realizedPnl.toInt⟩ := by
  unfold addLots at h
  simp only [Option.bind_eq_bind,Option.bind_eq_some_iff] at h
  obtain ⟨held,hheld,added,hadded,total,htotal,size,hsize,avg,havg,h⟩ := h
  rw [← Option.some.inj h,Position.holding,(checkedDiv_some havg).2,(checkedAdd_some htotal).2,
    (checkedAdd_some hsize).2,(checkedMul_some hheld).2,(checkedMul_some hadded).2]

theorem buyFill_holding (h : buyFill pos price qty = some pos') :
    pos'.holding = pos.holding.trade 1 price.toInt qty.toInt := by
  unfold buyFill at h
  simp only [Option.bind_eq_bind,Option.bind_eq_some_iff] at h
  obtain ⟨lots,hlots,net,hnet,h⟩ := h
  have hfields : pos'.holding = { lots.holding with net := lots.holding.net+qty.toInt } := by
    rw [← Option.some.inj h,Position.holding,(checkedAdd_some hnet).2]
    rfl
  rw [hfields]
  unfold buyLots at hlots
  by_cases hneg : pos.netPosition < 0
  · have hneg' : pos.netPosition.toInt < 0 := by rwa [Int64.lt_iff_toInt_lt] at hneg
    rw [if_pos hneg] at hlots
    obtain ⟨short,hshort,hlots⟩ := Option.bind_eq_some_iff.mp hlots
    rw [closeLots_holding hlots,toInt_min,(checkedNeg_some hshort).2]
    simp [Holding.trade,Holding.lots,Position.holding,hneg']
  · have hneg' : ¬ pos.netPosition.toInt < 0 := by rwa [Int64.lt_iff_toInt_lt] at hneg
    rw [if_neg hneg] at hlots
    by_cases hflat : pos.netPosition = 0
    · rw [if_pos hflat] at hlots
      rw [← Option.some.inj hlots]
      simp [Holding.trade,Holding.lots,Position.holding,hflat]
    · rw [if_neg hflat] at hlots
      rw [addLots_holding hlots]
      rw [eq_zero_iff_toInt] at hflat
      simp [Holding.trade,Holding.lots,Position.holding,hneg',hflat]

theorem sellFill_holding (h : sellFill pos price qty = some pos') :
    pos'.holding = pos.holding.trade (-1) price.toInt qty.toInt := by
  unfold sellFill at h
  simp only [Option.bind_eq_bind,Option.bind_eq_some_iff] at h
  obtain ⟨lots,hlots,net,hnet,h⟩ := h
  have hfields : pos'.holding = { lots.holding with net := lots.holding.net-qty.toInt } := by
    rw [← Option.some.inj h,Position.holding,(checkedSub_some hnet).2]
    rfl
  rw [hfields]
  unfold sellLots at hlots
  by_cases hpos : 0 < pos.netPosition
  · have hpos' := pos_iff_toInt.mp hpos
    rw [if_pos hpos] at hlots
    rw [closeLots_holding hlots,toInt_min]
    simp [Holding.trade,Holding.lots,Position.holding,hpos',sub_eq_add_neg]
  · have hpos' : ¬ 0 < pos.netPosition.toInt := fun h => hpos (pos_iff_toInt.mpr h)
    rw [if_neg hpos] at hlots
    by_cases hflat : pos.netPosition = 0
    · rw [if_pos hflat] at hlots
      rw [← Option.some.inj hlots]
      simp [Holding.trade,Holding.lots,Position.holding,hflat,sub_eq_add_neg]
    · rw [if_neg hflat] at hlots
      obtain ⟨short,hshort,hlots⟩ := Option.bind_eq_some_iff.mp hlots
      rw [addLots_holding hlots,(checkedNeg_some hshort).2]
      rw [eq_zero_iff_toInt] at hflat
      simp [Holding.trade,Holding.lots,Position.holding,hpos',hflat,sub_eq_add_neg]

/-- A fill that does not overflow is a trade of the account's holding. -/
theorem applyFill_holding {acct : AccountId} {side : Side} (h : applyFill m acct side price qty = some m') :
    (m'.getPosition acct).holding = (m.getPosition acct).holding.trade side.direction price.toInt qty.toInt := by
  unfold applyFill at h
  cases side with
  | buy =>
    obtain ⟨pos',hpos,h⟩ := Option.bind_eq_some_iff.mp h
    have hget : m'.getPosition acct = pos' := by
      rw [← Option.some.inj h]
      simp [AccountManager.getPosition]
    exact (congrArg Position.holding hget).trans (buyFill_holding hpos)
  | sell =>
    obtain ⟨pos',hpos,h⟩ := Option.bind_eq_some_iff.mp h
    have hget : m'.getPosition acct = pos' := by
      rw [← Option.some.inj h]
      simp [AccountManager.getPosition]
    exact (congrArg Position.holding hget).trans (sellFill_holding hpos)

end Checked

/-! ### Sequences of fills -/

/-- The arguments of one call of `applyFill`. -/
structure FillCall where
  accountId : AccountId
  side : Side
  price : Price
  qty : Qty
  deriving DecidableEq

namespace FillCall

/-- What the account of the call is paid: the value it sells, less the value it buys. -/
def cash (c : FillCall) : ℤ :=
  match c.side with
  | .buy => -(c.qty.toInt*c.price.toInt)
  | .sell => c.qty.toInt*c.price.toInt

/-- The call adds to a long position by buying or to a short one by selling. -/
def Adds (m : AccountManager) (c : FillCall) : Prop :=
  match c.side with
  | .buy => 0 < (m.getPosition c.accountId).netPosition
  | .sell => (m.getPosition c.accountId).netPosition < 0

instance (m : AccountManager) (c : FillCall) : Decidable (Adds m c) := by
  unfold Adds; split <;> infer_instance

/-- None of the call's arithmetic overflows. -/
def Fits (m : AccountManager) (c : FillCall) : Prop :=
  (Checked.applyFill m c.accountId c.side c.price c.qty).isSome

instance (m : AccountManager) (c : FillCall) : Decidable (Fits m c) := inferInstanceAs (Decidable (_ = true))

end FillCall

namespace AccountManager

def applyCall (m : AccountManager) (c : FillCall) : AccountManager := m.applyFill c.accountId c.side c.price c.qty

theorem applyCall_of_fits {m : AccountManager} {c : FillCall} (h : c.Fits m) :
    Checked.applyFill m c.accountId c.side c.price c.qty = some (m.applyCall c) := by
  obtain ⟨m',hm⟩ := Option.isSome_iff_exists.mp h
  rw [hm,Checked.applyFill_some hm]
  rfl

/-- What a list of calls pays an account. -/
def cashOf (calls : List FillCall) (a : AccountId) : ℤ :=
  ((calls.filter fun c => c.accountId = a).map FillCall.cash).sum

/-- The realized profit less what the lots cost and what was paid. -/
def drift (m : AccountManager) (calls : List FillCall) (a : AccountId) : ℤ :=
  let pos := m.getPosition a
  pos.realizedPnl.toInt-pos.netPosition.toInt*pos.avgPrice.toInt-cashOf calls a

/-- The lots of an account's position, long or short, less one. -/
def sizeLessOne (m : AccountManager) (a : AccountId) : ℤ := |(m.getPosition a).netPosition.toInt|-1

/-- Added up over the calls that add to the position of an account, after each of them. -/
def roundingRoom (a : AccountId) : AccountManager → List FillCall → ℤ
  | _,[] => 0
  | m,c::cs => (if c.accountId = a ∧ c.Adds m then (m.applyCall c).sizeLessOne a else 0)+roundingRoom a (m.applyCall c) cs

/-- Sequences of fills of positive quantities at prices that are not negative, none of which overflows. -/
inductive Filled (limits : RiskLimits) : AccountManager → List FillCall → Prop
  | start : Filled limits (new limits) []
  | fill {m : AccountManager} {calls : List FillCall} (h : Filled limits m calls) (c : FillCall) (hq : 0 < c.qty)
      (hp : 0 ≤ c.price) (hr : c.Fits m) : Filled limits (m.applyCall c) (calls ++ [c])

section Call
variable {m : AccountManager} {c : FillCall} {calls : List FillCall} (a : AccountId)

theorem adds_iff : c.Adds m ↔ 0 < (m.getPosition c.accountId).holding.lots c.side.direction := by
  obtain ⟨acct,side,price,qty⟩ := c
  cases side with
  | buy => simp [FillCall.Adds,Holding.lots,Position.holding,Side.direction,pos_iff_toInt]
  | sell => simp [FillCall.Adds,Holding.lots,Position.holding,Side.direction,Int64.lt_iff_toInt_lt]

theorem cash_eq (c : FillCall) : c.cash = -(c.side.direction*(c.qty.toInt*c.price.toInt)) := by
  obtain ⟨acct,side,price,qty⟩ := c
  cases side <;> simp [FillCall.cash,Side.direction]

theorem cashOf_append (calls : List FillCall) (c : FillCall) :
    cashOf (calls ++ [c]) a = cashOf calls a+if c.accountId = a then c.cash else 0 := by
  rw [cashOf,List.filter_append,List.map_append,List.sum_append]
  by_cases h : c.accountId = a
  · simp [cashOf,h]
  · simp [cashOf,h]

theorem getPosition_applyCall_of_ne (hne : c.accountId ≠ a) : (m.applyCall c).getPosition a = m.getPosition a := by
  simp [applyCall,applyFill,getPosition,hne]

variable (hr : c.Fits m)
include hr

/-- A call changes the drift of its account by what it rounds off. -/
theorem drift_applyCall : drift (m.applyCall c) (calls ++ [c]) a = drift m calls a+
    if c.accountId = a then
      c.side.direction*(m.getPosition a).holding.rounding c.side.direction c.price.toInt c.qty.toInt
    else 0 := by
  change ((m.applyCall c).getPosition a).holding.proceeds-cashOf (calls ++ [c]) a =
    (m.getPosition a).holding.proceeds-cashOf calls a+_
  rw [cashOf_append]
  by_cases h : c.accountId = a
  · subst h
    rw [if_pos rfl,if_pos rfl,Checked.applyFill_holding (applyCall_of_fits hr),
      Holding.proceeds_trade _ c.side.direction_mul_self,cash_eq]
    omega
  · rw [if_neg h,if_neg h,getPosition_applyCall_of_ne a h]
    omega

theorem drift_of_not_adding (h : ¬ (c.accountId = a ∧ c.Adds m)) :
    drift (m.applyCall c) (calls ++ [c]) a = drift m calls a := by
  rw [drift_applyCall a hr]
  by_cases hacct : c.accountId = a
  · subst hacct
    have hadd : ¬ 0 < (m.getPosition c.accountId).holding.lots c.side.direction := fun hl => h ⟨rfl,adds_iff.mpr hl⟩
    rw [if_pos rfl,Holding.rounding_of_not_adding _ hadd,mul_zero,add_zero]
  · rw [if_neg hacct,add_zero]

/-- A call that adds to a position leaves less than one unit a lot. -/
theorem drift_of_adding (calls : List FillCall) (hq : 0 < c.qty) (hp : 0 ≤ c.price)
    (havg : 0 ≤ (m.getPosition c.accountId).holding.avg) (hadd : c.Adds m) : ∃ r, 0 ≤ r ∧
      r ≤ c.side.direction*((m.applyCall c).getPosition c.accountId).netPosition.toInt-1 ∧
      drift (m.applyCall c) (calls ++ [c]) c.accountId = drift m calls c.accountId+c.side.direction*r := by
  have hlots := adds_iff.mp hadd
  obtain ⟨h0,hle⟩ := Holding.rounding_bounds _ havg (Int64.le_iff_toInt_le.mp hp) (pos_iff_toInt.mp hq) hlots
  refine ⟨_,h0,?_,by rw [drift_applyCall _ hr,if_pos rfl]⟩
  have hsize : c.side.direction*((m.applyCall c).getPosition c.accountId).netPosition.toInt =
      ((m.getPosition c.accountId).holding.trade c.side.direction c.price.toInt c.qty.toInt).lots c.side.direction := by
    rw [← Checked.applyFill_holding (applyCall_of_fits hr)]
    rfl
  rwa [hsize,Holding.lots_trade _ c.side.direction_mul_self]

end Call

section Run
variable {limits : RiskLimits} {m : AccountManager} {calls : List FillCall}

theorem Filled.eq (h : Filled limits m calls) : m = calls.foldl applyCall (new limits) := by
  induction h with
  | start => rfl
  | fill _ c _ _ _ ih => rw [List.foldl_append,← ih]; rfl

theorem Filled.avg_nonneg (h : Filled limits m calls) (a : AccountId) : 0 ≤ (m.getPosition a).holding.avg := by
  induction h with
  | start => simp [new,getPosition,Position.holding]; rfl
  | @fill m calls h c hq hp hr ih =>
    by_cases hacct : c.accountId = a
    · subst hacct
      rw [Checked.applyFill_holding (applyCall_of_fits hr)]
      exact Holding.avg_nonneg _ ih (Int64.le_iff_toInt_le.mp hp) (pos_iff_toInt.mp hq)
    · rwa [getPosition_applyCall_of_ne a hacct]

theorem roundingRoom_append (a : AccountId) (m : AccountManager) (calls : List FillCall) (c : FillCall) :
    roundingRoom a m (calls ++ [c]) = roundingRoom a m calls+
      if c.accountId = a ∧ c.Adds (calls.foldl applyCall m) then
        ((calls.foldl applyCall m).applyCall c).sizeLessOne a
      else 0 := by
  induction calls generalizing m with
  | nil =>
    rw [List.nil_append,roundingRoom,roundingRoom,roundingRoom,add_comm]
    rfl
  | cons x calls ih =>
    rw [List.cons_append,roundingRoom,roundingRoom,ih,add_assoc]
    rfl

theorem Filled.drift_le (h : Filled limits m calls) (a : AccountId) :
    |drift m calls a| ≤ roundingRoom a (new limits) calls := by
  induction h with
  | start => simp [new,getPosition,drift,cashOf,roundingRoom]; rfl
  | @fill m calls h c hq hp hr ih =>
    rw [roundingRoom_append,← h.eq]
    by_cases hadd : c.accountId = a ∧ c.Adds m
    · obtain ⟨rfl,hadds⟩ := hadd
      obtain ⟨r,h0,hle,hd⟩ := drift_of_adding hr calls hq hp (h.avg_nonneg _) hadds
      rw [if_pos ⟨rfl,hadds⟩,hd]
      have hr' : |c.side.direction*r| ≤ (m.applyCall c).sizeLessOne c.accountId := by
        rw [sizeLessOne,abs_mul,abs_of_nonneg h0]
        cases hside : c.side with
        | buy =>
          rw [hside,Side.direction,one_mul] at hle
          simp only [Side.direction,abs_one,one_mul]
          exact hle.trans (sub_le_sub_right (le_abs_self _) 1)
        | sell =>
          rw [hside,Side.direction,neg_one_mul] at hle
          simp only [Side.direction,abs_neg,abs_one,one_mul]
          exact hle.trans (sub_le_sub_right (neg_le_abs _) 1)
      exact (abs_add_le _ _).trans (add_le_add ih hr')
    · rw [if_neg hadd,drift_of_not_adding a hr hadd,add_zero]
      exact ih

/-- Realized profit drifts from the money that was paid by what the average price rounds off: a fill that adds to
a position of the new size `n` moves the drift by less than `n`, up for longs and down for shorts, and nothing
else moves it. -/
theorem Filled.drift_bounded (h : Filled limits m calls) (a : AccountId) :
    drift (new limits) [] a = 0 ∧
    (∀ c : FillCall, 0 < c.qty → 0 ≤ c.price → c.Fits m →
      let net' := ((m.applyCall c).getPosition a).netPosition.toInt
      let d := drift m calls a
      let d' := drift (m.applyCall c) (calls ++ [c]) a
      (¬ (c.accountId = a ∧ c.Adds m) → d' = d) ∧
      (c.accountId = a → c.Adds m → c.side = .buy → ∃ r, 0 ≤ r ∧ r ≤ net'-1 ∧ d' = d+r) ∧
      (c.accountId = a → c.Adds m → c.side = .sell → ∃ r, 0 ≤ r ∧ r ≤ -net'-1 ∧ d' = d-r)) ∧
    ((m.getPosition a).netPosition = 0 →
      |(m.getPosition a).realizedPnl.toInt-cashOf calls a| ≤ roundingRoom a (new limits) calls) := by
  refine ⟨?_,fun c hq hp hr => ⟨drift_of_not_adding a hr,?_,?_⟩,fun hflat => ?_⟩
  · simp [new,getPosition,drift,cashOf]
    rfl
  · rintro rfl hadd hside
    obtain ⟨r,h0,hle,hd⟩ := drift_of_adding hr calls hq hp (h.avg_nonneg _) hadd
    rw [hside,Side.direction,one_mul] at hle hd
    exact ⟨r,h0,hle,hd⟩
  · rintro rfl hadd hside
    obtain ⟨r,h0,hle,hd⟩ := drift_of_adding hr calls hq hp (h.avg_nonneg _) hadd
    rw [hside,Side.direction,neg_one_mul] at hle hd
    exact ⟨r,h0,hle,hd⟩
  · have hle := h.drift_le a
    rw [drift,hflat,Int64.toInt_zero,zero_mul,sub_zero] at hle
    exact hle

/-- Two lots bought at 100 and 101 and sold at 100: one tick of the loss is rounded off. -/
theorem roundedLoss_drift :
    let calls : List FillCall := [⟨1,.buy,100,1⟩,⟨1,.buy,101,1⟩,⟨1,.sell,100,2⟩]
    let m := calls.foldl applyCall (new default)
    |(m.getPosition 1).realizedPnl.toInt-cashOf calls 1| ≤ roundingRoom 1 (new default) calls ∧
      (m.getPosition 1).realizedPnl = 0 ∧ cashOf calls 1 = -1 ∧ roundingRoom 1 (new default) calls = 1 := by
  have hstart : Filled default (new default) [] := .start
  have hrun := ((hstart.fill ⟨1,.buy,100,1⟩ (by decide) (by decide) (by decide +kernel)).fill
    ⟨1,.buy,101,1⟩ (by decide) (by decide) (by decide +kernel)).fill ⟨1,.sell,100,2⟩ (by decide) (by decide)
      (by decide +kernel)
  exact ⟨(hrun.drift_bounded 1).2.2 (by decide +kernel),by decide +kernel,by decide +kernel,by decide +kernel⟩

end Run
end AccountManager
end HighPerfTrading
