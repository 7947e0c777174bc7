import HighPerfTrading.Engine.BookRepresentation
import HighPerfTrading.Engine.CheckedBook
import HighPerfTrading.Engine.PositionLimits

/-! When the engine's arithmetic is exact. Quantities are bounded by the order size limit and the number of
commands, so only amounts of a price times a quantity can overflow: those of a fill's cost and profit, and those
of the listing of live orders. -/
namespace HighPerfTrading
open Int64 (InRange)
namespace Engine

/-! ### Amounts -/

/-- The profit of a fill that closes lots. -/
def ClosingFits (pnl gain closing : ℤ) : Prop :=
  InRange gain ∧ InRange (closing*gain) ∧ InRange (pnl+closing*gain)

/-- The cost of a position and of a fill that adds to it. -/
def AddingFits (net avg qty price : ℤ) : Prop :=
  InRange (net*avg) ∧ InRange (qty*price) ∧ InRange (net*avg+qty*price)

/-- The amounts of a fill, for a party on a side with this position. -/
def FillFits (pos : Position) (side : Side) (price qty : Int64) : Prop :=
  let net := signed side pos.netPosition.toInt
  (net < 0 → ClosingFits pos.realizedPnl.toInt (signed side (pos.avgPrice.toInt-price.toInt)) (min qty.toInt (-net))) ∧
    (0 < net → AddingFits net pos.avgPrice.toInt qty.toInt price.toInt)

instance (pnl gain closing : ℤ) : Decidable (ClosingFits pnl gain closing) := inferInstanceAs (Decidable (_ ∧ _))

instance (net avg qty price : ℤ) : Decidable (AddingFits net avg qty price) := inferInstanceAs (Decidable (_ ∧ _))

instance (pos : Position) (side : Side) (price qty : Int64) : Decidable (FillFits pos side price qty) :=
  inferInstanceAs (Decidable (_ ∧ _))

theorem fillFits_buy {pos : Position} {price qty : Int64} : FillFits pos .buy price qty ↔
    (pos.netPosition.toInt < 0 → ClosingFits pos.realizedPnl.toInt (pos.avgPrice.toInt-price.toInt)
      (min qty.toInt (-pos.netPosition.toInt))) ∧
    (0 < pos.netPosition.toInt → AddingFits pos.netPosition.toInt pos.avgPrice.toInt qty.toInt price.toInt) := Iff.rfl

theorem fillFits_sell {pos : Position} {price qty : Int64} : FillFits pos .sell price qty ↔
    (-pos.netPosition.toInt < 0 → ClosingFits pos.realizedPnl.toInt (price.toInt-pos.avgPrice.toInt)
      (min qty.toInt pos.netPosition.toInt)) ∧
    (0 < -pos.netPosition.toInt → AddingFits (-pos.netPosition.toInt) pos.avgPrice.toInt qty.toInt price.toInt) := by
  simp only [FillFits,signed,neg_neg,neg_sub]

/-- The amounts of both parties of every fill, in turn. -/
def SettleFits (m : AccountManager) (no : NewOrder) : List MatchFill → Prop
  | [] => True
  | f::fs =>
    let m₁ := m.applyFill no.accountId no.side f.price f.qty
    FillFits (m.getPosition no.accountId) no.side f.price f.qty ∧
      FillFits (m₁.getPosition f.makerAccountId) no.side.opposite f.price f.qty ∧
        SettleFits (m₁.applyFill f.makerAccountId no.side.opposite f.price f.qty) no fs

instance SettleFits.decidable (m : AccountManager) (no : NewOrder) : ∀ fs, Decidable (SettleFits m no fs)
  | [] => inferInstanceAs (Decidable True)
  | _::fs => @instDecidableAnd _ _ inferInstance (@instDecidableAnd _ _ inferInstance (SettleFits.decidable _ no fs))

end Engine

/-! ### One fill -/

namespace Checked
open Int64 OrderBook Engine

theorem closeLots_eq (pos : Position) (a b closing qty price : Int64) (hopen : InRange (qty.toInt-closing.toInt)) :
    closeLots pos a b closing qty price =
      if ClosingFits pos.realizedPnl.toInt (a.toInt-b.toInt) closing.toInt then
        some { pos with
          realizedPnl := pos.realizedPnl+closing*(a-b)
          avgPrice := if 0 < qty-closing then price else pos.avgPrice }
      else none := by
  unfold closeLots
  by_cases hgain : InRange (a.toInt-b.toInt)
  swap
  · rw [checkedSub_eq,if_neg hgain,if_neg fun h => hgain h.1]
    rfl
  have hper : (a-b).toInt = a.toInt-b.toInt := toInt_sub_of_range hgain.1 hgain.2
  rw [checkedSub_eq,if_pos hgain,← hper]
  simp only [Option.bind_eq_bind,Option.bind_some]
  rw [checkedMul_eq]
  by_cases hpnl : InRange (closing.toInt*(a-b).toInt)
  swap
  · rw [if_neg hpnl,if_neg fun h => hpnl h.2.1]
    rfl
  have hmul : (closing*(a-b)).toInt = closing.toInt*(a-b).toInt := toInt_mul_of_range hpnl.1 hpnl.2
  rw [if_pos hpnl,Option.bind_some,checkedAdd_eq,hmul]
  by_cases hsum : InRange (pos.realizedPnl.toInt+closing.toInt*(a-b).toInt)
  swap
  · rw [if_neg hsum,if_neg fun h => hsum h.2.2]
    rfl
  have hfits : ClosingFits pos.realizedPnl.toInt (a-b).toInt closing.toInt := ⟨hper ▸ hgain,hpnl,hsum⟩
  rw [if_pos hsum,Option.bind_some,checkedSub_eq,if_pos hopen,Option.bind_some,if_pos hfits]

theorem addLots_eq (pos : Position) (lots qty price : Int64) (hsize : InRange (lots.toInt+qty.toInt))
    (hpos : 0 < lots.toInt+qty.toInt) :
    addLots pos lots qty price =
      if AddingFits lots.toInt pos.avgPrice.toInt qty.toInt price.toInt then
        some { pos with avgPrice := (lots*pos.avgPrice+qty*price)/(lots+qty) }
      else none := by
  unfold addLots
  by_cases hheld : InRange (lots.toInt*pos.avgPrice.toInt)
  swap
  · rw [checkedMul_eq,if_neg hheld,if_neg fun h => hheld h.1]
    rfl
  have hmul : (lots*pos.avgPrice).toInt = lots.toInt*pos.avgPrice.toInt := toInt_mul_of_range hheld.1 hheld.2
  rw [checkedMul_eq,if_pos hheld]
  simp only [Option.bind_eq_bind,Option.bind_some]
  rw [checkedMul_eq]
  by_cases hadded : InRange (qty.toInt*price.toInt)
  swap
  · rw [if_neg hadded,if_neg fun h => hadded h.2.1]
    rfl
  have hmul' : (qty*price).toInt = qty.toInt*price.toInt := toInt_mul_of_range hadded.1 hadded.2
  rw [if_pos hadded,Option.bind_some,checkedAdd_eq,hmul,hmul']
  by_cases htotal : InRange (lots.toInt*pos.avgPrice.toInt+qty.toInt*price.toInt)
  swap
  · rw [if_neg htotal,if_neg fun h => htotal h.2.2]
    rfl
  have hsum : (lots+qty).toInt = lots.toInt+qty.toInt := toInt_add_of_range hsize.1 hsize.2
  have hfits : AddingFits lots.toInt pos.avgPrice.toInt qty.toInt price.toInt := ⟨hheld,hadded,htotal⟩
  rw [if_pos htotal,Option.bind_some,checkedAdd_eq,if_pos hsize,Option.bind_some,checkedDiv_of_pos _ (hsum ▸ hpos),
    Option.bind_some,if_pos hfits]

/-- A position that a fill of this size cannot take out of range. -/
def Small (net qty : Int64) : Prop := 0 < qty.toInt ∧ -2^62 ≤ net.toInt-qty.toInt ∧ net.toInt+qty.toInt ≤ 2^62

theorem buyFill_eq {pos : Position} {price qty : Int64} (h : Small pos.netPosition qty) :
    buyFill pos price qty =
      if FillFits pos .buy price qty then some (AccountManager.buyFill pos price qty) else none := by
  obtain ⟨hq,hl,hu⟩ := h
  have hnet : InRange (pos.netPosition.toInt+qty.toInt) := ⟨by omega,by omega⟩
  unfold buyFill buyLots AccountManager.buyFill
  by_cases hneg : pos.netPosition < 0
  · have hneg' : pos.netPosition.toInt < 0 := by rwa [Int64.lt_iff_toInt_lt] at hneg
    have hshort : InRange (-pos.netPosition.toInt) := ⟨by omega,by omega⟩
    have hmin : (min qty (-pos.netPosition)).toInt = min qty.toInt (-pos.netPosition.toInt) := by
      rw [toInt_min,toInt_neg_of_range hshort]
    rw [if_pos hneg,if_pos hneg,checkedNeg_eq,if_pos hshort]
    simp only [Option.bind_eq_bind,Option.bind_some]
    rw [closeLots_eq _ _ _ _ _ _ ⟨by rw [hmin]; omega,by rw [hmin]; omega⟩,hmin]
    by_cases hfits : ClosingFits pos.realizedPnl.toInt (pos.avgPrice.toInt-price.toInt)
        (min qty.toInt (-pos.netPosition.toInt))
    · rw [if_pos hfits,if_pos (fillFits_buy.mpr ⟨fun _ => hfits,fun h => absurd h (by omega)⟩),Option.bind_some,
        checkedAdd_eq,if_pos hnet]
      rfl
    · rw [if_neg hfits,if_neg fun h => hfits ((fillFits_buy.mp h).1 hneg')]
      rfl
  rw [if_neg hneg,if_neg hneg]
  rw [Int64.lt_iff_toInt_lt] at hneg
  have hneg' : ¬ pos.netPosition.toInt < 0 := hneg
  by_cases hzero : pos.netPosition = 0
  · have hzero' : pos.netPosition.toInt = 0 := by rw [hzero]; rfl
    rw [if_pos hzero,if_pos hzero,if_pos (fillFits_buy.mpr ⟨fun h => absurd h hneg',fun h => absurd h (by omega)⟩)]
    simp only [Option.bind_eq_bind,Option.bind_some]
    rw [checkedAdd_eq,if_pos hnet]
    rfl
  · have hzero' : pos.netPosition.toInt ≠ 0 := mt Int64.eq_zero_iff_toInt.mpr hzero
    rw [if_neg hzero,if_neg hzero,addLots_eq pos pos.netPosition qty price hnet (by omega)]
    by_cases hfits : AddingFits pos.netPosition.toInt pos.avgPrice.toInt qty.toInt price.toInt
    · rw [if_pos hfits,if_pos (fillFits_buy.mpr ⟨fun h => absurd h hneg',fun _ => hfits⟩)]
      simp only [Option.bind_eq_bind,Option.bind_some]
      rw [checkedAdd_eq,if_pos hnet]
      rfl
    · rw [if_neg hfits,if_neg fun h => hfits ((fillFits_buy.mp h).2 (by omega))]
      rfl

theorem sellFill_eq {pos : Position} {price qty : Int64} (h : Small pos.netPosition qty) :
    sellFill pos price qty =
      if FillFits pos .sell price qty then some (AccountManager.sellFill pos price qty) else none := by
  obtain ⟨hq,hl,hu⟩ := h
  have hnet : InRange (pos.netPosition.toInt-qty.toInt) := ⟨by omega,by omega⟩
  unfold sellFill sellLots AccountManager.sellFill
  by_cases hlong : 0 < pos.netPosition
  · have hlong' : 0 < pos.netPosition.toInt := pos_iff_toInt.mp hlong
    have hmin : (min qty pos.netPosition).toInt = min qty.toInt pos.netPosition.toInt := toInt_min _ _
    rw [if_pos hlong,if_pos hlong,closeLots_eq _ _ _ _ _ _ ⟨by rw [hmin]; omega,by rw [hmin]; omega⟩,hmin]
    by_cases hfits : ClosingFits pos.realizedPnl.toInt (price.toInt-pos.avgPrice.toInt) (min qty.toInt pos.netPosition.toInt)
    · rw [if_pos hfits,if_pos (fillFits_sell.mpr ⟨fun _ => hfits,fun h => absurd h (by omega)⟩)]
      simp only [Option.bind_eq_bind,Option.bind_some]
      rw [checkedSub_eq,if_pos hnet]
      rfl
    · rw [if_neg hfits,if_neg fun h => hfits ((fillFits_sell.mp h).1 (by omega))]
      rfl
  rw [if_neg hlong,if_neg hlong]
  have hlong' : ¬ 0 < pos.netPosition.toInt := mt pos_iff_toInt.mpr hlong
  by_cases hzero : pos.netPosition = 0
  · have hzero' : pos.netPosition.toInt = 0 := by rw [hzero]; rfl
    rw [if_pos hzero,if_pos hzero,
      if_pos (fillFits_sell.mpr ⟨fun h => absurd h (by omega),fun h => absurd h (by omega)⟩)]
    simp only [Option.bind_eq_bind,Option.bind_some]
    rw [checkedSub_eq,if_pos hnet]
    rfl
  · have hzero' : pos.netPosition.toInt ≠ 0 := mt Int64.eq_zero_iff_toInt.mpr hzero
    have hshort : InRange (-pos.netPosition.toInt) := ⟨by omega,by omega⟩
    have hneg := toInt_neg_of_range hshort
    rw [if_neg hzero,if_neg hzero,checkedNeg_eq,if_pos hshort]
    simp only [Option.bind_eq_bind,Option.bind_some]
    rw [addLots_eq pos (-pos.netPosition) qty price ⟨by omega,by omega⟩ (by omega),hneg]
    by_cases hfits : AddingFits (-pos.netPosition.toInt) pos.avgPrice.toInt qty.toInt price.toInt
    · rw [if_pos hfits,if_pos (fillFits_sell.mpr ⟨fun h => absurd h (by omega),fun _ => hfits⟩),Option.bind_some,
        checkedSub_eq,if_pos hnet]
      rfl
    · rw [if_neg hfits,if_neg fun h => hfits ((fillFits_sell.mp h).2 (by omega))]
      rfl

theorem applyFill_eq {m : AccountManager} {acct : AccountId} {side : Side} {price qty : Int64}
    (h : Small (m.getPosition acct).netPosition qty) :
    applyFill m acct side price qty =
      if FillFits (m.getPosition acct) side price qty then some (m.applyFill acct side price qty) else none := by
  cases side with
  | buy =>
    rw [applyFill]
    simp only [buyFill_eq h]
    split_ifs <;> rfl
  | sell =>
    rw [applyFill]
    simp only [sellFill_eq h]
    split_ifs <;> rfl

/-! ### Positions -/

/-- No account holds more lots than this, long or short. -/
def Within (m : AccountManager) (bound : ℤ) : Prop :=
  ∀ a, -bound ≤ (m.getPosition a).netPosition.toInt ∧ (m.getPosition a).netPosition.toInt ≤ bound

theorem Within.applyFill {m : AccountManager} {bound : ℤ} (h : Within m bound) (acct : AccountId) (side : Side)
    (price : Int64) {qty : Int64} (hq : 0 < qty.toInt) (hb : bound+qty.toInt ≤ 2^62) :
    Within (m.applyFill acct side price qty) (bound+qty.toInt) := by
  intro a
  obtain ⟨hl,hu⟩ := h a
  have hmove : -qty.toInt ≤ (if acct = a then signed side qty.toInt else 0) ∧
      (if acct = a then signed side qty.toInt else 0) ≤ qty.toInt := by
    cases side with
    | buy =>
      simp only [signed]
      split_ifs <;> omega
    | sell =>
      simp only [signed]
      split_ifs <;> omega
  rw [Engine.getPosition_applyFill,toInt_add_ofInt (by omega) (by omega)]
  omega

def total (fs : List MatchFill) : ℤ := (fs.map fun f => f.qty.toInt).sum

theorem total_nonneg {fs : List MatchFill} (h : ∀ f ∈ fs, 0 < f.qty) : 0 ≤ total fs := by
  refine List.sum_nonneg fun x hx => ?_
  obtain ⟨f,hf,rfl⟩ := List.mem_map.mp hx
  exact (pos_iff_toInt.mp (h f hf)).le

theorem checkedSum_fills {fs : List MatchFill} (h : ∀ f ∈ fs, 0 < f.qty) (hb : total fs < 2^63) :
    checkedSum (fs.map MatchFill.qty) = some (fs.map MatchFill.qty).sum ∧
      (fs.map MatchFill.qty).sum.toInt = total fs := by
  have hqtys : ((fs.map MatchFill.qty).map Int64.toInt).sum = total fs := by
    rw [List.map_map]
    rfl
  have hnn : ∀ x ∈ fs.map MatchFill.qty, 0 ≤ x.toInt := by
    intro x hx
    obtain ⟨f,hf,rfl⟩ := List.mem_map.mp hx
    exact (pos_iff_toInt.mp (h f hf)).le
  rw [← hqtys] at hb ⊢
  exact checkedSum_eq hnn hb

/-- Every fill moves two parties. -/
theorem Within.settle {fs : List MatchFill} {no : NewOrder} (hq : ∀ f ∈ fs, 0 < f.qty) {m : AccountManager} {bound : ℤ}
    (h : Within m bound) (hb : bound+2*total fs ≤ 2^62) : Within (settle m no fs) (bound+2*total fs) := by
  induction fs generalizing m bound with
  | nil => simpa [total,Engine.settle] using h
  | cons f fs ih =>
    have hf := pos_iff_toInt.mp (hq f (List.mem_cons_self ..))
    have hrest : 0 ≤ total fs := total_nonneg fun g hg => hq g (List.mem_cons_of_mem _ hg)
    have hcons : total (f::fs) = f.qty.toInt+total fs := rfl
    rw [hcons] at hb ⊢
    have htaker := h.applyFill no.accountId no.side f.price hf (by omega)
    have hmaker := htaker.applyFill f.makerAccountId no.side.opposite f.price hf (by omega)
    have hend : Within (Engine.settle m no (f::fs)) (bound+f.qty.toInt+f.qty.toInt+2*total fs) :=
      ih (fun g hg => hq g (List.mem_cons_of_mem _ hg)) hmaker (by omega)
    have hsum : bound+2*(f.qty.toInt+total fs) = bound+f.qty.toInt+f.qty.toInt+2*total fs := by omega
    rw [hsum]
    exact hend

variable {S : Type} {e : Engine S} {no : NewOrder}

theorem emitFill_eq {p : Engine S × List Event} {f : MatchFill} {bound : ℤ} (h : Within p.1.accountManager bound)
    (hq : 0 < f.qty) (hb : bound+2*f.qty.toInt ≤ 2^62) : emitFill no p f =
      if FillFits (p.1.accountManager.getPosition no.accountId) no.side f.price f.qty ∧
          FillFits ((p.1.accountManager.applyFill no.accountId no.side f.price f.qty).getPosition f.makerAccountId)
            no.side.opposite f.price f.qty then
        some (Engine.emitFill no p f)
      else none := by
  have hf := pos_iff_toInt.mp hq
  have htaker := h.applyFill no.accountId no.side f.price hf (by omega)
  obtain ⟨hl,hu⟩ := h no.accountId
  obtain ⟨hl',hu'⟩ := htaker f.makerAccountId
  unfold emitFill
  rw [applyFill_eq ⟨hf,by omega,by omega⟩]
  by_cases hfits : FillFits (p.1.accountManager.getPosition no.accountId) no.side f.price f.qty
  swap
  · rw [if_neg hfits,if_neg fun h => hfits h.1]
    rfl
  rw [if_pos hfits]
  simp only [Option.bind_eq_bind,Option.bind_some]
  rw [applyFill_eq ⟨hf,by omega,by omega⟩]
  by_cases hfits' : FillFits ((p.1.accountManager.applyFill no.accountId no.side f.price f.qty).getPosition
    f.makerAccountId) no.side.opposite f.price f.qty
  · rw [if_pos hfits',if_pos ⟨hfits,hfits'⟩]
    rfl
  · rw [if_neg hfits',if_neg fun h => hfits' h.2]
    rfl

theorem foldlM_emitFill {fs : List MatchFill} (hq : ∀ f ∈ fs, 0 < f.qty) {p : Engine S × List Event} {bound : ℤ}
    (h : Within p.1.accountManager bound) (hb : bound+2*total fs ≤ 2^62) : fs.foldlM (emitFill no) p =
      if SettleFits p.1.accountManager no fs then some (fs.foldl (Engine.emitFill no) p) else none := by
  induction fs generalizing p bound with
  | nil => rfl
  | cons f fs ih =>
    have hf := pos_iff_toInt.mp (hq f (List.mem_cons_self ..))
    have hrest : 0 ≤ total fs := total_nonneg fun g hg => hq g (List.mem_cons_of_mem _ hg)
    have hcons : total (f::fs) = f.qty.toInt+total fs := rfl
    rw [hcons] at hb
    have htaker := h.applyFill no.accountId no.side f.price hf (by omega)
    have hmaker := htaker.applyFill f.makerAccountId no.side.opposite f.price hf (by omega)
    rw [List.foldlM_cons,emitFill_eq h (hq f (List.mem_cons_self ..)) (by omega)]
    by_cases hfits : FillFits (p.1.accountManager.getPosition no.accountId) no.side f.price f.qty ∧
        FillFits ((p.1.accountManager.applyFill no.accountId no.side f.price f.qty).getPosition f.makerAccountId)
          no.side.opposite f.price f.qty
    · rw [if_pos hfits]
      have hnext := ih (fun g hg => hq g (List.mem_cons_of_mem _ hg)) (p := Engine.emitFill no p f) hmaker (by omega)
      change fs.foldlM (emitFill no) (Engine.emitFill no p f) = _
      rw [hnext]
      by_cases hs : SettleFits (Engine.emitFill no p f).1.accountManager no fs
      · rw [if_pos hs,if_pos ⟨hfits.1,hfits.2,hs⟩]
        rfl
      · rw [if_neg hs,if_neg fun h => hs h.2.2]
    · rw [if_neg hfits,if_neg fun h => hfits ⟨h.1,h.2.1⟩]
      rfl

/-! ### One command -/

variable [Slab S Order]

/-- Quantities after at most `n` commands under the default limits. -/
structure Bounded (e : Engine S) (n : ℕ) : Prop where
  sound : Sound e.book
  live : liveQty e.book ≤ 1000*n
  positions : Within e.accountManager (2000*n)
  limits : ∀ a, e.accountManager.getLimits a = ⟨10000,10000,1000⟩

theorem Bounded.checkRisk_eq {n : ℕ} (h : Bounded e n) (hn : n ≤ 2^40) (acct : AccountId) (side : Side) {qty : Int64}
    (hq : 0 < qty) : checkRisk e.accountManager acct side qty = some (e.accountManager.checkRisk acct side qty) := by
  obtain ⟨hl,hu⟩ := h.positions acct
  have hpos := pos_iff_toInt.mp hq
  unfold checkRisk AccountManager.checkRisk
  rw [h.limits acct]
  by_cases hsize : (1000 : Int64) < qty
  · simp only [if_pos hsize]
  have hle : qty.toInt ≤ 1000 := Int64.le_iff_toInt_le.mp (Int64.not_lt.mp hsize)
  have hadd : InRange ((e.accountManager.getPosition acct).netPosition.toInt+qty.toInt) := ⟨by omega,by omega⟩
  have hsub : InRange ((e.accountManager.getPosition acct).netPosition.toInt-qty.toInt) := ⟨by omega,by omega⟩
  have hneg : checkedNeg 10000 = some (-10000) := by decide
  simp only [if_neg hsize,hneg]
  cases side with
  | buy =>
    simp only [checkedAdd_eq,if_pos hadd,Option.bind_eq_bind,Option.bind_some]
    split_ifs <;> rfl
  | sell =>
    simp only [checkedSub_eq,if_pos hsub,Option.bind_eq_bind,Option.bind_some]
    split_ifs <;> rfl

/-- Matching and settling fail exactly on an amount. -/
theorem Bounded.execute_eq {n : ℕ} (h : Bounded e n) (hn : n ≤ 2^40) (hq : 0 < no.qty) (hle : no.qty.toInt ≤ 1000) :
    execute e no = if SettleFits e.accountManager no (fillsOf e.book no) then some (e.execute no) else none := by
  have hpos := pos_iff_toInt.mp hq
  have hlive := h.live
  unfold execute Engine.execute fillsOf
  by_cases hx : e.book.wouldCross no.side no.price = true
  swap
  · rw [if_neg hx,if_neg hx,if_neg hx,if_pos (show SettleFits e.accountManager no [] from trivial)]
    split_ifs with hgtc
    · rw [insertResting_eq (o := Engine.resting no no.qty) h.sound hq (by change liveQty e.book+no.qty.toInt < 2^63; omega)]
      rfl
    · rfl
  rw [if_pos hx,if_pos hx,if_pos hx,matchTaker_eq h.sound]
  obtain ⟨left,hquant⟩ := matchTaker_quantities h.sound no.orderId no.side no.price hq
  generalize e.book.matchTaker no.orderId no.side no.price no.qty = m at hquant ⊢
  have hleft : left.toInt+total m.2 = no.qty.toInt := hquant.left
  have hnonneg : 0 ≤ left.toInt := hquant.nonneg
  have hfills : ∀ f ∈ m.2, 0 < f.qty := hquant.fills
  have htotal := total_nonneg hfills
  have hsound : Sound m.1 := hquant.sound
  have hshrinks : liveQty m.1 ≤ liveQty e.book := hquant.live
  have hw : Within (({ e with book := m.1 } : Engine S),([] : List Event)).1.accountManager (2000*n) := h.positions
  simp only [Option.bind_eq_bind,Option.bind_some]
  rw [foldlM_emitFill hfills hw (by omega)]
  change (if SettleFits e.accountManager no m.2 then _ else none : Option (Engine S × List Event)).bind _ = _
  by_cases hs : SettleFits e.accountManager no m.2
  swap
  · rw [if_neg hs,if_neg hs]
    rfl
  rw [if_pos hs,if_pos hs,Option.bind_some]
  obtain ⟨hsum,hfilled⟩ := checkedSum_fills hfills (by omega)
  have hrem : (no.qty-(m.2.map MatchFill.qty).sum).toInt = no.qty.toInt-total m.2 := by
    rw [toInt_sub_of_range (by omega) (by omega),hfilled]
  rw [hsum,Option.bind_some,checkedSub_eq,hfilled,if_pos ⟨by omega,by omega⟩,Option.bind_some]
  by_cases hrest : 0 < no.qty-(m.2.map MatchFill.qty).sum ∧ no.tif = .gtc
  · have hbook := (foldl_emitFill no m.2 { e with book := m.1 } []).1
    have hpos' : 0 < (Engine.resting no (no.qty-(m.2.map MatchFill.qty).sum)).qtyRem := hrest.1
    have hroom : liveQty m.1+(Engine.resting no (no.qty-(m.2.map MatchFill.qty).sum)).qtyRem.toInt < 2^63 := by
      change liveQty m.1+(no.qty-(m.2.map MatchFill.qty).sum).toInt < 2^63
      omega
    rw [if_pos hrest,if_pos hrest,hbook,insertResting_eq hsound hpos' hroom,Option.bind_some]
  · rw [if_neg hrest,if_neg hrest]

end Checked

namespace Engine
variable {S : Type} [Slab S Order]

/-- The amounts of the fills that a command leads to. -/
def AmountsFit (e : Engine S) : Command → Prop
  | .newOrder no => e.refusal no = none → SettleFits e.accountManager no (fillsOf e.book no)
  | .replace r => ∀ o ∈ e.book.get r.orderId, o.accountId = r.accountId →
      let e' : Engine S := { e with book := (e.book.cancel r.orderId o.accountId).1 }
      e'.refusal (replacement r o) = none →
        SettleFits e.accountManager (replacement r o) (fillsOf e'.book (replacement r o))
  | _ => True

instance (e : Engine S) (cmd : Command) : Decidable (AmountsFit e cmd) :=
  match cmd with
  | .newOrder _ => inferInstanceAs (Decidable (_ → _))
  | .cancel _ => isTrue trivial
  | .replace r => inferInstanceAs (Decidable (∀ o ∈ e.book.get r.orderId, _))
  | .setRiskLimits _ => isTrue trivial
  | .queryAccount _ => isTrue trivial
  | .authenticate _ => isTrue trivial

/-- The amounts reserved by the live buy orders. -/
def ListingFits (b : OrderBook S) : Prop :=
  ∀ i ∈ b.index.toList, ∀ o ∈ Slab.get b.orders i.2, o.side = .buy → InRange (o.price.toInt*o.qtyRem.toInt)

instance (b : OrderBook S) : Decidable (ListingFits b) := by
  unfold ListingFits; infer_instance

end Engine

namespace Checked
open Int64 OrderBook Engine
variable {S : Type} [Slab S Order] {e : Engine S} {n : ℕ}

theorem Bounded.handleNew_eq (h : Bounded e n) (hn : n ≤ 2^40) (no : NewOrder) : handleNew e no =
    if AmountsFit e (.newOrder no) then some (e.handleNew no) else none := by
  have hrefused : ∀ reason, e.refusal no = some reason → AmountsFit e (.newOrder no) := by
    intro reason hr hnone
    rw [hr] at hnone
    cases hnone
  rw [Engine.handleNew_eq]
  unfold handleNew
  by_cases hv : no.symbolId ≠ e.book.symbolId ∨ no.qty ≤ 0
  · have hr : e.refusal no = some .invalid := by rw [refusal,if_pos hv]
    rw [if_pos hv,if_pos (hrefused _ hr),hr]
  rw [if_neg hv]
  obtain ⟨hs,hq⟩ := not_or.mp hv
  have hpos : 0 < no.qty := Int64.not_le.mp hq
  rw [h.checkRisk_eq hn no.accountId no.side hpos]
  simp only [Option.bind_eq_bind,Option.bind_some]
  cases hrisk : e.accountManager.checkRisk no.accountId no.side no.qty with
  | error reason =>
    have hr : e.refusal no = some reason := by rw [refusal,if_neg hv,hrisk]
    rw [if_pos (hrefused _ hr),hr]
  | ok u =>
    simp only
    by_cases hpost : no.flags.postOnly = true ∧ e.book.wouldCross no.side no.price = true
    · have hr : e.refusal no = some .postOnlyWouldCross := by rw [refusal,if_neg hv,hrisk]; exact if_pos hpost
      rw [if_pos hpost,if_pos (hrefused _ hr),hr]
    · have hr : e.refusal no = none := by rw [refusal,if_neg hv,hrisk]; exact if_neg hpost
      have hsize : no.qty.toInt ≤ 1000 := by
        have hle := (AccountManager.checkRisk_ok hrisk).1
        rw [h.limits] at hle
        exact Int64.le_iff_toInt_le.mp hle
      rw [if_neg hpost,h.execute_eq hn hpos hsize,hr]
      by_cases hfits : SettleFits e.accountManager no (fillsOf e.book no)
      · rw [if_pos hfits,if_pos (show AmountsFit e (.newOrder no) from fun _ => hfits)]
        rfl
      · rw [if_neg hfits,if_neg (show ¬ AmountsFit e (.newOrder no) from fun h => hfits (h hr))]
        rfl

theorem Bounded.cancel (h : Bounded e n) {id : OrderId} {o : Order} (ho : e.book.get id = some o) :
    Bounded ({ e with book := (e.book.cancel id o.accountId).1 } : Engine S) n := by
  refine ⟨h.sound.cancel ho,le_trans ?_ h.live,h.positions,h.limits⟩
  exact liveSum_cancel_le (fun o => o.qtyRem.toInt) (fun o ho => (pos_iff_toInt.mp ho).le) ho

/-- A command fails exactly on an amount of one of its fills. -/
theorem Bounded.process_eq (h : Bounded e n) (hn : n ≤ 2^40) (cmd : Command) :
    process e cmd = if AmountsFit e cmd then some (e.process cmd) else none := by
  cases cmd with
  | newOrder no => exact h.handleNew_eq hn no
  | setRiskLimits srl => exact (if_pos trivial).symm
  | queryAccount qa => exact (if_pos trivial).symm
  | authenticate auth => exact (if_pos trivial).symm
  | cancel c =>
    rw [if_pos (show AmountsFit e (.cancel c) from trivial),process,handleCancel,Engine.process,Engine.handleCancel]
    by_cases hs : c.symbolId ≠ e.book.symbolId
    · rw [if_pos hs,if_pos hs]
    · rw [if_neg hs,if_neg hs,cancel_eq h.sound]
      rfl
  | replace r =>
    rw [process,handleReplace,Engine.process,Engine.handleReplace]
    by_cases hv : r.symbolId ≠ e.book.symbolId ∨ r.newQty ≤ 0
    · have hfits : AmountsFit e (.replace r) := by
        intro o ho hacct e' hr
        obtain ⟨hs,hq,-⟩ := refusal_none hr
        rcases hv with hv | hv
        · exact absurd (hs.trans (symbolId_cancel e.book r.orderId o.accountId)) hv
        · exact absurd hq (Int64.not_lt.mpr hv)
      rw [if_pos hv,if_pos hv,if_pos hfits]
    rw [if_neg hv,if_neg hv]
    cases ho : e.book.get r.orderId with
    | none =>
      have hfits : AmountsFit e (.replace r) := by
        intro o ho'
        rw [ho] at ho'
        cases ho'
      rw [if_pos hfits]
    | some o =>
      simp only
      by_cases hacct : o.accountId ≠ r.accountId
      · have hfits : AmountsFit e (.replace r) := by
          intro x hx hxa
          rw [ho] at hx
          rw [← Option.some.inj hx] at hxa
          exact absurd hxa hacct
        rw [if_pos hacct,if_pos hacct,if_pos hfits]
      · rw [if_neg hacct,if_neg hacct,cancel_eq h.sound]
        simp only [Option.bind_eq_bind,Option.bind_some]
        have hc := h.cancel ho
        rw [not_not.mp hacct] at hc
        rw [hc.handleNew_eq hn]
        refine if_congr ⟨fun hfits x hx hxa => ?_,fun hfits => ?_⟩ rfl rfl
        · rw [ho] at hx
          obtain rfl := Option.some.inj hx
          rw [hxa]
          exact hfits
        · have hmine := hfits o ho (not_not.mp hacct)
          rw [not_not.mp hacct] at hmine
          exact hmine

theorem snapshot_eq (id : OrderId) (o : Order) : snapshot id o =
    if o.side = .buy → InRange (o.price.toInt*o.qtyRem.toInt) then
      some
        { orderId := id
          accountId := o.accountId
          symbolId := o.symbolId
          side := o.side
          price := o.price
          qtyRem := o.qtyRem
          reservedAmount := if o.side = .buy then o.price*o.qtyRem else 0 }
    else none := by
  unfold snapshot
  by_cases hside : o.side = .buy
  swap
  · rw [if_neg hside,if_neg hside,if_pos fun h => absurd h hside]
    rfl
  rw [if_pos hside,checkedMul_eq]
  by_cases hfits : InRange (o.price.toInt*o.qtyRem.toInt)
  · rw [if_pos hfits,if_pos fun _ => hfits,if_pos hside]
    rfl
  · rw [if_neg hfits,if_neg fun h => hfits (h hside)]
    rfl

/-- The listing fails exactly on an amount. -/
theorem getAllOrderSnapshots_eq (b : OrderBook S) : getAllOrderSnapshots b =
    if ListingFits b then some b.getAllOrderSnapshots else none := by
  rw [getAllOrderSnapshots,List.mapM_ite fun e : OrderId × Order => snapshot_eq e.1 e.2]
  refine if_congr ⟨fun h i hi o ho => ?_,fun h x hx => ?_⟩ ?_ rfl
  · exact h (i.1,o) (List.mem_filterMap.mpr ⟨i,hi,by rw [ho]; rfl⟩)
  · obtain ⟨i,hi,hix⟩ := List.mem_filterMap.mp hx
    obtain ⟨o,ho,rfl⟩ := Option.map_eq_some_iff.mp hix
    exact h i hi o ho
  · rw [OrderBook.getAllOrderSnapshots,List.map_filterMap]
    simp only [Option.map_map]
    rfl

/-! ### Runs -/

theorem Bounded.new : Bounded (Engine.new : Engine S) 0 where
  sound := Sound.new 1
  live := by simp [Engine.new,OrderBook.new,liveQty,liveOrders]
  positions a := by simp [Engine.new,AccountManager.new,AccountManager.getPosition]; decide
  limits a := by simp [Engine.new,AccountManager.new,AccountManager.getLimits]; rfl

theorem Bounded.succ (h : Bounded e n) : Bounded e (n+1) := by
  refine ⟨h.sound,?_,fun a => ?_,h.limits⟩
  · have := h.live
    push_cast
    omega
  · obtain ⟨hl,hu⟩ := h.positions a
    push_cast
    omega

/-- An accepted order has at most the allowed size, which its fills take from. -/
theorem Bounded.quantities (h : Bounded e n) {no : NewOrder} (hr : e.refusal no = none) :
    no.qty.toInt ≤ 1000 ∧ ∃ left, Quantities e.book no.qty ⟨matched e.book no,left,fillsOf e.book no⟩ := by
  obtain ⟨-,hq,hrisk,-⟩ := refusal_none hr
  have hle := (AccountManager.checkRisk_ok hrisk).1
  rw [h.limits] at hle
  obtain ⟨left,hquant⟩ := matchTaker_quantities h.sound no.orderId no.side no.price hq
  rw [← matched_eq] at hquant
  exact ⟨Int64.le_iff_toInt_le.mp hle,left,hquant⟩

/-- An accepted order adds its size to the live quantity, and twice its size to a position at most. -/
theorem Bounded.placed (h : Bounded e n) (hn : n < 2^40) {no : NewOrder} (hr : e.refusal no = none) {b : OrderBook S}
    {m : AccountManager} (hb : b = newBook e.book no) (hm : m = settle e.accountManager no (fillsOf e.book no)) :
    Sound b ∧ liveQty b ≤ 1000*(n+1) ∧ Within m (2000*(n+1)) ∧ ∀ a, m.getLimits a = ⟨10000,10000,1000⟩ := by
  obtain ⟨hle,left,hquant⟩ := h.quantities hr
  have hfills : ∀ f ∈ fillsOf e.book no, 0 < f.qty := hquant.fills
  have hleft : left.toInt+total (fillsOf e.book no) = no.qty.toInt := hquant.left
  have hnonneg : 0 ≤ left.toInt := hquant.nonneg
  have hshrinks : liveQty (matched e.book no) ≤ liveQty e.book := hquant.live
  have htotal := total_nonneg hfills
  have hlive := h.live
  have hwithin : Within (settle e.accountManager no (fillsOf e.book no)) (2000*n+2*total (fillsOf e.book no)) :=
    h.positions.settle hfills (by omega)
  have hfilled := (checkedSum_fills hfills (by omega)).2
  have hrem : (remainder e.book no).toInt = no.qty.toInt-total (fillsOf e.book no) := by
    rw [remainder,toInt_sub_of_range (by omega) (by omega),hfilled]
  rw [hb,hm]
  refine ⟨?_,?_,fun a => ?_,fun a => by rw [getLimits_settle]; exact h.limits a⟩
  · unfold newBook
    split_ifs with hrest
    · refine hquant.sound.insertResting (o := resting no (remainder e.book no)) hrest.1 ?_
      rw [liveQty_insertResting _ (show 0 < (resting no (remainder e.book no)).qtyRem from hrest.1)]
      change liveQty (matched e.book no)+(remainder e.book no).toInt < 2^63
      omega
    · exact hquant.sound
  · unfold newBook
    split_ifs with hrest
    · rw [liveQty_insertResting _ (show 0 < (resting no (remainder e.book no)).qtyRem from hrest.1)]
      change liveQty (matched e.book no)+(remainder e.book no).toInt ≤ _
      omega
    · omega
  · obtain ⟨hl,hu⟩ := hwithin a
    omega

theorem Bounded.process (h : Bounded e n) (hn : n < 2^40) {cmd : Command} (hs : ∀ srl, cmd ≠ .setRiskLimits srl) :
    Bounded (e.process cmd).1 (n+1) := by
  have hstep := e.process_core cmd
  suffices hgoal : Sound (e.process cmd).1.book ∧ liveQty (e.process cmd).1.book ≤ 1000*(n+1) ∧
      Within (e.process cmd).1.accountManager (2000*(n+1)) ∧
        ∀ a, (e.process cmd).1.accountManager.getLimits a = ⟨10000,10000,1000⟩ by
    obtain ⟨hsound,hlive,hwithin,hlimits⟩ := hgoal
    exact ⟨hsound,by push_cast; exact hlive,by push_cast; exact hwithin,hlimits⟩
  have hsame : ∀ {e' : Engine S}, Bounded e' n → Sound e'.book ∧ liveQty e'.book ≤ 1000*(n+1) ∧
      Within e'.accountManager (2000*(n+1)) ∧ ∀ a, e'.accountManager.getLimits a = ⟨10000,10000,1000⟩ := by
    intro e' he
    have hsucc := he.succ
    have hlive := hsucc.live
    have hwithin := hsucc.positions
    push_cast at hlive hwithin
    exact ⟨hsucc.sound,hlive,hwithin,hsucc.limits⟩
  generalize (e.process cmd).1.book = b' at hstep ⊢
  generalize (e.process cmd).1.accountManager = m' at hstep ⊢
  cases hstep with
  | same => exact hsame h
  | @limits srl => exact absurd rfl (hs srl)
  | placed hr => exact h.placed hn hr rfl rfl
  | cancelled ho hacct => exact hsame (h.cancel ho)
  | lost ho hacct => exact hsame (h.cancel ho)
  | replaced ho hacct hr => exact (h.cancel ho).placed hn hr rfl rfl

/-- No operation of the run overflows or divides by zero, nor does one of a listing taken between commands. -/
def Exact (e : Engine S) : List Command → Prop
  | [] => getAllOrderSnapshots e.book = some e.book.getAllOrderSnapshots
  | cmd::cmds => getAllOrderSnapshots e.book = some e.book.getAllOrderSnapshots ∧
      process e cmd = some (e.process cmd) ∧ Exact (e.process cmd).1 cmds

end Checked

namespace Engine
variable {S : Type} [Slab S Order]

/-- All amounts of the run fit. -/
def PricesFit (e : Engine S) : List Command → Prop
  | [] => ListingFits e.book
  | cmd::cmds => ListingFits e.book ∧ AmountsFit e cmd ∧ PricesFit (e.process cmd).1 cmds

instance PricesFit.decidable (e : Engine S) : ∀ cmds, Decidable (PricesFit e cmds)
  | [] => inferInstanceAs (Decidable (ListingFits e.book))
  | cmd::cmds => @instDecidableAnd _ _ inferInstance (@instDecidableAnd _ _ inferInstance
      (PricesFit.decidable (e.process cmd).1 cmds))

end Engine

namespace Checked
open Int64 OrderBook Engine
variable {S : Type} [Slab S Order] {e : Engine S} {n : ℕ}

theorem listing_iff (b : OrderBook S) :
    getAllOrderSnapshots b = some b.getAllOrderSnapshots ↔ ListingFits b := by
  rw [getAllOrderSnapshots_eq,Option.ite_some_none_eq_some,and_iff_left rfl]

theorem Bounded.process_iff (h : Bounded e n) (hn : n ≤ 2^40) (cmd : Command) :
    Checked.process e cmd = some (e.process cmd) ↔ AmountsFit e cmd := by
  rw [h.process_eq hn,Option.ite_some_none_eq_some,and_iff_left rfl]

theorem Bounded.exact_iff (h : Bounded e n) {cmds : List Command} (hn : n+cmds.length ≤ 2^40)
    (hs : ∀ cmd ∈ cmds, ∀ srl, cmd ≠ .setRiskLimits srl) : Exact e cmds ↔ PricesFit e cmds := by
  induction cmds generalizing e n with
  | nil => exact listing_iff e.book
  | cons cmd cmds ih =>
    rw [List.length_cons] at hn
    have hnext := h.process (by omega) (hs cmd (List.mem_cons_self ..))
    rw [Exact,PricesFit,listing_iff,h.process_iff (by omega),
      ih hnext (by omega) fun c hc => hs c (List.mem_cons_of_mem _ hc)]

/-- Under the default limits, for any prices, quantities and ids, the arithmetic of up to 2^40 commands is
exact if and only if the amounts of its fills and listings fit. -/
theorem exact_iff_pricesFit {cmds : List Command} (hs : ∀ cmd ∈ cmds, ∀ srl, cmd ≠ .setRiskLimits srl)
    (hn : cmds.length ≤ 2^40) : Exact (Engine.new : Engine S) cmds ↔ PricesFit (Engine.new : Engine S) cmds :=
  Bounded.new.exact_iff (by rwa [Nat.zero_add]) hs

/-- A buyer takes two fills at 100 and sells again at 110. -/
theorem exact_round_trip : Exact (Engine.new : Engine (FreeListSlab Order))
    [.newOrder ⟨1,1,7,1,.buy,100,5,.gtc,⟨false⟩⟩,.newOrder ⟨2,2,8,1,.sell,100,2,.ioc,⟨false⟩⟩,
      .newOrder ⟨3,3,8,1,.sell,100,3,.ioc,⟨false⟩⟩,.newOrder ⟨4,4,9,1,.buy,110,5,.gtc,⟨false⟩⟩,
      .newOrder ⟨5,5,7,1,.sell,110,5,.ioc,⟨false⟩⟩] :=
  (exact_iff_pricesFit (by simp) (by decide)).mpr (by decide +kernel)

/-- Two buys of one lot at the highest price rest, and both are hit: the cost of the second fill does not fit. -/
theorem highest_price_overflows : ¬ Exact (Engine.new : Engine (FreeListSlab Order))
    [.newOrder ⟨1,1,7,1,.buy,9223372036854775807,1,.gtc,⟨false⟩⟩,
      .newOrder ⟨2,2,7,1,.buy,9223372036854775807,1,.gtc,⟨false⟩⟩,
      .newOrder ⟨3,3,8,1,.sell,9223372036854775807,1,.ioc,⟨false⟩⟩,
      .newOrder ⟨4,4,8,1,.sell,9223372036854775807,1,.ioc,⟨false⟩⟩] := by
  rintro ⟨-,-,-,-,-,-,-,hlast,-⟩
  have hsome := congrArg Option.isSome hlast
  revert hsome
  decide +kernel

end Checked
end HighPerfTrading
