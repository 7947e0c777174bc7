import HighPerfTrading.Engine.ExactArithmetic
import Mathlib.Tactic.Ring

/-! Prices of bounded size. An average price stays within the prices, and a profit grows with the lots that are
traded, so all amounts of a run fit while its prices are small for the number of its commands. -/
namespace HighPerfTrading
open Int64 (InRange)
namespace Engine
open Int64 OrderBook Checked

/-- A position whose lots, this many at most, were traded at prices of at most this size. -/
structure Traded (p lots : ℤ) (pos : Position) : Prop where
  net : |pos.netPosition.toInt| ≤ lots
  avg : |pos.avgPrice.toInt| ≤ p
  pnl : |pos.realizedPnl.toInt| ≤ 2*p*lots

/-! ### Positions -/

section Amounts
variable {p lots : ℤ} {qty price avg : Int64}

theorem closingFits_of_abs (closing : Int64) {pnl a b : Int64} (hpnl : |pnl.toInt| ≤ 2*p*lots) (ha : |a.toInt| ≤ p)
    (hb : |b.toInt| ≤ p) (h0 : 0 < closing.toInt) (hc : closing.toInt ≤ qty.toInt)
    (hfit : 2*p*(lots+qty.toInt) < 2^63) (hlots : 0 ≤ lots) :
    ClosingFits pnl.toInt (a.toInt-b.toInt) closing.toInt ∧ |(pnl+closing*(a-b)).toInt| ≤ 2*p*(lots+qty.toInt) := by
  have hp : 0 ≤ p := (abs_nonneg _).trans ha
  have hgain : |a.toInt-b.toInt| ≤ 2*p := (abs_sub _ _).trans (by omega)
  have hamount : |closing.toInt*(a.toInt-b.toInt)| ≤ 2*p*qty.toInt :=
    abs_mul_le (by rw [abs_of_pos h0]; exact hc) hgain
  have hsum : |pnl.toInt+closing.toInt*(a.toInt-b.toInt)| ≤ 2*p*(lots+qty.toInt) := by
    rw [mul_add]
    exact (abs_add_le _ _).trans (add_le_add hpnl hamount)
  have hgain' : 2*p*1 ≤ 2*p*(lots+qty.toInt) := mul_le_mul_of_nonneg_left (by omega) (by omega)
  have hamount' : 2*p*qty.toInt ≤ 2*p*(lots+qty.toInt) := mul_le_mul_of_nonneg_left (by omega) (by omega)
  have h1 := inRange_of_abs (hgain.trans_lt (by omega))
  have h2 := inRange_of_abs (hamount.trans_lt (hamount'.trans_lt hfit))
  have h3 := inRange_of_abs (hsum.trans_lt hfit)
  refine ⟨⟨h1,h2,h3⟩,?_⟩
  have hper : (a-b).toInt = a.toInt-b.toInt := toInt_sub_of_range h1.1 h1.2
  rw [← hper] at h2 h3 hsum
  have hmul : (closing*(a-b)).toInt = closing.toInt*(a-b).toInt := toInt_mul_of_range h2.1 h2.2
  rw [← hmul] at h3 hsum
  rwa [toInt_add_of_range h3.1 h3.2]

theorem addingFits_of_abs (held : Int64) (h0 : 0 < held.toInt) (hheld : held.toInt ≤ lots) (havg : |avg.toInt| ≤ p)
    (hprice : |price.toInt| ≤ p) (hq : 0 < qty.toInt) (hsize : lots+qty.toInt < 2^63)
    (hfit : 2*p*(lots+qty.toInt) < 2^63) :
    AddingFits held.toInt avg.toInt qty.toInt price.toInt ∧ |((held*avg+qty*price)/(held+qty)).toInt| ≤ p := by
  have hp : 0 ≤ p := (abs_nonneg _).trans havg
  have hcost : |held.toInt*avg.toInt| ≤ p*held.toInt := abs_mul_le (abs_of_pos h0).le havg
  have hadded : |qty.toInt*price.toInt| ≤ p*qty.toInt := abs_mul_le (abs_of_pos hq).le hprice
  have hsum : |held.toInt*avg.toInt+qty.toInt*price.toInt| ≤ p*(held.toInt+qty.toInt) := by
    rw [mul_add]
    exact (abs_add_le _ _).trans (add_le_add hcost hadded)
  have hall : p*(held.toInt+qty.toInt) ≤ 2*p*(lots+qty.toInt) := by
    rw [mul_assoc,← one_mul (p*(held.toInt+qty.toInt))]
    exact mul_le_mul (by omega) (mul_le_mul_of_nonneg_left (by omega) hp) (mul_nonneg hp (by omega)) (by omega)
  rw [mul_add] at hall
  have hp1 := mul_nonneg hp h0.le
  have hp2 := mul_nonneg hp hq.le
  have h1 := inRange_of_abs (hcost.trans_lt (by omega))
  have h2 := inRange_of_abs (hadded.trans_lt (by omega))
  have h3 := inRange_of_abs (hsum.trans_lt (by rw [mul_add]; omega))
  refine ⟨⟨h1,h2,h3⟩,?_⟩
  have hden : (held+qty).toInt = held.toInt+qty.toInt := toInt_add_of_range (by omega) (by omega)
  rw [← toInt_mul_of_range h1.1 h1.2,← toInt_mul_of_range h2.1 h2.2] at h3 hsum
  have hnum := toInt_add_of_range h3.1 h3.2
  have hne : held+qty ≠ -1 := by
    intro heq
    rw [heq] at hden
    exact absurd hden (by rw [show (-1 : Int64).toInt = -1 from rfl]; omega)
  rw [← hnum,← hden] at hsum
  rw [Int64.toInt_div_of_ne_right _ _ hne]
  exact abs_tdiv_le (by omega) hsum

end Amounts

section Fill
variable {p lots : ℤ} {pos : Position} {price qty : Int64}

theorem Traded.mono {lots' : ℤ} (h : Traded p lots pos) (hle : lots ≤ lots') : Traded p lots' pos := by
  have hp : 0 ≤ p := (abs_nonneg _).trans h.avg
  exact ⟨h.net.trans hle,h.avg,h.pnl.trans (mul_le_mul_of_nonneg_left hle (by omega))⟩

theorem Traded.buyFill (h : Traded p lots pos) (hprice : |price.toInt| ≤ p) (hq : 0 < qty.toInt)
    (hsize : lots+qty.toInt ≤ 2^62) (hfit : 2*p*(lots+qty.toInt) < 2^63) :
    FillFits pos .buy price qty ∧ Traded p (lots+qty.toInt) (AccountManager.buyFill pos price qty) := by
  obtain ⟨hl,hu⟩ := abs_le.mp h.net
  have hgrown := h.mono (show lots ≤ lots+qty.toInt by omega)
  have hnet : |(pos.netPosition+qty).toInt| ≤ lots+qty.toInt := by
    rw [toInt_add_of_range (by omega) (by omega),abs_le]
    omega
  unfold AccountManager.buyFill
  by_cases hneg : pos.netPosition < 0
  · have hneg' : pos.netPosition.toInt < 0 := by rwa [Int64.lt_iff_toInt_lt] at hneg
    have hmin : (min qty (-pos.netPosition)).toInt = min qty.toInt (-pos.netPosition.toInt) := by
      rw [toInt_min,toInt_neg_of_range ⟨by omega,by omega⟩]
    obtain ⟨hfits,hpnl⟩ := closingFits_of_abs (min qty (-pos.netPosition)) h.pnl h.avg hprice
      (by omega) (by omega) hfit (by omega)
    rw [hmin] at hfits
    refine ⟨fillFits_buy.mpr ⟨fun _ => hfits,fun hpos => absurd hpos (by omega)⟩,?_⟩
    rw [if_pos hneg]
    refine ⟨hnet,?_,hpnl⟩
    simp only
    split_ifs
    · exact hprice
    · exact h.avg
  rw [if_neg hneg]
  rw [Int64.lt_iff_toInt_lt] at hneg
  have hneg' : ¬ pos.netPosition.toInt < 0 := hneg
  by_cases hzero : pos.netPosition = 0
  · have hzero' : pos.netPosition.toInt = 0 := by rw [hzero]; rfl
    rw [if_pos hzero]
    exact ⟨fillFits_buy.mpr ⟨fun h => absurd h hneg',fun h => absurd h (by omega)⟩,hnet,hprice,hgrown.pnl⟩
  · have hzero' : pos.netPosition.toInt ≠ 0 := mt Int64.eq_zero_iff_toInt.mpr hzero
    obtain ⟨hfits,havg⟩ := addingFits_of_abs pos.netPosition (by omega) hu h.avg hprice hq (by omega) hfit
    rw [if_neg hzero]
    exact ⟨fillFits_buy.mpr ⟨fun h => absurd h hneg',fun _ => hfits⟩,hnet,havg,hgrown.pnl⟩

theorem Traded.sellFill (h : Traded p lots pos) (hprice : |price.toInt| ≤ p) (hq : 0 < qty.toInt)
    (hsize : lots+qty.toInt ≤ 2^62) (hfit : 2*p*(lots+qty.toInt) < 2^63) :
    FillFits pos .sell price qty ∧ Traded p (lots+qty.toInt) (AccountManager.sellFill pos price qty) := by
  obtain ⟨hl,hu⟩ := abs_le.mp h.net
  have hgrown := h.mono (show lots ≤ lots+qty.toInt by omega)
  have hnet : |(pos.netPosition-qty).toInt| ≤ lots+qty.toInt := by
    rw [toInt_sub_of_range (by omega) (by omega),abs_le]
    omega
  unfold AccountManager.sellFill
  by_cases hlong : 0 < pos.netPosition
  · have hlong' : 0 < pos.netPosition.toInt := pos_iff_toInt.mp hlong
    have hmin : (min qty pos.netPosition).toInt = min qty.toInt pos.netPosition.toInt := toInt_min _ _
    obtain ⟨hfits,hpnl⟩ := closingFits_of_abs (min qty pos.netPosition) h.pnl hprice h.avg
      (by omega) (by omega) hfit (by omega)
    rw [hmin] at hfits
    refine ⟨fillFits_sell.mpr ⟨fun _ => hfits,fun h => absurd h (by omega)⟩,?_⟩
    rw [if_pos hlong]
    refine ⟨hnet,?_,hpnl⟩
    simp only
    split_ifs
    · exact hprice
    · exact h.avg
  rw [if_neg hlong]
  have hlong' : ¬ 0 < pos.netPosition.toInt := mt pos_iff_toInt.mpr hlong
  by_cases hzero : pos.netPosition = 0
  · have hzero' : pos.netPosition.toInt = 0 := by rw [hzero]; rfl
    rw [if_pos hzero]
    exact ⟨fillFits_sell.mpr ⟨fun h => absurd h (by omega),fun h => absurd h (by omega)⟩,hnet,hprice,hgrown.pnl⟩
  · have hzero' : pos.netPosition.toInt ≠ 0 := mt Int64.eq_zero_iff_toInt.mpr hzero
    have hneg : (-pos.netPosition).toInt = -pos.netPosition.toInt := toInt_neg_of_range ⟨by omega,by omega⟩
    obtain ⟨hfits,havg⟩ := addingFits_of_abs (-pos.netPosition) (by omega) (by omega) h.avg hprice hq (by omega)
      hfit
    rw [hneg] at hfits
    rw [if_neg hzero]
    exact ⟨fillFits_sell.mpr ⟨fun h => absurd h (by omega),fun _ => hfits⟩,hnet,havg,hgrown.pnl⟩

end Fill
/-! ### Accounts -/

section Accounts
variable {p lots : ℤ} {m : AccountManager}

theorem Traded.applyFill (h : ∀ a, Traded p lots (m.getPosition a)) (acct : AccountId) (side : Side) {price qty : Int64}
    (hprice : |price.toInt| ≤ p) (hq : 0 < qty.toInt) (hsize : lots+qty.toInt ≤ 2^62)
    (hfit : 2*p*(lots+qty.toInt) < 2^63) : FillFits (m.getPosition acct) side price qty ∧
      ∀ a, Traded p (lots+qty.toInt) ((m.applyFill acct side price qty).getPosition a) := by
  have hother : ∀ a, acct ≠ a → Traded p (lots+qty.toInt) ((m.applyFill acct side price qty).getPosition a) := by
    intro a hne
    unfold AccountManager.applyFill AccountManager.getPosition
    rw [OrdMap.get_insert,if_neg hne]
    exact (h a).mono (by omega)
  cases side with
  | buy =>
    obtain ⟨hfits,hnext⟩ := (h acct).buyFill hprice hq hsize hfit
    refine ⟨hfits,fun a => ?_⟩
    by_cases ha : acct = a
    · subst ha
      unfold AccountManager.applyFill AccountManager.getPosition at *
      rw [OrdMap.get_insert,if_pos rfl]
      exact hnext
    · exact hother a ha
  | sell =>
    obtain ⟨hfits,hnext⟩ := (h acct).sellFill hprice hq hsize hfit
    refine ⟨hfits,fun a => ?_⟩
    by_cases ha : acct = a
    · subst ha
      unfold AccountManager.applyFill AccountManager.getPosition at *
      rw [OrdMap.get_insert,if_pos rfl]
      exact hnext
    · exact hother a ha

/-- Fills at such prices fit while all the lots that have moved are few enough. -/
theorem Traded.settle {fs : List MatchFill} {no : NewOrder} (hfs : ∀ f ∈ fs, 0 < f.qty ∧ |f.price.toInt| ≤ p)
    (h : ∀ a, Traded p lots (m.getPosition a)) (hsize : lots+2*total fs ≤ 2^62) (hfit : 2*p*(lots+2*total fs) < 2^63) :
    SettleFits m no fs ∧ ∀ a, Traded p (lots+2*total fs) ((settle m no fs).getPosition a) := by
  induction fs generalizing m lots with
  | nil => exact ⟨trivial,fun a => by simpa [total,Engine.settle] using h a⟩
  | cons f fs ih =>
    obtain ⟨hpos,hprice⟩ := hfs f (List.mem_cons_self ..)
    have hf := pos_iff_toInt.mp hpos
    have hrest : 0 ≤ total fs := total_nonneg fun g hg => (hfs g (List.mem_cons_of_mem _ hg)).1
    have hcons : total (f::fs) = f.qty.toInt+total fs := rfl
    rw [hcons] at hsize hfit ⊢
    have hp : 0 ≤ p := (abs_nonneg _).trans hprice
    have hle : ∀ n, n ≤ lots+2*(f.qty.toInt+total fs) → 2*p*n < 2^63 := fun n hn =>
      (mul_le_mul_of_nonneg_left hn (by omega)).trans_lt hfit
    obtain ⟨htaker,h₁⟩ := Traded.applyFill h no.accountId no.side hprice hf (by omega) (hle _ (by omega))
    obtain ⟨hmaker,h₂⟩ := Traded.applyFill h₁ f.makerAccountId no.side.opposite hprice hf (by omega)
      (hle _ (by omega))
    obtain ⟨hfits,hend⟩ := ih (fun g hg => hfs g (List.mem_cons_of_mem _ hg)) h₂ (by omega) (hle _ (by omega))
    have hsum : lots+f.qty.toInt+f.qty.toInt+2*total fs = lots+2*(f.qty.toInt+total fs) := by omega
    rw [hsum] at hend
    exact ⟨⟨htaker,hmaker,hfits⟩,hend⟩

end Accounts
/-! ### The book -/

section Book
variable {S : Type} [Slab S Order] {p : ℤ} {b : OrderBook S} {m m' : Matching S}

/-- Live orders have prices of at most this size. -/
def PricesWithin (p : ℤ) (b : OrderBook S) : Prop := ∀ k o, liveAt b.orders k = some o → |o.price.toInt| ≤ p

theorem PricesWithin.cancel (h : PricesWithin p b) {id : OrderId} {o : Order} (ho : b.get id = some o) :
    PricesWithin p (b.cancel id o.accountId).1 := by
  intro k x hx
  obtain ⟨j,hj,hg⟩ := get_eq_some.mp ho
  rw [liveAt_cancel hj hg] at hx
  split_ifs at hx
  exact h k x hx

theorem PricesWithin.insertResting (h : PricesWithin p b) {o : Order} (ho : 0 < o.qtyRem) (hp : |o.price.toInt| ≤ p) :
    PricesWithin p (b.insertResting o) := by
  intro k x hx
  rw [insertResting_orders,liveAt_insert ho] at hx
  split_ifs at hx
  · rw [← Option.some.inj hx]
    exact hp
  · exact h k x hx

theorem qtyRem_le_liveQty {k : ℕ} {o : Order} (ho : liveAt b.orders k = some o) : o.qtyRem.toInt ≤ liveQty b := by
  refine List.single_le_sum (fun x hx => ?_) _ (List.mem_map.mpr ⟨o,mem_liveOrders.mpr ⟨k,ho⟩,rfl⟩)
  obtain ⟨y,hy,rfl⟩ := List.mem_map.mp hx
  exact (pos_iff_toInt.mp (liveOrders_pos y hy)).le

/-- Fills are at the prices of live orders. -/
structure FilledWithin (p : ℤ) (m : Matching S) : Prop where
  sound : Sound m.book
  resting : PricesWithin p m.book
  fills : ∀ f ∈ m.fills, |f.price.toInt| ≤ p

theorem FilledWithin.pass {taker : OrderId} {limit : Price} {makers : Side} (h : FilledWithin p m)
    (hp : Pass taker limit makers m m') : FilledWithin p m' := by
  have hsound := h.sound.pass hp
  cases hp with
  | drop px lvl hr hl hdead => exact absurd hdead (h.sound.total (levelView_eq_some hl)).2
  | trade px lvl k rest o hr hl hk hfront hs =>
    refine ⟨hsound,fun j x hx => ?_,fun f hf => ?_⟩
    · rw [tradeWith_liveAt hk hr.qty] at hx
      split_ifs at hx
      · obtain ⟨rfl,-⟩ := afterTrade_eq_some hx
        exact h.resting k o hk
      · exact h.resting j x hx
    · rcases List.mem_append.mp hf with hf | hf
      · exact h.fills f hf
      · obtain ⟨x,hx,-,hprice⟩ := h.sound.queued hl k (hs.mem (List.mem_cons_self ..))
        obtain rfl := Option.some.inj ((liveAt_eq_some.mp hk).1.symm.trans hx)
        rw [List.mem_singleton.mp hf,← hprice]
        exact h.resting k o hk

theorem PricesWithin.matched (h : PricesWithin p b) (hb : Sound b) (no : NewOrder) :
    PricesWithin p (matched b no) ∧ ∀ f ∈ fillsOf b no, |f.price.toInt| ≤ p := by
  obtain ⟨m',hrun,he⟩ := matchTaker_run b no.orderId no.side no.price no.qty
  have hstart : FilledWithin p (⟨b,no.qty,[]⟩ : Matching S) := ⟨hb,h,by simp⟩
  have hend := (hrun.keeps (fun _ _ => FilledWithin.pass) hstart).1
  rw [← matched_eq] at he
  obtain ⟨hbook,hfills⟩ := Prod.mk.inj he
  rw [hbook,hfills]
  exact ⟨hend.resting,hend.fills⟩

theorem PricesWithin.newBook (h : PricesWithin p b) (hb : Sound b) {no : NewOrder} (hp : |no.price.toInt| ≤ p) :
    PricesWithin p (newBook b no) := by
  obtain ⟨hm,-⟩ := h.matched hb no
  unfold Engine.newBook
  split_ifs with hrest
  · exact hm.insertResting hrest.1 hp
  · exact hm

end Book
/-! ### Runs -/

section Run
variable {S : Type} [Slab S Order] {p : ℤ} {e : Engine S} {n : ℕ}

/-- After `n` commands with prices of at most this size. -/
structure Priced (p : ℤ) (e : Engine S) (n : ℕ) : Prop where
  bounded : Bounded e n
  resting : PricesWithin p e.book
  traded : ∀ a, Traded p (2000*n) (e.accountManager.getPosition a)

/-- The price that a command names is of at most this size. -/
def PriceWithin (p : ℤ) : Command → Prop
  | .newOrder no => |no.price.toInt| ≤ p
  | .replace r => |r.newPrice.toInt| ≤ p
  | _ => True

theorem Priced.new (hp : 0 ≤ p) : Priced p (Engine.new : Engine S) 0 where
  bounded := Bounded.new
  resting k o ho := by simp [Engine.new,OrderBook.new,liveAt] at ho
  traded a := by
    have hflat : (Engine.new : Engine S).accountManager.getPosition a = default := by
      simp [Engine.new,AccountManager.new,AccountManager.getPosition]
    rw [hflat]
    have hflat' : (default : Position).realizedPnl.toInt = 0 := rfl
    exact ⟨by decide,hp,by simp [hflat']⟩

theorem Priced.cancel (h : Priced p e n) {id : OrderId} {o : Order} (ho : e.book.get id = some o) :
    Priced p ({ e with book := (e.book.cancel id o.accountId).1 } : Engine S) n :=
  ⟨h.bounded.cancel ho,h.resting.cancel ho,h.traded⟩

/-- The fills of an accepted order fit, and so do the amounts they leave. -/
theorem Priced.placed (h : Priced p e n) (hn : n < 2^40) (hfit : 4000*(n+1)*p < 2^63) {no : NewOrder}
    (hr : e.refusal no = none) (hprice : |no.price.toInt| ≤ p) :
    SettleFits e.accountManager no (fillsOf e.book no) ∧ PricesWithin p (newBook e.book no) ∧
      ∀ a, Traded p (2000*(n+1)) ((settle e.accountManager no (fillsOf e.book no)).getPosition a) := by
  obtain ⟨hle,left,hquant⟩ := h.bounded.quantities hr
  have hpos : ∀ f ∈ fillsOf e.book no, 0 < f.qty := hquant.fills
  have hleft : left.toInt+total (fillsOf e.book no) = no.qty.toInt := hquant.left
  have hnonneg : 0 ≤ left.toInt := hquant.nonneg
  obtain ⟨-,hfills⟩ := h.resting.matched h.bounded.sound no
  have hp : 0 ≤ p := (abs_nonneg _).trans hprice
  have hroom : 2*p*(2000*n+2*total (fillsOf e.book no)) < 2^63 := by
    have hmono : 2*p*(2000*n+2*total (fillsOf e.book no)) ≤ 2*p*(2000*(n+1)) :=
      mul_le_mul_of_nonneg_left (by omega) (by omega)
    have hcomm : 2*p*(2000*(n+1)) = 4000*(n+1)*p := by ring
    omega
  obtain ⟨hsettle,htraded⟩ := Traded.settle (fun f hf => ⟨hpos f hf,hfills f hf⟩) h.traded (by omega) hroom
  exact ⟨hsettle,h.resting.newBook h.bounded.sound hprice,fun a => (htraded a).mono (by omega)⟩

theorem Priced.amountsFit (h : Priced p e n) (hn : n < 2^40) (hfit : 4000*(n+1)*p < 2^63) {cmd : Command}
    (hcmd : PriceWithin p cmd) : AmountsFit e cmd := by
  cases cmd with
  | newOrder no => exact fun hr => (h.placed hn hfit hr hcmd).1
  | replace r => exact fun o ho _ hr => ((h.cancel ho).placed hn hfit hr hcmd).1
  | cancel c => trivial
  | setRiskLimits srl => trivial
  | queryAccount qa => trivial
  | authenticate auth => trivial

theorem Priced.process (h : Priced p e n) (hn : n < 2^40) (hfit : 4000*(n+1)*p < 2^63) {cmd : Command}
    (hs : ∀ srl, cmd ≠ .setRiskLimits srl) (hcmd : PriceWithin p cmd) : Priced p (e.process cmd).1 (n+1) := by
  have hstep := e.process_core cmd
  have hcast : (2000*((n+1 : ℕ) : ℤ)) = 2000*(n+1) := by push_cast; rfl
  suffices hgoal : PricesWithin p (e.process cmd).1.book ∧
      ∀ a, Traded p (2000*(n+1)) ((e.process cmd).1.accountManager.getPosition a) by
    exact ⟨h.bounded.process hn hs,hgoal.1,by rw [hcast]; exact hgoal.2⟩
  generalize (e.process cmd).1.book = b' at hstep ⊢
  generalize (e.process cmd).1.accountManager = m' at hstep ⊢
  have hsame : ∀ a, Traded p (2000*(n+1)) (e.accountManager.getPosition a) := fun a => (h.traded a).mono (by omega)
  cases hstep with
  | same => exact ⟨h.resting,hsame⟩
  | @limits srl => exact absurd rfl (hs srl)
  | placed hr => exact (h.placed hn hfit hr hcmd).2
  | cancelled ho hacct => exact ⟨h.resting.cancel ho,hsame⟩
  | lost ho hacct => exact ⟨h.resting.cancel ho,hsame⟩
  | replaced ho hacct hr => exact ((h.cancel ho).placed hn hfit hr hcmd).2

theorem Priced.listingFits (h : Priced p e n) (hp : 0 ≤ p) (hfit : 4000*n*p < 2^63) : ListingFits e.book := by
  intro i hi o ho _
  obtain ⟨o',hlive,-⟩ := h.bounded.sound.indexed (OrdMap.mem_toList.mp hi)
  obtain ⟨hget,hpos⟩ := liveAt_eq_some.mp hlive
  obtain rfl := Option.some.inj (hget.symm.trans ho)
  have hq := pos_iff_toInt.mp hpos
  have hle := (qtyRem_le_liveQty hlive).trans h.bounded.live
  have hamount : |o'.price.toInt*o'.qtyRem.toInt| ≤ p*o'.qtyRem.toInt := by
    rw [mul_comm]
    exact abs_mul_le (abs_of_pos hq).le (h.resting i.2 o' hlive)
  have hmono : p*o'.qtyRem.toInt ≤ p*(1000*n) := mul_le_mul_of_nonneg_left hle hp
  have hcomm : 4000*n*p = 4*(p*(1000*n)) := by ring
  have hnonneg : 0 ≤ p*(1000*n) := mul_nonneg hp (by omega)
  exact inRange_of_abs (hamount.trans_lt (by omega))

theorem Priced.pricesFit (h : Priced p e n) (hp : 0 ≤ p) {cmds : List Command} (hn : n+cmds.length ≤ 2^40)
    (hs : ∀ cmd ∈ cmds, ∀ srl, cmd ≠ .setRiskLimits srl) (hcmds : ∀ cmd ∈ cmds, PriceWithin p cmd)
    (hfit : 4000*(n+cmds.length)*p < 2^63) : PricesFit e cmds := by
  induction cmds generalizing e n with
  | nil => exact h.listingFits hp (by simpa using hfit)
  | cons cmd cmds ih =>
    rw [List.length_cons] at hn hfit
    push_cast at hfit
    have hmono : ∀ k : ℤ, k ≤ n+(cmds.length+1) → 4000*k*p < 2^63 := fun k hk =>
      (mul_le_mul_of_nonneg_right (by omega) hp).trans_lt hfit
    have hcmd := hcmds cmd (List.mem_cons_self ..)
    have hnext := h.process (by omega) (hmono _ (by omega)) (hs cmd (List.mem_cons_self ..)) hcmd
    refine ⟨h.listingFits hp (hmono _ (by omega)),h.amountsFit (by omega) (hmono _ (by omega)) hcmd,?_⟩
    refine ih hnext (by omega) (fun c hc => hs c (List.mem_cons_of_mem _ hc))
      (fun c hc => hcmds c (List.mem_cons_of_mem _ hc)) (hmono _ ?_)
    push_cast
    omega

/-- With prices of at most this size the arithmetic of the engine is exact, while 4000 times the size times the
number of commands fits. -/
theorem exact_of_prices {cmds : List Command} (hs : ∀ cmd ∈ cmds, ∀ srl, cmd ≠ .setRiskLimits srl)
    (hn : cmds.length ≤ 2^40) (hp : 0 ≤ p) (hcmds : ∀ cmd ∈ cmds, PriceWithin p cmd)
    (hfit : 4000*cmds.length*p < 2^63) : Exact (Engine.new : Engine S) cmds := by
  refine (Bounded.new.exact_iff (by rwa [Nat.zero_add]) hs).mpr ?_
  exact (Priced.new hp).pricesFit hp (by rwa [Nat.zero_add]) hs hcmds (by rwa [Nat.cast_zero,zero_add])

end Run
end Engine
end HighPerfTrading
