import HighPerfTrading.Engine.BookRepresentation
import HighPerfTrading.Engine.TimePriority

/-! What an order gets: everything that rests within its limit, up to its size, best price first. What it does not
get rests if it is good till cancelled. -/
namespace HighPerfTrading
namespace OrderBook
open RefBook
variable {S : Type} [Slab S Order] {b : OrderBook S} {s : Side} {p : Price}

/-- The live quantity on the other side within a limit. -/
def liquidity (b : OrderBook S) (side : Side) (limit : Price) : ℤ :=
  sumQty (b.liveOrders.filter fun o => decide (o.side = side.opposite) && !outside side.opposite limit o.price)

theorem rules_lawful (makers : Side) : (rules makers).Lawful where
  total a b := by
    cases makers with
    | sell => exact Int64.le_total a b
    | buy => exact Int64.le_total b a
  trans {a b c} hab hbc := by
    cases makers with
    | sell => exact Int64.le_trans hab hbc
    | buy => exact Int64.le_trans hbc hab
  take o n hn hle := by
    have hle : n ≤ o.qtyRem.toInt := hle
    have hlow := o.qtyRem.le_toInt
    have hhigh := o.qtyRem.toInt_lt
    have hint : (Int64.ofInt n).toInt = n := Int64.toInt_ofInt_of_le (by omega) (by omega)
    change (o.qtyRem-Int64.ofInt n).toInt = o.qtyRem.toInt-n
    rw [Int64.toInt_sub_of_range (by omega) (by omega),hint]

/-- A price that is better for the taker is within its limit too. -/
theorem within_better {side : Side} {limit a c : Price} (h : better side.opposite a c)
    (hc : RefBook.Within side limit c) : RefBook.Within side limit a := by
  cases side with
  | buy => exact Int64.le_trans h hc
  | sell => exact Int64.le_trans hc h

theorem Inv.sumQty_abs (hb : Inv b) (s : Side) (p : Price) : sumQty (b.abs s p) = sumQty (ofLevel b.liveOrders s p) := by
  cases hv : levelView b s p with
  | some v =>
    obtain ⟨lvl,hl,rfl⟩ := Option.map_eq_some_iff.mp hv
    rw [← hb.sound.sumQty_level hl,OrderBook.abs,hv]
    rfl
  | none =>
    have hnone : ofLevel b.liveOrders s p = [] := by
      refine List.eq_nil_iff_forall_not_mem.mpr fun o ho => ?_
      obtain ⟨hlive,hat⟩ := List.mem_filter.mp ho
      obtain ⟨t,os,hv',-⟩ := hb.reach (hb.toWf.get_iff.mpr ((mem_liveOrders.mp hlive).imp fun k hk => ⟨hk,rfl⟩))
      obtain ⟨rfl,rfl⟩ : o.side = s ∧ o.price = p := by simpa using hat
      exact absurd (hv.symm.trans hv') (by simp)
    rw [hnone,OrderBook.abs,hv]
    rfl

theorem sumQty_filter_or {P Q : Order → Bool} {os : List Order} (h : ∀ o, P o = true → Q o = false) :
    sumQty (os.filter fun o => P o || Q o) = sumQty (os.filter P)+sumQty (os.filter Q) := by
  induction os with
  | nil => rfl
  | cons o os ih =>
    simp only [List.filter_cons]
    cases hP : P o with
    | true =>
      have hQ := h o hP
      simp only [hQ,Bool.or_false,if_true,Bool.false_eq_true,if_false,sumQty_cons,ih]
      omega
    | false =>
      cases hQ : Q o with
      | true =>
        simp only [Bool.or_true,if_true,Bool.false_eq_true,if_false,sumQty_cons,ih]
        omega
      | false => simp only [Bool.or_false,Bool.false_eq_true,if_false,ih]

/-- The orders at different prices are different. -/
theorem sum_ofLevel (os : List Order) (s : Side) {ps : List Price} (hn : ps.Nodup) :
    (ps.map fun p => sumQty (ofLevel os s p)).sum =
      sumQty (os.filter fun o => decide (o.side = s) && decide (o.price ∈ ps)) := by
  induction ps with
  | nil => simp
  | cons p ps ih =>
    obtain ⟨hp,hps⟩ := List.nodup_cons.mp hn
    rw [List.map_cons,List.sum_cons,ih hps,ofLevel,← sumQty_filter_or]
    · refine congrArg sumQty (List.filter_congr fun o _ => ?_)
      by_cases hs : o.side = s <;> by_cases he : o.price = p <;> simp [hs,he]
    · intro o ho
      obtain ⟨-,rfl⟩ : o.side = s ∧ o.price = p := by simpa using ho
      simp [hp]

/-- The prices within a limit at which the other side has orders. -/
theorem Inv.exists_prices (hb : Inv b) (side : Side) (limit : Price) : ∃ ps : List Price, ps.Nodup ∧
    (∀ p ∈ ps, RefBook.Within side limit p) ∧
    (∀ p, b.abs side.opposite p ≠ [] → RefBook.Within side limit p → p ∈ ps) ∧
    (rules side.opposite).available (b.abs side.opposite) ps = b.liquidity side limit := by
  let inside := b.liveOrders.filter fun o => decide (o.side = side.opposite) && !outside side.opposite limit o.price
  have hmem : ∀ p, p ∈ (inside.map Order.price).dedup ↔
      ∃ o ∈ b.liveOrders, o.side = side.opposite ∧ o.price = p ∧ RefBook.Within side limit p := by
    intro p
    simp only [inside,List.mem_dedup,List.mem_map,List.mem_filter,Bool.and_eq_true,decide_eq_true_eq,Bool.not_eq_true',
      within_iff]
    constructor
    · rintro ⟨o,⟨ho,hs,hw⟩,rfl⟩
      exact ⟨o,ho,hs,rfl,hw⟩
    · rintro ⟨o,ho,hs,rfl,hw⟩
      exact ⟨o,⟨ho,hs,hw⟩,rfl⟩
  refine ⟨_,List.nodup_dedup _,fun p hp => ?_,fun p hp hw => (hmem p).mpr ?_,?_⟩
  · obtain ⟨-,-,-,-,hw⟩ := (hmem p).mp hp
    exact hw
  · obtain ⟨o,ho⟩ := List.exists_mem_of_ne_nil _ hp
    obtain ⟨hget,hs,hprice,-⟩ := hb.abs_mem ho
    obtain ⟨k,hk,-⟩ := hb.toWf.get_iff.mp hget
    exact ⟨o,mem_liveOrders.mpr ⟨k,hk⟩,hs,hprice,hw⟩
  · have hqueue : ∀ p, ((b.abs side.opposite p).map (rules side.opposite).qty).sum =
        sumQty (ofLevel b.liveOrders side.opposite p) := hb.sumQty_abs side.opposite
    simp only [PriceTime.Rules.available,hqueue]
    rw [sum_ofLevel _ _ (List.nodup_dedup _)]
    refine congrArg sumQty (List.filter_congr fun o ho => ?_)
    by_cases hs : o.side = side.opposite
    · simp only [hs,decide_true,Bool.true_and]
      cases hout : outside side.opposite limit o.price with
      | false => exact decide_eq_true ((hmem _).mpr ⟨o,ho,hs,rfl,within_iff.mpr hout⟩)
      | true =>
        refine decide_eq_false fun hp => ?_
        obtain ⟨-,-,-,-,hw⟩ := (hmem _).mp hp
        exact absurd (hout.symm.trans (within_iff.mp hw)) (by simp)
    · simp [hs]

/-- Matching takes what there is within the limit. -/
theorem Inv.matchTaker_takes (hb : Inv b) {side : Side} {limit : Price} {qty : Qty} (hq : 0 < qty)
    {ts : List (PriceTime.Trade Price Order)} {Q : PriceTime.Queues Price Order}
    (hw : (rules side.opposite).Walk (RefBook.Within side limit) (b.abs side.opposite) qty.toInt ts Q) :
    (ts.map PriceTime.Trade.qty).sum = min qty.toInt (b.liquidity side limit) := by
  obtain ⟨ps,hn,hin,hps,havail⟩ := hb.exists_prices side limit
  rw [← havail]
  refine hw.traded (rules_lawful _) within_better hn hin (Int64.pos_iff_toInt.mp hq).le hps fun p o ho => ?_
  exact Int64.pos_iff_toInt.mp (hb.abs_mem ho).2.2.2

end OrderBook

namespace Engine
open OrderBook OrderBook.RefBook
variable {S : Type} [Slab S Order] {e : Engine S} {no : NewOrder}

def totalFilled (evs : List Event) : ℤ := ((fillsIn evs).map fun f => f.qty.toInt).sum

theorem refusal_of_acknowledged (h : acknowledged (e.handleNew no).2 = true) : e.refusal no = none := by
  rw [handleNew_eq] at h
  cases hr : e.refusal no with
  | none => rfl
  | some reason =>
    rw [hr] at h
    cases h

/-- The fills that an accepted order reports. -/
theorem handleNew_fills (hr : e.refusal no = none) :
    (fillsIn (e.handleNew no).2).map (fun f => (f.price,f.qty)) = (fillsOf e.book no).map fun f => (f.price,f.qty) := by
  obtain ⟨-,-,-,t,seq,hev⟩ := accepted_spec hr
  rw [handleNew_eq,hr]
  simp only
  rw [hev,fillsIn,List.filterMap_append,List.map_append,← fillsIn,fillsIn_fillEvents]
  exact List.append_nil _

theorem handleNew_takes (hb : Inv e.book) (hr : e.refusal no = none) :
    totalFilled (e.handleNew no).2 = min no.qty.toInt (e.book.liquidity no.side no.price) ∧
      (∀ f ∈ fillsIn (e.handleNew no).2, RefBook.Within no.side no.price f.price) ∧
      (fillsIn (e.handleNew no).2).Pairwise fun f g => better no.side.opposite f.price g.price := by
  have hpos := (refusal_none hr).2.1
  obtain ⟨ts,Q,hfs,hw,-⟩ := abs_newBook hb no hpos
  have hfills := handleNew_fills hr
  rw [hfs,List.map_map] at hfills
  obtain ⟨hin,hsorted⟩ := hw.prices
  refine ⟨?_,fun f hf => ?_,?_⟩
  · have hsum : totalFilled (e.handleNew no).2 = (ts.map PriceTime.Trade.qty).sum := by
      have hqtys := congrArg (List.map fun x : Price × Qty => x.2.toInt) hfills
      rw [List.map_map,List.map_map] at hqtys
      refine congrArg List.sum (hqtys.trans (List.map_congr_left fun t ht => ?_))
      exact fill_qty hw ht no.orderId
    rw [hsum]
    exact hb.matchTaker_takes hpos hw
  · have hmem := List.mem_map_of_mem (f := fun f : Fill => (f.price,f.qty)) hf
    rw [hfills] at hmem
    obtain ⟨t,ht,he⟩ := List.mem_map.mp hmem
    have hprice : t.price = f.price := congrArg Prod.fst he
    exact hprice ▸ hin t ht
  · have hpairs : ((fillsIn (e.handleNew no).2).map fun f => (f.price,f.qty)).Pairwise fun x y =>
        better no.side.opposite x.1 y.1 := by
      rw [hfills,List.pairwise_map]
      exact hsorted
    exact (List.pairwise_map (f := fun f : Fill => (f.price,f.qty))).mp hpairs

/-- What an order that is good till cancelled does not get rests. -/
theorem handleNew_rests (hb : Inv e.book) (hr : e.refusal no = none) (htif : no.tif = .gtc)
    (hfree : e.book.get no.orderId = none) :
    (e.handleNew no).1.book.qtyUnder no.orderId = no.qty.toInt-totalFilled (e.handleNew no).2 := by
  have htaken := (placed_newBook hb.toWf hfree (refusal_none hr).2.1).taken
  have hqtys := congrArg (List.map fun x : Price × Qty => x.2.toInt) (handleNew_fills hr)
  rw [List.map_map,List.map_map] at hqtys
  have hsum : totalFilled (e.handleNew no).2 = tradedQty (fillsOf e.book no) := congrArg List.sum hqtys
  have hbook : (e.handleNew no).1.book = newBook e.book no := by
    rw [handleNew_eq,hr]
    exact (accepted_spec hr).1
  have hnone : discarded no (fillsOf e.book no) = 0 := by rw [discarded,htif]; simp
  rw [hbook,hsum]
  omega

/-- After any orderly run, an order that is acknowledged is filled with all that rests within its limit, up to its
size, the best prices first; if it is good till cancelled the rest of it waits. -/
theorem takes_liquidity {cmds : List Command} (h : (Engine.new : Engine S).OrderlyRun (cmds ++ [.newOrder no]))
    (hacc : acknowledged (((Engine.new : Engine S).after cmds).process (.newOrder no)).2 = true) :
    let e := (Engine.new : Engine S).after cmds
    let evs := (e.process (.newOrder no)).2
    totalFilled evs = min no.qty.toInt (e.book.liquidity no.side no.price) ∧
      (∀ f ∈ fillsIn evs, RefBook.Within no.side no.price f.price) ∧
      ((fillsIn evs).Pairwise fun f g => better no.side.opposite f.price g.price) ∧
      (no.tif = .gtc → (e.process (.newOrder no)).1.book.qtyUnder no.orderId = no.qty.toInt-totalFilled evs) := by
  intro e evs
  obtain ⟨hcmds,hlast⟩ := orderlyRun_append.mp h
  have hb := (run_steps (Inv.new 1) hcmds).1
  have hr := refusal_of_acknowledged hacc
  obtain ⟨htotal,hin,hsorted⟩ := handleNew_takes hb hr
  exact ⟨htotal,hin,hsorted,fun htif => handleNew_rests hb hr htif (hlast.1.1 hr htif)⟩

/-- A buyer of 9 up to 101 gets the 5 at 100 and the 3 at 101, and its last one waits. -/
theorem takes_liquidity_partial : totalFilled (((Engine.new : Engine (FreeListSlab Order)).after
      [.newOrder ⟨1,1,7,1,.sell,101,3,.gtc,⟨false⟩⟩,.newOrder ⟨2,2,8,1,.sell,100,5,.gtc,⟨false⟩⟩,
        .newOrder ⟨3,3,8,1,.sell,102,4,.gtc,⟨false⟩⟩]).process (.newOrder ⟨4,4,9,1,.buy,101,9,.gtc,⟨false⟩⟩)).2 = 8 :=
  (takes_liquidity (S := FreeListSlab Order) (by decide +kernel) (by decide +kernel)).1.trans (by decide +kernel)

end Engine
end HighPerfTrading
