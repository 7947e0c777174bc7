import HighPerfTrading.Engine.BookInvariant
import HighPerfTrading.Engine.Checked
import HighPerfTrading.Engine.LiveSum

/-! The book's arithmetic is about quantities only. On a sound book it never fails: a level's total is the sum
of the quantities that are taken from it. -/
namespace HighPerfTrading
namespace Checked
open Int64 OrderBook
variable {S : Type} [Slab S Order] {b : OrderBook S} {m : Matching S}

theorem insertResting_eq (hb : Sound b) {o : Order} (ho : 0 < o.qtyRem) (hq : liveQty b+o.qtyRem.toInt < 2^63) :
    insertResting b o = some (b.insertResting o) := by
  have hpos := pos_iff_toInt.mp ho
  have htotal : 0 ≤ (((b.levels o.side)[o.price]?).getD Level.new).totalQty.toInt ∧
      (((b.levels o.side)[o.price]?).getD Level.new).totalQty.toInt ≤ liveQty b := by
    cases hl : (b.levels o.side)[o.price]? with
    | none => exact ⟨le_refl 0,sumQty_nonneg liveOrders_pos⟩
    | some lvl =>
      have hv := levelView_eq_some hl
      rw [Option.getD_some,(hb.total hv).1]
      exact ⟨sumQty_nonneg liveQueue_pos,hb.toQueues.level_le_liveQty hv⟩
  rw [insertResting,checkedAdd_eq,if_pos ⟨by omega,by omega⟩]
  rfl

theorem cancel_eq (hb : Sound b) (id : OrderId) (acct : AccountId) : cancel b id acct = some (b.cancel id acct) := by
  unfold cancel OrderBook.cancel
  cases hk : b.index[id]? with
  | none => rfl
  | some k =>
    obtain ⟨o,hlive,-⟩ := hb.indexed hk
    obtain ⟨hg,ho⟩ := liveAt_eq_some.mp hlive
    obtain ⟨lvl,hl,hm⟩ := hb.waits hlive
    simp only [hg,hl]
    by_cases hacct : o.accountId ≠ acct
    · rw [if_pos hacct,if_pos hacct]
    rw [if_neg hacct,if_neg hacct]
    have hle := keyQty_le b.orders hm
    have hkey : keyQty b.orders k = o.qtyRem.toInt := by rw [keyQty,hlive,Option.elim_some]
    have htotal := (hb.total (levelView_eq_some hl)).1
    have hrange := (inRange_toInt lvl.totalQty).2
    have hpos := pos_iff_toInt.mp ho
    rw [checkedSub_eq,if_pos ⟨by omega,by omega⟩]
    rfl

theorem tradeWith_eq {taker : OrderId} {makers : Side} {px : Price} {lvl : Level} {k : ℕ} {rest : List ℕ} {o : Order}
    (hq : 0 < m.takerQty) (ho : 0 < o.qtyRem) (ht : o.qtyRem.toInt ≤ lvl.totalQty.toInt) :
    tradeWith taker makers m px lvl k rest o = some (OrderBook.tradeWith taker makers m px lvl k rest o) := by
  obtain ⟨hpos,hle,hleo,-⟩ := min_qty hq ho
  have hmin := pos_iff_toInt.mp hpos
  have hle' := Int64.le_iff_toInt_le.mp hle
  have hleo' := Int64.le_iff_toInt_le.mp hleo
  have htaker := (inRange_toInt m.takerQty).2
  have hmaker := (inRange_toInt o.qtyRem).2
  have htotal := (inRange_toInt lvl.totalQty).2
  rw [tradeWith,checkedSub_eq,if_pos ⟨by omega,by omega⟩,checkedSub_eq,if_pos ⟨by omega,by omega⟩,checkedSub_eq,
    if_pos ⟨by omega,by omega⟩]
  rfl

theorem matchStep_eq (hb : Sound m.book) (taker : OrderId) (limit : Price) (makers : Side) :
    matchStep taker limit makers m = some (OrderBook.matchStep taker limit makers m) := by
  unfold matchStep OrderBook.matchStep
  by_cases hq : m.takerQty ≤ 0
  · rw [if_pos hq,if_pos hq]
  rw [if_neg hq,if_neg hq]
  cases bestPrice makers (m.book.levels makers) with
  | none => rfl
  | some px =>
    simp only
    by_cases hout : outside makers limit px = true
    · rw [if_pos hout,if_pos hout]
    rw [if_neg hout,if_neg hout]
    cases hl : (m.book.levels makers)[px]? with
    | none => rfl
    | some lvl =>
      cases hpop : popLiveFront m.book.orders lvl.queue with
      | none => simp only [hpop]
      | some kr =>
        obtain ⟨k,rest⟩ := kr
        obtain ⟨o,hk,-,hs⟩ := popLiveFront_eq_some hpop
        obtain ⟨hg,ho⟩ := liveAt_eq_some.mp hk
        have hle := keyQty_le m.book.orders (hs.mem (List.mem_cons_self ..))
        have hkey : keyQty m.book.orders k = o.qtyRem.toInt := by rw [keyQty,hk,Option.elim_some]
        have htotal := (hb.total (levelView_eq_some hl)).1
        simp only [hpop,hg]
        rw [tradeWith_eq (Int64.not_le.mp hq) ho (by omega)]
        rfl

theorem matchLoop_eq (taker : OrderId) (limit : Price) (makers : Side) (n : ℕ) (hb : Sound m.book) :
    matchLoop taker limit makers n m = some (OrderBook.matchLoop taker limit makers n m) := by
  induction n generalizing m with
  | zero => rfl
  | succ n ih =>
    rw [matchLoop,matchStep_eq hb,OrderBook.matchLoop]
    rcases matchStep_pass m taker limit makers with ⟨hexit,-⟩ | ⟨m',hnext,hpass⟩
    · rw [hexit]
      rfl
    · rw [hnext]
      exact ih (hb.pass hpass)

theorem matchTaker_eq (hb : Sound b) (taker : OrderId) (side : Side) (limit : Price) (qty : Qty) :
    matchTaker b taker side limit qty = some (b.matchTaker taker side limit qty) := by
  rw [matchTaker,matchLoop_eq taker limit side.opposite _ hb]
  rfl

/-! ### What matching does to quantities -/

/-- Fills and what is left make up the order; live quantity only goes down. -/
structure Quantities (b : OrderBook S) (q : Qty) (m : Matching S) : Prop where
  sound : Sound m.book
  nonneg : 0 ≤ m.takerQty.toInt
  left : m.takerQty.toInt+(m.fills.map fun f => f.qty.toInt).sum = q.toInt
  fills : ∀ f ∈ m.fills, 0 < f.qty
  live : liveQty m.book ≤ liveQty b

theorem Quantities.pass {q : Qty} {m m' : Matching S} {taker : OrderId} {limit : Price} {makers : Side}
    (h : Quantities b q m) (hp : Pass taker limit makers m m') : Quantities b q m' := by
  have hsound := h.sound.pass hp
  cases hp with
  | drop px lvl hr hl hdead => exact absurd hdead (h.sound.total (levelView_eq_some hl)).2
  | trade px lvl k rest o hr hl hk hfront hs =>
    obtain ⟨-,ho⟩ := liveAt_eq_some.mp hk
    obtain ⟨hpos,hle,hleo,-⟩ := min_qty hr.qty ho
    have hsub : (m.takerQty-min m.takerQty o.qtyRem).toInt = m.takerQty.toInt-(min m.takerQty o.qtyRem).toInt :=
      toInt_sub_of_le _ _ (Int64.le_of_lt hpos) hle
    have hle' := Int64.le_iff_toInt_le.mp hle
    have htrade : liveSum (fun o => o.qtyRem.toInt) (OrderBook.tradeWith taker makers m px lvl k rest o).book+
        o.qtyRem.toInt = _ := liveSum_trade (fun o => o.qtyRem.toInt) hk hr.qty
    have hafter : (afterTrade o (min m.takerQty o.qtyRem)).elim 0 (fun o => o.qtyRem.toInt) ≤ o.qtyRem.toInt := by
      rw [afterTrade]
      split_ifs with hz
      · exact (pos_iff_toInt.mp ho).le
      · rw [Option.elim_some,toInt_sub_of_le _ _ (Int64.le_of_lt hpos) hleo]
        have := pos_iff_toInt.mp hpos
        omega
    have hlive : liveQty (OrderBook.tradeWith taker makers m px lvl k rest o).book ≤ liveQty m.book := by
      change liveSum (fun o => o.qtyRem.toInt) _ ≤ liveSum (fun o => o.qtyRem.toInt) m.book
      omega
    refine ⟨hsound,?_,?_,fun f hf => ?_,hlive.trans h.live⟩
    · change 0 ≤ (m.takerQty-min m.takerQty o.qtyRem).toInt
      omega
    · have hsum : ((OrderBook.tradeWith taker makers m px lvl k rest o).fills.map fun f => f.qty.toInt).sum =
          (m.fills.map fun f => f.qty.toInt).sum+(min m.takerQty o.qtyRem).toInt := by
        rw [OrderBook.tradeWith,List.map_append,List.sum_append]
        exact congrArg (_ + ·) List.sum_singleton
      have hleft := h.left
      rw [hsum]
      change (m.takerQty-min m.takerQty o.qtyRem).toInt+_ = _
      omega
    · rcases List.mem_append.mp hf with hf | hf
      · exact h.fills f hf
      · rw [List.mem_singleton.mp hf]
        exact hpos

theorem matchTaker_quantities (hb : Sound b) (taker : OrderId) (side : Side) (limit : Price) {qty : Qty}
    (hq : 0 < qty) : ∃ left, Quantities b qty
      ⟨(b.matchTaker taker side limit qty).1,left,(b.matchTaker taker side limit qty).2⟩ := by
  obtain ⟨m',hrun,he⟩ := matchTaker_run b taker side limit qty
  have hstart : Quantities b qty ⟨b,qty,[]⟩ := ⟨hb,(pos_iff_toInt.mp hq).le,by simp,by simp,le_refl _⟩
  have hend := (hrun.keeps (fun _ _ => Quantities.pass) hstart).1
  rw [he]
  exact ⟨m'.takerQty,hend⟩

end Checked
end HighPerfTrading
