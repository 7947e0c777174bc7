import HighPerfTrading.Engine.Checked

/-! Where the build with overflow checks has a result, the release build has the same one: checking only ever
stops a computation. -/
namespace HighPerfTrading
namespace Checked
open Int64

/-! ### Accounts -/

section Accounts
variable {m m' : AccountManager} {pos pos' : Position} {acct : AccountId} {side : Side} {price qty : Int64}

/-- The position against the limits. -/
theorem checkPosition_some {limits : RiskLimits} {newPosition : Int64} {r : Except RejectReason Unit}
    (h : (if limits.maxLongPosition < newPosition then some (.error .risk) else
      (checkedNeg limits.maxShortPosition).bind fun least =>
        if newPosition < least then some (.error .risk) else some (.ok ())) = some r) :
    r = if limits.maxLongPosition < newPosition then .error .risk
      else if newPosition < -limits.maxShortPosition then .error .risk else .ok () := by
  split_ifs at h ⊢ with hlong hshort
  · exact (Option.some.inj h).symm
  · obtain ⟨least,hleast,h⟩ := Option.bind_eq_some_iff.mp h
    rw [(checkedNeg_some hleast).1,if_pos hshort] at h
    exact (Option.some.inj h).symm
  · obtain ⟨least,hleast,h⟩ := Option.bind_eq_some_iff.mp h
    rw [(checkedNeg_some hleast).1,if_neg hshort] at h
    exact (Option.some.inj h).symm

theorem checkRisk_some {r : Except RejectReason Unit} (h : checkRisk m acct side qty = some r) :
    r = m.checkRisk acct side qty := by
  unfold checkRisk at h
  unfold AccountManager.checkRisk
  by_cases hsize : (m.getLimits acct).maxOrderSize < qty
  · rw [if_pos hsize] at h ⊢
    exact (Option.some.inj h).symm
  rw [if_neg hsize] at h ⊢
  cases side with
  | buy =>
    obtain ⟨newPosition,hnew,h⟩ := Option.bind_eq_some_iff.mp h
    obtain rfl := (checkedAdd_some hnew).1
    exact checkPosition_some h
  | sell =>
    obtain ⟨newPosition,hnew,h⟩ := Option.bind_eq_some_iff.mp h
    obtain rfl := (checkedSub_some hnew).1
    exact checkPosition_some h

theorem closeLots_some {a b closing : Int64} (h : closeLots pos a b closing qty price = some pos') :
    pos' = { pos with
      realizedPnl := pos.realizedPnl+closing*(a-b)
      avgPrice := if 0 < qty-closing then price else pos.avgPrice } := by
  unfold closeLots at h
  simp only [Option.bind_eq_bind,Option.bind_eq_some_iff] at h
  obtain ⟨perLot,hper,pnl,hpnl,realized,hreal,opening,hopen,h⟩ := h
  rw [← Option.some.inj h,(checkedAdd_some hreal).1,(checkedMul_some hpnl).1,(checkedSub_some hper).1,
    (checkedSub_some hopen).1]

theorem addLots_some {lots : Int64} (h : addLots pos lots qty price = some pos') :
    pos' = { pos with avgPrice := (lots*pos.avgPrice+qty*price)/(lots+qty) } := by
  unfold addLots at h
  simp only [Option.bind_eq_bind,Option.bind_eq_some_iff] at h
  obtain ⟨held,hheld,added,hadded,total,htotal,size,hsize,avg,havg,h⟩ := h
  rw [← Option.some.inj h,(checkedDiv_some havg).1,(checkedAdd_some htotal).1,(checkedAdd_some hsize).1,
    (checkedMul_some hheld).1,(checkedMul_some hadded).1]

theorem buyFill_some (h : buyFill pos price qty = some pos') : pos' = AccountManager.buyFill pos price qty := by
  unfold buyFill at h
  simp only [Option.bind_eq_bind,Option.bind_eq_some_iff] at h
  obtain ⟨lots,hlots,net,hnet,h⟩ := h
  rw [← Option.some.inj h,(checkedAdd_some hnet).1]
  unfold buyLots at hlots
  unfold AccountManager.buyFill
  split_ifs at hlots ⊢
  · simp only [Option.bind_eq_bind,Option.bind_eq_some_iff] at hlots
    obtain ⟨short,hshort,hlots⟩ := hlots
    rw [closeLots_some hlots,(checkedNeg_some hshort).1]
  · rw [← Option.some.inj hlots]
  · rw [addLots_some hlots]

theorem sellFill_some (h : sellFill pos price qty = some pos') : pos' = AccountManager.sellFill pos price qty := by
  unfold sellFill at h
  simp only [Option.bind_eq_bind,Option.bind_eq_some_iff] at h
  obtain ⟨lots,hlots,net,hnet,h⟩ := h
  rw [← Option.some.inj h,(checkedSub_some hnet).1]
  unfold sellLots at hlots
  unfold AccountManager.sellFill
  split_ifs at hlots ⊢
  · rw [closeLots_some hlots]
  · rw [← Option.some.inj hlots]
  · simp only [Option.bind_eq_bind,Option.bind_eq_some_iff] at hlots
    obtain ⟨short,hshort,hlots⟩ := hlots
    rw [addLots_some hlots,(checkedNeg_some hshort).1]

theorem applyFill_some (h : applyFill m acct side price qty = some m') : m' = m.applyFill acct side price qty := by
  unfold applyFill at h
  unfold AccountManager.applyFill
  cases side with
  | buy =>
    obtain ⟨pos',hpos,h⟩ := Option.bind_eq_some_iff.mp h
    rw [← Option.some.inj h,buyFill_some hpos]
  | sell =>
    obtain ⟨pos',hpos,h⟩ := Option.bind_eq_some_iff.mp h
    rw [← Option.some.inj h,sellFill_some hpos]

end Accounts

/-! ### The book -/

section Book
variable {S : Type} [Slab S Order] {b b' : OrderBook S}
open OrderBook (Matching LoopStep)

theorem insertResting_some {o : Order} (h : insertResting b o = some b') : b' = b.insertResting o := by
  unfold insertResting at h
  simp only [Option.bind_eq_bind,Option.bind_eq_some_iff] at h
  obtain ⟨total,htotal,h⟩ := h
  rw [← Option.some.inj h,(checkedAdd_some htotal).1]
  rfl

theorem cancel_some {id : OrderId} {acct : AccountId} {r : OrderBook S × Bool} (h : cancel b id acct = some r) :
    r = b.cancel id acct := by
  unfold cancel at h
  unfold OrderBook.cancel
  cases hk : b.index[id]? with
  | none => rw [hk] at h; exact (Option.some.inj h).symm
  | some k =>
    rw [hk] at h
    cases hg : Slab.get b.orders k with
    | none => simp only [hg] at h ⊢; exact (Option.some.inj h).symm
    | some o =>
      simp only [hg] at h ⊢
      by_cases hacct : o.accountId ≠ acct
      · rw [if_pos hacct] at h ⊢; exact (Option.some.inj h).symm
      rw [if_neg hacct] at h ⊢
      cases hl : (b.levels o.side)[o.price]? with
      | none =>
        rw [hl] at h
        exact (Option.some.inj h).symm
      | some lvl =>
        simp only [hl,Option.bind_eq_bind,Option.bind_eq_some_iff] at h
        obtain ⟨total,htotal,levels,hlevels,h⟩ := h
        rw [← Option.some.inj h,← Option.some.inj hlevels,(checkedSub_some htotal).1]

variable {m m' : Matching S} {taker : OrderId} {limit : Price} {makers : Side}

theorem tradeWith_some {px : Price} {lvl : Level} {k : ℕ} {rest : List ℕ} {o : Order}
    (h : tradeWith taker makers m px lvl k rest o = some m') :
    m' = OrderBook.tradeWith taker makers m px lvl k rest o := by
  unfold tradeWith at h
  simp only [Option.bind_eq_bind,Option.bind_eq_some_iff] at h
  obtain ⟨left,hleft,takerQty,htaker,total,htotal,h⟩ := h
  rw [← Option.some.inj h,(checkedSub_some hleft).1,(checkedSub_some htaker).1,(checkedSub_some htotal).1]
  rfl

theorem matchStep_some {r : LoopStep S} (h : matchStep taker limit makers m = some r) :
    r = OrderBook.matchStep taker limit makers m := by
  unfold matchStep at h
  unfold OrderBook.matchStep
  by_cases hq : m.takerQty ≤ 0
  · rw [if_pos hq] at h ⊢; exact (Option.some.inj h).symm
  rw [if_neg hq] at h ⊢
  cases hpx : OrderBook.bestPrice makers (m.book.levels makers) with
  | none => simp only [hpx] at h ⊢; exact (Option.some.inj h).symm
  | some px =>
    simp only [hpx] at h ⊢
    by_cases hout : OrderBook.outside makers limit px = true
    · rw [if_pos hout] at h ⊢; exact (Option.some.inj h).symm
    rw [if_neg hout] at h ⊢
    cases hl : (m.book.levels makers)[px]? with
    | none => simp only [hl] at h ⊢; exact (Option.some.inj h).symm
    | some lvl =>
      simp only [hl] at h ⊢
      cases hpop : OrderBook.popLiveFront m.book.orders lvl.queue with
      | none => simp only [hpop] at h ⊢; exact (Option.some.inj h).symm
      | some kr =>
        obtain ⟨k,rest⟩ := kr
        simp only [hpop] at h ⊢
        cases hg : Slab.get m.book.orders k with
        | none => simp only [hg] at h ⊢; exact (Option.some.inj h).symm
        | some o =>
          simp only [hg,Option.map_eq_some_iff] at h ⊢
          obtain ⟨m',hm,rfl⟩ := h
          rw [tradeWith_some hm]

theorem matchLoop_some {n : ℕ} (h : matchLoop taker limit makers n m = some m') :
    m' = OrderBook.matchLoop taker limit makers n m := by
  induction n generalizing m with
  | zero => exact (Option.some.inj h).symm
  | succ n ih =>
    rw [matchLoop] at h
    simp only [Option.bind_eq_bind,Option.bind_eq_some_iff] at h
    obtain ⟨r,hr,h⟩ := h
    rw [OrderBook.matchLoop,← matchStep_some hr]
    cases r with
    | next m₁ => exact ih h
    | exit => exact (Option.some.inj h).symm
    | panic => exact (Option.some.inj h).symm

theorem matchTaker_some {side : Side} {qty : Qty} {r : OrderBook S × List MatchFill}
    (h : matchTaker b taker side limit qty = some r) : r = b.matchTaker taker side limit qty := by
  unfold matchTaker at h
  simp only [Option.bind_eq_bind,Option.bind_eq_some_iff] at h
  obtain ⟨m,hm,h⟩ := h
  rw [← Option.some.inj h,matchLoop_some hm]
  rfl

end Book

/-! ### The engine -/

section Engine
variable {S : Type} {e : Engine S} {no : NewOrder}

theorem emitFill_some {p p' : Engine S × List Event} {f : MatchFill} (h : emitFill no p f = some p') :
    p' = Engine.emitFill no p f := by
  unfold emitFill at h
  simp only [Option.bind_eq_bind,Option.bind_eq_some_iff] at h
  obtain ⟨m,hm,m',hm',h⟩ := h
  rw [← Option.some.inj h,applyFill_some hm',applyFill_some hm]
  rfl

theorem foldlM_emitFill_some {fs : List MatchFill} {p p' : Engine S × List Event}
    (h : fs.foldlM (emitFill no) p = some p') : p' = fs.foldl (Engine.emitFill no) p := by
  induction fs generalizing p with
  | nil => exact (Option.some.inj h).symm
  | cons f fs ih =>
    rw [List.foldlM_cons] at h
    obtain ⟨p₁,hp₁,h⟩ := Option.bind_eq_some_iff.mp h
    rw [List.foldl_cons,← emitFill_some hp₁]
    exact ih h

theorem checkedSum_some {xs : List Int64} {a c : Int64} (h : xs.foldlM checkedAdd a = some c) : c = a+xs.sum := by
  induction xs generalizing a with
  | nil => rw [← Option.some.inj h,List.sum_nil,add_zero]
  | cons x xs ih =>
    rw [List.foldlM_cons] at h
    obtain ⟨y,hy,h⟩ := Option.bind_eq_some_iff.mp h
    rw [ih h,(checkedAdd_some hy).1,List.sum_cons,add_assoc]

variable [Slab S Order]

theorem execute_some {p : Engine S × List Event} (h : execute e no = some p) : p = e.execute no := by
  unfold execute at h
  unfold Engine.execute
  by_cases hx : e.book.wouldCross no.side no.price = true
  · rw [if_pos hx] at h ⊢
    simp only [Option.bind_eq_bind,Option.bind_eq_some_iff] at h
    obtain ⟨m,hm,q,hq,filled,hfilled,rem,hrem,h⟩ := h
    have hsum : filled = (m.2.map MatchFill.qty).sum := by rw [checkedSum_some hfilled,zero_add]
    simp only [← matchTaker_some hm,← foldlM_emitFill_some hq,← hsum,← (checkedSub_some hrem).1]
    split_ifs at h ⊢
    · obtain ⟨b,hb,h⟩ := Option.bind_eq_some_iff.mp h
      rw [← Option.some.inj h,insertResting_some hb]
    · exact (Option.some.inj h).symm
  · rw [if_neg hx] at h ⊢
    split_ifs at h ⊢
    · obtain ⟨b,hb,h⟩ := Option.bind_eq_some_iff.mp h
      rw [← Option.some.inj h,insertResting_some hb]
    · exact (Option.some.inj h).symm

theorem handleNew_some {p : Engine S × List Event} (h : handleNew e no = some p) : p = e.handleNew no := by
  unfold handleNew at h
  unfold Engine.handleNew
  by_cases hv : no.symbolId ≠ e.book.symbolId ∨ no.qty ≤ 0
  · rw [if_pos hv] at h ⊢
    exact (Option.some.inj h).symm
  rw [if_neg hv] at h ⊢
  obtain ⟨r,hr,h⟩ := Option.bind_eq_some_iff.mp h
  rw [← checkRisk_some hr]
  cases r with
  | error reason => exact (Option.some.inj h).symm
  | ok u =>
    simp only at h ⊢
    split_ifs at h ⊢
    · exact (Option.some.inj h).symm
    · obtain ⟨q,hq,h⟩ := Option.bind_eq_some_iff.mp h
      rw [← Option.some.inj h,execute_some hq]

theorem handleCancel_some {c : Cancel} {p : Engine S × List Event} (h : handleCancel e c = some p) :
    p = e.handleCancel c := by
  unfold handleCancel at h
  unfold Engine.handleCancel
  by_cases hs : c.symbolId ≠ e.book.symbolId
  · rw [if_pos hs] at h ⊢
    exact (Option.some.inj h).symm
  rw [if_neg hs] at h ⊢
  obtain ⟨r,hr,h⟩ := Option.bind_eq_some_iff.mp h
  rw [← Option.some.inj h,cancel_some hr]

theorem handleReplace_some {r : Replace} {p : Engine S × List Event} (h : handleReplace e r = some p) :
    p = e.handleReplace r := by
  unfold handleReplace at h
  unfold Engine.handleReplace
  split_ifs at h ⊢ with hv
  · exact (Option.some.inj h).symm
  cases ho : e.book.get r.orderId with
  | none =>
    rw [ho] at h
    exact (Option.some.inj h).symm
  | some o =>
    simp only [ho] at h ⊢
    split_ifs at h ⊢ with hacct
    · exact (Option.some.inj h).symm
    · obtain ⟨b,hb,h⟩ := Option.bind_eq_some_iff.mp h
      rw [handleNew_some h,cancel_some hb]

/-- A command that overflows nowhere is processed as the release build does. -/
theorem process_some {cmd : Command} {p : Engine S × List Event} (h : process e cmd = some p) : p = e.process cmd := by
  cases cmd with
  | newOrder no => exact handleNew_some h
  | setRiskLimits srl => exact (Option.some.inj h).symm
  | queryAccount qa => exact (Option.some.inj h).symm
  | authenticate auth => exact (Option.some.inj h).symm
  | cancel c => exact handleCancel_some h
  | replace r => exact handleReplace_some h

end Engine

end Checked
end HighPerfTrading
