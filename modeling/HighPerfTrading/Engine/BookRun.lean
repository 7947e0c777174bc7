import HighPerfTrading.Engine.BookMatch

/-! Sequences of book operations. Two books with the same view return the same results and
show the same tops under every sequence of operations. -/
namespace HighPerfTrading
namespace OrderBook
variable {S T : Type} [Slab S Order] [Slab T Order] {b : OrderBook S} {c : OrderBook T}

inductive BookOp
  | insertResting (order : Order)
  | cancel (orderId : OrderId) (accountId : AccountId)
  | replace (orderId : OrderId) (accountId : AccountId) (newPrice : Price) (newQty : Qty)
  | matchTaker (takerOrderId : OrderId) (takerSide : Side) (takerPrice : Price) (takerQty : Qty)

/-- What an operation returns. -/
inductive BookOut
  | unit
  | ok (accepted : Bool)
  | fills (fs : List MatchFill)
  deriving DecidableEq

def apply (b : OrderBook S) : BookOp → OrderBook S × BookOut
  | .insertResting order => (b.insertResting order,.unit)
  | .cancel id acct => ((b.cancel id acct).1,.ok (b.cancel id acct).2)
  | .replace id acct px qty => ((b.replace id acct px qty).1,.ok (b.replace id acct px qty).2)
  | .matchTaker id side px qty =>
    ((b.matchTaker id side px qty).1,.fills (b.matchTaker id side px qty).2)

/-- What an operation does to the book and returns. A cancel or a replace that finds no order of the account does
nothing. -/
inductive Applied (b : OrderBook S) : BookOp → OrderBook S → BookOut → Prop
  | rested (order : Order) : Applied b (.insertResting order) (b.insertResting order) .unit
  | cancelled (id : OrderId) (o : Order) (ho : b.get id = some o) :
      Applied b (.cancel id o.accountId) (b.cancel id o.accountId).1 (.ok true)
  | notCancelled (id : OrderId) (acct : AccountId) (hno : ∀ o, b.get id = some o → o.accountId ≠ acct) :
      Applied b (.cancel id acct) b (.ok false)
  | replaced (id : OrderId) (o : Order) (px : Price) (qty : Qty) (ho : b.get id = some o) :
      Applied b (.replace id o.accountId px qty) (b.replace id o.accountId px qty).1 (.ok true)
  | notReplaced (id : OrderId) (acct : AccountId) (px : Price) (qty : Qty)
      (hno : ∀ o, b.get id = some o → o.accountId ≠ acct) : Applied b (.replace id acct px qty) b (.ok false)
  | matched (taker : OrderId) (side : Side) (limit : Price) (qty : Qty) :
      Applied b (.matchTaker taker side limit qty) (b.matchTaker taker side limit qty).1
        (.fills (b.matchTaker taker side limit qty).2)

theorem applied (b : OrderBook S) (op : BookOp) : Applied b op (b.apply op).1 (b.apply op).2 := by
  cases op with
  | insertResting order => exact .rested order
  | cancel id acct =>
    rcases owned_or_refused b id acct with ⟨o,ho,rfl⟩ | hno
    · have happlied := Applied.cancelled id o ho
      rwa [← cancel_accepted ho] at happlied
    · rw [apply,cancel_refused hno]
      exact .notCancelled id acct hno
  | replace id acct px qty =>
    rcases owned_or_refused b id acct with ⟨o,ho,rfl⟩ | hno
    · have happlied := Applied.replaced id o px qty ho
      have hok : (b.replace id o.accountId px qty).2 = true := congrArg Prod.snd (replace_accepted ho px qty)
      rwa [← hok] at happlied
    · rw [apply,replace_refused hno]
      exact .notReplaced id acct px qty hno
  | matchTaker taker side limit qty => exact .matched taker side limit qty

/-- Orders rest with a positive quantity and under an id that is not live. -/
def Legal (b : OrderBook S) : BookOp → Prop
  | .insertResting order => 0 < order.qtyRem ∧ b.get order.orderId = none
  | .replace _ _ _ newQty => 0 < newQty
  | _ => True

instance (b : OrderBook S) (op : BookOp) : Decidable (Legal b op) :=
  match op with
  | .insertResting _ => inferInstanceAs (Decidable (_ ∧ _))
  | .cancel _ _ => isTrue trivial
  | .replace _ _ _ newQty => inferInstanceAs (Decidable (0 < newQty))
  | .matchTaker _ _ _ _ => isTrue trivial

/-- Every operation of the sequence is legal when its turn comes. -/
def LegalRun (b : OrderBook S) : List BookOp → Prop
  | [] => True
  | op::ops => Legal b op ∧ LegalRun (b.apply op).1 ops

instance LegalRun.decidable (b : OrderBook S) : ∀ ops, Decidable (LegalRun b ops)
  | [] => inferInstanceAs (Decidable True)
  | op::ops => @instDecidableAnd _ _ _ (decidable (b.apply op).1 ops)

def runOps (b : OrderBook S) (ops : List BookOp) : OrderBook S := ops.foldl (fun b op => (b.apply op).1) b

@[simp] theorem runOps_cons (b : OrderBook S) (op : BookOp) (ops : List BookOp) :
    b.runOps (op::ops) = (b.apply op).1.runOps ops := rfl

theorem legalRun_append {xs ys : List BookOp} :
    LegalRun b (xs ++ ys) ↔ LegalRun b xs ∧ LegalRun (b.runOps xs) ys := by
  induction xs generalizing b with
  | nil => simp [LegalRun,runOps]
  | cons op xs ih => simp [LegalRun,ih,and_assoc]

/-- Books reached by legal operations, whatever quantities add up to. -/
inductive Reached (sym : SymbolId) : OrderBook S → Prop
  | new : Reached sym (OrderBook.new sym)
  | step {b : OrderBook S} (h : Reached sym b) (op : BookOp) (hl : Legal b op) :
      Reached sym (b.apply op).1

theorem Reached.run {sym : SymbolId} (h : Reached sym b) {ops : List BookOp} (hl : LegalRun b ops) :
    Reached sym (b.runOps ops) := by
  induction ops generalizing b with
  | nil => exact h
  | cons op ops ih => exact ih (h.step op hl.1) hl.2

theorem Wf.replace (hb : Wf b) {id : OrderId} {o : Order} (ho : b.get id = some o) (px : Price)
    {qty : Qty} (hq : 0 < qty) : Wf (b.replace id o.accountId px qty).1 := by
  have hid := (hb.get_live ho).1
  rw [replace_accepted ho]
  exact (hb.cancel ho).insertResting hq (by simp [get_cancel hb ho,hid])

theorem Wf.matchTaker (hb : Wf b) (taker : OrderId) (side : Side) (limit : Price) (qty : Qty) :
    ∃ left, Outcome taker limit side.opposite b qty (b.matchTaker taker side limit qty).2
      (b.matchTaker taker side limit qty).1 left := by
  obtain ⟨m',hrun,he⟩ := matchTaker_run b taker side limit qty
  obtain ⟨fs,hfs,ho⟩ := hrun.outcome hb
  rw [he]
  exact ⟨m'.takerQty,by simpa [hfs] using ho⟩

theorem Wf.apply (hb : Wf b) {op : BookOp} (hl : Legal b op) : Wf (b.apply op).1 := by
  have happlied := b.applied op
  generalize (b.apply op).1 = b',(b.apply op).2 = out at happlied ⊢
  cases happlied with
  | rested order => exact hb.insertResting hl.1 hl.2
  | cancelled id o ho => exact hb.cancel ho
  | notCancelled id acct hno => exact hb
  | replaced id o px qty ho => exact hb.replace ho px hl
  | notReplaced id acct px qty hno => exact hb
  | matched taker side limit qty =>
    obtain ⟨_,h⟩ := hb.matchTaker taker side limit qty
    exact h.wf

theorem Reached.wf {sym : SymbolId} (h : Reached sym b) : Wf b := by
  induction h with
  | new => exact Wf.new sym
  | step _ op hl ih => exact ih.apply hl

/-! ### Quantities -/

/-- The quantity that is live under an id. -/
def qtyUnder (b : OrderBook S) (id : OrderId) : ℤ := (b.get id).elim 0 fun o => o.qtyRem.toInt

theorem qtyUnder_some {id : OrderId} {o : Order} (h : b.get id = some o) : b.qtyUnder id = o.qtyRem.toInt := by
  rw [qtyUnder,h,Option.elim_some]

theorem qtyUnder_none {id : OrderId} (h : b.get id = none) : b.qtyUnder id = 0 := by rw [qtyUnder,h,Option.elim_none]

theorem qtyUnder_congr {c : OrderBook T} {id : OrderId} (h : b.get id = c.get id) : b.qtyUnder id = c.qtyUnder id := by
  rw [qtyUnder,qtyUnder,h]

/-- What the fills take from the maker under an id. -/
def madeQty (fs : List MatchFill) (id : OrderId) : ℤ :=
  (fs.map fun f => if f.makerOrderId = id then f.qty.toInt else 0).sum

def tradedQty (fs : List MatchFill) : ℤ := (fs.map fun f => f.qty.toInt).sum

@[simp] theorem madeQty_cons (f : MatchFill) (fs : List MatchFill) (id : OrderId) :
    madeQty (f::fs) id = (if f.makerOrderId = id then f.qty.toInt else 0)+madeQty fs id := by
  rw [madeQty,List.map_cons,List.sum_cons]; rfl

@[simp] theorem tradedQty_cons (f : MatchFill) (fs : List MatchFill) :
    tradedQty (f::fs) = f.qty.toInt+tradedQty fs := by
  rw [tradedQty,List.map_cons,List.sum_cons]; rfl

/-- What a trade leaves of the maker, exactly. -/
theorem afterTrade_qty {q : Qty} {o : Order} (hq : 0 < q) (ho : 0 < o.qtyRem) :
    o.qtyRem.toInt = ((afterTrade o (min q o.qtyRem)).elim 0 fun x => x.qtyRem.toInt)+(min q o.qtyRem).toInt := by
  obtain ⟨hpos,-,hle,-⟩ := min_qty hq ho
  have hsub := Int64.toInt_sub_of_le _ _ (Int64.le_of_lt hpos) hle
  unfold afterTrade
  split_ifs with hz
  · rw [Option.elim_none]
    rw [Int64.eq_zero_iff_toInt,hsub] at hz
    omega
  · rw [Option.elim_some,hsub]
    omega

/-- The quantities so far, when matching of `q` began with `b`. -/
structure Moved (b : OrderBook S) (q : Qty) (m : Matching S) : Prop where
  wf : Wf m.book
  left : m.takerQty = q-(m.fills.map MatchFill.qty).sum
  nonneg : 0 ≤ m.takerQty
  taker : q.toInt = m.takerQty.toInt+tradedQty m.fills
  makers : ∀ id, b.qtyUnder id = m.book.qtyUnder id+madeQty m.fills id

theorem Moved.pass {q : Qty} {m m' : Matching S} {taker : OrderId} {limit : Price} {makers : Side} (h : Moved b q m)
    (hp : Pass taker limit makers m m') : Moved b q m' := by
  cases hp with
  | drop px lvl hr hl hdead =>
    have hd := dropped h.wf hl
    refine ⟨hd.wf,h.left,h.nonneg,h.taker,fun id => ?_⟩
    rw [h.makers id,qtyUnder_congr (hd.get id)]
  | trade px lvl k rest o hr hl hk hfront hs =>
    have ht : Traded taker makers px _ o _ m _ := traded h.wf hl hk hs hr.qty
    have ho := (liveAt_eq_some.mp hk).2
    obtain ⟨hpos,hle,-⟩ := min_qty hr.qty ho
    have hsub := Int64.toInt_sub_of_le _ _ (Int64.le_of_lt hpos) hle
    refine ⟨ht.wf,?_,?_,?_,fun id => ?_⟩
    · rw [ht.qty,ht.fills,List.map_append,List.sum_append,h.left,List.map_cons,List.map_nil,List.sum_cons,
        List.sum_nil,add_zero,sub_sub]
    · rw [ht.qty,Int64.le_iff_toInt_le,hsub,Int64.toInt_zero]
      have := Int64.le_iff_toInt_le.mp hle
      omega
    · rw [ht.qty,hsub,ht.fills,tradedQty,List.map_append,List.sum_append,← tradedQty,h.taker]
      simp
    · rw [h.makers id,ht.fills,madeQty,madeQty,List.map_append,List.sum_append,qtyUnder,qtyUnder,ht.get]
      split_ifs with hid
      · subst hid
        have hget := h.wf.get_iff.mpr ⟨k,hk,rfl⟩
        rw [hget,Option.elim_some,afterTrade_qty hr.qty ho]
        simp
        omega
      · simp [Ne.symm hid]

/-- Matching moves what it takes from the taker out of the makers. -/
theorem Wf.moved (hb : Wf b) (taker : OrderId) (side : Side) (limit : Price) {qty : Qty} (hq : 0 ≤ qty) :
    ∃ left, Moved b qty ⟨(b.matchTaker taker side limit qty).1,left,(b.matchTaker taker side limit qty).2⟩ := by
  obtain ⟨m',hrun,he⟩ := matchTaker_run b taker side limit qty
  have hstart : Moved b qty ⟨b,qty,[]⟩ := ⟨hb,by simp,hq,by simp [tradedQty],by simp [madeQty]⟩
  rw [he]
  exact ⟨m'.takerQty,(hrun.keeps (fun _ _ => Moved.pass) hstart).1⟩

/-! ### Equal views -/

/-- The same levels, and the same live order behind every id. -/
structure SameView (b : OrderBook S) (c : OrderBook T) : Prop where
  level : ∀ s p, levelView b s p = levelView c s p
  get : ∀ id, b.get id = c.get id

theorem best_congr {makers : Side} (h : ∀ p, levelView b makers p = levelView c makers p) {px : Price} :
    Best b makers px ↔ Best c makers px := by
  simp only [Best,h]

theorem bestPrice_congr {makers : Side} (h : ∀ p, levelView b makers p = levelView c makers p) :
    bestPrice makers (b.levels makers) = bestPrice makers (c.levels makers) :=
  Option.ext fun px => by rw [bestPrice_iff,bestPrice_iff,best_congr h]

/-- The best price of a side with the total of its level. -/
def top (b : OrderBook S) : Side → Option (Price × Qty)
  | .buy => b.bestBid
  | .sell => b.bestAsk

theorem top_eq (s : Side) : b.top s = (bestPrice s (b.levels s)).bind fun px =>
    (levelView b s px).map fun v => (px,v.1) := by
  cases s with
  | buy =>
    simp only [top,bestBid,bestPrice,levels,levelView]
    cases h : OrdMap.last? b.bids with
    | none => rfl
    | some e => simp [(OrdMap.last?_eq_some h).1]
  | sell =>
    simp only [top,bestAsk,bestPrice,levels,levelView]
    cases h : OrdMap.first? b.asks with
    | none => rfl
    | some e => simp [(OrdMap.first?_eq_some h).1]

namespace SameView

theorem top (h : SameView b c) (s : Side) : b.top s = c.top s := by
  rw [top_eq,top_eq,bestPrice_congr (h.level s)]
  simp only [h.level s]

theorem legal (h : SameView b c) {op : BookOp} : Legal b op ↔ Legal c op := by
  cases op <;> simp [Legal,h.get]

theorem insertResting (h : SameView b c) (hb : Wf b) (hc : Wf c) {o : Order} (ho : 0 < o.qtyRem)
    (hid : b.get o.orderId = none) : SameView (b.insertResting o) (c.insertResting o) where
  level s p := by rw [levelView_insertResting hb ho,levelView_insertResting hc ho,h.level]
  get id := by rw [get_insertResting hb ho hid,get_insertResting hc ho (h.get _ ▸ hid),h.get]

theorem cancel (h : SameView b c) (hb : Wf b) (hc : Wf c) {id : OrderId} {o : Order}
    (ho : b.get id = some o) : SameView (b.cancel id o.accountId).1 (c.cancel id o.accountId).1 where
  level s p := by rw [levelView_cancel hb ho,levelView_cancel hc (h.get _ ▸ ho),h.level]
  get i := by rw [get_cancel hb ho,get_cancel hc (h.get _ ▸ ho),h.get]

variable {m m' : Matching S} {n n' : Matching T} {taker : OrderId} {limit : Price} {makers : Side}

theorem reaches (h : SameView m.book n.book) (hq : m.takerQty = n.takerQty) {px : Price} :
    Reaches m makers limit px ↔ Reaches n makers limit px := by
  constructor
  · exact fun hr => ⟨hq ▸ hr.qty,(best_congr (h.level makers)).mp hr.best,hr.within⟩
  · exact fun hr => ⟨hq ▸ hr.qty,(best_congr (h.level makers)).mpr hr.best,hr.within⟩

/-- Two loops started on the same view run in lockstep. -/
theorem run (hm : MatchRun taker limit makers m m') (hn : MatchRun taker limit makers n n')
    (hb : Wf m.book) (hc : Wf n.book) (h : SameView m.book n.book) (hq : m.takerQty = n.takerQty)
    (hf : m.fills = n.fills) : SameView m'.book n'.book ∧ m'.fills = n'.fills := by
  induction hm generalizing n with
  | @stop m hexit =>
    rcases matchStep_cases hb taker limit makers with ⟨_,hstuck⟩ | ⟨_,_,_,hnext,_⟩
    swap
    · exact absurd (hexit.symm.trans hnext) (by simp)
    cases hn with
    | stop _ => exact ⟨h,hf⟩
    | pass hnext _ =>
      rcases matchStep_cases hc taker limit makers with ⟨hexit',_⟩ | ⟨px,hr,_⟩
      · exact absurd (hnext.symm.trans hexit') (by simp)
      · exact absurd ((h.reaches hq).mpr hr) (hstuck px)
  | @pass m m₁ m₂ hnext tail ih =>
    rcases matchStep_cases hb taker limit makers with ⟨hexit,_⟩ | ⟨px,hr,x,hx,hcase⟩
    · exact absurd (hnext.symm.trans hexit) (by simp)
    obtain rfl : m₁ = x := by simpa using hnext.symm.trans hx
    have hr' := (h.reaches hq).mp hr
    cases hn with
    | stop hexit =>
      rcases matchStep_cases hc taker limit makers with ⟨_,hstuck⟩ | ⟨_,_,_,hnext',_⟩
      · exact absurd hr' (hstuck px)
      · exact absurd (hexit.symm.trans hnext') (by simp)
    | @pass _ n₁ _ hnext' tail' =>
      rcases matchStep_cases hc taker limit makers with ⟨hexit,_⟩ | ⟨py,hry,y,hy,hcase'⟩
      · exact absurd (hnext'.symm.trans hexit) (by simp)
      obtain rfl : n₁ = y := by simpa using hnext'.symm.trans hy
      obtain rfl := hr'.best.unique hry.best
      rcases hcase with ⟨t,hv,hd⟩ | ⟨t,o,os,hv,ht⟩
      · rcases hcase' with ⟨t',hv',hd'⟩ | ⟨t',o',os',hv',_⟩
        · refine ih tail' hd.wf hd'.wf ⟨fun s p => ?_,fun id => ?_⟩ ?_ ?_
          · rw [hd.view,hd'.view,h.level]
          · rw [hd.get,hd'.get,h.get]
          · rw [hd.qty,hd'.qty,hq]
          · rw [hd.fills,hd'.fills,hf]
        · exact absurd (hv.symm.trans ((h.level _ _).trans hv')) (by simp)
      · rcases hcase' with ⟨t',hv',_⟩ | ⟨t',o',os',hv',ht'⟩
        · exact absurd (hv.symm.trans ((h.level _ _).trans hv')) (by simp)
        · cases hv.symm.trans ((h.level _ _).trans hv')
          refine ih tail' ht.wf ht'.wf ⟨fun s p => ?_,fun id => ?_⟩ ?_ ?_
          · rw [ht.view,ht'.view,h.level,hq]
          · rw [ht.get,ht'.get,h.get,hq]
          · rw [ht.qty,ht'.qty,hq]
          · rw [ht.fills,ht'.fills,hf,hq]

theorem matchTaker (h : SameView b c) (hb : Wf b) (hc : Wf c) (taker : OrderId) (side : Side)
    (limit : Price) (qty : Qty) :
    SameView (b.matchTaker taker side limit qty).1 (c.matchTaker taker side limit qty).1 ∧
      (b.matchTaker taker side limit qty).2 = (c.matchTaker taker side limit qty).2 := by
  obtain ⟨m',hm,he⟩ := matchTaker_run b taker side limit qty
  obtain ⟨n',hn,he'⟩ := matchTaker_run c taker side limit qty
  rw [he,he']
  exact run hm hn hb hc h rfl rfl

/-- One operation on two books with the same view. -/
theorem apply (h : SameView b c) (hb : Wf b) (hc : Wf c) {op : BookOp} (hl : Legal b op) :
    SameView (b.apply op).1 (c.apply op).1 ∧ (b.apply op).2 = (c.apply op).2 := by
  cases op with
  | insertResting o => exact ⟨h.insertResting hb hc hl.1 hl.2,rfl⟩
  | cancel id acct =>
    rcases owned_or_refused b id acct with ⟨o,ho,rfl⟩ | hno
    · refine ⟨h.cancel hb hc ho,?_⟩
      rw [OrderBook.apply,OrderBook.apply,cancel_accepted ho,cancel_accepted (h.get _ ▸ ho)]
    · rw [OrderBook.apply,OrderBook.apply,cancel_refused hno,cancel_refused (by simpa [← h.get] using hno)]
      exact ⟨h,rfl⟩
  | replace id acct px qty =>
    rcases owned_or_refused b id acct with ⟨o,ho,rfl⟩ | hno
    · have ho' := h.get id ▸ ho
      rw [OrderBook.apply,OrderBook.apply,replace_accepted ho,replace_accepted ho']
      refine ⟨(h.cancel hb hc ho).insertResting (hb.cancel ho) (hc.cancel ho') hl ?_,rfl⟩
      simp [get_cancel hb ho,(hb.get_live ho).1]
    · rw [OrderBook.apply,OrderBook.apply,replace_refused hno,replace_refused (by simpa [← h.get] using hno)]
      exact ⟨h,rfl⟩
  | matchTaker taker side limit qty =>
    obtain ⟨hs,hf⟩ := h.matchTaker hb hc taker side limit qty
    exact ⟨hs,congrArg BookOut.fills hf⟩

end SameView

/-! ### Observations -/

/-- What a client sees of a sequence of operations: each result, and both tops after it. -/
def observe (b : OrderBook S) : List BookOp → List (BookOut × Option (Price × Qty) × Option (Price × Qty))
  | [] => []
  | op::ops => ((b.apply op).2,(b.apply op).1.bestBid,(b.apply op).1.bestAsk)::observe (b.apply op).1 ops

theorem SameView.observe (h : SameView b c) (hb : Wf b) (hc : Wf c) {ops : List BookOp}
    (hl : LegalRun b ops) : b.observe ops = c.observe ops := by
  induction ops generalizing b c with
  | nil => rfl
  | cons op ops ih =>
    obtain ⟨hop,hops⟩ := hl
    obtain ⟨hs,hout⟩ := h.apply hb hc hop
    have hbid : (b.apply op).1.bestBid = (c.apply op).1.bestBid := hs.top .buy
    have hask : (b.apply op).1.bestAsk = (c.apply op).1.bestAsk := hs.top .sell
    rw [OrderBook.observe,OrderBook.observe,hout,hbid,hask,
      ih hs (hb.apply hop) (hc.apply (h.legal.mp hop)) hops]

end OrderBook
end HighPerfTrading
