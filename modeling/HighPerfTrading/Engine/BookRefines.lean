import HighPerfTrading.Engine.BookInvariant
import HighPerfTrading.Engine.BookRun
import HighPerfTrading.Library.PriceTime

/-! The book against a price-time priority reference: under the admissible operations every
reachable book is a view of a reference book, and each operation is the reference's. -/
namespace HighPerfTrading
namespace OrderBook
variable {S : Type} [Slab S Order] {b : OrderBook S}

/-- A legal operation after which all live quantity sums below `2^63`. -/
def Admissible (b : OrderBook S) (op : BookOp) : Prop :=
  Legal b op ∧ liveQty (b.apply op).1 < 2^63

instance (b : OrderBook S) (op : BookOp) : Decidable (Admissible b op) :=
  inferInstanceAs (Decidable (_ ∧ _))

inductive Reachable (sym : SymbolId) : OrderBook S → Prop
  | new : Reachable sym (OrderBook.new sym)
  | step {b : OrderBook S} (h : Reachable sym b) (op : BookOp) (ha : Admissible b op) :
      Reachable sym (b.apply op).1

theorem Reachable.reached {sym : SymbolId} (h : Reachable sym b) : Reached sym b := by
  induction h with
  | new => exact .new
  | step _ op ha ih => exact ih.step op ha.1

/-- The reference book: FIFO queues of live orders by side and price. -/
abbrev RefBook := Side → PriceTime.Queues Price Order

namespace RefBook

def Rests (A : RefBook) (o : Order) : Prop := ∃ s p, o ∈ A s p

def rest (A : RefBook) (o : Order) : RefBook :=
  Function.update A o.side ((A o.side).append o.price o)

def remove (A : RefBook) (id : OrderId) : RefBook :=
  fun s => (A s).keep fun o => decide (o.orderId ≠ id)

/-- How the makers of a side are ranked, measured and shrunk by a trade. -/
def rules (makers : Side) : PriceTime.Rules Price Order where
  before := better makers
  qty o := o.qtyRem.toInt
  take o t := { o with qtyRem := o.qtyRem-Int64.ofInt t }

/-- The limit of a buyer is the most it pays, that of a seller the least it takes. -/
def Within (taker : Side) (limit p : Price) : Prop :=
  match taker with
  | .buy => p ≤ limit
  | .sell => limit ≤ p

def fill (taker : OrderId) (t : PriceTime.Trade Price Order) : MatchFill :=
  ⟨t.maker.orderId,t.maker.accountId,taker,t.price,Int64.ofInt t.qty⟩

/-- The naive reference for each operation. -/
inductive Step (A : RefBook) : BookOp → RefBook → BookOut → Prop
  | insertResting (o : Order) : Step A (.insertResting o) (A.rest o) .unit
  | cancelled {o : Order} (h : A.Rests o) :
      Step A (.cancel o.orderId o.accountId) (A.remove o.orderId) (.ok true)
  | cancelRefused {id : OrderId} {acct : AccountId}
      (h : ∀ o, A.Rests o → o.orderId = id → o.accountId ≠ acct) :
      Step A (.cancel id acct) A (.ok false)
  | replaced {o : Order} (h : A.Rests o) (px : Price) (qty : Qty) :
      Step A (.replace o.orderId o.accountId px qty)
        ((A.remove o.orderId).rest { o with price := px, qtyRem := qty }) (.ok true)
  | replaceRefused {id : OrderId} {acct : AccountId} (px : Price) (qty : Qty)
      (h : ∀ o, A.Rests o → o.orderId = id → o.accountId ≠ acct) :
      Step A (.replace id acct px qty) A (.ok false)
  | matched {taker : OrderId} {side : Side} {limit : Price} {qty : Qty}
      {ts : List (PriceTime.Trade Price Order)} {Q : PriceTime.Queues Price Order}
      (h : (rules side.opposite).Walk (Within side limit) (A side.opposite) qty.toInt ts Q) :
      Step A (.matchTaker taker side limit qty) (Function.update A side.opposite Q)
        (.fills (ts.map (fill taker)))

end RefBook

/-- The live orders of every queue, oldest first. -/
def abs (b : OrderBook S) : RefBook := fun s p => (levelView b s p).elim [] Prod.snd

namespace Inv

theorem abs_ne_nil (hb : Inv b) {s : Side} {p : Price} : b.abs s p ≠ [] ↔ levelView b s p ≠ none := by
  unfold abs
  cases h : levelView b s p with
  | none => simp
  | some v => simpa using (hb.total h).2

theorem rests_iff (hb : Inv b) {o : Order} : b.abs.Rests o ↔ b.get o.orderId = some o := by
  constructor
  · rintro ⟨s,p,h⟩
    unfold abs at h
    cases hv : levelView b s p with
    | none => simp [hv] at h
    | some v => exact (hb.toWf.level_orders hv (by simpa [hv] using h)).1
  · intro h
    obtain ⟨t,os,hv,hm⟩ := hb.reach h
    exact ⟨o.side,o.price,by simpa [abs,hv] using hm⟩

theorem abs_insertResting (hb : Inv b) {o : Order} (ho : 0 < o.qtyRem) :
    (b.insertResting o).abs = b.abs.rest o := by
  funext s p
  unfold abs RefBook.rest PriceTime.Queues.append
  rw [levelView_insertResting hb.toWf ho]
  by_cases hs : s = o.side
  · subst hs
    by_cases hp : p = o.price
    · subst hp
      cases h : levelView b o.side o.price <;> simp [h]
    · simp [hp]
  · simp [hs]

theorem abs_cancel (hb : Inv b) {id : OrderId} {o : Order} (ho : b.get id = some o) :
    (b.cancel id o.accountId).1.abs = b.abs.remove id := by
  have hid := (hb.toWf.get_live ho).1
  funext s p
  change (levelView _ s p).elim [] Prod.snd =
    ((levelView b s p).elim [] Prod.snd).filter fun x => decide (x.orderId ≠ id)
  rw [levelView_cancel hb.toWf ho]
  cases hv : levelView b s p with
  | none => simp
  | some v =>
    obtain ⟨t,os⟩ := v
    split_ifs with hsp
    · obtain ⟨rfl,rfl⟩ := hsp
      obtain ⟨t',os',hv',hm⟩ := hb.reach ho
      cases hv.symm.trans hv'
      have hpos := level_pos hv
      have hgone : t-o.qtyRem ≤ 0 ↔ os.filter (fun x => decide (x.orderId ≠ id)) = [] := by
        refine level_gone ?_ fun x hx => hpos x (List.mem_of_mem_filter hx)
        rw [hb.sound.level_sub hv (Int64.le_of_lt (hpos o hm)) (mem_le_sumQty hm hpos),← hid,
          sumQty_filter hm (hb.toWf.level_ids hv)]
      by_cases hz : t-o.qtyRem ≤ 0
      · simpa [hz] using (hgone.mp hz).symm
      · simp [hz]
    · refine (List.filter_eq_self.mpr fun x hx => ?_).symm
      obtain ⟨hx,hs,hp⟩ := hb.toWf.level_orders hv hx
      rw [decide_eq_true_eq]
      intro he
      refine hsp ?_
      obtain rfl := Option.some.inj (ho.symm.trans (he ▸ hx))
      exact ⟨hs.symm,hp.symm⟩

theorem abs_replace (hb : Inv b) {id : OrderId} {o : Order} (ho : b.get id = some o) {px : Price}
    {qty : Qty} (hq : 0 < qty) :
    (b.replace id o.accountId px qty).1.abs =
      (b.abs.remove id).rest { o with price := px, qtyRem := qty } := by
  rw [replace_accepted ho,(hb.cancel ho).abs_insertResting hq,hb.abs_cancel ho]

end Inv

/-! ### Matching as a walk -/

section Walk
open RefBook
variable {m m' : Matching S} {taker : OrderId} {side : Side} {limit px : Price}

theorem within_iff {p : Price} : Within side limit p ↔ outside side.opposite limit p = false := by
  cases side <;> simp [Within,outside,Side.opposite]

theorem Inv.isBest_iff (hb : Inv b) {makers : Side} {p : Price} :
    (rules makers).IsBest (b.abs makers) p ↔ Best b makers p := by
  unfold PriceTime.Rules.IsBest Best
  simp only [ne_eq,not_iff_not.mp hb.abs_ne_nil]
  rfl

/-- One trading pass updates the makers' queue at the best price as the reference does. -/
theorem Inv.abs_traded {total : Qty} {o : Order} {os : List Order} {makers : Side}
    (hb : Inv m.book) (hq : 0 < m.takerQty) (hv : levelView m.book makers px = some (total,o::os))
    (ht : Traded taker makers px total o os m m') :
    m'.book.abs = Function.update m.book.abs makers (Function.update (m.book.abs makers) px
      ((rules makers).leave o (min m.takerQty o.qtyRem).toInt os)) := by
  obtain ⟨_,_,hgone⟩ := hb.traded_level hq hv
  have hleave : (afterTrade o (min m.takerQty o.qtyRem)).toList ++ os =
      (rules makers).leave o (min m.takerQty o.qtyRem).toInt os := by
    have hz : o.qtyRem-min m.takerQty o.qtyRem = 0 ↔
        o.qtyRem.toInt = (min m.takerQty o.qtyRem).toInt := by
      rw [sub_eq_zero,Int64.toInt_inj]
    unfold afterTrade PriceTime.Rules.leave
    simp only [rules,← hz]
    split_ifs <;> simp
  funext s p
  unfold abs
  rw [ht.view]
  by_cases hs : s = makers
  · subst hs
    by_cases hp : p = px
    · subst hp
      rw [Function.update_self,Function.update_self,← hleave]
      simp only [and_self,if_true]
      split_ifs with hz
      · exact (hgone.mp hz).symm
      · rfl
    · simp [hp]
  · simp [hs]

/-- A run of the loop is a walk of the reference over the makers' side. -/
theorem Inv.walk (hb : Inv m.book) (h : MatchRun taker limit side.opposite m m') :
    ∃ ts Q, m'.fills = m.fills ++ ts.map (fill taker) ∧
      (rules side.opposite).Walk (Within side limit) (m.book.abs side.opposite) m.takerQty.toInt ts Q ∧
      m'.book.abs = Function.update m.book.abs side.opposite Q := by
  induction h with
  | @stop m h =>
    refine ⟨[],m.book.abs side.opposite,by simp,?_,by simp⟩
    rcases matchStep_cases hb.toWf taker limit side.opposite with ⟨_,hstuck⟩ | ⟨_,_,_,hnext,_⟩
    · by_cases hq : m.takerQty ≤ 0
      · exact .exhausted (Int64.nonpos_iff_toInt.mp hq)
      · exact .beyond fun p hp hw =>
          hstuck p ⟨Int64.not_le.mp hq,hb.isBest_iff.mp hp,within_iff.mp hw⟩
    · exact absurd (h.symm.trans hnext) (by simp)
  | @pass m m₁ m₂ h tail ih =>
    rcases matchStep_cases hb.toWf taker limit side.opposite with ⟨hexit,_⟩ | ⟨px,hr,m',hnext,hcase⟩
    · exact absurd (h.symm.trans hexit) (by simp)
    obtain rfl : m₁ = m' := by simpa using h.symm.trans hnext
    rcases hcase with ⟨total,hv,_⟩ | ⟨total,o,os,hv,ht⟩
    · exact (hb.no_drop hv).elim
    have ho := level_pos hv o (List.mem_cons_self ..)
    obtain ⟨hpos,hle,_,_,_⟩ := min_qty hr.qty ho
    have habs := hb.abs_traded hr.qty hv ht
    obtain ⟨ts,Q,hfs,hw,hQ⟩ := ih (hb.next h)
    refine ⟨⟨px,o,(min m.takerQty o.qtyRem).toInt⟩::ts,Q,?_,?_,?_⟩
    · rw [hfs,ht.fills,List.append_assoc]
      simp [fill]
    · rw [habs,Function.update_self,ht.qty,
        Int64.toInt_sub_of_le _ _ (Int64.le_of_lt hpos) hle] at hw
      rw [Int64.toInt_min] at hw ⊢
      exact .trade (Int64.pos_iff_toInt.mp hr.qty) (hb.isBest_iff.mpr hr.best)
        (within_iff.mpr hr.within) (by simp [abs,hv]) hw
    · rw [hQ,habs,Function.update_idem]

end Walk

/-! ### Refinement -/

theorem Inv.apply (hb : Inv b) {op : BookOp} (ha : Admissible b op) : Inv (b.apply op).1 := by
  obtain ⟨hop,hq⟩ := ha
  have happlied := b.applied op
  generalize (b.apply op).1 = b',(b.apply op).2 = out at happlied hq ⊢
  cases happlied with
  | rested order => exact hb.insertResting hop.1 hop.2 hq
  | cancelled id o ho => exact hb.cancel ho
  | notCancelled id acct hno => exact hb
  | replaced id o px qty ho => exact hb.replace ho hop hq
  | notReplaced id acct px qty hno => exact hb
  | matched taker side limit qty => exact hb.matchTaker taker side limit qty

theorem Reachable.inv {sym : SymbolId} (h : Reachable sym b) : Inv b := by
  induction h with
  | new => exact Inv.new sym
  | step _ op ha ih => exact ih.apply ha

theorem Inv.owner_iff (hb : Inv b) {id : OrderId} {acct : AccountId} :
    (∀ o, b.abs.Rests o → o.orderId = id → o.accountId ≠ acct) ↔
      ∀ o, b.get id = some o → o.accountId ≠ acct := by
  constructor
  · intro h o ho
    have hid := (hb.toWf.get_live ho).1
    exact h o (hb.rests_iff.mpr (hid ▸ ho)) hid
  · rintro h o ho rfl
    exact h o (hb.rests_iff.mp ho)

/-- The reference can do what the book did. -/
theorem Inv.simulates (hb : Inv b) {op : BookOp} (ha : Admissible b op) :
    RefBook.Step b.abs op (b.apply op).1.abs (b.apply op).2 := by
  obtain ⟨hop,_⟩ := ha
  cases op with
  | insertResting o =>
    rw [OrderBook.apply,hb.abs_insertResting hop.1]
    exact .insertResting o
  | cancel id acct =>
    rcases owned_or_refused b id acct with ⟨o,ho,rfl⟩ | hno
    · have hid := (hb.toWf.get_live ho).1
      rw [OrderBook.apply,hb.abs_cancel ho,cancel_accepted ho,← hid]
      exact .cancelled (hb.rests_iff.mpr (hid ▸ ho))
    · rw [OrderBook.apply,cancel_refused hno]
      exact .cancelRefused (hb.owner_iff.mpr hno)
  | replace id acct px qty =>
    rcases owned_or_refused b id acct with ⟨o,ho,rfl⟩ | hno
    · have hid := (hb.toWf.get_live ho).1
      rw [OrderBook.apply,hb.abs_replace ho hop,replace_accepted ho,← hid]
      exact .replaced (hb.rests_iff.mpr (hid ▸ ho)) px qty
    · rw [OrderBook.apply,replace_refused hno]
      exact .replaceRefused px qty (hb.owner_iff.mpr hno)
  | matchTaker taker side limit qty =>
    obtain ⟨m',hrun,he⟩ := matchTaker_run b taker side limit qty
    obtain ⟨ts,Q,hfs,hw,hQ⟩ := Inv.walk hb hrun
    rw [OrderBook.apply,he,hQ,hfs]
    exact .matched hw

/-- The reference can do nothing else. -/
theorem Inv.simulated (hb : Inv b) {op : BookOp} (ha : Admissible b op) {A : RefBook} {out : BookOut}
    (h : RefBook.Step b.abs op A out) : A = (b.apply op).1.abs ∧ out = (b.apply op).2 := by
  obtain ⟨hop,_⟩ := ha
  cases h with
  | insertResting o => exact ⟨(hb.abs_insertResting hop.1).symm,rfl⟩
  | cancelled h =>
    have ho := hb.rests_iff.mp h
    rw [OrderBook.apply,hb.abs_cancel ho,cancel_accepted ho]
    exact ⟨rfl,rfl⟩
  | cancelRefused h =>
    rw [OrderBook.apply,cancel_refused (hb.owner_iff.mp h)]
    exact ⟨rfl,rfl⟩
  | replaced h px qty =>
    have ho := hb.rests_iff.mp h
    rw [OrderBook.apply,hb.abs_replace ho hop,replace_accepted ho]
    exact ⟨rfl,rfl⟩
  | replaceRefused px qty h =>
    rw [OrderBook.apply,replace_refused (hb.owner_iff.mp h)]
    exact ⟨rfl,rfl⟩
  | @matched taker side limit qty ts Q h =>
    obtain ⟨m',hrun,he⟩ := matchTaker_run b taker side limit qty
    obtain ⟨us,R,hfs,hw,hQ⟩ := Inv.walk hb hrun
    obtain ⟨rfl,rfl⟩ := PriceTime.Rules.Walk.deterministic (fun _ _ => better_antisymm) h hw
    rw [OrderBook.apply,he,hQ,hfs]
    exact ⟨rfl,rfl⟩

/-- Every operation admissible on a reachable book is exactly the reference's operation on
the live queues, with the same results and the same fills. -/
theorem Reachable.refines_reference {sym : SymbolId} (h : Reachable sym b) {op : BookOp} (ha : Admissible b op)
    (A : RefBook) (out : BookOut) :
    RefBook.Step b.abs op A out ↔ A = (b.apply op).1.abs ∧ out = (b.apply op).2 := by
  constructor
  · exact h.inv.simulated ha
  · rintro ⟨rfl,rfl⟩
    exact h.inv.simulates ha

/-- A resting ask of five lots loses two to a taker and stays. -/
theorem refines_reference_partial :
    let b := ((new 1 : OrderBook (FreeListSlab Order)).apply
      (.insertResting ⟨1,7,1,.sell,100,5,.gtc,⟨false⟩⟩)).1
    RefBook.Step b.abs (.matchTaker 2 .buy 100 2) (b.apply (.matchTaker 2 .buy 100 2)).1.abs
      (.fills [⟨1,7,2,100,2⟩]) :=
  ((Reachable.new.step (.insertResting ⟨1,7,1,.sell,100,5,.gtc,⟨false⟩⟩)
    (by decide +kernel)).refines_reference (by decide +kernel) _ _).mpr ⟨rfl,by decide +kernel⟩

end OrderBook
end HighPerfTrading
