import HighPerfTrading.Engine.BookRun
import HighPerfTrading.Engine.EngineSpec

/-! What one command does to the live orders, with the events it emits: one case for every
outcome. -/
namespace HighPerfTrading
namespace Engine
variable {S : Type} [Slab S Order] {b : OrderBook S} {no : NewOrder}
open OrderBook

/-! ### An accepted order -/

/-- An order that does not cross stops the matching loop at once. -/
theorem matchStep_of_not_cross (h : ¬ b.wouldCross no.side no.price = true) :
    matchStep no.orderId no.price no.side.opposite ⟨b,no.qty,[]⟩ = .exit := by
  have hout : ∀ p, bestPrice no.side.opposite (b.levels no.side.opposite) = some p →
      outside no.side.opposite no.price p = true := by
    intro p hp
    cases hs : no.side with
    | buy =>
      simp only [hs,Side.opposite,bestPrice,levels] at hp ⊢
      obtain ⟨e,he,rfl⟩ := Option.map_eq_some_iff.mp hp
      simpa [hs,wouldCross,bestAsk,he,outside] using h
    | sell =>
      simp only [hs,Side.opposite,bestPrice,levels] at hp ⊢
      obtain ⟨e,he,rfl⟩ := Option.map_eq_some_iff.mp hp
      simpa [hs,wouldCross,bestBid,he,outside] using h
  unfold matchStep
  split_ifs with hq
  · rfl
  cases hp : bestPrice no.side.opposite (b.levels no.side.opposite) with
  | none => rfl
  | some p => simp only [hout p hp,if_true]

theorem matchTaker_of_not_cross (h : ¬ b.wouldCross no.side no.price = true) :
    b.matchTaker no.orderId no.side no.price no.qty = (b,[]) := by
  unfold matchTaker
  simp only [matchLoop_exit (matchStep_of_not_cross h)]

theorem matched_eq (b : OrderBook S) (no : NewOrder) :
    (matched b no,fillsOf b no) = b.matchTaker no.orderId no.side no.price no.qty := by
  unfold matched fillsOf
  split_ifs with h
  · rfl
  · rw [matchTaker_of_not_cross h]

/-- The remainder of an order that may not rest. -/
def discarded (no : NewOrder) (fs : List MatchFill) : ℤ :=
  if no.tif = .gtc then 0 else (no.qty-(fs.map MatchFill.qty).sum).toInt

/-- What an accepted order does to the live orders: those it trades with shrink, the others
stay, and its remainder rests if it is good till cancelled. -/
structure Placed (b : OrderBook S) (no : NewOrder) (b' : OrderBook S) (fs : List MatchFill) : Prop where
  wf : Wf b'
  symbol : b'.symbolId = b.symbolId
  keeps : ∀ id, id ≠ no.orderId → (∀ f ∈ fs, f.makerOrderId ≠ id) → b'.get id = b.get id
  shrinks : ∀ id o', id ≠ no.orderId → b'.get id = some o' →
    ∃ o, b.get id = some o ∧ o' = { o with qtyRem := o'.qtyRem } ∧ o'.qtyRem ≤ o.qtyRem
  own : ∀ o', b'.get no.orderId = some o' → no.tif = .gtc ∧ ∃ q, o' = resting no q ∧ 0 < q ∧ q ≤ no.qty
  rests : fs = [] → no.tif = .gtc → b'.get no.orderId = some (resting no no.qty)
  maker : ∀ f ∈ fs, f.takerOrderId = no.orderId ∧ ∃ o, b.get f.makerOrderId = some o ∧
    o.accountId = f.makerAccountId ∧ o.side = no.side.opposite
  trades : (∃ px total o os, levelView b no.side.opposite px = some (total,o::os) ∧
    outside no.side.opposite no.price px = false) → fs ≠ []
  priced : ∀ f ∈ fs, 0 < f.qty ∧ outside no.side.opposite no.price f.price = false ∧
    ∃ o, b.get f.makerOrderId = some o ∧ o.price = f.price
  made : ∀ id, id ≠ no.orderId → b.qtyUnder id = b'.qtyUnder id+madeQty fs id
  taken : no.qty.toInt = tradedQty fs+b'.qtyUnder no.orderId+discarded no fs
  excess : 0 ≤ discarded no fs

/-- The book after an accepted order that may rest only under a free id. -/
theorem wf_newBook (hb : Wf b) (hid : no.tif = .gtc → b.get no.orderId = none) : Wf (newBook b no) := by
  obtain ⟨left,ho⟩ := hb.matchTaker no.orderId no.side no.price no.qty
  rw [← matched_eq] at ho
  unfold newBook
  split_ifs with hrest
  · refine ho.wf.insertResting hrest.1 ?_
    have hnone := hid hrest.2
    refine (ho.keeps _ fun f hf he => ?_).trans hnone
    obtain ⟨_,_,_,o,hget,_⟩ := ho.maker f hf
    rw [he] at hget
    exact absurd (hget.symm.trans hnone) (by simp)
  · exact ho.wf

theorem placed_newBook (hb : Wf b) (hid : b.get no.orderId = none) (hq : 0 < no.qty) :
    Placed b no (newBook b no) (fillsOf b no) := by
  obtain ⟨left,hrun⟩ := hb.matchTaker no.orderId no.side no.price no.qty
  rw [← matched_eq] at hrun
  have ho : Outcome no.orderId no.price no.side.opposite b no.qty (fillsOf b no) (matched b no) left := hrun
  have hleft : remainder b no = left := ho.left.symm
  have hnone : (matched b no).get no.orderId = none := by
    rw [ho.keeps _ ?_,hid]
    intro f hf he
    obtain ⟨_,_,_,o,hget,_⟩ := ho.maker f hf
    rw [he,hid] at hget
    cases hget
  have hmaker : ∀ f ∈ fillsOf b no, f.takerOrderId = no.orderId ∧ ∃ o, b.get f.makerOrderId = some o ∧
      o.accountId = f.makerAccountId ∧ o.side = no.side.opposite := by
    intro f hf
    obtain ⟨ht,_,_,o,hget,ha,hs,_⟩ := ho.maker f hf
    exact ⟨ht,o,hget,ha,hs⟩
  have hpriced : ∀ f ∈ fillsOf b no, 0 < f.qty ∧ outside no.side.opposite no.price f.price = false ∧
      ∃ o, b.get f.makerOrderId = some o ∧ o.price = f.price := by
    intro f hf
    obtain ⟨_,hpos,hin,o,hget,_,_,hp⟩ := ho.maker f hf
    exact ⟨hpos,hin,o,hget,hp⟩
  obtain ⟨left',hmoved⟩ := hb.moved no.orderId no.side no.price (Int64.le_of_lt hq)
  rw [← matched_eq] at hmoved
  obtain rfl : left = left' := ho.left.trans hmoved.left.symm
  have htaken : no.qty.toInt = left.toInt+tradedQty (fillsOf b no) := hmoved.taker
  have hleft0 : 0 ≤ left.toInt := Int64.le_iff_toInt_le.mp hmoved.nonneg
  have hexcess : 0 ≤ discarded no (fillsOf b no) := by
    rw [discarded,← ho.left]
    split_ifs
    · exact le_refl 0
    · exact hleft0
  have hwf := wf_newBook hb fun _ => hid
  unfold newBook at hwf ⊢
  rw [hleft] at hwf ⊢
  split_ifs at hwf ⊢ with hrest
  · have hget := get_insertResting ho.wf (o := resting no left) hrest.1 hnone
    have hown : ((matched b no).insertResting (resting no left)).get no.orderId = some (resting no left) :=
      (hget no.orderId).trans (if_pos rfl)
    have hother : ∀ id, id ≠ no.orderId → ((matched b no).insertResting (resting no left)).get id =
        (matched b no).get id := by
      intro id hne
      rw [hget,if_neg]
      exact hne
    refine ⟨hwf,?_,?_,?_,?_,?_,hmaker,ho.trades hq,hpriced,?_,?_,hexcess⟩
    · rw [← ho.symbol]; simp [insertResting]
    · intro id hne hf
      rw [hother id hne,ho.keeps id hf]
    · intro id o' hne hg
      rw [hother id hne] at hg
      exact ho.shrinks id o' hg
    · intro o' hg
      rw [hown] at hg
      exact ⟨hrest.2,left,(Option.some.inj hg).symm,hrest.1,ho.le⟩
    · intro hnil _
      have hfull : left = no.qty := by
        have hl := ho.left
        rw [hnil] at hl
        simpa using hl
      rw [hown,hfull]
    · intro id hne
      rw [hmoved.makers id,qtyUnder_congr (hother id hne)]
    · rw [qtyUnder_some hown,discarded,if_pos hrest.2,htaken]
      simp only [resting]
      omega
  · refine ⟨hwf,ho.symbol,fun id _ hf => ho.keeps id hf,fun id o' _ hg => ho.shrinks id o' hg,?_,?_,hmaker,
      ho.trades hq,hpriced,fun id _ => hmoved.makers id,?_,hexcess⟩
    · intro o' hg
      rw [hnone] at hg
      cases hg
    · intro hnil htif
      have hl := ho.left
      rw [hnil] at hl
      refine absurd ⟨?_,htif⟩ hrest
      rw [hl]
      simpa using hq
    · have hzero : no.tif = .gtc → left.toInt = 0 := by
        intro htif
        have hle : left ≤ 0 := Int64.not_lt.mp fun hpos => hrest ⟨hpos,htif⟩
        exact le_antisymm (Int64.nonpos_iff_toInt.mp hle) hleft0
      rw [qtyUnder_none hnone,discarded,← ho.left,htaken]
      split_ifs with htif
      · rw [hzero htif]; omega
      · omega

theorem symbolId_matched (hb : Wf b) (no : NewOrder) : (matched b no).symbolId = b.symbolId := by
  obtain ⟨_,ho⟩ := hb.matchTaker no.orderId no.side no.price no.qty
  rw [← matched_eq] at ho
  exact ho.symbol

/-! ### One command -/

/-- The events of an accepted order. -/
def acceptedEvents (e : Engine S) (no : NewOrder) (fs : List MatchFill) (t : BookTop) (seq : UInt64) : List Event :=
  fillEvents no e.book.symbolId e.serverSeq fs ++ [.bookTop t,.ack ⟨seq,no.clientSeq,no.orderId⟩]

/-- The outcomes of a command that names an order: refused; placed; cancelled; or, for a
replacement, the old order lost with the new one refused, or replaced by it. -/
inductive Effect (e e' : Engine S) (evs : List Event) : Command → Prop
  | refused {cmd : Command} (r : Reject) (hid : r.orderId = commandOrderId cmd) (hev : evs = [.reject r])
      (hb : e'.book = e.book) (ha : e'.accountManager = e.accountManager) : Effect e e' evs cmd
  | placed {no : NewOrder} (fs : List MatchFill) (t : BookTop) (seq : UInt64) (hr : e.refusal no = none)
      (hp : Placed e.book no e'.book fs) (ha : e'.accountManager = settle e.accountManager no fs)
      (hev : evs = e.acceptedEvents no fs t seq) : Effect e e' evs (.newOrder no)
  | cancelled {c : Cancel} (o : Order) (a : Ack) (t : BookTop) (ho : e.book.get c.orderId = some o)
      (hacct : o.accountId = c.accountId) (hb : e'.book = (e.book.cancel c.orderId o.accountId).1)
      (ha : e'.accountManager = e.accountManager) (hid : a.orderId = c.orderId)
      (hev : evs = [.bookTop t,.ack a]) : Effect e e' evs (.cancel c)
  | lost {r : Replace} (o : Order) (rej : Reject) (ho : e.book.get r.orderId = some o)
      (hacct : o.accountId = r.accountId) (hb : e'.book = (e.book.cancel r.orderId o.accountId).1)
      (ha : e'.accountManager = e.accountManager) (hid : rej.orderId = some r.orderId)
      (hev : evs = [.reject rej]) : Effect e e' evs (.replace r)
  | replaced {r : Replace} (o : Order) (fs : List MatchFill) (t : BookTop) (seq : UInt64)
      (ho : e.book.get r.orderId = some o) (hacct : o.accountId = r.accountId)
      (hp : Placed (e.book.cancel r.orderId o.accountId).1 (replacement r o) e'.book fs)
      (ha : e'.accountManager = settle e.accountManager (replacement r o) fs)
      (hev : evs = e.acceptedEvents (replacement r o) fs t seq) : Effect e e' evs (.replace r)

/-! ### What the outcomes have in common -/

section Common
variable {e e' : Engine S} {evs : List Event} {cmd : Command}

theorem Effect.wf (h : Effect e e' evs cmd) (he : Wf e.book) : Wf e'.book := by
  cases h with
  | refused r hid hev hb ha => rw [hb]; exact he
  | placed fs t seq hr hp ha hev => exact hp.wf
  | cancelled o a t ho hacct hb ha hid hev => rw [hb]; exact he.cancel ho
  | lost o rej ho hacct hb ha hid hev => rw [hb]; exact he.cancel ho
  | replaced o fs t seq ho hacct hp ha hev => exact hp.wf

theorem Effect.symbolId (h : Effect e e' evs cmd) : e'.book.symbolId = e.book.symbolId := by
  cases h with
  | refused r hid hev hb ha => rw [hb]
  | placed fs t seq hr hp ha hev => exact hp.symbol
  | cancelled o a t ho hacct hb ha hid hev => rw [hb,symbolId_cancel]
  | lost o rej ho hacct hb ha hid hev => rw [hb,symbolId_cancel]
  | replaced o fs t seq ho hacct hp ha hev => rw [hp.symbol,symbolId_cancel]

/-- Where a live order comes from: it was live with at least as much, or it is what rests of the
order or of the replacement that was processed. -/
inductive Origin (b : OrderBook S) (cmd : Command) (id : OrderId) (o' : Order) : Prop
  | stays (o : Order) (ho : b.get id = some o) (ho' : o' = { o with qtyRem := o'.qtyRem })
      (hle : o'.qtyRem ≤ o.qtyRem) : Origin b cmd id o'
  | rests (no : NewOrder) (q : Qty) (hcmd : cmd = .newOrder no) (hid : no.orderId = id) (htif : no.tif = .gtc)
      (ho' : o' = resting no q) (hq : 0 < q) (hle : q ≤ no.qty) : Origin b cmd id o'
  | replaces (r : Replace) (o : Order) (q : Qty) (hcmd : cmd = .replace r) (hid : r.orderId = id)
      (ho : b.get id = some o) (hacct : o.accountId = r.accountId) (htif : o.tif = .gtc)
      (ho' : o' = resting (replacement r o) q) (hq : 0 < q) (hle : q ≤ r.newQty) : Origin b cmd id o'

theorem get_of_cancel {b : OrderBook S} (hb : Wf b) {id i : OrderId} {o o' : Order} (ho : b.get id = some o)
    (h : (b.cancel id o.accountId).1.get i = some o') : i ≠ id ∧ b.get i = some o' := by
  rw [get_cancel hb ho] at h
  split_ifs at h with hi
  exact ⟨hi,h⟩

theorem Effect.origin (h : Effect e e' evs cmd) (he : Wf e.book) {id : OrderId} {o' : Order}
    (hg : e'.book.get id = some o') : Origin e.book cmd id o' := by
  cases h with
  | refused r hid hev hb ha =>
    rw [hb] at hg
    exact .stays o' hg rfl (Int64.le_refl _)
  | @placed no fs t seq hr hp ha hev =>
    by_cases hid : id = no.orderId
    · subst hid
      obtain ⟨htif,q,ho',hq,hle⟩ := hp.own o' hg
      exact .rests no q rfl rfl htif ho' hq hle
    · obtain ⟨o,ho,ho',hle⟩ := hp.shrinks id o' hid hg
      exact .stays o ho ho' hle
  | cancelled o a t ho hacct hb ha hid hev =>
    rw [hb] at hg
    exact .stays o' (get_of_cancel he ho hg).2 rfl (Int64.le_refl _)
  | lost o rej ho hacct hb ha hid hev =>
    rw [hb] at hg
    exact .stays o' (get_of_cancel he ho hg).2 rfl (Int64.le_refl _)
  | @replaced r o fs t seq ho hacct hp ha hev =>
    by_cases hid : id = r.orderId
    · subst hid
      obtain ⟨htif,q,ho',hq,hle⟩ := hp.own o' hg
      exact .replaces r o q rfl rfl ho hacct htif ho' hq hle
    · obtain ⟨x,hx,ho',hle⟩ := hp.shrinks id o' hid hg
      exact .stays x (get_of_cancel he ho hx).2 ho' hle

/-- The order that trades when a command is processed. -/
inductive Taker (b : OrderBook S) (cmd : Command) : NewOrder → Prop
  | order {no : NewOrder} (hcmd : cmd = .newOrder no) : Taker b cmd no
  | replacement {r : Replace} {o : Order} (hcmd : cmd = .replace r) (ho : b.get r.orderId = some o)
      (hacct : o.accountId = r.accountId) : Taker b cmd (replacement r o)

omit [Slab S Order] in
theorem mem_acceptedEvents {no : NewOrder} {fs : List MatchFill} {t : BookTop} {seq : UInt64} {f : Fill}
    (h : Event.fill f ∈ e.acceptedEvents no fs t seq) : ∃ g ∈ fs, ∃ n,
      f = ⟨n,no.clientSeq,e.book.symbolId,g.takerOrderId,g.makerOrderId,g.price,g.qty⟩ := by
  rcases List.mem_append.mp h with h | h
  · obtain ⟨n,g,hg,he⟩ := mem_fillEvents h
    exact ⟨g,hg,n,Event.fill.inj he⟩
  · simp at h

theorem Effect.fill_symbol (h : Effect e e' evs cmd) {f : Fill} (hf : .fill f ∈ evs) :
    f.symbolId = e.book.symbolId := by
  cases h with
  | refused r hid' hev hb ha => rw [hev] at hf; simp at hf
  | cancelled o a t ho hacct hb ha hid' hev => rw [hev] at hf; simp at hf
  | lost o rej ho hacct hb ha hid' hev => rw [hev] at hf; simp at hf
  | placed fs t seq hr hp ha hev =>
    rw [hev] at hf
    obtain ⟨g,-,n,rfl⟩ := mem_acceptedEvents hf
    rfl
  | replaced o fs t seq ho hacct hp ha hev =>
    rw [hev] at hf
    obtain ⟨g,-,n,rfl⟩ := mem_acceptedEvents hf
    rfl

/-- The two orders of a fill: the one that is processed and a live one of the other side. -/
theorem Effect.fill (h : Effect e e' evs cmd) (he : Wf e.book)
    (hid : ∀ no, cmd = .newOrder no → e.book.get no.orderId = none) {f : Fill} (hf : Event.fill f ∈ evs) :
    ∃ taker m, Taker e.book cmd taker ∧ f.takerOrderId = taker.orderId ∧
      e.book.get f.makerOrderId = some m ∧ m.side = taker.side.opposite ∧ f.makerOrderId ≠ f.takerOrderId := by
  cases h with
  | refused r hid' hev hb ha => rw [hev] at hf; simp at hf
  | cancelled o a t ho hacct hb ha hid' hev => rw [hev] at hf; simp at hf
  | lost o rej ho hacct hb ha hid' hev => rw [hev] at hf; simp at hf
  | @placed no fs t seq hr hp ha hev =>
    rw [hev] at hf
    obtain ⟨g,hg,n,rfl⟩ := mem_acceptedEvents hf
    obtain ⟨hgt,m,hget,-,hside⟩ := hp.maker g hg
    refine ⟨no,m,.order rfl,hgt,hget,hside,fun heq => ?_⟩
    simp only [hgt] at heq
    rw [heq,hid no rfl] at hget
    cases hget
  | @replaced r o fs t seq ho hacct hp ha hev =>
    rw [hev] at hf
    obtain ⟨g,hg,n,rfl⟩ := mem_acceptedEvents hf
    obtain ⟨hgt,m,hget,-,hside⟩ := hp.maker g hg
    obtain ⟨hne,hget'⟩ := get_of_cancel he ho hget
    refine ⟨replacement r o,m,.replacement rfl ho hacct,hgt,hget',hside,fun heq => hne ?_⟩
    simp only [hgt] at heq
    exact heq

/-! ### What becomes of the order that a command names -/

/-- The order is named by a rejection, or by a fill as the taker. -/
inductive Reports (id : OrderId) (evs : List Event) : Prop
  | reject (r : Reject) (hr : .reject r ∈ evs) (hid : r.orderId = some id) : Reports id evs
  | fill (f : Fill) (hf : .fill f ∈ evs) (hid : f.takerOrderId = id) : Reports id evs

/-- A live maker within the limit is queued in a level. -/
def Crosses (b : OrderBook S) (no : NewOrder) : Prop :=
  ∃ px total o os, levelView b no.side.opposite px = some (total,o::os) ∧ outside no.side.opposite no.price px = false

omit [Slab S Order] in
theorem exists_fill (e : Engine S) (no : NewOrder) {fs : List MatchFill} (t : BookTop) (seq : UInt64) {g : MatchFill}
    (hg : g ∈ fs) :
    ∃ f, .fill f ∈ e.acceptedEvents no fs t seq ∧ f.takerOrderId = g.takerOrderId ∧
      f.makerOrderId = g.makerOrderId := by
  obtain ⟨n,hn⟩ := exists_fillEvent no e.book.symbolId e.serverSeq hg
  exact ⟨_,List.mem_append_left _ hn,rfl,rfl⟩

/-- An accepted order trades, or all of it rests, unless it is immediate-or-cancel with nothing to
trade with. -/
theorem Placed.outcome {b b' : OrderBook S} {no : NewOrder} {fs : List MatchFill} (h : Placed b no b' fs)
    (t : BookTop) (seq : UInt64) : Reports no.orderId (e.acceptedEvents no fs t seq) ∨
      b'.get no.orderId = some (resting no no.qty) ∨ (no.tif = .ioc ∧ ¬ Crosses b no) := by
  cases hfs : fs with
  | cons f fs' =>
    have hf : f ∈ fs := hfs ▸ List.mem_cons_self ..
    obtain ⟨x,hx,htaker,-⟩ := exists_fill e no t seq hf
    rw [hfs] at hx
    exact Or.inl (.fill x hx (htaker.trans (h.maker f hf).1))
  | nil =>
    right
    cases htif : no.tif with
    | gtc => exact Or.inl (h.rests hfs htif)
    | ioc => exact Or.inr ⟨rfl,fun hc => h.trades hc hfs⟩

theorem Effect.order {no : NewOrder} (h : Effect e e' evs (.newOrder no)) : Reports no.orderId evs ∨
    e'.book.get no.orderId = some (resting no no.qty) ∨
      (no.tif = .ioc ∧ e.refusal no = none ∧ ¬ Crosses e.book no) := by
  cases h with
  | refused r hid hev hb ha => exact Or.inl (.reject r (by rw [hev]; exact List.mem_singleton_self _) hid)
  | placed fs t seq hr hp ha hev =>
    rw [hev]
    rcases hp.outcome (e := e) t seq with h | h | ⟨htif,hc⟩
    · exact Or.inl h
    · exact Or.inr (Or.inl h)
    · exact Or.inr (Or.inr ⟨htif,hr,hc⟩)

theorem Effect.replacement {r : Replace} (h : Effect e e' evs (.replace r))
    (htif : ∀ o, e.book.get r.orderId = some o → o.tif = .gtc) : Reports r.orderId evs ∨
    ∃ o, e.book.get r.orderId = some o ∧ o.accountId = r.accountId ∧
      e'.book.get r.orderId = some (resting (Engine.replacement r o) r.newQty) := by
  cases h with
  | refused rej hid hev hb ha => exact Or.inl (.reject rej (by rw [hev]; exact List.mem_singleton_self _) hid)
  | lost o rej ho hacct hb ha hid hev =>
    exact Or.inl (.reject rej (by rw [hev]; exact List.mem_singleton_self _) hid)
  | replaced o fs t seq ho hacct hp ha hev =>
    rw [hev]
    rcases hp.outcome (e := e) t seq with h | h | ⟨hioc,-⟩
    · exact Or.inl h
    · exact Or.inr ⟨o,ho,hacct,h⟩
    · have hgtc : (Engine.replacement r o).tif = .gtc := htif o ho
      rw [hgtc] at hioc
      cases hioc

theorem Effect.cancel {c : Cancel} (h : Effect e e' evs (.cancel c)) :
    Reports c.orderId evs ∨ ∃ a, .ack a ∈ evs ∧ a.orderId = c.orderId := by
  cases h with
  | refused r hid hev hb ha => exact Or.inl (.reject r (by rw [hev]; exact List.mem_singleton_self _) hid)
  | cancelled o a t ho hacct hb ha hid hev => exact Or.inr ⟨a,by rw [hev]; simp,hid⟩

/-- An order that a command does not name stays as it is or makes a fill. -/
theorem Effect.others (h : Effect e e' evs cmd) (he : Wf e.book) {id : OrderId} (hid : commandOrderId cmd ≠ some id) :
    e'.book.get id = e.book.get id ∨ ∃ f, .fill f ∈ evs ∧ f.makerOrderId = id := by
  have hplaced : ∀ {b : OrderBook S} {no : NewOrder} {fs : List MatchFill} (t : BookTop) (seq : UInt64),
      Placed b no e'.book fs → id ≠ no.orderId →
      e'.book.get id = b.get id ∨ ∃ f, .fill f ∈ e.acceptedEvents no fs t seq ∧ f.makerOrderId = id := by
    intro b no fs t seq hp hne
    by_cases hmaker : ∃ g ∈ fs, g.makerOrderId = id
    · obtain ⟨g,hg,hgid⟩ := hmaker
      obtain ⟨f,hf,-,hm⟩ := exists_fill e no t seq hg
      exact Or.inr ⟨f,hf,hm.trans hgid⟩
    · exact Or.inl (hp.keeps id hne fun g hg hgid => hmaker ⟨g,hg,hgid⟩)
  have hcancel : ∀ {i : OrderId} {o : Order}, e.book.get i = some o → id ≠ i →
      (e.book.cancel i o.accountId).1.get id = e.book.get id := by
    intro i o ho hne
    rw [get_cancel he ho,if_neg hne]
  have hne : ∀ {i : OrderId}, commandOrderId cmd = some i → id ≠ i := fun hi heq => hid (heq ▸ hi)
  cases h with
  | refused r hid' hev hb ha => exact Or.inl (by rw [hb])
  | placed fs t seq hr hp ha hev => rw [hev]; exact hplaced t seq hp (hne rfl)
  | cancelled o a t ho hacct hb ha hid' hev => exact Or.inl (by rw [hb,hcancel ho (hne rfl)])
  | lost o rej ho hacct hb ha hid' hev => exact Or.inl (by rw [hb,hcancel ho (hne rfl)])
  | replaced o fs t seq ho hacct hp ha hev =>
    rw [hev,← hcancel ho (hne rfl)]
    exact hplaced t seq hp (hne rfl)

end Common

/-! ### Every command has one of the outcomes -/

variable {e : Engine S}

theorem handleNew_effect (he : Wf e.book) {no : NewOrder} (hid : e.book.get no.orderId = none) :
    Effect e (e.handleNew no).1 (e.handleNew no).2 (.newOrder no) := by
  rw [handleNew_eq]
  cases hr : e.refusal no with
  | some reason => exact .refused _ rfl rfl rfl rfl
  | none =>
    obtain ⟨hb,ha,_,t,seq,hev⟩ := accepted_spec hr
    have hp := placed_newBook he hid (refusal_none hr).2.1
    rw [symbolId_matched he] at hev
    simp only
    exact .placed _ t seq hr (hb ▸ hp) ha hev

theorem handleCancel_effect (e : Engine S) (c : Cancel) :
    Effect e (e.handleCancel c).1 (e.handleCancel c).2 (.cancel c) := by
  rcases e.handleCancel_cases c with ⟨o,-,ho,hacct,hc⟩ | ⟨reason,hc⟩
  · rw [hc]
    exact .cancelled o _ _ ho hacct rfl rfl rfl rfl
  · rw [hc]
    exact .refused _ rfl rfl rfl rfl

theorem handleReplace_effect (he : Wf e.book) (r : Replace) :
    Effect e (e.handleReplace r).1 (e.handleReplace r).2 (.replace r) := by
  rcases e.handleReplace_cases r with ⟨o,-,-,ho,hacct,hc⟩ | ⟨-,reason,hc⟩
  · rw [hc]
    have hgone : (e.book.cancel r.orderId o.accountId).1.get (replacement r o).orderId = none :=
      (get_cancel he ho r.orderId).trans (if_pos rfl)
    have hnew : Effect { e with book := (e.book.cancel r.orderId o.accountId).1 } _ _ (.newOrder (replacement r o)) :=
      handleNew_effect (he.cancel ho) hgone
    cases hnew with
    | refused rej hid hev hb ham => exact .lost o rej ho hacct hb ham hid hev
    | placed fs t seq hr hp ham hev =>
      refine .replaced o fs t seq ho hacct hp ham ?_
      rw [hev]
      simp only [acceptedEvents,symbolId_cancel]
  · rw [hc]
    exact .refused _ rfl rfl rfl rfl

/-- Every outcome of a command that names an order, on a book with no order under a new id. -/
theorem process_effect (he : Wf e.book) {cmd : Command} (hcmd : commandOrderId cmd ≠ none)
    (hid : ∀ no, cmd = .newOrder no → e.book.get no.orderId = none) :
    Effect e (e.process cmd).1 (e.process cmd).2 cmd := by
  cases cmd with
  | newOrder no => exact handleNew_effect he (hid no rfl)
  | cancel c => exact handleCancel_effect e c
  | replace r => exact handleReplace_effect he r
  | setRiskLimits srl => exact absurd rfl hcmd
  | queryAccount qa => exact absurd rfl hcmd
  | authenticate auth => exact absurd rfl hcmd

/-- A command that names no order leaves the book and fills nothing. -/
theorem process_unnamed (e : Engine S) {cmd : Command} (hcmd : commandOrderId cmd = none) :
    (e.live cmd).book = e.book ∧ ∀ f, .fill f ∉ (e.process cmd).2 := by
  cases cmd with
  | newOrder no => cases hcmd
  | cancel c => cases hcmd
  | replace r => cases hcmd
  | setRiskLimits srl => exact ⟨rfl,by simp [process,handleSetRiskLimits,ack]⟩
  | queryAccount qa => exact ⟨rfl,by simp [process,handleQueryAccount]⟩
  | authenticate auth => exact ⟨rfl,by simp [process]⟩

/-- Counting a command does not change its outcome. -/
theorem Effect.live {evs : List Event} {cmd : Command} (h : Effect e (e.process cmd).1 evs cmd) :
    Effect e (e.live cmd) evs cmd := by
  have hb : (e.live cmd).book = (e.process cmd).1.book := rfl
  have ha : (e.live cmd).accountManager = (e.process cmd).1.accountManager := rfl
  generalize (e.process cmd).1 = e₁ at h hb ha
  generalize e.live cmd = e₂ at hb ha ⊢
  cases h with
  | refused r hid hev hb' ha' => exact .refused r hid hev (hb.trans hb') (ha.trans ha')
  | placed fs t seq hr hp ha' hev => exact .placed fs t seq hr (hb ▸ hp) (ha.trans ha') hev
  | cancelled o a t ho hacct hb' ha' hid hev =>
    exact .cancelled o a t ho hacct (hb.trans hb') (ha.trans ha') hid hev
  | lost o rej ho hacct hb' ha' hid hev => exact .lost o rej ho hacct (hb.trans hb') (ha.trans ha') hid hev
  | replaced o fs t seq ho hacct hp ha' hev =>
    exact .replaced o fs t seq ho hacct (hb ▸ hp) (ha.trans ha') hev

section Live
variable (he : Wf e.book) {cmd : Command} (hid : ∀ no, cmd = .newOrder no → e.book.get no.orderId = none)
include he hid

/-- A command has one of its outcomes, or names no order and leaves the book. -/
theorem live_outcome : Effect e (e.live cmd) (e.process cmd).2 cmd ∨
    commandOrderId cmd = none ∧ (e.live cmd).book = e.book ∧ ∀ f, .fill f ∉ (e.process cmd).2 := by
  by_cases hcmd : commandOrderId cmd = none
  · exact Or.inr ⟨hcmd,e.process_unnamed hcmd⟩
  · exact Or.inl (process_effect he hcmd hid).live

theorem wf_live : Wf (e.live cmd).book := by
  rcases live_outcome he hid with heff | ⟨-,hb,-⟩
  · exact heff.wf he
  · rw [hb]; exact he

theorem symbolId_live : (e.live cmd).book.symbolId = e.book.symbolId := by
  rcases live_outcome he hid with heff | ⟨-,hb,-⟩
  · exact heff.symbolId
  · rw [hb]

theorem origin_live {id : OrderId} {o' : Order} (hg : (e.live cmd).book.get id = some o') :
    Origin e.book cmd id o' := by
  rcases live_outcome he hid with heff | ⟨-,hb,-⟩
  · exact heff.origin he hg
  · exact .stays o' (hb ▸ hg) rfl (Int64.le_refl _)

theorem fill_live {f : Fill} (hf : .fill f ∈ (e.process cmd).2) : f.symbolId = e.book.symbolId ∧
    ∃ taker m, Taker e.book cmd taker ∧ f.takerOrderId = taker.orderId ∧
      e.book.get f.makerOrderId = some m ∧ m.side = taker.side.opposite ∧ f.makerOrderId ≠ f.takerOrderId := by
  rcases live_outcome he hid with heff | ⟨-,-,hnone⟩
  · exact ⟨heff.fill_symbol hf,heff.fill he hid hf⟩
  · exact absurd hf (hnone f)

end Live

end Engine
end HighPerfTrading
