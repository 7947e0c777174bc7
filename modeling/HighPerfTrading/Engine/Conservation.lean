import HighPerfTrading.Engine.FillHistory

/-! The quantity entered under an order id, in runs where no order id is placed twice: all of it is
filled, removed, discarded or live. -/
namespace HighPerfTrading
namespace Engine
open OrderBook
variable {S : Type} [Slab S Order] {e : Engine S} {cmds : List Command} {evs : List Event}

/-! ### What a command moves -/

def acknowledged (evs : List Event) : Bool :=
  evs.any fun ev => match ev with
    | .ack _ => true
    | _ => false

/-- What the fills move for the order under an id, as taker and as maker. -/
def filledIn (evs : List Event) (id : OrderId) : ℤ :=
  ((fillsIn evs).map fun f =>
    (if f.takerOrderId = id then f.qty.toInt else 0)+(if f.makerOrderId = id then f.qty.toInt else 0)).sum

/-- What an accepted order enters, going by its events. -/
def enteredUnder (orderId : OrderId) (qty : Qty) (evs : List Event) (id : OrderId) : ℤ :=
  if orderId = id ∧ acknowledged evs then qty.toInt else 0

/-- What a command enters: the quantity of an accepted order or of an acknowledged replacement. -/
def enteredBy (e : Engine S) (cmd : Command) (id : OrderId) : ℤ :=
  match cmd with
  | .newOrder no => enteredUnder no.orderId no.qty (e.process cmd).2 id
  | .replace r => enteredUnder r.orderId r.newQty (e.process cmd).2 id
  | _ => 0

/-- What `cancel` takes out of a book. -/
def removedFrom (b : OrderBook S) (orderId : OrderId) (acct : AccountId) (id : OrderId) : ℤ :=
  if orderId = id ∧ (b.cancel orderId acct).2 then b.qtyUnder id else 0

/-- What a Cancel or the first half of a Replace removes. -/
def removedBy (e : Engine S) (cmd : Command) (id : OrderId) : ℤ :=
  match cmd with
  | .cancel c => if c.symbolId = e.book.symbolId then removedFrom e.book c.orderId c.accountId id else 0
  | .replace r =>
    if r.symbolId = e.book.symbolId ∧ 0 < r.newQty then removedFrom e.book r.orderId r.accountId id else 0
  | _ => 0

/-- What is left of an accepted order that may not rest, going by its events. -/
def discardedOf (no : NewOrder) (evs : List Event) (id : OrderId) : ℤ :=
  if no.orderId = id ∧ acknowledged evs ∧ no.tif = .ioc then (no.qty-((fillsIn evs).map Fill.qty).sum).toInt else 0

def discardedBy (e : Engine S) (cmd : Command) (id : OrderId) : ℤ :=
  match cmd with
  | .newOrder no => discardedOf no (e.process cmd).2 id
  | _ => 0

/-- An amount added up over the commands of a run. -/
def totalOf (amount : Engine S → Command → OrderId → ℤ) (e : Engine S) (cmds : List Command) (id : OrderId) : ℤ :=
  match cmds with
  | [] => 0
  | cmd::cmds => amount e cmd id+totalOf amount (e.process cmd).1 cmds id

theorem totalOf_append (amount : Engine S → Command → OrderId → ℤ) (e : Engine S) (cmds : List Command) (cmd : Command)
    (id : OrderId) : totalOf amount e (cmds ++ [cmd]) id = totalOf amount e cmds id+amount (e.after cmds) cmd id := by
  induction cmds generalizing e with
  | nil => simp [totalOf,after]
  | cons c cmds ih =>
    rw [List.cons_append,totalOf,totalOf,ih,add_assoc]
    rfl

/-! ### The events of an accepted order -/

section Accepted
variable {no : NewOrder} {fs : List MatchFill}

omit [Slab S Order] in
theorem acknowledged_accepted (e : Engine S) (no : NewOrder) (fs : List MatchFill) (t : BookTop) (seq : UInt64) :
    acknowledged (e.acceptedEvents no fs t seq) = true := by
  simp [acknowledged,acceptedEvents]

@[simp] theorem acknowledged_reject (r : Reject) : acknowledged [.reject r] = false := rfl

@[simp] theorem filledIn_reject (r : Reject) (id : OrderId) : filledIn [.reject r] id = 0 := rfl

omit [Slab S Order] in
@[simp] theorem filledIn_topThenAck (e : Engine S) (cs : UInt64) (i id : OrderId) :
    filledIn (e.topThenAck cs i).2 id = 0 := rfl

theorem filledIn_append (xs ys : List Event) (id : OrderId) :
    filledIn (xs ++ ys) id = filledIn xs id+filledIn ys id := by
  rw [filledIn,fillsIn,List.filterMap_append,List.map_append,List.sum_append]; rfl

theorem filledIn_fillEvents (sym : SymbolId) (seq : UInt64) (h : ∀ f ∈ fs, f.takerOrderId = no.orderId) (id : OrderId) :
    filledIn (fillEvents no sym seq fs) id = (if no.orderId = id then tradedQty fs else 0)+madeQty fs id := by
  induction fs generalizing seq with
  | nil => simp [fillEvents,filledIn,fillsIn,tradedQty,madeQty]
  | cons f fs ih =>
    have hrest := ih (seq+1) fun g hg => h g (List.mem_cons_of_mem _ hg)
    have hcons : filledIn (fillEvents no sym seq (f::fs)) id =
        (if f.takerOrderId = id then f.qty.toInt else 0)+(if f.makerOrderId = id then f.qty.toInt else 0)+
          filledIn (fillEvents no sym (seq+1) fs) id := rfl
    rw [hcons,hrest,h f (List.mem_cons_self ..),tradedQty_cons,madeQty_cons]
    split_ifs <;> omega

omit [Slab S Order] in
theorem filledIn_accepted (e : Engine S) (t : BookTop) (seq : UInt64) (h : ∀ f ∈ fs, f.takerOrderId = no.orderId)
    (id : OrderId) : filledIn (e.acceptedEvents no fs t seq) id =
      (if no.orderId = id then tradedQty fs else 0)+madeQty fs id := by
  rw [acceptedEvents,filledIn_append,filledIn_fillEvents _ _ h]
  exact add_zero _

theorem fillsIn_fillEvents (no : NewOrder) (sym : SymbolId) (seq : UInt64) (fs : List MatchFill) :
    (fillsIn (fillEvents no sym seq fs)).map (fun f => (f.price,f.qty)) = fs.map fun f => (f.price,f.qty) := by
  induction fs generalizing seq with
  | nil => rfl
  | cons f fs ih => exact congrArg ((f.price,f.qty)::·) (ih (seq+1))

theorem fillsIn_fillEvents_qty (no : NewOrder) (sym : SymbolId) (seq : UInt64) (fs : List MatchFill) :
    (fillsIn (fillEvents no sym seq fs)).map Fill.qty = fs.map MatchFill.qty := by
  have h := congrArg (List.map Prod.snd) (fillsIn_fillEvents no sym seq fs)
  rw [List.map_map,List.map_map] at h
  exact h

omit [Slab S Order] in
theorem fillsIn_accepted_qty (e : Engine S) (no : NewOrder) (fs : List MatchFill) (t : BookTop) (seq : UInt64) :
    (fillsIn (e.acceptedEvents no fs t seq)).map Fill.qty = fs.map MatchFill.qty := by
  rw [acceptedEvents,fillsIn,List.filterMap_append,List.map_append,← fillsIn,fillsIn_fillEvents_qty]
  exact List.append_nil _

end Accepted

/-- A new order moves nothing but what its events tell. -/
theorem handleNew_balance (hb : Wf e.book) {no : NewOrder} (hno : e.book.get no.orderId = none) (id : OrderId) :
    enteredUnder no.orderId no.qty (e.handleNew no).2 id+e.book.qtyUnder id = filledIn (e.handleNew no).2 id+
      discardedOf no (e.handleNew no).2 id+(e.handleNew no).1.book.qtyUnder id := by
  have heff := handleNew_effect hb hno
  generalize (e.handleNew no).2 = evs at heff ⊢
  generalize (e.handleNew no).1 = e' at heff ⊢
  cases heff with
  | refused r hid hev hbook ha =>
    rw [hev,hbook]
    simp [enteredUnder,discardedOf]
  | placed fs t seq hr hp ha hev =>
    have htaker : ∀ f ∈ fs, f.takerOrderId = no.orderId := fun f hf => (hp.maker f hf).1
    rw [hev,enteredUnder,discardedOf,filledIn_accepted e t seq htaker,fillsIn_accepted_qty,acknowledged_accepted]
    by_cases hid : no.orderId = id
    · subst hid
      have hmade : madeQty fs no.orderId = 0 := by
        refine List.sum_eq_zero fun x hx => ?_
        obtain ⟨f,hf,rfl⟩ := List.mem_map.mp hx
        obtain ⟨-,m,hm,-⟩ := hp.maker f hf
        rw [if_neg]
        intro heq
        rw [heq,hno] at hm; cases hm
      have htaken := hp.taken
      rw [discarded] at htaken
      rw [qtyUnder_none hno,hmade,htaken]
      cases htif : no.tif with
      | gtc => simp
      | ioc => simp; omega
    · have hmade := hp.made id (Ne.symm hid)
      simp [hid,hmade]
      omega

/-- Cancelling moves a live quantity out of the book. -/
theorem removedFrom_cancel {b : OrderBook S} (hb : Wf b) (orderId : OrderId) (acct : AccountId) (id : OrderId) :
    b.qtyUnder id = removedFrom b orderId acct id+(b.cancel orderId acct).1.qtyUnder id := by
  rcases owned_or_refused b orderId acct with ⟨o,ho,rfl⟩ | hno
  · rw [removedFrom,cancel_accepted ho]
    by_cases hid : orderId = id
    · subst hid
      rw [if_pos ⟨rfl,rfl⟩,qtyUnder_none ((get_cancel hb ho orderId).trans (if_pos rfl)),add_zero]
    · rw [if_neg fun h => hid h.1,zero_add]
      exact qtyUnder_congr ((get_cancel hb ho id).trans (if_neg (Ne.symm hid))).symm
  · rw [removedFrom,cancel_refused hno,if_neg (by simp),zero_add]

/-- The quantities of one command, with the live one before and after. -/
def Balances (e : Engine S) (cmd : Command) (id : OrderId) : Prop :=
  enteredBy e cmd id+e.book.qtyUnder id = filledIn (e.process cmd).2 id+removedBy e cmd id+discardedBy e cmd id+
    (e.process cmd).1.book.qtyUnder id

theorem cancel_balance (hb : Wf e.book) (c : Cancel) (id : OrderId) : Balances e (.cancel c) id := by
  have hmoved := removedFrom_cancel hb c.orderId c.accountId id
  simp only [Balances,enteredBy,removedBy,discardedBy,process,handleCancel]
  by_cases hs : c.symbolId = e.book.symbolId
  · rw [if_pos hs,if_neg (not_not.mpr hs),hmoved]
    split_ifs with hok
    · simp
    · simp
  · rw [if_neg hs,if_pos hs]
    simp

/-- A refused replacement moves nothing. -/
theorem replace_balance_refused {r : Replace} {reason : RejectReason} {id : OrderId}
    (hp : e.process (.replace r) = e.rejected r.clientSeq r.orderId reason) (hr : removedBy e (.replace r) id = 0) :
    Balances e (.replace r) id := by
  simp [Balances,enteredBy,discardedBy,hr,hp,enteredUnder]

theorem replace_balance (hb : Wf e.book) (htif : ∀ id o, e.book.get id = some o → o.tif = .gtc) (r : Replace)
    (id : OrderId) : Balances e (.replace r) id := by
  rcases e.handleReplace_cases r with ⟨o,hs,hq,ho,hacct,hc⟩ | ⟨hnone,reason,hc⟩
  · have hproc : e.process (.replace r) = _ := hc
    have hgone : (e.book.cancel r.orderId o.accountId).1.get (replacement r o).orderId = none :=
      (get_cancel hb ho r.orderId).trans (if_pos rfl)
    have hnew := handleNew_balance (e := { e with book := (e.book.cancel r.orderId o.accountId).1 }) (hb.cancel ho) hgone id
    have hkept : ∀ evs, discardedOf (replacement r o) evs id = 0 := by
      intro evs
      rw [discardedOf,if_neg]
      rintro ⟨-,-,hioc⟩
      cases (htif _ _ ho).symm.trans hioc
    rw [hkept,← hproc] at hnew
    have hmoved := removedFrom_cancel hb r.orderId o.accountId id
    simp only [Balances,enteredBy,removedBy,discardedBy,if_pos (And.intro hs hq)]
    change enteredUnder r.orderId r.newQty _ id+(e.book.cancel r.orderId o.accountId).1.qtyUnder id = _ at hnew
    rw [← hacct]
    omega
  · refine replace_balance_refused hc ?_
    rw [removedBy]
    split_ifs with hvalid
    · rcases owned_or_refused e.book r.orderId r.accountId with ⟨o,ho,hacct⟩ | hno
      · exact absurd hacct (hnone o hvalid.1 hvalid.2 ho)
      · rw [removedFrom,cancel_refused hno,if_neg (by simp)]
    · rfl

/-- A command that is no order leaves every quantity alone. -/
theorem quiet_balance {cmd : Command} (h : commandOrderId cmd = none) (id : OrderId) : Balances e cmd id := by
  obtain ⟨hbook,-,hnofill⟩ := e.process_quiet h
  have hnil : fillsIn (e.process cmd).2 = [] :=
    List.eq_nil_iff_forall_not_mem.mpr fun f hf => hnofill f (mem_fillsIn.mp hf)
  rw [Balances,filledIn,hnil,hbook]
  cases cmd with
  | newOrder no => cases h
  | cancel c => cases h
  | replace r => cases h
  | setRiskLimits srl => simp [enteredBy,removedBy,discardedBy]
  | queryAccount qa => simp [enteredBy,removedBy,discardedBy]
  | authenticate auth => simp [enteredBy,removedBy,discardedBy]

theorem Traced.balances (h : Traced e cmds evs) {cmd : Command} (hf : Fresh cmds cmd) (id : OrderId) :
    Balances e cmd id := by
  cases cmd with
  | newOrder no =>
    have hnew := handleNew_balance h.wf (h.not_live hf) id
    have hzero : removedBy e (.newOrder no) id = 0 := rfl
    rw [Balances,hzero,add_zero]
    exact hnew
  | cancel c => exact cancel_balance h.wf c id
  | replace r =>
    refine replace_balance h.wf (fun id o ho => ?_) r id
    obtain ⟨-,-,-,-,htif⟩ := h.live id o ho
    exact htif
  | setRiskLimits srl => exact quiet_balance rfl id
  | queryAccount qa => exact quiet_balance rfl id
  | authenticate auth => exact quiet_balance rfl id

/-! ### Limits -/

/-- The side and price that a command sets for an order. -/
def limitBy (e : Engine S) (cmd : Command) (id : OrderId) : Option (Side × Price) :=
  match cmd with
  | .newOrder no => if no.orderId = id ∧ acknowledged (e.process cmd).2 then some (no.side,no.price) else none
  | .replace r =>
    if r.orderId = id ∧ acknowledged (e.process cmd).2 then (e.book.get id).map fun o => (o.side,r.newPrice) else none
  | _ => none

/-- The limit that was set last. -/
def limitOf (e : Engine S) (cmds : List Command) (id : OrderId) : Option (Side × Price) :=
  match cmds with
  | [] => none
  | cmd::cmds => (limitOf (e.process cmd).1 cmds id).or (limitBy e cmd id)

theorem limitOf_append (e : Engine S) (cmds : List Command) (cmd : Command) (id : OrderId) :
    limitOf e (cmds ++ [cmd]) id = (limitBy (e.after cmds) cmd id).or (limitOf e cmds id) := by
  induction cmds generalizing e with
  | nil => simp [limitOf,after]
  | cons c cmds ih =>
    rw [List.cons_append,limitOf,limitOf,ih,Option.or_assoc]
    rfl

/-- A price that is no worse than the limit. -/
def Within (limit : Side × Price) (price : Price) : Prop :=
  match limit.1 with
  | .buy => price ≤ limit.2
  | .sell => limit.2 ≤ price

theorem within_iff {side : Side} {limit price : Price} :
    Within (side,limit) price ↔ outside side.opposite limit price = false := by
  cases side with
  | buy => simp [Within,outside,Side.opposite]
  | sell => simp [Within,outside,Side.opposite]

/-- A live order keeps the limit that was set last. -/
theorem Effect.limits {e' : Engine S} {cmd : Command} (h : Effect e e' evs cmd) (hb : Wf e.book)
    (hevs : (e.process cmd).2 = evs) {limits : OrderId → Option (Side × Price)}
    (hlive : ∀ id o, e.book.get id = some o → limits id = some (o.side,o.price)) (id : OrderId) (o : Order)
    (ho : e'.book.get id = some o) : (limitBy e cmd id).or (limits id) = some (o.side,o.price) := by
  cases h with
  | @refused cmd r hid hev hbook ha =>
    rw [hbook] at ho
    have hnone : limitBy e cmd id = none := by
      cases cmd <;> simp [limitBy,hevs,hev]
    rw [hnone,Option.none_or,hlive id o ho]
  | @placed no fs t seq hr hp ha hev =>
    have hack : acknowledged (e.process (.newOrder no)).2 = true := by rw [hevs,hev,acknowledged_accepted]
    by_cases hid : no.orderId = id
    · subst hid
      obtain ⟨-,q,rfl,-⟩ := hp.own o ho
      simp [limitBy,hack,resting]
    · obtain ⟨x,hx,hshrunk,-⟩ := hp.shrinks id o (Ne.symm hid) ho
      rw [limitBy,if_neg fun h => hid h.1,Option.none_or,hlive id x hx,hshrunk]
  | cancelled x a t hx hacct hbook ha hid hev =>
    rw [hbook] at ho
    exact hlive id o (get_of_cancel hb hx ho).2
  | lost x rej hx hacct hbook ha hid hev =>
    rw [hbook] at ho
    rw [limitBy,hevs,hev,acknowledged_reject,if_neg (by simp),Option.none_or,hlive id o (get_of_cancel hb hx ho).2]
  | @replaced r x fs t seq hx hacct hp ha hev =>
    have hack : acknowledged (e.process (.replace r)).2 = true := by rw [hevs,hev,acknowledged_accepted]
    by_cases hid : r.orderId = id
    · subst hid
      obtain ⟨-,q,rfl,-⟩ := hp.own o ho
      rw [limitBy,if_pos ⟨rfl,hack⟩,hx]; rfl
    · obtain ⟨y,hy,hshrunk,-⟩ := hp.shrinks id o (Ne.symm hid) ho
      rw [limitBy,if_neg fun h => hid h.1,Option.none_or,hlive id y (get_of_cancel hb hx hy).2,hshrunk]

/-- A fill of a command is positive and within the limits of both orders. -/
theorem Effect.fair {e' : Engine S} {cmd : Command} (h : Effect e e' evs cmd) (hb : Wf e.book)
    (hevs : (e.process cmd).2 = evs) {f : Fill} (hf : .fill f ∈ evs) :
    0 < f.qty ∧ (∃ m, e.book.get f.makerOrderId = some m ∧ Within (m.side,m.price) f.price) ∧
      ∃ t, limitBy e cmd f.takerOrderId = some t ∧ Within t f.price := by
  have hself : ∀ s (p : Price), Within (s,p) p := by
    intro s p
    cases s <;> exact Int64.le_refl _
  cases h with
  | refused r hid hev hbook ha => rw [hev] at hf; simp at hf
  | cancelled o a t ho hacct hbook ha hid hev => rw [hev] at hf; simp at hf
  | lost o rej ho hacct hbook ha hid hev => rw [hev] at hf; simp at hf
  | @placed no fs t seq hr hp ha hev =>
    have hack : acknowledged (e.process (.newOrder no)).2 = true := by rw [hevs,hev,acknowledged_accepted]
    rw [hev] at hf
    obtain ⟨g,hg,n,rfl⟩ := mem_acceptedEvents hf
    obtain ⟨hpos,hin,m,hm,hmp⟩ := hp.priced g hg
    have htaker := (hp.maker g hg).1
    refine ⟨hpos,⟨m,hm,hmp ▸ hself _ _⟩,(no.side,no.price),?_,within_iff.mpr hin⟩
    rw [limitBy,if_pos ⟨htaker.symm,hack⟩]
  | @replaced r o fs t seq ho hacct hp ha hev =>
    have hack : acknowledged (e.process (.replace r)).2 = true := by rw [hevs,hev,acknowledged_accepted]
    rw [hev] at hf
    obtain ⟨g,hg,n,rfl⟩ := mem_acceptedEvents hf
    obtain ⟨hpos,hin,m,hm,hmp⟩ := hp.priced g hg
    have htaker : g.takerOrderId = r.orderId := (hp.maker g hg).1
    refine ⟨hpos,⟨m,(get_of_cancel hb ho hm).2,hmp ▸ hself _ _⟩,(o.side,r.newPrice),?_,within_iff.mpr hin⟩
    rw [limitBy,if_pos ⟨htaker.symm,hack⟩]
    simp only [htaker,ho,Option.map_some]

/-! ### Runs with fresh ids -/

/-- A fill of a run, with the command that led to it: positive, and within the limits of both orders. -/
def Fair (e : Engine S) (cmds : List Command) (f : Fill) : Prop :=
  0 < f.qty ∧ ∃ before cmd, before ++ [cmd] <+: cmds ∧ .fill f ∈ ((e.after before).process cmd).2 ∧
    (∃ m, limitOf e before f.makerOrderId = some m ∧ Within m f.price) ∧
    ∃ t, limitOf e (before ++ [cmd]) f.takerOrderId = some t ∧ Within t f.price

structure Conserved (e : Engine S) (cmds : List Command) (evs : List Event) : Prop extends Traced e cmds evs where
  limits : ∀ id o, e.book.get id = some o → limitOf (Engine.new : Engine S) cmds id = some (o.side,o.price)
  balance : ∀ id, totalOf enteredBy (Engine.new : Engine S) cmds id = filledIn evs id+
    totalOf removedBy (Engine.new : Engine S) cmds id+totalOf discardedBy (Engine.new : Engine S) cmds id+
      e.book.qtyUnder id
  excess : ∀ id, 0 ≤ totalOf discardedBy (Engine.new : Engine S) cmds id
  fair : ∀ f, .fill f ∈ evs → Fair (Engine.new : Engine S) cmds f

theorem Traced.discardedBy_nonneg (h : Traced e cmds evs) {cmd : Command} (hf : Fresh cmds cmd) (id : OrderId) :
    0 ≤ discardedBy e cmd id := by
  cases cmd with
  | newOrder no =>
    have heff := handleNew_effect h.wf (h.not_live hf)
    rw [discardedBy,process,discardedOf]
    generalize (e.handleNew no).2 = evs' at heff ⊢
    split_ifs with hcond
    · cases heff with
      | refused r hid hev hbook ha => rw [hev] at hcond; simp at hcond
      | placed fs t seq hr hp ha hev =>
        have hexcess := hp.excess
        rw [discarded,hcond.2.2,if_neg (by simp)] at hexcess
        rwa [hev,fillsIn_accepted_qty]
    · exact le_refl 0
  | _ => exact le_refl 0

theorem Conserved.start : Conserved (Engine.new : Engine S) [] [] where
  toTraced := Traced.start
  limits := by simp [Engine.new,OrderBook.new,OrderBook.get]
  balance id := by simp [totalOf,filledIn,fillsIn,qtyUnder,Engine.new,OrderBook.new,OrderBook.get]
  excess id := le_refl 0
  fair := by simp

theorem Conserved.step (h : Conserved e cmds evs) (he : e = (Engine.new : Engine S).after cmds) {cmd : Command}
    (hf : Fresh cmds cmd) : Conserved (e.process cmd).1 (cmds ++ [cmd]) (evs ++ (e.process cmd).2) := by
  refine ⟨h.toTraced.step hf,fun id o ho => ?_,fun id => ?_,fun id => ?_,fun f hfill => ?_⟩
  · rw [limitOf_append,← he]
    by_cases hnone : commandOrderId cmd = none
    · rw [(e.process_quiet hnone).1] at ho
      have hquiet : limitBy e cmd id = none := by cases cmd <;> first | rfl | cases hnone
      rw [hquiet,Option.none_or,h.limits id o ho]
    · exact (h.toTraced.effect hf hnone).limits h.wf rfl h.limits id o ho
  · have hbal := h.toTraced.balances hf id
    rw [Balances] at hbal
    rw [totalOf_append,totalOf_append,totalOf_append,filledIn_append,← he,h.balance id]
    omega
  · rw [totalOf_append,← he]
    exact add_nonneg (h.excess id) (h.toTraced.discardedBy_nonneg hf id)
  · rcases List.mem_append.mp hfill with hfill | hfill
    · obtain ⟨hpos,before,c,hpre,hrest⟩ := h.fair f hfill
      exact ⟨hpos,before,c,hpre.trans (List.prefix_append _ _),hrest⟩
    · have hnamed : commandOrderId cmd ≠ none := fun hnone => (e.process_quiet hnone).2.2 f hfill
      obtain ⟨hpos,⟨m,hm,hmin⟩,t,ht,htin⟩ := (h.toTraced.effect hf hnamed).fair h.wf rfl hfill
      refine ⟨hpos,cmds,cmd,List.prefix_rfl,he ▸ hfill,⟨_,h.limits _ m hm,hmin⟩,t,?_,htin⟩
      rw [limitOf_append,← he,ht,Option.some_or]

/-- In runs with fresh ids, what was entered under an id is what was filled, removed or discarded, and what
is live; fills are positive and within the limits of both orders. -/
theorem Run.quantity_conserved (h : Run Engine.new (fun _ cmds cmd => Fresh cmds cmd) e cmds evs) :
    (∀ id, totalOf enteredBy (Engine.new : Engine S) cmds id = filledIn evs id+
      totalOf removedBy (Engine.new : Engine S) cmds id+totalOf discardedBy (Engine.new : Engine S) cmds id+
        e.book.qtyUnder id) ∧
    (∀ id, 0 ≤ totalOf discardedBy (Engine.new : Engine S) cmds id) ∧
    ∀ f, .fill f ∈ evs → Fair (Engine.new : Engine S) cmds f := by
  have hc : Conserved e cmds evs := by
    induction h with
    | start => exact Conserved.start
    | step hr _ ha ih => exact ih.step hr.after_eq ha
  exact ⟨hc.balance,hc.excess,hc.fair⟩

/-- A buy of 4 is replaced by one of 9, a sell of 5 trades with it and one of 6 is partly discarded. -/
theorem replacedOrder_conserved :
    let new := (Engine.new : Engine (FreeListSlab Order))
    let cmds := [.newOrder ⟨1,1,7,1,.buy,100,4,.gtc,⟨false⟩⟩,.replace ⟨2,1,7,1,101,9⟩,
      .newOrder ⟨3,2,8,1,.sell,100,5,.gtc,⟨false⟩⟩,.newOrder ⟨4,3,8,1,.sell,100,6,.ioc,⟨false⟩⟩]
    (∃ evs, totalOf enteredBy new cmds 1 = filledIn evs 1+totalOf removedBy new cmds 1+totalOf discardedBy new cmds 1+
      (new.after cmds).book.qtyUnder 1) ∧
    totalOf enteredBy new cmds 1 = 13 ∧ totalOf removedBy new cmds 1 = 4 ∧ totalOf discardedBy new cmds 3 = 2 := by
  have hstart : Run (Engine.new : Engine (FreeListSlab Order)) (fun _ cmds cmd => Fresh cmds cmd) Engine.new [] [] :=
    Run.start
  have hrun := (((hstart.step (.newOrder ⟨1,1,7,1,.buy,100,4,.gtc,⟨false⟩⟩) (by decide +kernel)).step
    (.replace ⟨2,1,7,1,101,9⟩) trivial).step (.newOrder ⟨3,2,8,1,.sell,100,5,.gtc,⟨false⟩⟩) (by decide +kernel)).step
    (.newOrder ⟨4,3,8,1,.sell,100,6,.ioc,⟨false⟩⟩) (by decide +kernel)
  exact ⟨⟨_,hrun.quantity_conserved.1 1⟩,by decide +kernel,by decide +kernel,by decide +kernel⟩

end Engine
end HighPerfTrading
