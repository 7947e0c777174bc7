import HighPerfTrading.Engine.EngineStep

/-! What a command can reach: the limits of the account it names, its own orders, and the live orders it
trades with. Order ids may repeat. -/
namespace HighPerfTrading
open OrderBook

/-- The order id that the answers to a command carry. -/
def answeredOrder : Command → Option OrderId
  | .setRiskLimits _ => some 0
  | cmd => commandOrderId cmd

/-- The same order, with no more of its quantity. -/
structure ReducedTo (o o' : Order) : Prop where
  same : o' = { o with qtyRem := o'.qtyRem }
  le : o'.qtyRem ≤ o.qtyRem

namespace ReducedTo
variable {o o' o'' : Order}

theorem refl (o : Order) : ReducedTo o o := ⟨rfl,Int64.le_refl _⟩

theorem orderId (h : ReducedTo o o') : o.orderId = o'.orderId := by rw [h.same]

theorem accountId (h : ReducedTo o o') : o.accountId = o'.accountId := by rw [h.same]

theorem trans (h : ReducedTo o o') (h' : ReducedTo o' o'') : ReducedTo o o'' := by
  refine ⟨?_,Int64.le_trans h'.le h.le⟩
  rw [h'.same,h.same]

end ReducedTo

namespace OrderBook
variable {S : Type} [Slab S Order] {b b' : OrderBook S}

/-- A trade takes all of the order at the front, or the last of the taker's quantity. -/
theorem trade_takes {o : Order} {q : Qty} (hq : 0 < q) (ho : 0 < o.qtyRem) : min q o.qtyRem = o.qtyRem ∨
    q-min q o.qtyRem = 0 ∧ afterTrade o (min q o.qtyRem) = some { o with qtyRem := o.qtyRem-min q o.qtyRem } := by
  obtain ⟨-,-,-,-,hdone⟩ := min_qty hq ho
  unfold afterTrade
  split_ifs with hleft
  · exact Or.inl (by grind)
  · exact Or.inr ⟨hdone.resolve_left hleft,rfl⟩

/-- What a trade leaves of the order at the front of a level. -/
theorem reducedTo_afterTrade {o x : Order} {q : Qty} (hq : 0 < q) (ho : 0 < o.qtyRem)
    (h : afterTrade o (min q o.qtyRem) = some x) : ReducedTo o x := by
  obtain ⟨rfl,-⟩ := afterTrade_eq_some h
  obtain ⟨hpos,-,-,hleft,-⟩ := min_qty hq ho
  exact ⟨rfl,by grind⟩

/-- Matching changes the live orders that it fills, and adds none. A fill takes all of an order, unless it takes the
last of the taker's quantity; then the rest of the order stays. -/
structure Filled (taker : OrderId) (b b' : OrderBook S) (fs : List MatchFill) (left : Qty) : Prop where
  stays : ∀ k o, liveAt b.orders k = some o → liveAt b'.orders k = some o ∨
    ∃ f ∈ fs, f.makerOrderId = o.orderId ∧
      (f.qty = o.qtyRem ∨ left = 0 ∧ liveAt b'.orders k = some { o with qtyRem := o.qtyRem-f.qty })
  comes : ∀ k o', liveAt b'.orders k = some o' →
    ∃ o, liveAt b.orders k = some o ∧ ReducedTo o o'
  parties : ∀ f ∈ fs, f.takerOrderId = taker ∧ ∃ k o, liveAt b.orders k = some o ∧ o.orderId = f.makerOrderId

theorem Filled.refl (taker : OrderId) (b : OrderBook S) (qty : Qty) : Filled taker b b [] qty where
  stays _ _ ho := Or.inl ho
  comes _ o' ho' := ⟨o',ho',.refl o'⟩
  parties _ hf := by cases hf

theorem Filled.pass {m m' : Matching S} {taker : OrderId} {limit : Price} {makers : Side}
    (h : Filled taker b m.book m.fills m.takerQty) (hp : Pass taker limit makers m m') :
    Filled taker b m'.book m'.fills m'.takerQty := by
  cases hp with
  | drop px lvl hr hl hdead => exact ⟨by simpa using h.stays,by simpa using h.comes,h.parties⟩
  | trade px lvl k rest o hr hl hk hfront hs =>
    have hfills : (tradeWith taker makers m px lvl k rest o).fills =
        m.fills ++ [⟨o.orderId,o.accountId,taker,px,min m.takerQty o.qtyRem⟩] := rfl
    refine ⟨fun j x hx => ?_,fun j x' hx' => ?_,fun f hf => ?_⟩
    · rw [tradeWith_liveAt hk hr.qty,hfills]
      rcases h.stays j x hx with hstay | ⟨f,hf,hid,htakes⟩
      · split_ifs with hj
        · rw [hj,hk] at hstay
          obtain rfl := Option.some.inj hstay
          exact Or.inr ⟨_,List.mem_append_right _ (List.mem_singleton_self _),rfl,
            trade_takes hr.qty (liveAt_eq_some.mp hk).2⟩
        · exact Or.inl hstay
      · refine Or.inr ⟨f,List.mem_append_left _ hf,hid,Or.inl (htakes.resolve_right fun hlast => ?_)⟩
        exact Int64.lt_irrefl (hlast.1 ▸ hr.qty)
    · rw [tradeWith_liveAt hk hr.qty] at hx'
      split_ifs at hx' with hj
      · obtain ⟨x,hx,hred⟩ := h.comes j o (hj ▸ hk)
        exact ⟨x,hx,hred.trans (reducedTo_afterTrade hr.qty (liveAt_eq_some.mp hk).2 hx')⟩
      · exact h.comes j x' hx'
    · rw [hfills] at hf
      rcases List.mem_append.mp hf with hf | hf
      · exact h.parties f hf
      · obtain rfl := List.mem_singleton.mp hf
        obtain ⟨x,hx,hred⟩ := h.comes k o hk
        exact ⟨rfl,k,x,hx,hred.orderId⟩

theorem filled_matchTaker (b : OrderBook S) (taker : OrderId) (side : Side) (limit : Price) (qty : Qty) :
    ∃ left, Filled taker b (b.matchTaker taker side limit qty).1 (b.matchTaker taker side limit qty).2 left := by
  obtain ⟨m',hrun,he⟩ := matchTaker_run b taker side limit qty
  rw [he]
  exact ⟨_,(hrun.keeps (P := fun m => Filled taker b m.book m.fills m.takerQty) (fun _ _ h hp => h.pass hp)
    (Filled.refl taker b qty)).1⟩

end OrderBook

namespace Engine
variable {S : Type} [Slab S Order] {e e' : Engine S} {evs : List Event}

theorem filled_matched (b : OrderBook S) (no : NewOrder) :
    ∃ left, Filled no.orderId b (matched b no) (fillsOf b no) left := by
  have h := filled_matchTaker b no.orderId no.side no.price no.qty
  rwa [← matched_eq] at h

/-- The fill is of this order, and takes all of it or leaves the rest. -/
def LeavesOf (f : Fill) (o : Order) (o' : Option Order) : Prop :=
  f.makerOrderId = o.orderId ∧ (f.qty = o.qtyRem ∨ o' = some { o with qtyRem := o.qtyRem-f.qty })

/-- A command with these ids touches the limits of its account, the orders that it fills and those under
its own id, and its answers name its own order and live makers. -/
structure Confined (e e' : Engine S) (evs : List Event) (id : Option OrderId) (acct : Option AccountId) : Prop where
  limits : ∀ a, acct ≠ some a → e'.accountManager.getLimits a = e.accountManager.getLimits a
  stays : ∀ k o, liveAt e.book.orders k = some o → acct ≠ some o.accountId →
    liveAt e'.book.orders k = some o ∨ ∃ f, .fill f ∈ evs ∧ LeavesOf f o (liveAt e'.book.orders k)
  comes : ∀ k o', liveAt e'.book.orders k = some o' →
    (∃ o, liveAt e.book.orders k = some o ∧ ReducedTo o o') ∨
      (id = some o'.orderId ∧ acct = some o'.accountId)
  acks : ∀ a, .ack a ∈ evs → id = some a.orderId
  rejects : ∀ r, .reject r ∈ evs → id = r.orderId
  fills : ∀ f, .fill f ∈ evs → id = some f.takerOrderId ∧ ∃ k o, liveAt e.book.orders k = some o ∧ o.orderId = f.makerOrderId

/-- The book and the limits stay, and no fill is reported. -/
theorem Confined.of_same {id : Option OrderId} {acct : Option AccountId} (hb : e'.book = e.book)
    (hl : ∀ a, acct ≠ some a → e'.accountManager.getLimits a = e.accountManager.getLimits a)
    (hacks : ∀ a, .ack a ∈ evs → id = some a.orderId) (hrejects : ∀ r, .reject r ∈ evs → id = r.orderId)
    (hfills : ∀ f, .fill f ∉ evs) : Confined e e' evs id acct where
  limits := hl
  stays _ _ ho _ := Or.inl (hb ▸ ho)
  comes _ o' ho' := Or.inl ⟨o',hb ▸ ho',.refl o'⟩
  acks := hacks
  rejects := hrejects
  fills f hf := absurd hf (hfills f)

theorem Confined.rejected (e : Engine S) (cs : UInt64) (id : OrderId) (reason : RejectReason) (acct : Option AccountId) :
    Confined e (e.rejected cs id reason).1 (e.rejected cs id reason).2 (some id) acct := by
  refine .of_same rfl (fun _ _ => rfl) (fun a ha => ?_) (fun r hr => ?_) fun f hf => ?_
  · simp at ha
  · rw [rejected_events,List.mem_singleton] at hr
    rw [Event.reject.inj hr]
  · simp at hf

/-- The orders that are live after an accepted order. -/
theorem liveAt_newBook (b : OrderBook S) (no : NewOrder) (k : ℕ) :
    liveAt (newBook b no).orders k = liveAt (matched b no).orders k ∨
      liveAt (matched b no).orders k = none ∧ liveAt (newBook b no).orders k = some (resting no (remainder b no)) := by
  unfold newBook
  split_ifs with h
  · have hlive : 0 < (resting no (remainder b no)).qtyRem := h.1
    rw [insertResting_orders,liveAt_insert hlive]
    split_ifs with hk
    · refine Or.inr ⟨?_,rfl⟩
      cases hg : liveAt (matched b no).orders k with
      | none => rfl
      | some o => exact absurd hk (Slab.ne_vacantKey (liveAt_eq_some.mp hg).1)
    · exact Or.inl rfl
  · exact Or.inl rfl

theorem Confined.accepted {no : NewOrder} (hr : e.refusal no = none) :
    Confined e (e.accepted no).1 (e.accepted no).2 (some no.orderId) (some no.accountId) := by
  obtain ⟨hb,ha,-,t,seq,hev⟩ := accepted_spec hr
  obtain ⟨left,hfilled⟩ := filled_matched e.book no
  have hmaker : ∀ f ∈ fillsOf e.book no, ∃ x, .fill x ∈ (e.accepted no).2 ∧ x.makerOrderId = f.makerOrderId ∧
      x.qty = f.qty := by
    intro f hf
    obtain ⟨n,hn⟩ := exists_fillEvent no (matched e.book no).symbolId e.serverSeq hf
    exact ⟨_,hev ▸ List.mem_append_left _ hn,rfl,rfl⟩
  refine ⟨fun a _ => ?_,fun k o ho hne => ?_,fun k o' ho' => ?_,fun a hack => ?_,fun r hrej => ?_,fun f hf => ?_⟩
  · rw [ha,getLimits_settle]
  · rw [hb]
    rcases hfilled.stays k o ho with hstay | ⟨f,hf,hid,htakes⟩
    · rcases liveAt_newBook e.book no k with hsame | ⟨hnone,-⟩
      · exact Or.inl (hsame.trans hstay)
      · rw [hstay] at hnone; cases hnone
    · obtain ⟨x,hx,hxid,hqty⟩ := hmaker f hf
      refine Or.inr ⟨x,hx,hxid.trans hid,htakes.imp hqty.trans fun hrest => ?_⟩
      rcases liveAt_newBook e.book no k with hsame | ⟨hnone,-⟩
      · rw [hsame,hqty,hrest.2]
      · rw [hrest.2] at hnone; cases hnone
  · rw [hb] at ho'
    rcases liveAt_newBook e.book no k with hsame | ⟨-,hrest⟩
    · exact Or.inl (hfilled.comes k o' (hsame.symm.trans ho'))
    · rw [← Option.some.inj (hrest.symm.trans ho')]
      exact Or.inr ⟨rfl,rfl⟩
  · rw [hev] at hack
    rcases List.mem_append.mp hack with hack | hack
    · obtain ⟨_,_,_,he⟩ := mem_fillEvents hack
      cases he
    · obtain rfl : a = ⟨seq,no.clientSeq,no.orderId⟩ := by simpa using hack
      rfl
  · exact absurd hrej (accepted_no_reject hr r)
  · rw [hev] at hf
    rcases List.mem_append.mp hf with hf | hf
    · obtain ⟨n,g,hg,he⟩ := mem_fillEvents hf
      obtain rfl := Event.fill.inj he
      obtain ⟨htaker,hmaker⟩ := hfilled.parties g hg
      exact ⟨congrArg some htaker.symm,hmaker⟩
    · simp at hf

theorem handleNew_confined (e : Engine S) (no : NewOrder) :
    Confined e (e.handleNew no).1 (e.handleNew no).2 (some no.orderId) (some no.accountId) := by
  rw [handleNew_eq]
  cases hr : e.refusal no with
  | some reason => exact .rejected e _ _ _ _
  | none => exact .accepted hr

theorem liveAt_cancelled {id : OrderId} {o : Order} (ho : e.book.get id = some o) (j : ℕ) :
    liveAt (e.book.cancel id o.accountId).1.orders j = liveAt e.book.orders j ∨
      liveAt (e.book.cancel id o.accountId).1.orders j = none ∧ ∀ x, liveAt e.book.orders j = some x → x = o := by
  obtain ⟨k,hk,hg⟩ := get_eq_some.mp ho
  rw [liveAt_cancel hk hg]
  split_ifs with hj
  · refine Or.inr ⟨rfl,fun x hx => ?_⟩
    rw [hj] at hx
    exact Option.some.inj ((liveAt_eq_some.mp hx).1.symm.trans hg)
  · exact Or.inl rfl

/-- What follows the cancellation of an order of the same account. -/
theorem Confined.cancelled {id orderId : OrderId} {o : Order} (ho : e.book.get id = some o)
    (h : Confined { e with book := (e.book.cancel id o.accountId).1 } e' evs (some orderId) (some o.accountId)) :
    Confined e e' evs (some orderId) (some o.accountId) := by
  have hback : ∀ k x, liveAt (e.book.cancel id o.accountId).1.orders k = some x → liveAt e.book.orders k = some x := by
    intro k x hx
    rcases liveAt_cancelled ho k with hsame | ⟨hnone,-⟩
    · exact hsame.symm.trans hx
    · rw [hx] at hnone; cases hnone
  refine ⟨h.limits,fun k x hx hne => ?_,fun k x' hx' => ?_,h.acks,h.rejects,fun f hf => ?_⟩
  · rcases liveAt_cancelled ho k with hsame | ⟨-,hown⟩
    · exact h.stays k x (hsame.trans hx) hne
    · rw [hown x hx] at hne
      exact absurd rfl hne
  · rcases h.comes k x' hx' with ⟨x,hx,hred⟩ | hnew
    · exact Or.inl ⟨x,hback k x hx,hred⟩
    · exact Or.inr hnew
  · obtain ⟨htaker,k,x,hx,hid⟩ := h.fills f hf
    exact ⟨htaker,k,x,hback k x hx,hid⟩

theorem handleCancel_confined (e : Engine S) (c : Cancel) :
    Confined e (e.handleCancel c).1 (e.handleCancel c).2 (some c.orderId) (some c.accountId) := by
  rcases e.handleCancel_cases c with ⟨o,-,ho,hacct,hc⟩ | ⟨reason,hc⟩
  · rw [hc,← hacct]
    refine Confined.cancelled ho (.of_same rfl (fun _ _ => rfl) (fun a ha => ?_) (fun r hr => ?_) fun f hf => ?_)
    · obtain rfl : a = _ := by simpa [topThenAck,bookTopEvent,ack] using ha
      rfl
    · simp [topThenAck,bookTopEvent,ack] at hr
    · simp [topThenAck,bookTopEvent,ack] at hf
  · rw [hc]
    exact .rejected e _ _ _ _

theorem handleReplace_confined (e : Engine S) (r : Replace) :
    Confined e (e.handleReplace r).1 (e.handleReplace r).2 (some r.orderId) (some r.accountId) := by
  rcases e.handleReplace_cases r with ⟨o,-,-,ho,hacct,hc⟩ | ⟨-,reason,hc⟩
  · rw [hc,← hacct]
    refine Confined.cancelled ho ?_
    have hnew := ({ e with book := (e.book.cancel r.orderId o.accountId).1 } : Engine S).handleNew_confined (replacement r o)
    rwa [show (replacement r o).accountId = o.accountId from hacct.symm] at hnew
  · rw [hc]
    exact .rejected e _ _ _ _

/-- Every command is confined to its account and its order. -/
theorem process_confined (e : Engine S) (cmd : Command) :
    Confined e (e.process cmd).1 (e.process cmd).2 (answeredOrder cmd) (commandAccountId cmd) := by
  cases cmd with
  | newOrder no => exact e.handleNew_confined no
  | cancel c => exact e.handleCancel_confined c
  | replace r => exact e.handleReplace_confined r
  | setRiskLimits srl =>
    refine .of_same rfl (fun a ha => ?_) (fun a ha => ?_) (fun r hr => ?_) fun f hf => ?_
    · refine (AccountManager.getLimits_setLimits _ _ _ _).trans (if_neg fun heq => ha ?_)
      rw [heq]; rfl
    · obtain rfl : a = _ := by simpa [process,handleSetRiskLimits,ack] using ha
      rfl
    · simp [process,handleSetRiskLimits,ack] at hr
    · simp [process,handleSetRiskLimits,ack] at hf
  | queryAccount qa =>
    refine .of_same rfl (fun _ _ => rfl) (fun a ha => ?_) (fun r hr => ?_) fun f hf => ?_
    · simp [process,handleQueryAccount] at ha
    · simp [process,handleQueryAccount] at hr
    · simp [process,handleQueryAccount] at hf
  | authenticate auth =>
    refine .of_same rfl (fun _ _ => rfl) (fun a ha => ?_) (fun r hr => ?_) fun f hf => ?_
    · simp [process] at ha
    · simp [process] at hr
    · simp [process] at hf

theorem live_confined (e : Engine S) (cmd : Command) :
    Confined e (e.live cmd) (e.process cmd).2 (answeredOrder cmd) (commandAccountId cmd) :=
  let h := e.process_confined cmd
  ⟨h.limits,h.stays,h.comes,h.acks,h.rejects,h.fills⟩

end Engine
end HighPerfTrading
