import HighPerfTrading.Engine.Market
import HighPerfTrading.Engine.SymbolIds
import HighPerfTrading.Engine.Uncrossed
import HighPerfTrading.Library.Walks

/-! The engine refines the market: whatever its slab and its levels look like, a command does to the live
orders and the accounts what the market does, and emits the market's events. -/
namespace HighPerfTrading
namespace OrderBook
open RefBook
variable {S : Type} [Slab S Order] {b : OrderBook S}

/-! ### The book -/

theorem Inv.shows (hb : Inv b) (s : Side) : Market.Shows b.abs s (b.top s) := by
  rw [top_eq]
  cases hbest : bestPrice s (b.levels s) with
  | none =>
    intro p
    by_contra hne
    exact hb.abs_ne_nil.mp hne (levelView_eq_none.mpr (bestPrice_eq_none.mp hbest p))
  | some p =>
    have hp := bestPrice_iff.mp hbest
    obtain ⟨⟨t,os⟩,hv⟩ := Option.ne_none_iff_exists'.mp hp.1
    rw [Option.bind_some,hv,Option.map_some]
    have hmakers : Best b s p ↔ (rules s).IsBest (b.abs s) p := hb.isBest_iff.symm
    refine ⟨hmakers.mp hp,?_⟩
    rw [(hb.total hv).1]
    simp [OrderBook.abs,hv]

omit [Slab S Order] in
theorem wouldCross_iff {side : Side} {limit : Price} : b.wouldCross side limit = true ↔
    ∃ p, bestPrice side.opposite (b.levels side.opposite) = some p ∧ outside side.opposite limit p = false := by
  cases side with
  | buy =>
    simp only [wouldCross,bestAsk,bestPrice,Side.opposite,levels,outside]
    cases OrdMap.first? b.asks <;> simp
  | sell =>
    simp only [wouldCross,bestBid,bestPrice,Side.opposite,levels,outside]
    cases OrdMap.last? b.bids <;> simp

theorem Inv.crosses_iff (hb : Inv b) {side : Side} {limit : Price} :
    Market.Crosses b.abs side limit ↔ b.wouldCross side limit = true := by
  rw [wouldCross_iff]
  constructor
  · rintro ⟨p,hp,hw⟩
    have hpos : (0 : Qty) < (⟨b,1,[]⟩ : Matching S).takerQty := Int64.pos_iff_toInt.mpr Int.one_pos
    obtain ⟨q,hr⟩ := exists_reaches hpos (hb.abs_ne_nil.mp hp) (within_iff.mp hw)
    exact ⟨q,bestPrice_iff.mpr hr.best,hr.within⟩
  · rintro ⟨p,hp,hw⟩
    exact ⟨p,hb.abs_ne_nil.mpr (bestPrice_iff.mp hp).1,within_iff.mpr hw⟩

theorem Inv.distinct (hb : Inv b) {o o' : Order} (ho : b.abs.Rests o) (ho' : b.abs.Rests o')
    (h : o.orderId = o'.orderId) : o = o' := by
  have hget := hb.rests_iff.mp ho
  rw [h,hb.rests_iff.mp ho'] at hget
  exact (Option.some.inj hget).symm

/-- Matching is a walk of the reference. -/
theorem Inv.abs_matchTaker (hb : Inv b) (taker : OrderId) (side : Side) (limit : Price) (qty : Qty) :
    ∃ ts Q, (b.matchTaker taker side limit qty).2 = ts.map (fill taker) ∧
      (rules side.opposite).Walk (RefBook.Within side limit) (b.abs side.opposite) qty.toInt ts Q ∧
      (b.matchTaker taker side limit qty).1.abs = Function.update b.abs side.opposite Q := by
  obtain ⟨m',hrun,he⟩ := matchTaker_run b taker side limit qty
  obtain ⟨ts,Q,hfs,hw,hQ⟩ := Inv.walk hb hrun
  rw [he]
  exact ⟨ts,Q,hfs,hw,hQ⟩

/-- The quantity of a trade fits the event that reports it. -/
theorem fill_qty {makers : Side} {within : Price → Prop} {A B : PriceTime.Queues Price Order} {q : ℤ}
    {ts : List (PriceTime.Trade Price Order)} (h : (rules makers).Walk within A q ts B)
    {t : PriceTime.Trade Price Order} (ht : t ∈ ts) (taker : OrderId) : (fill taker t).qty.toInt = t.qty := by
  obtain ⟨left,hpos,hq⟩ := h.trade_qty ht
  have hmaker : (rules makers).qty t.maker = t.maker.qtyRem.toInt := rfl
  have hlow := t.maker.qtyRem.le_toInt
  have hhigh := t.maker.qtyRem.toInt_lt
  refine Int64.toInt_ofInt_of_le ?_ ?_ <;> omega

end OrderBook

namespace Engine
open OrderBook OrderBook.RefBook
variable {S : Type} [Slab S Order] {e : Engine S}

/-- What members can know of an engine. -/
def market (e : Engine S) : Market where
  symbolId := e.book.symbolId
  queues := e.book.abs
  positions := e.accountManager.getPosition
  limits := e.accountManager.getLimits

theorem market_distinct (hb : Inv e.book) : e.market.Distinct := fun _ _ => hb.distinct

/-! ### The accounts -/

omit [Slab S Order] in
theorem checkRisk_of_within {m : AccountManager} {acct : AccountId} {side : Side} {qty : Qty}
    (hsize : qty ≤ (m.getLimits acct).maxOrderSize)
    (hlong : (m.getPosition acct).netPosition+AccountManager.signed side qty ≤ (m.getLimits acct).maxLongPosition)
    (hshort : -(m.getLimits acct).maxShortPosition ≤ (m.getPosition acct).netPosition+AccountManager.signed side qty) :
    m.checkRisk acct side qty = .ok () := by
  unfold AccountManager.checkRisk
  cases side with
  | buy =>
    simp only [AccountManager.signed] at hlong hshort ⊢
    rw [if_neg (Int64.not_lt.mpr hsize),if_neg (Int64.not_lt.mpr hlong),if_neg (Int64.not_lt.mpr hshort)]
  | sell =>
    simp only [AccountManager.signed,sub_eq_add_neg] at hlong hshort ⊢
    rw [if_neg (Int64.not_lt.mpr hsize),if_neg (Int64.not_lt.mpr hlong),if_neg (Int64.not_lt.mpr hshort)]

theorem checkRisk_iff {acct : AccountId} {side : Side} {qty : Qty} :
    e.accountManager.checkRisk acct side qty = .ok () ↔ e.market.Permits acct side qty :=
  ⟨AccountManager.checkRisk_ok,fun h => checkRisk_of_within h.1 h.2.1 h.2.2⟩

omit [Slab S Order] in
theorem checkRisk_error {m : AccountManager} {acct : AccountId} {side : Side} {qty : Qty} {reason : RejectReason}
    (h : m.checkRisk acct side qty = .error reason) : reason = .risk := by
  unfold AccountManager.checkRisk at h
  simp only at h
  split_ifs at h <;> exact (Except.error.inj h).symm

omit [Slab S Order] in
theorem getPosition_trade (m : AccountManager) (acct : AccountId) (side : Side) (price : Price) (qty : Qty) :
    (m.applyFill acct side price qty).getPosition = Market.trade m.getPosition acct side price qty := by
  funext x
  unfold AccountManager.applyFill Market.trade
  simp only [AccountManager.getPosition,OrdMap.get_insert]
  by_cases h : acct = x
  · subst h
    rw [if_pos rfl,Function.update_self]
    cases side <;> rfl
  · rw [if_neg h,Function.update_of_ne (Ne.symm h)]
    rfl

omit [Slab S Order] in
theorem getPosition_settled (m : AccountManager) (no : NewOrder) (fs : List MatchFill) :
    (settle m no fs).getPosition = Market.settled m.getPosition no fs := by
  induction fs generalizing m with
  | nil => rfl
  | cons f fs ih =>
    rw [settle,List.foldl_cons,← settle,ih,getPosition_trade,getPosition_trade]
    rfl

/-! ### A new order -/

theorem refusal_eq (hb : Inv e.book) (no : NewOrder) : e.market.refusal no = e.refusal no := by
  unfold Market.refusal refusal
  have hcross : Market.Crosses e.market.queues no.side no.price ↔ e.book.wouldCross no.side no.price = true :=
    hb.crosses_iff
  by_cases hv : no.symbolId ≠ e.book.symbolId ∨ no.qty ≤ 0
  · rw [if_pos hv]
    exact if_pos hv
  have hv' : ¬ (no.symbolId ≠ e.market.symbolId ∨ no.qty ≤ 0) := hv
  rw [if_neg hv,if_neg hv']
  cases hrisk : e.accountManager.checkRisk no.accountId no.side no.qty with
  | error reason =>
    have hnot : ¬ e.market.Permits no.accountId no.side no.qty := by
      rw [← checkRisk_iff,hrisk]
      simp
    rw [if_pos hnot,checkRisk_error hrisk]
  | ok _ =>
    rw [if_neg (not_not.mpr (checkRisk_iff.mp hrisk))]
    simp only [hcross]

omit [Slab S Order] in
theorem topThenAck_unnumbered (e : Engine S) (cs : UInt64) (id : OrderId) :
    (e.topThenAck cs id).2.map Event.unnumbered =
      Market.answered e.book.symbolId (e.book.top .buy) (e.book.top .sell) cs id := rfl

theorem fillEvents_unnumbered (no : NewOrder) (sym : SymbolId) (seq : UInt64) (fs : List MatchFill) :
    (fillEvents no sym seq fs).map Event.unnumbered = Market.fillEvents no sym fs := by
  induction fs generalizing seq with
  | nil => rfl
  | cons f fs ih =>
    rw [fillEvents,List.map_cons,ih]
    rfl

/-- The remainder of an order that has walked the book. -/
theorem remainder_eq {b : OrderBook S} {no : NewOrder} {ts : List (PriceTime.Trade Price Order)}
    (h : fillsOf b no = ts.map (fill no.orderId)) :
    remainder b no = Int64.ofInt (no.qty.toInt-(ts.map PriceTime.Trade.qty).sum) := by
  have hsum : ((ts.map (fill no.orderId)).map MatchFill.qty).sum = Int64.ofInt (ts.map PriceTime.Trade.qty).sum := by
    rw [← Int64.sum_ofInt,List.map_map]
    rfl
  rw [remainder,h,hsum,Int64.ofInt_sub,Int64.ofInt_toInt]

theorem inv_newBook {b : OrderBook S} (hb : Inv b) {no : NewOrder} (hid : no.tif = .gtc → b.get no.orderId = none)
    (hq : liveQty (newBook b no) < 2^63) : Inv (newBook b no) :=
  have hsound : Sound (newBook b no) := by
    have hs := hb.sound.matchTaker no.orderId no.side no.price no.qty
    rw [← matched_eq] at hs
    unfold newBook at hq ⊢
    split_ifs at hq ⊢ with hrest
    · exact hs.insertResting hrest.1 hq
    · exact hs
  hsound.inv (wf_newBook hb.toWf hid)

/-- The queues after an accepted order. -/
theorem abs_newBook {b : OrderBook S} (hb : Inv b) (no : NewOrder) (hpos : 0 < no.qty) :
    ∃ ts Q, fillsOf b no = ts.map (fill no.orderId) ∧
      (rules no.side.opposite).Walk (RefBook.Within no.side no.price) (b.abs no.side.opposite) no.qty.toInt ts Q ∧
      (newBook b no).abs = Market.rested b.abs no ts Q := by
  obtain ⟨ts,Q,hfs,hw,habs⟩ := hb.abs_matchTaker no.orderId no.side no.price no.qty
  have hinv := hb.matchTaker no.orderId no.side no.price no.qty
  rw [← matched_eq] at hfs habs hinv
  simp only at hfs habs hinv
  refine ⟨ts,Q,hfs,hw,?_⟩
  have hrem := remainder_eq hfs
  have hleft : 0 < remainder b no ↔ 0 < no.qty.toInt-(ts.map PriceTime.Trade.qty).sum := by
    obtain ⟨left,hmoved⟩ := hb.toWf.moved no.orderId no.side no.price (Int64.le_of_lt hpos)
    rw [← matched_eq] at hmoved
    have htaker : no.qty.toInt = left.toInt+tradedQty (fillsOf b no) := hmoved.taker
    have hsum : tradedQty (fillsOf b no) = (ts.map PriceTime.Trade.qty).sum := by
      rw [hfs,tradedQty,List.map_map]
      exact congrArg List.sum (List.map_congr_left fun t ht => fill_qty hw ht no.orderId)
    have hrest : remainder b no = left := hmoved.left.symm
    rw [hrest,Int64.pos_iff_toInt]
    omega
  unfold newBook Market.rested
  simp only [hleft]
  split_ifs with hrest
  · rw [hinv.abs_insertResting (o := resting no (remainder b no)) (hleft.mpr hrest.1),habs,hrem]
  · exact habs

/-- An order that may rest only under a free id enters the market. -/
theorem enters (hb : Inv e.book) {no : NewOrder}
    (hid : e.refusal no = none → no.tif = .gtc → e.book.get no.orderId = none)
    (hq : liveQty (e.handleNew no).1.book < 2^63) :
    Inv (e.handleNew no).1.book ∧
      e.market.Enters no (e.handleNew no).1.market ((e.handleNew no).2.map Event.unnumbered) := by
  rw [handleNew_eq] at hq ⊢
  have href := refusal_eq hb no
  cases hr : e.refusal no with
  | some reason => exact ⟨hb,.refused (href.trans hr)⟩
  | none =>
    simp only [hr] at hq ⊢
    obtain ⟨hbook,hacct,-,-⟩ := accepted_spec hr
    obtain ⟨hexec,-,-,hev⟩ := execute_spec e no (refusal_none hr).2.1
    rw [hbook] at hq
    have hinv := inv_newBook hb (hid hr) hq
    obtain ⟨ts,Q,hfs,hw,habs⟩ := abs_newBook hb no (refusal_none hr).2.1
    have hsym : (newBook e.book no).symbolId = e.book.symbolId := symbolId_newBook ..
    have hmatched : (matched e.book no).symbolId = e.book.symbolId := by
      obtain ⟨left,hout⟩ := hb.toWf.matchTaker no.orderId no.side no.price no.qty
      rw [← matched_eq] at hout
      exact hout.symbol
    have hbid := hinv.shows .buy
    have hask := hinv.shows .sell
    rw [habs] at hbid hask
    refine ⟨hbook ▸ hinv,?_⟩
    have henter := Market.Enters.matched (M := e.market) (href.trans hr) hw hbid hask
    convert henter using 1
    · unfold market
      simp only [hbook,hacct,habs,hfs,hsym,getPosition_settled,Market.mk.injEq,true_and]
      funext a
      exact getLimits_settle ..
    · rw [accepted,List.map_append,hev,fillEvents_unnumbered,topThenAck_unnumbered,hexec,hsym,hmatched,hfs]
      rfl

/-! ### Any command -/

/-- No accepted order rests under a live id, and the live quantities after the command sum below `2^63`. -/
def Orderly (e : Engine S) (cmd : Command) : Prop := KeepsIds e cmd ∧ liveQty (e.process cmd).1.book < 2^63

instance (e : Engine S) (cmd : Command) : Decidable (e.Orderly cmd) := inferInstanceAs (Decidable (_ ∧ _))

/-- The market once an order has been taken out. -/
theorem market_cancel (hb : Inv e.book) {id : OrderId} {o : Order} (ho : e.book.get id = some o) :
    ({ e with book := (e.book.cancel id o.accountId).1 } : Engine S).market =
      { e.market with queues := e.market.queues.remove id } := by
  unfold market
  simp only [hb.abs_cancel ho,symbolId_cancel]

theorem handleCancel_steps (hb : Inv e.book) (c : Cancel) :
    Inv (e.handleCancel c).1.book ∧
      e.market.Step (.cancel c) (e.handleCancel c).1.market ((e.handleCancel c).2.map Event.unnumbered) := by
  unfold handleCancel
  by_cases hs : c.symbolId ≠ e.book.symbolId
  · rw [if_pos hs]
    exact ⟨hb,.cancelInvalid hs⟩
  rw [if_neg hs]
  have hsym : c.symbolId = e.market.symbolId := not_not.mp hs
  rcases owned_or_refused e.book c.orderId c.accountId with ⟨o,ho,hacct⟩ | hno
  · have hid := (hb.toWf.get_live ho).1
    have hinv := hb.cancel ho
    have hbid := hinv.shows .buy
    have hask := hinv.shows .sell
    rw [hb.abs_cancel ho] at hbid hask
    rw [← hacct]
    simp only [cancel_accepted ho,if_true]
    refine ⟨hinv,?_⟩
    have hrests : e.market.queues.Rests o := hb.rests_iff.mpr (hid ▸ ho)
    have hstep := Market.Step.cancelled hsym hrests hid hacct hbid hask
    rw [← market_cancel hb ho] at hstep
    rw [topThenAck_unnumbered,symbolId_cancel]
    exact hstep
  · simp only [cancel_refused hno]
    exact ⟨hb,.cancelUnknown hsym (hb.owner_iff.mpr hno)⟩

theorem handleReplace_steps (hb : Inv e.book) {r : Replace} (hq : liveQty (e.handleReplace r).1.book < 2^63) :
    Inv (e.handleReplace r).1.book ∧
      e.market.Step (.replace r) (e.handleReplace r).1.market ((e.handleReplace r).2.map Event.unnumbered) := by
  unfold handleReplace at hq ⊢
  by_cases hs : r.symbolId ≠ e.book.symbolId ∨ r.newQty ≤ 0
  · rw [if_pos hs]
    exact ⟨hb,.replaceInvalid hs⟩
  rw [if_neg hs] at hq ⊢
  obtain ⟨hsym,hpos⟩ := not_or.mp hs
  have hsym : r.symbolId = e.market.symbolId := not_not.mp hsym
  have hpos := Int64.not_le.mp hpos
  have hunknown (hno : ∀ o, e.book.get r.orderId = some o → o.accountId ≠ r.accountId) :
      e.market.Step (.replace r) e.market (Market.rejected r.clientSeq r.orderId .notFound) :=
    .replaceUnknown hsym hpos (hb.owner_iff.mpr hno)
  cases ho : e.book.get r.orderId with
  | none => exact ⟨hb,hunknown (by simp [ho])⟩
  | some o =>
    rw [ho] at hq
    simp only at hq ⊢
    by_cases hacct : o.accountId ≠ r.accountId
    · rw [if_pos hacct]
      exact ⟨hb,hunknown (by simpa [ho] using hacct)⟩
    · rw [if_neg hacct] at hq ⊢
      have hacct := not_not.mp hacct
      have hid := (hb.toWf.get_live ho).1
      rw [← hacct] at hq ⊢
      -- the id of the cancelled order is free for the new one
      have hfree : (e.book.cancel r.orderId o.accountId).1.get r.orderId = none :=
        (get_cancel hb.toWf ho r.orderId).trans (if_pos rfl)
      obtain ⟨hinv,henter⟩ := enters (e := { e with book := (e.book.cancel r.orderId o.accountId).1 })
        (hb.cancel ho) (fun _ _ => hfree) hq
      rw [market_cancel hb ho] at henter
      have hrests : e.market.queues.Rests o := hb.rests_iff.mpr (hid ▸ ho)
      exact ⟨hinv,.replaced hsym hpos hrests hid hacct henter⟩

/-- Each orderly command is a step of the market. -/
theorem steps (hb : Inv e.book) {cmd : Command} (h : e.Orderly cmd) : Inv (e.process cmd).1.book ∧
    e.market.Step cmd (e.process cmd).1.market ((e.process cmd).2.map Event.unnumbered) := by
  obtain ⟨hkeeps,hq⟩ := h
  cases cmd with
  | newOrder no =>
    obtain ⟨hinv,henter⟩ := enters hb hkeeps hq
    exact ⟨hinv,.newOrder henter⟩
  | setRiskLimits srl =>
    refine ⟨hb,?_⟩
    have hlimits : (e.accountManager.setLimits srl.accountId srl.limits).getLimits =
        Function.update e.accountManager.getLimits srl.accountId srl.limits := by
      funext a
      rw [AccountManager.getLimits_setLimits,Function.update_apply]
    have hstep := Market.Step.setRiskLimits (M := e.market) srl
    rw [market,← hlimits] at hstep
    exact hstep
  | queryAccount qa => exact ⟨hb,.queryAccount qa⟩
  | authenticate auth => exact ⟨hb,.authenticate auth⟩
  | cancel c => exact handleCancel_steps hb c
  | replace r => exact handleReplace_steps hb hq

/-! ### Runs -/

/-- Every command of a sequence is orderly where it is processed. -/
def OrderlyRun (e : Engine S) : List Command → Prop
  | [] => True
  | cmd::cmds => e.Orderly cmd ∧ OrderlyRun (e.process cmd).1 cmds

instance decidableOrderlyRun : (cmds : List Command) → (e : Engine S) → Decidable (e.OrderlyRun cmds)
  | [],_ => isTrue trivial
  | cmd::cmds,e =>
    match inferInstanceAs (Decidable (e.Orderly cmd)),decidableOrderlyRun cmds (e.process cmd).1 with
    | isTrue h,isTrue hs => isTrue ⟨h,hs⟩
    | isFalse h,_ => isFalse fun hn => h hn.1
    | _,isFalse hs => isFalse fun hn => hs hn.2

theorem run_steps (hb : Inv e.book) {cmds : List Command} (h : e.OrderlyRun cmds) : Inv (e.after cmds).book ∧
    Market.Run e.market cmds (e.after cmds).market ((e.emitted cmds).map Event.unnumbered) := by
  induction cmds generalizing e with
  | nil => exact ⟨hb,.nil _⟩
  | cons cmd cmds ih =>
    obtain ⟨hinv,hstep⟩ := steps hb h.1
    obtain ⟨hafter,hrun⟩ := ih hinv h.2
    rw [emitted,List.map_append]
    exact ⟨hafter,.cons hstep hrun⟩

/-- The market has no other run over orderly commands. -/
theorem run_unique (hb : Inv e.book) {cmds : List Command} (h : e.OrderlyRun cmds) {M : Market} {evs : List Event}
    (hrun : Market.Run e.market cmds M evs) :
    M = (e.after cmds).market ∧ evs = (e.emitted cmds).map Event.unnumbered := by
  induction cmds generalizing e M evs with
  | nil =>
    cases hrun
    exact ⟨rfl,rfl⟩
  | cons cmd cmds ih =>
    cases hrun with
    | cons hstep tail =>
      obtain ⟨hinv,hown⟩ := steps hb h.1
      obtain ⟨rfl,rfl⟩ := hstep.deterministic (market_distinct hb) hown
      obtain ⟨hM,hevs⟩ := ih hinv h.2 tail
      rw [hevs,emitted,List.map_append]
      exact ⟨hM,rfl⟩

theorem market_new : (Engine.new : Engine S).market = Market.new 1 := by
  have habs : (OrderBook.new 1 : OrderBook S).abs = fun _ _ => [] := by
    funext s p
    cases s <;> simp [OrderBook.abs,levelView,OrderBook.new,levels]
  unfold market Market.new Engine.new
  rw [Market.mk.injEq]
  refine ⟨rfl,habs,?_,?_⟩
  · funext a
    simp [AccountManager.getPosition,AccountManager.new]
  · funext a
    simp [AccountManager.getLimits,AccountManager.new]

/-- Over any orderly commands the engine does what the market does, and nothing else: the same queues, the
same positions and limits, and the same events. -/
theorem refines_market {cmds : List Command} (h : (Engine.new : Engine S).OrderlyRun cmds) (M : Market) (evs : List Event) :
    Market.Run (Market.new 1) cmds M evs ↔
      M = ((Engine.new : Engine S).after cmds).market ∧ evs = ((Engine.new : Engine S).emitted cmds).map Event.unnumbered := by
  rw [← market_new (S := S)]
  constructor
  · exact run_unique (Inv.new 1) h
  · rintro ⟨rfl,rfl⟩
    exact (run_steps (Inv.new 1) h).2

/-- A buyer takes two lots of an ask of five, and the seller cancels the rest. -/
theorem refines_market_partial : ∃ M, Market.Run (Market.new 1)
    [.newOrder ⟨1,1,7,1,.sell,100,5,.gtc,⟨false⟩⟩,.newOrder ⟨2,2,8,1,.buy,101,2,.ioc,⟨false⟩⟩,.cancel ⟨3,1,7,1⟩] M
    [.bookTop ⟨0,1,none,none,some 100,some 5⟩,.ack ⟨0,1,1⟩,.fill ⟨0,2,1,2,1,100,2⟩,
      .bookTop ⟨0,1,none,none,some 100,some 3⟩,.ack ⟨0,2,2⟩,.bookTop ⟨0,1,none,none,none,none⟩,.ack ⟨0,3,1⟩] :=
  ⟨_,(refines_market (S := FreeListSlab Order) (by decide +kernel) _ _).mpr ⟨rfl,by decide +kernel⟩⟩

end Engine
end HighPerfTrading
