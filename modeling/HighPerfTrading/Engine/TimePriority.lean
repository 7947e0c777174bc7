import HighPerfTrading.Engine.Conservation
import HighPerfTrading.Engine.MarketRefines

/-! Price and time priority over whole runs: no order trades at a worse price, or at the same price but after it
arrived later, before everything that was left of the other order has been filled. -/
namespace HighPerfTrading
namespace Market
open OrderBook OrderBook.RefBook

/-- What a command does to the queues: an order leaves, or an order enters and trades. -/
inductive Moves (A : RefBook) (cmd : Command) (A' : RefBook) (evs : List Event) : Prop
  | quiet (hA : A' = A) (hev : ∀ f, .fill f ∉ evs)
  | removed (id : OrderId) (hid : commandOrderId cmd = some id) (hA : A' = A.remove id) (hev : ∀ f, .fill f ∉ evs)
  | entered (no : NewOrder) (sym : SymbolId) (B : RefBook) (ts : List (PriceTime.Trade Price Order))
      (Q : PriceTime.Queues Price Order) (answer : List Event) (hid : commandOrderId cmd = some no.orderId)
      (hB : B = A ∨ B = A.remove no.orderId)
      (hw : (rules no.side.opposite).Walk (RefBook.Within no.side no.price) (B no.side.opposite) no.qty.toInt ts Q)
      (hA : A' = rested B no ts Q) (hans : ∀ f, .fill f ∉ answer)
      (hev : evs = fillEvents no sym (ts.map (fill no.orderId)) ++ answer)

variable {M M' : Market} {evs : List Event}

theorem not_fill_rejected (cs : UInt64) (id : OrderId) (r : RejectReason) (f : Fill) : .fill f ∉ rejected cs id r := by
  simp [rejected]

theorem not_fill_answered (sym : SymbolId) (bid ask : Option (Price × Qty)) (cs : UInt64) (id : OrderId) (f : Fill) :
    .fill f ∉ answered sym bid ask cs id := by simp [answered]

theorem Step.moves {cmd : Command} (h : M.Step cmd M' evs) : Moves M.queues cmd M'.queues evs := by
  cases h with
  | newOrder h =>
    cases h with
    | refused _ => exact .quiet rfl (not_fill_rejected _ _ _)
    | matched _ hw => exact .entered _ _ _ _ _ _ rfl (Or.inl rfl) hw rfl (not_fill_answered _ _ _ _ _) rfl
  | cancelInvalid _ => exact .quiet rfl (not_fill_rejected _ _ _)
  | cancelUnknown _ _ => exact .quiet rfl (not_fill_rejected _ _ _)
  | cancelled => exact .removed _ rfl rfl (not_fill_answered _ _ _ _ _)
  | replaceInvalid _ => exact .quiet rfl (not_fill_rejected _ _ _)
  | replaceUnknown _ _ _ => exact .quiet rfl (not_fill_rejected _ _ _)
  | replaced _ _ _ _ _ h =>
    cases h with
    | refused _ => exact .removed _ rfl rfl (not_fill_rejected _ _ _)
    | matched _ hw => exact .entered _ _ _ _ _ _ rfl (Or.inr rfl) hw rfl (not_fill_answered _ _ _ _ _) rfl
  | setRiskLimits _ => exact .quiet rfl (by simp)
  | queryAccount _ => exact .quiet rfl (by simp)
  | authenticate _ => exact .quiet rfl (by simp)

end Market

namespace OrderBook
variable {S : Type} [Slab S Order] {b : OrderBook S}

theorem Inv.abs_mem (hb : Inv b) {s : Side} {p : Price} {o : Order} (ho : o ∈ b.abs s p) :
    b.get o.orderId = some o ∧ o.side = s ∧ o.price = p ∧ 0 < o.qtyRem := by
  unfold OrderBook.abs at ho
  cases hv : levelView b s p with
  | none => simp [hv] at ho
  | some v =>
    have hm : o ∈ v.2 := by simpa [hv] using ho
    obtain ⟨hget,hs,hp⟩ := hb.toWf.level_orders hv hm
    exact ⟨hget,hs,hp,level_pos hv o hm⟩

end OrderBook

namespace Engine
open OrderBook OrderBook.RefBook
variable {S : Type} [Slab S Order] {e : Engine S} {cmd : Command} {no : NewOrder} {id : OrderId}

/-! ### Quantities -/

theorem newBook_filled {b : OrderBook S} (hb : Wf b) (hpos : 0 < no.qty) (hfree : no.tif = .gtc → b.get no.orderId = none)
    (hid : no.orderId ≠ id) : b.qtyUnder id = (newBook b no).qtyUnder id+madeQty (fillsOf b no) id := by
  obtain ⟨left,hmoved⟩ := hb.moved no.orderId no.side no.price (Int64.le_of_lt hpos)
  obtain ⟨left',hout⟩ := hb.matchTaker no.orderId no.side no.price no.qty
  rw [← matched_eq] at hmoved hout
  have hmakers : b.qtyUnder id = (matched b no).qtyUnder id+madeQty (fillsOf b no) id := hmoved.makers id
  rw [hmakers]
  unfold newBook
  split_ifs with hrest
  · have hnone : (matched b no).get no.orderId = none := by
      refine (hout.keeps _ fun f hf he => ?_).trans (hfree hrest.2)
      obtain ⟨_,_,_,o,hget,_⟩ := hout.maker f hf
      rw [he,hfree hrest.2] at hget
      cases hget
    have hget := get_insertResting hout.wf (o := resting no (remainder b no)) hrest.1 hnone id
    have hother := hget.trans (if_neg (Ne.symm hid))
    rw [qtyUnder_congr hother]
  · rfl

/-- An order that a command does not name shrinks by what is filled of it. -/
theorem handleNew_filled (hb : Wf e.book) (hkeeps : e.refusal no = none → no.tif = .gtc → e.book.get no.orderId = none)
    (hid : no.orderId ≠ id) :
    e.book.qtyUnder id = (e.handleNew no).1.book.qtyUnder id+filledIn (e.handleNew no).2 id := by
  rw [handleNew_eq]
  cases hr : e.refusal no with
  | some reason => exact (add_zero _).symm
  | none =>
    obtain ⟨hbook,-,-,t,seq,hev⟩ := accepted_spec hr
    obtain ⟨left,hout⟩ := hb.matchTaker no.orderId no.side no.price no.qty
    rw [← matched_eq] at hout
    have hmade := newBook_filled hb (refusal_none hr).2.1 (hkeeps hr) hid
    have hfilled : filledIn (fillEvents no (matched e.book no).symbolId e.serverSeq (fillsOf e.book no)) id = _ :=
      filledIn_fillEvents (matched e.book no).symbolId e.serverSeq (fun f hf => (hout.maker f hf).1) id
    have hans : filledIn [.bookTop t,.ack ⟨seq,no.clientSeq,no.orderId⟩] id = 0 := rfl
    rw [if_neg hid,zero_add] at hfilled
    simp only [hbook,hev,filledIn_append,hans,add_zero]
    exact hmade.trans (congrArg _ hfilled.symm)

theorem process_filled (hb : Wf e.book) (hkeeps : KeepsIds e cmd) (hid : commandOrderId cmd ≠ some id) :
    e.book.qtyUnder id = (e.process cmd).1.book.qtyUnder id+filledIn (e.process cmd).2 id := by
  cases cmd with
  | newOrder no => exact handleNew_filled hb hkeeps fun he => hid (congrArg some he)
  | setRiskLimits srl => exact (add_zero _).symm
  | queryAccount qa => exact (add_zero _).symm
  | authenticate auth => exact (add_zero _).symm
  | cancel c =>
    have hne : c.orderId ≠ id := fun he => hid (congrArg some he)
    rcases e.handleCancel_cases c with ⟨o,-,ho,-,hc⟩ | ⟨reason,hc⟩
    · have hget : (e.book.cancel c.orderId o.accountId).1.get id = e.book.get id :=
        (get_cancel hb ho id).trans (if_neg (Ne.symm hne))
      rw [process,hc,topThenAck_book,qtyUnder_congr hget]
      exact (add_zero _).symm
    · rw [process,hc]
      exact (add_zero _).symm
  | replace r =>
    have hne : r.orderId ≠ id := fun he => hid (congrArg some he)
    rcases e.handleReplace_cases r with ⟨o,-,-,ho,-,hc⟩ | ⟨-,reason,hc⟩
    · have hget := get_cancel hb ho
      have hother : (e.book.cancel r.orderId o.accountId).1.get id = e.book.get id :=
        (hget id).trans (if_neg (Ne.symm hne))
      rw [process,hc,← qtyUnder_congr hother]
      exact handleNew_filled (e := { e with book := (e.book.cancel r.orderId o.accountId).1 }) (hb.cancel ho)
        (fun _ _ => (hget r.orderId).trans (if_pos rfl)) hne
    · rw [process,hc]
      exact (add_zero _).symm

/-! ### One fill -/

/-- Where an element of a list that is mapped onto two parts comes from, when it is not in the second. -/
theorem exists_split {α β γ : Type} {g : α → γ} {h : β → γ} {xs ys : List α} {a : α} {bs : List β} {cs : List γ}
    (he : (xs ++ a::ys).map g = bs.map h ++ cs) (ha : g a ∉ cs) :
    ∃ us b vs, bs = us ++ b::vs ∧ xs.map g = us.map h ∧ g a = h b := by
  induction xs generalizing bs with
  | nil =>
    cases bs with
    | nil =>
      have hmem : g a ∈ (a::ys).map g := List.mem_cons_self ..
      rw [List.nil_append] at he
      rw [he] at hmem
      exact absurd hmem ha
    | cons b bs => exact ⟨[],b,bs,rfl,rfl,(List.cons.inj he).1⟩
  | cons x xs ih =>
    cases bs with
    | nil =>
      have hmem : g a ∈ ((x::xs) ++ a::ys).map g := List.mem_map_of_mem (by simp)
      rw [he] at hmem
      exact absurd hmem ha
    | cons b bs =>
      obtain ⟨hxb,htail⟩ := List.cons.inj he
      obtain ⟨us,b',vs,rfl,hus,hb'⟩ := ih htail
      exact ⟨b::us,b',vs,rfl,by rw [List.map_cons,List.map_cons,hxb,hus],hb'⟩

/-- A fill among a command's events is a trade of its walk, and the fills before it are the trades before that. -/
structure FillOf (e : Engine S) (cmd : Command) (pre : List Event) (f : Fill) (no : NewOrder) (B : RefBook)
    (us : List (PriceTime.Trade Price Order)) (t : PriceTime.Trade Price Order) (vs : List (PriceTime.Trade Price Order)) :
    Prop where
  named : commandOrderId cmd = some no.orderId
  queues : B = e.book.abs ∨ B = e.book.abs.remove no.orderId
  walk : ∃ Q, (rules no.side.opposite).Walk (RefBook.Within no.side no.price) (B no.side.opposite) no.qty.toInt
    (us ++ t::vs) Q
  before : ∃ sym, pre.map Event.unnumbered = Market.fillEvents no sym (us.map (fill no.orderId))
  maker : e.book.get f.makerOrderId = some t.maker
  side : t.maker.side = no.side.opposite
  price : t.maker.price = t.price
  filled : f.price = t.price ∧ f.qty.toInt = t.qty ∧ 0 < t.qty

theorem rests_of_queues {A B : RefBook} {k : OrderId} (hB : B = A ∨ B = A.remove k) {s : Side} {p : Price} {o : Order}
    (ho : o ∈ B s p) : o ∈ A s p := by
  rcases hB with rfl | rfl
  · exact ho
  · exact List.mem_of_mem_filter ho

theorem queue_remove {A : RefBook} {k : OrderId} {s : Side} {p : Price} {xs ys : List Order} {x : Order}
    (hx : A s p = xs ++ x::ys) (hne : x.orderId ≠ k) :
    ∃ xs' ys', A.remove k s p = xs' ++ x::ys' ∧ ∀ z ∈ xs', z ∈ xs := by
  let others := fun o : Order => decide (o.orderId ≠ k)
  refine ⟨xs.filter others,ys.filter others,?_,fun z hz => List.mem_of_mem_filter hz⟩
  have hfilter : A.remove k s p = (A s p).filter others := rfl
  rw [hfilter,hx,List.filter_append,List.filter_cons_of_pos (by simpa [others] using hne)]

theorem queue_of_queues {A B : RefBook} {k : OrderId} (hB : B = A ∨ B = A.remove k) {s : Side} {p : Price}
    {xs ys : List Order} {x : Order} (hx : A s p = xs ++ x::ys) (hne : x.orderId ≠ k) :
    ∃ xs' ys', B s p = xs' ++ x::ys' ∧ ∀ z ∈ xs', z ∈ xs := by
  rcases hB with rfl | rfl
  · exact ⟨xs,ys,hx,fun z hz => hz⟩
  · exact queue_remove hx hne

theorem exists_fillOf (hb : Inv e.book) (ho : e.Orderly cmd) {pre post : List Event} {f : Fill}
    (hev : (e.process cmd).2 = pre ++ .fill f::post) : ∃ no B us t vs, FillOf e cmd pre f no B us t vs := by
  obtain ⟨-,hstep⟩ := steps hb ho
  rw [hev] at hstep
  have hfill : (Event.fill f).unnumbered ∈ (pre ++ .fill f::post).map Event.unnumbered := List.mem_map_of_mem (by simp)
  cases hstep.moves with
  | quiet _ hno => exact absurd hfill (hno _)
  | removed _ _ _ hno => exact absurd hfill (hno _)
  | entered no sym B ts Q answer hid hB hw hA hans hevs =>
    rw [Market.fillEvents,List.map_map] at hevs
    obtain ⟨us,t,vs,rfl,hus,ht⟩ := exists_split hevs (hans _)
    obtain ⟨-,-,-,-,hmaker,hprice,hqty⟩ := Fill.mk.inj (Event.fill.inj ht)
    have hmem := hw.maker_mem (t := t) (by simp)
    obtain ⟨hget,hside,hp,hpos⟩ := hb.abs_mem (rests_of_queues hB hmem)
    obtain ⟨left,hleft,hq⟩ := hw.trade_qty (t := t) (by simp)
    have hmade : (rules no.side.opposite).qty t.maker = t.maker.qtyRem.toInt := rfl
    have hpos := Int64.pos_iff_toInt.mp hpos
    refine ⟨no,B,us,t,vs,hid,hB,⟨Q,hw⟩,⟨sym,?_⟩,?_,hside,hp,hprice,?_,by omega⟩
    · rw [hus,Market.fillEvents,List.map_map]
    · have hmaker : f.makerOrderId = t.maker.orderId := hmaker
      rw [hmaker,hget]
    · have hqty : f.qty = (fill no.orderId t).qty := hqty
      rw [hqty,fill_qty hw (by simp) no.orderId]

/-- Only positive quantities are filled, so what has been filled of an order only grows. -/
theorem filledIn_nonneg {evs : List Event} (h : ∀ f, .fill f ∈ evs → 0 ≤ f.qty.toInt) (id : OrderId) :
    0 ≤ filledIn evs id := by
  refine List.sum_nonneg fun n hn => ?_
  obtain ⟨f,hf,rfl⟩ := List.mem_map.mp hn
  have hq := h f (mem_fillsIn.mp hf)
  split_ifs <;> omega

theorem fill_nonneg (hb : Inv e.book) (ho : e.Orderly cmd) {f : Fill} (hf : .fill f ∈ (e.process cmd).2) :
    0 ≤ f.qty.toInt := by
  obtain ⟨pre,post,hev⟩ := List.append_of_mem hf
  obtain ⟨no,B,us,t,vs,h⟩ := exists_fillOf hb ho hev
  obtain ⟨-,hq,hpos⟩ := h.filled
  omega

theorem le_filledIn {evs : List Event} (h : ∀ f, .fill f ∈ evs → 0 ≤ f.qty.toInt) {g : Fill} (hg : .fill g ∈ evs) :
    g.qty.toInt ≤ filledIn evs g.makerOrderId := by
  have hmem : (if g.takerOrderId = g.makerOrderId then g.qty.toInt else 0)+
      (if g.makerOrderId = g.makerOrderId then g.qty.toInt else 0) ∈ (fillsIn evs).map fun f : Fill =>
        (if f.takerOrderId = g.makerOrderId then f.qty.toInt else 0)+
          (if f.makerOrderId = g.makerOrderId then f.qty.toInt else 0) :=
    List.mem_map.mpr ⟨g,mem_fillsIn.mpr hg,rfl⟩
  have hle := List.single_le_sum (fun n hn => ?_) _ hmem
  · have hq := h g hg
    rw [if_pos rfl] at hle
    refine le_trans ?_ hle
    split_ifs <;> omega
  · obtain ⟨f,hf,rfl⟩ := List.mem_map.mp hn
    have hq := h f (mem_fillsIn.mp hf)
    split_ifs <;> omega

/-- A trade of a walk is among the events that report it. -/
theorem exists_event {evs answer : List Event} {sym : SymbolId} {fs : List MatchFill}
    (h : evs.map Event.unnumbered = Market.fillEvents no sym fs ++ answer) {x : MatchFill} (hx : x ∈ fs) :
    ∃ g, .fill g ∈ evs ∧ g.makerOrderId = x.makerOrderId ∧ g.qty = x.qty := by
  have hin : Event.fill ⟨0,no.clientSeq,sym,x.takerOrderId,x.makerOrderId,x.price,x.qty⟩ ∈ evs.map Event.unnumbered := by
    rw [h]
    exact List.mem_append_left _ (List.mem_map.mpr ⟨x,hx,rfl⟩)
  obtain ⟨ev,hmem,heq⟩ := List.mem_map.mp hin
  cases ev with
  | fill g =>
    obtain ⟨-,-,-,-,hmaker,-,hqty⟩ := Fill.mk.inj (Event.fill.inj heq)
    exact ⟨g,hmem,hmaker,hqty⟩
  | ack a => cases heq
  | reject r => cases heq
  | bookTop t => cases heq
  | accountState s => cases heq
  | authSuccess a => cases heq
  | authFailure a => cases heq

/-- An order in front of the maker of a fill has been filled before it. -/
theorem served_first (hb : Inv e.book) (ho : e.Orderly cmd) {s : Side} {p : Price} {xs ys : List Order} {x : Order}
    (hx : e.book.abs s p = xs ++ x::ys) (hid : commandOrderId cmd ≠ some x.orderId) {pre post : List Event} {f : Fill}
    (hev : (e.process cmd).2 = pre ++ .fill f::post) {m : Order} (hm : e.book.get f.makerOrderId = some m)
    (hside : m.side = s) (hbetter : better s p m.price) (hlate : m.price = p → m ∉ xs ++ [x]) :
    filledIn pre x.orderId = x.qtyRem.toInt := by
  have hxmem : x ∈ e.book.abs s p := by rw [hx]; simp
  obtain ⟨hget,-,-,-⟩ := hb.abs_mem hxmem
  have htotal := process_filled hb.toWf ho.1 hid
  have hqty := qtyUnder_some hget
  -- it cannot have been filled by more than it had
  have hupper : filledIn pre x.orderId ≤ x.qtyRem.toInt := by
    have hpost : 0 ≤ filledIn (.fill f::post) x.orderId := filledIn_nonneg (fun g hg =>
      fill_nonneg hb ho (by rw [hev]; exact List.mem_append_right _ hg)) _
    have hrest : 0 ≤ (e.process cmd).1.book.qtyUnder x.orderId := by
      cases hafter : (e.process cmd).1.book.get x.orderId with
      | none => rw [qtyUnder_none hafter]
      | some o =>
        rw [qtyUnder_some hafter]
        exact (Int64.pos_iff_toInt.mp ((steps hb ho).1.toWf.get_live hafter).2).le
    rw [hev,filledIn_append,hqty] at htotal
    omega
  refine le_antisymm hupper ?_
  obtain ⟨no,B,us,t,vs,h⟩ := exists_fillOf hb ho hev
  obtain ⟨Q,hw⟩ := h.walk
  obtain ⟨sym,hpre⟩ := h.before
  obtain rfl : m = t.maker := Option.some.inj (hm.symm.trans h.maker)
  obtain rfl : s = no.side.opposite := hside.symm.trans h.side
  -- the walk meets the order where it was, perhaps without the order that the command replaces
  obtain ⟨xs',ys',hB,hsub⟩ := queue_of_queues h.queues hx fun he => hid (by rw [h.named,he])
  obtain ⟨u,hu,hup,hux,huq⟩ := hw.served_before (fun _ _ => better_antisymm) rfl hB (h.price ▸ hbetter) (by
    intro hprice hmem
    refine hlate (h.price.trans hprice) ?_
    rcases List.mem_append.mp hmem with hmem | hmem
    · exact List.mem_append_left _ (hsub _ hmem)
    · exact List.mem_append_right _ hmem)
  obtain ⟨g,hg,hmaker,hqty⟩ := exists_event (hpre.trans (List.append_nil _).symm)
    (List.mem_map_of_mem (f := fill no.orderId) hu)
  have hle := le_filledIn (fun g hg => fill_nonneg hb ho (by rw [hev]; exact List.mem_append_left _ hg)) hg
  have hown : (rules no.side.opposite).qty x = x.qtyRem.toInt := rfl
  have hmaker : g.makerOrderId = x.orderId := hmaker.trans (congrArg Order.orderId hux)
  rwa [hmaker,hqty,fill_qty hw (List.mem_append_left _ hu) no.orderId,huq,hown] at hle

/-! ### Runs -/

/-- What has become of an order that no command has named, when `made` of it has been filled: nothing is left of it,
or it waits, and the ids up to its place are such. -/
inductive Waiting (P : OrderId → Prop) (o : Order) (e : Engine S) (made : ℤ) : Prop
  | served (hgone : e.book.get o.orderId = none) (hmade : made = o.qtyRem.toInt)
  | queued (xs ys : List Order) (x : Order) (hx : e.book.abs o.side o.price = xs ++ x::ys) (hid : x.orderId = o.orderId)
      (hmade : made+x.qtyRem.toInt = o.qtyRem.toInt) (hfront : ∀ z ∈ xs ++ [x], P z.orderId)

theorem Waiting.start (hb : Inv e.book) {o : Order} (ho : e.book.get o.orderId = some o) :
    Waiting (fun _ => True) o e 0 := by
  obtain ⟨t,os,hv,hmem⟩ := hb.reach ho
  obtain ⟨xs,ys,rfl⟩ := List.append_of_mem hmem
  have hqueue : e.book.abs o.side o.price = xs ++ o::ys := by simp [OrderBook.abs,hv]
  exact .queued xs ys o hqueue rfl (zero_add _) fun _ _ => trivial

theorem Waiting.imp {P P' : OrderId → Prop} {o : Order} {made : ℤ} (h : Waiting P o e made) (hP : ∀ k, P k → P' k) :
    Waiting P' o e made := by
  cases h with
  | served hgone hmade => exact .served hgone hmade
  | queued xs ys x hx hid hmade hfront => exact .queued xs ys x hx hid hmade fun z hz => hP _ (hfront z hz)

/-- An id without an order is not in the queue. -/
theorem Waiting.without {P : OrderId → Prop} {o : Order} {made : ℤ} (h : Waiting P o e made) (hb : Inv e.book)
    (hnone : e.book.get id = none) : Waiting (· ≠ id) o e made := by
  cases h with
  | served hgone hmade => exact .served hgone hmade
  | queued xs ys x hx hid hmade hfront =>
    refine .queued xs ys x hx hid hmade fun z hz hzid => ?_
    have hmem : z ∈ e.book.abs o.side o.price := by
      rw [hx,← List.singleton_append,← List.append_assoc]
      exact List.mem_append_left _ hz
    have hget := (hb.abs_mem hmem).1
    rw [hzid,hnone] at hget
    cases hget

/-- Another order is taken out. -/
theorem Waiting.cancel {P : OrderId → Prop} {o : Order} {made : ℤ} (h : Waiting P o e made) (hb : Inv e.book)
    {m : Order} (hm : e.book.get id = some m) (hne : o.orderId ≠ id) :
    Waiting P o { e with book := (e.book.cancel id m.accountId).1 } made := by
  cases h with
  | served hgone hmade => exact .served (((get_cancel hb.toWf hm _).trans (if_neg hne)).trans hgone) hmade
  | queued xs ys x hx hid hmade hfront =>
    obtain ⟨xs',ys',hqueue,hsub⟩ := queue_remove hx (hid ▸ hne)
    refine .queued xs' ys' x ((congrFun (congrFun (hb.abs_cancel hm) _) _).trans hqueue) hid hmade fun z hz => ?_
    rcases List.mem_append.mp hz with hz | hz
    · exact hfront z (List.mem_append_left _ (hsub z hz))
    · exact hfront z (List.mem_append_right _ hz)

theorem qtyUnder_nonneg {b : OrderBook S} (hb : Inv b) (id : OrderId) :
    0 ≤ b.qtyUnder id ∧ (b.qtyUnder id = 0 → b.get id = none) := by
  cases hget : b.get id with
  | none => exact ⟨(qtyUnder_none hget).ge,fun _ => rfl⟩
  | some o =>
    have hpos := Int64.pos_iff_toInt.mp (hb.toWf.get_live hget).2
    rw [qtyUnder_some hget]
    exact ⟨hpos.le,fun h => by omega⟩

/-- The queue of a price after an order has entered: what the walk has left of it, and perhaps the new order. -/
theorem exists_rested (B : RefBook) (no : NewOrder) (ts : List (PriceTime.Trade Price Order))
    (Q : PriceTime.Queues Price Order) (s : Side) (p : Price) :
    ∃ tail, Market.rested B no ts Q s p = Function.update B no.side.opposite Q s p ++ tail := by
  unfold Market.rested RefBook.rest PriceTime.Queues.append
  split_ifs with hrest
  · by_cases hs : s = no.side
    · subst hs
      by_cases hp : p = no.price
      · subst hp
        refine ⟨[resting no (Int64.ofInt (no.qty.toInt-(ts.map PriceTime.Trade.qty).sum))],?_⟩
        simp only [resting,Function.update_self]
      · exact ⟨[],by simp [resting,hp]⟩
    · exact ⟨[],by simp [resting,hs]⟩
  · exact ⟨[],(List.append_nil _).symm⟩

theorem Waiting.step {P : OrderId → Prop} {o : Order} {made : ℤ} (h : Waiting P o e made) (hb : Inv e.book)
    (hord : e.Orderly cmd) (hid : commandOrderId cmd ≠ some o.orderId) :
    Waiting P o (e.process cmd).1 (made+filledIn (e.process cmd).2 o.orderId) := by
  obtain ⟨hb',hstep⟩ := steps hb hord
  have htotal := process_filled hb.toWf hord.1 hid
  obtain ⟨hnonneg,hzero⟩ := qtyUnder_nonneg hb' o.orderId
  have hfilled : 0 ≤ filledIn (e.process cmd).2 o.orderId := filledIn_nonneg (fun f hf => fill_nonneg hb hord hf) _
  cases h with
  | served hgone hmade =>
    rw [qtyUnder_none hgone] at htotal
    exact .served (hzero (by omega)) (by omega)
  | queued xs ys x hx hxid hmade hfront =>
    have hget := (hb.abs_mem (hx ▸ List.mem_append_right _ (List.mem_cons_self ..))).1
    rw [hxid] at hget
    rw [qtyUnder_some hget] at htotal
    -- once the order is found in the new queue behind such orders, the quantities follow
    have found (xs' ys' : List Order) (x' : Order)
        (hx' : (e.process cmd).1.book.abs o.side o.price = xs' ++ x'::ys') (hid' : x'.orderId = o.orderId)
        (hfront' : ∀ z' ∈ xs', ∃ z ∈ xs, z'.orderId = z.orderId) :
        Waiting P o (e.process cmd).1 (made+filledIn (e.process cmd).2 o.orderId) := by
      have hget' := (hb'.abs_mem (hx' ▸ List.mem_append_right _ (List.mem_cons_self ..))).1
      rw [hid'] at hget'
      rw [qtyUnder_some hget'] at htotal
      refine .queued xs' ys' x' hx' hid' (by omega) fun z' hz' => ?_
      rcases List.mem_append.mp hz' with hz' | hz'
      · obtain ⟨z,hz,heq⟩ := hfront' z' hz'
        rw [heq]
        exact hfront z (List.mem_append_left _ hz)
      · rw [List.mem_singleton.mp hz',hid',← hxid]
        exact hfront x (List.mem_append_right _ (List.mem_singleton_self x))
    cases hstep.moves with
    | quiet hA _ => exact found xs ys x (by rw [← hx]; exact congrFun (congrFun hA _) _) hxid fun z hz => ⟨z,hz,rfl⟩
    | removed k hk hA _ =>
      have hne : x.orderId ≠ k := fun he => hid (by rw [hk,← he,hxid])
      obtain ⟨xs',ys',hqueue,hsub⟩ := queue_remove (A := e.book.abs) hx hne
      exact found xs' ys' x ((congrFun (congrFun hA _) _).trans hqueue) hxid fun z hz => ⟨z,hsub z hz,rfl⟩
    | entered no sym B ts Q answer hnamed hB hw hA _ hevs =>
      have hne : x.orderId ≠ no.orderId := fun he => hid (by rw [hnamed,← he,hxid])
      obtain ⟨xs',ys',hqueue,hsub⟩ := queue_of_queues hB hx hne
      obtain ⟨tail,hrested⟩ := exists_rested B no ts Q o.side o.price
      have hafter : (e.process cmd).1.book.abs o.side o.price = Function.update B no.side.opposite Q o.side o.price ++ tail :=
        (congrFun (congrFun hA _) _).trans hrested
      by_cases hs : o.side = no.side.opposite
      · rw [hs] at hqueue
        rw [hs,Function.update_self] at hafter
        rcases hw.stays hqueue with ⟨t,ht,-,rfl,htq⟩ | ⟨xs'',x'',hQ,hshrunk,hxs⟩
        · -- all of it has traded
          obtain ⟨g,hg,hmaker,hqty⟩ := exists_event hevs (List.mem_map_of_mem (f := fill no.orderId) ht)
          have hle := le_filledIn (fun f hf => fill_nonneg hb hord hf) hg
          have hown : (rules no.side.opposite).qty t.maker = t.maker.qtyRem.toInt := rfl
          have hmaker : g.makerOrderId = o.orderId := hmaker.trans hxid
          rw [hmaker,hqty,fill_qty hw ht no.orderId,htq,hown] at hle
          exact .served (hzero (by omega)) (by omega)
        · rw [hQ,List.append_assoc,List.cons_append,← hs] at hafter
          refine found xs'' _ x'' hafter ?_ fun z' hz' => ?_
          · rcases hshrunk with rfl | ⟨n,rfl⟩ <;> exact hxid
          · obtain ⟨z,hz,hzs⟩ := hxs z' hz'
            exact ⟨z,hsub z hz,by rcases hzs with rfl | ⟨n,rfl⟩ <;> rfl⟩
      · rw [Function.update_of_ne hs,hqueue,List.append_assoc,List.cons_append] at hafter
        exact found xs' _ x hafter hxid fun z hz => ⟨z,hsub z hz,rfl⟩

theorem orderlyRun_append {cmds cmds' : List Command} :
    e.OrderlyRun (cmds ++ cmds') ↔ e.OrderlyRun cmds ∧ (e.after cmds).OrderlyRun cmds' := by
  induction cmds generalizing e with
  | nil => exact (and_iff_right trivial).symm
  | cons cmd cmds ih =>
    have htail := ih (e := (e.process cmd).1)
    simp only [List.cons_append,OrderlyRun,htail,and_assoc]
    rfl

theorem Waiting.run {P : OrderId → Prop} {o : Order} {made : ℤ} (h : Waiting P o e made) (hb : Inv e.book)
    {cmds : List Command} (hord : e.OrderlyRun cmds) (hid : ∀ cmd ∈ cmds, commandOrderId cmd ≠ some o.orderId) :
    Waiting P o (e.after cmds) (made+filledIn (e.emitted cmds) o.orderId) := by
  induction cmds generalizing e made with
  | nil =>
    have hnone : filledIn ((e.emitted []) : List Event) o.orderId = 0 := rfl
    rw [hnone,add_zero]
    exact h
  | cons cmd cmds ih =>
    have hstep := h.step hb hord.1 (hid cmd (List.mem_cons_self ..))
    have htail := ih hstep (steps hb hord.1).1 hord.2 fun c hc => hid c (List.mem_cons_of_mem _ hc)
    rw [emitted,filledIn_append,← add_assoc]
    exact htail

/-! ### Orders that come to rest later -/

/-- The command replaces the order under the id and is acknowledged. -/
def requeues (e : Engine S) (id : OrderId) : Command → Bool
  | .replace r => r.orderId == id && (e.handleReplace r).2.any fun ev => match ev with
    | .ack _ => true
    | _ => false
  | _ => false

/-- The order that is under the id after the commands has come to rest in their course: at some point there was none,
or it was replaced. -/
def cameLater (id : OrderId) (e : Engine S) : List Command → Bool
  | [] => (e.book.get id).isNone
  | cmd::cmds => (e.book.get id).isNone || e.requeues id cmd || cameLater id (e.process cmd).1 cmds

/-- An order that is replaced leaves its place, and comes to rest at the end of a queue. -/
theorem Waiting.replaced {P : OrderId → Prop} {o : Order} {made : ℤ} (h : Waiting P o e made) (hb : Inv e.book)
    (hord : e.Orderly cmd) (hid : commandOrderId cmd ≠ some o.orderId) (hrequeues : e.requeues id cmd = true) :
    Waiting (· ≠ id) o (e.process cmd).1 (made+filledIn (e.process cmd).2 o.orderId) := by
  cases cmd with
  | replace r =>
    obtain ⟨hr,hack⟩ := Bool.and_eq_true_iff.mp hrequeues
    obtain rfl : r.orderId = id := eq_of_beq hr
    have hne : r.orderId ≠ o.orderId := fun he => hid (congrArg some he)
    rcases e.handleReplace_cases r with ⟨m,-,-,hm,-,hc⟩ | ⟨-,reason,hc⟩
    · have hfree : (e.book.cancel r.orderId m.accountId).1.get r.orderId = none :=
        (get_cancel hb.toWf hm r.orderId).trans (if_pos rfl)
      have hout := (h.cancel hb hm hne.symm).without (hb.cancel hm) hfree
      have hlive := hord.2
      rw [process,hc] at hlive
      have hnext : ({ e with book := (e.book.cancel r.orderId m.accountId).1 } : Engine S).Orderly
          (.newOrder (replacement r m)) := ⟨fun _ _ => hfree,hlive⟩
      have hstep := hout.step (hb.cancel hm) hnext hid
      rw [process,hc]
      exact hstep
    · rw [hc] at hack
      cases hack
  | newOrder no => cases hrequeues
  | cancel c => cases hrequeues
  | setRiskLimits srl => cases hrequeues
  | queryAccount qa => cases hrequeues
  | authenticate auth => cases hrequeues

/-- An order that comes to rest later is behind. -/
theorem Waiting.run_later {P : OrderId → Prop} {o : Order} {made : ℤ} (h : Waiting P o e made) (hb : Inv e.book)
    {cmds : List Command} (hord : e.OrderlyRun cmds) (hid : ∀ cmd ∈ cmds, commandOrderId cmd ≠ some o.orderId)
    (hlater : cameLater id e cmds = true) :
    Waiting (· ≠ id) o (e.after cmds) (made+filledIn (e.emitted cmds) o.orderId) := by
  induction cmds generalizing e made P with
  | nil => exact (h.without hb (Option.isNone_iff_eq_none.mp hlater)).run hb trivial hid
  | cons cmd cmds ih =>
    rw [cameLater,Bool.or_eq_true_iff,Bool.or_eq_true_iff] at hlater
    have hcmd := hid cmd (List.mem_cons_self ..)
    have hcmds : ∀ c ∈ cmds, commandOrderId c ≠ some o.orderId := fun c hc => hid c (List.mem_cons_of_mem _ hc)
    have hb' := (steps hb hord.1).1
    rcases hlater with (hnone | hrequeues) | hlater
    · exact (h.without hb (Option.isNone_iff_eq_none.mp hnone)).run hb hord hid
    · rw [emitted,filledIn_append,← add_assoc]
      exact (h.replaced hb hord.1 hcmd hrequeues).run hb' hord.2 hcmds
    · rw [emitted,filledIn_append,← add_assoc]
      exact ih (h.step hb hord.1 hcmd) hb' hord.2 hcmds hlater

/-- An order keeps its place: while no command names it, an order at a worse price, or at the same price that came
to rest later, is filled only after everything that was left of it has been. -/
theorem price_time_priority {before between : List Command} {cmd : Command}
    (h : (Engine.new : Engine S).OrderlyRun (before ++ (between ++ [cmd]))) {o : Order}
    (ho : ((Engine.new : Engine S).after before).book.get o.orderId = some o)
    (hid : ∀ c ∈ between ++ [cmd], commandOrderId c ≠ some o.orderId) {pre post : List Event} {f : Fill} {m : Order}
    (hev : ((((Engine.new : Engine S).after before).after between).process cmd).2 = pre ++ .fill f::post)
    (hm : (((Engine.new : Engine S).after before).after between).book.get f.makerOrderId = some m)
    (hside : m.side = o.side) (hbetter : better o.side o.price m.price)
    (hlate : m.price = o.price → cameLater m.orderId ((Engine.new : Engine S).after before) between = true) :
    filledIn (((Engine.new : Engine S).after before).emitted between ++ pre) o.orderId = o.qtyRem.toInt := by
  obtain ⟨hbefore,hlater⟩ := orderlyRun_append.mp h
  obtain ⟨hbetween,hcmd,-⟩ := orderlyRun_append.mp hlater
  have hb₀ := (run_steps (Inv.new 1) hbefore).1
  have hb := (run_steps hb₀ hbetween).1
  have hids : ∀ c ∈ between, commandOrderId c ≠ some o.orderId := fun c hc => hid c (List.mem_append_left _ hc)
  have hcid := hid cmd (by simp)
  have hwait : Waiting (fun k => m.price = o.price → k ≠ m.orderId) o
      (((Engine.new : Engine S).after before).after between)
      (0+filledIn (((Engine.new : Engine S).after before).emitted between) o.orderId) := by
    by_cases hprice : m.price = o.price
    · exact ((Waiting.start hb₀ ho).run_later hb₀ hbetween hids (hlate hprice)).imp fun _ hne _ => hne
    · exact ((Waiting.start hb₀ ho).run hb₀ hbetween hids).imp fun _ _ he => absurd he hprice
  rw [zero_add] at hwait
  rw [filledIn_append]
  cases hwait with
  | served hgone hmade =>
    have htotal := process_filled hb.toWf hcmd.1 hcid
    rw [qtyUnder_none hgone,hev,filledIn_append] at htotal
    have hpre : 0 ≤ filledIn pre o.orderId := filledIn_nonneg (fun g hg =>
      fill_nonneg hb hcmd (by rw [hev]; exact List.mem_append_left _ hg)) _
    have hpost : 0 ≤ filledIn (.fill f::post) o.orderId := filledIn_nonneg (fun g hg =>
      fill_nonneg hb hcmd (by rw [hev]; exact List.mem_append_right _ hg)) _
    have hrest := (qtyUnder_nonneg (steps hb hcmd).1 o.orderId).1
    omega
  | queued xs ys x hx hxid hmade hfront =>
    rw [← hxid] at hcid
    have hserved := served_first hb hcmd hx hcid hev hm hside hbetter fun hprice hmem => hfront m hmem hprice rfl
    rw [← hxid,hserved,hxid]
    exact hmade

/-- Of two asks at 100 the older one is replaced, so that two takers fill the other before it is touched. -/
theorem replacedAsk_last :
    filledIn (((Engine.new : Engine (FreeListSlab Order)).after
      [.newOrder ⟨1,2,8,1,.sell,100,4,.gtc,⟨false⟩⟩,.newOrder ⟨2,1,7,1,.sell,100,5,.gtc,⟨false⟩⟩]).emitted
        [.replace ⟨3,2,8,1,100,4⟩,.newOrder ⟨4,3,9,1,.buy,100,2,.ioc,⟨false⟩⟩] ++ [.fill ⟨10,5,1,4,1,100,3⟩]) 1 = 5 :=
  @price_time_priority (FreeListSlab Order) _
    [.newOrder ⟨1,2,8,1,.sell,100,4,.gtc,⟨false⟩⟩,.newOrder ⟨2,1,7,1,.sell,100,5,.gtc,⟨false⟩⟩] _
    (.newOrder ⟨5,4,9,1,.buy,101,6,.gtc,⟨false⟩⟩) (by decide +kernel) ⟨1,7,1,.sell,100,5,.gtc,⟨false⟩⟩
    (by decide +kernel) (by decide +kernel) _ [.bookTop ⟨12,1,none,none,some 100,some 1⟩,.ack ⟨13,5,4⟩]
    ⟨11,5,1,4,2,100,3⟩ ⟨2,8,1,.sell,100,4,.gtc,⟨false⟩⟩ (by decide +kernel) (by decide +kernel) rfl (by decide +kernel)
    fun _ => by decide +kernel

end Engine
end HighPerfTrading
