import HighPerfTrading.Engine.EngineRun
import HighPerfTrading.Engine.LiveSum
import HighPerfTrading.Engine.Positions

/-! Position limits over whole runs: the check of an order looks at the position and at that order, so the
limits hold as long as the account's live orders are counted too. -/
namespace HighPerfTrading
namespace Engine
open OrderBook
variable {S : Type} [Slab S Order] {e : Engine S} {b : OrderBook S} {no : NewOrder}

/-! ### What is at stake -/

/-- What a live order can still move for an account on a side. -/
def stake (a : AccountId) (s : Side) (o : Order) : ℤ := if o.accountId = a ∧ o.side = s then o.qtyRem.toInt else 0

def exposure (b : OrderBook S) (a : AccountId) (s : Side) : ℤ := liveSum (stake a s) b

theorem stake_nonneg (a : AccountId) (s : Side) (o : Order) (ho : 0 < o.qtyRem) : 0 ≤ stake a s o := by
  unfold stake
  split_ifs
  · exact (Int64.pos_iff_toInt.mp ho).le
  · exact le_refl 0

theorem exposure_nonneg (b : OrderBook S) (a : AccountId) (s : Side) : 0 ≤ exposure b a s :=
  liveSum_nonneg _ (stake_nonneg a s) b

/-- A position within the limits, also when as much more is bought or sold. -/
def Fits (limits : RiskLimits) (pos up down : ℤ) : Prop :=
  -limits.maxShortPosition.toInt ≤ pos-down ∧ pos+up ≤ limits.maxLongPosition.toInt

instance (limits : RiskLimits) (pos up down : ℤ) : Decidable (Fits limits pos up down) := by
  unfold Fits; infer_instance

/-- Every account stays within its limits whichever of its live orders fill. -/
def Room (b : OrderBook S) (m : AccountManager) : Prop :=
  ∀ a, Fits (m.getLimits a) (m.getPosition a).netPosition.toInt (exposure b a .buy) (exposure b a .sell)

/-- A quantity of a new order that is still to trade. -/
def pending (no : NewOrder) (q : Qty) (a : AccountId) (s : Side) : ℤ :=
  if no.accountId = a ∧ no.side = s then q.toInt else 0

/-- There is room for the order beside the account's live orders. -/
def Covered (e : Engine S) (no : NewOrder) : Prop :=
  Fits (e.accountManager.getLimits no.accountId) (e.accountManager.getPosition no.accountId).netPosition.toInt
    (exposure e.book no.accountId .buy+pending no no.qty no.accountId .buy)
    (exposure e.book no.accountId .sell+pending no no.qty no.accountId .sell)

/-! ### Fills and positions -/

/-- What the fills of a taker move for an account. -/
def netMoved (no : NewOrder) (fs : List MatchFill) (a : AccountId) : ℤ :=
  (fs.map fun f => (if no.accountId = a then signed no.side f.qty.toInt else 0)+
    (if f.makerAccountId = a then signed no.side.opposite f.qty.toInt else 0)).sum

theorem netMoved_append (no : NewOrder) (fs gs : List MatchFill) (a : AccountId) :
    netMoved no (fs ++ gs) a = netMoved no fs a+netMoved no gs a := by
  rw [netMoved,List.map_append,List.sum_append]; rfl

theorem netMoved_singleton (no : NewOrder) (f : MatchFill) (a : AccountId) : netMoved no [f] a =
    (if no.accountId = a then signed no.side f.qty.toInt else 0)+
      if f.makerAccountId = a then signed no.side.opposite f.qty.toInt else 0 := List.sum_singleton

theorem settle_position (m : AccountManager) (no : NewOrder) (fs : List MatchFill) (a : AccountId) :
    ((settle m no fs).getPosition a).netPosition = (m.getPosition a).netPosition+Int64.ofInt (netMoved no fs a) := by
  induction fs generalizing m with
  | nil => simp [settle,netMoved]
  | cons f fs ih =>
    change ((settle _ no fs).getPosition a).netPosition = _
    rw [ih,getPosition_applyFill,getPosition_applyFill,← List.singleton_append,netMoved_append,netMoved_singleton,
      Int64.ofInt_add,Int64.ofInt_add,add_assoc,add_assoc,add_assoc]

/-! ### Matching -/

/-- The limits hold during matching, counting what is left of the taker. -/
structure Matched (m : AccountManager) (no : NewOrder) (x : Matching S) : Prop where
  queues : Queues x.book
  left : x.takerQty = no.qty-(x.fills.map MatchFill.qty).sum
  nonneg : 0 ≤ x.takerQty.toInt
  fits : ∀ a, Fits (m.getLimits a) ((m.getPosition a).netPosition.toInt+netMoved no x.fills a)
    (exposure x.book a .buy+pending no x.takerQty a .buy) (exposure x.book a .sell+pending no x.takerQty a .sell)

theorem stake_afterTrade {q : Qty} {o : Order} (hq : 0 < q) (ho : 0 < o.qtyRem) (a : AccountId) (s : Side) :
    (afterTrade o (min q o.qtyRem)).elim 0 (stake a s) =
      stake a s o-if o.accountId = a ∧ o.side = s then (min q o.qtyRem).toInt else 0 := by
  have hqty := afterTrade_qty hq ho
  by_cases hz : o.qtyRem-min q o.qtyRem = 0
  · rw [afterTrade,if_pos hz,Option.elim_none] at hqty ⊢
    unfold stake
    split_ifs <;> omega
  · rw [afterTrade,if_neg hz,Option.elim_some] at hqty ⊢
    simp only [stake] at hqty ⊢
    split_ifs <;> omega

theorem Matched.pass {m : AccountManager} {x y : Matching S} (h : Matched m no x)
    (hp : Pass no.orderId no.price no.side.opposite x y) : Matched m no y := by
  have hqueues := h.queues.pass hp
  cases hp with
  | drop px lvl hr hl hdead =>
    refine ⟨hqueues,h.left,h.nonneg,fun a => ?_⟩
    have hsame : ∀ s, exposure (x.book.setLevels no.side.opposite ((x.book.levels no.side.opposite).erase px)) a s =
        exposure x.book a s := by
      intro s
      rw [exposure,liveSum,liveOrders,setLevels_orders]; rfl
    rw [hsame,hsame]
    exact h.fits a
  | trade px lvl k rest o hr hl hk hfront hs =>
    obtain ⟨hg,ho⟩ := liveAt_eq_some.mp hk
    obtain ⟨hpos,hle,hleo,-⟩ := min_qty hr.qty ho
    have hside : o.side = no.side.opposite := by
      obtain ⟨z,hz,hzs,-⟩ := h.queues.queued hl k (hs.mem (List.mem_cons_self ..))
      rw [Option.some.inj (hg.symm.trans hz),hzs]
    have hsub := Int64.toInt_sub_of_le _ _ (Int64.le_of_lt hpos) hle
    have hexp : ∀ a s, exposure (tradeWith no.orderId no.side.opposite x px lvl k rest o).book a s =
        exposure x.book a s-if o.accountId = a ∧ no.side.opposite = s then (min x.takerQty o.qtyRem).toInt else 0 := by
      intro a s
      have htrade : liveSum (stake a s) (tradeWith no.orderId no.side.opposite x px lvl k rest o).book+stake a s o = _ :=
        liveSum_trade (stake a s) hk hr.qty
      rw [stake_afterTrade hr.qty ho,hside] at htrade
      rw [exposure,exposure]
      omega
    refine ⟨hqueues,?_,?_,fun a => ?_⟩
    · simp only [tradeWith,List.map_append,List.sum_append,h.left]
      simp [sub_sub]
    · have := Int64.le_iff_toInt_le.mp hle
      simp only [tradeWith,hsub]
      omega
    · obtain ⟨hdown,hup⟩ := h.fits a
      have hpos' := Int64.pos_iff_toInt.mp hpos
      have hnet : netMoved no (tradeWith no.orderId no.side.opposite x px lvl k rest o).fills a =
          netMoved no x.fills a+((if no.accountId = a then signed no.side (min x.takerQty o.qtyRem).toInt else 0)+
            if o.accountId = a then signed no.side.opposite (min x.takerQty o.qtyRem).toInt else 0) := by
        simp only [tradeWith,netMoved_append,netMoved_singleton]
      have hqty : (tradeWith no.orderId no.side.opposite x px lvl k rest o).takerQty.toInt =
          x.takerQty.toInt-(min x.takerQty o.qtyRem).toInt := hsub
      rw [Fits,hnet,hexp,hexp,pending,pending,hqty]
      rw [pending] at hdown hup
      generalize (min x.takerQty o.qtyRem).toInt = t at hpos' ⊢
      cases hs : no.side with
      | buy =>
        simp only [hs,Side.opposite,signed,and_true,reduceCtorEq,and_false,if_false] at hdown hup ⊢
        split_ifs at hdown hup ⊢ <;> omega
      | sell =>
        simp only [hs,Side.opposite,signed,and_true,reduceCtorEq,and_false,if_false] at hdown hup ⊢
        split_ifs at hdown hup ⊢ <;> omega

/-! ### Commands -/

theorem Room.cancel {m : AccountManager} (h : Room b m) {id : OrderId} {o : Order} (ho : b.get id = some o) :
    Room (b.cancel id o.accountId).1 m := by
  intro a
  obtain ⟨hdown,hup⟩ := h a
  have hbuy : exposure (b.cancel id o.accountId).1 a .buy ≤ exposure b a .buy :=
    liveSum_cancel_le _ (stake_nonneg a .buy) ho
  have hsell : exposure (b.cancel id o.accountId).1 a .sell ≤ exposure b a .sell :=
    liveSum_cancel_le _ (stake_nonneg a .sell) ho
  exact ⟨by omega,by omega⟩

/-- An order with room for it leaves room for the others. -/
theorem Room.newBook (hqueues : Queues e.book) (hroom : Room e.book e.accountManager) (hq : 0 < no.qty)
    (hc : Covered e no) : Queues (newBook e.book no) ∧
      Room (newBook e.book no) (settle e.accountManager no (fillsOf e.book no)) := by
  obtain ⟨m',hrun,he⟩ := matchTaker_run e.book no.orderId no.side no.price no.qty
  rw [← matched_eq] at he
  have hstart : Matched e.accountManager no ⟨e.book,no.qty,[]⟩ := by
    refine ⟨hqueues,by simp,(Int64.pos_iff_toInt.mp hq).le,fun a => ?_⟩
    by_cases ha : no.accountId = a
    · subst ha
      simpa [netMoved,Covered] using hc
    · simpa [netMoved,pending,ha] using hroom a
  have hm := (hrun.keeps (fun _ _ => Matched.pass) hstart).1
  obtain ⟨hbook,hfills⟩ := Prod.mk.inj he
  have hleft : remainder e.book no = m'.takerQty := by rw [remainder,hfills,hm.left]
  have hpend : ∀ a s, 0 ≤ pending no m'.takerQty a s := by
    intro a s
    have := hm.nonneg
    unfold pending
    split_ifs <;> omega
  -- the bounds keep the position in range
  have hpos : ∀ a, ((settle e.accountManager no (fillsOf e.book no)).getPosition a).netPosition.toInt =
      (e.accountManager.getPosition a).netPosition.toInt+netMoved no m'.fills a := by
    intro a
    obtain ⟨hdown,hup⟩ := hm.fits a
    have hbuy := exposure_nonneg m'.book a .buy
    have hsell := exposure_nonneg m'.book a .sell
    have hpbuy := hpend a .buy
    have hpsell := hpend a .sell
    have hlong := Int64.toInt_lt (e.accountManager.getLimits a).maxLongPosition
    have hshort := Int64.toInt_lt (e.accountManager.getLimits a).maxShortPosition
    rw [settle_position,hfills]
    exact Int64.toInt_add_ofInt (by omega) (by omega)
  unfold Engine.newBook
  rw [hbook,hleft]
  split_ifs with hrest
  · refine ⟨hm.queues.insertResting _,fun a => ?_⟩
    have hrests : ∀ s, exposure (m'.book.insertResting (resting no m'.takerQty)) a s =
        exposure m'.book a s+pending no m'.takerQty a s :=
      fun s => liveSum_insertResting (o := resting no m'.takerQty) (stake a s) m'.book hrest.1
    rw [getLimits_settle,hpos,hrests,hrests]
    exact hm.fits a
  · refine ⟨hm.queues,fun a => ?_⟩
    obtain ⟨hdown,hup⟩ := hm.fits a
    have hpbuy := hpend a .buy
    have hpsell := hpend a .sell
    rw [getLimits_settle,hpos]
    exact ⟨by omega,by omega⟩

/-- The limits stay, and an accepted order has room beside the account's live orders. -/
def RespectsLimits (e : Engine S) : Command → Prop
  | .newOrder no => e.refusal no = none → Covered e no
  | .replace r => ∀ o ∈ e.book.get r.orderId, o.accountId = r.accountId →
      let e' : Engine S := { e with book := (e.book.cancel r.orderId o.accountId).1 }
      e'.refusal (replacement r o) = none → Covered e' (replacement r o)
  | .setRiskLimits _ => False
  | _ => True

instance (e : Engine S) (no : NewOrder) : Decidable (Covered e no) := by
  unfold Covered; infer_instance

instance (e : Engine S) (cmd : Command) : Decidable (RespectsLimits e cmd) :=
  match cmd with
  | .newOrder _ => inferInstanceAs (Decidable (_ → _))
  | .cancel _ => isTrue trivial
  | .replace r => inferInstanceAs (Decidable (∀ o ∈ e.book.get r.orderId, _))
  | .setRiskLimits _ => isFalse id
  | .queryAccount _ => isTrue trivial
  | .authenticate _ => isTrue trivial

structure Guarded (e : Engine S) : Prop where
  queues : Queues e.book
  room : Room e.book e.accountManager

theorem Guarded.process (h : Guarded e) {cmd : Command} (hc : RespectsLimits e cmd) : Guarded (e.process cmd).1 := by
  have hstep := e.process_core cmd
  suffices hgoal : Queues (e.process cmd).1.book ∧ Room (e.process cmd).1.book (e.process cmd).1.accountManager from
    ⟨hgoal.1,hgoal.2⟩
  generalize (e.process cmd).1.book = b' at hstep ⊢
  generalize (e.process cmd).1.accountManager = m' at hstep ⊢
  cases hstep with
  | same => exact ⟨h.queues,h.room⟩
  | limits => exact hc.elim
  | placed hr => exact Room.newBook h.queues h.room (refusal_none hr).2.1 (hc hr)
  | cancelled ho hacct => exact ⟨h.queues.cancel ho,h.room.cancel ho⟩
  | lost ho hacct => exact ⟨h.queues.cancel ho,h.room.cancel ho⟩
  | @replaced r o ho hacct hr =>
    exact Room.newBook (e := { e with book := (e.book.cancel r.orderId o.accountId).1 }) (h.queues.cancel ho)
      (h.room.cancel ho) (refusal_none hr).2.1 (hc o ho hacct hr)

/-- In runs whose orders have room beside the live ones, from an empty book and positions within the limits,
every position stays within its limits. -/
theorem Run.positions_within {e₀ : Engine S} {cmds : List Command} {evs : List Event}
    (h : Run e₀ (fun e _ cmd => RespectsLimits e cmd) e cmds evs) (hbook : e₀.book = OrderBook.new e₀.book.symbolId)
    (hpos : ∀ a, Fits (e₀.accountManager.getLimits a) (e₀.accountManager.getPosition a).netPosition.toInt 0 0)
    (a : AccountId) :
    -(e.accountManager.getLimits a).maxShortPosition.toInt ≤ (e.accountManager.getPosition a).netPosition.toInt ∧
      (e.accountManager.getPosition a).netPosition.toInt ≤ (e.accountManager.getLimits a).maxLongPosition.toInt := by
  have hg : Guarded e := by
    induction h with
    | start =>
      refine ⟨hbook ▸ (Wf.new _).toQueues,fun a => ?_⟩
      have hempty : ∀ s, exposure e₀.book a s = 0 := by
        intro s
        rw [hbook,exposure,liveSum]
        simp [liveOrders,OrderBook.new]
      rw [hempty,hempty]
      exact hpos a
    | step _ cmd ha ih => exact ih.process ha
  obtain ⟨hdown,hup⟩ := hg.room a
  have hbuy := exposure_nonneg e.book a .buy
  have hsell := exposure_nonneg e.book a .sell
  exact ⟨by omega,by omega⟩

/-- A buy is replaced and a sell trades with it, within the default limits. -/
theorem replaced_within :
    let e := (Engine.new : Engine (FreeListSlab Order)).after [.newOrder ⟨1,1,7,1,.buy,100,1000,.gtc,⟨false⟩⟩,
      .replace ⟨2,1,7,1,101,900⟩,.newOrder ⟨3,2,8,1,.sell,101,400,.ioc,⟨false⟩⟩]
    (e.accountManager.getPosition 7).netPosition = 400 ∧
      (e.accountManager.getPosition 7).netPosition.toInt ≤ (e.accountManager.getLimits 7).maxLongPosition.toInt := by
  have hstart : Run (Engine.new : Engine (FreeListSlab Order)) (fun e _ cmd => RespectsLimits e cmd) Engine.new [] [] :=
    Run.start
  have hrun := ((hstart.step (.newOrder ⟨1,1,7,1,.buy,100,1000,.gtc,⟨false⟩⟩) (by decide +kernel)).step
    (.replace ⟨2,1,7,1,101,900⟩) (by decide +kernel)).step (.newOrder ⟨3,2,8,1,.sell,101,400,.ioc,⟨false⟩⟩)
    (by decide +kernel)
  refine ⟨by decide +kernel,(hrun.positions_within rfl (fun a => ?_) 7).2⟩
  have hlimits : (Engine.new : Engine (FreeListSlab Order)).accountManager.getLimits a = ⟨10000,10000,1000⟩ := by
    simp [Engine.new,AccountManager.new,AccountManager.getLimits]; rfl
  have hpos : (Engine.new : Engine (FreeListSlab Order)).accountManager.getPosition a = default := by
    simp [Engine.new,AccountManager.new,AccountManager.getPosition]
  rw [hlimits,hpos]
  decide

/-- Eleven buys of 1000 rest in turn, none of them too much beside a position of 0, and then all fill. -/
def restingBuys : List Command :=
  (List.range 11).map (fun i => .newOrder ⟨0,.ofNat i,7,1,.buy,100,1000,.gtc,⟨false⟩⟩) ++
  (List.range 11).map fun i => .newOrder ⟨0,.ofNat (11+i),if i < 10 then 8 else 9,1,.sell,100,1000,.gtc,⟨false⟩⟩

theorem restingBuys_exceed : ∃ (e : Engine (FreeListSlab Order)) (evs : List Event),
    Run Engine.new (fun _ _ cmd => ∀ srl, cmd ≠ .setRiskLimits srl) e restingBuys evs ∧
      (e.accountManager.getPosition 7).netPosition = 11000 ∧ (e.accountManager.getLimits 7).maxLongPosition = 10000 := by
  obtain ⟨evs,hrun⟩ := after_run (Engine.new : Engine (FreeListSlab Order))
    (fun cmd (h : cmd ∈ restingBuys) => (show ∀ srl, cmd ≠ .setRiskLimits srl by
      simp only [restingBuys,List.mem_append,List.mem_map] at h
      rcases h with ⟨i,-,rfl⟩ | ⟨i,-,rfl⟩ <;> exact fun _ => Command.noConfusion))
  exact ⟨_,evs,hrun,by decide +kernel,by decide +kernel⟩

end Engine
end HighPerfTrading
