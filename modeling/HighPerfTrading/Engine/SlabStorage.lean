import HighPerfTrading.Engine.BookSnapshot
import HighPerfTrading.Library.Runs

/-! The slots of the slab. A filled maker gives its slot back; a cancelled order keeps it, also after its key has
left the queues, so every cancel and every replacement costs one slot for ever. -/
namespace HighPerfTrading
namespace OrderBook
variable {S : Type} [Slab S Order] {b : OrderBook S} {k : ℕ} {o : Order}

/-- Every step of a sequence meets a condition on the book that it finds. -/
def AllSteps (P : OrderBook S → BookOp → Prop) (b : OrderBook S) : List BookOp → Prop
  | [] => True
  | op::ops => P b op ∧ AllSteps P (b.apply op).1 ops

instance AllSteps.decidable (P : OrderBook S → BookOp → Prop) [∀ b op, Decidable (P b op)] (b : OrderBook S) :
    ∀ ops, Decidable (AllSteps P b ops)
  | [] => inferInstanceAs (Decidable True)
  | op::ops => @instDecidableAnd _ _ _ (decidable P (b.apply op).1 ops)

/-- The condition holds of every operation of the sequence in the book that the ones in front of it lead to. -/
theorem allSteps_iff {P : OrderBook S → BookOp → Prop} {ops : List BookOp} :
    AllSteps P b ops ↔ ∀ front op, front ++ [op] <+: ops → P (b.runOps front) op := by
  induction ops generalizing b with
  | nil => simp [AllSteps]
  | cons op ops ih =>
    rw [AllSteps,ih]
    constructor
    · rintro ⟨hop,hops⟩ front x hfront
      cases front with
      | nil =>
        obtain rfl : x = op := (List.cons_prefix_cons.mp hfront).1
        exact hop
      | cons y front =>
        obtain ⟨rfl,htail⟩ := List.cons_prefix_cons.mp hfront
        exact hops front x htail
    · intro h
      exact ⟨h [] op (List.prefix_append [op] ops),fun front x hfront =>
        h (op::front) x (List.cons_prefix_cons.mpr ⟨rfl,hfront⟩)⟩

theorem runOps_concat (b : OrderBook S) (front : List BookOp) (op : BookOp) :
    b.runOps (front ++ [op]) = ((b.runOps front).apply op).1 := by
  simp [runOps]

/-- Orders rest with a positive quantity and under an id that is not live. -/
def Fresh (b : OrderBook S) : BookOp → Prop
  | .insertResting order => 0 < order.qtyRem ∧ b.get order.orderId = none
  | _ => True

/-- A cancel or a replace that finds no order of the account under the id. -/
def Refused (b : OrderBook S) : BookOp → Prop
  | .cancel id acct => ∀ o ∈ b.get id, o.accountId ≠ acct
  | .replace id acct _ _ => ∀ o ∈ b.get id, o.accountId ≠ acct
  | _ => True

/-- Adding the quantity to the level's total does not overflow. -/
def TotalFits (b : OrderBook S) : BookOp → Prop
  | .insertResting order => (b.levelTotal order.side order.price).toInt+order.qtyRem.toInt < 2^63
  | _ => True

instance (b : OrderBook S) (op : BookOp) : Decidable (Fresh b op) :=
  match op with
  | .insertResting _ => inferInstanceAs (Decidable (_ ∧ _))
  | .cancel _ _ => isTrue trivial
  | .replace _ _ _ _ => isTrue trivial
  | .matchTaker _ _ _ _ => isTrue trivial

instance (b : OrderBook S) (op : BookOp) : Decidable (Refused b op) :=
  match op with
  | .insertResting _ => isTrue trivial
  | .cancel id acct => inferInstanceAs (Decidable (∀ o ∈ b.get id, o.accountId ≠ acct))
  | .replace id acct _ _ => inferInstanceAs (Decidable (∀ o ∈ b.get id, o.accountId ≠ acct))
  | .matchTaker _ _ _ _ => isTrue trivial

instance (b : OrderBook S) (op : BookOp) : Decidable (TotalFits b op) :=
  match op with
  | .insertResting _ => inferInstanceAs (Decidable (_ < _))
  | .cancel _ _ => isTrue trivial
  | .replace _ _ _ _ => isTrue trivial
  | .matchTaker _ _ _ _ => isTrue trivial

/-- Every occupied slot is queued in a level, a book without levels has none, and there are no more of them than live
orders, however many were cancelled. -/
structure NoLeak (b : OrderBook S) : Prop where
  queued : ∀ k o, Slab.get b.orders k = some o → ∃ (s : Side) (p : Price) (lvl : Level),
    (b.levels s)[p]? = some lvl ∧ k ∈ lvl.queue
  drained : (∀ s, b.levels s = ∅) → Slab.iter b.orders = []
  bounded : (Slab.iter b.orders).length ≤ b.liveOrders.length

/-! ### Dead slots -/

/-- The occupied slots without quantity. -/
def deadEntries (b : OrderBook S) : List (ℕ × Order) := (Slab.iter b.orders).filter fun e => decide (e.2.qtyRem ≤ 0)

theorem mem_deadEntries {e : ℕ × Order} : e ∈ b.deadEntries ↔ Slab.get b.orders e.1 = some e.2 ∧ e.2.qtyRem ≤ 0 := by
  rw [deadEntries,List.mem_filter,decide_eq_true_eq,Slab.mem_iter]

theorem deadEntries_sorted (b : OrderBook S) : b.deadEntries.Pairwise fun x y => x.1 < y.1 :=
  (Slab.iter_sorted b.orders).filter _

theorem deadEntries_nodup (b : OrderBook S) : b.deadEntries.Nodup :=
  b.deadEntries_sorted.imp fun h => by rintro rfl; exact Nat.lt_irrefl _ h

/-- The occupied slots are the live orders and the dead slots. -/
theorem slots_eq (b : OrderBook S) : (Slab.iter b.orders).length = b.liveOrders.length+b.deadEntries.length := by
  have hdead : b.deadEntries = (Slab.iter b.orders).filter fun e => !decide (0 < e.2.qtyRem) := by
    refine List.filter_congr fun e _ => ?_
    rw [← decide_not,decide_eq_decide]
    exact Int64.not_lt.symm
  rw [← liveEntries_snd,List.length_map,hdead]
  exact List.length_eq_length_filter_add _

theorem bounded_iff : (Slab.iter b.orders).length ≤ b.liveOrders.length ↔ b.deadEntries = [] := by
  rw [slots_eq,← List.length_eq_zero_iff]
  omega

theorem live_of_no_dead (hd : b.deadEntries = []) (hk : Slab.get b.orders k = some o) : liveAt b.orders k = some o := by
  refine liveAt_eq_some.mpr ⟨hk,?_⟩
  by_contra hnot
  have hq : o.qtyRem ≤ 0 := Int64.not_lt.mp hnot
  have hmem : (k,o) ∈ b.deadEntries := mem_deadEntries.mpr ⟨hk,hq⟩
  rw [hd] at hmem
  exact List.not_mem_nil hmem

theorem deadEntries_congr {c : OrderBook S}
    (h : ∀ k o, o.qtyRem ≤ 0 → (Slab.get c.orders k = some o ↔ Slab.get b.orders k = some o)) :
    c.deadEntries = b.deadEntries := by
  refine Slab.eq_of_sorted c.deadEntries_sorted b.deadEntries_sorted fun e => ?_
  rw [mem_deadEntries,mem_deadEntries]
  exact and_congr_left fun hq => h e.1 e.2 hq

theorem deadEntries_insertResting (b : OrderBook S) (ho : 0 < o.qtyRem) :
    (b.insertResting o).deadEntries = b.deadEntries := by
  refine deadEntries_congr fun k x hx => ?_
  rw [insertResting_orders,Slab.get_insert]
  split_ifs with hk
  · subst hk
    constructor
    · intro heq
      obtain rfl := Option.some.inj heq
      exact absurd ho (Int64.not_lt.mpr hx)
    · intro heq
      exact absurd rfl (Slab.ne_vacantKey heq)
  · exact Iff.rfl

/-- A pass frees the slot of a filled maker and leaves the others of its kind alone. -/
theorem deadEntries_pass {m m' : Matching S} {taker : OrderId} {limit : Price} {makers : Side}
    (h : Pass taker limit makers m m') : m'.book.deadEntries = m.book.deadEntries := by
  cases h with
  | drop px lvl hr hl hdead => exact deadEntries_congr fun k x _ => by rw [setLevels_orders]
  | trade px lvl k rest o hr hl hk hfront hs =>
    obtain ⟨hg,ho⟩ := liveAt_eq_some.mp hk
    obtain ⟨-,-,-,hleft,-⟩ := min_qty hr.qty ho
    refine deadEntries_congr fun j x hx => ?_
    by_cases hj : j = k
    · subst hj
      -- the maker is live before the trade, and afterwards it is live or its slot is free
      have hold : Slab.get m.book.orders j ≠ some x := by
        intro heq
        obtain rfl := Option.some.inj (hg.symm.trans heq)
        exact absurd ho (Int64.not_lt.mpr hx)
      refine iff_of_false (fun heq => ?_) hold
      by_cases hz : o.qtyRem-min m.takerQty o.qtyRem = 0
      · simp [tradeWith,setLevels_orders,hz] at heq
      · rw [tradeWith_get_self hg hz] at heq
        obtain rfl := Option.some.inj heq
        exact absurd (hleft.resolve_left hz) (Int64.not_lt.mpr hx)
    · rw [tradeWith_get hj]

theorem deadEntries_matchTaker (b : OrderBook S) (taker : OrderId) (side : Side) (limit : Price) (qty : Qty) :
    (b.matchTaker taker side limit qty).1.deadEntries = b.deadEntries := by
  obtain ⟨m',hrun,he⟩ := matchTaker_run b taker side limit qty
  rw [he]
  exact (hrun.keeps (P := fun m => m.book.deadEntries = b.deadEntries)
    (fun _ _ h hp => (deadEntries_pass hp).trans h) rfl).1

/-- A cancelled order's slot stays occupied. -/
theorem cancel_dead {id : OrderId} (ho : b.get id = some o) :
    ∃ k, (k,{ o with qtyRem := 0 }) ∈ (b.cancel id o.accountId).1.deadEntries := by
  obtain ⟨k,hk,hg⟩ := get_eq_some.mp ho
  refine ⟨k,mem_deadEntries.mpr ⟨?_,Int64.le_refl 0⟩⟩
  rw [slot_cancel hk hg,if_pos rfl]

/-- Cancelling a live order adds one dead slot. -/
theorem deadEntries_cancel {id : OrderId} (ho : b.get id = some o) (hq : 0 < o.qtyRem) :
    (b.cancel id o.accountId).1.deadEntries.length = b.deadEntries.length+1 := by
  obtain ⟨k,hk,hg⟩ := get_eq_some.mp ho
  have hnew : (k,{ o with qtyRem := 0 }) ∉ b.deadEntries := by
    intro hmem
    have heq := Option.some.inj (hg.symm.trans (mem_deadEntries.mp hmem).1)
    have hzero : o.qtyRem = 0 := congrArg Order.qtyRem heq
    rw [hzero] at hq
    exact absurd hq (by decide)
  have hperm : (b.cancel id o.accountId).1.deadEntries.Perm ((k,{ o with qtyRem := 0 })::b.deadEntries) := by
    refine (List.perm_ext_iff_of_nodup (deadEntries_nodup _)
      (List.nodup_cons.mpr ⟨hnew,b.deadEntries_nodup⟩)).mpr fun e => ?_
    obtain ⟨j,x⟩ := e
    rw [List.mem_cons,mem_deadEntries,mem_deadEntries,slot_cancel hk hg]
    by_cases hj : j = k
    · subst hj
      simp only [if_true,Option.some.injEq,Prod.mk.injEq,true_and,hg]
      constructor
      · rintro ⟨rfl,-⟩
        exact Or.inl rfl
      · rintro (rfl | ⟨rfl,hx⟩)
        · exact ⟨rfl,Int64.le_refl 0⟩
        · exact absurd hq (Int64.not_lt.mpr hx)
    · simp only [hj,if_false,Prod.mk.injEq,false_and,false_or]
  rw [hperm.length_eq,List.length_cons]

/-! ### Whole runs -/

/-- Nothing is leaked from a sound book without dead slots. -/
theorem noLeak_of_clean (hb : Sound b) (hd : b.deadEntries = []) : NoLeak b := by
  have hqueued : ∀ k o, Slab.get b.orders k = some o → ∃ (s : Side) (p : Price) (lvl : Level),
      (b.levels s)[p]? = some lvl ∧ k ∈ lvl.queue := by
    intro k o hk
    obtain ⟨lvl,hl,hm⟩ := hb.waits (live_of_no_dead hd hk)
    exact ⟨o.side,o.price,lvl,hl,hm⟩
  refine ⟨hqueued,fun hnone => ?_,bounded_iff.mpr hd⟩
  refine List.eq_nil_iff_forall_not_mem.mpr fun e he => ?_
  obtain ⟨s,p,lvl,hl,-⟩ := hqueued e.1 e.2 ((Slab.mem_iter _ _ _).mp he)
  rw [hnone s] at hl
  simp at hl

/-- Resting and matching, and cancels and replaces that are refused, make no dead slots. -/
theorem clean_apply (hb : Sound b) (hd : b.deadEntries = []) {op : BookOp} (hfresh : Fresh b op)
    (href : Refused b op) (hfits : TotalFits b op) : Sound (b.apply op).1 ∧ (b.apply op).1.deadEntries = [] := by
  cases op with
  | insertResting o =>
    exact ⟨hb.insertResting_of_fits hfresh.1 hfits,(b.deadEntries_insertResting hfresh.1).trans hd⟩
  | cancel id acct =>
    rw [apply,cancel_refused href]
    exact ⟨hb,hd⟩
  | replace id acct px qty =>
    rw [apply,replace_refused href]
    exact ⟨hb,hd⟩
  | matchTaker taker side limit qty =>
    exact ⟨hb.matchTaker taker side limit qty,(b.deadEntries_matchTaker taker side limit qty).trans hd⟩

/-- A cancel or a replace that is carried out leaves a dead slot behind. -/
theorem dead_of_accepted {op : BookOp} (hop : ¬ Refused b op) : (b.apply op).1.deadEntries ≠ [] := by
  have happlied := b.applied op
  generalize (b.apply op).1 = b',(b.apply op).2 = out at happlied ⊢
  cases happlied with
  | rested order => exact absurd trivial hop
  | cancelled id o ho =>
    obtain ⟨k,hk⟩ := cancel_dead ho
    exact List.ne_nil_of_mem hk
  | notCancelled id acct hno => exact absurd hno hop
  | replaced id o px qty ho =>
    obtain ⟨k,hk⟩ := cancel_dead ho
    obtain ⟨hg,hq⟩ := mem_deadEntries.mp hk
    have hkept : (k,{ o with qtyRem := 0 }) ∈ (b.replace id o.accountId px qty).1.deadEntries := by
      rw [mem_deadEntries,replace_accepted ho,insertResting_orders,Slab.get_insert,if_neg (Slab.ne_vacantKey hg)]
      exact ⟨hg,hq⟩
    exact List.ne_nil_of_mem hkept
  | notReplaced id acct px qty hno => exact absurd hno hop
  | matched taker side limit qty => exact absurd trivial hop

/-- From the empty book nothing is leaked while every cancel and replace is refused and no total overflows, and the
first one that is carried out leaks its slot. -/
theorem noLeak_run {sym : SymbolId} {ops : List BookOp} (hfresh : AllSteps Fresh (new sym : OrderBook S) ops) :
    (AllSteps (fun b op => Refused b op ∧ TotalFits b op) (new sym : OrderBook S) ops →
      ∀ front, front <+: ops → NoLeak ((new sym : OrderBook S).runOps front)) ∧
    ((∀ front, front <+: ops → NoLeak ((new sym : OrderBook S).runOps front)) →
      AllSteps Refused (new sym : OrderBook S) ops) := by
  constructor
  · intro hcond front hfront
    have hclean := Runs.invariant
      (fun front => Sound ((new sym : OrderBook S).runOps front) ∧ ((new sym : OrderBook S).runOps front).deadEntries = [])
      ⟨Sound.new sym,by simp [runOps,new,deadEntries]⟩ (fun front op hstep hinv => ?_) front hfront
    · exact noLeak_of_clean hclean.1 hclean.2
    · obtain ⟨href,hfits⟩ := allSteps_iff.mp hcond front op hstep
      rw [runOps_concat]
      exact clean_apply hinv.1 hinv.2 (allSteps_iff.mp hfresh front op hstep) href hfits
  · intro hleak
    refine allSteps_iff.mpr fun front op hstep => ?_
    by_contra hop
    have hbounded := (hleak (front ++ [op]) hstep).bounded
    rw [runOps_concat] at hbounded
    exact dead_of_accepted hop (bounded_iff.mp hbounded)

/-- Two asks of which a taker takes the first, and a cancel that is not the owner's. -/
def takenAsk : List BookOp :=
  [.insertResting ⟨1,7,1,.sell,100,5,.gtc,⟨false⟩⟩,.insertResting ⟨2,7,1,.sell,100,5,.gtc,⟨false⟩⟩,
    .matchTaker 3 .buy 100 5,.cancel 2 8]

theorem takenAsk_fresh : AllSteps Fresh (new 1 : OrderBook (FreeListSlab Order)) takenAsk := by decide +kernel

theorem takenAsk_noLeak : AllSteps Fresh (new 1 : OrderBook (FreeListSlab Order)) takenAsk ∧
    ∀ front, front <+: takenAsk → NoLeak ((new 1 : OrderBook (FreeListSlab Order)).runOps front) :=
  ⟨takenAsk_fresh,(noLeak_run takenAsk_fresh).1 (by decide +kernel)⟩

/-- An order that rests and is cancelled by its owner. -/
def cancelledAsk : List BookOp := [.insertResting ⟨1,7,1,.sell,100,5,.gtc,⟨false⟩⟩,.cancel 1 7]

/-- The cancelled order keeps its slot in a book that has no level left. -/
theorem cancelledAsk_leaks : AllSteps Fresh (new 1 : OrderBook (FreeListSlab Order)) cancelledAsk ∧
    (∀ s, ((new 1 : OrderBook (FreeListSlab Order)).runOps cancelledAsk).levels s = ∅) ∧
    Slab.iter ((new 1 : OrderBook (FreeListSlab Order)).runOps cancelledAsk).orders =
      [(0,⟨1,7,1,.sell,100,0,.gtc,⟨false⟩⟩)] ∧
    ¬ NoLeak ((new 1 : OrderBook (FreeListSlab Order)).runOps cancelledAsk) := by
  have hlevels : ∀ s, ((new 1 : OrderBook (FreeListSlab Order)).runOps cancelledAsk).levels s = ∅ := by
    intro s
    cases s <;> decide +kernel
  have hslots : Slab.iter ((new 1 : OrderBook (FreeListSlab Order)).runOps cancelledAsk).orders =
      [(0,⟨1,7,1,.sell,100,0,.gtc,⟨false⟩⟩)] := by decide +kernel
  refine ⟨by decide +kernel,hlevels,hslots,fun h => ?_⟩
  have hempty := h.drained hlevels
  rw [hslots] at hempty
  exact List.cons_ne_nil _ _ hempty

/-- A total that wraps below zero drops the level, and with it an order that is still live. -/
example : ¬ NoLeak ((new 1 : OrderBook (FreeListSlab Order)).runOps
    [.insertResting ⟨1,7,1,.sell,100,9223372036854775807,.gtc,⟨false⟩⟩,.insertResting ⟨2,7,1,.sell,100,2,.gtc,⟨false⟩⟩,
      .matchTaker 3 .buy 100 1]) := by
  intro h
  have hempty := h.drained (fun s => by cases s <;> decide +kernel)
  revert hempty
  decide +kernel

/-! ### What stays in the queues -/

/-- No key of a cancelled order leaves its queue: a cancel leaves another live order at the level, a taker's limit
reaches no level with a cancelled order, and no total overflows. -/
def Retains (b : OrderBook S) : BookOp → Prop
  | .insertResting order => (b.levelTotal order.side order.price).toInt+order.qtyRem.toInt < 2^63
  | .cancel id acct => ∀ o ∈ b.get id, o.accountId = acct → b.levelTotal o.side o.price ≠ o.qtyRem
  | .replace id acct px qty => ∀ o ∈ b.get id, o.accountId = acct → b.levelTotal o.side o.price ≠ o.qtyRem ∧
      0 < qty ∧ ((b.cancel id acct).1.levelTotal o.side px).toInt+qty.toInt < 2^63
  | .matchTaker _ side limit _ => ∀ e ∈ b.deadEntries, e.2.side = side.opposite →
      outside side.opposite limit e.2.price = true

/-- The dead slots are queued at their orders' prices. -/
def DeadQueued (b : OrderBook S) : Prop :=
  ∀ e ∈ b.deadEntries, ∃ lvl, (b.levels e.2.side)[e.2.price]? = some lvl ∧ e.1 ∈ lvl.queue

/-- A level with another live order keeps its whole queue when one is cancelled, and so do all others. -/
theorem Sound.level_kept (hb : Sound b) {id : OrderId} (ho : b.get id = some o)
    (hne : b.levelTotal o.side o.price ≠ o.qtyRem) {s : Side} {p : Price} {lvl : Level}
    (hl : (b.levels s)[p]? = some lvl) :
    ∃ lvl', ((b.cancel id o.accountId).1.levels s)[p]? = some lvl' ∧ lvl'.queue = lvl.queue := by
  rw [level_cancel ho]
  split_ifs with hsp
  · obtain ⟨rfl,rfl⟩ := hsp
    obtain ⟨k,-,hk,-⟩ := hb.get_live ho
    obtain ⟨lvl',hl',hm⟩ := hb.waits hk
    obtain rfl := Option.some.inj (hl.symm.trans hl')
    have hv := levelView_eq_some hl
    have hq := (liveAt_eq_some.mp hk).2
    have hle := mem_le_sumQty (mem_liveQueue.mpr ⟨k,hm,hk⟩) liveQueue_pos
    have hsub := hb.level_sub hv (Int64.le_of_lt hq) hle
    have htot := (hb.total hv).1
    have hdiff : lvl.totalQty.toInt ≠ o.qtyRem.toInt := by
      intro heq
      exact hne (by rw [levelTotal,hl,Option.getD_some,Int64.toInt_inj.mp heq])
    have hpos : ¬ lvl.totalQty-o.qtyRem ≤ 0 := by
      rw [Int64.nonpos_iff_toInt,hsub]
      omega
    rw [hl,Option.bind_some,if_neg hpos]
    exact ⟨_,rfl,rfl⟩
  · exact ⟨lvl,hl,rfl⟩

/-- A pass leaves alone what is not in the taker's reach. -/
theorem Pass.level_outside {m m' : Matching S} {taker : OrderId} {limit : Price} {makers : Side}
    (h : Pass taker limit makers m m') {s : Side} {p : Price} (hp : s = makers → outside makers limit p = true) :
    (m'.book.levels s)[p]? = (m.book.levels s)[p]? := by
  have hne : ∀ px, Reaches m makers limit px → ¬ (s = makers ∧ p = px) := by
    rintro px hr ⟨hs,rfl⟩
    rw [hr.within] at hp
    exact Bool.noConfusion (hp hs)
  cases h with
  | drop px lvl hr hl hdead => rw [level_erase,if_neg (hne px hr)]
  | trade px lvl k rest o hr hl hk hfront hs => rw [tradeWith_level,if_neg (hne px hr)]

namespace DeadQueued

theorem insertResting (h : DeadQueued b) (ho : 0 < o.qtyRem) : DeadQueued (b.insertResting o) := by
  intro e he
  rw [deadEntries_insertResting b ho] at he
  obtain ⟨lvl,hl,hm⟩ := h e he
  rw [level_insertResting,hl]
  split_ifs
  · exact ⟨_,rfl,List.mem_append_left _ hm⟩
  · exact ⟨lvl,rfl,hm⟩

theorem cancel (h : DeadQueued b) (hb : Sound b) {id : OrderId} (ho : b.get id = some o)
    (hne : b.levelTotal o.side o.price ≠ o.qtyRem) : DeadQueued (b.cancel id o.accountId).1 := by
  obtain ⟨k,hk,hlive,-⟩ := hb.get_live ho
  obtain ⟨hg,-⟩ := liveAt_eq_some.mp hlive
  rintro ⟨j,x⟩ he
  obtain ⟨hx,hq⟩ := mem_deadEntries.mp he
  have hqueued : ∃ lvl, (b.levels x.side)[x.price]? = some lvl ∧ j ∈ lvl.queue := by
    rw [slot_cancel hk hg] at hx
    split_ifs at hx with hj
    · obtain rfl := Option.some.inj hx
      obtain rfl : j = k := hj
      have hwaits := hb.waits hlive
      exact hwaits
    · exact h (j,x) (mem_deadEntries.mpr ⟨hx,hq⟩)
  obtain ⟨lvl,hl,hm⟩ := hqueued
  obtain ⟨lvl',hl',hsame⟩ := hb.level_kept ho hne hl
  exact ⟨lvl',hl',hsame ▸ hm⟩

theorem matchTaker (h : DeadQueued b) (taker : OrderId) {side : Side} {limit : Price} (qty : Qty)
    (hout : ∀ e ∈ b.deadEntries, e.2.side = side.opposite → outside side.opposite limit e.2.price = true) :
    DeadQueued (b.matchTaker taker side limit qty).1 := by
  obtain ⟨m',hrun,he⟩ := matchTaker_run b taker side limit qty
  have hkept := (hrun.keeps (P := fun m => m.book.deadEntries = b.deadEntries ∧ DeadQueued m.book) (fun m x hm hp => by
    have hdead := deadEntries_pass hp
    refine ⟨hdead.trans hm.1,fun e hmem => ?_⟩
    rw [hdead] at hmem
    rw [hp.level_outside (hout e (hm.1 ▸ hmem))]
    exact hm.2 e hmem) ⟨rfl,h⟩).1
  rw [he]
  exact hkept.2

end DeadQueued

theorem retained_apply (hb : Sound b) (hd : DeadQueued b) {op : BookOp} (hfresh : Fresh b op) (hret : Retains b op) :
    Sound (b.apply op).1 ∧ DeadQueued (b.apply op).1 := by
  have happlied := b.applied op
  generalize (b.apply op).1 = b',(b.apply op).2 = out at happlied ⊢
  cases happlied with
  | rested order => exact ⟨hb.insertResting_of_fits hfresh.1 hret,hd.insertResting hfresh.1⟩
  | cancelled id o ho => exact ⟨hb.cancel ho,hd.cancel hb ho (hret o ho rfl)⟩
  | notCancelled id acct hno => exact ⟨hb,hd⟩
  | replaced id o px qty ho =>
    obtain ⟨hne,hq,hfits⟩ := hret o ho rfl
    have hq' : 0 < ({ o with price := px, qtyRem := qty } : Order).qtyRem := hq
    rw [replace_accepted ho]
    exact ⟨(hb.cancel ho).insertResting_of_fits hq' hfits,(hd.cancel hb ho hne).insertResting hq'⟩
  | notReplaced id acct px qty hno => exact ⟨hb,hd⟩
  | matched taker side limit qty => exact ⟨hb.matchTaker taker side limit qty,hd.matchTaker taker qty hret⟩

/-- While no key of a cancelled order leaves its queue, every slot is queued at its order's price. -/
theorem referenced_run {sym : SymbolId} {ops : List BookOp} (hfresh : AllSteps Fresh (new sym : OrderBook S) ops)
    (hret : AllSteps Retains (new sym : OrderBook S) ops) {front : List BookOp} (hfront : front <+: ops)
    (hk : Slab.get ((new sym : OrderBook S).runOps front).orders k = some o) :
    ∃ lvl, (((new sym : OrderBook S).runOps front).levels o.side)[o.price]? = some lvl ∧ k ∈ lvl.queue := by
  have hkept := Runs.invariant
    (fun front => Sound ((new sym : OrderBook S).runOps front) ∧ DeadQueued ((new sym : OrderBook S).runOps front))
    ⟨Sound.new sym,by simp [DeadQueued,runOps,new,deadEntries]⟩ (fun front op hstep hinv => by
      rw [runOps_concat]
      exact retained_apply hinv.1 hinv.2 (allSteps_iff.mp hfresh front op hstep) (allSteps_iff.mp hret front op hstep))
    front hfront
  by_cases hq : 0 < o.qtyRem
  · exact hkept.1.waits (liveAt_eq_some.mpr ⟨hk,hq⟩)
  · exact hkept.2 (k,o) (mem_deadEntries.mpr ⟨hk,Int64.not_lt.mp hq⟩)

/-! ### How many slots there are -/

/-- How many cancels and replaces of a sequence are carried out. -/
def accepted (b : OrderBook S) : List BookOp → ℕ
  | [] => 0
  | op::ops => (if (b.apply op).2 = .ok true then 1 else 0)+accepted (b.apply op).1 ops

theorem deadEntries_apply (hb : Wf b) {op : BookOp} (hl : Legal b op) : (b.apply op).1.deadEntries.length =
    b.deadEntries.length+if (b.apply op).2 = .ok true then 1 else 0 := by
  have happlied := b.applied op
  generalize (b.apply op).1 = b',(b.apply op).2 = out at happlied ⊢
  cases happlied with
  | rested order => simp [deadEntries_insertResting b hl.1]
  | cancelled id o ho => rw [deadEntries_cancel ho (hb.get_live ho).2,if_pos rfl]
  | notCancelled id acct hno => simp
  | replaced id o px qty ho =>
    have hq : 0 < ({ o with price := px, qtyRem := qty } : Order).qtyRem := hl
    rw [replace_accepted ho,deadEntries_insertResting _ hq,deadEntries_cancel ho (hb.get_live ho).2,if_pos rfl]
  | notReplaced id acct px qty hno => simp
  | matched taker side limit qty => simp [deadEntries_matchTaker]

theorem deadEntries_run (hb : Wf b) {ops : List BookOp} (hl : LegalRun b ops) :
    (b.runOps ops).deadEntries.length = b.deadEntries.length+accepted b ops := by
  induction ops generalizing b with
  | nil => rfl
  | cons op ops ih =>
    rw [runOps_cons,ih (hb.apply hl.1) hl.2,deadEntries_apply hb hl.1,accepted]
    omega

/-- The slab holds the live orders and one slot for each cancel and each replace that was carried out. -/
theorem slots_run {sym : SymbolId} {ops : List BookOp} (hl : LegalRun (new sym : OrderBook S) ops) :
    (Slab.iter ((new sym : OrderBook S).runOps ops).orders).length =
      ((new sym : OrderBook S).runOps ops).liveOrders.length+accepted (new sym : OrderBook S) ops := by
  rw [slots_eq,deadEntries_run (Wf.new sym) hl]
  simp [new,deadEntries]

end OrderBook
end HighPerfTrading
