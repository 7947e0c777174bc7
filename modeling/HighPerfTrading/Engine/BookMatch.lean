import HighPerfTrading.Engine.BookView

/-! The matching loop seen through the view: what one pass does to the levels and the index,
that the fuel suffices, and what holds after a whole run. -/
namespace HighPerfTrading
namespace OrderBook
variable {S : Type} [Slab S Order] {b : OrderBook S} {m m' : Matching S}

theorem popLiveFront_eq_none {orders : S} {q : List ℕ} :
    popLiveFront orders q = none ↔ liveQueue orders q = [] := by
  induction q with
  | nil => simp [popLiveFront]
  | cons k q ih =>
    rw [liveQueue_cons]
    cases hk : Slab.get orders k with
    | none => simp [popLiveFront,liveAt,hk,ih]
    | some o =>
      by_cases ho : 0 < o.qtyRem
      · simp [popLiveFront,liveAt,hk,ho]
      · simp [popLiveFront,liveAt,hk,if_neg ho,Int64.not_lt.mp ho,ih]

/-- The popped key holds the oldest live order, and the rest of the queue the others. -/
theorem popLiveFront_eq_some {orders : S} {q : List ℕ} {k : ℕ} {rest : List ℕ}
    (h : popLiveFront orders q = some (k,rest)) :
    ∃ o, liveAt orders k = some o ∧ liveQueue orders q = o::liveQueue orders rest ∧
      (k::rest) <:+ q := by
  induction q with
  | nil => cases h
  | cons j q ih =>
    rw [popLiveFront] at h
    split_ifs at h with hj
    · cases h
      obtain ⟨o,ho⟩ : ∃ o, Slab.get orders k = some o := by
        cases hk : Slab.get orders k with
        | none => simp [hk] at hj
        | some o => exact ⟨o,rfl⟩
      have hlive : liveAt orders k = some o := liveAt_eq_some.mpr ⟨ho,by simpa [ho] using hj⟩
      exact ⟨o,hlive,by rw [liveQueue_cons,hlive]; rfl,List.suffix_rfl⟩
    · obtain ⟨o,hlive,hq,hs⟩ := ih h
      refine ⟨o,hlive,?_,hs.trans (List.suffix_cons j q)⟩
      have hdead : liveAt orders j = none := by
        cases hk : Slab.get orders j with
        | none => simp [liveAt,hk]
        | some o' =>
          have hq : o'.qtyRem ≤ 0 := by simpa [hk] using hj
          simp [liveAt,hk,hq]
      rw [liveQueue_cons,hdead,hq]; rfl

/-- The order a price has among the makers of a side: best first. -/
def better (makers : Side) (p q : Price) : Prop :=
  match makers with
  | .sell => p ≤ q
  | .buy => q ≤ p

instance (makers : Side) (p q : Price) : Decidable (better makers p q) := by
  cases makers <;> exact inferInstanceAs (Decidable (_ ≤ _))

theorem better_antisymm {makers : Side} {p q : Price} (h : better makers p q)
    (h' : better makers q p) : p = q := by
  cases makers with
  | sell => exact Int64.le_antisymm h h'
  | buy => exact Int64.le_antisymm h' h

theorem bestPrice_eq_none {makers : Side} {m : OrdMap Price Level} :
    bestPrice makers m = none ↔ ∀ p : Price, m[p]? = none := by
  cases makers with
  | sell => rw [bestPrice,Option.map_eq_none_iff,OrdMap.first?_eq_none]
  | buy => rw [bestPrice,Option.map_eq_none_iff,OrdMap.last?_eq_none]

private theorem le_of_compare {a c : Price} (h : a ≠ c → compare c a = .lt) : c ≤ a := by
  by_cases hac : a = c
  · exact hac ▸ Int64.le_refl _
  · exact Std.isLE_compare.mp (by rw [h hac]; rfl)

theorem bestPrice_eq_some {makers : Side} {m : OrdMap Price Level} {px : Price}
    (h : bestPrice makers m = some px) :
    (∃ lvl, m[px]? = some lvl) ∧ ∀ p lvl, m[p]? = some lvl → better makers px p := by
  cases makers with
  | sell =>
    obtain ⟨⟨k,v⟩,he,rfl⟩ := Option.map_eq_some_iff.mp h
    obtain ⟨hk,hmin⟩ := OrdMap.first?_eq_some he
    exact ⟨⟨v,hk⟩,fun p lvl hp => le_of_compare fun hne => hmin p lvl hp hne⟩
  | buy =>
    obtain ⟨⟨k,v⟩,he,rfl⟩ := Option.map_eq_some_iff.mp h
    obtain ⟨hk,hmax⟩ := OrdMap.last?_eq_some he
    exact ⟨⟨v,hk⟩,fun p lvl hp => le_of_compare fun hne => hmax p lvl hp (Ne.symm hne)⟩

/-- A level exists at `px` and no level of the side ranks before it. -/
def Best (b : OrderBook S) (makers : Side) (px : Price) : Prop :=
  levelView b makers px ≠ none ∧ ∀ p, levelView b makers p ≠ none → better makers px p

theorem Best.unique {makers : Side} {p q : Price} (hp : Best b makers p) (hq : Best b makers q) :
    p = q :=
  better_antisymm (hp.2 q hq.1) (hq.2 p hp.1)

theorem bestPrice_iff {makers : Side} {px : Price} :
    bestPrice makers (b.levels makers) = some px ↔ Best b makers px := by
  have best : ∀ {p}, bestPrice makers (b.levels makers) = some p → Best b makers p := by
    intro p h
    obtain ⟨⟨lvl,hl⟩,hmin⟩ := bestPrice_eq_some h
    refine ⟨by simp [levelView_eq_none,hl],fun q hq => ?_⟩
    obtain ⟨lvl',hl'⟩ := Option.ne_none_iff_exists'.mp (mt levelView_eq_none.mpr hq)
    exact hmin q lvl' hl'
  constructor
  · exact best
  · intro hb
    cases h : bestPrice makers (b.levels makers) with
    | none => exact absurd (levelView_eq_none.mpr (bestPrice_eq_none.mp h px)) hb.1
    | some p => rw [(best h).unique hb]

/-! ### One pass -/

/-- What is left of a maker that has traded `t`. -/
def afterTrade (o : Order) (t : Qty) : Option Order :=
  if o.qtyRem-t = 0 then none else some { o with qtyRem := o.qtyRem-t }

/-- The best level has no live order: the pass drops it. -/
structure Dropped (makers : Side) (px : Price) (m m' : Matching S) : Prop where
  wf : Wf m'.book
  get : ∀ id, m'.book.get id = m.book.get id
  view : ∀ s p, levelView m'.book s p =
    if s = makers ∧ p = px then none else levelView m.book s p
  qty : m'.takerQty = m.takerQty
  fills : m'.fills = m.fills
  work : work (m'.book.levels makers) < work (m.book.levels makers)
  symbol : m'.book.symbolId = m.book.symbolId

/-- The pass trades with `o`, the oldest order of the level at `px`. -/
structure Traded (taker : OrderId) (makers : Side) (px : Price) (total : Qty) (o : Order)
    (os : List Order) (m m' : Matching S) : Prop where
  wf : Wf m'.book
  get : ∀ id, m'.book.get id =
    if id = o.orderId then afterTrade o (min m.takerQty o.qtyRem) else m.book.get id
  view : ∀ s p, levelView m'.book s p =
    if s = makers ∧ p = px then
      if total-min m.takerQty o.qtyRem ≤ 0 then none
      else some (total-min m.takerQty o.qtyRem,(afterTrade o (min m.takerQty o.qtyRem)).toList ++ os)
    else levelView m.book s p
  qty : m'.takerQty = m.takerQty-min m.takerQty o.qtyRem
  fills : m'.fills =
    m.fills ++ [⟨o.orderId,o.accountId,taker,px,min m.takerQty o.qtyRem⟩]
  work : work (m'.book.levels makers) < work (m.book.levels makers) ∨ m'.takerQty ≤ 0
  symbol : m'.book.symbolId = m.book.symbolId

/-- A trade is positive and at most what either party has. -/
theorem min_qty {q r : Qty} (hq : 0 < q) (hr : 0 < r) :
    0 < min q r ∧ min q r ≤ q ∧ min q r ≤ r ∧ (r-min q r = 0 ∨ 0 < r-min q r) ∧
      (r-min q r = 0 ∨ q-min q r = 0) := by
  rw [Int64.min_def]
  split_ifs <;> grind

theorem work_erase {m : OrdMap Price Level} {px : Price} {lvl : Level} (h : m[px]? = some lvl) :
    work (m.erase px) < work m := by
  unfold work
  rw [OrdMap.sumEntries_erase (fun _ lvl => lvl.queue.length+1) h]
  omega

theorem work_insert {m : OrdMap Price Level} {px : Price} {lvl lvl' : Level} (h : m[px]? = some lvl)
    (hlt : lvl'.queue.length < lvl.queue.length) : work (m.insert px lvl') < work m := by
  unfold work
  rw [OrdMap.sumEntries_erase (fun _ lvl => lvl.queue.length+1) h,OrdMap.sumEntries_insert]
  omega

omit [Slab S Order] in
theorem level_erase (b : OrderBook S) (makers : Side) (px : Price) (s : Side) (p : Price) :
    ((b.setLevels makers ((b.levels makers).erase px)).levels s)[p]? =
      if s = makers ∧ p = px then none else (b.levels s)[p]? := by
  rw [levels_setLevels]
  by_cases hs : makers = s
  · subst hs
    by_cases hp : px = p <;> simp [hp,eq_comm]
  · simp [hs,Ne.symm hs]

theorem Queues.erase {b : OrderBook S} (hb : Queues b) (makers : Side) (px : Price) :
    Queues (b.setLevels makers ((b.levels makers).erase px)) := by
  refine ⟨?_,?_⟩
  · intro s p lvl hl k hk
    rw [level_erase] at hl
    split_ifs at hl
    rw [setLevels_orders]
    exact hb.queued hl k hk
  · intro s p lvl hl
    rw [level_erase] at hl
    split_ifs at hl
    exact hb.nodup hl

theorem dropped (hb : Wf m.book) {makers : Side} {px : Price} {lvl : Level}
    (hl : (m.book.levels makers)[px]? = some lvl) :
    Dropped makers px m
      { m with book := m.book.setLevels makers ((m.book.levels makers).erase px) } := by
  have hlevel := level_erase m.book makers px
  refine ⟨⟨hb.toQueues.erase makers px,?_⟩,?_,?_,rfl,rfl,?_,by simp⟩
  · intro id k
    rw [setLevels_orders,setLevels_index]
    exact hb.indexed
  · intro id
    simp [get]
  · intro s p
    rw [levelView,hlevel,setLevels_orders]
    split_ifs <;> rfl
  · rw [levels_setLevels,if_pos rfl]
    exact work_erase hl

section Trade
variable {makers : Side} {px : Price} {lvl : Level} {k : ℕ} {rest : List ℕ} {o : Order}
  {taker : OrderId}

theorem tradeWith_level (s : Side) (p : Price) :
    ((tradeWith taker makers m px lvl k rest o).book.levels s)[p]? =
      if s = makers ∧ p = px then
        if lvl.totalQty-min m.takerQty o.qtyRem ≤ 0 then none
        else some ⟨if o.qtyRem-min m.takerQty o.qtyRem = 0 then rest else k::rest,
          lvl.totalQty-min m.takerQty o.qtyRem⟩
      else (m.book.levels s)[p]? := by
  simp only [tradeWith,levels_setLevels,levels_store]
  by_cases hs : makers = s
  · subst hs
    by_cases hp : px = p
    · subst hp
      simp only [if_true,and_self]
      split_ifs <;> simp
    · simp only [if_true,true_and,Ne.symm hp,if_false]
      split_ifs <;> simp [hp]
  · simp [hs,Ne.symm hs]

theorem tradeWith_liveAt (hk : liveAt m.book.orders k = some o) (hq : 0 < m.takerQty) (j : ℕ) :
    liveAt (tradeWith taker makers m px lvl k rest o).book.orders j =
      if j = k then afterTrade o (min m.takerQty o.qtyRem) else liveAt m.book.orders j := by
  obtain ⟨hg,ho⟩ := liveAt_eq_some.mp hk
  obtain ⟨_,_,_,hleft,_⟩ := min_qty hq ho
  simp only [tradeWith,setLevels_orders,afterTrade,liveAt]
  by_cases hz : o.qtyRem-min m.takerQty o.qtyRem = 0
  · simp only [hz,if_true,Slab.get_remove,Slab.get_set]
    split_ifs <;> rfl
  · have hpos := hleft.resolve_left hz
    simp only [hz,if_false,Slab.get_set]
    split_ifs with hj
    · simp [hg,hpos]
    · rfl

theorem tradeWith_index (id : OrderId) :
    (tradeWith taker makers m px lvl k rest o).book.index[id]? =
      if id = o.orderId ∧ o.qtyRem-min m.takerQty o.qtyRem = 0 then none
      else m.book.index[id]? := by
  simp only [tradeWith,setLevels_index]
  by_cases hz : o.qtyRem-min m.takerQty o.qtyRem = 0
  · simp [hz,eq_comm]
  · simp [hz]

/-- Nothing but the maker moves in the slab. -/
theorem tradeWith_get {j : ℕ} (hj : j ≠ k) :
    Slab.get (tradeWith taker makers m px lvl k rest o).book.orders j = Slab.get m.book.orders j := by
  simp only [tradeWith,setLevels_orders]
  split_ifs <;> simp [hj]

theorem tradeWith_get_self (hg : Slab.get m.book.orders k = some o)
    (hz : o.qtyRem-min m.takerQty o.qtyRem ≠ 0) :
    Slab.get (tradeWith taker makers m px lvl k rest o).book.orders k =
      some { o with qtyRem := o.qtyRem-min m.takerQty o.qtyRem } := by
  simp [tradeWith,hz,hg]

theorem afterTrade_eq_some {o x : Order} {t : Qty} (h : afterTrade o t = some x) :
    x = { o with qtyRem := o.qtyRem-t } ∧ o.qtyRem-t ≠ 0 := by
  unfold afterTrade at h
  split_ifs at h with hz
  exact ⟨(Option.some.inj h).symm,hz⟩

theorem Queues.traded (hb : Queues m.book) (hl : (m.book.levels makers)[px]? = some lvl)
    (hk : liveAt m.book.orders k = some o) (hs : (k::rest) <:+ lvl.queue) :
    Queues (tradeWith taker makers m px lvl k rest o).book := by
  obtain ⟨hg,ho⟩ := liveAt_eq_some.mp hk
  have hnd : (k::rest).Nodup := (hb.nodup hl).sublist hs.sublist
  obtain ⟨x,hx,hxs,hxp⟩ := hb.queued hl k (hs.mem (List.mem_cons_self ..))
  obtain rfl := Option.some.inj (hg.symm.trans hx)
  refine ⟨?_,?_⟩
  · intro s p lvl' hl' j hj
    have hold : j ≠ k → (∃ lvl'', (m.book.levels s)[p]? = some lvl'' ∧ j ∈ lvl''.queue) →
        ∃ x, Slab.get (tradeWith taker makers m px lvl k rest o).book.orders j = some x ∧
          x.side = s ∧ x.price = p := by
      rintro hjk ⟨lvl'',hl'',hj''⟩
      rw [tradeWith_get hjk]
      exact hb.queued hl'' j hj''
    rw [tradeWith_level] at hl'
    split_ifs at hl' with hsp ht hz
    · cases hl'
      obtain ⟨rfl,rfl⟩ := hsp
      have hjk : j ≠ k := by rintro rfl; exact (List.nodup_cons.mp hnd).1 hj
      exact hold hjk ⟨lvl,hl,hs.mem (List.mem_cons_of_mem _ hj)⟩
    · cases hl'
      obtain ⟨rfl,rfl⟩ := hsp
      by_cases hjk : j = k
      · subst hjk
        exact ⟨{ o with qtyRem := o.qtyRem-min m.takerQty o.qtyRem },tradeWith_get_self hg hz,hxs,hxp⟩
      · exact hold hjk ⟨lvl,hl,hs.mem hj⟩
    · have hjk : j ≠ k := by
        rintro rfl
        obtain ⟨y,hy,hys,hyp⟩ := hb.queued hl' j hj
        obtain rfl := Option.some.inj (hg.symm.trans hy)
        exact hsp ⟨hys.symm.trans hxs,hyp.symm.trans hxp⟩
      exact hold hjk ⟨lvl',hl',hj⟩
  · intro s p lvl' hl'
    rw [tradeWith_level] at hl'
    split_ifs at hl' with hsp ht hz
    · cases hl'; exact hnd.of_cons
    · cases hl'; exact hnd
    · exact hb.nodup hl'

theorem traded_wf (hb : Wf m.book) (hl : (m.book.levels makers)[px]? = some lvl)
    (hk : liveAt m.book.orders k = some o) (hs : (k::rest) <:+ lvl.queue) (hq : 0 < m.takerQty) :
    Wf (tradeWith taker makers m px lvl k rest o).book := by
  refine ⟨hb.toQueues.traded hl hk hs,?_⟩
  · intro id j
    rw [tradeWith_index,tradeWith_liveAt hk hq]
    by_cases hj : j = k
    · subst hj
      rw [if_pos rfl,afterTrade]
      by_cases hz : o.qtyRem-min m.takerQty o.qtyRem = 0
      · by_cases hid : id = o.orderId
        · simp [hz,hid]
        · simp [hz,hid,hb.indexed,hk,Ne.symm hid]
      · simp [hz,hb.indexed,hk]
    · rw [if_neg hj]
      split_ifs with hid
      · simp only [false_iff,not_exists,not_and]
        intro x hx hxid
        exact hj (hb.key_unique hx hk (hxid.trans hid.1))
      · exact hb.indexed

theorem traded_get (hb : Wf m.book) (hk : liveAt m.book.orders k = some o) (hq : 0 < m.takerQty)
    (hb' : Wf (tradeWith taker makers m px lvl k rest o).book) (id : OrderId) :
    (tradeWith taker makers m px lvl k rest o).book.get id =
      if id = o.orderId then afterTrade o (min m.takerQty o.qtyRem) else m.book.get id := by
  refine Option.ext fun x => ?_
  rw [hb'.get_iff]
  simp only [tradeWith_liveAt hk hq]
  split_ifs with hid
  · subst hid
    constructor
    · rintro ⟨j,hj,hx⟩
      split_ifs at hj with hjk
      · exact hj
      · exact absurd (hb.key_unique hj hk hx) hjk
    · intro hx
      obtain ⟨rfl,_⟩ := afterTrade_eq_some hx
      exact ⟨k,by rw [if_pos rfl]; exact hx,rfl⟩
  · rw [hb.get_iff]
    constructor
    · rintro ⟨j,hj,hx⟩
      split_ifs at hj with hjk
      · obtain ⟨rfl,_⟩ := afterTrade_eq_some hj
        exact absurd hx.symm hid
      · exact ⟨j,hj,hx⟩
    · rintro ⟨j,hj,hx⟩
      refine ⟨j,?_,hx⟩
      rw [if_neg,hj]
      rintro rfl
      obtain rfl := Option.some.inj (hk.symm.trans hj)
      exact hid hx.symm

theorem traded_view (hb : Queues m.book) (hl : (m.book.levels makers)[px]? = some lvl)
    (hk : liveAt m.book.orders k = some o) (hs : (k::rest) <:+ lvl.queue) (hq : 0 < m.takerQty)
    (s : Side) (p : Price) :
    levelView (tradeWith taker makers m px lvl k rest o).book s p =
      if s = makers ∧ p = px then
        if lvl.totalQty-min m.takerQty o.qtyRem ≤ 0 then none
        else some (lvl.totalQty-min m.takerQty o.qtyRem,
          (afterTrade o (min m.takerQty o.qtyRem)).toList ++ liveQueue m.book.orders rest)
      else levelView m.book s p := by
  obtain ⟨hg,_⟩ := liveAt_eq_some.mp hk
  have hnd : (k::rest).Nodup := (hb.nodup hl).sublist hs.sublist
  have hframe : ∀ {q : List ℕ}, k ∉ q →
      liveQueue (tradeWith taker makers m px lvl k rest o).book.orders q =
        liveQueue m.book.orders q := by
    intro q hkq
    refine liveQueue_congr fun j hj => ?_
    rw [tradeWith_liveAt hk hq,if_neg]
    rintro rfl
    exact hkq hj
  have hrest := hframe (List.nodup_cons.mp hnd).1
  rw [levelView,tradeWith_level]
  split_ifs with hsp ht hz
  · rfl
  · simp [afterTrade,hz,hrest]
  · rw [Option.map_some,liveQueue_cons,tradeWith_liveAt hk hq,if_pos rfl,hrest]
  · cases hl' : (m.book.levels s)[p]? with
    | none => simp [levelView,hl']
    | some lvl' =>
      have hkq : k ∉ lvl'.queue := by
        intro hkq
        obtain ⟨y,hy,hys,hyp⟩ := hb.queued hl' k hkq
        obtain ⟨x,hx,hxs,hxp⟩ := hb.queued hl k (hs.mem (List.mem_cons_self ..))
        obtain rfl := Option.some.inj (hy.symm.trans hx)
        exact hsp ⟨hys.symm.trans hxs,hyp.symm.trans hxp⟩
      simp [levelView,hl',hframe hkq]

theorem traded_work (hl : (m.book.levels makers)[px]? = some lvl)
    (hk : liveAt m.book.orders k = some o) (hs : (k::rest) <:+ lvl.queue) (hq : 0 < m.takerQty) :
    work ((tradeWith taker makers m px lvl k rest o).book.levels makers) <
        work (m.book.levels makers) ∨
      (tradeWith taker makers m px lvl k rest o).takerQty ≤ 0 := by
  obtain ⟨_,ho⟩ := liveAt_eq_some.mp hk
  obtain ⟨_,_,_,_,hdone⟩ := min_qty hq ho
  have hlen : rest.length < lvl.queue.length := hs.length_le
  simp only [tradeWith,levels_setLevels,if_true,levels_store]
  rcases hdone with hz | hz
  · left
    split_ifs with ht
    · exact work_erase hl
    · exact work_insert hl hlen
  · right
    rw [hz]
    exact Int64.le_refl 0

theorem traded (hb : Wf m.book) (hl : (m.book.levels makers)[px]? = some lvl)
    (hk : liveAt m.book.orders k = some o) (hs : (k::rest) <:+ lvl.queue) (hq : 0 < m.takerQty) :
    Traded taker makers px lvl.totalQty o (liveQueue m.book.orders rest) m
      (tradeWith taker makers m px lvl k rest o) where
  wf := traded_wf hb hl hk hs hq
  get := traded_get hb hk hq (traded_wf hb hl hk hs hq)
  view := traded_view hb.toQueues hl hk hs hq
  qty := rfl
  fills := rfl
  work := traded_work hl hk hs hq
  symbol := by simp [tradeWith]

end Trade

/-- The taker can still trade at `px`. -/
structure Reaches (m : Matching S) (makers : Side) (limit px : Price) : Prop where
  qty : 0 < m.takerQty
  best : Best m.book makers px
  within : outside makers limit px = false

theorem outside_mono {makers : Side} {limit p q : Price} (h : better makers p q)
    (hq : outside makers limit q = false) : outside makers limit p = false := by
  cases makers with
  | sell => simpa [outside] using Int64.le_trans h (by simpa [outside] using hq)
  | buy => simpa [outside] using Int64.le_trans (by simpa [outside] using hq) h

/-- A level within the limit makes the best level reachable. -/
theorem exists_reaches {makers : Side} {limit px : Price} (hq : 0 < m.takerQty)
    (hv : levelView m.book makers px ≠ none) (hp : outside makers limit px = false) :
    ∃ p, Reaches m makers limit p := by
  cases h : bestPrice makers (m.book.levels makers) with
  | none => exact absurd (levelView_eq_none.mpr (bestPrice_eq_none.mp h px)) hv
  | some p =>
    have hbest := bestPrice_iff.mp h
    exact ⟨p,hq,hbest,outside_mono (hbest.2 px hv) hp⟩

/-- What one pass does: it drops a level without live orders, or trades with the oldest live order
of the best level. -/
inductive Pass (taker : OrderId) (limit : Price) (makers : Side) (m : Matching S) : Matching S → Prop
  | drop (px : Price) (lvl : Level) (hr : Reaches m makers limit px)
      (hl : (m.book.levels makers)[px]? = some lvl) (hdead : liveQueue m.book.orders lvl.queue = []) :
      Pass taker limit makers m
        { m with book := m.book.setLevels makers ((m.book.levels makers).erase px) }
  | trade (px : Price) (lvl : Level) (k : ℕ) (rest : List ℕ) (o : Order) (hr : Reaches m makers limit px)
      (hl : (m.book.levels makers)[px]? = some lvl) (hk : liveAt m.book.orders k = some o)
      (hfront : liveQueue m.book.orders lvl.queue = o::liveQueue m.book.orders rest)
      (hs : (k::rest) <:+ lvl.queue) : Pass taker limit makers m (tradeWith taker makers m px lvl k rest o)

theorem Queues.pass {taker : OrderId} {limit : Price} {makers : Side} (hb : Queues m.book)
    (h : Pass taker limit makers m m') : Queues m'.book := by
  cases h with
  | drop px lvl hr hl hdead => exact hb.erase makers px
  | trade px lvl k rest o hr hl hk hfront hs => exact hb.traded hl hk hs

/-- A pass never panics, and it stops exactly when the taker is exhausted or the best level is out of
reach. -/
theorem matchStep_pass (m : Matching S) (taker : OrderId) (limit : Price) (makers : Side) :
    (matchStep taker limit makers m = .exit ∧ ∀ px, ¬ Reaches m makers limit px) ∨
      ∃ m', matchStep taker limit makers m = .next m' ∧ Pass taker limit makers m m' := by
  unfold matchStep
  by_cases hq : m.takerQty ≤ 0
  · refine Or.inl ⟨by rw [if_pos hq],fun px h => ?_⟩
    exact absurd h.qty (Int64.not_lt.mpr hq)
  rw [if_neg hq]
  cases hp : bestPrice makers (m.book.levels makers) with
  | none =>
    refine Or.inl ⟨rfl,fun px h => h.best.1 ?_⟩
    exact levelView_eq_none.mpr (bestPrice_eq_none.mp hp px)
  | some px =>
    have hbest := bestPrice_iff.mp hp
    cases ho : outside makers limit px with
    | true =>
      refine Or.inl ⟨by simp [ho],fun p h => ?_⟩
      obtain rfl := h.best.unique hbest
      exact Bool.noConfusion (ho.symm.trans h.within)
    | false =>
      have hreach : Reaches m makers limit px := ⟨Int64.not_le.mp hq,hbest,ho⟩
      obtain ⟨⟨lvl,hl⟩,_⟩ := bestPrice_eq_some hp
      refine Or.inr ?_
      simp only [ho,hl]
      cases hpop : popLiveFront m.book.orders lvl.queue with
      | none => exact ⟨_,rfl,.drop px lvl hreach hl (popLiveFront_eq_none.mp hpop)⟩
      | some kr =>
        obtain ⟨k,rest⟩ := kr
        obtain ⟨o,hk,hfront,hs⟩ := popLiveFront_eq_some hpop
        obtain ⟨hg,_⟩ := liveAt_eq_some.mp hk
        exact ⟨_,by simp [hg],.trade px lvl k rest o hreach hl hk hfront hs⟩

/-- A pass on a well-formed book, seen through the view. -/
theorem matchStep_cases (hb : Wf m.book) (taker : OrderId) (limit : Price) (makers : Side) :
    (matchStep taker limit makers m = .exit ∧ ∀ px, ¬ Reaches m makers limit px) ∨
    ∃ px, Reaches m makers limit px ∧ ∃ m', matchStep taker limit makers m = .next m' ∧
      ((∃ total, levelView m.book makers px = some (total,[]) ∧ Dropped makers px m m') ∨
        ∃ total o os, levelView m.book makers px = some (total,o::os) ∧
          Traded taker makers px total o os m m') := by
  rcases matchStep_pass m taker limit makers with hexit | ⟨m',hnext,hpass⟩
  · exact Or.inl hexit
  refine Or.inr ?_
  cases hpass with
  | drop px lvl hr hl hdead =>
    refine ⟨px,hr,_,hnext,Or.inl ⟨lvl.totalQty,?_,dropped hb hl⟩⟩
    simp [levelView,hl,hdead]
  | trade px lvl k rest o hr hl hk hfront hs =>
    refine ⟨px,hr,_,hnext,Or.inr ⟨lvl.totalQty,o,liveQueue m.book.orders rest,?_,traded hb hl hk hs hr.qty⟩⟩
    simp [levelView,hl,hfront]

/-! ### A whole run -/

/-- The passes of the matching loop from `m` until it stops. -/
inductive MatchRun (taker : OrderId) (limit : Price) (makers : Side) :
    Matching S → Matching S → Prop
  | stop {m : Matching S} (h : matchStep taker limit makers m = .exit) : MatchRun taker limit makers m m
  | pass {m m' m'' : Matching S} (h : matchStep taker limit makers m = .next m')
      (tail : MatchRun taker limit makers m' m'') : MatchRun taker limit makers m m''

variable {taker : OrderId} {limit : Price} {makers : Side}

theorem matchLoop_exit (h : matchStep taker limit makers m = .exit) (n : ℕ) :
    matchLoop taker limit makers n m = m := by
  cases n with
  | zero => rfl
  | succ n => rw [matchLoop,h]

theorem matchStep_exhausted (h : m.takerQty ≤ 0) : matchStep taker limit makers m = .exit := by
  rw [matchStep,if_pos h]

theorem Pass.work (h : Pass taker limit makers m m') :
    work (m'.book.levels makers) < work (m.book.levels makers) ∨ m'.takerQty ≤ 0 := by
  cases h with
  | drop px lvl hr hl hdead =>
    rw [levels_setLevels,if_pos rfl]
    exact Or.inl (work_erase hl)
  | trade px lvl k rest o hr hl hk hfront hs => exact traded_work hl hk hs hr.qty

/-- Levels and queued keys bound the number of passes, so the loop always stops. -/
theorem matchLoop_run {n : ℕ} (hn : work (m.book.levels makers) < n) :
    MatchRun taker limit makers m (matchLoop taker limit makers n m) := by
  induction n generalizing m with
  | zero => omega
  | succ n ih =>
    rcases matchStep_pass m taker limit makers with ⟨hexit,_⟩ | ⟨m',hnext,hpass⟩
    · rw [matchLoop_exit hexit]
      exact .stop hexit
    · rw [matchLoop,hnext]
      refine .pass hnext ?_
      rcases hpass.work with hw | hw
      · exact ih (by omega)
      · have hstop : matchStep taker limit makers m' = .exit := matchStep_exhausted hw
        change MatchRun taker limit makers m' (matchLoop taker limit makers n m')
        rw [matchLoop_exit hstop]
        exact .stop hstop

theorem matchTaker_run (b : OrderBook S) (taker : OrderId) (side : Side) (limit : Price) (qty : Qty) :
    ∃ m', MatchRun taker limit side.opposite ⟨b,qty,[]⟩ m' ∧
      b.matchTaker taker side limit qty = (m'.book,m'.fills) :=
  ⟨_,matchLoop_run (Nat.lt_succ_self _),rfl⟩

/-- What every pass keeps holds when the loop stops, and then nothing is left in reach. -/
theorem MatchRun.keeps {P : Matching S → Prop} (h : MatchRun taker limit makers m m')
    (hpass : ∀ x y, P x → Pass taker limit makers x y → P y) (hm : P m) :
    P m' ∧ ∀ px, ¬ Reaches m' makers limit px := by
  induction h with
  | @stop m hexit =>
    rcases matchStep_pass m taker limit makers with ⟨_,hstuck⟩ | ⟨_,hnext,_⟩
    · exact ⟨hm,hstuck⟩
    · exact absurd (hexit.symm.trans hnext) (by simp)
  | @pass m m₁ m₂ hnext tail ih =>
    rcases matchStep_pass m taker limit makers with ⟨hexit,_⟩ | ⟨x,hx,hp⟩
    · exact absurd (hnext.symm.trans hexit) (by simp)
    obtain rfl : m₁ = x := by simpa using hnext.symm.trans hx
    exact ih (hpass _ _ hm hp)

/-- What a run of the loop does to the orders of the book. -/
structure Outcome (taker : OrderId) (limit : Price) (makers : Side) (b : OrderBook S) (q : Qty)
    (fs : List MatchFill) (b' : OrderBook S) (q' : Qty) : Prop where
  wf : Wf b'
  symbol : b'.symbolId = b.symbolId
  left : q' = q-(fs.map MatchFill.qty).sum
  nonneg : 0 ≤ q → 0 ≤ q'
  le : q' ≤ q
  keeps : ∀ id, (∀ f ∈ fs, f.makerOrderId ≠ id) → b'.get id = b.get id
  shrinks : ∀ id o', b'.get id = some o' →
    ∃ o, b.get id = some o ∧ o' = { o with qtyRem := o'.qtyRem } ∧ o'.qtyRem ≤ o.qtyRem
  maker : ∀ f ∈ fs, f.takerOrderId = taker ∧ 0 < f.qty ∧ outside makers limit f.price = false ∧
    ∃ o, b.get f.makerOrderId = some o ∧ o.accountId = f.makerAccountId ∧ o.side = makers ∧
      o.price = f.price
  trades : 0 < q → (∃ px total o os, levelView b makers px = some (total,o::os) ∧
    outside makers limit px = false) → fs ≠ []
  stuck : ∀ px, ¬ Reaches ⟨b',q',[]⟩ makers limit px

theorem Outcome.dropped {px : Price} {fs : List MatchFill} {b' : OrderBook S} {q' : Qty}
    (hd : Dropped makers px m m') (he : ∀ o ∈ (levelView m.book makers px).elim [] Prod.snd, False)
    (h : Outcome taker limit makers m'.book m'.takerQty fs b' q') :
    Outcome taker limit makers m.book m.takerQty fs b' q' where
  wf := h.wf
  symbol := h.symbol.trans hd.symbol
  left := hd.qty ▸ h.left
  nonneg := hd.qty ▸ h.nonneg
  le := hd.qty ▸ h.le
  keeps id hid := (h.keeps id hid).trans (hd.get id)
  shrinks id o' ho' := by
    obtain ⟨o,ho,hs⟩ := h.shrinks id o' ho'
    exact ⟨o,(hd.get id).symm.trans ho,hs⟩
  maker f hf := by
    obtain ⟨ht,hq,hout,o,ho,hrest⟩ := h.maker f hf
    exact ⟨ht,hq,hout,o,(hd.get _).symm.trans ho,hrest⟩
  trades hq := by
    rintro ⟨p,total,o,os,hv,hp⟩
    refine h.trades (hd.qty ▸ hq) ⟨p,total,o,os,?_,hp⟩
    rw [hd.view,if_neg]
    · exact hv
    · rintro ⟨_,rfl⟩
      exact he o (by rw [hv]; exact List.mem_cons_self ..)
  stuck := h.stuck

theorem Outcome.traded {px : Price} {total : Qty} {o : Order} {os : List Order}
    {fs : List MatchFill} {b' : OrderBook S} {q' : Qty} (hb : Wf m.book)
    (hr : Reaches m makers limit px) (hv : levelView m.book makers px = some (total,o::os))
    (ht : Traded taker makers px total o os m m')
    (h : Outcome taker limit makers m'.book m'.takerQty fs b' q') :
    Outcome taker limit makers m.book m.takerQty
      (⟨o.orderId,o.accountId,taker,px,min m.takerQty o.qtyRem⟩::fs) b' q' := by
  obtain ⟨hget,hside,hprice⟩ := hb.level_orders hv (List.mem_cons_self ..)
  obtain ⟨hpos,hleq,hler,hleft,_⟩ := min_qty hr.qty (hb.get_live hget).2
  have hshrink : ∀ id o', m'.book.get id = some o' →
      ∃ x, m.book.get id = some x ∧ o' = { x with qtyRem := o'.qtyRem } ∧ o'.qtyRem ≤ x.qtyRem := by
    intro id o' ho'
    rw [ht.get] at ho'
    split_ifs at ho' with hid
    · subst hid
      obtain ⟨rfl,_⟩ := afterTrade_eq_some ho'
      refine ⟨o,hget,rfl,?_⟩
      change o.qtyRem-min m.takerQty o.qtyRem ≤ o.qtyRem
      have := (hb.get_live hget).2
      grind
    · exact ⟨o',ho',rfl,Int64.le_refl _⟩
  refine ⟨h.wf,h.symbol.trans ht.symbol,?_,?_,?_,?_,?_,?_,?_,h.stuck⟩
  · rw [h.left,ht.qty,List.map_cons,List.sum_cons,sub_sub]
  · intro _
    refine h.nonneg ?_
    rw [ht.qty]
    have := hr.qty
    grind
  · have hle := h.le
    have hqty := hr.qty
    rw [ht.qty] at hle
    grind
  · intro id hid
    rw [h.keeps id fun f hf => hid f (List.mem_cons_of_mem _ hf),ht.get,if_neg]
    exact fun he => hid _ (List.mem_cons_self ..) he.symm
  · intro id o' ho'
    obtain ⟨x,hx,hx',hle⟩ := h.shrinks id o' ho'
    obtain ⟨y,hy,hy',hle'⟩ := hshrink id x hx
    refine ⟨y,hy,?_,Int64.le_trans hle hle'⟩
    rw [hx',hy']
  · intro f hf
    rcases List.mem_cons.mp hf with rfl | hf
    · exact ⟨rfl,hpos,hr.within,o,hget,rfl,hside,hprice⟩
    · obtain ⟨hft,hq,hout,x,hx,ha,hs,hp⟩ := h.maker f hf
      obtain ⟨y,hy,hxy,_⟩ := hshrink _ x hx
      rw [hxy] at ha hs hp
      exact ⟨hft,hq,hout,y,hy,ha,hs,hp⟩
  · exact fun _ _ => List.cons_ne_nil _ _

/-- The loop appends fills and reaches an outcome. -/
theorem MatchRun.outcome (h : MatchRun taker limit makers m m') (hb : Wf m.book) :
    ∃ fs, m'.fills = m.fills ++ fs ∧
      Outcome taker limit makers m.book m.takerQty fs m'.book m'.takerQty := by
  induction h with
  | @stop m h =>
    have hstuck : ∀ px, ¬ Reaches m makers limit px := by
      rcases matchStep_cases hb taker limit makers with ⟨_,hs⟩ | ⟨_,_,_,hnext,_⟩
      · exact hs
      · exact absurd (h.symm.trans hnext) (by simp)
    refine ⟨[],by simp,hb,rfl,by simp,fun h => h,Int64.le_refl _,fun _ _ => rfl,
      fun _ o ho => ⟨o,ho,rfl,Int64.le_refl _⟩,by simp,?_,fun px hr => hstuck px ⟨hr.1,hr.2,hr.3⟩⟩
    rintro hq ⟨px,total,o,os,hv,hp⟩
    obtain ⟨p,hr⟩ := exists_reaches hq (by simp [hv] : levelView m.book makers px ≠ none) hp
    exact absurd hr (hstuck p)
  | @pass m m₁ m₂ h tail ih =>
    rcases matchStep_cases hb taker limit makers with ⟨hexit,_⟩ | ⟨px,hr,m',hnext,hcase⟩
    · exact absurd (h.symm.trans hexit) (by simp)
    obtain rfl : m₁ = m' := by simpa using h.symm.trans hnext
    rcases hcase with ⟨total,hv,hd⟩ | ⟨total,o,os,hv,ht⟩
    · obtain ⟨fs,hfs,ho⟩ := ih hd.wf
      exact ⟨fs,hd.fills ▸ hfs,ho.dropped hd (by simp [hv])⟩
    · obtain ⟨fs,hfs,ho⟩ := ih ht.wf
      refine ⟨_,?_,ho.traded hb hr hv ht⟩
      rw [hfs,ht.fills,List.append_assoc]; rfl

end OrderBook
end HighPerfTrading
