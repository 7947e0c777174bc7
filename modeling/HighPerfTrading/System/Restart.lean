import HighPerfTrading.Engine.EngineRun
import HighPerfTrading.System.Cover
import HighPerfTrading.System.RestartTokens

/-! Reservations after a restart of the gateway. Once nothing is on its way an account reserves what its
live buys need exactly when its buys from before the restart have not been touched. -/
namespace HighPerfTrading
open Gateway Gateway.GatewayContext
namespace Exchange
variable {S : Type} [Slab S Order] {engines₀ : OrdMap SymbolId (Engine S)} {m : Gateway.AccountManager}
  {apiKeys : OrdMap String AccountId} {ex : Exchange S}

/-! ### The restart -/

theorem mem_queryAllEnginesForOrders {engines : OrdMap SymbolId (Engine S)} {o : OrderSnapshot} :
    o ∈ queryAllEnginesForOrders engines ↔
      ∃ (s : SymbolId) (e : Engine S), engines[s]? = some e ∧ o ∈ e.book.getAllOrderSnapshots := by
  unfold queryAllEnginesForOrders
  rw [List.mem_flatMap]
  constructor
  · rintro ⟨⟨s,e⟩,he,ho⟩
    exact ⟨s,e,OrdMap.mem_toList.mp he,ho⟩
  · rintro ⟨s,e,he,ho⟩
    exact ⟨(s,e),OrdMap.mem_toList.mpr he,ho⟩

/-- The ids of the orders that the engines reported. -/
def Reported (engines : OrdMap SymbolId (Engine S)) (id : OrderId) : Prop :=
  id ∈ (queryAllEnginesForOrders engines).map OrderSnapshot.orderId

theorem reported_of_get (hwf : ∀ (s : SymbolId) (e : Engine S), engines₀[s]? = some e → OrderBook.Wf e.book)
    {s : SymbolId} {e : Engine S} (he : engines₀[s]? = some e) {id : OrderId} {o : Order}
    (ho : e.book.get id = some o) : Reported engines₀ id := by
  obtain ⟨k,hk,hid⟩ := (hwf s e he).get_iff.mp ho
  have hlive : o ∈ e.book.liveOrders := OrderBook.mem_liveOrders.mpr ⟨k,hk⟩
  have hsnap := (hwf s e he).snapshots_perm.mem_iff.mpr (List.mem_map_of_mem hlive)
  exact List.mem_map.mpr ⟨_,mem_queryAllEnginesForOrders.mpr ⟨s,e,he,hsnap⟩,hid⟩

theorem isSome_rebuild (m : Gateway.AccountManager) (orders : List OrderSnapshot) (a : AccountId) :
    ((Reconciliation.rebuildReservations m orders).accounts[a]?).isSome = (m.accounts[a]?).isSome := by
  unfold Reconciliation.rebuildReservations
  induction (Reconciliation.reservationsByAccount orders).toList generalizing m with
  | nil => rfl
  | cons e es ih => rw [List.foldl_cons,ih,Gateway.AccountManager.isSome_set]

/-- A restart on accounts that hold nothing, with engines whose orders have ids of their own. -/
theorem Resumed.restart (hm : ∀ (a : AccountId) st, m.accounts[a]? = some st → st.tentativeReserved = 0)
    (hwf : ∀ (s : SymbolId) (e : Engine S), engines₀[s]? = some e → OrderBook.Wf e.book) :
    Resumed (Reported engines₀) (Reconciliation.reservedBy (queryAllEnginesForOrders engines₀)) engines₀
      (Exchange.restart m apiKeys engines₀) := by
  have hvenue : ∀ {s : SymbolId} {v : Venue S}, (Exchange.restart m apiKeys engines₀).venues[s]? = some v →
      ∃ e, engines₀[s]? = some e ∧ v = ⟨[],e,[]⟩ := by
    intro s v hv
    simp only [Exchange.restart,Std.ExtTreeMap.getElem?_map] at hv
    obtain ⟨e,he,rfl⟩ := Option.map_eq_some_iff.mp hv
    exact ⟨e,he,rfl⟩
  have hhas : ∀ {s : SymbolId} {v : Venue S} {id : OrderId} {k : Side},
      (Exchange.restart m apiKeys engines₀).venues[s]? = some v → v.Has id k → Reported engines₀ id := by
    intro s v id k hv hk
    obtain ⟨e,he,rfl⟩ := hvenue hv
    rcases hk with ⟨o,ho,-⟩ | ⟨x,hx,-⟩
    · exact reported_of_get hwf he ho
    · cases hx
  have hnone : ∀ id : OrderId, (Exchange.restart m apiKeys engines₀).gateway.pendingOrders[id]? = none := by
    intro id
    simp [Exchange.restart]
  have hfree : ∀ {id : OrderId} {md : OrderMetadata},
      (Exchange.restart m apiKeys engines₀).gateway.pendingOrders[id]? ≠ some md := by
    intro id md hmd
    rw [hnone] at hmd
    cases hmd
  refine ⟨?_,?_,?_,?_,?_,?_,?_,?_,?_⟩
  · intro s v hv
    obtain ⟨e,he,rfl⟩ := hvenue hv
    refine ⟨e,he,hwf s e he,by simp,by simp,by simp,?_,?_,by simp⟩
    · intro i o hi ho
      exact absurd (reported_of_get hwf he ho) hi
    · exact fun i o _ ho => ⟨o,ho,rfl,Int64.le_refl _⟩
  · intro s hs
    simpa [Exchange.restart] using hs
  · intro id hid s s' v v' k k' hv hk
    exact absurd (hhas hv hk) hid
  · intro a st hst
    have hst' : (Reconciliation.rebuildReservations m (queryAllEnginesForOrders engines₀)).accounts[a]? = some st := hst
    have hsome : (m.accounts[a]?).isSome := by
      rw [← isSome_rebuild m (queryAllEnginesForOrders engines₀),hst']
      rfl
    obtain ⟨st₀,hst₀⟩ := Option.isSome_iff_exists.mp hsome
    have hzero : m.getTentativeReserved a = 0 := by
      rw [Gateway.AccountManager.getTentativeReserved,hst₀]
      exact hm a st₀ hst₀
    have hbuilt := Reconciliation.getTentativeReserved_rebuild m (queryAllEnginesForOrders engines₀) hsome hzero
    rw [Gateway.AccountManager.getTentativeReserved,hst',Option.elim_some] at hbuilt
    rw [hbuilt]
    simp [Exchange.restart,reserved]
  · exact fun id md hmd => absurd hmd hfree
  · exact fun id md hmd => absurd hmd hfree
  · intro id hid s v hv hk
    exact absurd (hhas hv hk) hid
  · exact fun id md hmd => absurd hmd hfree
  · exact fun id md hmd => absurd hmd hfree

theorem Run.resumed (hm : ∀ (a : AccountId) st, m.accounts[a]? = some st → st.tentativeReserved = 0)
    (hwf : ∀ (s : SymbolId) (e : Engine S), engines₀[s]? = some e → OrderBook.Wf e.book)
    (h : Run (restart m apiKeys engines₀) (fun ex a => ex.Routed a ∧ ex.Settles (Reported engines₀) a) ex) :
    Resumed (Reported engines₀) (Reconciliation.reservedBy (queryAllEnginesForOrders engines₀)) engines₀ ex :=
  h.keeps (Resumed.restart hm hwf) fun _ _ hresumed ha => hresumed.step ha.1 ha.2

/-! ### Live orders of all engines -/

def liveEntries (engines : OrdMap SymbolId (Engine S)) : List (SymbolId × Order) :=
  engines.toList.flatMap fun e => e.2.book.liveOrders.map fun o => (e.1,o)

/-- The notional of an account's live buys. -/
def notional (engines : OrdMap SymbolId (Engine S)) (a : AccountId) : ℤ :=
  ((liveEntries engines).map fun e => System.notionalFor a e.2).sum

section Entries
variable {engines : OrdMap SymbolId (Engine S)}
  (hwf : ∀ (s : SymbolId) (e : Engine S), engines[s]? = some e → OrderBook.Wf e.book)
include hwf

theorem mem_liveEntries {s : SymbolId} {o : Order} :
    (s,o) ∈ liveEntries engines ↔ ∃ e, engines[s]? = some e ∧ e.book.get o.orderId = some o := by
  simp only [liveEntries,List.mem_flatMap,List.mem_map]
  constructor
  · rintro ⟨⟨s',e⟩,he,o',ho',heq⟩
    obtain ⟨rfl,rfl⟩ := Prod.mk.inj heq
    have he' := OrdMap.mem_toList.mp he
    exact ⟨e,he',(hwf _ e he').get_iff.mpr ((OrderBook.mem_liveOrders.mp ho').imp fun k hk => ⟨hk,rfl⟩)⟩
  · rintro ⟨e,he,ho⟩
    obtain ⟨k,hk,-⟩ := (hwf s e he).get_iff.mp ho
    exact ⟨(s,e),OrdMap.mem_toList.mpr he,o,OrderBook.mem_liveOrders.mpr ⟨k,hk⟩,rfl⟩

theorem entries_distinct : ((liveEntries engines).map fun e => (e.1,e.2.orderId)).Nodup := by
  rw [List.Nodup,List.pairwise_map,liveEntries,List.pairwise_flatMap]
  constructor
  · rintro ⟨s,e⟩ he
    have hids := (hwf s e (OrdMap.mem_toList.mp he)).restorable.ids
    exact List.pairwise_map.mpr (hids.imp fun hne heq => hne (Prod.mk.inj heq).2)
  · refine (List.pairwise_map.mp (OrdMap.keys_nodup engines)).imp ?_
    intro e e' hne x hx y hy heq
    obtain ⟨o,-,rfl⟩ := List.mem_map.mp hx
    obtain ⟨o',-,rfl⟩ := List.mem_map.mp hy
    exact hne (Prod.mk.inj heq).1

/-- A rebuild would reserve the wrapped notional. -/
theorem reservedBy_query (a : AccountId) :
    Reconciliation.reservedBy (queryAllEnginesForOrders engines) a = Int64.ofInt (notional engines a) := by
  have hperm : (queryAllEnginesForOrders engines).Perm
      ((liveEntries engines).map fun e => OrderBook.snapshotOf e.2) := by
    rw [liveEntries,List.map_flatMap]
    refine List.Perm.flatMap_left _ fun e he => ?_
    rw [List.map_map]
    exact (hwf e.1 e.2 (OrdMap.mem_toList.mp he)).snapshots_perm
  unfold Reconciliation.reservedBy notional
  rw [(hperm.map _).sum_eq,List.map_map,← Int64.sum_ofInt]
  congr 1
  refine List.map_congr_left fun e _ => ?_
  simp only [Function.comp_apply,OrderBook.snapshotOf,System.notionalFor_eq]
  by_cases ha : e.2.accountId = a
  · by_cases hs : e.2.side = .buy
    · simp [ha,hs]
    · simp [ha,hs]
  · simp [ha]

end Entries

omit [Slab S Order] in
theorem get_engines (ex : Exchange S) (s : SymbolId) : ex.engines[s]? = (ex.venues[s]?).map Venue.engine := by
  simp [engines]

/-! ### With nothing on its way -/

namespace Resumed
variable {old : OrderId → Prop} {base : AccountId → Int64}

theorem wf (h : Resumed old base engines₀ ex) (s : SymbolId) (e : Engine S) (he : ex.engines[s]? = some e) :
    OrderBook.Wf e.book := by
  rw [get_engines] at he
  obtain ⟨v,hv,rfl⟩ := Option.map_eq_some_iff.mp he
  obtain ⟨_,-,hsound⟩ := h.sound s v hv
  exact hsound.wf

/-- A live order of a venue. -/
theorem mem_live (h : Resumed old base engines₀ ex) {s : SymbolId} {o : Order} :
    (s,o) ∈ liveEntries ex.engines ↔ ∃ v, ex.venues[s]? = some v ∧ v.engine.book.get o.orderId = some o := by
  rw [mem_liveEntries h.wf,get_engines]
  constructor
  · rintro ⟨e,he,ho⟩
    obtain ⟨v,hv,rfl⟩ := Option.map_eq_some_iff.mp he
    exact ⟨v,hv,ho⟩
  · rintro ⟨v,hv,ho⟩
    exact ⟨v.engine,by rw [hv]; rfl,ho⟩

/-- The token of a tracked buy is that of a live order. -/
theorem token_live (h : Resumed old base engines₀ ex) (hq : ex.Quiescent) {id : OrderId} {md : OrderMetadata}
    (hmd : ex.gateway.pendingOrders[id]? = some md) (hbuy : md.side = .buy) :
    ∃ s o, (s,o) ∈ liveEntries ex.engines ∧ o.orderId = id ∧ o.side = .buy ∧
      o.accountId = md.reservationToken.accountId ∧ o.price*o.qtyRem = md.reservationToken.amount := by
  obtain ⟨s,v,hv,hacc⟩ := h.buys id md hmd hbuy
  obtain ⟨hto,hfrom⟩ := hq s v hv
  cases hacc with
  | onWay pre post x hq' hx hpost =>
    rw [show (ex.view v).toEngine = [] from hto] at hq'
    simp at hq'
  | reported c event hev hdrop =>
    rw [show (ex.view v).toGateway = [] from hfrom] at hev
    cases hev
  | live o ho hs hacct hamount hqueue =>
    obtain ⟨_,-,hsound⟩ := h.sound s v hv
    obtain ⟨hid,-⟩ := hsound.wf.get_live ho
    exact ⟨s,o,h.mem_live.mpr ⟨v,hv,hid ▸ ho⟩,hid,hs,hacct,hamount⟩

/-- Two venues do not share an order id that is not old. -/
theorem entry_unique (h : Resumed old base engines₀ ex) {s s' : SymbolId} {o o' : Order} (hold : ¬ old o.orderId)
    (hid : o'.orderId = o.orderId) (ho : (s,o) ∈ liveEntries ex.engines) (ho' : (s',o') ∈ liveEntries ex.engines) :
    s = s' ∧ o = o' := by
  obtain ⟨v,hv,hget⟩ := h.mem_live.mp ho
  obtain ⟨v',hv',hget'⟩ := h.mem_live.mp ho'
  rw [hid] at hget'
  obtain rfl := h.apart _ hold s s' v v' o.side o'.side hv (Or.inl ⟨o,hget,rfl⟩) hv' (Or.inl ⟨o',hget',rfl⟩)
  obtain rfl := Option.some.inj (hv.symm.trans hv')
  exact ⟨rfl,Option.some.inj (hget.symm.trans hget')⟩

/-- The live buys that are not old need what the tokens of the tracked orders hold. -/
theorem held_eq [DecidablePred old] (h : Resumed old base engines₀ ex) (hq : ex.Quiescent) (a : AccountId) :
    (((liveEntries ex.engines).filter fun e => ¬ old e.2.orderId).map fun e =>
      Int64.ofInt (System.notionalFor a e.2)).sum = reserved ex.gateway.pendingOrders a := by
  refine OrdMap.sum_eq_of_keys (f := fun e => e.2.orderId) (g := Prod.fst) ?_ (OrdMap.keys_nodup _) ?_ ?_
  · have hnodup := List.Nodup.of_map _ (entries_distinct h.wf)
    rw [List.Nodup,List.pairwise_map]
    refine (hnodup.filter _).imp_of_mem ?_
    rintro ⟨s,o⟩ ⟨s',o'⟩ hx hy hne hid
    obtain ⟨hx,hold⟩ := List.mem_filter.mp hx
    obtain ⟨rfl,rfl⟩ := h.entry_unique (by simpa using hold) hid.symm hx (List.mem_filter.mp hy).1
    exact hne rfl
  · rintro ⟨s,o⟩ hx hne
    obtain ⟨hx,hold⟩ := List.mem_filter.mp hx
    have hold : ¬ old o.orderId := by simpa using hold
    have hbuy : o.accountId = a ∧ o.side = .buy := by
      by_contra hc
      exact hne (by simp [System.notionalFor_eq,hc])
    -- the order is tracked, and its token is its own
    obtain ⟨v,hv,hget⟩ := h.mem_live.mp hx
    have hhas : v.Has o.orderId .buy := Or.inl ⟨o,hget,hbuy.2⟩
    obtain ⟨md,hmd⟩ := Option.isSome_iff_exists.mp (h.covered _ hold s v hv hhas)
    obtain ⟨s',o',ho',hid,-,hacct,hamount⟩ := h.token_live hq hmd (h.sides _ md hmd s v .buy hv hhas).symm
    obtain ⟨rfl,rfl⟩ := h.entry_unique hold hid hx ho'
    refine ⟨(o.orderId,md),OrdMap.mem_toList.mpr hmd,rfl,?_⟩
    change held a md = Int64.ofInt (System.notionalFor a o)
    rw [held,← hacct,if_pos hbuy.1,System.notionalFor_eq,if_pos hbuy,← hamount,Int64.mul_eq_ofInt]
  · rintro ⟨id,md⟩ hx hne
    have hmd := OrdMap.mem_toList.mp hx
    have hacct : md.reservationToken.accountId = a := by
      by_contra hc
      exact hne (by simp [held,hc])
    cases hs : md.side with
    | sell => exact absurd (by simp [held,h.sells id md hmd hs]) hne
    | buy =>
      obtain ⟨s,o,ho,rfl,hside,hoacct,hamount⟩ := h.token_live hq hmd hs
      refine ⟨(s,o),List.mem_filter.mpr ⟨ho,by simpa using h.recent _ md hmd⟩,rfl,?_⟩
      change Int64.ofInt (System.notionalFor a o) = held a md
      rw [held,if_pos hacct,System.notionalFor_eq,if_pos ⟨hoacct.trans hacct,hside⟩,← hamount,Int64.mul_eq_ofInt]

end Resumed

/-! ### Orders from before the restart -/

instance (engines : OrdMap SymbolId (Engine S)) : DecidablePred (Reported engines) := fun id =>
  inferInstanceAs (Decidable (id ∈ (queryAllEnginesForOrders engines).map OrderSnapshot.orderId))

/-- What has become of an order. -/
def current (ex : Exchange S) (e : SymbolId × Order) : Option Order :=
  (ex.venues[e.1]?).bind fun v => v.engine.book.get e.2.orderId

/-- The buys that the account had at the restart are live as they were: none has been cancelled or filled. -/
def Untouched (engines₀ : OrdMap SymbolId (Engine S)) (ex : Exchange S) (a : AccountId) : Prop :=
  ∀ e ∈ liveEntries engines₀, e.2.side = .buy → e.2.accountId = a → ex.current e = some e.2

/-- What is left of the notional of an order. -/
def left (ex : Exchange S) (a : AccountId) (e : SymbolId × Order) : ℤ := (ex.current e).elim 0 (System.notionalFor a)

namespace Resumed
variable {base : AccountId → Int64} (hwf : ∀ (s : SymbolId) (e : Engine S), engines₀[s]? = some e → OrderBook.Wf e.book)
include hwf

/-- An order that was live at the restart can only have shrunk. -/
theorem current_shrunk (h : Resumed (Reported engines₀) base engines₀ ex) {e : SymbolId × Order}
    (he : e ∈ liveEntries engines₀) {o : Order} (ho : ex.current e = some o) :
    o = { e.2 with qtyRem := o.qtyRem } ∧ o.qtyRem ≤ e.2.qtyRem := by
  obtain ⟨s,o₀⟩ := e
  obtain ⟨e,he,hget⟩ := (mem_liveEntries hwf).mp he
  obtain ⟨v,hv,ho⟩ := Option.bind_eq_some_iff.mp ho
  obtain ⟨e',he',hsound⟩ := h.sound s v hv
  obtain rfl := Option.some.inj (he.symm.trans he')
  obtain ⟨o₁,ho₁,hfrom,hle⟩ := hsound.shrunk _ o (reported_of_get hwf he hget) ho
  obtain rfl := Option.some.inj (hget.symm.trans ho₁)
  exact ⟨hfrom,hle⟩

/-- The old orders that are live are those that were live and still are. -/
theorem old_eq (h : Resumed (Reported engines₀) base engines₀ ex) (a : AccountId) :
    (((liveEntries ex.engines).filter fun e => Reported engines₀ e.2.orderId).map fun e =>
      System.notionalFor a e.2).sum = ((liveEntries engines₀).map (ex.left a)).sum := by
  refine OrdMap.sum_eq_of_keys (f := fun e => (e.1,e.2.orderId)) (g := fun e => (e.1,e.2.orderId))
    ((List.Sublist.map _ List.filter_sublist).nodup (entries_distinct h.wf)) (entries_distinct hwf) ?_ ?_
  · rintro ⟨s,o⟩ hx -
    obtain ⟨hx,hold⟩ := List.mem_filter.mp hx
    obtain ⟨v,hv,hget⟩ := h.mem_live.mp hx
    obtain ⟨e,he,hsound⟩ := h.sound s v hv
    obtain ⟨o₀,ho₀,-,-⟩ := hsound.shrunk _ o (by simpa using hold) hget
    obtain ⟨hid,-⟩ := (hwf s e he).get_live ho₀
    refine ⟨(s,o₀),(mem_liveEntries hwf).mpr ⟨e,he,hid ▸ ho₀⟩,by simp only [hid],?_⟩
    rw [left,current,hv,Option.bind_some,hid,hget,Option.elim_some]
  · rintro ⟨s,o₀⟩ hy hne
    obtain ⟨e,he,hget⟩ := (mem_liveEntries hwf).mp hy
    cases hc : ex.current (s,o₀) with
    | none => exact absurd (by rw [left,hc]; rfl) hne
    | some o =>
      obtain ⟨v,hv,ho⟩ := Option.bind_eq_some_iff.mp hc
      obtain ⟨hfrom,-⟩ := h.current_shrunk hwf hy hc
      have hid : o.orderId = o₀.orderId := by rw [hfrom]
      refine ⟨(s,o),List.mem_filter.mpr ⟨h.mem_live.mpr ⟨v,hv,hid ▸ ho⟩,?_⟩,by simp only [hid],?_⟩
      · simpa [hid] using reported_of_get hwf he hget
      · rw [left,hc,Option.elim_some]

/-- With nothing on its way an account reserves what was rebuilt for it and the notional of its later buys. -/
theorem tentativeReserved_eq
    (h : Resumed (Reported engines₀) (Reconciliation.reservedBy (queryAllEnginesForOrders engines₀)) engines₀ ex)
    (hq : ex.Quiescent) {a : AccountId} {st : Gateway.AccountState}
    (hst : ex.gateway.accountManager.accounts[a]? = some st) :
    st.tentativeReserved = Reconciliation.reservedBy (queryAllEnginesForOrders ex.engines) a +
      Int64.ofInt (notional engines₀ a-((liveEntries engines₀).map (ex.left a)).sum) := by
  have hsplit := List.sum_map_filter_add_sum_map_filter_not (fun e => Reported engines₀ e.2.orderId)
    (fun e => Int64.ofInt (System.notionalFor a e.2)) (liveEntries ex.engines)
  rw [h.held_eq hq a,Int64.sum_ofInt,Int64.sum_ofInt,h.old_eq hwf a] at hsplit
  rw [h.balanced a st hst,reservedBy_query hwf,reservedBy_query h.wf,notional,notional,← hsplit,Int64.ofInt_sub,
    add_comm (Int64.ofInt ((liveEntries engines₀).map (ex.left a)).sum),add_assoc,add_sub_cancel,add_comm]

/-- Nothing of the notional is gone when no buy has been touched. -/
theorem left_of_untouched (h : Resumed (Reported engines₀) base engines₀ ex) {a : AccountId}
    (hu : Untouched engines₀ ex a) {e : SymbolId × Order} (he : e ∈ liveEntries engines₀) :
    ex.left a e = System.notionalFor a e.2 := by
  by_cases hbuy : e.2.accountId = a ∧ e.2.side = .buy
  · rw [left,hu e he hbuy.2 hbuy.1,Option.elim_some]
  · rw [left,System.notionalFor_eq,if_neg hbuy]
    cases hc : ex.current e with
    | none => rfl
    | some o =>
      obtain ⟨hfrom,-⟩ := h.current_shrunk hwf he hc
      have hacct : o.accountId = e.2.accountId := by rw [hfrom]
      have hside : o.side = e.2.side := by rw [hfrom]
      rw [Option.elim_some,System.notionalFor_eq,hacct,hside,if_neg hbuy]

section Positive
variable {a : AccountId}
  (hpos : ∀ e ∈ liveEntries engines₀, e.2.side = .buy → e.2.accountId = a → 0 < e.2.price)
include hpos

theorem notionalFor_nonneg {e : SymbolId × Order} (he : e ∈ liveEntries engines₀) : 0 ≤ System.notionalFor a e.2 := by
  rw [System.notionalFor_eq]
  split_ifs with hbuy
  · obtain ⟨_,hx,hget⟩ := (mem_liveEntries hwf).mp (show (e.1,e.2) ∈ _ from he)
    have hqty := ((hwf _ _ hx).get_live hget).2
    exact Int.mul_nonneg (Int64.pos_iff_toInt.mp (hpos e he hbuy.2 hbuy.1)).le (Int64.pos_iff_toInt.mp hqty).le
  · exact le_refl 0

theorem left_bounds (h : Resumed (Reported engines₀) base engines₀ ex) {e : SymbolId × Order}
    (he : e ∈ liveEntries engines₀) : 0 ≤ ex.left a e ∧ ex.left a e ≤ System.notionalFor a e.2 := by
  have hnonneg := notionalFor_nonneg hwf hpos he
  unfold left
  cases hc : ex.current e with
  | none => exact ⟨le_refl 0,hnonneg⟩
  | some o =>
    obtain ⟨hfrom,hle⟩ := h.current_shrunk hwf he hc
    obtain ⟨v,hv,hget⟩ := Option.bind_eq_some_iff.mp hc
    obtain ⟨_,-,hsound⟩ := h.sound _ v hv
    have hqty := (hsound.wf.get_live hget).2
    rw [Option.elim_some,hfrom]
    simp only [System.notionalFor_eq]
    split_ifs with hbuy
    · have hprice := hpos e he hbuy.2 hbuy.1
      exact ⟨Int.mul_nonneg (Int64.pos_iff_toInt.mp hprice).le (Int64.pos_iff_toInt.mp hqty).le,
        System.notional_mono hprice hle⟩
    · exact ⟨le_refl 0,le_refl 0⟩

/-- A buy whose notional is all there has not been touched. -/
theorem untouched_of_left (h : Resumed (Reported engines₀) base engines₀ ex)
    (heq : ∀ e ∈ liveEntries engines₀, ex.left a e = System.notionalFor a e.2) : Untouched engines₀ ex a := by
  intro e he hside hacct
  have hprice := Int64.pos_iff_toInt.mp (hpos e he hside hacct)
  obtain ⟨_,hx,hget⟩ := (mem_liveEntries hwf).mp (show (e.1,e.2) ∈ _ from he)
  have hqty := Int64.pos_iff_toInt.mp ((hwf _ _ hx).get_live hget).2
  have hleft := heq e he
  rw [left,System.notionalFor_eq,if_pos ⟨hacct,hside⟩] at hleft
  cases hc : ex.current e with
  | none =>
    rw [hc,Option.elim_none] at hleft
    exact absurd hleft (Int.mul_pos hprice hqty).ne
  | some o =>
    obtain ⟨hfrom,-⟩ := h.current_shrunk hwf he hc
    rw [hc,Option.elim_some,hfrom,System.notionalFor_eq,if_pos ⟨hacct,hside⟩] at hleft
    have hsame : o.qtyRem = e.2.qtyRem := Int64.toInt_inj.mp (Int.eq_of_mul_eq_mul_left hprice.ne' hleft)
    rw [hfrom,hsame]

end Positive
end Resumed

/-- In runs after a restart in which no routing fails and the later orders settle, with nothing on its way
every account reserves what a rebuild would reserve now if none of its buys from before the restart has been
cancelled or filled, and otherwise it does not, when those had positive prices and a total that fits. No
order from before is ever tracked. -/
theorem Run.reconciled (hm : ∀ (a : AccountId) st, m.accounts[a]? = some st → st.tentativeReserved = 0)
    (hwf : ∀ (s : SymbolId) (e : Engine S), engines₀[s]? = some e → OrderBook.Wf e.book)
    (h : Run (restart m apiKeys engines₀) (fun ex a => ex.Routed a ∧ ex.Settles (Reported engines₀) a) ex)
    {a : AccountId} {st : Gateway.AccountState} (hst : ex.gateway.accountManager.accounts[a]? = some st) :
    (∀ id, Reported engines₀ id → ex.gateway.pendingOrders[id]? = none) ∧
      (ex.Quiescent → Untouched engines₀ ex a →
        st.tentativeReserved = Reconciliation.reservedBy (queryAllEnginesForOrders ex.engines) a) ∧
      (ex.Quiescent → (∀ e ∈ liveEntries engines₀, e.2.side = .buy → e.2.accountId = a → 0 < e.2.price) →
        notional engines₀ a < 2^63 →
        st.tentativeReserved = Reconciliation.reservedBy (queryAllEnginesForOrders ex.engines) a →
          Untouched engines₀ ex a) := by
  have hr := h.resumed hm hwf
  refine ⟨fun id hid => ?_,fun hq hu => ?_,fun hq hpos hfits heq => ?_⟩
  · refine Option.eq_none_iff_forall_ne_some.mpr fun md hmd => ?_
    exact hr.recent id md hmd hid
  · have hgone : ((liveEntries engines₀).map (ex.left a)).sum = notional engines₀ a :=
      congrArg List.sum (List.map_congr_left fun e he => hr.left_of_untouched hwf hu he)
    rw [hr.tentativeReserved_eq hwf hq hst,hgone,sub_self]
    exact add_zero _
  · have hbounds : ∀ e ∈ liveEntries engines₀, 0 ≤ ex.left a e ∧ ex.left a e ≤ System.notionalFor a e.2 :=
      fun e he => hr.left_bounds hwf hpos he
    have hle : ((liveEntries engines₀).map (ex.left a)).sum ≤ notional engines₀ a :=
      List.sum_le_sum fun e he => (hbounds e he).2
    have hnonneg : 0 ≤ ((liveEntries engines₀).map (ex.left a)).sum := by
      refine List.sum_nonneg fun n hn => ?_
      obtain ⟨e,he,rfl⟩ := List.mem_map.mp hn
      exact (hbounds e he).1
    have hzero : Int64.ofInt (notional engines₀ a-((liveEntries engines₀).map (ex.left a)).sum) = 0 := by
      have hlost := hr.tentativeReserved_eq hwf hq hst
      rw [heq] at hlost
      exact left_eq_add.mp hlost
    have hsame : ((liveEntries engines₀).map (ex.left a)).sum = notional engines₀ a := by
      have hint := congrArg Int64.toInt hzero
      rw [Int64.toInt_ofInt_of_lt (by omega) (by omega)] at hint
      change _ = (0 : ℤ) at hint
      omega
    exact hr.untouched_of_left hwf hpos ((OrdMap.sum_eq_iff_of_le fun e he => (hbounds e he).2).mp hsame)

/-! ### Runs of the code -/

instance (v : Venue S) (id : OrderId) (k : Side) : Decidable (v.Has id k) :=
  decidable_of_iff ((v.engine.book.get id).any (fun o => o.side = k) = true ∨ (v.toEngine.any fun x =>
      match x.command with
      | .newOrder no => decide (no.orderId = id ∧ no.side = k)
      | _ => false) = true) <| by
    unfold Venue.Has
    rw [Option.any_eq_true,List.any_eq_true]
    refine or_congr (by simp) (exists_congr fun x => and_congr_right fun _ => ?_)
    cases x.command <;> simp

/-- A frame with a command for a connected engine that replaces nothing, and places an order only under
an unused id. -/
theorem allowed_frame {old : OrderId → Prop} {connId : UInt64} {bytes : List UInt8} (cmd : Command)
    (hd : ex.gateway.decoded connId bytes = some cmd)
    (hcmd : (commandSymbolId cmd).all (fun s => (ex.venues[s]?).isSome) = true ∧ match cmd with
      | .newOrder no => ¬ old no.orderId ∧ ex.gateway.pendingOrders[no.orderId]? = none ∧
        ∀ e ∈ ex.venues.toList, ¬ e.2.Has no.orderId .buy ∧ ¬ e.2.Has no.orderId .sell
      | .replace _ => False
      | _ => True) : ex.Routed (.frame connId bytes true) ∧ ex.Settles old (.frame connId bytes true) := by
  obtain ⟨hroute,hcmd⟩ := hcmd
  refine ⟨⟨rfl,?_⟩,?_⟩
  · intro cmd' s hd' _ hs
    obtain rfl := Option.some.inj (hd.symm.trans hd')
    rw [hs] at hroute
    exact hroute
  · intro cmd' hd'
    obtain rfl := Option.some.inj (hd.symm.trans hd')
    refine ⟨?_,?_⟩
    · rintro no rfl
      refine ⟨hcmd.1,hcmd.2.1,fun s v hv k => ?_⟩
      have hfree := hcmd.2.2 (s,v) (OrdMap.mem_toList.mpr hv)
      cases k with
      | buy => exact hfree.1
      | sell => exact hfree.2
    · rintro r md p rfl
      exact hcmd.elim

/-- An engine whose next command is not an immediate-or-cancel order. -/
theorem allowed_engine {old : OrderId → Prop} {s : SymbolId}
    (h : (ex.venues[s]?).all fun v => v.toEngine.head?.all fun x => match x.command with
      | .newOrder no => no.tif = .gtc
      | _ => true) : ex.Routed (.engine s) ∧ ex.Settles old (.engine s) := by
  refine ⟨trivial,?_⟩
  intro v x rest no hv hto hcmd hs htif
  rw [hv,Option.all_some,hto] at h
  simp [hcmd,htif] at h

theorem allowed_deliver {old : OrderId → Prop} {s : SymbolId}
    (h : ∀ v ∈ (ex.venues[s]?).toList, ∀ e ∈ v.toGateway.head?.toList, ∀ d ∈ ex.gateway.pendingOrders.toList,
      ex.gateway.drops e.2 d.1 = true → ∀ u ∈ ex.venues.toList, ¬ u.2.Has d.1 .buy) :
    ex.Routed (.deliver s) ∧ ex.Settles old (.deliver s) := by
  refine ⟨trivial,?_⟩
  intro v c event rest hv hto id hid hdrop s' v' hv'
  obtain ⟨md,hmd⟩ := Option.isSome_iff_exists.mp hid
  exact h v (by simp [hv]) (c,event) (by simp [hto]) (id,md) (OrdMap.mem_toList.mpr hmd) hdrop (s',v')
    (OrdMap.mem_toList.mpr hv')

omit [Slab S Order] in
theorem quiescent_of_toList (h : ∀ e ∈ ex.venues.toList, e.2.toEngine = [] ∧ e.2.toGateway = []) : ex.Quiescent :=
  fun s v hv => h (s,v) (OrdMap.mem_toList.mpr hv)

def Action.connectBinary : Action := .connect fun bytes => (BinaryCodec.decodeCommand bytes).toOption

def Action.send (connId : UInt64) (cmd : Command) : Action := .frame connId (BinaryCodec.encodeCommand cmd) true

/-- Two of the accounts of the gateway server, funded and otherwise untouched. -/
def recovered : Gateway.AccountManager :=
  twoAccounts.foldl (fun m f => m.createAccount f.1 f.2) Gateway.AccountManager.new

/-- One engine, with two resting buys of account 1. -/
def oneEngine : OrdMap SymbolId (Engine (FreeListSlab Order)) :=
  (∅ : OrdMap SymbolId (Engine (FreeListSlab Order))).insert 1
    ((Engine.new.live (.newOrder ⟨1,1,1,1,.buy,100,10,.gtc,⟨false⟩⟩)).live
      (.newOrder ⟨2,2,1,1,.buy,90,10,.gtc,⟨false⟩⟩))

theorem recovered_free (a : AccountId) (st : Gateway.AccountState) (hst : recovered.accounts[a]? = some st) :
    st.tentativeReserved = 0 :=
  (Gateway.AccountManager.accounts_funded twoAccounts (by simp [Gateway.AccountManager.new]) a st hst).2

theorem oneEngine_wf (s : SymbolId) (e : Engine (FreeListSlab Order)) (he : oneEngine[s]? = some e) :
    OrderBook.Wf e.book := by
  rw [oneEngine,OrdMap.get_insert] at he
  split_ifs at he with hs
  · obtain rfl := Option.some.inj he
    have hfirst : OrderBook.Wf ((Engine.new : Engine (FreeListSlab Order)).live
        (.newOrder ⟨1,1,1,1,.buy,100,10,.gtc,⟨false⟩⟩)).book :=
      Engine.wf_process (e := Engine.new) (OrderBook.Wf.new 1) (by decide +kernel)
    exact Engine.wf_process hfirst (by decide +kernel)
  · simp at he

/-- After the restart account 1 places a third buy and a fourth, and cancels the fourth. -/
def laterBuys : List Action :=
  [.connectBinary,.send 1 (.authenticate ⟨"test-key-1"⟩),.send 1 (.newOrder ⟨1,3,1,1,.buy,80,10,.gtc,⟨false⟩⟩),
    .engine 1,.deliver 1,.deliver 1,.send 1 (.newOrder ⟨2,4,1,1,.buy,70,10,.gtc,⟨false⟩⟩),.engine 1,.deliver 1,
    .deliver 1,.send 1 (.cancel ⟨3,4,1,1⟩),.engine 1,.deliver 1,.deliver 1]

/-- It reserves for the three that are live. -/
theorem laterBuys_reconciled : let ex := (restart recovered twoKeys oneEngine).execute laterBuys
    ex.gateway.accountManager.getTentativeReserved 1 = 2700 ∧
      ex.gateway.accountManager.getTentativeReserved 1 =
        Reconciliation.reservedBy (queryAllEnginesForOrders ex.engines) 1 := by
  have hrun : Allowed (fun ex a => ex.Routed a ∧ ex.Settles (Reported oneEngine) a)
      (restart recovered twoKeys oneEngine) laterBuys := by
    refine ⟨⟨trivial,trivial⟩,allowed_frame (.authenticate ⟨"test-key-1"⟩) ?_ ?_,
      allowed_frame (.newOrder ⟨1,3,1,1,.buy,80,10,.gtc,⟨false⟩⟩) ?_ ?_,allowed_engine ?_,allowed_deliver ?_,
      allowed_deliver ?_,allowed_frame (.newOrder ⟨2,4,1,1,.buy,70,10,.gtc,⟨false⟩⟩) ?_ ?_,allowed_engine ?_,
      allowed_deliver ?_,allowed_deliver ?_,allowed_frame (.cancel ⟨3,4,1,1⟩) ?_ ?_,allowed_engine ?_,
      allowed_deliver ?_,allowed_deliver ?_,trivial⟩ <;>
    decide +kernel
  have hq : ((restart recovered twoKeys oneEngine).execute laterBuys).Quiescent :=
    quiescent_of_toList (by decide +kernel)
  have hu : Untouched oneEngine ((restart recovered twoKeys oneEngine).execute laterBuys) 1 := by
    unfold Untouched
    decide +kernel
  have htotal : ((restart recovered twoKeys oneEngine).execute laterBuys).gateway.accountManager.getTentativeReserved
      1 = 2700 := by
    decide +kernel
  have hsome : (((restart recovered twoKeys oneEngine).execute laterBuys).gateway.accountManager.accounts[
      (1 : AccountId)]?).isSome := by
    decide +kernel
  obtain ⟨st,hst⟩ := Option.isSome_iff_exists.mp hsome
  have heq := (Run.reconciled recovered_free oneEngine_wf (Run.start.execute laterBuys hrun) hst).2.1 hq hu
  refine ⟨htotal,?_⟩
  rw [Gateway.AccountManager.getTentativeReserved,hst,Option.elim_some]
  exact heq

/-- After the restart account 1 cancels its first buy, and account 2 fills the second. -/
def touchedBuys : List Action :=
  [.connectBinary,.connectBinary,.send 1 (.authenticate ⟨"test-key-1"⟩),.send 2 (.authenticate ⟨"test-key-2"⟩),
    .send 1 (.cancel ⟨1,1,1,1⟩),.engine 1,.deliver 1,.deliver 1,
    .send 2 (.newOrder ⟨1,3,2,1,.sell,90,10,.gtc,⟨false⟩⟩),.engine 1,.deliver 1,.deliver 1,.deliver 1]

/-- Account 1 has no live order then and still reserves for both, and it has neither paid for the second
nor got it. -/
theorem touchedBuys_held : ∃ (ex : Exchange (FreeListSlab Order)) (st : Gateway.AccountState),
    Run (restart recovered twoKeys oneEngine) (fun ex a => ex.Routed a ∧ ex.Settles (Reported oneEngine) a) ex ∧
      ex.Quiescent ∧ ex.gateway.accountManager.accounts[(1 : AccountId)]? = some st ∧
      queryAllEnginesForOrders ex.engines = [] ∧ st.tentativeReserved = 1900 ∧ st.buyingPower = 1000000 ∧
      (st.getPosition 1).netPosition = 0 := by
  have hrun : Allowed (fun ex a => ex.Routed a ∧ ex.Settles (Reported oneEngine) a)
      (restart recovered twoKeys oneEngine) touchedBuys := by
    refine ⟨⟨trivial,trivial⟩,⟨trivial,trivial⟩,allowed_frame (.authenticate ⟨"test-key-1"⟩) ?_ ?_,
      allowed_frame (.authenticate ⟨"test-key-2"⟩) ?_ ?_,allowed_frame (.cancel ⟨1,1,1,1⟩) ?_ ?_,allowed_engine ?_,
      allowed_deliver ?_,allowed_deliver ?_,allowed_frame (.newOrder ⟨1,3,2,1,.sell,90,10,.gtc,⟨false⟩⟩) ?_ ?_,
      allowed_engine ?_,allowed_deliver ?_,allowed_deliver ?_,allowed_deliver ?_,trivial⟩ <;>
    decide +kernel
  refine ⟨_,_,Run.start.execute touchedBuys hrun,quiescent_of_toList ?_,Option.some_get ?_ |>.symm,?_,?_,?_,?_⟩ <;>
  decide +kernel

end Exchange
end HighPerfTrading
