import HighPerfTrading.Engine.BookSnapshot
import HighPerfTrading.Engine.EngineStep

/-! Runs of the engine over any commands, and the identity of orders in them: while no order comes to
rest under a live id, the index is exact. -/
namespace HighPerfTrading
namespace OrderBook
variable {S : Type} [Slab S Order] {b : OrderBook S}

/-! ### What an exact index gives -/

/-- The entry that reconciliation gets for a live order. -/
def snapshotOf (o : Order) : OrderSnapshot where
  orderId := o.orderId
  accountId := o.accountId
  symbolId := o.symbolId
  side := o.side
  price := o.price
  qtyRem := o.qtyRem
  reservedAmount := if o.side = .buy then o.price*o.qtyRem else 0

/-- The index leads to each live slot once. -/
theorem Wf.keys_perm (hb : Wf b) : (b.index.toList.map Prod.snd).Perm (b.liveEntries.map Prod.fst) := by
  refine (List.perm_ext_iff_of_nodup ?_ ?_).mpr fun k => ?_
  · refine List.pairwise_map.mpr ((OrdMap.nodup_toList b.index).imp_of_mem ?_)
    rintro ⟨i,k⟩ ⟨j,k'⟩ hi hj hne heq
    obtain ⟨x,hx,-,hxi⟩ := hb.index_live (OrdMap.mem_toList.mp hi)
    obtain ⟨y,hy,-,hyj⟩ := hb.index_live (OrdMap.mem_toList.mp hj)
    simp only at heq
    rw [heq] at hx
    obtain rfl := Option.some.inj (hx.symm.trans hy)
    exact hne (by rw [heq,← hxi,hyj])
  · exact (Slab.keys_nodup b.orders).sublist ((List.filter_sublist).map _)
  · rw [List.mem_map,List.mem_map]
    constructor
    · rintro ⟨⟨id,j⟩,he,rfl⟩
      obtain ⟨o,ho,-⟩ := hb.indexed.mp (OrdMap.mem_toList.mp he)
      exact ⟨(j,o),mem_liveEntries.mpr ho,rfl⟩
    · rintro ⟨⟨j,o⟩,he,rfl⟩
      exact ⟨(o.orderId,j),OrdMap.mem_toList.mpr (hb.indexed.mpr ⟨o,mem_liveEntries.mp he,rfl⟩),rfl⟩

theorem Wf.liveOrderCount_eq (hb : Wf b) : b.liveOrderCount = b.liveOrders.length := by
  have hlen := hb.keys_perm.length_eq
  rwa [List.length_map,List.length_map,Std.ExtTreeMap.length_toList,← List.length_map Prod.snd,
    liveEntries_snd] at hlen

/-- The indexed orders are the live ones. -/
theorem Wf.indexed_perm (hb : Wf b) : (b.index.toList.filterMap fun e => Slab.get b.orders e.2).Perm b.liveOrders := by
  have hleft : (b.index.toList.filterMap fun e => Slab.get b.orders e.2) =
      (b.index.toList.map Prod.snd).filterMap (Slab.get b.orders) := by
    rw [List.filterMap_map]; rfl
  have hright : (b.liveEntries.map Prod.fst).filterMap (Slab.get b.orders) = b.liveOrders := by
    rw [List.filterMap_map,← liveEntries_snd,← List.filterMap_eq_map]
    refine List.filterMap_congr fun e he => ?_
    exact (liveAt_eq_some.mp (mem_liveEntries.mp he)).1
  rw [hleft,← hright]
  exact hb.keys_perm.filterMap _

/-- Reconciliation lists exactly the live orders. -/
theorem Wf.snapshots_perm (hb : Wf b) : b.getAllOrderSnapshots.Perm (b.liveOrders.map snapshotOf) := by
  have heq : b.getAllOrderSnapshots =
      (b.index.toList.filterMap fun e => Slab.get b.orders e.2).map snapshotOf := by
    rw [getAllOrderSnapshots,List.map_filterMap]
    refine List.filterMap_congr fun e he => ?_
    obtain ⟨o,ho,-,hid⟩ := hb.index_live (OrdMap.mem_toList.mp he)
    simp [ho,snapshotOf,hid]
  rw [heq]
  exact hb.indexed_perm.map _

end OrderBook

namespace Engine
open OrderBook
variable {S : Type} [Slab S Order] {e : Engine S} {cmds : List Command} {evs : List Event}

/-- The runs from an engine whose every command is allowed, with the commands and the events so far. -/
inductive Run (e₀ : Engine S) (allows : Engine S → List Command → Command → Prop) :
    Engine S → List Command → List Event → Prop
  | start : Run e₀ allows e₀ [] []
  | step {e : Engine S} {cmds : List Command} {evs : List Event} (h : Run e₀ allows e cmds evs) (cmd : Command)
      (ha : allows e cmds cmd) : Run e₀ allows (e.process cmd).1 (cmds ++ [cmd]) (evs ++ (e.process cmd).2)

def after (e : Engine S) (cmds : List Command) : Engine S := cmds.foldl (fun e cmd => (e.process cmd).1) e

theorem after_append (e : Engine S) (cmds : List Command) (cmd : Command) :
    e.after (cmds ++ [cmd]) = ((e.after cmds).process cmd).1 := by
  rw [after,List.foldl_append]; rfl

theorem Run.after_eq {e₀ : Engine S} {allows : Engine S → List Command → Command → Prop}
    (h : Run e₀ allows e cmds evs) : e = e₀.after cmds := by
  induction h with
  | start => rfl
  | step _ cmd _ ih => rw [after_append,← ih]

/-- Commands that are allowed in any state make a run. -/
theorem after_run (e₀ : Engine S) {P : Command → Prop} {cmds : List Command} (h : ∀ cmd ∈ cmds, P cmd) :
    ∃ evs, Run e₀ (fun _ _ cmd => P cmd) (e₀.after cmds) cmds evs := by
  induction cmds using List.reverseRecOn with
  | nil => exact ⟨[],.start⟩
  | append_singleton cmds cmd ih =>
    obtain ⟨evs,hrun⟩ := ih fun c hc => h c (List.mem_append_left _ hc)
    rw [after_append]
    exact ⟨_,hrun.step cmd (h cmd (by simp))⟩

/-- An order that is accepted and may rest is not under a live id. -/
def KeepsIds (e : Engine S) : Command → Prop
  | .newOrder no => e.refusal no = none → no.tif = .gtc → e.book.get no.orderId = none
  | _ => True

instance (e : Engine S) (cmd : Command) : Decidable (KeepsIds e cmd) :=
  match cmd with
  | .newOrder _ => inferInstanceAs (Decidable (_ → _))
  | .cancel _ => isTrue trivial
  | .replace _ => isTrue trivial
  | .setRiskLimits _ => isTrue trivial
  | .queryAccount _ => isTrue trivial
  | .authenticate _ => isTrue trivial

theorem wf_process (hb : Wf e.book) {cmd : Command} (hk : KeepsIds e cmd) : Wf (e.process cmd).1.book := by
  have hstep := e.process_core cmd
  generalize (e.process cmd).1.book = b' at hstep ⊢
  generalize (e.process cmd).1.accountManager = m' at hstep
  cases hstep with
  | same => exact hb
  | limits => exact hb
  | placed hr => exact wf_newBook hb (hk hr)
  | cancelled ho hacct => exact hb.cancel ho
  | lost ho hacct => exact hb.cancel ho
  | @replaced r o ho hacct hr =>
    exact wf_newBook (hb.cancel ho) fun _ => (get_cancel hb ho r.orderId).trans (if_pos rfl)

theorem Run.wf {e₀ : Engine S} {allows : Engine S → List Command → Command → Prop} (h : Run e₀ allows e cmds evs)
    (hb : Wf e₀.book) (hk : ∀ e cmds cmd, allows e cmds cmd → KeepsIds e cmd) : Wf e.book := by
  induction h with
  | start => exact hb
  | step _ cmd ha ih => exact wf_process ih (hk _ _ cmd ha)

/-- The owner's cancel takes an order out of the book. -/
theorem cancel_owned (hb : Wf e.book) {o : Order} (ho : o ∈ e.book.liveOrders) (clientSeq : UInt64) :
    ∃ t seq, (e.process (.cancel ⟨clientSeq,o.orderId,o.accountId,e.book.symbolId⟩)).2 =
        [.bookTop t,.ack ⟨seq,clientSeq,o.orderId⟩] ∧
      ∀ x ∈ (e.process (.cancel ⟨clientSeq,o.orderId,o.accountId,e.book.symbolId⟩)).1.book.liveOrders,
        x.orderId ≠ o.orderId := by
  obtain ⟨k,hk⟩ := mem_liveOrders.mp ho
  have hget := hb.get_iff.mpr ⟨k,hk,rfl⟩
  simp only [process,handleCancel,ne_eq,not_true,if_false,cancel_accepted hget,if_true,topThenAck_book]
  refine ⟨_,_,rfl,fun x hx hid => ?_⟩
  obtain ⟨j,hj⟩ := mem_liveOrders.mp hx
  have hgone := (hb.cancel hget).get_iff.mpr ⟨j,hj,hid⟩
  rw [get_cancel hb hget,if_pos rfl] at hgone
  cases hgone

/-- In runs that let no order rest under a live id, ids are unique, the index is exact, every live
order can be cancelled by its owner, and the counts and listings are those of the live orders. -/
theorem Run.order_identity (h : Run Engine.new (fun e _ cmd => KeepsIds e cmd) e cmds evs) :
    (∀ k j x y, liveAt e.book.orders k = some x → liveAt e.book.orders j = some y → x.orderId = y.orderId → k = j) ∧
    (∀ (id : OrderId) k, e.book.index[id]? = some k ↔ ∃ o, liveAt e.book.orders k = some o ∧ o.orderId = id) ∧
    (∀ o ∈ e.book.liveOrders, ∀ clientSeq, ∃ t seq,
      (e.process (.cancel ⟨clientSeq,o.orderId,o.accountId,e.book.symbolId⟩)).2 =
        [.bookTop t,.ack ⟨seq,clientSeq,o.orderId⟩] ∧
      ∀ x ∈ (e.process (.cancel ⟨clientSeq,o.orderId,o.accountId,e.book.symbolId⟩)).1.book.liveOrders,
        x.orderId ≠ o.orderId) ∧
    e.book.liveOrderCount = e.book.liveOrders.length ∧
    e.book.getAllOrderSnapshots.Perm (e.book.liveOrders.map snapshotOf) := by
  have hb := h.wf (Wf.new 1) fun _ _ _ ha => ha
  exact ⟨fun k j x y => hb.key_unique,fun id k => hb.indexed,fun o ho => cancel_owned hb ho,
    hb.liveOrderCount_eq,hb.snapshots_perm⟩

/-- A live id is used again, for an order that may not rest. -/
theorem reusedIoc_counted :
    let e := (Engine.new : Engine (FreeListSlab Order)).after
      [.newOrder ⟨1,1,7,1,.buy,100,5,.gtc,⟨false⟩⟩,.newOrder ⟨2,1,7,1,.buy,90,4,.ioc,⟨false⟩⟩]
    e.book.liveOrderCount = e.book.liveOrders.length ∧ e.book.liveOrders.length = 1 := by
  have hstart : Run (Engine.new : Engine (FreeListSlab Order)) (fun e _ cmd => KeepsIds e cmd) Engine.new [] [] :=
    Run.start
  have hrun := (hstart.step (.newOrder ⟨1,1,7,1,.buy,100,5,.gtc,⟨false⟩⟩) (by decide +kernel)).step
    (.newOrder ⟨2,1,7,1,.buy,90,4,.ioc,⟨false⟩⟩) (by decide +kernel)
  exact ⟨hrun.order_identity.2.2.2.1,by decide +kernel⟩

/-- Two orders rest under one id. The book counts one of them, and its owner can cancel only one. -/
theorem reusedId_orphaned : ∃ (e : Engine (FreeListSlab Order)) (cmds : List Command) (evs : List Event),
    Run Engine.new (fun _ _ _ => True) e cmds evs ∧ e.book.liveOrders.map Order.orderId = [1,1] ∧
      e.book.liveOrderCount = 1 ∧ e.book.getAllOrderSnapshots.length = 1 ∧
      (e.after [.cancel ⟨3,1,7,1⟩]).book.liveOrders.map Order.orderId = [1] ∧
      ((e.after [.cancel ⟨3,1,7,1⟩]).process (.cancel ⟨4,1,7,1⟩)).2.all fun ev => match ev with
        | .reject r => r.reason = .notFound
        | _ => false := by
  refine ⟨_,_,_,(Run.start.step (.newOrder ⟨1,1,7,1,.buy,100,5,.gtc,⟨false⟩⟩) trivial).step
    (.newOrder ⟨2,1,7,1,.buy,90,4,.gtc,⟨false⟩⟩) trivial,?_,?_,?_,?_,?_⟩ <;>
  decide +kernel

end Engine
end HighPerfTrading
