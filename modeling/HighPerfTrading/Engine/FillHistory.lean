import HighPerfTrading.Engine.EngineRun
import HighPerfTrading.Engine.Positions
import Mathlib.Algebra.Ring.Nat

/-! Positions against the whole history of fills, in runs where no order id is placed twice. -/
namespace HighPerfTrading
namespace Engine
open OrderBook
variable {S : Type} [Slab S Order] {e : Engine S} {cmds : List Command} {evs : List Event}

/-- The order that was placed first under an id. -/
def placedIn (cmds : List Command) (id : OrderId) : Option NewOrder :=
  cmds.findSome? fun cmd => match cmd with
    | .newOrder no => if no.orderId = id then some no else none
    | _ => none

/-- A new order has an id that none before it had. -/
def Fresh (cmds : List Command) : Command → Prop
  | .newOrder no => placedIn cmds no.orderId = none
  | _ => True

instance (cmds : List Command) (cmd : Command) : Decidable (Fresh cmds cmd) :=
  match cmd with
  | .newOrder no => inferInstanceAs (Decidable (placedIn cmds no.orderId = none))
  | .cancel _ => isTrue trivial
  | .replace _ => isTrue trivial
  | .setRiskLimits _ => isTrue trivial
  | .queryAccount _ => isTrue trivial
  | .authenticate _ => isTrue trivial

def ownersIn (cmds : List Command) : Owners := fun id => (placedIn cmds id).map fun no => (no.accountId,no.side)

def fillsIn (evs : List Event) : List Fill := evs.filterMap Event.toFill

theorem mem_fillsIn {f : Fill} : f ∈ fillsIn evs ↔ .fill f ∈ evs := by
  rw [fillsIn,List.mem_filterMap]
  constructor
  · rintro ⟨ev,hev,heq⟩
    cases ev with
    | fill f' => exact Option.some.inj heq ▸ hev
    | _ => cases heq
  · exact fun h => ⟨_,h,rfl⟩

theorem placedIn_append {cmds : List Command} {id : OrderId} {no : NewOrder} (h : placedIn cmds id = some no)
    (more : List Command) : placedIn (cmds ++ more) id = some no := by
  rw [placedIn,List.findSome?_append,← placedIn,h]; rfl

theorem placedIn_new {cmds : List Command} {no : NewOrder} (h : placedIn cmds no.orderId = none) :
    placedIn (cmds ++ [.newOrder no]) no.orderId = some no := by
  rw [placedIn,List.findSome?_append,← placedIn,h]
  simp

/-! ### What fresh ids keep -/

/-- Live orders and the parties of fills were placed, with the account and side they have. -/
structure Traced (e : Engine S) (cmds : List Command) (evs : List Event) : Prop where
  wf : Wf e.book
  live : ∀ id o, e.book.get id = some o → ∃ no, placedIn cmds id = some no ∧ o.accountId = no.accountId ∧
    o.side = no.side ∧ o.tif = .gtc
  fills : ∀ f, .fill f ∈ evs → ∃ m t, placedIn cmds f.makerOrderId = some m ∧ placedIn cmds f.takerOrderId = some t ∧
    m.side = t.side.opposite

/-- A command that names no order leaves book and positions alone and fills nothing. -/
theorem process_quiet (e : Engine S) {cmd : Command} (h : commandOrderId cmd = none) :
    (e.process cmd).1.book = e.book ∧ (e.process cmd).1.accountManager.positions = e.accountManager.positions ∧
      ∀ f, .fill f ∉ (e.process cmd).2 := by
  cases cmd with
  | newOrder no => cases h
  | cancel c => cases h
  | replace r => cases h
  | setRiskLimits srl => exact ⟨rfl,rfl,by simp [process,handleSetRiskLimits,ack]⟩
  | queryAccount qa => exact ⟨rfl,rfl,by simp [process,handleQueryAccount]⟩
  | authenticate auth => exact ⟨rfl,rfl,by simp [process]⟩

namespace Traced

theorem start : Traced (Engine.new : Engine S) [] [] where
  wf := Wf.new 1
  live := by simp [Engine.new,OrderBook.new,OrderBook.get]
  fills := by simp

/-- A fresh id is not live. -/
theorem not_live (h : Traced e cmds evs) {no : NewOrder} (hno : placedIn cmds no.orderId = none) :
    e.book.get no.orderId = none := by
  refine Option.eq_none_iff_forall_ne_some.mpr fun o ho => ?_
  obtain ⟨_,hp,-⟩ := h.live _ o ho
  rw [hno] at hp; cases hp

theorem effect (h : Traced e cmds evs) {cmd : Command} (hf : Fresh cmds cmd) (hid : commandOrderId cmd ≠ none) :
    Effect e (e.process cmd).1 (e.process cmd).2 cmd := by
  refine process_effect h.wf hid fun no hno => ?_
  subst hno
  exact h.not_live hf

theorem step (h : Traced e cmds evs) {cmd : Command} (hf : Fresh cmds cmd) :
    Traced (e.process cmd).1 (cmds ++ [cmd]) (evs ++ (e.process cmd).2) := by
  by_cases hnone : commandOrderId cmd = none
  · obtain ⟨hbook,-,hnofill⟩ := e.process_quiet hnone
    refine ⟨hbook ▸ h.wf,fun id o ho => ?_,fun f hfill => ?_⟩
    · rw [hbook] at ho
      obtain ⟨no,hp,hrest⟩ := h.live id o ho
      exact ⟨no,placedIn_append hp _,hrest⟩
    · obtain ⟨m,t,hm,ht,hs⟩ := h.fills f ((List.mem_append.mp hfill).resolve_right (hnofill f))
      exact ⟨m,t,placedIn_append hm _,placedIn_append ht _,hs⟩
  have heff := h.effect hf hnone
  refine ⟨heff.wf h.wf,fun id o' ho' => ?_,fun f hfill => ?_⟩
  · cases heff.origin h.wf ho' with
    | stays o ho hshrunk hle =>
      obtain ⟨no,hp,hacct,hside,htif⟩ := h.live id o ho
      rw [hshrunk]
      exact ⟨no,placedIn_append hp _,hacct,hside,htif⟩
    | rests no q hcmd hid htif hshrunk hq hle =>
      subst hcmd hid hshrunk
      exact ⟨no,placedIn_new hf,rfl,rfl,htif⟩
    | replaces r o q hcmd hid ho hacct htif hshrunk hq hle =>
      obtain ⟨no,hp,hacct',hside,-⟩ := h.live id o ho
      rw [hshrunk]
      exact ⟨no,placedIn_append hp _,hacct.symm.trans hacct',hside,htif⟩
  · rcases List.mem_append.mp hfill with hfill | hfill
    · obtain ⟨m,t,hm,ht,hs⟩ := h.fills f hfill
      exact ⟨m,t,placedIn_append hm _,placedIn_append ht _,hs⟩
    · obtain ⟨taker,o,htaker,htid,hmaker,hside,-⟩ := heff.fill h.wf
        (fun no hno => h.not_live (by subst hno; exact hf)) hfill
      obtain ⟨m,hm,-,hmside,-⟩ := h.live _ o hmaker
      cases htaker with
      | order hcmd =>
        subst hcmd
        exact ⟨m,_,placedIn_append hm _,htid ▸ placedIn_new hf,hmside.symm.trans hside⟩
      | @replacement r x hcmd hx hacct =>
        obtain ⟨t,ht,-,htside,-⟩ := h.live _ x hx
        refine ⟨m,t,placedIn_append hm _,htid ▸ placedIn_append ht _,?_⟩
        rw [← hmside,← htside]
        exact hside

end Traced

/-! ### Positions -/

theorem isSome_applyFill (m : AccountManager) (acct a : AccountId) (side : Side) (price qty : Int64) :
    ((m.applyFill acct side price qty).positions[a]?).isSome = (decide (acct = a) || (m.positions[a]?).isSome) := by
  simp only [AccountManager.applyFill,OrdMap.get_insert]
  by_cases h : acct = a <;> simp [h]

theorem settle_mono {no : NewOrder} {fs : List MatchFill} {m : AccountManager} {a : AccountId}
    (h : (m.positions[a]?).isSome) : ((settle m no fs).positions[a]?).isSome := by
  induction fs generalizing m with
  | nil => exact h
  | cons f fs ih =>
    refine ih ?_
    rw [isSome_applyFill,isSome_applyFill,h,Bool.or_true,Bool.or_true]

theorem settle_parties (no : NewOrder) {fs : List MatchFill} {g : MatchFill} (hg : g ∈ fs) (m : AccountManager) :
    ((settle m no fs).positions[no.accountId]?).isSome ∧ ((settle m no fs).positions[g.makerAccountId]?).isSome := by
  induction fs generalizing m with
  | nil => cases hg
  | cons f fs ih =>
    rcases List.mem_cons.mp hg with rfl | hg
    · change ((settle _ no fs).positions[no.accountId]?).isSome ∧
        ((settle _ no fs).positions[g.makerAccountId]?).isSome
      refine ⟨settle_mono ?_,settle_mono ?_⟩
      · rw [isSome_applyFill,isSome_applyFill,decide_eq_true rfl,Bool.true_or,Bool.or_true]
      · rw [isSome_applyFill,decide_eq_true rfl,Bool.true_or]
    · exact ih hg _

/-- Accounts keep their entries, and both parties of a fill have one. -/
theorem Effect.holders {e e' : Engine S} {evs : List Event} {cmd : Command} {owners : Owners}
    (h : Effect e e' evs cmd) (he : Wf e.book)
    (hlive : ∀ id o, e.book.get id = some o → owners id = some (o.accountId,o.side))
    (hnew : ∀ no, cmd = .newOrder no → owners no.orderId = some (no.accountId,no.side)) :
    (∀ a : AccountId, (e.accountManager.positions[a]?).isSome → (e'.accountManager.positions[a]?).isSome) ∧
      ∀ f, .fill f ∈ evs → ∀ id, id = f.makerOrderId ∨ id = f.takerOrderId →
        ∀ (a : AccountId) (s : Side), owners id = some (a,s) → (e'.accountManager.positions[a]?).isSome := by
  have hfills : ∀ {no : NewOrder} {fs : List MatchFill} (t : BookTop) (seq : UInt64),
      e'.accountManager = settle e.accountManager no fs → owners no.orderId = some (no.accountId,no.side) →
      (∀ g ∈ fs, g.takerOrderId = no.orderId ∧ owners g.makerOrderId = some (g.makerAccountId,no.side.opposite)) →
      ∀ f, .fill f ∈ e.acceptedEvents no fs t seq → ∀ id, id = f.makerOrderId ∨ id = f.takerOrderId →
      ∀ (a : AccountId) (s : Side), owners id = some (a,s) → (e'.accountManager.positions[a]?).isSome := by
    intro no fs t seq ha htaker hmaker f hf id hid a s hown
    obtain ⟨g,hg,n,rfl⟩ := mem_acceptedEvents hf
    obtain ⟨hgt,hgm⟩ := hmaker g hg
    obtain ⟨htake,hmake⟩ := settle_parties no hg e.accountManager
    rw [ha]
    rcases hid with rfl | rfl
    · obtain ⟨rfl,-⟩ := Prod.mk.inj (Option.some.inj (hgm.symm.trans hown))
      exact hmake
    · simp only [hgt] at hown
      obtain ⟨rfl,-⟩ := Prod.mk.inj (Option.some.inj (htaker.symm.trans hown))
      exact htake
  cases h with
  | refused r hid hev hb ha => rw [ha,hev]; exact ⟨fun _ h => h,by simp⟩
  | cancelled o ak t ho hacct hb ha hid hev => rw [ha,hev]; exact ⟨fun _ h => h,by simp⟩
  | lost o rej ho hacct hb ha hid hev => rw [ha,hev]; exact ⟨fun _ h => h,by simp⟩
  | @placed no fs t seq hr hp ha hev =>
    refine ⟨fun a h => ha ▸ settle_mono h,hev ▸ hfills t seq ha (hnew no rfl) fun g hg => ?_⟩
    obtain ⟨ht,m,hm,hacct,hside⟩ := hp.maker g hg
    exact ⟨ht,by rw [hlive _ m hm,hacct,hside]⟩
  | @replaced r o fs t seq ho hacct hp ha hev =>
    have htaker : owners r.orderId = some (r.accountId,o.side) := by rw [hlive _ o ho,hacct]
    refine ⟨fun a h => ha ▸ settle_mono h,hev ▸ hfills t seq ha htaker fun g hg => ?_⟩
    obtain ⟨ht,m,hm,hmacct,hside⟩ := hp.maker g hg
    obtain ⟨-,hm'⟩ := get_of_cancel he ho hm
    exact ⟨ht,by rw [hlive _ m hm',hmacct,hside]⟩

/-! ### Over all accounts -/

section Sum
variable {owners : Owners} {keys : List AccountId}

theorem sum_share (hn : keys.Nodup) {id : OrderId} {a : AccountId} {s : Side} (hown : owners id = some (a,s))
    (ha : a ∈ keys) (n : ℤ) : (keys.map fun k => share owners k id n).sum = signed s n := by
  induction keys with
  | nil => cases ha
  | cons k keys ih =>
    obtain ⟨hk,hn⟩ := List.nodup_cons.mp hn
    rw [List.map_cons,List.sum_cons]
    rcases List.mem_cons.mp ha with rfl | ha
    · have hzero : (keys.map fun k => share owners k id n).sum = 0 := by
        refine List.sum_eq_zero fun x hx => ?_
        obtain ⟨k,hmem,rfl⟩ := List.mem_map.mp hx
        rw [share,hown,Option.elim_some,if_neg]
        rintro rfl
        exact hk hmem
      rw [hzero,share,hown,Option.elim_some,if_pos rfl,add_zero]
    · have hzero : share owners k id n = 0 := by
        rw [share,hown,Option.elim_some,if_neg]
        exact fun he => hk (he ▸ ha)
      rw [hzero,ih hn ha,zero_add]

/-- What the accounts of all parties have gained and lost cancels out. -/
theorem sum_netOf (hn : keys.Nodup) (amount : Fill → ℤ) {fs : List Fill}
    (h : ∀ f ∈ fs, ∃ a b s, owners f.makerOrderId = some (a,Side.opposite s) ∧ owners f.takerOrderId = some (b,s) ∧
      a ∈ keys ∧ b ∈ keys) : (keys.map fun k => netOf owners k amount fs).sum = 0 := by
  induction fs with
  | nil => simp
  | cons f fs ih =>
    obtain ⟨a,b,s,hm,ht,ha,hb⟩ := h f (List.mem_cons_self ..)
    have hrest := ih fun g hg => h g (List.mem_cons_of_mem _ hg)
    simp only [netOf_cons,List.sum_map_add]
    rw [hrest,sum_share hn hm ha,sum_share hn ht hb,signed_opposite,add_zero]

end Sum

/-! ### Runs with fresh ids -/

/-- What the fills so far have moved for an account. -/
def netFilled (cmds : List Command) (evs : List Event) (a : AccountId) : ℤ :=
  netOf (ownersIn cmds) a (fun f => f.qty.toInt) (fillsIn evs)

theorem natAbs_share_le (owners : Owners) (a : AccountId) (id : OrderId) (n : ℤ) :
    (share owners a id n).natAbs ≤ n.natAbs := by
  unfold share
  cases owners id with
  | none => simp
  | some p =>
    rw [Option.elim_some]
    split_ifs
    · cases p.2 <;> simp [signed]
    · simp

/-- No account can move further than twice what was filled. -/
theorem natAbs_netFilled_le (cmds : List Command) (evs : List Event) (a : AccountId) :
    (netFilled cmds evs a).natAbs ≤ ((fillsIn evs).map fun f => 2*f.qty.toInt.natAbs).sum := by
  unfold netFilled
  induction fillsIn evs with
  | nil => simp
  | cons f fs ih =>
    rw [netOf_cons,List.map_cons,List.sum_cons]
    have hm := natAbs_share_le (ownersIn cmds) a f.makerOrderId f.qty.toInt
    have ht := natAbs_share_le (ownersIn cmds) a f.takerOrderId f.qty.toInt
    omega

structure Settled (e : Engine S) (cmds : List Command) (evs : List Event) : Prop extends Traced e cmds evs where
  positions : ∀ a, (e.accountManager.getPosition a).netPosition = Int64.ofInt (netFilled cmds evs a)
  holders : ∀ f, .fill f ∈ evs → ∀ id, id = f.makerOrderId ∨ id = f.takerOrderId → ∀ (a : AccountId) (s : Side),
    ownersIn cmds id = some (a,s) → (e.accountManager.positions[a]?).isSome

namespace Settled

theorem start : Settled (Engine.new : Engine S) [] [] where
  toTraced := Traced.start
  positions a := by simp [Engine.new,AccountManager.new,AccountManager.getPosition,netFilled,fillsIn]; rfl
  holders := by simp

/-- The owners of what is placed do not change. -/
theorem owners_append (h : Traced e cmds evs) (more : List Command) {f : Fill} (hf : .fill f ∈ evs) :
    ownersIn cmds f.makerOrderId = ownersIn (cmds ++ more) f.makerOrderId ∧
      ownersIn cmds f.takerOrderId = ownersIn (cmds ++ more) f.takerOrderId := by
  obtain ⟨m,t,hm,ht,-⟩ := h.fills f hf
  simp [ownersIn,hm,ht,placedIn_append hm,placedIn_append ht]

theorem owners_live (h : Traced e cmds evs) (more : List Command) (id : OrderId) (o : Order)
    (ho : e.book.get id = some o) : ownersIn (cmds ++ more) id = some (o.accountId,o.side) := by
  obtain ⟨no,hno,hacct,hside,-⟩ := h.live id o ho
  rw [ownersIn,placedIn_append hno,Option.map_some,hacct,hside]

omit [Slab S Order] in
theorem owners_new {cmd : Command} (hf : Fresh cmds cmd) (no : NewOrder) (hno : cmd = .newOrder no) :
    ownersIn (cmds ++ [cmd]) no.orderId = some (no.accountId,no.side) := by
  subst hno
  rw [ownersIn,placedIn_new hf,Option.map_some]

theorem step (h : Settled e cmds evs) {cmd : Command} (hf : Fresh cmds cmd) :
    Settled (e.process cmd).1 (cmds ++ [cmd]) (evs ++ (e.process cmd).2) := by
  have hold : ∀ a, netFilled cmds evs a = netOf (ownersIn (cmds ++ [cmd])) a (fun f => f.qty.toInt) (fillsIn evs) :=
    fun a => netOf_congr a _ fun f hfill => owners_append h.toTraced [cmd] (mem_fillsIn.mp hfill)
  have hparty : ∀ f, .fill f ∈ evs → ∀ id, id = f.makerOrderId ∨ id = f.takerOrderId → ∀ (a : AccountId) (s : Side),
      ownersIn (cmds ++ [cmd]) id = some (a,s) → (e.accountManager.positions[a]?).isSome := by
    intro f hfill id hid a s hown
    obtain ⟨hm,ht⟩ := owners_append h.toTraced [cmd] hfill
    refine h.holders f hfill id hid a s ?_
    rcases hid with rfl | rfl
    · rw [hm,hown]
    · rw [ht,hown]
  have happend : ∀ a, netFilled (cmds ++ [cmd]) (evs ++ (e.process cmd).2) a = netFilled cmds evs a+
      netOf (ownersIn (cmds ++ [cmd])) a (fun f => f.qty.toInt) (fillsIn (e.process cmd).2) := by
    intro a
    rw [netFilled,fillsIn,List.filterMap_append,netOf_append,hold a]
    rfl
  refine ⟨h.toTraced.step hf,fun a => ?_,?_⟩
  · by_cases hnone : commandOrderId cmd = none
    · obtain ⟨-,hpos,hnofill⟩ := e.process_quiet hnone
      have hnil : fillsIn (e.process cmd).2 = [] :=
        List.eq_nil_iff_forall_not_mem.mpr fun f hfill => hnofill f (mem_fillsIn.mp hfill)
      rw [happend,hnil,netOf_nil,add_zero,← h.positions a,AccountManager.getPosition,hpos]
      rfl
    · have heff := h.toTraced.effect hf hnone
      rw [heff.positions h.wf (owners_live h.toTraced [cmd]) (owners_new hf) a,h.positions a,happend,
        ← Int64.ofInt_add]
      rfl
  · intro f hfill id hid a s hown
    by_cases hnone : commandOrderId cmd = none
    · obtain ⟨-,hpos,hnofill⟩ := e.process_quiet hnone
      rw [hpos]
      exact hparty f ((List.mem_append.mp hfill).resolve_right (hnofill f)) id hid a s hown
    · obtain ⟨hmono,hnew⟩ := (h.toTraced.effect hf hnone).holders h.wf (owners_live h.toTraced [cmd]) (owners_new hf)
      rcases List.mem_append.mp hfill with hfill | hfill
      · exact hmono a (hparty f hfill id hid a s hown)
      · exact hnew f hfill id hid a s hown

end Settled

theorem Run.settled (h : Run Engine.new (fun _ cmds cmd => Fresh cmds cmd) e cmds evs) : Settled e cmds evs := by
  induction h with
  | start => exact Settled.start
  | step _ cmd ha ih => exact ih.step ha

/-- In runs with fresh ids every position is the sum of the account's sides of the fills, modulo 2^64;
with these sums in range it is the exact sum, and all positions together are zero. -/
theorem Run.positions_are_fills (h : Run Engine.new (fun _ cmds cmd => Fresh cmds cmd) e cmds evs) :
    (∀ a, (e.accountManager.getPosition a).netPosition = Int64.ofInt (netFilled cmds evs a)) ∧
      ((∀ a, -2^63 ≤ netFilled cmds evs a ∧ netFilled cmds evs a < 2^63) →
        (∀ a, (e.accountManager.getPosition a).netPosition.toInt = netFilled cmds evs a) ∧
        OrdMap.sumEntries (fun _ p => p.netPosition.toInt) e.accountManager.positions = 0) := by
  have hs := h.settled
  refine ⟨hs.positions,fun hrange => ?_⟩
  have hexact : ∀ a, (e.accountManager.getPosition a).netPosition.toInt = netFilled cmds evs a := by
    intro a
    rw [hs.positions a]
    exact Int64.toInt_ofInt_of_le (hrange a).1 (hrange a).2
  refine ⟨hexact,?_⟩
  have hkeys : OrdMap.sumEntries (fun _ p => p.netPosition.toInt) e.accountManager.positions =
      ((e.accountManager.positions.toList.map Prod.fst).map fun a => netFilled cmds evs a).sum := by
    rw [OrdMap.sumEntries,List.map_map]
    congr 1
    refine List.map_congr_left fun x hx => ?_
    rw [Function.comp_apply,← hexact x.1,AccountManager.getPosition,OrdMap.mem_toList.mp hx,Option.getD_some]
  rw [hkeys]
  refine sum_netOf (OrdMap.keys_nodup _) _ fun f hf => ?_
  have hfill := mem_fillsIn.mp hf
  obtain ⟨m,t,hm,ht,hside⟩ := hs.fills f hfill
  have hmown : ownersIn cmds f.makerOrderId = some (m.accountId,t.side.opposite) := by
    rw [ownersIn,hm,Option.map_some,hside]
  have htown : ownersIn cmds f.takerOrderId = some (t.accountId,t.side) := by rw [ownersIn,ht,Option.map_some]
  have hmem : ∀ a : AccountId, (e.accountManager.positions[a]?).isSome →
      a ∈ e.accountManager.positions.toList.map Prod.fst := by
    intro a ha
    obtain ⟨p,hp⟩ := Option.isSome_iff_exists.mp ha
    exact List.mem_map.mpr ⟨(a,p),OrdMap.mem_toList.mpr hp,rfl⟩
  exact ⟨_,_,_,hmown,htown,hmem _ (hs.holders f hfill _ (Or.inl rfl) _ _ hmown),
    hmem _ (hs.holders f hfill _ (Or.inr rfl) _ _ htown)⟩

/-- A buy is replaced, a sell of another account and one of its own trade with it. -/
theorem selfTrade_settled :
    let e := (Engine.new : Engine (FreeListSlab Order)).after
      [.newOrder ⟨1,1,7,1,.buy,100,4,.gtc,⟨false⟩⟩,.replace ⟨2,1,7,1,101,9⟩,
        .newOrder ⟨3,2,8,1,.sell,100,5,.ioc,⟨false⟩⟩,.newOrder ⟨4,3,7,1,.sell,101,2,.ioc,⟨false⟩⟩]
    OrdMap.sumEntries (fun _ p => p.netPosition.toInt) e.accountManager.positions = 0 ∧
      (e.accountManager.getPosition 7).netPosition = 5 := by
  have hstart : Run (Engine.new : Engine (FreeListSlab Order)) (fun _ cmds cmd => Fresh cmds cmd) Engine.new [] [] :=
    Run.start
  have hrun := (((hstart.step (.newOrder ⟨1,1,7,1,.buy,100,4,.gtc,⟨false⟩⟩) (by decide +kernel)).step
    (.replace ⟨2,1,7,1,101,9⟩) trivial).step (.newOrder ⟨3,2,8,1,.sell,100,5,.ioc,⟨false⟩⟩) (by decide +kernel)).step
    (.newOrder ⟨4,3,7,1,.sell,101,2,.ioc,⟨false⟩⟩) (by decide +kernel)
  refine ⟨(hrun.positions_are_fills.2 fun a => ?_).2,by decide +kernel⟩
  have hrange : ∀ n : ℤ, n.natAbs < 2^63 → -2^63 ≤ n ∧ n < 2^63 := by omega
  exact hrange _ (lt_of_le_of_lt (natAbs_netFilled_le _ _ a) (by decide +kernel))

end Engine
end HighPerfTrading
