import HighPerfTrading.Engine.EngineStep

/-! Positions as sums over fills: what a list of fills moves for one account, given who is behind
every order id. -/
namespace HighPerfTrading
namespace Engine

/-- The account and the side behind an order id. -/
abbrev Owners := OrderId → Option (AccountId × Side)

/-- What a buyer gains and a seller loses. -/
def signed (side : Side) (n : ℤ) : ℤ :=
  match side with
  | .buy => n
  | .sell => -n

/-- What an order contributes to an account. -/
def share (owners : Owners) (a : AccountId) (id : OrderId) (n : ℤ) : ℤ :=
  (owners id).elim 0 fun p => if p.1 = a then signed p.2 n else 0

/-- What both parties of the fills contribute to an account. -/
def netOf (owners : Owners) (a : AccountId) (amount : Fill → ℤ) (fs : List Fill) : ℤ :=
  (fs.map fun f => share owners a f.makerOrderId (amount f)+share owners a f.takerOrderId (amount f)).sum

section Net
variable {owners owners' : Owners} (a : AccountId) (amount : Fill → ℤ)

@[simp] theorem netOf_nil : netOf owners a amount [] = 0 := rfl

@[simp] theorem netOf_cons (f : Fill) (fs : List Fill) : netOf owners a amount (f::fs) =
    share owners a f.makerOrderId (amount f)+share owners a f.takerOrderId (amount f)+
      netOf owners a amount fs := by
  simp [netOf]

@[simp] theorem netOf_append (fs gs : List Fill) :
    netOf owners a amount (fs ++ gs) = netOf owners a amount fs+netOf owners a amount gs := by
  simp [netOf]

/-- Only the parties of the fills matter. -/
theorem netOf_congr {fs : List Fill} (h : ∀ f ∈ fs, owners f.makerOrderId = owners' f.makerOrderId ∧
    owners f.takerOrderId = owners' f.takerOrderId) : netOf owners a amount fs = netOf owners' a amount fs := by
  unfold netOf
  congr 1
  refine List.map_congr_left fun f hf => ?_
  obtain ⟨hm,ht⟩ := h f hf
  rw [share,share,share,share,hm,ht]

/-- The two sides of a fill cancel out. -/
theorem signed_opposite (s : Side) (n : ℤ) : signed s.opposite n+signed s n = 0 := by
  cases s with
  | buy => simp [signed,Side.opposite]
  | sell => simp [signed,Side.opposite]

end Net

theorem signed_ofInt (s : Side) (q : Int64) : AccountManager.signed s q = Int64.ofInt (signed s q.toInt) := by
  cases s with
  | buy => simp [AccountManager.signed,signed]
  | sell => simp [AccountManager.signed,signed]

/-- Every party of a fill moves by its signed quantity. -/
theorem getPosition_applyFill (m : AccountManager) (acct a : AccountId) (side : Side) (price qty : Int64) :
    ((m.applyFill acct side price qty).getPosition a).netPosition =
      (m.getPosition a).netPosition+Int64.ofInt (if acct = a then signed side qty.toInt else 0) := by
  rw [AccountManager.getPosition_applyFill]
  by_cases h : acct = a
  · rw [if_pos h.symm,if_pos h,signed_ofInt]
  · rw [if_neg (Ne.symm h),if_neg h]; rfl

section Settle
variable {no : NewOrder} {owners : Owners} {fs : List MatchFill}

/-- Settling a taker's fills moves what their events name, when the owners are those of the fills. -/
theorem getPosition_settle (sym : SymbolId) (seq : UInt64) (m : AccountManager) (a : AccountId)
    (htaker : owners no.orderId = some (no.accountId,no.side))
    (hmaker : ∀ g ∈ fs, g.takerOrderId = no.orderId ∧
      owners g.makerOrderId = some (g.makerAccountId,no.side.opposite)) :
    ((settle m no fs).getPosition a).netPosition = (m.getPosition a).netPosition+
      Int64.ofInt (netOf owners a (fun f => f.qty.toInt) ((fillEvents no sym seq fs).filterMap Event.toFill)) := by
  induction fs generalizing m seq with
  | nil => simp [settle,fillEvents]
  | cons g fs ih =>
    obtain ⟨hg,hown⟩ := hmaker g (List.mem_cons_self ..)
    have htail := ih (seq+1) ((m.applyFill no.accountId no.side g.price g.qty).applyFill g.makerAccountId
      no.side.opposite g.price g.qty) fun x hx => hmaker x (List.mem_cons_of_mem _ hx)
    have hfills : (fillEvents no sym seq (g::fs)).filterMap Event.toFill =
        ⟨seq,no.clientSeq,sym,g.takerOrderId,g.makerOrderId,g.price,g.qty⟩::
          (fillEvents no sym (seq+1) fs).filterMap Event.toFill := rfl
    rw [hfills,netOf_cons]
    change ((settle _ no fs).getPosition a).netPosition = _
    rw [htail,getPosition_applyFill,getPosition_applyFill]
    simp only [share,hg,hown,htaker,Option.elim_some,Int64.ofInt_add]
    rw [add_assoc,add_assoc,add_assoc,← add_assoc (Int64.ofInt _) (Int64.ofInt _),
      ← add_assoc (Int64.ofInt _) (Int64.ofInt _),add_comm (Int64.ofInt (if no.accountId = a then _ else _))]

end Settle

section Effect
variable {S : Type} [Slab S Order] {e e' : Engine S} {evs : List Event} {cmd : Command} {owners : Owners}

omit [Slab S Order] in
theorem fills_acceptedEvents (e : Engine S) (no : NewOrder) (fs : List MatchFill) (t : BookTop) (seq : UInt64) :
    (e.acceptedEvents no fs t seq).filterMap Event.toFill =
      (fillEvents no e.book.symbolId e.serverSeq fs).filterMap Event.toFill := by
  simp [acceptedEvents,Event.toFill]

/-- A command moves positions by the fills it emits. -/
theorem Effect.positions (h : Effect e e' evs cmd) (he : OrderBook.Wf e.book)
    (hlive : ∀ id o, e.book.get id = some o → owners id = some (o.accountId,o.side))
    (hnew : ∀ no, cmd = .newOrder no → owners no.orderId = some (no.accountId,no.side)) (a : AccountId) :
    (e'.accountManager.getPosition a).netPosition = (e.accountManager.getPosition a).netPosition+
      Int64.ofInt (netOf owners a (fun f => f.qty.toInt) (evs.filterMap Event.toFill)) := by
  cases h with
  | refused r hid hev hb ha => rw [ha,hev]; exact (add_zero _).symm
  | cancelled o ak t ho hacct hb ha hid hev => rw [ha,hev]; exact (add_zero _).symm
  | lost o rej ho hacct hb ha hid hev => rw [ha,hev]; exact (add_zero _).symm
  | @placed no fs t seq hr hp ha hev =>
    rw [ha,hev,fills_acceptedEvents]
    refine getPosition_settle _ _ _ a (hnew no rfl) fun g hg => ?_
    obtain ⟨ht,m,hm,hacct,hside⟩ := hp.maker g hg
    exact ⟨ht,by rw [hlive _ m hm,hacct,hside]⟩
  | @replaced r o fs t seq ho hacct hp ha hev =>
    rw [ha,hev,fills_acceptedEvents]
    have htaker : owners r.orderId = some (r.accountId,o.side) := by rw [hlive _ o ho,hacct]
    refine getPosition_settle _ _ _ a htaker fun g hg => ?_
    obtain ⟨ht,m,hm,hmacct,hside⟩ := hp.maker g hg
    obtain ⟨-,hm'⟩ := get_of_cancel he ho hm
    exact ⟨ht,by rw [hlive _ m hm',hmacct,hside]⟩

theorem getPosition_unnamed (e : Engine S) (hcmd : commandOrderId cmd = none) (a : AccountId) :
    (e.live cmd).accountManager.getPosition a = e.accountManager.getPosition a := by
  cases cmd with
  | newOrder no => cases hcmd
  | cancel c => cases hcmd
  | replace r => cases hcmd
  | setRiskLimits srl => rfl
  | queryAccount qa => rfl
  | authenticate auth => rfl

/-- Positions move by the fills that a command emits, whatever it is. -/
theorem positions_live (he : OrderBook.Wf e.book) (hid : ∀ no, cmd = .newOrder no → e.book.get no.orderId = none)
    (hlive : ∀ id o, e.book.get id = some o → owners id = some (o.accountId,o.side))
    (hnew : ∀ no, cmd = .newOrder no → owners no.orderId = some (no.accountId,no.side)) (a : AccountId) :
    ((e.live cmd).accountManager.getPosition a).netPosition = (e.accountManager.getPosition a).netPosition+
      Int64.ofInt (netOf owners a (fun f => f.qty.toInt) ((e.process cmd).2.filterMap Event.toFill)) := by
  rcases live_outcome he hid with heff | ⟨hcmd,-,hnone⟩
  · exact heff.positions he hlive hnew a
  · have hnil : (e.process cmd).2.filterMap Event.toFill = [] := by
      refine List.filterMap_eq_nil_iff.mpr fun ev hev => ?_
      cases ev with
      | fill f => exact absurd hev (hnone f)
      | _ => rfl
    rw [getPosition_unnamed e hcmd,hnil]
    exact (add_zero _).symm

end Effect
end Engine
end HighPerfTrading
