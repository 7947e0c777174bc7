import HighPerfTrading.Engine.BookRefines
import HighPerfTrading.Engine.EngineRun

/-! The exchange for one symbol as its members see it: FIFO queues of live orders, positions and limits.
It has no slab, no index, no cached totals and no dead orders, and its events are not numbered. -/
namespace HighPerfTrading

def Event.unnumbered : Event → Event
  | .ack a => .ack { a with serverSeq := 0 }
  | .reject r => .reject { r with serverSeq := 0 }
  | .fill f => .fill { f with serverSeq := 0 }
  | .bookTop t => .bookTop { t with serverSeq := 0 }
  | .accountState s => .accountState { s with serverSeq := 0 }
  | .authSuccess a => .authSuccess a
  | .authFailure a => .authFailure a

structure Market where
  symbolId : SymbolId
  queues : OrderBook.RefBook
  positions : AccountId → Position
  limits : AccountId → RiskLimits

namespace Market
open OrderBook OrderBook.RefBook

/-- Nothing rests, nobody has traded, and everybody has the default limits. -/
def new (symbolId : SymbolId) : Market := ⟨symbolId,fun _ _ => [],fun _ => default,fun _ => default⟩

/-- The best price of a side with all that rests there. -/
def Shows (A : RefBook) (s : Side) : Option (Price × Qty) → Prop
  | none => ∀ p, A s p = []
  | some (p,q) => (rules s).IsBest (A s) p ∧ q.toInt = sumQty (A s p)

theorem Shows.unique {A : RefBook} {s : Side} {x y : Option (Price × Qty)} (hx : Shows A s x) (hy : Shows A s y) :
    x = y := by
  cases x with
  | none =>
    cases y with
    | none => rfl
    | some v => exact absurd (hx v.1) hy.1.1
  | some v =>
    cases y with
    | none => exact absurd (hy v.1) hx.1.1
    | some w =>
      obtain ⟨p,q⟩ := v
      obtain ⟨p',q'⟩ := w
      obtain rfl : p = p' := PriceTime.Rules.IsBest.unique (fun _ _ => better_antisymm) hx.1 hy.1
      rw [Int64.toInt_inj.mp (hx.2.trans hy.2.symm)]

/-- The top of the book, then the acknowledgement. -/
def answered (symbolId : SymbolId) (bid ask : Option (Price × Qty)) (clientSeq : UInt64) (orderId : OrderId) : List Event :=
  [.bookTop ⟨0,symbolId,bid.map Prod.fst,bid.map Prod.snd,ask.map Prod.fst,ask.map Prod.snd⟩,.ack ⟨0,clientSeq,orderId⟩]

def rejected (clientSeq : UInt64) (orderId : OrderId) (reason : RejectReason) : List Event :=
  [.reject ⟨0,clientSeq,some orderId,reason⟩]

/-- Some order of the other side rests within the limit. -/
def Crosses (A : RefBook) (side : Side) (limit : Price) : Prop :=
  ∃ p, A side.opposite p ≠ [] ∧ RefBook.Within side limit p

/-- An order of this size may be placed: if it filled completely, the position would stay in its limits. -/
def Permits (M : Market) (acct : AccountId) (side : Side) (qty : Qty) : Prop :=
  qty ≤ (M.limits acct).maxOrderSize ∧
    (M.positions acct).netPosition+AccountManager.signed side qty ≤ (M.limits acct).maxLongPosition ∧
    -(M.limits acct).maxShortPosition ≤ (M.positions acct).netPosition+AccountManager.signed side qty

open Classical in
noncomputable def refusal (M : Market) (no : NewOrder) : Option RejectReason :=
  if no.symbolId ≠ M.symbolId ∨ no.qty ≤ 0 then some .invalid
  else if ¬ M.Permits no.accountId no.side no.qty then some .risk
  else if no.flags.postOnly = true ∧ Crosses M.queues no.side no.price then some .postOnlyWouldCross
  else none

/-- The queues after the trades of an order: what is left of it rests if it is good till cancelled. -/
def rested (A : RefBook) (no : NewOrder) (ts : List (PriceTime.Trade Price Order))
    (Q : PriceTime.Queues Price Order) : RefBook :=
  let left := no.qty.toInt-(ts.map PriceTime.Trade.qty).sum
  if 0 < left ∧ no.tif = .gtc then
    RefBook.rest (Function.update A no.side.opposite Q) (Engine.resting no (Int64.ofInt left))
  else Function.update A no.side.opposite Q

def trade (positions : AccountId → Position) (acct : AccountId) (side : Side) (price : Price) (qty : Qty) :
    AccountId → Position :=
  Function.update positions acct (match side with
    | .buy => AccountManager.buyFill (positions acct) price qty
    | .sell => AccountManager.sellFill (positions acct) price qty)

/-- Each fill moves the taker's position, then the maker's. -/
def settled (positions : AccountId → Position) (no : NewOrder) (fs : List MatchFill) : AccountId → Position :=
  fs.foldl (fun pos f => trade (trade pos no.accountId no.side f.price f.qty) f.makerAccountId no.side.opposite
    f.price f.qty) positions

def fillEvents (no : NewOrder) (symbolId : SymbolId) (fs : List MatchFill) : List Event :=
  fs.map fun f => .fill ⟨0,no.clientSeq,symbolId,f.takerOrderId,f.makerOrderId,f.price,f.qty⟩

/-- An order enters: it is refused, or it walks the other side and its remainder rests. -/
inductive Enters (M : Market) (no : NewOrder) : Market → List Event → Prop
  | refused {reason : RejectReason} (h : M.refusal no = some reason) :
      Enters M no M (rejected no.clientSeq no.orderId reason)
  | matched {ts : List (PriceTime.Trade Price Order)} {Q : PriceTime.Queues Price Order} {bid ask : Option (Price × Qty)}
      (h : M.refusal no = none)
      (hw : (rules no.side.opposite).Walk (RefBook.Within no.side no.price) (M.queues no.side.opposite) no.qty.toInt ts Q)
      (hbid : Shows (rested M.queues no ts Q) .buy bid) (hask : Shows (rested M.queues no ts Q) .sell ask) :
      Enters M no
        { M with
          queues := rested M.queues no ts Q
          positions := settled M.positions no (ts.map (fill no.orderId)) }
        (fillEvents no M.symbolId (ts.map (fill no.orderId)) ++ answered M.symbolId bid ask no.clientSeq no.orderId)

/-- What a command does. A replacement gives the old order up before the new one is looked at. -/
inductive Step (M : Market) : Command → Market → List Event → Prop
  | newOrder {no : NewOrder} {M' : Market} {evs : List Event} (h : M.Enters no M' evs) : Step M (.newOrder no) M' evs
  | cancelInvalid {c : Cancel} (hs : c.symbolId ≠ M.symbolId) :
      Step M (.cancel c) M (rejected c.clientSeq c.orderId .invalid)
  | cancelUnknown {c : Cancel} (hs : c.symbolId = M.symbolId)
      (h : ∀ o, M.queues.Rests o → o.orderId = c.orderId → o.accountId ≠ c.accountId) :
      Step M (.cancel c) M (rejected c.clientSeq c.orderId .notFound)
  | cancelled {c : Cancel} {o : Order} {bid ask : Option (Price × Qty)} (hs : c.symbolId = M.symbolId)
      (ho : M.queues.Rests o) (hid : o.orderId = c.orderId) (hacct : o.accountId = c.accountId)
      (hbid : Shows (M.queues.remove c.orderId) .buy bid) (hask : Shows (M.queues.remove c.orderId) .sell ask) :
      Step M (.cancel c) { M with queues := M.queues.remove c.orderId }
        (answered M.symbolId bid ask c.clientSeq c.orderId)
  | replaceInvalid {r : Replace} (hs : r.symbolId ≠ M.symbolId ∨ r.newQty ≤ 0) :
      Step M (.replace r) M (rejected r.clientSeq r.orderId .invalid)
  | replaceUnknown {r : Replace} (hs : r.symbolId = M.symbolId) (hq : 0 < r.newQty)
      (h : ∀ o, M.queues.Rests o → o.orderId = r.orderId → o.accountId ≠ r.accountId) :
      Step M (.replace r) M (rejected r.clientSeq r.orderId .notFound)
  | replaced {r : Replace} {o : Order} {M' : Market} {evs : List Event} (hs : r.symbolId = M.symbolId)
      (hq : 0 < r.newQty) (ho : M.queues.Rests o) (hid : o.orderId = r.orderId) (hacct : o.accountId = r.accountId)
      (h : Enters { M with queues := M.queues.remove r.orderId } (Engine.replacement r o) M' evs) :
      Step M (.replace r) M' evs
  | setRiskLimits (srl : SetRiskLimits) :
      Step M (.setRiskLimits srl) { M with limits := Function.update M.limits srl.accountId srl.limits }
        [.ack ⟨0,srl.clientSeq,0⟩]
  | queryAccount (qa : QueryAccount) :
      Step M (.queryAccount qa) M [.accountState ⟨0,qa.clientSeq,qa.accountId,qa.symbolId,M.positions qa.accountId,
        M.limits qa.accountId⟩]
  | authenticate (auth : Authenticate) : Step M (.authenticate auth) M []

/-- The commands one after the other, with all their events. -/
inductive Run : Market → List Command → Market → List Event → Prop
  | nil (M : Market) : Run M [] M []
  | cons {M M' M'' : Market} {cmd : Command} {cmds : List Command} {evs evs' : List Event} (h : M.Step cmd M' evs)
      (tail : Run M' cmds M'' evs') : Run M (cmd::cmds) M'' (evs ++ evs')

/-! ### A command has one outcome -/

/-- No two resting orders share an id. -/
def Distinct (M : Market) : Prop := ∀ o o', M.queues.Rests o → M.queues.Rests o' → o.orderId = o'.orderId → o = o'

variable {M M₁ M₂ : Market} {evs₁ evs₂ : List Event}

theorem valid {s s' : SymbolId} {q : Qty} (hs : s = s') (hq : 0 < q) : ¬ (s ≠ s' ∨ q ≤ 0) :=
  not_or.mpr ⟨not_not.mpr hs,Int64.not_le.mpr hq⟩

theorem Enters.deterministic {no : NewOrder} (h₁ : M.Enters no M₁ evs₁) (h₂ : M.Enters no M₂ evs₂) :
    M₁ = M₂ ∧ evs₁ = evs₂ := by
  cases h₁ with
  | refused h =>
    cases h₂ with
    | refused h' => exact ⟨rfl,by rw [Option.some.inj (h.symm.trans h')]⟩
    | matched h' => exact absurd (h.symm.trans h') (by simp)
  | matched h hw hbid hask =>
    cases h₂ with
    | refused h' => exact absurd (h.symm.trans h') (by simp)
    | matched h' hw' hbid' hask' =>
      obtain ⟨rfl,rfl⟩ := PriceTime.Rules.Walk.deterministic (fun _ _ => better_antisymm) hw hw'
      rw [hbid.unique hbid',hask.unique hask']
      exact ⟨rfl,rfl⟩

theorem Step.deterministic (hM : M.Distinct) {cmd : Command} (h₁ : M.Step cmd M₁ evs₁) (h₂ : M.Step cmd M₂ evs₂) :
    M₁ = M₂ ∧ evs₁ = evs₂ := by
  cases h₁ with
  | newOrder h =>
    cases h₂ with
    | newOrder h' => exact h.deterministic h'
  | cancelInvalid hs =>
    cases h₂ with
    | cancelInvalid _ => exact ⟨rfl,rfl⟩
    | cancelUnknown hs' _ => exact absurd hs' hs
    | cancelled hs' => exact absurd hs' hs
  | cancelUnknown hs h =>
    cases h₂ with
    | cancelInvalid hs' => exact absurd hs hs'
    | cancelUnknown _ _ => exact ⟨rfl,rfl⟩
    | cancelled _ ho hid hacct => exact absurd hacct (h _ ho hid)
  | cancelled hs ho hid hacct hbid hask =>
    cases h₂ with
    | cancelInvalid hs' => exact absurd hs hs'
    | cancelUnknown _ h => exact absurd hacct (h _ ho hid)
    | cancelled _ _ _ _ hbid' hask' =>
      rw [hbid.unique hbid',hask.unique hask']
      exact ⟨rfl,rfl⟩
  | replaceInvalid hs =>
    cases h₂ with
    | replaceInvalid _ => exact ⟨rfl,rfl⟩
    | replaceUnknown hs' hq' _ => exact absurd hs (valid hs' hq')
    | replaced hs' hq' => exact absurd hs (valid hs' hq')
  | replaceUnknown hs hq h =>
    cases h₂ with
    | replaceInvalid hs' => exact absurd hs' (valid hs hq)
    | replaceUnknown _ _ _ => exact ⟨rfl,rfl⟩
    | replaced _ _ ho hid hacct _ => exact absurd hacct (h _ ho hid)
  | replaced hs hq ho hid hacct h =>
    cases h₂ with
    | replaceInvalid hs' => exact absurd hs' (valid hs hq)
    | replaceUnknown _ _ h => exact absurd hacct (h _ ho hid)
    | replaced _ _ ho' hid' _ h' =>
      obtain rfl := hM _ _ ho ho' (hid.trans hid'.symm)
      exact h.deterministic h'
  | setRiskLimits srl => cases h₂; exact ⟨rfl,rfl⟩
  | queryAccount qa => cases h₂; exact ⟨rfl,rfl⟩
  | authenticate auth => cases h₂; exact ⟨rfl,rfl⟩

end Market
end HighPerfTrading
