import Mathlib.Logic.Function.Basic
import Mathlib.Algebra.Order.Group.Int
import Mathlib.Tactic.SplitIfs

/-! Price-time priority matching in the abstract: one side of a book is a FIFO queue for
each price, and a taker walks it best price first. Quantities are integers. -/
namespace PriceTime
variable {P O : Type*}

/-- How a side ranks its prices, measures its orders and shrinks one that has traded. -/
structure Rules (P O : Type*) where
  before : P → P → Prop
  qty : O → ℤ
  take : O → ℤ → O

/-- The orders resting at each price, oldest first. -/
abbrev Queues (P O : Type*) := P → List O

structure Trade (P O : Type*) where
  price : P
  maker : O
  qty : ℤ

namespace Queues
variable [DecidableEq P]

/-- A new order joins the tail of its price. -/
def append (A : Queues P O) (p : P) (o : O) : Queues P O := Function.update A p (A p ++ [o])

def keep (A : Queues P O) (f : O → Bool) : Queues P O := fun p => (A p).filter f

end Queues

namespace Rules
variable (R : Rules P O)

def IsBest (A : Queues P O) (p : P) : Prop := A p ≠ [] ∧ ∀ q, A q ≠ [] → R.before p q

/-- The queue of a price once its head has traded `t`: a filled maker leaves, a partially
filled one stays at the head. -/
def leave (o : O) (t : ℤ) (os : List O) : List O := if R.qty o = t then os else R.take o t::os

/-- A taker of quantity `q` walks a side: it trades with the oldest order of the best price
until it is exhausted or the best price is outside its limit. -/
inductive Walk [DecidableEq P] (within : P → Prop) :
    Queues P O → ℤ → List (Trade P O) → Queues P O → Prop
  | exhausted {A q} (h : q ≤ 0) : Walk within A q [] A
  | beyond {A q} (h : ∀ p, R.IsBest A p → ¬ within p) : Walk within A q [] A
  | trade {A q p o os ts B} (hq : 0 < q) (hp : R.IsBest A p) (hw : within p) (ho : A p = o::os)
      (tail : Walk within (Function.update A p (R.leave o (min q (R.qty o)) os))
        (q-min q (R.qty o)) ts B) :
      Walk within A q (⟨p,o,min q (R.qty o)⟩::ts) B

variable {R}

theorem IsBest.unique (anti : ∀ a b, R.before a b → R.before b a → a = b) {A : Queues P O} {p q : P}
    (hp : R.IsBest A p) (hq : R.IsBest A q) : p = q :=
  anti p q (hp.2 q hq.1) (hq.2 p hp.1)

/-- The walk has one outcome. -/
theorem Walk.deterministic [DecidableEq P] (anti : ∀ a b, R.before a b → R.before b a → a = b)
    {within : P → Prop} {A B C : Queues P O} {q : ℤ} {ts us : List (Trade P O)}
    (h : R.Walk within A q ts B) (k : R.Walk within A q us C) : ts = us ∧ B = C := by
  induction h generalizing us C with
  | exhausted h =>
    cases k with
    | exhausted _ => exact ⟨rfl,rfl⟩
    | beyond _ => exact ⟨rfl,rfl⟩
    | trade hq _ _ _ _ => omega
  | beyond h =>
    cases k with
    | exhausted _ => exact ⟨rfl,rfl⟩
    | beyond _ => exact ⟨rfl,rfl⟩
    | trade _ hp hw _ _ => exact absurd hw (h _ hp)
  | trade hq hp hw ho tail ih =>
    cases k with
    | exhausted h => omega
    | beyond h => exact absurd hw (h _ hp)
    | trade _ hp' _ ho' tail' =>
      obtain rfl := IsBest.unique anti hp hp'
      obtain ⟨rfl,rfl⟩ := List.cons_eq_cons.mp (ho.symm.trans ho')
      obtain ⟨rfl,rfl⟩ := ih tail'
      exact ⟨rfl,rfl⟩

end Rules
end PriceTime
