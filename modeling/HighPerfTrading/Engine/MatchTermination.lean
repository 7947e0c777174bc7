import HighPerfTrading.Engine.BookMatch

/-! Matching against any book, whatever its levels, queues, slab and index hold. Each pass takes a level or a queued
key away or exhausts the taker, so the loop ends; neither `expect` fails, and every fill is positive. -/
namespace HighPerfTrading
namespace OrderBook
variable {S : Type} [Slab S Order] {m m' : Matching S} {taker : OrderId} {limit : Price} {makers : Side} {n : ℕ}

/-- So many passes of the matching loop lead from one state to another. -/
inductive Passes (taker : OrderId) (limit : Price) (makers : Side) : ℕ → Matching S → Matching S → Prop
  | none (m : Matching S) : Passes taker limit makers 0 m m
  | pass {n : ℕ} {m m' m'' : Matching S} (h : matchStep taker limit makers m = .next m')
      (tail : Passes taker limit makers n m' m'') : Passes taker limit makers (n+1) m m''

theorem MatchRun.passes (h : MatchRun taker limit makers m m') :
    (∃ n, Passes taker limit makers n m m') ∧ matchStep taker limit makers m' = .exit := by
  induction h with
  | stop hexit => exact ⟨⟨0,.none _⟩,hexit⟩
  | pass hnext _ ih =>
    obtain ⟨⟨n,hn⟩,hexit⟩ := ih
    exact ⟨⟨n+1,.pass hnext hn⟩,hexit⟩

theorem matchStep_ne_panic (m : Matching S) (taker : OrderId) (limit : Price) (makers : Side) :
    matchStep taker limit makers m ≠ .panic := by
  rcases matchStep_pass m taker limit makers with ⟨hexit,-⟩ | ⟨m',hnext,-⟩
  · rw [hexit]
    exact nofun
  · rw [hnext]
    exact nofun

/-- Once the taker is exhausted there is no further pass. -/
theorem Passes.exhausted (h : Passes taker limit makers n m m') (hq : m.takerQty ≤ 0) : n = 0 := by
  cases h with
  | none => rfl
  | pass hnext _ => exact absurd ((matchStep_exhausted hq).symm.trans hnext) nofun

/-- The levels and queued keys of the makers' side bound the passes, the last one of which may exhaust the taker. -/
theorem Passes.le_work (h : Passes taker limit makers n m m') : n ≤ work (m.book.levels makers)+1 := by
  induction h with
  | none => exact Nat.zero_le _
  | @pass n m m₁ m₂ hnext tail ih =>
    rcases matchStep_pass m taker limit makers with ⟨hexit,-⟩ | ⟨x,hx,hpass⟩
    · exact absurd (hexit.symm.trans hnext) nofun
    obtain rfl : m₁ = x := by simpa using hnext.symm.trans hx
    rcases hpass.work with hless | hdone
    · omega
    · have hlast := tail.exhausted hdone
      omega

def FillsPositive (m : Matching S) : Prop := ∀ f ∈ m.fills, 0 < f.qty

theorem FillsPositive.pass (h : FillsPositive m) (hp : Pass taker limit makers m m') : FillsPositive m' := by
  cases hp with
  | drop px lvl hr hl hdead => exact h
  | trade px lvl k rest o hr hl hk hfront hs =>
    obtain ⟨-,ho⟩ := liveAt_eq_some.mp hk
    obtain ⟨hpos,-⟩ := min_qty hr.qty ho
    intro f hf
    rcases List.mem_append.mp hf with hf | hf
    · exact h f hf
    · obtain rfl := List.mem_singleton.mp hf
      exact hpos

/-- The loop ends in every book: no sequence of passes is longer than the work there is, in none of the states it
passes does an `expect` fail, it stops where the result is read off, and every fill is positive. -/
theorem matchTaker_ends (b : OrderBook S) (taker : OrderId) (side : Side) (limit : Price) (qty : Qty) :
    (∀ n m, Passes taker limit side.opposite n ⟨b,qty,[]⟩ m →
      n ≤ work (b.levels side.opposite)+1 ∧ matchStep taker limit side.opposite m ≠ .panic) ∧
    (∃ n m, Passes taker limit side.opposite n ⟨b,qty,[]⟩ m ∧ matchStep taker limit side.opposite m = .exit ∧
      b.matchTaker taker side limit qty = (m.book,m.fills)) ∧
    ∀ f ∈ (b.matchTaker taker side limit qty).2, 0 < f.qty := by
  obtain ⟨m',hrun,he⟩ := matchTaker_run b taker side limit qty
  obtain ⟨⟨n,hpasses⟩,hexit⟩ := hrun.passes
  refine ⟨fun n m h => ⟨h.le_work,matchStep_ne_panic m taker limit _⟩,⟨n,m',hpasses,hexit,he⟩,?_⟩
  have hstart : FillsPositive (⟨b,qty,[]⟩ : Matching S) := fun f hf => absurd hf List.not_mem_nil
  rw [he]
  exact (hrun.keeps (fun _ _ => FillsPositive.pass) hstart).1

end OrderBook
end HighPerfTrading
