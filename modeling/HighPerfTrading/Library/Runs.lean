import Mathlib.Data.List.Induction
import Mathlib.Data.List.Infix

/-! Runs as lists of steps. A run has a state after each of its fronts, and a step is taken behind a front. -/
namespace Runs
variable {α : Type} {steps : List α} (Inv : List α → Prop) {Cond Claim : List α → α → Prop}

/-- What holds at first and is kept by every step of a run holds after every front of it. -/
theorem invariant (nil : Inv []) (step : ∀ front a, front ++ [a] <+: steps → Inv front → Inv (front ++ [a])) :
    ∀ front, front <+: steps → Inv front := by
  intro front
  induction front using List.reverseRecOn with
  | nil => exact fun _ => nil
  | append_singleton front a ih =>
    exact fun hfront => step front a hfront (ih ((List.prefix_append front [a]).trans hfront))

/-- Where a condition keeps an invariant, and under the invariant a step is right exactly when its condition holds,
the steps of a run are all right exactly when all conditions hold. -/
theorem forall_iff (nil : Inv [])
    (keep : ∀ front a, front ++ [a] <+: steps → Inv front → Cond front a → Inv (front ++ [a]))
    (exact : ∀ front a, front ++ [a] <+: steps → Inv front → (Claim front a ↔ Cond front a)) :
    (∀ front a, front ++ [a] <+: steps → Claim front a) ↔ ∀ front a, front ++ [a] <+: steps → Cond front a := by
  constructor
  · intro hclaim front a hfront
    have hinv := invariant Inv nil (fun front a hstep hinv => keep front a hstep hinv
      ((exact front a hstep hinv).mp (hclaim front a hstep))) front ((List.prefix_append front [a]).trans hfront)
    exact (exact front a hfront hinv).mp (hclaim front a hfront)
  · intro hcond front a hfront
    have hinv := invariant Inv nil (fun front a hstep hinv => keep front a hstep hinv (hcond front a hstep)) front
      ((List.prefix_append front [a]).trans hfront)
    exact (exact front a hfront hinv).mpr (hcond front a hfront)

end Runs
