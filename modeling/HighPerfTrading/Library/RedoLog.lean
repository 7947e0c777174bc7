/-! Recovery by redoing a log. Over any state machine, an image of a prefix of the log and the rest of the log
give an image of the state after the whole log, if a redo follows every step that was allowed. -/
namespace HighPerfTrading
namespace RedoLog
variable {σ τ α : Type}

section Log
variable (step : σ → α → σ) (allowed : σ → α → Prop)

/-- Every entry is allowed in the state that it meets. -/
def Allowed (s : σ) : List α → Prop
  | [] => True
  | a::as => allowed s a ∧ Allowed (step s a) as

instance Allowed.decidable [h : ∀ s a, Decidable (allowed s a)] (s : σ) : (as : List α) → Decidable (Allowed step allowed s as)
  | [] => isTrue trivial
  | a::as => @instDecidableAnd _ _ (h s a) (decidable (step s a) as)

variable {step allowed}

theorem allowed_append {s : σ} {as bs : List α} : Allowed step allowed s (as ++ bs) ↔
    Allowed step allowed s as ∧ Allowed step allowed (as.foldl step s) bs := by
  induction as generalizing s with
  | nil => simp [Allowed]
  | cons a as ih => simp only [List.cons_append,Allowed,List.foldl_cons,ih,and_assoc]

theorem Allowed.of_prefix {s : σ} {as bs : List α} (h : Allowed step allowed s bs) (hp : as <+: bs) :
    Allowed step allowed s as := by
  obtain ⟨rest,rfl⟩ := hp
  exact (allowed_append.mp h).1

end Log

section Redo
variable {step : σ → α → σ} {allowed : σ → α → Prop} (redo : τ → α → τ) (image : σ → τ → Prop)

variable (step allowed) in
/-- Redoing an allowed entry keeps an image. -/
def Follows : Prop := ∀ {s : σ} {t : τ} {a : α}, image s t → allowed s a → image (step s a) (redo t a)

variable {redo image}

theorem Follows.run (h : Follows step allowed redo image) {s : σ} {t : τ} {as : List α} (hi : image s t)
    (ha : Allowed step allowed s as) : image (as.foldl step s) (as.foldl redo t) := by
  induction as generalizing s t with
  | nil => exact hi
  | cons a as ih => exact ih (h hi ha.1) ha.2

/-- From an image of the first `n` entries, redoing the others gives an image of the whole log. -/
theorem Follows.recover (h : Follows step allowed redo image) {s : σ} {t : τ} {log : List α} {n : Nat}
    (hi : image ((log.take n).foldl step s) t) (ha : Allowed step allowed s log) :
    image (log.foldl step s) ((log.drop n).foldl redo t) := by
  rw [← List.take_append_drop n log] at ha
  have hredone := h.run hi (allowed_append.mp ha).2
  rwa [← List.foldl_append,List.take_append_drop] at hredone

end Redo
end RedoLog
end HighPerfTrading
