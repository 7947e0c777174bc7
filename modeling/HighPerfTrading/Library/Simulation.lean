/-! Machines that take actions and give outputs, with their runs, and simulations of one machine by another in which
an action of the first is no, one or several actions of the second. -/

structure Machine (State Action Output : Type) where
  step : State → Action → State × List Output

namespace Machine
variable {σ τ α β ω : Type}

/-- A machine without outputs. -/
def silent (next : σ → α → σ) : Machine σ α Empty := ⟨fun s a => (next s a,[])⟩

@[simp] theorem silent_step (next : σ → α → σ) (s : σ) (a : α) : ((silent next).step s a).1 = next s a := rfl

section Run
variable (m : Machine σ α ω)

/-- The state after some actions, and their outputs. -/
def run (s : σ) : List α → σ × List ω
  | [] => (s,[])
  | a::as => ((run (m.step s a).1 as).1,(m.step s a).2 ++ (run (m.step s a).1 as).2)

def after (s : σ) (as : List α) : σ := (m.run s as).1

/-- Every action is allowed where it is taken. -/
def Obeys (allows : σ → α → Prop) (s : σ) : List α → Prop
  | [] => True
  | a::as => allows s a ∧ Obeys allows (m.step s a).1 as

instance decidableObeys (allows : σ → α → Prop) [h : ∀ s a, Decidable (allows s a)] :
    (s : σ) → (as : List α) → Decidable (m.Obeys allows s as)
  | _,[] => isTrue trivial
  | s,a::as =>
    match h s a,decidableObeys allows (m.step s a).1 as with
    | isTrue ha,isTrue has => isTrue ⟨ha,has⟩
    | isFalse ha,_ => isFalse fun hn => ha hn.1
    | _,isFalse has => isFalse fun hn => has hn.2

theorem run_one (s : σ) (a : α) : m.run s [a] = m.step s a := by
  rw [run,run,List.append_nil]

theorem run_append (s : σ) (as bs : List α) : m.run s (as ++ bs) =
    ((m.run (m.run s as).1 bs).1,(m.run s as).2 ++ (m.run (m.run s as).1 bs).2) := by
  induction as generalizing s with
  | nil => rfl
  | cons a as ih =>
    rw [List.cons_append,run,ih,run,List.append_assoc]

@[simp] theorem after_nil (s : σ) : m.after s [] = s := rfl

@[simp] theorem after_cons (s : σ) (a : α) (as : List α) : m.after s (a::as) = m.after (m.step s a).1 as := rfl

theorem after_append (s : σ) (as bs : List α) : m.after s (as ++ bs) = m.after (m.after s as) bs := by
  rw [after,run_append]
  rfl

variable {m}

/-- What every action keeps holds after any actions. -/
theorem after_stays {P : σ → Prop} (hstep : ∀ s a, P s → P (m.step s a).1) {s : σ} (h : P s) (as : List α) :
    P (m.after s as) := by
  induction as generalizing s with
  | nil => exact h
  | cons a as ih => exact ih (hstep s a h)

variable (m)

/-- The states that allowed actions lead to. -/
inductive Reaches (allows : σ → α → Prop) (s₀ : σ) : σ → Prop
  | start : Reaches allows s₀ s₀
  | step {s : σ} (h : Reaches allows s₀ s) (a : α) (ha : allows s a) : Reaches allows s₀ (m.step s a).1

variable {m}

namespace Reaches
variable {allows : σ → α → Prop} {s₀ s : σ}

theorem after (h : m.Reaches allows s₀ s) (as : List α) (has : m.Obeys allows s as) :
    m.Reaches allows s₀ (m.after s as) := by
  induction as generalizing s with
  | nil => exact h
  | cons a as ih => exact ih (h.step a has.1) has.2

/-- What holds at first and is kept by every allowed action of a run holds in every state of it. -/
theorem keeps {P : σ → Prop} (h : m.Reaches allows s₀ s) (h₀ : P s₀)
    (hstep : ∀ s a, m.Reaches allows s₀ s → P s → allows s a → P (m.step s a).1) : P s := by
  induction h with
  | start => exact h₀
  | step h a ha ih => exact hstep _ a h ih ha

end Reaches
end Run

/-- What the actions of the first machine are in the second one. The related states stay related, and the second
machine gives the same outputs. -/
structure Simulation (m : Machine σ α ω) (n : Machine τ β ω) (allows : σ → α → Prop) where
  related : σ → τ → Prop
  actions : σ → α → List β
  step : ∀ {s t a}, related s t → allows s a →
    related (m.step s a).1 (n.run t (actions s a)).1 ∧ (n.run t (actions s a)).2 = (m.step s a).2

namespace Simulation
variable {m : Machine σ α ω} {n : Machine τ β ω} {allows : σ → α → Prop}

/-- What a sequence of actions is in the second machine. -/
def allActions (sim : Simulation m n allows) (s : σ) : List α → List β
  | [] => []
  | a::as => sim.actions s a ++ sim.allActions (m.step s a).1 as

theorem run (sim : Simulation m n allows) {s : σ} {t : τ} {as : List α} (h : sim.related s t)
    (has : m.Obeys allows s as) : sim.related (m.run s as).1 (n.run t (sim.allActions s as)).1 ∧
      (n.run t (sim.allActions s as)).2 = (m.run s as).2 := by
  induction as generalizing s t with
  | nil => exact ⟨h,rfl⟩
  | cons a as ih =>
    obtain ⟨hstep,hout⟩ := sim.step h has.1
    obtain ⟨hrest,hmore⟩ := ih hstep has.2
    rw [allActions,run_append,hout,hmore]
    exact ⟨hrest,rfl⟩

end Simulation
end Machine
