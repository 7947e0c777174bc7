/-! Workers that each work on some keys. As long as no two work on the same key, what holds of the keys of a worker
stays true while the others go on, and a key that nobody works on is in order. -/

/-- In each of its phases a worker works on some keys, and something holds of the states of these. `Clean` is what
holds of the state of a key that nobody works on. -/
structure Discipline (P K A : Type) where
  keys : P → List K
  Holds : P → (K → A) → Prop
  Clean : A → Prop
  holds_congr : ∀ {p : P} {v v' : K → A}, (∀ k ∈ keys p, v' k = v k) → Holds p v → Holds p v'

/-- The workers keep to the discipline. -/
structure Custody {W P K A : Type} (d : Discipline P K A) (phase : W → P) (view : K → A) : Prop where
  apart : ∀ {w w' : W} {k : K}, k ∈ d.keys (phase w) → k ∈ d.keys (phase w') → w = w'
  holds : ∀ w : W, d.Holds (phase w) view
  clean : ∀ k : K, (∀ w : W, k ∉ d.keys (phase w)) → d.Clean (view k)

namespace Custody
variable {W P K A : Type} {d : Discipline P K A} {phase phase' : W → P} {view view' : K → A}

/-- A key of one worker is none of another's, before and after a step of the other. -/
theorem other (h : Custody d phase view) {w w' : W} (hne : w' ≠ w) {k : K} (hk : k ∈ d.keys (phase w'))
    (htaken : ∀ k ∈ d.keys (phase' w), k ∈ d.keys (phase w) ∨ ∀ u, k ∉ d.keys (phase u)) :
    k ∉ d.keys (phase w) ∧ k ∉ d.keys (phase' w) := by
  have hold : k ∉ d.keys (phase w) := fun hw => hne (h.apart hk hw)
  refine ⟨hold,fun hw => ?_⟩
  cases htaken k hw with
  | inl hmem => exact hold hmem
  | inr hfree => exact hfree w' hk

/-- One worker takes up keys that are free, changes nothing but its keys and free ones, and leaves those that it does
not keep in order. -/
theorem step (h : Custody d phase view) (w : W) (hothers : ∀ w', w' ≠ w → phase' w' = phase w')
    (htaken : ∀ k ∈ d.keys (phase' w), k ∈ d.keys (phase w) ∨ ∀ u, k ∉ d.keys (phase u))
    (hframe : ∀ k, k ∉ d.keys (phase w) → k ∉ d.keys (phase' w) →
      view' k = view k ∨ (∀ u, k ∉ d.keys (phase u)) ∧ d.Clean (view' k))
    (hholds : d.Holds (phase' w) view')
    (hclean : ∀ k ∈ d.keys (phase w), k ∉ d.keys (phase' w) → d.Clean (view' k)) : Custody d phase' view' := by
  refine ⟨fun {u u' k} hu hu' => ?_,fun u => ?_,fun k hk => ?_⟩
  · by_cases hw : u = w
    · by_cases hw' : u' = w
      · exact hw.trans hw'.symm
      · rw [hothers u' hw'] at hu'
        exact absurd (hw ▸ hu) (h.other hw' hu' htaken).2
    · rw [hothers u hw] at hu
      by_cases hw' : u' = w
      · exact absurd (hw' ▸ hu') (h.other hw hu htaken).2
      · rw [hothers u' hw'] at hu'
        exact h.apart hu hu'
  · by_cases hw : u = w
    · exact hw ▸ hholds
    · rw [hothers u hw]
      refine d.holds_congr (fun k hk => ?_) (h.holds u)
      obtain ⟨hbefore,hafter⟩ := h.other hw hk htaken
      cases hframe k hbefore hafter with
      | inl hsame => exact hsame
      | inr hfree => exact absurd hk (hfree.1 u)
  · by_cases hold : k ∈ d.keys (phase w)
    · exact hclean k hold (hk w)
    · cases hframe k hold (hk w) with
      | inr hfree => exact hfree.2
      | inl hsame =>
        rw [hsame]
        refine h.clean k fun u hu => ?_
        by_cases hw : u = w
        · exact hold (hw ▸ hu)
        · exact hk u ((hothers u hw).symm ▸ hu)

end Custody
