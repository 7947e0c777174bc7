import Mathlib.Data.List.Nodup
import Mathlib.Data.List.Basic

/-! Slab storage: values kept under recycled integer keys. The class is the interface a
client may rely on; which vacant key an insertion picks is left to the implementation. -/

/-- Keyed storage that chooses its own keys. `vacantKey` is the key the next insertion uses. -/
class Slab (S : Type) (α : outParam Type) where
  empty : S
  get : S → ℕ → Option α
  vacantKey : S → ℕ
  insert : S → α → S
  set : S → ℕ → α → S
  remove : S → ℕ → S
  iter : S → List (ℕ × α)
  get_empty : ∀ k, get empty k = none
  get_vacantKey : ∀ s, get s (vacantKey s) = none
  get_insert : ∀ s a k, get (insert s a) k = if k = vacantKey s then some a else get s k
  get_set : ∀ s k a j, get (set s k a) j = if j = k then (get s k).map fun _ => a else get s j
  get_remove : ∀ s k j, get (remove s k) j = if j = k then none else get s j
  mem_iter : ∀ s k a, (k,a) ∈ iter s ↔ get s k = some a
  iter_sorted : ∀ s, (iter s).Pairwise fun x y => x.1 < y.1

namespace Slab
variable {S α : Type} [Slab S α]

attribute [simp] get_empty get_vacantKey get_insert get_set get_remove mem_iter

theorem keys_nodup (s : S) : ((iter s).map Prod.fst).Nodup := by
  refine List.pairwise_map.mpr ((iter_sorted s).imp ?_)
  exact fun h => Nat.ne_of_lt h

theorem ne_vacantKey {s : S} {k : ℕ} {a : α} (h : get s k = some a) : k ≠ vacantKey s := by
  rintro rfl
  simp at h

@[simp] theorem iter_empty : iter (empty : S) = ([] : List (ℕ × α)) :=
  List.eq_nil_iff_forall_not_mem.mpr fun e he => by
    have h := (mem_iter (empty : S) e.1 e.2).mp he
    simp at h

/-- Two key-value lists with strictly increasing keys and the same entries are equal. -/
theorem eq_of_sorted {xs ys : List (ℕ × α)} (hx : xs.Pairwise fun x y => x.1 < y.1)
    (hy : ys.Pairwise fun x y => x.1 < y.1) (h : ∀ e, e ∈ xs ↔ e ∈ ys) : xs = ys := by
  have hn : ∀ {zs : List (ℕ × α)}, (zs.Pairwise fun x y => x.1 < y.1) → zs.Nodup := fun hz =>
    hz.imp fun h => by rintro rfl; exact Nat.lt_irrefl _ h
  refine ((List.perm_ext_iff_of_nodup (hn hx) (hn hy)).mpr h).eq_of_pairwise ?_ hx hy
  intro a b _ _ hab hba
  exact absurd hab (Nat.lt_asymm hba)

end Slab

/-- A slab as a growing table of slots with a stack of the vacant ones: an insertion takes
the most recently freed slot and grows the table only when no slot is vacant. -/
structure FreeListSlab (α : Type) where
  slots : List (Option α)
  free : List ℕ
  nodup : free.Nodup
  vacant : ∀ k, k ∈ free ↔ slots[k]? = some none

namespace FreeListSlab
variable {α : Type}

def empty : FreeListSlab α := ⟨[],[],List.nodup_nil,by simp⟩

def get (s : FreeListSlab α) (k : ℕ) : Option α := (s.slots[k]?).join

def vacantKey (s : FreeListSlab α) : ℕ := s.free.headD s.slots.length

def insert (s : FreeListSlab α) (a : α) : FreeListSlab α :=
  match h : s.free with
  | [] => ⟨s.slots ++ [some a],[],List.nodup_nil,by
      have hv := s.vacant
      simp only [h,List.not_mem_nil,false_iff] at hv
      intro k
      simp only [List.not_mem_nil,false_iff,List.getElem?_append]
      split_ifs with hk
      · exact hv k
      · rcases Nat.eq_zero_or_pos (k-s.slots.length) with h0 | h0
        · simp [h0]
        · simp [List.getElem?_eq_none (show [some a].length ≤ k-s.slots.length from h0)]⟩
  | k::rest => ⟨s.slots.set k (some a),rest,by
      have hn := s.nodup
      rw [h,List.nodup_cons] at hn
      exact hn.2,by
      have hn := s.nodup
      have hv := s.vacant
      rw [h,List.nodup_cons] at hn
      simp only [h,List.mem_cons] at hv
      intro j
      by_cases hj : k = j
      · subst hj
        have hlt : k < s.slots.length := by
          obtain ⟨hlt,_⟩ := List.getElem?_eq_some_iff.mp ((hv k).mp (Or.inl rfl))
          exact hlt
        simp [hn.1,hlt]
      · rw [List.getElem?_set_ne hj,← hv j]
        exact ⟨Or.inr,fun h => h.resolve_left (Ne.symm hj)⟩⟩

def set (s : FreeListSlab α) (k : ℕ) (a : α) : FreeListSlab α :=
  match h : s.slots[k]? with
  | some (some _) => ⟨s.slots.set k (some a),s.free,s.nodup,by
      intro j
      rw [s.vacant j]
      by_cases hj : k = j
      · subst hj
        obtain ⟨hlt,_⟩ := List.getElem?_eq_some_iff.mp h
        rw [h]
        simp [hlt]
      · rw [List.getElem?_set_ne hj]⟩
  | _ => s

def remove (s : FreeListSlab α) (k : ℕ) : FreeListSlab α :=
  match h : s.slots[k]? with
  | some (some _) => ⟨s.slots.set k none,k::s.free,by
      refine List.nodup_cons.mpr ⟨?_,s.nodup⟩
      rw [s.vacant k,h]
      simp,by
      intro j
      rw [List.mem_cons,s.vacant j]
      by_cases hj : k = j
      · subst hj
        obtain ⟨hlt,_⟩ := List.getElem?_eq_some_iff.mp h
        simp [hlt]
      · rw [List.getElem?_set_ne hj]
        exact ⟨fun h => h.resolve_left (Ne.symm hj),Or.inr⟩⟩
  | _ => s

def iter (s : FreeListSlab α) : List (ℕ × α) :=
  (s.slots.zipIdx).filterMap fun e => e.1.map fun a => (e.2,a)

theorem get_vacantKey (s : FreeListSlab α) : s.get s.vacantKey = none := by
  unfold get vacantKey
  cases hf : s.free with
  | nil => simp
  | cons k rest =>
    have h := (s.vacant k).mp (by simp [hf])
    simp [h]

theorem get_insert (s : FreeListSlab α) (a : α) (k : ℕ) :
    (s.insert a).get k = if k = s.vacantKey then some a else s.get k := by
  unfold get insert vacantKey
  split
  · next h =>
    simp only [h,List.headD_nil,List.getElem?_append]
    rcases Nat.lt_trichotomy k s.slots.length with hk | hk | hk
    · simp [hk,Nat.ne_of_lt hk]
    · subst hk; simp
    · have h1 : ¬ k < s.slots.length := by omega
      have h2 : k ≠ s.slots.length := by omega
      have h3 : [some a].length ≤ k-s.slots.length := by simp only [List.length_singleton]; omega
      rw [if_neg h1,if_neg h2,List.getElem?_eq_none h3,List.getElem?_eq_none (by omega)]
  · next j rest h =>
    simp only [h,List.headD_cons]
    obtain ⟨hlt,_⟩ := List.getElem?_eq_some_iff.mp ((s.vacant j).mp (by simp [h]))
    by_cases hk : j = k
    · subst hk; simp [hlt]
    · simp [List.getElem?_set_ne hk,Ne.symm hk]

theorem get_set (s : FreeListSlab α) (k : ℕ) (a : α) (j : ℕ) :
    (s.set k a).get j = if j = k then (s.get k).map fun _ => a else s.get j := by
  unfold get set
  split
  · next b h =>
    obtain ⟨hlt,hb⟩ := List.getElem?_eq_some_iff.mp h
    by_cases hj : k = j
    · subst hj
      simp [hlt,hb]
    · simp [List.getElem?_set_ne hj,Ne.symm hj]
  · next h =>
    have hk : (s.slots[k]?).join = none := by
      cases hs : s.slots[k]? with
      | none => rfl
      | some o =>
        cases o with
        | none => rfl
        | some b => exact absurd hs (h b)
    split_ifs with hj
    · subst hj; simp [hk]
    · rfl

theorem get_remove (s : FreeListSlab α) (k j : ℕ) :
    (s.remove k).get j = if j = k then none else s.get j := by
  unfold get remove
  split
  · next b h =>
    obtain ⟨hlt,_⟩ := List.getElem?_eq_some_iff.mp h
    by_cases hj : k = j
    · subst hj; simp [hlt]
    · simp [List.getElem?_set_ne hj,Ne.symm hj]
  · next h =>
    split_ifs with hj
    · subst hj
      cases hs : s.slots[j]? with
      | none => rfl
      | some o =>
        cases o with
        | none => rfl
        | some b => exact absurd hs (h b)
    · rfl

theorem mem_iter (s : FreeListSlab α) (k : ℕ) (a : α) : (k,a) ∈ s.iter ↔ s.get k = some a := by
  simp only [iter,List.mem_filterMap,get]
  constructor
  · rintro ⟨⟨o,i⟩,he,hm⟩
    obtain ⟨b,hb,heq⟩ := Option.map_eq_some_iff.mp hm
    cases heq
    simp only at hb
    subst hb
    rw [List.mem_zipIdx_iff_getElem?] at he
    simp only at he
    simp [he]
  · intro h
    refine ⟨(some a,k),?_,rfl⟩
    rw [List.mem_zipIdx_iff_getElem?]
    exact Option.join_eq_some_iff.mp h

theorem iter_sorted (s : FreeListSlab α) : s.iter.Pairwise fun x y => x.1 < y.1 := by
  have hz : (s.slots.zipIdx).Pairwise fun x y => x.2 < y.2 := by
    have hr := List.pairwise_lt_range' (s := 0) (n := s.slots.length)
    rw [← List.zipIdx_map_snd,List.pairwise_map] at hr
    exact hr
  refine (List.pairwise_filterMap.mpr (hz.imp ?_))
  rintro ⟨o,i⟩ ⟨p,j⟩ hij b hb c hc
  obtain ⟨_,_,rfl⟩ := Option.map_eq_some_iff.mp hb
  obtain ⟨_,_,rfl⟩ := Option.map_eq_some_iff.mp hc
  exact hij

instance : Slab (FreeListSlab α) α where
  empty := empty
  get := get
  vacantKey := vacantKey
  insert := insert
  set := set
  remove := remove
  iter := iter
  get_empty := by intro k; simp [empty,get]
  get_vacantKey := get_vacantKey
  get_insert := get_insert
  get_set := get_set
  get_remove := get_remove
  mem_iter := mem_iter
  iter_sorted := iter_sorted

end FreeListSlab
