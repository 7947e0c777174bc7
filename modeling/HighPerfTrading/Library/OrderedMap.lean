import Std.Data.ExtTreeMap.Lemmas
import Mathlib.Algebra.BigOperators.Group.List.Basic
import Mathlib.Algebra.Order.BigOperators.Group.List
import Mathlib.Algebra.Order.Group.Int
import Mathlib.Algebra.Ring.Int.Defs
import Mathlib.Data.List.Nodup
import Mathlib.Order.Basic

/-! Finite maps kept in key order: the two ends, and sums over all entries. -/

/-- A finite map that lists its entries in increasing key order. -/
abbrev OrdMap (K V : Type) [Ord K] := Std.ExtTreeMap K V compare

namespace OrdMap
variable {K V : Type} [Ord K] [Std.TransOrd K] [Std.LawfulEqOrd K]

@[simp] theorem get_insert (m : OrdMap K V) (k a : K) (v : V) [DecidableEq K] :
    (m.insert k v)[a]? = if k = a then some v else m[a]? := by
  simp [Std.ExtTreeMap.getElem?_insert]

@[simp] theorem get_erase (m : OrdMap K V) (k a : K) [DecidableEq K] :
    (m.erase k)[a]? = if k = a then none else m[a]? := by
  simp [Std.ExtTreeMap.getElem?_erase]

theorem ext {m n : OrdMap K V} (h : ∀ k : K, m[k]? = n[k]?) : m = n :=
  Std.ExtTreeMap.ext_getElem? h

theorem insert_eq_self [DecidableEq K] {m : OrdMap K V} {k : K} {v : V} :
    m.insert k v = m ↔ m[k]? = some v := by
  constructor
  · intro h
    rw [← h,get_insert,if_pos rfl]
  · intro h
    refine ext fun i => ?_
    rw [get_insert]
    split_ifs with hi
    · rw [← hi,h]
    · rfl

instance (m : OrdMap K V) : Decidable (m = ∅) := decidable_of_iff (m.isEmpty = true) Std.ExtTreeMap.isEmpty_iff

def first? (m : OrdMap K V) : Option (K × V) := m.toList.head?
def last? (m : OrdMap K V) : Option (K × V) := m.toList.getLast?

theorem mem_toList {m : OrdMap K V} {k : K} {v : V} : (k,v) ∈ m.toList ↔ m[k]? = some v :=
  Std.ExtTreeMap.mem_toList_iff_getElem?_eq_some

theorem nodup_toList (m : OrdMap K V) : m.toList.Nodup := by
  refine (Std.ExtTreeMap.ordered_keys_toList (t := m)).imp ?_
  rintro a _ h rfl
  simp at h

theorem first?_eq_some {m : OrdMap K V} {k : K} {v : V} (h : m.first? = some (k,v)) :
    m[k]? = some v ∧ ∀ (a : K) (w : V), m[a]? = some w → a ≠ k → compare k a = .lt := by
  obtain ⟨rest,hl⟩ := List.head?_eq_some_iff.mp h
  have ho := Std.ExtTreeMap.ordered_keys_toList (t := m)
  rw [hl,List.pairwise_cons] at ho
  refine ⟨mem_toList.mp (by simp [hl]),fun a w ha hne => ?_⟩
  have hm := mem_toList.mpr ha
  rw [hl,List.mem_cons] at hm
  rcases hm with hm | hm
  · exact absurd (congrArg Prod.fst hm) hne
  · exact ho.1 _ hm

theorem last?_eq_some {m : OrdMap K V} {k : K} {v : V} (h : m.last? = some (k,v)) :
    m[k]? = some v ∧ ∀ (a : K) (w : V), m[a]? = some w → a ≠ k → compare a k = .lt := by
  obtain ⟨rest,hl⟩ := List.getLast?_eq_some_iff.mp h
  have ho := Std.ExtTreeMap.ordered_keys_toList (t := m)
  rw [hl,List.pairwise_append] at ho
  refine ⟨mem_toList.mp (by simp [hl]),fun a w ha hne => ?_⟩
  have hm := mem_toList.mpr ha
  rw [hl,List.mem_append] at hm
  rcases hm with hm | hm
  · exact ho.2.2 _ hm (k,v) (by simp)
  · exact absurd (congrArg Prod.fst (List.mem_singleton.mp hm)) hne

theorem first?_eq_none {m : OrdMap K V} : m.first? = none ↔ ∀ k : K, m[k]? = none := by
  rw [first?,List.head?_eq_none_iff]
  constructor
  · intro h k
    cases hk : m[k]? with
    | none => rfl
    | some v => simpa [h] using mem_toList.mpr hk
  · intro h
    refine List.eq_nil_iff_forall_not_mem.mpr (fun e he => ?_)
    have he' : m[e.1]? = some e.2 := mem_toList.mp he
    simp [h e.1] at he'

theorem last?_eq_none {m : OrdMap K V} : m.last? = none ↔ ∀ k : K, m[k]? = none := by
  rw [← first?_eq_none,last?,first?,List.getLast?_eq_none_iff,List.head?_eq_none_iff]

/-- The last entry is the one no other key exceeds. -/
theorem last?_iff {m : OrdMap K V} {k : K} {v : V} : m.last? = some (k,v) ↔
    m[k]? = some v ∧ ∀ (a : K) (w : V), m[a]? = some w → a ≠ k → compare a k = .lt := by
  constructor
  · exact last?_eq_some
  · rintro ⟨hk,hmax⟩
    cases hl : m.last? with
    | none =>
      rw [last?_eq_none.mp hl k] at hk
      cases hk
    | some e =>
      obtain ⟨he,hle⟩ := last?_eq_some hl
      by_cases hek : e.1 = k
      · rw [hek,hk] at he
        rw [← hek,Option.some.inj he]
      · have h1 := hmax e.1 e.2 he hek
        have h2 := hle k v hk (Ne.symm hek)
        rw [Std.OrientedOrd.eq_swap,h2] at h1
        cases h1

/-- A new entry becomes the last one, or the last one stays. -/
theorem last?_insert [DecidableEq K] (m : OrdMap K V) (k : K) (v : V) :
    last? (m.insert k v) = some (k,v) ∨
      last? (m.insert k v) = last? m ∧ ∀ w, last? m ≠ some (k,w) := by
  cases hl : m.last? with
  | none =>
    left
    refine last?_iff.mpr ⟨by simp,fun a w ha hne => ?_⟩
    rw [get_insert,if_neg (Ne.symm hne),last?_eq_none.mp hl a] at ha
    cases ha
  | some e =>
    obtain ⟨he,hmax⟩ := last?_eq_some hl
    by_cases hlt : compare k e.1 = .lt
    · right
      have hne : k ≠ e.1 := by rintro rfl; simp at hlt
      refine ⟨?_,fun w hw => hne (congrArg Prod.fst (Option.some.inj hw)).symm⟩
      refine last?_iff.mpr ⟨by rw [get_insert,if_neg hne,he],fun a w ha hae => ?_⟩
      rw [get_insert] at ha
      split_ifs at ha with hka
      · rw [← hka]; exact hlt
      · exact hmax a w ha hae
    · left
      refine last?_iff.mpr ⟨by simp,fun a w ha hak => ?_⟩
      rw [get_insert,if_neg (Ne.symm hak)] at ha
      have hke : (compare e.1 k).isLE := by
        rw [Std.OrientedOrd.eq_swap]
        cases hc : compare k e.1 with
        | lt => exact absurd hc hlt
        | eq => rfl
        | gt => rfl
      by_cases hae : a = e.1
      · have hne : compare e.1 k ≠ .eq := fun h => hak (hae.trans (Std.LawfulEqOrd.eq_of_compare h))
        rw [hae]
        cases hc : compare e.1 k with
        | lt => rfl
        | eq => exact absurd hc hne
        | gt => rw [hc] at hke; cases hke
      · exact Std.TransCmp.lt_of_lt_of_isLE (hmax a w ha hae) hke

theorem last?_insert_max [DecidableEq K] {m : OrdMap K V} {k : K} (v : V)
    (h : ∀ (a : K) w, m[a]? = some w → a ≠ k → compare a k = .lt) : last? (m.insert k v) = some (k,v) := by
  refine last?_iff.mpr ⟨by simp,fun a w ha hne => ?_⟩
  rw [get_insert,if_neg (Ne.symm hne)] at ha
  exact h a w ha hne

/-- A key below one that is there leaves the last entry. -/
theorem last?_insert_below [DecidableEq K] {m : OrdMap K V} {k a : K} {w : V} (v : V) (ha : m[a]? = some w)
    (hlt : compare k a = .lt) : last? (m.insert k v) = last? m := by
  have hne : k ≠ a := by rintro rfl; simp at hlt
  rcases last?_insert m k v with hlast | ⟨hlast,-⟩
  · have hgt := (last?_eq_some hlast).2 a w (by rw [get_insert,if_neg hne,ha]) (Ne.symm hne)
    rw [Std.OrientedOrd.eq_swap,hlt] at hgt
    cases hgt
  · exact hlast

theorem keys_nodup (m : OrdMap K V) : (m.toList.map Prod.fst).Nodup := by
  rw [List.Nodup,List.pairwise_map]
  refine (Std.ExtTreeMap.ordered_keys_toList (t := m)).imp ?_
  rintro a b h he
  rw [he] at h
  simp at h

/-- The entries are the sorted list that has them all. -/
theorem toList_eq {m : OrdMap K V} {es : List (K × V)} (hsorted : es.Pairwise fun d e => compare d.1 e.1 = .lt)
    (h : ∀ (k : K) v, (k,v) ∈ es ↔ m[k]? = some v) : m.toList = es := by
  have hnodup : es.Nodup := hsorted.imp fun {d e} hlt heq => by
    rw [heq] at hlt
    simp at hlt
  have hperm : m.toList.Perm es := (List.perm_ext_iff_of_nodup (nodup_toList m) hnodup).mpr fun ⟨k,v⟩ => by
    rw [mem_toList,h]
  refine hperm.eq_of_pairwise (fun d e _ _ (hde : compare d.1 e.1 = .lt) hed => ?_)
    Std.ExtTreeMap.ordered_keys_toList hsorted
  rw [Std.OrientedOrd.eq_swap,hde] at hed
  cases hed

/-- An entry whose key exceeds all others comes last. -/
theorem toList_insert_last [DecidableEq K] {m : OrdMap K V} {k : K} (v : V)
    (h : ∀ (a : K) w, m[a]? = some w → compare a k = .lt) : (m.insert k v).toList = m.toList ++ [(k,v)] := by
  refine toList_eq ?_ fun a w => ?_
  · refine List.pairwise_append.mpr ⟨Std.ExtTreeMap.ordered_keys_toList,List.pairwise_singleton _ _,fun d hd e he => ?_⟩
    rw [List.mem_singleton.mp he]
    exact h d.1 d.2 (mem_toList.mp hd)
  · rw [List.mem_append,List.mem_singleton,mem_toList,get_insert]
    by_cases hk : k = a
    · have hnone : m[a]? ≠ some w := fun ha => by simpa [hk] using h a w ha
      simp [hk,hnone,eq_comm]
    · simp [hk,Ne.symm hk]

theorem get_foldl_erase [DecidableEq K] (es : List (K × V)) (m : OrdMap K V) (k : K) :
    (es.foldl (fun m e => m.erase e.1) m)[k]? = if k ∈ es.map Prod.fst then none else m[k]? := by
  induction es generalizing m with
  | nil => simp
  | cons e es ih =>
    rw [List.foldl_cons,ih,get_erase]
    by_cases h : k ∈ es.map Prod.fst
    · simp [h]
    · by_cases he : e.1 = k
      · simp [he]
      · simp [h,he,Ne.symm he]

/-- Erasing the first entries leaves the others. -/
theorem toList_erase_take [DecidableEq K] (m : OrdMap K V) (n : ℕ) :
    ((m.toList.take n).foldl (fun m e => m.erase e.1) m).toList = m.toList.drop n := by
  have hkeys := keys_nodup m
  rw [← List.take_append_drop n m.toList,List.map_append,List.nodup_append] at hkeys
  refine toList_eq (Std.ExtTreeMap.ordered_keys_toList.sublist (List.drop_sublist _ _)) fun k v => ?_
  rw [get_foldl_erase]
  constructor
  · intro hmem
    have hnot : k ∉ (m.toList.take n).map Prod.fst := fun hk => hkeys.2.2 k hk k (List.mem_map_of_mem hmem) rfl
    rw [if_neg hnot]
    exact mem_toList.mp (List.mem_of_mem_drop hmem)
  · intro hget
    split_ifs at hget with hk
    have hmem := mem_toList.mpr hget
    rw [← List.take_append_drop n m.toList] at hmem
    rcases List.mem_append.mp hmem with htake | hdrop
    · exact absurd (List.mem_map_of_mem htake) hk
    · exact hdrop

theorem lookup_of_mem [DecidableEq K] {es : List (K × V)} (hes : (es.map Prod.fst).Nodup) {k : K} {v : V}
    (h : (k,v) ∈ es) : es.lookup k = some v := by
  induction es with
  | nil => cases h
  | cons e es ih =>
    obtain ⟨hnot,hnodup⟩ := List.nodup_cons.mp hes
    rw [List.lookup_cons]
    cases List.mem_cons.mp h with
    | inl h => rw [← h]; simp
    | inr h =>
      have hb : (k == e.1) = false := beq_eq_false_iff_ne.mpr fun heq => hnot (heq ▸ List.mem_map_of_mem h)
      rw [hb]
      exact ih hnodup h

theorem lookup_toList [DecidableEq K] (m : OrdMap K V) (k : K) : m.toList.lookup k = m[k]? := by
  cases h : m[k]? with
  | some v => exact lookup_of_mem (keys_nodup m) (mem_toList.mpr h)
  | none =>
    refine List.lookup_eq_none_iff.mpr fun e he => bne_iff_ne.mpr ?_
    rintro rfl
    rw [mem_toList.mp he] at h
    cases h

/-- A map is the list of its entries. -/
theorem ofList_toList (m : OrdMap K V) : Std.ExtTreeMap.ofList m.toList compare = m := by
  refine ext fun k => ?_
  cases h : m[k]? with
  | some v =>
    exact Std.ExtTreeMap.getElem?_ofList_of_mem Std.ReflCmp.compare_self
      Std.ExtTreeMap.distinct_keys_toList (mem_toList.mpr h)
  | none =>
    classical
    refine Std.ExtTreeMap.getElem?_ofList_of_contains_eq_false ?_
    rw [List.contains_eq_mem,decide_eq_false_iff_not,List.mem_map]
    rintro ⟨e,he,rfl⟩
    exact absurd (h.symm.trans (mem_toList.mp he)) (by simp)

/-- Of entries inserted one after the other the last under a key counts. -/
theorem get_foldl_insert [DecidableEq K] {α : Type} (f : α → K) (g : α → V) (es : List α) (m : OrdMap K V) (k : K) :
    (es.foldl (fun m e => m.insert (f e) (g e)) m)[k]? =
      ((es.reverse.find? fun e => f e = k).map g).or m[k]? := by
  induction es generalizing m with
  | nil => simp
  | cons e es ih =>
    rw [List.foldl_cons,ih,get_insert,List.reverse_cons,List.find?_append]
    cases es.reverse.find? fun e => f e = k with
    | some found => simp
    | none =>
      by_cases h : f e = k
      · simp [h]
      · simp [h]

/-- The sum of a quantity over all entries. -/
def sumEntries {A : Type} [AddCommMonoid A] (f : K → V → A) (m : OrdMap K V) : A :=
  (m.toList.map fun e => f e.1 e.2).sum

section Sums
variable {A : Type} [AddCommMonoid A] (f : K → V → A)

@[simp] theorem sumEntries_empty : sumEntries f (∅ : OrdMap K V) = 0 := by
  have h : (∅ : OrdMap K V).toList = [] :=
    List.eq_nil_iff_forall_not_mem.mpr fun e he => by simpa using mem_toList.mp he
  simp [sumEntries,h]

theorem toList_insert_perm [DecidableEq K] (m : OrdMap K V) (k : K) (v : V) :
    (m.insert k v).toList.Perm ((k,v) :: (m.erase k).toList) := by
  refine (List.perm_ext_iff_of_nodup (nodup_toList _) ?_).mpr ?_
  · refine List.nodup_cons.mpr ⟨?_,nodup_toList _⟩
    simp
  · rintro ⟨a,w⟩
    rw [List.mem_cons,mem_toList,mem_toList,get_insert,get_erase]
    by_cases h : k = a
    · subst h; simp [eq_comm]
    · simp [h,Ne.symm h]

theorem sumEntries_insert [DecidableEq K] (m : OrdMap K V) (k : K) (v : V) :
    sumEntries f (m.insert k v) = f k v + sumEntries f (m.erase k) := by
  simpa [sumEntries] using ((toList_insert_perm m k v).map fun e => f e.1 e.2).sum_eq

theorem sumEntries_erase [DecidableEq K] {m : OrdMap K V} {k : K} {v : V} (h : m[k]? = some v) :
    sumEntries f m = f k v + sumEntries f (m.erase k) := by
  have he : m.insert k v = m := by
    refine ext fun a => ?_
    rw [get_insert]
    split_ifs with hk
    · rw [← hk,h]
    · rfl
  rw [← sumEntries_insert,he]

theorem erase_of_get_none [DecidableEq K] {m : OrdMap K V} {k : K} (h : m[k]? = none) : m.erase k = m := by
  refine ext fun a => ?_
  rw [get_erase]
  split_ifs with hk
  · rw [← hk,h]
  · rfl

end Sums

theorem sum_le_sumEntries {W : Type} [DecidableEq K] {f : K → V → ℤ} {g : K → W → ℤ} {es : List (K × V)}
    (hes : (es.map Prod.fst).Nodup) {n : OrdMap K W} (hg : ∀ (k : K) w, n[k]? = some w → 0 ≤ g k w)
    (h : ∀ e ∈ es, f e.1 e.2 ≤ (n[e.1]?).elim 0 (g e.1)) :
    (es.map fun e => f e.1 e.2).sum ≤ sumEntries g n := by
  induction es generalizing n with
  | nil =>
    refine List.sum_nonneg fun x hx => ?_
    obtain ⟨⟨k,w⟩,hkw,rfl⟩ := List.mem_map.mp hx
    exact hg k w (mem_toList.mp hkw)
  | cons e es ih =>
    obtain ⟨hnot,hnodup⟩ := List.nodup_cons.mp hes
    have he := h e (List.mem_cons_self ..)
    -- the entry under this key is used up
    have hrest : (es.map fun e => f e.1 e.2).sum ≤ sumEntries g (n.erase e.1) := by
      refine ih hnodup ?_ fun d hd => ?_
      · intro k w hk
        rw [get_erase] at hk
        split_ifs at hk
        exact hg k w hk
      · have hne : e.1 ≠ d.1 := fun heq => hnot (heq ▸ List.mem_map_of_mem hd)
        rw [get_erase,if_neg hne]
        exact h d (List.mem_cons_of_mem _ hd)
    rw [List.map_cons,List.sum_cons]
    cases hn : n[e.1]? with
    | none =>
      rw [hn,Option.elim_none] at he
      rw [erase_of_get_none hn] at hrest
      omega
    | some w =>
      rw [hn,Option.elim_some] at he
      rw [sumEntries_erase g hn]
      omega

/-! ### Sums over lists with keys -/

theorem sum_filter_ne_zero {A α : Type} [AddCommMonoid A] [DecidableEq A] (u : α → A) (xs : List α) :
    ((xs.filter fun x => u x ≠ 0).map u).sum = (xs.map u).sum := by
  induction xs with
  | nil => rfl
  | cons x xs ih =>
    by_cases hx : u x = 0
    · simpa [hx] using ih
    · rw [List.filter_cons_of_pos (by simpa using hx),List.map_cons,List.map_cons,List.sum_cons,List.sum_cons,ih]

omit [Ord K] [Std.TransOrd K] [Std.LawfulEqOrd K] in
/-- Two lists whose keys are distinct have one sum when they agree on the summands that are not zero. -/
theorem sum_eq_of_keys {A α β : Type} [AddCommMonoid A] [DecidableEq A] {xs : List α} {ys : List β} {f : α → K}
    {g : β → K} {u : α → A} {w : β → A} (hxs : (xs.map f).Nodup) (hys : (ys.map g).Nodup)
    (hxy : ∀ x ∈ xs, u x ≠ 0 → ∃ y ∈ ys, g y = f x ∧ w y = u x)
    (hyx : ∀ y ∈ ys, w y ≠ 0 → ∃ x ∈ xs, f x = g y ∧ u x = w y) : (xs.map u).sum = (ys.map w).sum := by
  have hleft := (List.Sublist.map f (List.filter_sublist (p := fun x => u x ≠ 0))).nodup hxs
  have hright := (List.Sublist.map g (List.filter_sublist (p := fun y => w y ≠ 0))).nodup hys
  have hperm : ((xs.filter fun x => u x ≠ 0).map fun x => (f x,u x)).Perm
      ((ys.filter fun y => w y ≠ 0).map fun y => (g y,w y)) := by
    refine (List.perm_ext_iff_of_nodup (.of_map Prod.fst ?_) (.of_map Prod.fst ?_)).mpr fun e => ?_
    · rwa [List.map_map]
    · rwa [List.map_map]
    · simp only [List.mem_map,List.mem_filter,decide_eq_true_eq]
      constructor
      · rintro ⟨x,⟨hx,hne⟩,rfl⟩
        obtain ⟨y,hy,hkey,heq⟩ := hxy x hx hne
        exact ⟨y,⟨hy,heq ▸ hne⟩,by rw [hkey,heq]⟩
      · rintro ⟨y,⟨hy,hne⟩,rfl⟩
        obtain ⟨x,hx,hkey,heq⟩ := hyx y hy hne
        exact ⟨x,⟨hx,heq ▸ hne⟩,by rw [hkey,heq]⟩
  have hsum := (hperm.map Prod.snd).sum_eq
  rw [List.map_map,List.map_map] at hsum
  rw [← sum_filter_ne_zero u xs,← sum_filter_ne_zero w ys]
  exact hsum

/-- Sums bounded term by term are equal when every term is. -/
theorem sum_eq_iff_of_le {α : Type} {f g : α → ℤ} {xs : List α} (h : ∀ x ∈ xs, f x ≤ g x) :
    (xs.map f).sum = (xs.map g).sum ↔ ∀ x ∈ xs, f x = g x := by
  induction xs with
  | nil => simp
  | cons x xs ih =>
    have hx := h x (List.mem_cons_self ..)
    have hxs : ∀ y ∈ xs, f y ≤ g y := fun y hy => h y (List.mem_cons_of_mem _ hy)
    have hle : (xs.map f).sum ≤ (xs.map g).sum := List.sum_le_sum hxs
    rw [List.map_cons,List.map_cons,List.sum_cons,List.sum_cons,List.forall_mem_cons,← ih hxs]
    omega

/-- A sum is bounded entry by entry. -/
theorem sumEntries_le {W : Type} [DecidableEq K] {f : K → V → ℤ} {g : K → W → ℤ} {m : OrdMap K V} {n : OrdMap K W}
    (hg : ∀ (k : K) w, n[k]? = some w → 0 ≤ g k w)
    (h : ∀ (k : K) v, m[k]? = some v → f k v ≤ (n[k]?).elim 0 (g k)) : sumEntries f m ≤ sumEntries g n :=
  sum_le_sumEntries (keys_nodup m) hg fun e he => h e.1 e.2 (mem_toList.mp he)

end OrdMap
