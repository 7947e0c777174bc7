import HighPerfTrading.Library.PriceTime
import Mathlib.Algebra.BigOperators.Group.List.Basic
import Mathlib.Algebra.Order.BigOperators.Group.List
import Mathlib.Algebra.Ring.Int.Defs

/-! What a walk does to the side it goes through: it takes the best prices first and the oldest orders of a
price first, and it stops only when the taker is exhausted or all that is within its limit is. -/
namespace PriceTime
namespace Rules
variable {P O : Type*} [DecidableEq P] {R : Rules P O} {within : P → Prop} {A B : Queues P O} {q : ℤ}
  {ts : List (Trade P O)}

/-- The same order, perhaps smaller. -/
def Shrunk (R : Rules P O) (x x' : O) : Prop := x' = x ∨ ∃ n, x' = R.take x n

/-- A taker with nothing left makes no trade. -/
theorem Walk.of_nonpos (h : R.Walk within A q ts B) (hq : q ≤ 0) : ts = [] ∧ B = A := by
  cases h with
  | exhausted _ => exact ⟨rfl,rfl⟩
  | beyond _ => exact ⟨rfl,rfl⟩
  | trade hpos => omega

omit [DecidableEq P] in
/-- A trade fills the order at the head, which leaves, or it exhausts the taker. -/
theorem leave_cases (R : Rules P O) (o : O) (q : ℤ) (os : List O) :
    (min q (R.qty o) = R.qty o ∧ R.leave o (min q (R.qty o)) os = os) ∨
      q-min q (R.qty o) = 0 ∧ R.leave o (min q (R.qty o)) os = R.take o (min q (R.qty o))::os := by
  by_cases h : R.qty o = min q (R.qty o)
  · exact Or.inl ⟨h.symm,if_pos h⟩
  · exact Or.inr ⟨by omega,if_neg h⟩

namespace Walk

/-- A trade is for all of the order or for all that the taker has left. -/
theorem trade_qty (h : R.Walk within A q ts B) {t : Trade P O} (ht : t ∈ ts) :
    ∃ left, 0 < left ∧ t.qty = min left (R.qty t.maker) := by
  induction h with
  | exhausted _ => cases ht
  | beyond _ => cases ht
  | @trade A q p o os ts B hq _ _ _ _ ih =>
    rcases List.mem_cons.mp ht with rfl | ht
    · exact ⟨q,hq,rfl⟩
    · exact ih ht

/-- The maker of a trade is an order as the walk found it. -/
theorem maker_mem (h : R.Walk within A q ts B) {t : Trade P O} (ht : t ∈ ts) : t.maker ∈ A t.price := by
  induction h with
  | exhausted _ => cases ht
  | beyond _ => cases ht
  | @trade A q p o os ts B _ _ _ ho tail ih =>
    rcases List.mem_cons.mp ht with rfl | ht
    · rw [ho]
      exact List.mem_cons_self ..
    rcases R.leave_cases o q os with ⟨-,hleave⟩ | ⟨hzero,-⟩
    · have hmem := ih ht
      rw [hleave] at hmem
      by_cases hp : t.price = p
      · rw [hp,Function.update_self] at hmem
        rw [hp,ho]
        exact List.mem_cons_of_mem _ hmem
      · rwa [Function.update_of_ne hp] at hmem
    · rw [(tail.of_nonpos (by omega)).1] at ht
      cases ht

/-- The trades are within the limit, and the best price comes first. -/
theorem prices (h : R.Walk within A q ts B) :
    (∀ t ∈ ts, within t.price) ∧ ts.Pairwise fun t u => R.before t.price u.price := by
  induction h with
  | exhausted _ => exact ⟨by simp,.nil⟩
  | beyond _ => exact ⟨by simp,.nil⟩
  | @trade A q p o os ts B hq hbest hw ho tail ih =>
    refine ⟨fun t ht => ?_,List.pairwise_cons.mpr ⟨fun u hu => ?_,ih.2⟩⟩
    · rcases List.mem_cons.mp ht with rfl | ht
      · exact hw
      · exact ih.1 t ht
    · have hmaker := (Walk.trade hq hbest hw ho tail).maker_mem (List.mem_cons_of_mem _ hu)
      exact hbest.2 u.price (List.ne_nil_of_mem hmaker)

/-- An order that rests at the price of a trade but behind the orders of `xs`, or at a worse price, is served only
once all of the order in front has been. -/
theorem served_before (anti : ∀ a b, R.before a b → R.before b a → a = b) (h : R.Walk within A q ts B)
    {us vs : List (Trade P O)} {t : Trade P O} (hts : ts = us ++ t::vs) {p : P} {xs ys : List O} {x : O}
    (hA : A p = xs ++ x::ys) (hp : R.before p t.price) (hlate : t.price = p → t.maker ∉ xs ++ [x]) :
    ∃ u ∈ us, u.price = p ∧ u.maker = x ∧ u.qty = R.qty x := by
  induction h generalizing us xs with
  | exhausted _ => simp at hts
  | beyond _ => simp at hts
  | @trade A q p' o os ts B hq hbest hw ho tail ih =>
    cases us with
    | nil =>
      obtain ⟨rfl,-⟩ := List.cons.inj hts
      have hmine := hbest.2 p (by simp [hA])
      obtain rfl := anti _ _ hp hmine
      -- the maker is the first order of the queue
      rw [ho] at hA
      refine absurd ?_ (hlate rfl)
      cases xs with
      | nil =>
        obtain ⟨rfl,-⟩ := List.cons.inj hA
        exact List.mem_singleton_self _
      | cons z xs =>
        obtain ⟨rfl,-⟩ := List.cons.inj hA
        exact List.mem_cons_self ..
    | cons u us =>
      obtain ⟨rfl,htail⟩ := List.cons.inj hts
      rcases R.leave_cases o q os with ⟨hfull,hleave⟩ | ⟨hzero,-⟩
      swap
      · rw [(tail.of_nonpos (by omega)).1] at htail
        simp at htail
      rw [hleave] at ih
      by_cases hp' : p' = p
      · subst hp'
        rw [ho] at hA
        cases xs with
        | nil =>
          obtain ⟨rfl,-⟩ := List.cons.inj hA
          exact ⟨_,List.mem_cons_self ..,rfl,rfl,hfull⟩
        | cons z xs =>
          obtain ⟨rfl,hos⟩ := List.cons.inj hA
          obtain ⟨u,hu,hrest⟩ := ih htail ((Function.update_self ..).trans hos) fun he hm =>
            hlate he (List.mem_cons_of_mem _ hm)
          exact ⟨u,List.mem_cons_of_mem _ hu,hrest⟩
      · obtain ⟨u,hu,hrest⟩ := ih htail (by rw [Function.update_of_ne (Ne.symm hp'),hA]) hlate
        exact ⟨u,List.mem_cons_of_mem _ hu,hrest⟩

/-- An order is served completely, or it stays, with no others before it than before. -/
theorem stays (h : R.Walk within A q ts B) {p : P} {xs ys : List O} {x : O} (hA : A p = xs ++ x::ys) :
    (∃ t ∈ ts, t.price = p ∧ t.maker = x ∧ t.qty = R.qty x) ∨
      ∃ xs' x', B p = xs' ++ x'::ys ∧ Shrunk R x x' ∧ ∀ z' ∈ xs', ∃ z ∈ xs, Shrunk R z z' := by
  induction h generalizing xs with
  | exhausted _ => exact Or.inr ⟨xs,x,hA,Or.inl rfl,fun z hz => ⟨z,hz,Or.inl rfl⟩⟩
  | beyond _ => exact Or.inr ⟨xs,x,hA,Or.inl rfl,fun z hz => ⟨z,hz,Or.inl rfl⟩⟩
  | @trade A q p' o os ts B hq hbest hw ho tail ih =>
    by_cases hp : p' = p
    swap
    · rcases ih (by rw [Function.update_of_ne (Ne.symm hp),hA]) with ⟨t,ht,hrest⟩ | hstays
      · exact Or.inl ⟨t,List.mem_cons_of_mem _ ht,hrest⟩
      · exact Or.inr hstays
    subst hp
    rw [ho] at hA
    rcases R.leave_cases o q os with ⟨hfull,hleave⟩ | ⟨hzero,hleave⟩
    · rw [hleave] at ih
      cases xs with
      | nil =>
        obtain ⟨rfl,-⟩ := List.cons.inj hA
        exact Or.inl ⟨_,List.mem_cons_self ..,rfl,rfl,hfull⟩
      | cons z xs =>
        obtain ⟨rfl,hos⟩ := List.cons.inj hA
        rcases ih ((Function.update_self ..).trans hos) with ⟨t,ht,hrest⟩ | ⟨xs',x',hB,hx,hxs⟩
        · exact Or.inl ⟨t,List.mem_cons_of_mem _ ht,hrest⟩
        · refine Or.inr ⟨xs',x',hB,hx,fun z' hz' => ?_⟩
          obtain ⟨z,hz,hshrunk⟩ := hxs z' hz'
          exact ⟨z,List.mem_cons_of_mem _ hz,hshrunk⟩
    · rw [(tail.of_nonpos (by omega)).2,Function.update_self,hleave]
      cases xs with
      | nil =>
        obtain ⟨rfl,rfl⟩ := List.cons.inj hA
        exact Or.inr ⟨[],_,rfl,Or.inr ⟨_,rfl⟩,by simp⟩
      | cons z xs =>
        obtain ⟨rfl,rfl⟩ := List.cons.inj hA
        refine Or.inr ⟨R.take o (min q (R.qty o))::xs,x,rfl,Or.inl rfl,fun z' hz' => ?_⟩
        rcases List.mem_cons.mp hz' with rfl | hz'
        · exact ⟨o,List.mem_cons_self ..,Or.inr ⟨_,rfl⟩⟩
        · exact ⟨z',List.mem_cons_of_mem _ hz',Or.inl rfl⟩

end Walk

/-! ### What a taker gets -/

/-- Any two prices are ranked, and a trade makes an order smaller by what has been traded. -/
structure Lawful (R : Rules P O) : Prop where
  total : ∀ a b, R.before a b ∨ R.before b a
  trans : ∀ {a b c}, R.before a b → R.before b c → R.before a c
  take : ∀ o n, 0 ≤ n → n ≤ R.qty o → R.qty (R.take o n) = R.qty o-n

/-- All that rests at some prices. -/
def available (R : Rules P O) (A : Queues P O) (ps : List P) : ℤ := (ps.map fun p => ((A p).map R.qty).sum).sum

omit [DecidableEq P] in
/-- Of the prices with a property, one is before all others. -/
theorem Lawful.exists_first (hR : R.Lawful) (Q : P → Prop) {ps : List P} (h : ∃ p ∈ ps, Q p) :
    ∃ p ∈ ps, Q p ∧ ∀ q ∈ ps, Q q → R.before p q := by
  induction ps with
  | nil => simp at h
  | cons a ps ih =>
    by_cases hrest : ∃ p ∈ ps, Q p
    · obtain ⟨p,hp,hQ,hfirst⟩ := ih hrest
      by_cases ha : Q a ∧ R.before a p
      · refine ⟨a,List.mem_cons_self ..,ha.1,fun q hq hQq => ?_⟩
        rcases List.mem_cons.mp hq with rfl | hq
        · exact (hR.total q q).elim id id
        · exact hR.trans ha.2 (hfirst q hq hQq)
      · refine ⟨p,List.mem_cons_of_mem _ hp,hQ,fun q hq hQq => ?_⟩
        rcases List.mem_cons.mp hq with rfl | hq
        · exact (hR.total p q).resolve_right fun hqp => ha ⟨hQq,hqp⟩
        · exact hfirst q hq hQq
    · obtain ⟨p,hp,hQ⟩ := h
      have hnone : ∀ q ∈ ps, ¬ Q q := fun q hq hQq => hrest ⟨q,hq,hQq⟩
      rcases List.mem_cons.mp hp with rfl | hp
      · refine ⟨p,List.mem_cons_self ..,hQ,fun q hq hQq => ?_⟩
        rcases List.mem_cons.mp hq with rfl | hq
        · exact (hR.total q q).elim id id
        · exact absurd hQq (hnone q hq)
      · exact absurd hQ (hnone p hp)

theorem available_update (A : Queues P O) {ps : List P} (hn : ps.Nodup) {p : P} (hp : p ∈ ps) (os : List O) :
    R.available (Function.update A p os) ps = R.available A ps-((A p).map R.qty).sum+(os.map R.qty).sum := by
  unfold available
  induction ps with
  | nil => cases hp
  | cons a ps ih =>
    obtain ⟨ha,hps⟩ := List.nodup_cons.mp hn
    rw [List.map_cons,List.sum_cons,List.map_cons,List.sum_cons]
    by_cases he : p = a
    · subst he
      have hsame : (ps.map fun q => ((Function.update A p os q).map R.qty).sum) = ps.map fun q => ((A q).map R.qty).sum :=
        List.map_congr_left fun q hq => by rw [Function.update_of_ne (fun he : q = p => ha (he ▸ hq))]
      rw [hsame,Function.update_self]
      omega
    · rw [ih hps ((List.mem_cons.mp hp).resolve_left he),Function.update_of_ne (Ne.symm he)]
      omega

omit [DecidableEq P] in
/-- A trade takes its quantity from a price. -/
theorem Lawful.sum_leave (hR : R.Lawful) {o : O} {n : ℤ} (hn : 0 ≤ n) (hle : n ≤ R.qty o) (os : List O) :
    ((R.leave o n os).map R.qty).sum = ((o::os).map R.qty).sum-n := by
  rw [List.map_cons,List.sum_cons]
  unfold leave
  split_ifs with h
  · omega
  · rw [List.map_cons,List.sum_cons,hR.take o n hn hle]
    omega

/-- A taker gets what there is within its limit, up to its size. `ps` are the prices within the limit at which
orders rest. -/
theorem Walk.traded (hR : R.Lawful) (hwithin : ∀ {a b}, R.before a b → within b → within a) {ps : List P}
    (hn : ps.Nodup) (hin : ∀ p ∈ ps, within p) (h : R.Walk within A q ts B) (hq : 0 ≤ q)
    (hps : ∀ p, A p ≠ [] → within p → p ∈ ps) (hpos : ∀ p, ∀ o ∈ A p, 0 < R.qty o) :
    (ts.map Trade.qty).sum = min q (R.available A ps) := by
  induction h with
  | @exhausted A q h =>
    have hsum : 0 ≤ R.available A ps := List.sum_nonneg fun n hm => by
      obtain ⟨p,-,rfl⟩ := List.mem_map.mp hm
      refine List.sum_nonneg fun m hm => ?_
      obtain ⟨o,ho,rfl⟩ := List.mem_map.mp hm
      exact (hpos p o ho).le
    rw [List.map_nil,List.sum_nil]
    omega
  | @beyond A q h =>
    have hempty : ∀ p ∈ ps, A p = [] := by
      by_contra hne
      obtain ⟨p,hp,hA⟩ : ∃ p ∈ ps, A p ≠ [] := by simpa using hne
      obtain ⟨p,hp,hA,hfirst⟩ := hR.exists_first (fun p => A p ≠ []) ⟨p,hp,hA⟩
      refine h p ⟨hA,fun r hr => ?_⟩ (hin p hp)
      -- what is not before the best price within the limit is within the limit itself
      refine (hR.total p r).elim id fun hrp => ?_
      exact hfirst r (hps r hr (hwithin hrp (hin p hp))) hr
    have hzero : R.available A ps = 0 := by
      refine List.sum_eq_zero fun n hm => ?_
      obtain ⟨p,hp,rfl⟩ := List.mem_map.mp hm
      rw [hempty p hp]
      rfl
    rw [List.map_nil,List.sum_nil,hzero]
    omega
  | @trade A q p o os ts B hq' hbest hw ho tail ih =>
    have hmem : o ∈ A p := ho ▸ List.mem_cons_self ..
    have hopos := hpos p o hmem
    have htrade : 0 ≤ min q (R.qty o) := by omega
    have hle : min q (R.qty o) ≤ R.qty o := by omega
    have hrest := available_update (R := R) A hn (hps p hbest.1 hw) (R.leave o (min q (R.qty o)) os)
    rw [hR.sum_leave htrade hle,← ho] at hrest
    rw [List.map_cons,List.sum_cons,ih (by omega) ?_ ?_,hrest]
    · change min q (R.qty o)+_ = _
      omega
    · intro r hr hwr
      by_cases he : r = p
      · exact he ▸ hps p hbest.1 hw
      · rw [Function.update_of_ne he] at hr
        exact hps r hr hwr
    · intro r z hz
      by_cases he : r = p
      · rw [he,Function.update_self,leave] at hz
        split_ifs at hz with hfull
        · exact hpos p z (ho ▸ List.mem_cons_of_mem _ hz)
        · rcases List.mem_cons.mp hz with rfl | hz
          · rw [hR.take o _ htrade hle]
            omega
          · exact hpos p z (ho ▸ List.mem_cons_of_mem _ hz)
      · rw [Function.update_of_ne he] at hz
        exact hpos r z hz

end Rules
end PriceTime
