import HighPerfTrading.Engine.BookSnapshot

/-! Sums over the live orders of a book, with any weight, and what the operations do to them. Unique ids
are not needed for this. -/
namespace HighPerfTrading
namespace OrderBook
variable {S : Type} [Slab S Order] {b b' : OrderBook S} {k : ℕ} {o : Order} (w : Order → ℤ)

def liveSum (w : Order → ℤ) (b : OrderBook S) : ℤ := (b.liveOrders.map w).sum

/-- The weight under a key. -/
def keyWeight (w : Order → ℤ) (orders : S) (k : ℕ) : ℤ := (liveAt orders k).elim 0 w

theorem liveSum_nonneg (h : ∀ o, 0 < o.qtyRem → 0 ≤ w o) (b : OrderBook S) : 0 ≤ liveSum w b := by
  refine List.sum_nonneg fun x hx => ?_
  obtain ⟨o,ho,rfl⟩ := List.mem_map.mp hx
  exact h o (liveOrders_pos o ho)

/-- One key stands out of the sum. -/
theorem liveSum_split (b : OrderBook S) (k : ℕ) : liveSum w b =
    ((b.liveEntries.filter fun e => decide (e.1 ≠ k)).map fun e => w e.2).sum+keyWeight w b.orders k := by
  have hsum : liveSum w b = (b.liveEntries.map fun e => w e.2).sum := by
    rw [liveSum,← liveEntries_snd,List.map_map]; rfl
  rw [hsum]
  cases hk : liveAt b.orders k with
  | none =>
    have hall : (b.liveEntries.filter fun e => decide (e.1 ≠ k)) = b.liveEntries := by
      refine List.filter_eq_self.mpr fun e he => decide_eq_true ?_
      rintro rfl
      exact absurd (mem_liveEntries.mp he) (by simp [hk])
    rw [hall,keyWeight,hk,Option.elim_none,add_zero]
  | some o =>
    have hnodup : b.liveEntries.Nodup :=
      b.liveEntries_sorted.imp fun h => by rintro rfl; exact Nat.lt_irrefl _ h
    have hperm : b.liveEntries.Perm ((k,o)::b.liveEntries.filter fun e => decide (e.1 ≠ k)) := by
      refine (List.perm_ext_iff_of_nodup hnodup (List.nodup_cons.mpr ⟨by simp,hnodup.filter _⟩)).mpr fun e => ?_
      rw [List.mem_cons,List.mem_filter,decide_eq_true_eq]
      constructor
      · intro he
        by_cases hek : e.1 = k
        · obtain ⟨j,x⟩ := e
          obtain rfl : j = k := hek
          exact Or.inl (by rw [Option.some.inj ((mem_liveEntries.mp he).symm.trans hk)])
        · exact Or.inr ⟨he,hek⟩
      · rintro (rfl | ⟨he,-⟩)
        · exact mem_liveEntries.mpr hk
        · exact he
    rw [(hperm.map _).sum_eq,List.map_cons,List.sum_cons,keyWeight,hk,Option.elim_some,add_comm]

/-- A change under one key changes the sum by that key's weight. -/
theorem liveSum_change (h : ∀ j, j ≠ k → liveAt b'.orders j = liveAt b.orders j) :
    liveSum w b'+keyWeight w b.orders k = liveSum w b+keyWeight w b'.orders k := by
  have hrest : (b'.liveEntries.filter fun e => decide (e.1 ≠ k)) = b.liveEntries.filter fun e => decide (e.1 ≠ k) := by
    refine Slab.eq_of_sorted (b'.liveEntries_sorted.filter _) (b.liveEntries_sorted.filter _) fun e => ?_
    rw [List.mem_filter,List.mem_filter,mem_liveEntries,mem_liveEntries,decide_eq_true_eq]
    refine and_congr_left fun hne => ?_
    rw [h e.1 hne]
  rw [liveSum_split w b' k,liveSum_split w b k,hrest]
  omega

theorem liveSum_insertResting (b : OrderBook S) (ho : 0 < o.qtyRem) :
    liveSum w (b.insertResting o) = liveSum w b+w o := by
  have hlive : ∀ j, liveAt (b.insertResting o).orders j =
      if j = Slab.vacantKey b.orders then some o else liveAt b.orders j := by
    intro j
    rw [insertResting_orders,liveAt_insert ho]
  have hchange := liveSum_change w fun j (hj : j ≠ Slab.vacantKey b.orders) => (hlive j).trans (if_neg hj)
  have hold : liveAt b.orders (Slab.vacantKey b.orders) = none := by simp [liveAt]
  rw [keyWeight,keyWeight,hold,hlive,if_pos rfl] at hchange
  exact (add_zero _).symm.trans hchange

/-- Cancelling does not raise a sum of weights that are not negative. -/
theorem liveSum_cancel_le (h : ∀ o, 0 < o.qtyRem → 0 ≤ w o) {id : OrderId} (ho : b.get id = some o) :
    liveSum w (b.cancel id o.accountId).1 ≤ liveSum w b := by
  obtain ⟨k,hk,hg⟩ := get_eq_some.mp ho
  have hlive := liveAt_cancel hk hg
  have hchange := liveSum_change w fun j (hj : j ≠ k) => (hlive j).trans (if_neg hj)
  have hold : 0 ≤ keyWeight w b.orders k := by
    rw [keyWeight]
    cases hx : liveAt b.orders k with
    | none => exact le_refl 0
    | some x => exact h x (liveAt_eq_some.mp hx).2
  have hnew : keyWeight w (b.cancel id o.accountId).1.orders k = 0 := by
    rw [keyWeight,hlive,if_pos rfl,Option.elim_none]
  omega

theorem liveSum_trade {m : Matching S} {taker : OrderId} {makers : Side} {px : Price} {lvl : Level} {rest : List ℕ}
    (hk : liveAt m.book.orders k = some o) (hq : 0 < m.takerQty) :
    liveSum w (tradeWith taker makers m px lvl k rest o).book+w o =
      liveSum w m.book+(afterTrade o (min m.takerQty o.qtyRem)).elim 0 w := by
  have hlive : ∀ j, liveAt (tradeWith taker makers m px lvl k rest o).book.orders j = _ := tradeWith_liveAt hk hq
  have hchange := liveSum_change w fun j (hj : j ≠ k) => (hlive j).trans (if_neg hj)
  rwa [keyWeight,keyWeight,hk,hlive,if_pos rfl,Option.elim_some] at hchange

end OrderBook
end HighPerfTrading
