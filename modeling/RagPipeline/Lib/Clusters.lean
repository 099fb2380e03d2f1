import Mathlib.Algebra.BigOperators.Group.Finset.Piecewise
import Mathlib.Algebra.BigOperators.Group.List.Basic
import Mathlib.Algebra.Order.BigOperators.Group.Finset
import Mathlib.Algebra.Order.BigOperators.Group.List

/-! Items that are assigned to centres, and centres that are then moved. -/

namespace Clusters

variable {α β K : Type} [AddCommMonoid K] {label : α → ℕ} {k : ℕ} {x : List α}

/-- A sum over the items is one over the clusters. -/
theorem sum_by_label (f : α → ℕ → K) (hlabel : ∀ v ∈ x, label v < k) :
    (x.map fun v => f v (label v)).sum =
      ∑ c ∈ Finset.range k, ((x.filter fun v => label v = c).map fun v => f v c).sum := by
  induction x with
  | nil => simp
  | cons v x ih =>
    have hv : label v ∈ Finset.range k := Finset.mem_range.mpr (hlabel v List.mem_cons_self)
    have hone : ∑ c ∈ Finset.range k, (if label v = c then f v c else 0) = f v (label v) := by
      rw [Finset.sum_ite_eq, if_pos hv]
    rw [List.map_cons, List.sum_cons, ih fun u hu => hlabel u (List.mem_cons_of_mem v hu), ← hone,
      ← Finset.sum_add_distrib]
    apply Finset.sum_congr rfl
    intro c _
    rw [List.filter_cons]
    by_cases h : label v = c <;> simp [h]

/-- If no cluster fits its moved centre worse, then no total is lost by moving the centres and
assigning the items again. -/
theorem total_le_of_moved [LinearOrder K] [IsOrderedAddMonoid K] (fit : α → β → K)
    (old new : ℕ → β) {before after : α → K} (hlabel : ∀ v ∈ x, label v < k)
    (hbefore : ∀ v ∈ x, before v = fit v (old (label v)))
    (hafter : ∀ v ∈ x, fit v (new (label v)) ≤ after v)
    (hmoved : ∀ c < k, ((x.filter fun v => label v = c).map fun v => fit v (old c)).sum ≤
      ((x.filter fun v => label v = c).map fun v => fit v (new c)).sum) :
    (x.map before).sum ≤ (x.map after).sum := by
  calc (x.map before).sum
    _ = (x.map fun v => fit v (old (label v))).sum := by rw [List.map_congr_left hbefore]
    _ = ∑ c ∈ Finset.range k,
          ((x.filter fun v => label v = c).map fun v => fit v (old c)).sum :=
        sum_by_label (fun v c => fit v (old c)) hlabel
    _ ≤ ∑ c ∈ Finset.range k,
          ((x.filter fun v => label v = c).map fun v => fit v (new c)).sum :=
        Finset.sum_le_sum fun c hc => hmoved c (Finset.mem_range.mp hc)
    _ = (x.map fun v => fit v (new (label v))).sum :=
        (sum_by_label (fun v c => fit v (new c)) hlabel).symm
    _ ≤ (x.map after).sum := List.sum_le_sum hafter

end Clusters
