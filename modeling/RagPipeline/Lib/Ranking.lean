import Mathlib.Algebra.BigOperators.Ring.List
import Mathlib.Algebra.Order.BigOperators.Group.List
import Mathlib.Algebra.Order.Field.Basic
import Mathlib.Data.List.Sort
import Mathlib.Tactic.Ring

/-! The largest elements of a list, the largest first, and the means of them. -/

namespace Ranking

section Order

variable {α : Type} [LinearOrder α]

def ranked (l : List α) : List α := l.insertionSort (· ≥ ·)

theorem perm_ranked (l : List α) : (ranked l).Perm l := List.perm_insertionSort _ l

theorem pairwise_ranked (l : List α) : (ranked l).Pairwise (· ≥ ·) :=
  List.pairwise_insertionSort _ l

/-- What is sorted and not below the rest is the top of the list. -/
theorem take_ranked {l u v : List α} (hp : (u ++ v).Perm l) (hu : u.Pairwise (· ≥ ·))
    (h : ∀ a ∈ u, ∀ b ∈ v, b ≤ a) : (ranked l).take u.length = u := by
  have hsorted : (u ++ ranked v).Pairwise (· ≥ ·) := by
    rw [List.pairwise_append]
    refine ⟨hu, pairwise_ranked v, ?_⟩
    intro a ha b hb
    exact h a ha b ((perm_ranked v).mem_iff.mp hb)
  have hperm : (ranked l).Perm (u ++ ranked v) :=
    (perm_ranked l).trans (hp.symm.trans ((perm_ranked v).symm.append_left u))
  have heq : ranked l = u ++ ranked v :=
    hperm.eq_of_pairwise (fun a b _ _ hab hba => le_antisymm hba hab) (pairwise_ranked l) hsorted
  rw [heq, List.take_left']
  rfl

end Order

section Means

variable {K : Type} [Field K] [LinearOrder K] [IsStrictOrderedRing K]

def weightedMean (l : List (K × K)) : K := (l.map fun p => p.1 * p.2).sum / (l.map Prod.snd).sum

theorem sum_weights_pos {l : List (K × K)} (h : l ≠ []) (hw : ∀ p ∈ l, 0 < p.2) :
    0 < (l.map Prod.snd).sum := by
  apply List.sum_pos
  · intro w hmem
    obtain ⟨p, hp, rfl⟩ := List.mem_map.mp hmem
    exact hw p hp
  · exact List.map_eq_nil_iff.not.mpr h

theorem le_weightedMean {l : List (K × K)} {lo : K} (h : l ≠ []) (hw : ∀ p ∈ l, 0 < p.2)
    (hlo : ∀ p ∈ l, lo ≤ p.1) : lo ≤ weightedMean l := by
  rw [weightedMean, le_div_iff₀ (sum_weights_pos h hw), ← List.sum_map_mul_left]
  apply List.sum_le_sum
  intro p hp
  exact mul_le_mul_of_nonneg_right (hlo p hp) (hw p hp).le

theorem weightedMean_le {l : List (K × K)} {hi : K} (h : l ≠ []) (hw : ∀ p ∈ l, 0 < p.2)
    (hhi : ∀ p ∈ l, p.1 ≤ hi) : weightedMean l ≤ hi := by
  rw [weightedMean, div_le_iff₀ (sum_weights_pos h hw), ← List.sum_map_mul_left]
  apply List.sum_le_sum
  intro p hp
  exact mul_le_mul_of_nonneg_right (hhi p hp) (hw p hp).le

theorem mean_take_succ_le {l : List K} (h : l.Pairwise (· ≥ ·)) {m : ℕ} (hm : 0 < m)
    (hl : m < l.length) :
    (l.take (m + 1)).sum / ((m + 1 : ℕ) : K) ≤ (l.take m).sum / (m : K) := by
  have hpos : (0 : K) < m := Nat.cast_pos.mpr hm
  have hle : ∀ a ∈ l.take m, l[m] ≤ a := by
    intro a ha
    obtain ⟨i, hi, rfl⟩ := List.mem_take_iff_getElem.mp ha
    exact List.pairwise_iff_getElem.mp h i m (by omega) hl (by omega)
  have hsum : (m : K) * l[m] ≤ (l.take m).sum := by
    have := List.card_nsmul_le_sum (l.take m) l[m] hle
    rwa [List.length_take_of_le hl.le, nsmul_eq_mul] at this
  rw [List.sum_take_succ l m hl, div_le_div_iff₀ (Nat.cast_pos.mpr m.succ_pos) hpos]
  push_cast
  calc ((l.take m).sum + l[m]) * m = (l.take m).sum * m + m * l[m] := by ring
    _ ≤ (l.take m).sum * m + (l.take m).sum := by gcongr
    _ = (l.take m).sum * (m + 1) := by ring

theorem mean_take_antitone {l : List K} (h : l.Pairwise (· ≥ ·)) {m m' : ℕ} (hm : 0 < m)
    (hmm : m ≤ m') (hl : m' ≤ l.length) :
    (l.take m').sum / (m' : K) ≤ (l.take m).sum / (m : K) := by
  induction m', hmm using Nat.le_induction with
  | base => exact le_rfl
  | succ n hn ih =>
    have hstep := mean_take_succ_le h (by omega : 0 < n) (by omega)
    exact hstep.trans (ih (by omega))

end Means
end Ranking
