import RagPipeline.Lib.StableSort
import RagPipeline.Services.FolderScoring

namespace RagPipeline
namespace FolderScoring

open Argmax (argmax argmin IsFirstMax argmax_lt isFirstMax_argmax)

section Selection

variable {K : Type} [Field K] [LinearOrder K] (sim : ℕ → ℕ → K) (heat : List K) (mmrLambda : K)

/-- The largest similarity of candidate `i` to one of those selected. -/
def maxSim (selected : List ℕ) (i : ℕ) : K := maximum (selected.map (sim i))

def relevance (selected : List ℕ) (i : ℕ) : K :=
  mmrLambda * heat.getD i 0 - (1 - mmrLambda) * maxSim sim selected i

/-- Each one is the lowest index of what is left that is best in view of those before it. -/
structure IsGreedyMmr (selected : List ℕ) : Prop where
  first : ∀ i ∈ selected.head?, IsFirstMax (heat.getD · 0) (· < heat.length) i
  next : ∀ t (ht : t < selected.length), 0 < t →
    IsFirstMax (relevance sim heat mmrLambda (selected.take t))
      (fun i => i < heat.length ∧ i ∉ selected.take t) selected[t]

/-- The candidates by heat, the hottest first; equal ones stay in their order. -/
def byHeat : List ℕ :=
  (List.range heat.length).insertionSort fun i j => heat.getD j 0 ≤ heat.getD i 0

/-- What the loop knows between two picks. -/
structure Picking.Inv (p : Picking K) : Prop where
  nodup : p.selected.Nodup
  lt : ∀ i ∈ p.selected, i < heat.length
  ne : p.selected ≠ []
  maxSimToSelected : p.maxSimToSelected = (List.range heat.length).map (maxSim sim p.selected)
  chosen : p.chosen = (List.range heat.length).map fun i => decide (i ∈ p.selected)
  greedy : IsGreedyMmr sim heat mmrLambda p.selected

variable {sim heat mmrLambda} {p : Picking K}

theorem maxSim_singleton (i s : ℕ) : maxSim sim [s] i = sim i s := rfl

theorem maxSim_append {selected : List ℕ} (h : selected ≠ []) (i nxt : ℕ) :
    maxSim sim (selected ++ [nxt]) i = max (maxSim sim selected i) (sim i nxt) := by
  cases selected with
  | nil => exact absurd rfl h
  | cons s rest =>
    simp only [maxSim, maximum, List.map_append, List.map_cons, List.map_nil, List.cons_append,
      List.max?_cons', List.foldl_append, List.foldl_cons, List.foldl_nil, Option.getD_some]

theorem isGreedyMmr_append {selected : List ℕ} {nxt : ℕ} (ne : selected ≠ [])
    (h : IsGreedyMmr sim heat mmrLambda selected)
    (hnxt : IsFirstMax (relevance sim heat mmrLambda selected)
      (fun i => i < heat.length ∧ i ∉ selected) nxt) :
    IsGreedyMmr sim heat mmrLambda (selected ++ [nxt]) := by
  constructor
  · rw [List.head?_append_of_ne_nil selected ne]
    exact h.first
  · intro t ht hpos
    rw [List.length_append, List.length_singleton] at ht
    by_cases hlt : t < selected.length
    · rw [List.take_append_of_le_length hlt.le, List.getElem_append_left hlt]
      exact h.next t hlt hpos
    · have heq : t = selected.length := by omega
      subst heq
      rw [List.take_left', List.getElem_concat_length]
      · exact hnxt
      · rfl
      · rfl

/-- The position that the loop takes next. -/
theorem Picking.Inv.isFirstMax_mmr (h : p.Inv sim heat mmrLambda)
    (hlen : p.selected.length < heat.length) :
    IsFirstMax (relevance sim heat mmrLambda p.selected)
      (fun i => i < heat.length ∧ i ∉ p.selected) (argmax (p.mmr heat mmrLambda)) := by
  have hleft : ∃ j, j < heat.length ∧ j ∉ p.selected := by
    by_contra hno
    have hsub : List.range heat.length ⊆ p.selected := by
      intro j hj
      by_contra hjs
      exact hno ⟨j, List.mem_range.mp hj, hjs⟩
    have := (List.nodup_range.subperm hsub).length_le
    rw [List.length_range] at this
    omega
  have hmax : p.maxSimToSelected.length = heat.length := by
    rw [h.maxSimToSelected, List.length_map, List.length_range]
  have hchosen : p.chosen.length = heat.length := by
    rw [h.chosen, List.length_map, List.length_range]
  have hl : (p.mmr heat mmrLambda).length = heat.length := by
    rw [Picking.mmr, List.length_zipWith, List.length_zipWith]
    omega
  apply IsFirstMax.of_mask _ hleft
  apply isFirstMax_argmax hl (by omega)
  intro i hi
  have hin : i < heat.length := by omega
  have him : i < p.maxSimToSelected.length := by omega
  have hic : i < p.chosen.length := by omega
  have hm : p.maxSimToSelected[i] = maxSim sim p.selected i := by
    simp only [h.maxSimToSelected, List.getElem_map, List.getElem_range]
  have hc : p.chosen[i] = decide (i ∈ p.selected) := by
    simp only [h.chosen, List.getElem_map, List.getElem_range]
  simp only [Picking.mmr, List.getElem_zipWith, hm, hc, relevance, decide_eq_true_eq,
    List.getD_eq_getElem _ _ hin]

/-- One turn of the loop. -/
theorem Picking.Inv.pick (h : p.Inv sim heat mmrLambda)
    (hlen : p.selected.length < heat.length) :
    (p.pick sim heat mmrLambda).Inv sim heat mmrLambda := by
  have hnxt := h.isFirstMax_mmr hlen
  have hlt := hnxt.mem.1
  have hnew := hnxt.mem.2
  constructor
  · simp only [Picking.pick]
    apply h.nodup.append (List.nodup_singleton _)
    rw [List.disjoint_singleton]
    exact hnew
  · intro i hi
    obtain hi | hi := List.mem_append.mp hi
    · exact h.lt i hi
    · rw [List.mem_singleton.mp hi]
      exact hlt
  · exact List.append_ne_nil_of_right_ne_nil _ (List.cons_ne_nil _ _)
  · simp only [Picking.pick, h.maxSimToSelected, simsTo, List.zipWith_map, List.zipWith_self]
    apply List.map_congr_left
    intro i _
    exact (maxSim_append h.ne i _).symm
  · apply List.ext_getElem
    · simp only [Picking.pick, h.chosen, List.length_set, List.length_map]
    · intro i hi hi'
      simp only [Picking.pick, List.getElem_set, h.chosen, List.getElem_map, List.getElem_range,
        List.mem_append, List.mem_singleton]
      split_ifs with heq
      · exact (decide_eq_true (Or.inr heq.symm)).symm
      · rw [decide_eq_decide]
        exact (or_iff_left (Ne.symm heq)).symm
  · exact isGreedyMmr_append h.ne h.greedy hnxt

theorem Picking.inv_start (hn : 0 < heat.length) :
    (Picking.start sim heat).Inv sim heat mmrLambda := by
  have hfirst : IsFirstMax (heat.getD · 0) (· < heat.length) (argmax heat) :=
    isFirstMax_argmax rfl hn fun i hi => (List.getD_eq_getElem _ _ hi).symm
  constructor
  · exact List.nodup_singleton _
  · intro i hi
    rw [List.mem_singleton.mp hi]
    exact hfirst.mem
  · exact List.cons_ne_nil _ _
  · simp only [Picking.start, simsTo]
    apply List.map_congr_left
    intro i _
    exact (maxSim_singleton i _).symm
  · apply List.ext_getElem
    · simp only [Picking.start, List.length_set, List.length_replicate, List.length_map,
        List.length_range]
    · intro i hi hi'
      simp only [Picking.start, List.getElem_set, List.getElem_replicate, List.getElem_map,
        List.getElem_range, List.mem_singleton]
      split_ifs with heq
      · exact (decide_eq_true heq.symm).symm
      · exact (decide_eq_false (Ne.symm heq)).symm
  · constructor
    · intro i hi
      rw [Picking.start, List.head?_cons, Option.mem_some_iff] at hi
      rwa [← hi]
    · intro t ht hpos
      rw [Picking.start, List.length_singleton] at ht
      omega

variable (sim heat mmrLambda) in
/-- So many turns of the loop. -/
theorem Picking.inv_iterate (m : ℕ) (hm : m < heat.length) :
    let p := (Picking.pick sim heat mmrLambda)^[m] (.start sim heat)
    p.Inv sim heat mmrLambda ∧ p.selected.length = m + 1 := by
  induction m with
  | zero => exact ⟨Picking.inv_start hm, rfl⟩
  | succ m ih =>
    have hp := ih (by omega)
    simp only [Function.iterate_succ_apply']
    constructor
    · apply hp.1.pick
      omega
    · simp only [Picking.pick, List.length_append, List.length_singleton, hp.2]

theorem relevance_one (selected : List ℕ) : relevance sim heat 1 selected = (heat.getD · 0) := by
  funext i
  rw [relevance, one_mul, sub_self, zero_mul, sub_zero]

theorem perm_byHeat : (byHeat heat).Perm (List.range heat.length) := List.perm_insertionSort _ _

variable (heat) in
theorem pairwise_byHeat : (byHeat heat).Pairwise fun i j =>
    heat.getD j 0 ≤ heat.getD i 0 ∧ (heat.getD i 0 ≤ heat.getD j 0 → i < j) := by
  have htotal : Std.Total fun i j => heat.getD j 0 ≤ heat.getD i 0 :=
    ⟨fun i j => le_total (heat.getD j 0) (heat.getD i 0)⟩
  have htrans : IsTrans ℕ fun i j => heat.getD j 0 ≤ heat.getD i 0 :=
    ⟨fun i j k hij hjk => hjk.trans hij⟩
  exact StableSort.pairwise_insertionSort List.pairwise_lt_range

variable (heat) in
/-- The sort too takes the lowest index of what is hottest among the rest. -/
theorem isFirstMax_byHeat (t : ℕ) (ht : t < (byHeat heat).length) :
    IsFirstMax (heat.getD · 0) (fun i => i < heat.length ∧ i ∉ (byHeat heat).take t)
      (byHeat heat)[t] := by
  have hnodup : (byHeat heat).Nodup := perm_byHeat.nodup_iff.mpr List.nodup_range
  have hsorted := List.pairwise_iff_getElem.mp (pairwise_byHeat heat)
  -- what is left stands at `t` or after it
  have hleft : ∀ j, j < heat.length ∧ j ∉ (byHeat heat).take t →
      ∃ s, ∃ hs : s < (byHeat heat).length, t ≤ s ∧ (byHeat heat)[s] = j := by
    intro j hj
    have hmem : j ∈ byHeat heat := perm_byHeat.mem_iff.mpr (List.mem_range.mpr hj.1)
    obtain ⟨s, hs, hsj⟩ := List.getElem_of_mem hmem
    refine ⟨s, hs, ?_, hsj⟩
    by_contra hlt
    apply hj.2
    rw [← hsj]
    exact List.mem_take_iff_getElem.mpr ⟨s, by omega, rfl⟩
  constructor
  · constructor
    · exact List.mem_range.mp (perm_byHeat.mem_iff.mp (List.getElem_mem ht))
    · intro hmem
      obtain ⟨s, hs, hst⟩ := List.mem_take_iff_getElem.mp hmem
      have hindex : s = t := hnodup.getElem_inj_iff.mp hst
      omega
  · intro j hj
    obtain ⟨s, hs, hts, rfl⟩ := hleft j hj
    obtain rfl | hlt := Nat.eq_or_lt_of_le hts
    · exact le_rfl
    · exact (hsorted t s ht hs hlt).1
  · intro j hj hheat
    obtain ⟨s, hs, hts, rfl⟩ := hleft j hj
    obtain rfl | hlt := Nat.eq_or_lt_of_le hts
    · exact le_rfl
    · exact ((hsorted t s ht hs hlt).2 hheat.ge).le

theorem IsGreedyMmr.isFirstMax {selected : List ℕ} (h : IsGreedyMmr sim heat 1 selected) (t : ℕ)
    (ht : t < selected.length) :
    IsFirstMax (heat.getD · 0) (fun i => i < heat.length ∧ i ∉ selected.take t) selected[t] := by
  by_cases hpos : 0 < t
  · have := h.next t ht hpos
    rwa [relevance_one] at this
  · have h0 : t = 0 := by omega
    subst h0
    have := h.first selected[0] (by rw [List.head?_eq_getElem?, List.getElem?_eq_getElem ht]; rfl)
    simpa only [List.take_zero, List.not_mem_nil, not_false_eq_true, and_true] using this

theorem IsGreedyMmr.eq_take {selected : List ℕ} (h : IsGreedyMmr sim heat 1 selected)
    (hlen : selected.length ≤ heat.length) :
    selected = (byHeat heat).take selected.length := by
  have hall : (byHeat heat).length = heat.length := by
    rw [perm_byHeat.length_eq, List.length_range]
  -- both take the same one after the same beginning
  have hpre : ∀ t ≤ selected.length, selected.take t = (byHeat heat).take t := by
    intro t ht
    induction t with
    | zero => rfl
    | succ t ih =>
      have hprev := ih (by omega)
      have hsel := h.isFirstMax t (by omega)
      have hsort := isFirstMax_byHeat heat t (by omega)
      rw [← hprev] at hsort
      rw [List.take_succ_eq_append_getElem (by omega), List.take_succ_eq_append_getElem (by omega),
        hprev, hsel.unique hsort]
  have := hpre selected.length le_rfl
  rwa [List.take_length] at this

variable (sim heat mmrLambda) in
/-- It selects as many as there are or as are asked for, one after the other by the greedy rule. -/
theorem mmrSelectBy_inv (k : ℤ) :
    ((mmrSelectBy sim heat mmrLambda k).length : ℤ) = min (max k 0) heat.length ∧
    (mmrSelectBy sim heat mmrLambda k).Nodup ∧
    (∀ i ∈ mmrSelectBy sim heat mmrLambda k, i < heat.length) ∧
    IsGreedyMmr sim heat mmrLambda (mmrSelectBy sim heat mmrLambda k) := by
  by_cases hk : min k heat.length ≤ 0
  · have hnil : mmrSelectBy sim heat mmrLambda k = [] := if_pos hk
    rw [hnil]
    refine ⟨?_, List.nodup_nil, fun i hi => absurd hi List.not_mem_nil, ?_⟩
    · rw [List.length_nil]
      omega
    · constructor
      · intro i hi
        exact absurd hi (Option.not_mem_none i)
      · intro t ht _
        exact absurd ht (Nat.not_lt_zero t)
  · have hpick : mmrSelectBy sim heat mmrLambda k =
        ((Picking.pick sim heat mmrLambda)^[(min k heat.length).toNat - 1]
          (.start sim heat)).selected := if_neg hk
    obtain ⟨hinv, hturns⟩ := Picking.inv_iterate sim heat mmrLambda
      ((min k heat.length).toNat - 1) (by omega)
    rw [hpick]
    refine ⟨?_, hinv.nodup, hinv.lt, hinv.greedy⟩
    omega

end Selection

section Claims

variable {K : Type} [Field K] [LinearOrder K]

/-- `mmr_select` is greedy maximal marginal relevance, and with `lambda = 1` the beginning of the
stable sort by heat. -/
theorem mmrSelectBy_spec (sim : ℕ → ℕ → K) (heat : List K) (mmrLambda : K) (k : ℤ) :
    let selected := mmrSelectBy sim heat mmrLambda k
    (selected.length : ℤ) = min (max k 0) heat.length ∧
    selected.Nodup ∧
    (∀ i ∈ selected, i < heat.length) ∧
    (∀ i ∈ selected.head?, IsFirstMax (heat.getD · 0) (· < heat.length) i) ∧
    (∀ t (ht : t < selected.length), 0 < t →
      IsFirstMax
        (fun i => mmrLambda * heat.getD i 0 -
          (1 - mmrLambda) * maximum ((selected.take t).map (sim i)))
        (fun i => i < heat.length ∧ i ∉ selected.take t) selected[t]) ∧
    mmrSelectBy sim heat 1 k = (byHeat heat).take (min k heat.length).toNat := by
  intro selected
  obtain ⟨hlen, hnodup, hlt, hgreedy⟩ := mmrSelectBy_inv sim heat mmrLambda k
  refine ⟨hlen, hnodup, hlt, hgreedy.first, hgreedy.next, ?_⟩
  obtain ⟨hlen', _, _, hgreedy'⟩ := mmrSelectBy_inv sim heat 1 k
  have hn : (mmrSelectBy sim heat 1 k).length = (min k heat.length).toNat := by omega
  rw [← hn]
  apply hgreedy'.eq_take
  omega

end Claims
end FolderScoring
end RagPipeline
