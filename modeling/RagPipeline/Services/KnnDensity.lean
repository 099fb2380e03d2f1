import Mathlib.Algebra.Order.Ring.Rat
import Mathlib.Data.Fin.VecNotation
import RagPipeline.Lib.Ranking
import RagPipeline.Services.FolderScoring

namespace RagPipeline

section Gathering

variable {α : Type} [Zero α]

theorem length_takeAlong (row : List α) (indices : List ℕ) :
    (takeAlong row indices).length = indices.length := List.length_map _

theorem takeAlong_range (row : List α) : takeAlong row (List.range row.length) = row := by
  apply List.ext_getElem
  · rw [length_takeAlong, List.length_range]
  · intro i hi hi'
    simp only [takeAlong, List.getElem_map, List.getElem_range, List.getD_eq_getElem _ _ hi']

theorem perm_takeAlong {row : List α} {indices : List ℕ}
    (h : indices.Perm (List.range row.length)) : (takeAlong row indices).Perm row := by
  have := h.map fun i => row.getD i 0
  rwa [← takeAlong, ← takeAlong, takeAlong_range] at this

/-- A gather after a gather is one gather. -/
theorem takeAlong_takeAlong {row : List α} {top order : List ℕ}
    (h : ∀ i ∈ order, i < top.length) :
    takeAlong row (takeAlong top order) = takeAlong (takeAlong row top) order := by
  simp only [takeAlong, List.map_map]
  apply List.map_congr_left
  intro i hi
  have hlt := h i hi
  have hmap : i < (top.map fun j => row.getD j 0).length := by
    rw [List.length_map]
    exact hlt
  rw [Function.comp_apply, List.getD_eq_getElem _ _ hlt, List.getD_eq_getElem _ _ hmap,
    List.getElem_map]

theorem mem_takeAlong {row : List α} {indices : List ℕ} (h : ∀ i ∈ indices, i < row.length)
    {a : α} (ha : a ∈ takeAlong row indices) : a ∈ row := by
  obtain ⟨i, hi, rfl⟩ := List.mem_map.mp ha
  rw [List.getD_eq_getElem _ _ (h i hi)]
  exact List.getElem_mem _

end Gathering

theorem takeAlong_neg {K : Type} [Field K] (row : List K) (indices : List ℕ) :
    takeAlong (row.map (- ·)) indices = (takeAlong row indices).map (- ·) := by
  simp only [takeAlong, List.map_map]
  apply List.map_congr_left
  intro i _
  have := List.getD_map (l := row) (d := 0) (n := i) (fun a => -a)
  rwa [neg_zero] at this

namespace FolderScoring

open Ranking (ranked weightedMean)

variable {K : Type} [Field K] [LinearOrder K] {d : ℕ} {np : Numpy K} {row : List K} {m : ℕ}

theorem le_maximum {l : List K} {a : K} (h : a ∈ l) : a ≤ maximum l := by
  have hsome : l.max? = some (l.max (List.ne_nil_of_mem h)) := List.max?_eq_some_max _
  rw [maximum, hsome, Option.getD_some]
  exact List.le_max_of_mem h

theorem minimum_le {l : List K} {a : K} (h : a ∈ l) : minimum l ≤ a := by
  have hsome : l.min? = some (l.min (List.ne_nil_of_mem h)) := List.min?_eq_some_min _
  rw [minimum, hsome, Option.getD_some]
  exact List.min_le_of_mem h

/-- How much folder item `j` counts. -/
def weightOf (weights : Option (List K)) (j : ℕ) : K :=
  match weights with
  | none => 1
  | some w => w.getD j 0

omit [LinearOrder K] in
theorem heatOf_eq (weights : Option (List K)) (row : List K) (top : List ℕ) :
    heatOf weights top (takeAlong row top) =
      weightedMean (top.map fun j => (row.getD j 0, weightOf weights j)) := by
  cases weights with
  | none =>
    simp only [heatOf, mean, weightedMean, weightOf, takeAlong, List.map_map, Function.comp_def,
      mul_one, List.length_map, List.map_const', List.sum_replicate, nsmul_eq_mul]
  | some w =>
    simp only [heatOf, weightedMean, weightOf, takeAlong, List.map_map, Function.comp_def,
      List.zipWith_map, List.zipWith_self]

/-- What `knn_density` says of one candidate whose similarities to the folder are `row`. -/
structure IsKnn (row : List K) (m : ℕ) (weights : Option (List K)) (top : List ℕ)
    (topSims : List K) (heat : K) : Prop where
  sims : topSims = (ranked row).take m
  nodup : top.Nodup
  length : top.length = m
  lt : ∀ j ∈ top, j < row.length
  same : top.map (row.getD · 0) = topSims
  mean : heat = (top.map fun j => row.getD j 0 * weightOf weights j).sum /
    (top.map (weightOf weights)).sum
  ge : minimum topSims ≤ heat
  le : heat ≤ maximum topSims

def neighbourCount (knn : ℤ) (n : ℕ) : ℕ := (max 1 (min knn n)).toNat

theorem neighbourCount_pos (knn : ℤ) (n : ℕ) : 0 < neighbourCount knn n := by
  rw [neighbourCount]
  omega

theorem neighbourCount_le (knn : ℤ) {n : ℕ} (hn : 0 < n) : neighbourCount knn n ≤ n := by
  rw [neighbourCount]
  omega

theorem neighbourCount_mono {knn knn' : ℤ} (h : knn ≤ knn') (n : ℕ) :
    neighbourCount knn n ≤ neighbourCount knn' n := by
  simp only [neighbourCount]
  omega

variable (np) in
theorem getElem?_knnDensity {candidates : List (Embedding K d)} (folder : List (Embedding K d))
    (knn : ℤ) (weights : Option (List K)) {i : ℕ} {c : Embedding K d} (hc : candidates[i]? = some c) :
    let r := nearest np (sims (normalise np folder) (normaliseRow np c))
      (neighbourCount knn folder.length)
    let scores := knnDensity np candidates folder knn weights
    scores.neighbours[i]? = some r.1 ∧ scores.neighbourSims[i]? = some r.2 ∧
    scores.heat[i]? = some (heatOf weights r.1 r.2) := by
  simp only [knnDensity, normalise, List.getElem?_map, hc, Option.map_some, List.length_map,
    neighbourCount, and_self]

variable [IsStrictOrderedRing K]

/-- The partition leaves the `m` largest similarities in front. -/
theorem le_of_argpartition (hnp : np.Contract) (h0 : 0 < m) (hm : m ≤ row.length)
    {a b : K} (ha : a ∈ takeAlong row ((np.argpartition (row.map (- ·)) (m - 1)).take m))
    (hb : b ∈ takeAlong row ((np.argpartition (row.map (- ·)) (m - 1)).drop m)) : b ≤ a := by
  have hkth : m - 1 < (row.map (- ·)).length := by
    rw [List.length_map]
    omega
  have hlen : (np.argpartition (row.map (- ·)) (m - 1)).length = row.length := by
    rw [(hnp.argpartition_perm _ _ hkth).length_eq, List.length_range, List.length_map]
  have hbefore := hnp.argpartition_before _ _ hkth
  have hafter := hnp.argpartition_after _ _ hkth
  rw [takeAlong_neg] at hbefore hafter
  generalize np.argpartition (row.map (- ·)) (m - 1) = part at ha hb hlen hbefore hafter
  have hsims : m - 1 < (takeAlong row part).length := by
    rw [length_takeAlong]
    omega
  rw [List.getD_eq_getElem _ _ (by rwa [List.length_map]), List.getElem_map] at hbefore hafter
  have hle : (takeAlong row part)[m - 1] ≤ a := by
    rw [takeAlong, List.map_take, ← takeAlong, ← Nat.sub_add_cancel h0,
      List.take_succ_eq_append_getElem hsims, List.mem_append] at ha
    obtain ha | ha := ha
    · apply neg_le_neg_iff.mp
      apply hbefore
      rw [← List.map_take]
      exact List.mem_map_of_mem ha
    · exact (List.mem_singleton.mp ha).ge
  have hge : b ≤ (takeAlong row part)[m - 1] := by
    rw [takeAlong, List.map_drop, ← takeAlong] at hb
    apply neg_le_neg_iff.mp
    apply hafter
    rw [← List.map_drop]
    apply List.mem_map_of_mem
    exact List.drop_subset_drop_left _ (by omega) hb
  exact hge.trans hle

/-- The neighbours are different folder items, and their similarities are the top of the ranked
similarities. -/
theorem nearest_spec (hnp : np.Contract) (h0 : 0 < m) (hm : m ≤ row.length) :
    (nearest np row m).1.Nodup ∧ (nearest np row m).1.length = m ∧
    (∀ j ∈ (nearest np row m).1, j < row.length) ∧
    takeAlong row (nearest np row m).1 = (nearest np row m).2 ∧
    (nearest np row m).2 = (ranked row).take m := by
  have hkth : m - 1 < (row.map (- ·)).length := by
    rw [List.length_map]
    omega
  have hpart := hnp.argpartition_perm _ _ hkth
  rw [List.length_map] at hpart
  have hsplit := fun a b => le_of_argpartition hnp h0 hm (a := a) (b := b)
  rw [nearest]
  generalize np.argpartition (row.map (- ·)) (m - 1) = part at hpart hsplit
  have htop : (part.take m).length = m := by
    rw [List.length_take, hpart.length_eq, List.length_range]
    omega
  have hnodup : (part.take m).Nodup :=
    (hpart.nodup_iff.mpr List.nodup_range).sublist (List.take_sublist m part)
  have hlt : ∀ j ∈ part.take m, j < row.length := fun j hj =>
    List.mem_range.mp (hpart.mem_iff.mp (List.mem_of_mem_take hj))
  have hsims : (takeAlong row (part.take m)).length = m := by
    rw [length_takeAlong, htop]
  have horder := hnp.argsort_perm ((takeAlong row (part.take m)).map (- ·))
  have hsorted := hnp.argsort_sorted ((takeAlong row (part.take m)).map (- ·))
  rw [List.length_map, hsims] at horder
  rw [takeAlong_neg] at hsorted
  simp only
  generalize np.argsort ((takeAlong row (part.take m)).map (- ·)) = order at horder hsorted
  have hinds : (takeAlong (part.take m) order).Perm (part.take m) :=
    perm_takeAlong (by rwa [htop])
  have hvals : (takeAlong (takeAlong row (part.take m)) order).Perm
      (takeAlong row (part.take m)) := perm_takeAlong (by rwa [hsims])
  have hbound : ∀ i ∈ order, i < (part.take m).length := by
    intro i hi
    rw [htop]
    exact List.mem_range.mp (horder.mem_iff.mp hi)
  refine ⟨hinds.nodup_iff.mpr hnodup, ?_, fun j hj => hlt j (hinds.mem_iff.mp hj),
    takeAlong_takeAlong hbound, ?_⟩
  · rw [hinds.length_eq, htop]
  · have hrest : (takeAlong row (part.take m) ++ takeAlong row (part.drop m)).Perm row := by
      rw [takeAlong, takeAlong, ← List.map_append, List.take_append_drop, ← takeAlong]
      exact perm_takeAlong hpart
    have hdesc : (takeAlong (takeAlong row (part.take m)) order).Pairwise (· ≥ ·) := by
      rw [List.pairwise_map] at hsorted
      exact hsorted.imp neg_le_neg_iff.mp
    have htake := Ranking.take_ranked ((hvals.append_right _).trans hrest) hdesc
      fun a ha b hb => hsplit a b (hvals.mem_iff.mp ha) hb
    rw [hvals.length_eq, hsims] at htake
    exact htake.symm

theorem weightOf_pos {weights : Option (List K)} {n : ℕ}
    (hw : ∀ w ∈ weights, w.length = n ∧ ∀ x ∈ w, 0 < x) {j : ℕ} (hj : j < n) :
    0 < weightOf weights j := by
  cases weights with
  | none => exact one_pos
  | some w =>
    obtain ⟨hlen, hpos⟩ := hw w rfl
    have hjw : j < w.length := by omega
    rw [weightOf, List.getD_eq_getElem _ _ hjw]
    exact hpos _ (List.getElem_mem hjw)

theorem isKnn_nearest (hnp : np.Contract) {weights : Option (List K)}
    (hw : ∀ w ∈ weights, w.length = row.length ∧ ∀ x ∈ w, 0 < x) (h0 : 0 < m)
    (hm : m ≤ row.length) :
    IsKnn row m weights (nearest np row m).1 (nearest np row m).2
      (heatOf weights (nearest np row m).1 (nearest np row m).2) := by
  obtain ⟨hnodup, hlen, hlt, hsame, hsims⟩ := nearest_spec hnp h0 hm
  have hheat := heatOf_eq weights row (nearest np row m).1
  rw [hsame] at hheat
  generalize nearest np row m = r at hnodup hlen hlt hsame hsims hheat
  have hne : (r.1.map fun j => (row.getD j 0, weightOf weights j)) ≠ [] := by
    apply List.ne_nil_of_length_pos
    rw [List.length_map]
    omega
  have hpos : ∀ p ∈ r.1.map fun j => (row.getD j 0, weightOf weights j), 0 < p.2 := by
    intro p hp
    obtain ⟨j, hj, rfl⟩ := List.mem_map.mp hp
    exact weightOf_pos hw (hlt j hj)
  have hmem : ∀ p ∈ r.1.map fun j => (row.getD j 0, weightOf weights j), p.1 ∈ r.2 := by
    intro p hp
    obtain ⟨j, hj, rfl⟩ := List.mem_map.mp hp
    rw [← hsame]
    exact List.mem_map_of_mem hj
  constructor
  · exact hsims
  · exact hnodup
  · exact hlen
  · exact hlt
  · exact hsame
  · rw [hheat, weightedMean, List.map_map, List.map_map]
    rfl
  · rw [hheat]
    exact Ranking.le_weightedMean hne hpos fun p hp => minimum_le (hmem p hp)
  · rw [hheat]
    exact Ranking.weightedMean_le hne hpos fun p hp => le_maximum (hmem p hp)

/-- The heat of the unweighted neighbours is the mean of the top of the ranked similarities. -/
theorem heatOf_nearest (hnp : np.Contract) (h0 : 0 < m) (hm : m ≤ row.length) :
    heatOf none (nearest np row m).1 (nearest np row m).2 =
      ((ranked row).take m).sum / (m : K) := by
  obtain ⟨_, _, _, _, hsims⟩ := nearest_spec hnp h0 hm
  rw [heatOf, mean, hsims, List.length_take_of_le]
  rwa [(Ranking.perm_ranked row).length_eq]

theorem heatOf_nearest_antitone (hnp : np.Contract) {m' : ℕ} (h0 : 0 < m) (hmm : m ≤ m')
    (hm : m' ≤ row.length) :
    heatOf none (nearest np row m').1 (nearest np row m').2 ≤
      heatOf none (nearest np row m).1 (nearest np row m).2 := by
  rw [heatOf_nearest hnp h0 (hmm.trans hm), heatOf_nearest hnp (h0.trans_le hmm) hm]
  apply Ranking.mean_take_antitone (Ranking.pairwise_ranked row) h0 hmm
  rwa [(Ranking.perm_ranked row).length_eq]

section Claims

/-- A numpy that sorts by insertion and draws the first index that has a chance. -/
def sortingNumpy (sqrt : K → K) : Numpy K where
  sqrt
  argpartition l _ := (List.range l.length).insertionSort fun i j => l.getD i 0 ≤ l.getD j 0
  argsort l := (List.range l.length).insertionSort fun i j => l.getD i 0 ≤ l.getD j 0
  Generator := ℕ
  defaultRng seed := seed
  integers g n := (g % n, g + 1)
  choice g _ p := (p.findIdx (0 < ·), g + 1)

omit [IsStrictOrderedRing K] in
theorem contract_sortingNumpy (sqrt : K → K) : (sortingNumpy sqrt).Contract := by
  have hperm : ∀ l : List K, ((List.range l.length).insertionSort fun i j =>
      l.getD i 0 ≤ l.getD j 0).Perm (List.range l.length) := fun l => List.perm_insertionSort _ _
  have hsorted : ∀ l : List K, (takeAlong l ((List.range l.length).insertionSort fun i j =>
      l.getD i 0 ≤ l.getD j 0)).Pairwise (· ≤ ·) := by
    intro l
    have htotal : Std.Total fun i j => l.getD i 0 ≤ l.getD j 0 :=
      ⟨fun i j => le_total (l.getD i 0) (l.getD j 0)⟩
    have htrans : IsTrans ℕ fun i j => l.getD i 0 ≤ l.getD j 0 := ⟨fun i j k => le_trans⟩
    rw [takeAlong, List.pairwise_map]
    exact List.pairwise_insertionSort _ _
  -- in a sorted array the element of each place splits the rest
  have hsplit : ∀ (s : List K) (kth : ℕ), s.Pairwise (· ≤ ·) → kth < s.length →
      (∀ b ∈ s.take kth, b ≤ s.getD kth 0) ∧ ∀ b ∈ s.drop kth, s.getD kth 0 ≤ b := by
    intro s kth hs hk
    rw [List.getD_eq_getElem _ _ hk]
    rw [← List.take_append_drop kth s, List.pairwise_append] at hs
    have hdrop := List.drop_eq_getElem_cons hk
    constructor
    · intro b hb
      apply hs.2.2 b hb
      rw [hdrop]
      exact List.mem_cons_self
    · intro b hb
      rw [hdrop] at hb hs
      obtain rfl | hb := List.mem_cons.mp hb
      · exact le_rfl
      · exact (List.pairwise_cons.mp hs.2.1).1 b hb
  have hkth : ∀ (l : List K) (kth : ℕ), kth < l.length →
      kth < (takeAlong l ((List.range l.length).insertionSort fun i j =>
        l.getD i 0 ≤ l.getD j 0)).length := by
    intro l kth hk
    rwa [length_takeAlong, (hperm l).length_eq, List.length_range]
  constructor
  · exact hperm
  · exact hsorted
  · exact fun l _ _ => hperm l
  · exact fun l kth hk => (hsplit _ kth (hsorted l) (hkth l kth hk)).1
  · exact fun l kth hk => (hsplit _ kth (hsorted l) (hkth l kth hk)).2

/-- The optimised scores are the plain ones: the top of the ranked similarities, the folder items
that have them, and their mean, which more neighbours never raise. -/
theorem knnDensity_spec (hnp : np.Contract) (candidates folder : List (Embedding K d))
    (hfolder : folder ≠ []) (knn : ℤ) (weights : Option (List K))
    (hw : ∀ w ∈ weights, w.length = folder.length ∧ ∀ x ∈ w, 0 < x) :
    let m := (max 1 (min knn folder.length)).toNat
    let scores := knnDensity np candidates folder knn weights
    scores.heat.length = candidates.length ∧
    scores.neighbours.length = candidates.length ∧
    scores.neighbourSims.length = candidates.length ∧
    (∀ (i : ℕ) (c : Embedding K d), candidates[i]? = some c → ∃ top topSims heat,
      scores.neighbours[i]? = some top ∧ scores.neighbourSims[i]? = some topSims ∧
      scores.heat[i]? = some heat ∧
      IsKnn (sims (normalise np folder) (normaliseRow np c)) m weights top topSims heat) ∧
    ∀ knn', knn ≤ knn' → ∀ (i : ℕ) heat heat',
      (knnDensity np candidates folder knn none).heat[i]? = some heat →
      (knnDensity np candidates folder knn' none).heat[i]? = some heat' → heat' ≤ heat := by
  intro m scores
  have hP : 0 < folder.length := List.length_pos_of_ne_nil hfolder
  have hrow : ∀ c, (sims (normalise np folder) (normaliseRow np c)).length = folder.length := by
    intro c
    rw [sims, normalise, List.length_map, List.length_map]
  refine ⟨?_, ?_, ?_, ?_, ?_⟩
  · simp only [scores, knnDensity, normalise, List.length_map]
  · simp only [scores, knnDensity, normalise, List.length_map]
  · simp only [scores, knnDensity, normalise, List.length_map]
  · intro i c hc
    obtain ⟨htop, hsims, hheat⟩ := getElem?_knnDensity np folder knn weights hc
    refine ⟨_, _, _, htop, hsims, hheat, ?_⟩
    apply isKnn_nearest hnp
    · rwa [hrow]
    · exact neighbourCount_pos knn _
    · rw [hrow]
      exact neighbourCount_le knn hP
  · intro knn' hknn i heat heat' h h'
    have hi : i < candidates.length := by
      obtain ⟨hlt, _⟩ := List.getElem?_eq_some_iff.mp h
      simpa only [knnDensity, normalise, List.length_map] using hlt
    have hc := List.getElem?_eq_getElem hi
    rw [(getElem?_knnDensity np folder knn none hc).2.2, Option.some_inj] at h
    rw [(getElem?_knnDensity np folder knn' none hc).2.2, Option.some_inj] at h'
    rw [← h, ← h']
    apply heatOf_nearest_antitone hnp (neighbourCount_pos knn _) (neighbourCount_mono hknn _)
    rw [hrow]
    exact neighbourCount_le knn' hP

theorem knnDensity_spec_two_posts :
    let folder : List (Embedding ℚ 2) := [![1, 0], ![0, 1]]
    let scores := knnDensity (sortingNumpy id) [![1, 0]] folder 2 (some [1, 2])
    ∃ top topSims heat, scores.neighbours[0]? = some top ∧
      scores.neighbourSims[0]? = some topSims ∧ scores.heat[0]? = some heat ∧
      IsKnn (sims (normalise (sortingNumpy id) folder) (normaliseRow (sortingNumpy id) ![1, 0])) 2
        (some [1, 2]) top topSims heat :=
  (knnDensity_spec (contract_sortingNumpy id) [![1, 0]] [![1, 0], ![0, 1]]
    (List.cons_ne_nil _ _) 2 (some [1, 2]) (by
      intro w hw
      rw [Option.mem_some_iff] at hw
      subst hw
      simp)).2.2.2.1 0 _ rfl

end Claims

end FolderScoring
end RagPipeline
