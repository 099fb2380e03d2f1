import Mathlib.Algebra.BigOperators.Field
import Mathlib.Algebra.BigOperators.Fin
import Mathlib.Algebra.Order.BigOperators.Ring.Finset
import Mathlib.Data.Rat.Sqrt
import Mathlib.Tactic.Linarith
import RagPipeline.Lib.Clusters
import RagPipeline.Services.FolderProfile
import RagPipeline.Services.KnnDensity

namespace RagPipeline
namespace FolderScoring

open Argmax (argmax argmin argmax_lt isFirstMax_argmax)

variable {K : Type} [Field K] [LinearOrder K] {d : ℕ} {np : Numpy K}

/-- `np.linalg.norm` is the length of a vector. -/
def ExactNorm (np : Numpy K) (d : ℕ) : Prop :=
  ∀ v : Embedding K d, 0 ≤ norm np v ∧ norm np v * norm np v = dotProduct v v

/-- The total within-cluster similarity. -/
def within (x centroids : List (Embedding K d)) : K :=
  (x.map fun v => maximum (sims centroids v)).sum

def labelOf (centroids : List (Embedding K d)) (v : Embedding K d) : ℕ := argmax (sims centroids v)

section Labels

variable {x centroids : List (Embedding K d)} {v : Embedding K d}

omit [LinearOrder K] in
theorem length_sims (centroids : List (Embedding K d)) (v : Embedding K d) :
    (sims centroids v).length = centroids.length := List.length_map _

theorem labelOf_lt (h : centroids ≠ []) : labelOf centroids v < centroids.length := by
  rw [← length_sims centroids v]
  apply argmax_lt
  rw [ne_eq, ← List.length_eq_zero_iff, length_sims, List.length_eq_zero_iff]
  exact h

theorem le_maximum_sims {c : ℕ} (hc : c < centroids.length) :
    dotProduct (centroids.getD c 0) v ≤ maximum (sims centroids v) := by
  apply le_maximum
  rw [List.getD_eq_getElem _ _ hc]
  exact List.mem_map_of_mem (List.getElem_mem hc)

theorem maximum_mem {l : List K} (h : l ≠ []) : maximum l ∈ l := by
  have hsome : l.max? = some (l.max h) := List.max?_eq_some_max _
  rw [maximum, hsome, Option.getD_some]
  exact List.max_mem h

theorem maximum_sims (h : centroids ≠ []) :
    maximum (sims centroids v) = dotProduct (centroids.getD (labelOf centroids v) 0) v := by
  have hlt := labelOf_lt (v := v) h
  apply le_antisymm _ (le_maximum_sims hlt)
  have hne : sims centroids v ≠ [] := by
    rw [ne_eq, ← List.length_eq_zero_iff, length_sims, List.length_eq_zero_iff]
    exact h
  obtain ⟨u, hu, hmax⟩ := List.mem_map.mp (maximum_mem hne)
  obtain ⟨i, hi, rfl⟩ := List.getElem_of_mem hu
  have hfirst := isFirstMax_argmax (l := sims centroids v)
    (f := fun i => dotProduct (centroids.getD i 0) v) (length_sims centroids v)
    (List.length_pos_of_ne_nil h) (fun i hi => by
      have hi' : i < centroids.length := length_sims centroids v ▸ hi
      simp only [sims, List.getElem_map, List.getD_eq_getElem _ _ hi'])
  have hle := hfirst.le i hi
  simp only [List.getD_eq_getElem _ _ hi] at hle
  exact hmax.ge.trans hle

omit [Field K] [LinearOrder K] in
theorem members_map (label : Embedding K d → ℕ) (c : ℕ) :
    members x (x.map fun v => (label v : ℤ)) c = x.filter fun v => label v = c := by
  unfold members
  induction x with
  | nil => rfl
  | cons v x ih =>
    rw [List.map_cons, List.zip_cons_cons, List.filter_cons, List.filter_cons]
    by_cases h : label v = c <;> simp [h, ih]

end Labels

section Centroids

variable [IsStrictOrderedRing K]

/-- A vector of length at most one. -/
def InBall (v : Embedding K d) : Prop := dotProduct v v ≤ 1

theorem dotProduct_sq_le (u v : Embedding K d) :
    dotProduct u v ^ 2 ≤ dotProduct u u * dotProduct v v := by
  have h := Finset.sum_mul_sq_le_sq_mul_sq Finset.univ u v
  simpa only [dotProduct, sq] using h

omit [IsStrictOrderedRing K] in
theorem normaliseRow_of_zero {v : Embedding K d} (h : norm np v = 0) : normaliseRow np v = v := by
  funext i
  rw [normaliseRow, if_pos h, div_one]

omit [IsStrictOrderedRing K] in
theorem dotProduct_normaliseRow {v : Embedding K d} (h : norm np v ≠ 0) (u : Embedding K d) :
    dotProduct (normaliseRow np v) u = dotProduct v u / norm np v := by
  unfold dotProduct normaliseRow
  rw [Finset.sum_div]
  apply Finset.sum_congr rfl
  intro i _
  rw [if_neg h, div_mul_eq_mul_div]

theorem inBall_normaliseRow (hnorm : ExactNorm np d) (v : Embedding K d) :
    InBall (normaliseRow np v) := by
  obtain ⟨hnonneg, hsq⟩ := hnorm v
  by_cases h : norm np v = 0
  · rw [normaliseRow_of_zero h, InBall, ← hsq, h, mul_zero]
    exact zero_le_one
  · rw [InBall, dotProduct_normaliseRow h, dotProduct_comm, dotProduct_normaliseRow h, ← hsq,
      mul_div_assoc, div_self h, mul_one, div_self h]

theorem inBall_zero : InBall (0 : Embedding K d) := by
  rw [InBall, zero_dotProduct]
  exact zero_le_one

/-- No vector of length at most one is nearer to the sum of a cluster than its direction. -/
theorem dotProduct_le_normaliseRow (hnorm : ExactNorm np d) (s : Embedding K d)
    {u : Embedding K d} (hu : InBall u) :
    dotProduct u s ≤ dotProduct (normaliseRow np s) s := by
  obtain ⟨hnonneg, hsq⟩ := hnorm s
  have hle : dotProduct u s ^ 2 ≤ norm np s ^ 2 := by
    calc dotProduct u s ^ 2
      _ ≤ dotProduct u u * dotProduct s s := dotProduct_sq_le u s
      _ ≤ 1 * dotProduct s s := by
          apply mul_le_mul_of_nonneg_right hu
          rw [← hsq]
          exact mul_nonneg hnonneg hnonneg
      _ = norm np s ^ 2 := by rw [one_mul, ← hsq, sq]
  have hus : dotProduct u s ≤ norm np s := le_of_sq_le_sq hle hnonneg
  by_cases h : norm np s = 0
  · rw [normaliseRow_of_zero h, ← hsq, h, mul_zero, ← h]
    exact hus
  · rw [dotProduct_normaliseRow h, ← hsq, mul_div_assoc, div_self h, mul_one]
    exact hus

omit [LinearOrder K] [IsStrictOrderedRing K] in
theorem sum_map_dotProduct (l : List (Embedding K d)) (u : Embedding K d) :
    (l.map fun v => dotProduct u v).sum = dotProduct u l.sum := by
  induction l with
  | nil => rw [List.map_nil, List.sum_nil, List.sum_nil, dotProduct_zero]
  | cons v l ih => rw [List.map_cons, List.sum_cons, List.sum_cons, ih, dotProduct_add]

omit [IsStrictOrderedRing K] in
theorem getD_recentre {x centroids : List (Embedding K d)} {k : ℕ} {labels : List ℤ} {c : ℕ}
    (hc : c < k) (hne : members x labels c ≠ []) :
    (recentre np x centroids k labels).getD c 0 = normaliseRow np (members x labels c).sum := by
  have hlen : c < (recentre np x centroids k labels).length := by rwa [length_recentre]
  rw [List.getD_eq_getElem _ _ hlen]
  simp only [recentre, List.getElem_map, List.getElem_range]
  rw [if_neg (by simpa using hne)]

/-- A cluster is as near to its new centroid as to its old one. An empty cluster has nothing to
lose. -/
theorem cluster_le_recentre (hnorm : ExactNorm np d) {x centroids : List (Embedding K d)}
    (hball : ∀ u ∈ centroids, InBall u) {c : ℕ} (hc : c < centroids.length) :
    ((x.filter fun v => labelOf centroids v = c).map fun v =>
        dotProduct (centroids.getD c 0) v).sum ≤
      ((x.filter fun v => labelOf centroids v = c).map fun v =>
        dotProduct ((recentre np x centroids centroids.length (assign x centroids)).getD c 0)
          v).sum := by
  have hmembers : members x (assign x centroids) c = x.filter fun v => labelOf centroids v = c :=
    members_map (labelOf centroids) c
  by_cases hne : members x (assign x centroids) c = []
  · rw [← hmembers, hne, List.map_nil, List.map_nil]
  · rw [sum_map_dotProduct, sum_map_dotProduct, getD_recentre hc hne, hmembers]
    apply dotProduct_le_normaliseRow hnorm
    rw [List.getD_eq_getElem _ _ hc]
    exact hball _ (List.getElem_mem hc)

/-- A round loses nothing of the total similarity. -/
theorem within_le_recentre (hnorm : ExactNorm np d) {x centroids : List (Embedding K d)}
    (hball : ∀ u ∈ centroids, InBall u) (hne : centroids ≠ []) :
    within x centroids ≤
      within x (recentre np x centroids centroids.length (assign x centroids)) := by
  have hlen : (recentre np x centroids centroids.length (assign x centroids)).length =
      centroids.length := length_recentre x centroids centroids.length (assign x centroids)
  apply Clusters.total_le_of_moved (fun v u => dotProduct u v) (fun c => centroids.getD c 0)
    fun c => (recentre np x centroids centroids.length (assign x centroids)).getD c 0
  · exact fun v _ => (labelOf_lt hne : labelOf centroids v < centroids.length)
  · exact fun v _ => maximum_sims hne
  · intro v _
    apply le_maximum_sims
    rw [hlen]
    exact labelOf_lt hne
  · exact fun c hc => cluster_le_recentre hnorm hball hc

theorem inBall_getD {x : List (Embedding K d)} (hx : ∀ v ∈ x, InBall v) (i : ℕ) :
    InBall (x.getD i 0) := by
  rw [List.getD_eq_getElem?_getD]
  cases h : x[i]? with
  | none => exact inBall_zero
  | some v => exact hx v (List.mem_of_getElem? h)

theorem inBall_recentre (hnorm : ExactNorm np d) {x centroids : List (Embedding K d)}
    (hx : ∀ v ∈ x, InBall v) (k : ℕ) (labels : List ℤ) :
    ∀ u ∈ recentre np x centroids k labels, InBall u := by
  intro u hu
  obtain ⟨c, -, rfl⟩ := List.mem_map.mp hu
  simp only
  split_ifs
  · exact inBall_getD hx _
  · exact inBall_normaliseRow hnorm _

/-- With more rounds the total similarity is at least as large. -/
theorem within_kmeansRounds (hnorm : ExactNorm np d) {x : List (Embedding K d)}
    (hx : ∀ v ∈ x, InBall v) {k : ℕ} (hk : 0 < k) (rounds : ℕ) {labels : List ℤ}
    {centroids : List (Embedding K d)} (hlen : centroids.length = k)
    (hball : ∀ u ∈ centroids, InBall u) :
    within x (kmeansRounds np x k rounds labels centroids).2 ≤
      within x (kmeansRounds np x k (rounds + 1) labels centroids).2 := by
  have hne : centroids ≠ [] := List.ne_nil_of_length_pos (hlen ▸ hk)
  induction rounds generalizing labels centroids with
  | zero =>
    simp only [kmeansRounds]
    split_ifs
    · exact le_rfl
    · subst hlen
      exact within_le_recentre hnorm hball hne
  | succ rounds ih =>
    have hlen' : (recentre np x centroids k (assign x centroids)).length = k :=
      length_recentre x centroids k (assign x centroids)
    rw [kmeansRounds, kmeansRounds]
    split_ifs
    · exact le_rfl
    · exact ih hlen' (inBall_recentre hnorm hx k _) (List.ne_nil_of_length_pos (hlen'.symm ▸ hk))

theorem inBall_normalise (hnorm : ExactNorm np d) (x : List (Embedding K d)) :
    ∀ v ∈ normalise np x, InBall v := by
  intro v hv
  obtain ⟨u, -, rfl⟩ := List.mem_map.mp hv
  exact inBall_normaliseRow hnorm u

theorem inBall_kmeansPlusPlus {x : List (Embedding K d)} (hx : ∀ v ∈ x, InBall v) (k : ℕ)
    (rng : np.Generator) : ∀ u ∈ kmeansPlusPlus np x k rng, InBall u := by
  intro u hu
  obtain ⟨i, -, rfl⟩ := List.mem_map.mp hu
  exact inBall_getD hx i

omit [Field K] [IsStrictOrderedRing K] in
/-- What is kept is at least as good as all that was tried. -/
theorem le_of_foldl_keepBest {α : Type} {l : List (K × α)} {o : Option (K × α)} {b : K × α}
    (h : l.foldl keepBest o = some b) : (∀ a ∈ o, a.1 ≤ b.1) ∧ ∀ a ∈ l, a.1 ≤ b.1 := by
  induction l generalizing o with
  | nil =>
    obtain rfl : o = some b := h
    refine ⟨fun a ha => ?_, fun a ha => absurd ha List.not_mem_nil⟩
    rw [Option.mem_some.mp ha]
  | cons a l ih =>
    rw [List.foldl_cons] at h
    obtain ⟨hkept, hrest⟩ := ih h
    cases o with
    | none =>
      have ha : a.1 ≤ b.1 := hkept a rfl
      exact ⟨fun a ha => absurd ha (Option.not_mem_none a), List.forall_mem_cons.mpr ⟨ha, hrest⟩⟩
    | some c =>
      rw [keepBest] at hkept
      split_ifs at hkept with hlt
      · have ha : a.1 ≤ b.1 := hkept a rfl
        refine ⟨fun e he => ?_, List.forall_mem_cons.mpr ⟨ha, hrest⟩⟩
        rw [← Option.mem_some.mp he]
        exact hlt.le.trans ha
      · have hc : c.1 ≤ b.1 := hkept c rfl
        refine ⟨fun e he => ?_, List.forall_mem_cons.mpr ⟨(not_lt.mp hlt).trans hc, hrest⟩⟩
        rwa [← Option.mem_some.mp he]

omit [Field K] [IsStrictOrderedRing K] in
theorem exists_foldl_keepBest {α : Type} {l : List (K × α)} (h : l ≠ []) :
    ∃ b ∈ l, l.foldl keepBest none = some b := by
  cases l with
  | nil => exact absurd rfl h
  | cons a l => exact foldl_keepBest_some l a

/-- The start of a run, and the centroids after some rounds. -/
def seeded (np : Numpy K) (x : List (Embedding K d)) (k seed : ℕ) : List (Embedding K d) :=
  kmeansPlusPlus np x k (np.defaultRng seed)

def centroidsAfter (np : Numpy K) (x : List (Embedding K d)) (k seed rounds : ℕ) :
    List (Embedding K d) :=
  (kmeansRounds np x k rounds (List.replicate x.length (-1)) (seeded np x k seed)).2

/-- No round of `spherical_kmeans` loses similarity, whatever its generator draws and however often
a cluster is left empty, and the centroids that it returns are at least as good as those of every
round of every run. -/
theorem sphericalKmeans_best (hnorm : ExactNorm np d) {x : List (Embedding K d)} (hx : x ≠ [])
    {k : ℕ} (hk : 0 < k) (seed : ℕ) :
    (∀ run, Monotone fun rounds =>
      within (normalise np x) (centroidsAfter np (normalise np x) (min k x.length) run rounds)) ∧
    ∃ labels centroids, sphericalKmeans np x k seed = some (labels, centroids) ∧
      ∀ run < nInit, ∀ rounds ≤ maxIter,
        within (normalise np x)
            (centroidsAfter np (normalise np x) (min k x.length) (seed + run) rounds) ≤
          within (normalise np x) centroids := by
  have hlen : (normalise np x).length = x.length := List.length_map _
  have hmin : 0 < min k x.length := by
    have := List.length_pos_of_ne_nil hx
    omega
  have hball := inBall_normalise hnorm x
  have hmono : ∀ run, Monotone fun rounds =>
      within (normalise np x)
        (centroidsAfter np (normalise np x) (min k x.length) run rounds) := by
    intro run
    apply monotone_nat_of_le_succ
    intro rounds
    exact within_kmeansRounds hnorm hball hmin rounds (length_kmeansPlusPlus _ hmin _)
      (inBall_kmeansPlusPlus hball _ _)
  refine ⟨hmono, ?_⟩
  let runs := (List.range nInit).map fun run =>
    kmeansRun np (normalise np x) (min k x.length) (seed + run)
  have hruns : runs ≠ [] := by
    apply List.ne_nil_of_length_pos
    rw [List.length_map, List.length_range]
    decide
  obtain ⟨best, hmem, hbest⟩ := exists_foldl_keepBest hruns
  obtain ⟨chosen, -, hchosen⟩ := List.mem_map.mp hmem
  have hscore : best.1 = within (normalise np x) best.2.2 := by
    rw [← hchosen]
    rfl
  refine ⟨best.2.1, best.2.2, ?_, fun run hrun rounds hrounds => ?_⟩
  · simp only [sphericalKmeans, hlen]
    exact congrArg (Option.map Prod.snd) hbest
  · have hle := (le_of_foldl_keepBest hbest).2 _
      (List.mem_map_of_mem (List.mem_range.mpr hrun))
    rw [hscore] at hle
    exact (hmono (seed + run) hrounds).trans hle

theorem exactNorm_sqrt : ExactNorm (sortingNumpy Rat.sqrt) 1 := by
  intro v
  have hnorm : norm (sortingNumpy Rat.sqrt) v = |v 0| := by
    rw [← Rat.sqrt_eq, norm, dotProduct, Fin.sum_univ_one]
    rfl
  rw [hnorm, dotProduct, Fin.sum_univ_one]
  exact ⟨abs_nonneg _, abs_mul_abs_self _⟩

theorem sphericalKmeans_best_line :
    ∃ labels centroids,
      sphericalKmeans (sortingNumpy Rat.sqrt) [![(3 : ℚ)], ![-2], ![1]] 2 0 =
        some (labels, centroids) ∧
      ∀ run < nInit, ∀ rounds ≤ maxIter,
        within (normalise (sortingNumpy Rat.sqrt) [![(3 : ℚ)], ![-2], ![1]])
            (centroidsAfter (sortingNumpy Rat.sqrt)
              (normalise (sortingNumpy Rat.sqrt) [![(3 : ℚ)], ![-2], ![1]]) 2 (0 + run) rounds) ≤
          within (normalise (sortingNumpy Rat.sqrt) [![(3 : ℚ)], ![-2], ![1]]) centroids :=
  (sphericalKmeans_best exactNorm_sqrt (List.cons_ne_nil _ _) Nat.two_pos 0).2

theorem mean_mem {l : List K} {lo hi : K} (hlo : lo ≤ 0) (hhi : 0 ≤ hi)
    (h : ∀ a ∈ l, lo ≤ a ∧ a ≤ hi) : lo ≤ mean l ∧ mean l ≤ hi := by
  unfold mean
  obtain rfl | hne := eq_or_ne l []
  · simpa using ⟨hlo, hhi⟩
  · have hpos : (0 : K) < l.length := Nat.cast_pos.mpr (List.length_pos_of_ne_nil hne)
    rw [le_div_iff₀ hpos, div_le_iff₀ hpos, mul_comm lo, mul_comm hi, ← nsmul_eq_mul,
      ← nsmul_eq_mul]
    exact ⟨List.card_nsmul_le_sum l lo fun a ha => (h a ha).1,
      List.sum_le_card_nsmul l hi fun a ha => (h a ha).2⟩

theorem ratio_mem {a b : K} (ha : 0 ≤ a) (hb : 0 ≤ b) {least : K} (hleast : 0 < least) :
    -1 ≤ (b - a) / max (max a b) least ∧ (b - a) / max (max a b) least ≤ 1 := by
  have hpos : 0 < max (max a b) least := lt_max_of_lt_right hleast
  have hamax : a ≤ max (max a b) least := (le_max_left a b).trans (le_max_left _ _)
  have hbmax : b ≤ max (max a b) least := (le_max_right a b).trans (le_max_left _ _)
  rw [le_div_iff₀ hpos, div_le_iff₀ hpos]
  constructor <;> linarith

omit [IsStrictOrderedRing K] in
theorem minimum_nonneg {l : List K} (h : ∀ a ∈ l, 0 ≤ a) : 0 ≤ minimum l := by
  unfold minimum
  cases hmin : l.min? with
  | none => exact le_rfl
  | some a => exact h a (List.min?_mem hmin)

theorem silhouetteOf_mem (x : List (Embedding K d)) (labels : List ℤ) (v : Embedding K d)
    (label : ℤ) : -1 ≤ silhouetteOf x labels v label ∧ silhouetteOf x labels v label ≤ 1 := by
  have hdist : ∀ c, ∀ a ∈ (members x labels c).map fun u => max (1 - dotProduct v u) 0,
      0 ≤ a := by
    intro c a ha
    obtain ⟨u, -, rfl⟩ := List.mem_map.mp ha
    exact le_max_right _ _
  unfold silhouetteOf
  simp only
  split_ifs with hone
  · exact ⟨neg_nonpos.mpr zero_le_one, zero_le_one⟩
  · apply ratio_mem
    · apply div_nonneg (List.sum_nonneg (hdist label))
      have hlen : (1 : K) < ((members x labels label).map fun u =>
          max (1 - dotProduct v u) 0).length := by
        exact_mod_cast not_le.mp hone
      linarith
    · apply minimum_nonneg
      intro a ha
      obtain ⟨c, -, rfl⟩ := List.mem_map.mp ha
      exact div_nonneg (List.sum_nonneg (hdist c)) (Nat.cast_nonneg _)
    · positivity

theorem silhouette_mem (x : List (Embedding K d)) (labels : List ℤ) :
    -1 ≤ silhouette np x labels ∧ silhouette np x labels ≤ 1 := by
  unfold silhouette
  simp only
  split_ifs
  · exact ⟨neg_nonpos.mpr zero_le_one, zero_le_one⟩
  · apply mean_mem (neg_nonpos.mpr zero_le_one) zero_le_one
    intro a ha
    obtain ⟨p, -, rfl⟩ := List.mem_map.mp ha
    exact silhouetteOf_mem _ _ _ _

/-- A folder in several themes: each item is in one of them, as the labels of the best run tell, and
`s` is their silhouette. -/
structure Themes (np : Numpy K) (folder : List (Embedding K d)) (maxClusters : ℤ)
    (p : FolderProfile K d) (s : K) : Prop extends p.Fits folder.length where
  several : 2 ≤ p.k
  atMost : (p.k : ℤ) ≤ maxClusters
  enough : p.k * minClusterSize ≤ folder.length
  clustered : sphericalKmeans np (normalise np folder) p.k 0 = some (p.labels, p.centroids)
  noSingleton : ∀ size ∈ p.sizes, 2 ≤ size
  total : p.sizes.sum = folder.length
  shown : p.silhouette = some s
  silhouette : s = silhouette np (normalise np folder) p.labels
  clear : minSilhouette ≤ s
  le_one : s ≤ 1
  best : ∀ (k : ℕ) q t, 2 ≤ k → (k : ℤ) ≤ maxClusters → k * minClusterSize ≤ folder.length →
    candidateProfile np (normalise np folder) k = some (t, q) → t ≤ s

/-- There is no number of themes that is clear enough. -/
def Unclear (np : Numpy K) (folder : List (Embedding K d)) (maxClusters : ℤ) : Prop :=
  ∀ (k : ℕ) q t, 2 ≤ k → (k : ℤ) ≤ maxClusters → k * minClusterSize ≤ folder.length →
    candidateProfile np (normalise np folder) k = some (t, q) → t < minSilhouette

theorem mem_tried {maxClusters : ℤ} {n k : ℕ} (hmax : 2 ≤ min maxClusters ((n / 4 : ℕ) : ℤ)) :
    k ∈ List.range' 2 ((min maxClusters ((n / 4 : ℕ) : ℤ)).toNat - 1) ↔
      2 ≤ k ∧ (k : ℤ) ≤ maxClusters ∧ k * 4 ≤ n := by
  rw [List.mem_range'_1]
  omega

theorem sum_clusterSizes {n k : ℕ} {labels : List ℤ} (h : IsLabelling n k labels) :
    (clusterSizes labels k).sum = n := by
  have hlabel : ∀ c ∈ labels, c.toNat < k := by
    intro c hc
    have := h.lt c hc
    have := h.nonneg c hc
    omega
  have hsum := Clusters.sum_by_label (fun _ _ => 1) hlabel
  have hcount : ∀ c : ℕ, (labels.filter fun a => a.toNat = c).length = labels.count (c : ℤ) := by
    intro c
    rw [List.count_eq_length_filter]
    congr 1
    apply List.filter_congr
    intro a ha
    have := h.nonneg a ha
    rw [Bool.eq_iff_iff, decide_eq_true_eq, beq_iff_eq]
    omega
  simp only [List.map_const', List.sum_replicate, smul_eq_mul, mul_one, h.length, hcount] at hsum
  exact hsum.symm

omit [IsStrictOrderedRing K] in
/-- What is tried with `k` themes and kept. -/
theorem candidateProfile_eq_some {x : List (Embedding K d)} {k : ℕ} {s : K}
    {p : FolderProfile K d} (h : candidateProfile np x k = some (s, p)) :
    p.k = k ∧ sphericalKmeans np x k 0 = some (p.labels, p.centroids) ∧
      (∀ size ∈ p.sizes, 2 ≤ size) ∧ p.silhouette = some s ∧ s = silhouette np x p.labels := by
  rw [candidateProfile, Option.bind_eq_bind, Option.bind_eq_some_iff] at h
  obtain ⟨⟨labels, centroids⟩, hrun, h⟩ := h
  simp only [Option.ite_none_left_eq_some, Option.some_inj, Prod.mk.injEq] at h
  obtain ⟨hany, rfl, rfl⟩ := h
  refine ⟨?_, hrun, fun size hsize => ?_, rfl, rfl⟩
  · simp [FolderProfile.k, clusterSizes]
  · by_contra hlt
    exact hany (List.any_eq_true.mpr ⟨size, hsize, decide_eq_true (not_le.mp hlt)⟩)

/-- The two ways in which `build_profile` ends. -/
theorem buildProfile_cases (np : Numpy K) {folder : List (Embedding K d)} (h : folder ≠ [])
    (maxClusters : ℤ) :
    (¬ Unclear np folder maxClusters ∧
      ∃ s, Themes np folder maxClusters (buildProfile np folder maxClusters) s) ∨
    Unclear np folder maxClusters ∧
      buildProfile np folder maxClusters = oneTheme np (normalise np folder) := by
  have hlen : (normalise np folder).length = folder.length := List.length_map _
  have hne : normalise np folder ≠ [] := by
    apply List.ne_nil_of_length_pos
    rw [hlen]
    exact List.length_pos_of_ne_nil h
  unfold buildProfile
  simp only [hlen, minClusterSize]
  split_ifs with hmax
  · right
    refine ⟨fun k q t hk hkmax hkn => ?_, rfl⟩
    simp only [minClusterSize] at hkn
    omega
  · have htried := fun k => mem_tried (n := folder.length) (k := k) (not_lt.mp hmax)
    split
    next hnone =>
      right
      refine ⟨fun k q t hk hkmax hkn hsome => ?_, rfl⟩
      have hmem := List.mem_filterMap.mpr ⟨k, (htried k).mpr ⟨hk, hkmax, hkn⟩, hsome⟩
      obtain ⟨b, -, hb⟩ := exists_foldl_keepBest (List.ne_nil_of_mem hmem)
      rw [hnone] at hb
      cases hb
    next best hbest =>
      have hle := (le_of_foldl_keepBest hbest).2
      split_ifs with hclear
      · right
        refine ⟨fun k q t hk hkmax hkn hsome => ?_, rfl⟩
        exact (hle _ (List.mem_filterMap.mpr
          ⟨k, (htried k).mpr ⟨hk, hkmax, hkn⟩, hsome⟩)).trans_lt hclear
      · left
        obtain ⟨k, hk, hprofile⟩ := List.mem_filterMap.mp (mem_of_foldl_keepBest hbest)
        obtain ⟨hk2, hkmax, hkn⟩ := (htried k).mp hk
        obtain ⟨hpk, hrun, hsizes, hshown, hsil⟩ := candidateProfile_eq_some hprofile
        have hfits := candidateProfile_fits hne (by omega) (by omega) hprofile
        have htotal := sum_clusterSizes hfits.labelling
        rw [← hfits.sizes, hlen] at htotal
        rw [hlen] at hfits
        refine ⟨fun hunclear => hclear (hunclear k _ _ hk2 hkmax hkn hprofile), best.1, {
          toFits := hfits
          several := hpk.symm ▸ hk2
          atMost := hpk.symm ▸ hkmax
          enough := hpk.symm ▸ hkn
          clustered := hpk.symm ▸ hrun
          noSingleton := hsizes
          total := htotal
          shown := hshown
          silhouette := hsil
          clear := not_lt.mp hclear
          le_one := hsil ▸ (silhouette_mem _ _).2
          best := fun k q t hk hkmax hkn hsome => hle _ (List.mem_filterMap.mpr
            ⟨k, (htried k).mpr ⟨hk, hkmax, hkn⟩, hsome⟩) }⟩

/-- A folder is one theme exactly if no number of themes is clear enough; otherwise it is split into
the themes that are told apart best, each of them with two items at least. -/
theorem buildProfile_themes (np : Numpy K) {folder : List (Embedding K d)} (h : folder ≠ [])
    (maxClusters : ℤ) :
    (buildProfile np folder maxClusters = oneTheme np (normalise np folder) ↔
      Unclear np folder maxClusters) ∧
    (¬ Unclear np folder maxClusters →
      ∃ s, Themes np folder maxClusters (buildProfile np folder maxClusters) s) := by
  obtain ⟨hclear, s, hthemes⟩ | ⟨hunclear, hone⟩ := buildProfile_cases np h maxClusters
  · refine ⟨iff_of_false (fun hone => ?_) hclear, fun _ => ⟨s, hthemes⟩⟩
    have hseveral := hthemes.several
    rw [hone] at hseveral
    have hlt : 2 ≤ 1 := hseveral
    omega
  · exact ⟨iff_of_true hone hunclear, fun hclear => absurd hunclear hclear⟩

/-- Four items in each of two opposite directions. -/
def opposite : List (Embedding ℚ 1) :=
  [![3], ![2], ![1], ![2], ![-2], ![-1], ![-3], ![-1]]

theorem buildProfile_themes_opposite :
    ∃ s, Themes (sortingNumpy Rat.sqrt) opposite 5 (buildProfile (sortingNumpy Rat.sqrt) opposite 5)
        s ∧
      (buildProfile (sortingNumpy Rat.sqrt) opposite 5).k = 2 := by
  have hsilhouette : ((candidateProfile (sortingNumpy Rat.sqrt)
      (normalise (sortingNumpy Rat.sqrt) opposite) 2).map Prod.fst) = some 1 := by decide +kernel
  obtain ⟨⟨s, p⟩, hprofile, rfl⟩ := Option.map_eq_some_iff.mp hsilhouette
  obtain ⟨t, hthemes⟩ :=
    (buildProfile_themes (sortingNumpy Rat.sqrt) (List.cons_ne_nil _ _ : opposite ≠ []) 5).2 (by
      intro hunclear
      have hlt := hunclear 2 p _ le_rfl (by decide) (by decide) hprofile
      revert hlt
      decide +kernel)
  refine ⟨t, hthemes, ?_⟩
  have hseveral := hthemes.several
  have henough := hthemes.enough
  simp only [opposite, minClusterSize, List.length_cons, List.length_nil] at hseveral henough ⊢
  omega

end Centroids

end FolderScoring
end RagPipeline
