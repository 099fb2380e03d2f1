import RagPipeline.Services.FolderScoring

namespace RagPipeline
namespace FolderScoring

open Argmax (argmax argmax_lt)

variable {K : Type} [Field K] [LinearOrder K] {d : ℕ} {np : Numpy K}

/-- The labels of `n` items in `k` clusters. -/
structure IsLabelling (n k : ℕ) (labels : List ℤ) : Prop where
  length : labels.length = n
  nonneg : ∀ c ∈ labels, 0 ≤ c
  lt : ∀ c ∈ labels, c < k

/-- The parts of a profile fit together and to a folder of `n` items. -/
structure FolderProfile.Fits (p : FolderProfile K d) (n : ℕ) : Prop where
  labelling : IsLabelling n p.k p.labels
  centroids : p.centroids.length = p.k
  sizes : p.sizes = clusterSizes p.labels p.k

theorem isLabelling_assign {x centroids : List (Embedding K d)} {k : ℕ} (hk : 0 < k)
    (h : centroids.length = k) : IsLabelling x.length k (assign x centroids) := by
  have hlt : ∀ v : Embedding K d, argmax (sims centroids v) < k := by
    intro v
    have hlen : (sims centroids v).length = k := by rw [sims, List.length_map, h]
    rw [← hlen]
    apply argmax_lt
    apply List.ne_nil_of_length_pos
    omega
  constructor
  · exact List.length_map _
  · intro c hc
    obtain ⟨v, _, rfl⟩ := List.mem_map.mp hc
    exact Int.natCast_nonneg _
  · intro c hc
    obtain ⟨v, _, rfl⟩ := List.mem_map.mp hc
    exact Int.ofNat_lt.mpr (hlt v)

theorem length_recentre (x centroids : List (Embedding K d)) (k : ℕ) (labels : List ℤ) :
    (recentre np x centroids k labels).length = k := by
  rw [recentre, List.length_map, List.length_range]

theorem kmeansRounds_fits {x : List (Embedding K d)} {k : ℕ} (hk : 0 < k) (rounds : ℕ)
    {labels : List ℤ} {centroids : List (Embedding K d)} (hl : IsLabelling x.length k labels)
    (hc : centroids.length = k) :
    IsLabelling x.length k (kmeansRounds np x k rounds labels centroids).1 ∧
    (kmeansRounds np x k rounds labels centroids).2.length = k := by
  induction rounds generalizing labels centroids with
  | zero => exact ⟨hl, hc⟩
  | succ rounds ih =>
    simp only [kmeansRounds]
    split_ifs
    · exact ⟨hl, hc⟩
    · exact ih (isLabelling_assign hk hc) (length_recentre _ _ _ _)

theorem kmeansRounds_start_fits {x : List (Embedding K d)} (hx : x ≠ []) {k : ℕ} (hk : 0 < k)
    (rounds : ℕ) {centroids : List (Embedding K d)} (hc : centroids.length = k) :
    IsLabelling x.length k
      (kmeansRounds np x k (rounds + 1) (List.replicate x.length (-1)) centroids).1 ∧
    (kmeansRounds np x k (rounds + 1) (List.replicate x.length (-1)) centroids).2.length = k := by
  have hassign := isLabelling_assign (x := x) hk hc
  have hne : assign x centroids ≠ List.replicate x.length (-1) := by
    intro heq
    rw [heq] at hassign
    have hmem : (-1 : ℤ) ∈ List.replicate x.length (-1) :=
      List.mem_replicate.mpr ⟨fun h0 => hx (List.length_eq_zero_iff.mp h0), rfl⟩
    have := hassign.nonneg (-1) hmem
    omega
  simp only [kmeansRounds, if_neg hne]
  exact kmeansRounds_fits hk rounds hassign (length_recentre _ _ _ _)

theorem length_kmeansPlusPlus (x : List (Embedding K d)) {k : ℕ} (hk : 0 < k)
    (rng : np.Generator) : (kmeansPlusPlus np x k rng).length = k := by
  have hdraws : ∀ (m : ℕ) (s : Seeding K np),
      ((Seeding.draw np x)^[m] s).idx.length = s.idx.length + m := by
    intro m
    induction m with
    | zero => exact fun _ => rfl
    | succ m ih =>
      intro s
      rw [Function.iterate_succ_apply, ih]
      simp only [Seeding.draw, List.length_append, List.length_singleton]
      omega
  simp only [kmeansPlusPlus, takeAlong, List.length_map, hdraws, List.length_singleton]
  omega

variable (np) in
theorem kmeansRun_fits {x : List (Embedding K d)} (hx : x ≠ []) {k : ℕ} (hk : 0 < k) (seed : ℕ) :
    IsLabelling x.length k (kmeansRun np x k seed).2.1 ∧
    (kmeansRun np x k seed).2.2.length = k :=
  kmeansRounds_start_fits hx hk 49 (length_kmeansPlusPlus x hk _)

section Best

variable {α : Type} {l : List (K × α)}

omit [Field K] in
theorem foldl_keepBest_some (l : List (K × α)) (b : K × α) :
    ∃ c ∈ b :: l, l.foldl keepBest (some b) = some c := by
  induction l generalizing b with
  | nil => exact ⟨b, List.mem_cons_self, rfl⟩
  | cons a l ih =>
    rw [List.foldl_cons, keepBest]
    split_ifs
    · obtain ⟨c, hc, h⟩ := ih a
      exact ⟨c, List.mem_cons_of_mem b hc, h⟩
    · obtain ⟨c, hc, h⟩ := ih b
      obtain rfl | hc := List.mem_cons.mp hc
      · exact ⟨c, List.mem_cons_self, h⟩
      · exact ⟨c, List.mem_cons_of_mem b (List.mem_cons_of_mem a hc), h⟩

omit [Field K] in
theorem mem_of_foldl_keepBest {b : K × α} (h : l.foldl keepBest none = some b) : b ∈ l := by
  cases l with
  | nil => exact nomatch h
  | cons a l =>
    obtain ⟨c, hc, heq⟩ := foldl_keepBest_some l a
    rw [List.foldl_cons, keepBest, heq, Option.some_inj] at h
    rwa [← h]

end Best

theorem sphericalKmeans_fits {x : List (Embedding K d)} (hx : x ≠ []) {k : ℕ} (hk : 0 < k)
    (hkx : k ≤ x.length) {seed : ℕ} {labels : List ℤ} {centroids : List (Embedding K d)}
    (h : sphericalKmeans np x k seed = some (labels, centroids)) :
    IsLabelling x.length k labels ∧ centroids.length = k := by
  have hlen : (normalise np x).length = x.length := List.length_map _
  have hne : normalise np x ≠ [] := by
    apply List.ne_nil_of_length_pos
    rw [hlen]
    exact List.length_pos_of_ne_nil hx
  rw [sphericalKmeans, Option.map_eq_some_iff] at h
  obtain ⟨best, hbest, heq⟩ := h
  obtain ⟨run, _, rfl⟩ := List.mem_map.mp (mem_of_foldl_keepBest hbest)
  rw [hlen, Nat.min_eq_left hkx] at heq
  have hrun := kmeansRun_fits np hne hk (seed + run)
  rwa [heq, hlen] at hrun

theorem candidateProfile_fits {x : List (Embedding K d)} (hx : x ≠ []) {k : ℕ} (hk : 0 < k)
    (hkx : k ≤ x.length) {s : K} {p : FolderProfile K d}
    (h : candidateProfile np x k = some (s, p)) : p.Fits x.length := by
  rw [candidateProfile, Option.bind_eq_bind, Option.bind_eq_some_iff] at h
  obtain ⟨⟨labels, centroids⟩, hrun, h⟩ := h
  obtain ⟨hlabels, hcentroids⟩ := sphericalKmeans_fits hx hk hkx hrun
  simp only [Option.ite_none_left_eq_some, Option.some_inj, Prod.mk.injEq] at h
  obtain ⟨_, _, rfl⟩ := h
  have hkeq : (clusterSizes labels k).length = k := by
    rw [clusterSizes, List.length_map, List.length_range]
  constructor
  · simpa only [FolderProfile.k, hkeq] using hlabels
  · simpa only [FolderProfile.k, hkeq] using hcentroids
  · simp only [FolderProfile.k, hkeq]

variable (np) in
theorem oneTheme_fits (x : List (Embedding K d)) : (oneTheme np x).Fits x.length := by
  constructor
  · constructor
    · exact List.length_replicate
    · intro c hc
      exact (List.eq_of_mem_replicate hc).ge
    · intro c hc
      rw [List.eq_of_mem_replicate hc]
      exact Int.zero_lt_one
  · rfl
  · simp [oneTheme, FolderProfile.k, clusterSizes, List.count_replicate]

variable (np) in
theorem buildProfile_fits {folder : List (Embedding K d)} (h : folder ≠ []) (maxClusters : ℤ) :
    (buildProfile np folder maxClusters).Fits folder.length := by
  have hlen : (normalise np folder).length = folder.length := List.length_map _
  have hone := oneTheme_fits np (normalise np folder)
  rw [hlen] at hone
  have hne : normalise np folder ≠ [] := by
    apply List.ne_nil_of_length_pos
    rw [hlen]
    exact List.length_pos_of_ne_nil h
  simp only [buildProfile, hlen, minClusterSize]
  split_ifs with hmax
  · exact hone
  · split
    · exact hone
    · rename_i best hbest
      split_ifs
      · exact hone
      · obtain ⟨k, hk, hprofile⟩ := List.mem_filterMap.mp (mem_of_foldl_keepBest hbest)
        have hrange := List.mem_range'_1.mp hk
        rw [← hlen]
        apply candidateProfile_fits hne (by omega) (by omega) hprofile

end FolderScoring
end RagPipeline
