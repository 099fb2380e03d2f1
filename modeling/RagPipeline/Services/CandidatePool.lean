import RagPipeline.Services.SuggestionGuarantees

namespace RagPipeline
namespace FolderSuggestion

open Coro FolderScoring FolderSuggestionRepository

/-- What may be suggested: posts that are not deleted, not in the folder, not rated, and have an
embedded chunk. -/
def eligiblePosts {K : Type} {d : ℕ} (posts : List LibraryPost) (chunks : List (LibraryChunk K d))
    (folder : List ℤ) (verdicts : OrderedDict ℤ Verdict) : List ℤ :=
  (posts.filter fun p => p.present ∧ p.postId ∉ folder ∧ (verdicts.get? p.postId).isNone ∧
    chunks.any fun c => c.postId = p.postId ∧ c.embedding.isSome).map LibraryPost.postId

section Pool

variable {K : Type} [Field K] [LinearOrder K] {d : ℕ} {np : Numpy K} {lib : Library K d}
  {db : Pgvector K d} {posts : List LibraryPost} {chunks : List (LibraryChunk K d)}
  {postsTable chunksTable : String} {folder : List ℤ} {verdicts : OrderedDict ℤ Verdict}
  {params : SuggestParams K}

def eligibleRows (posts : List LibraryPost) (chunks : List (LibraryChunk K d)) (folder : List ℤ)
    (verdicts : OrderedDict ℤ Verdict) : List (CandidateRow K d) :=
  candidateRows posts chunks
    (excludedIds (folderIds folder verdicts) (ratedPosts verdicts Verdict.negative))

def themeCentroids (np : Numpy K) (chunks : List (LibraryChunk K d)) (folder : List ℤ)
    (verdicts : OrderedDict ℤ Verdict) (params : SuggestParams K) : List (Embedding K d) :=
  (buildProfile np (folderMatrix np (meanVectors chunks (folderIds folder verdicts)))
    params.maxClusters).centroids

/-- The posts of the rows nearest to a theme, as many rows for each theme as the pool has. -/
def pooledPosts (np : Numpy K) (db : Pgvector K d) (posts : List LibraryPost)
    (chunks : List (LibraryChunk K d)) (folder : List ℤ) (verdicts : OrderedDict ℤ Verdict)
    (params : SuggestParams K) : List ℤ :=
  (((themeCentroids np chunks folder verdicts params).flatMap fun centroid =>
    nearestRows db centroid (poolSize params.k) (eligibleRows posts chunks folder verdicts)).map
      CandidateRow.postId).dedup

omit [Field K] [LinearOrder K] in
theorem mem_eligiblePosts {i : ℤ} : i ∈ eligiblePosts posts chunks folder verdicts ↔
    ∃ row ∈ eligibleRows posts chunks folder verdicts, row.postId = i := by
  rw [eligibleRows, exists_mem_candidateRows, mem_excludedIds_iff, eligiblePosts, List.mem_map,
    not_or, not_not]
  constructor
  · rintro ⟨p, hp, rfl⟩
    rw [List.mem_filter, decide_eq_true_eq] at hp
    obtain ⟨hmem, hpresent, hout, hrated, hchunk⟩ := hp
    obtain ⟨c, hc, hcp⟩ := List.any_eq_true.mp hchunk
    rw [decide_eq_true_eq] at hcp
    exact ⟨⟨hout, Option.isNone_iff_eq_none.mp hrated⟩, ⟨p, hmem, rfl, hpresent⟩, c, hc, hcp⟩
  · rintro ⟨⟨hout, hrated⟩, ⟨p, hmem, rfl, hpresent⟩, c, hc, hcp⟩
    refine ⟨p, ?_, rfl⟩
    rw [List.mem_filter, decide_eq_true_eq]
    exact ⟨hmem, hpresent, hout, Option.isNone_iff_eq_none.mpr hrated,
      List.any_eq_true.mpr ⟨c, hc, decide_eq_true hcp⟩⟩

omit [Field K] [LinearOrder K] in
theorem nodup_eligiblePosts (hposts : lib.posts (relation postsTable) = some posts)
    (chunks : List (LibraryChunk K d)) (folder : List ℤ) (verdicts : OrderedDict ℤ Verdict) :
    (eligiblePosts posts chunks folder verdicts).Nodup :=
  (lib.nodup _ posts hposts).sublist (List.filter_sublist.map _)

theorem pooledPosts_subset (hdb : db.Contract) : pooledPosts np db posts chunks folder verdicts
    params ⊆ eligiblePosts posts chunks folder verdicts := by
  intro i hi
  rw [pooledPosts, List.mem_dedup, List.mem_map] at hi
  obtain ⟨row, hrow, rfl⟩ := hi
  obtain ⟨centroid, _, hrow⟩ := List.mem_flatMap.mp hrow
  exact mem_eligiblePosts.mpr ⟨row, mem_of_mem_nearestRows hdb hrow, rfl⟩

theorem length_pooledPosts_le (hdb : db.Contract) :
    (pooledPosts np db posts chunks folder verdicts params).length ≤
      (eligiblePosts posts chunks folder verdicts).length :=
  ((List.nodup_dedup _).subperm (pooledPosts_subset hdb)).length_le

omit [LinearOrder K] in
theorem mem_keys_gather (hposts : lib.posts (relation postsTable) = some posts)
    (hchunks : lib.chunks (relation chunksTable) = some chunks) {pool : ℤ} {exclude : List ℤ}
    {centroids : List (Embedding K d)} {byPost result : OrderedDict ℤ (CandidateRow K d)}
    {s t : Unit}
    (h : run (steady (answer lib db))
      (gatherCandidates chunksTable postsTable pool exclude centroids byPost) s = (.ok result, t))
    (i : ℤ) : i ∈ result.keys ↔ i ∈ byPost.keys ∨ i ∈ (centroids.flatMap fun centroid =>
      nearestRows db centroid pool (candidateRows posts chunks exclude)).map
        CandidateRow.postId := by
  induction centroids generalizing byPost s with
  | nil =>
    cases h
    exact (or_iff_left List.not_mem_nil).symm
  | cons centroid centroids ih =>
    obtain ⟨rows, s', hcall, hrest⟩ := run_bind_ok _ h
    have hrows : rows = nearestRows db centroid pool (candidateRows posts chunks exclude) := by
      have heq := congrArg Prod.fst hcall
      rw [run_call] at heq
      have hanswer := nearestCandidates_eq db hposts hchunks centroid pool exclude
      exact (Except.ok.inj (hanswer.symm.trans heq)).symm
    rw [ih hrest, mergeRows, OrderedDict.mem_keys_foldItems, hrows, List.flatMap_cons,
      List.map_append, List.mem_append, or_assoc]
    simp only [List.mem_map]

variable [IsStrictOrderedRing K]

theorem run_library (hnp : np.Contract) (hdb : db.Contract)
    (hposts : lib.posts (relation postsTable) = some posts)
    (hchunks : lib.chunks (relation chunksTable) = some chunks) {postIds : Option (List ℤ)}
    {folderId : Option ℤ}
    (hfolder : eval (answer lib db) (folderPosts postsTable postIds folderId) = .ok folder)
    (verdicts : Option (OrderedDict ℤ Verdict)) (params : SuggestParams K)
    (hembedded : ∃ i ∈ folderIds folder (verdicts.getD .empty), ∃ c ∈ chunks,
      c.postId = i ∧ c.embedding.isSome) :
    ∃ r, eval (answer lib db)
      (suggestForFolder np postsTable chunksTable postIds folderId verdicts params) = .ok r ∧
    (r.items.length : ℤ) = min (max params.k 0)
      (pooledPosts np db posts chunks folder (verdicts.getD .empty) params).length := by
  have hrun : run (steady (answer lib db)) (folderPosts postsTable postIds folderId) () =
      (.ok folder, ()) := Prod.ext hfolder rfl
  have hvectors : ∀ ids s, steady (answer lib db) (.folderEmbeddings chunksTable ids) s =
      (.ok (meanVectors chunks ids), ()) :=
    fun ids s => Prod.ext (folderEmbeddings_eq hchunks ids) rfl
  have hkeys : (meanVectors chunks (folderIds folder (verdicts.getD .empty))).keys ≠ [] := by
    obtain ⟨i, hi, hchunk⟩ := hembedded
    exact List.ne_nil_of_mem (mem_keys_meanVectors.mpr ⟨hi, hchunk⟩)
  have hsource : postIds.isNone ≠ folderId.isNone := by
    intro heq
    cases postIds with
    | none =>
      cases folderId with
      | none => cases hfolder
      | some folderId => cases heq
    | some ids =>
      cases folderId with
      | none => cases heq
      | some folderId => cases hfolder
  obtain ⟨r, t, hreturn⟩ := run_suggestForFolder_returns hnp (answers_answer hposts hchunks)
    hsource verdicts params () (by
      intro posts' s₁ hrun' vectors s₂ hembed
      rw [hrun] at hrun'
      cases hrun'
      rw [embeddingsOf] at hembed
      split_ifs at hembed with hids
      · obtain ⟨i, hi, _⟩ := hembedded
        rw [List.isEmpty_iff.mp hids] at hi
        exact absurd hi List.not_mem_nil
      · rw [run_call, hvectors] at hembed
        cases hembed
        exact hkeys)
  refine ⟨r, congrArg Prod.fst hreturn, ?_⟩
  obtain ⟨posts', s₁, vectors, s₂, hposts', hcall, _, hfrom⟩ := run_suggestForFolder hreturn
  rw [hrun] at hposts'
  cases hposts'
  rw [hvectors] at hcall
  cases hcall
  obtain ⟨byPost, s', titles, themes, items, hgather, _, hitems, rfl⟩ := run_suggestFrom hfrom
  have hsound := Sound.gather (honours_answer hdb) (fun p hp => absurd hp List.not_mem_nil) hgather
  have hnodup : (byPost.values.map CandidateRow.postId).Nodup := by
    rw [hsound.map_postId]
    exact byPost.nodup
  have hperm : byPost.keys.Perm
      (pooledPosts np db posts chunks folder (verdicts.getD .empty) params) := by
    apply (List.perm_ext_iff_of_nodup byPost.nodup (List.nodup_dedup _)).mpr
    intro i
    have hmem := (mem_keys_gather hposts hchunks hgather i).trans (or_iff_right List.not_mem_nil)
    exact hmem.trans List.mem_dedup.symm
  rw [(hitems hnodup).length, ← hperm.length_eq, ← hsound.map_postId, List.length_map]

section Crowds

def ownedRows (chunks : List (LibraryChunk K d)) (owners : List ℤ) : ℕ :=
  ((embeddedRows chunks).map Prod.fst).countP (· ∈ owners)

/-- Fewer posts than could be suggested never own a whole pool of embedded chunks. -/
def Uncrowded (posts : List LibraryPost) (chunks : List (LibraryChunk K d)) (folder : List ℤ)
    (verdicts : OrderedDict ℤ Verdict) (k : ℤ) : Prop :=
  ∀ owners, owners.Sublist (eligiblePosts posts chunks folder verdicts) →
    (owners.length : ℤ) < min k (eligiblePosts posts chunks folder verdicts).length →
      (ownedRows chunks owners : ℤ) < poolSize k

omit [Field K] [LinearOrder K] [IsStrictOrderedRing K] in
theorem length_filter_posts_le_one (hposts : lib.posts (relation postsTable) = some posts) {j : ℤ}
    {q : LibraryPost → Bool} (hq : ∀ p, q p → p.postId = j) : (posts.filter q).length ≤ 1 := by
  have hnodup := (lib.nodup _ posts hposts).sublist ((List.filter_sublist (p := q)).map _)
  have hall : ∀ x ∈ (posts.filter q).map LibraryPost.postId, x = j := by
    intro x hx
    obtain ⟨p, hp, rfl⟩ := List.mem_map.mp hx
    exact hq p (List.mem_filter.mp hp).2
  have hrep := List.eq_replicate_of_mem hall
  rw [hrep, List.nodup_replicate, List.length_map] at hnodup
  exact hnodup

variable (folder verdicts) in
omit [Field K] [LinearOrder K] [IsStrictOrderedRing K] in
theorem countP_eligibleRows_le (hposts : lib.posts (relation postsTable) = some posts)
    (owners : List ℤ) :
    ((eligibleRows posts chunks folder verdicts).map CandidateRow.postId).countP (· ∈ owners) ≤
      ownedRows chunks owners := by
  rw [eligibleRows, candidateRows, ownedRows]
  induction embeddedRows chunks with
  | nil => exact Nat.le_refl 0
  | cons r rows ih =>
    rw [List.flatMap_cons, List.map_append, List.countP_append, List.map_cons, List.countP_cons,
      Nat.add_comm, List.map_map]
    apply Nat.add_le_add ih
    split_ifs with howned
    · refine List.countP_le_length.trans ?_
      rw [List.length_map]
      apply length_filter_posts_le_one hposts (j := r.1)
      intro p hp
      exact (of_decide_eq_true hp).1
    · rw [Nat.le_zero, List.countP_eq_zero]
      intro i hmem
      obtain ⟨p, _, rfl⟩ := List.mem_map.mp hmem
      exact howned

omit [Field K] [IsStrictOrderedRing K] in
theorem countP_nearestRows_le (hdb : db.Contract) (centroid : Embedding K d) (pool : ℤ)
    (rows : List (CandidateRow K d)) (q : ℤ → Bool) :
    ((nearestRows db centroid pool rows).map CandidateRow.postId).countP q ≤
      (rows.map CandidateRow.postId).countP q := by
  have hsub := ((List.take_sublist pool.toNat
    (db.orderBy (fun row => db.cosineDistance row.embedding centroid) rows)).map
      CandidateRow.postId).countP_le (p := q)
  rwa [((hdb.orderBy_perm _ rows).map CandidateRow.postId).countP_eq] at hsub

omit [Field K] [IsStrictOrderedRing K] in
/-- A query that has rows left over answers with all of them. -/
theorem nearestRows_perm_of_lt (hdb : db.Contract) {centroid : Embedding K d} {pool : ℤ}
    {rows : List (CandidateRow K d)} (h : ((nearestRows db centroid pool rows).length : ℤ) < pool) :
    (nearestRows db centroid pool rows).Perm rows := by
  have horder := hdb.orderBy_perm
    (fun row : CandidateRow K d => db.cosineDistance row.embedding centroid) rows
  have hlen : (nearestRows db centroid pool rows).length = min pool.toNat rows.length := by
    rw [nearestRows, List.length_take, horder.length_eq]
  rw [nearestRows, List.take_of_length_le]
  · exact horder
  · rw [horder.length_eq]
    omega

variable (np params) in
omit [IsStrictOrderedRing K] in
theorem themeCentroids_ne_nil (hembedded : ∃ i ∈ folderIds folder verdicts, ∃ c ∈ chunks,
    c.postId = i ∧ c.embedding.isSome) : themeCentroids np chunks folder verdicts params ≠ [] := by
  obtain ⟨i, hi, hchunk⟩ := hembedded
  have hpos : 0 < (meanVectors chunks (folderIds folder verdicts)).keys.length :=
    List.length_pos_of_mem (mem_keys_meanVectors.mpr ⟨hi, hchunk⟩)
  have hfits := profile_fits np (List.ne_nil_of_length_pos hpos) params.maxClusters
  have hlabels := List.getElem_mem (hfits.labelling.length ▸ hpos)
  have hlt := hfits.labelling.lt _ hlabels
  have h0 := hfits.labelling.nonneg _ hlabels
  apply List.ne_nil_of_length_pos
  rw [themeCentroids, hfits.centroids]
  omega

omit [IsStrictOrderedRing K] in
theorem pooled_of_uncrowded (hdb : db.Contract)
    (hposts : lib.posts (relation postsTable) = some posts)
    (hcrowd : Uncrowded posts chunks folder verdicts params.k)
    (hembedded : ∃ i ∈ folderIds folder verdicts, ∃ c ∈ chunks,
      c.postId = i ∧ c.embedding.isSome) :
    min params.k (eligiblePosts posts chunks folder verdicts).length ≤
      (pooledPosts np db posts chunks folder verdicts params).length := by
  obtain ⟨centroid, hcentroid⟩ := List.exists_mem_of_ne_nil _
    (themeCentroids_ne_nil np params hembedded)
  let near := nearestRows db centroid (poolSize params.k)
    (eligibleRows posts chunks folder verdicts)
  let owners := (eligiblePosts posts chunks folder verdicts).filter
    (· ∈ near.map CandidateRow.postId)
  have hmem : ∀ i, i ∈ near.map CandidateRow.postId → i ∈ owners := by
    intro i hi
    obtain ⟨row, hrow, rfl⟩ := List.mem_map.mp hi
    exact List.mem_filter.mpr
      ⟨mem_eligiblePosts.mpr ⟨row, mem_of_mem_nearestRows hdb hrow, rfl⟩, decide_eq_true hi⟩
  have howners : owners.length ≤
      (pooledPosts np db posts chunks folder verdicts params).length := by
    have hnodup : owners.Nodup :=
      (nodup_eligiblePosts hposts chunks folder verdicts).sublist List.filter_sublist
    apply (hnodup.subperm _).length_le
    intro i hi
    obtain ⟨row, hrow, rfl⟩ := List.mem_map.mp (of_decide_eq_true (List.mem_filter.mp hi).2)
    exact List.mem_dedup.mpr
      (List.mem_map_of_mem (List.mem_flatMap.mpr ⟨centroid, hcentroid, hrow⟩))
  by_contra hfew
  have hlt : (owners.length : ℤ) <
      min params.k (eligiblePosts posts chunks folder verdicts).length := by
    omega
  -- the rows of the pool are those of its owners, which are too few to fill it
  have hnear : near.length ≤ ownedRows chunks owners := by
    have hall : (near.map CandidateRow.postId).countP (· ∈ owners) =
        (near.map CandidateRow.postId).length :=
      List.countP_eq_length.mpr fun i hi => decide_eq_true (hmem i hi)
    rw [List.length_map] at hall
    rw [← hall]
    exact (countP_nearestRows_le hdb centroid _ _ _).trans
      (countP_eligibleRows_le folder verdicts hposts owners)
  have hperm : near.Perm (eligibleRows posts chunks folder verdicts) := by
    apply nearestRows_perm_of_lt hdb
    have hpool := hcrowd owners List.filter_sublist hlt
    have hlen : (near.length : ℤ) ≤ ownedRows chunks owners := Int.ofNat_le.mpr hnear
    exact hlen.trans_lt hpool
  have hfull : owners = eligiblePosts posts chunks folder verdicts := by
    apply List.filter_eq_self.mpr
    intro i hi
    obtain ⟨row, hrow, rfl⟩ := mem_eligiblePosts.mp hi
    exact decide_eq_true (List.mem_map_of_mem (hperm.mem_iff.mpr hrow))
  rw [hfull] at hlt
  omega

end Crowds

end Pool

section Claims

variable {K : Type} [Field K] [LinearOrder K] [IsStrictOrderedRing K] {d : ℕ} {np : Numpy K}
  {lib : Library K d} {db : Pgvector K d} {posts : List LibraryPost}
  {chunks : List (LibraryChunk K d)} {postsTable chunksTable : String} {folder : List ℤ}

/-- Post 2 owns all rows of a pool but one. -/
def roomyChunks : List (LibraryChunk ℚ 1) :=
  ⟨1, some ![1]⟩ :: List.replicate 39 ⟨2, some ![1]⟩ ++ [⟨3, some ![-1]⟩]

def roomyPosts : List LibraryPost :=
  [⟨1, some "folder", none, none, none, [7]⟩, ⟨2, some "longer", none, none, none, []⟩,
    ⟨3, some "shorter", none, none, none, []⟩]

def roomyLibrary : Library ℚ 1 :=
  .ofTables "posts_main" "posts_main_chunks_body" roomyPosts (by decide) roomyChunks

/-- Post 1 is the folder; the rows of post 2 fill the pool before the one row of post 3. -/
def crowdedChunks : List (LibraryChunk ℚ 1) :=
  ⟨1, some ![1]⟩ :: List.replicate 40 ⟨2, some ![1]⟩ ++ [⟨3, some ![-1]⟩]

def crowdedPosts : List LibraryPost :=
  [⟨1, some "folder", none, none, none, [7]⟩, ⟨2, some "long", none, none, none, []⟩,
    ⟨3, some "short", none, none, none, []⟩]

def crowdedLibrary : Library ℚ 1 :=
  .ofTables "posts_main" "posts_main_chunks_body" crowdedPosts (by decide) crowdedChunks

end Claims

end FolderSuggestion
end RagPipeline
