import RagPipeline.Services.SuggestionItems

namespace RagPipeline
namespace FolderSuggestion

open Coro FolderScoring MapM

section Runs

variable {K : Type} [Field K] [LinearOrder K] {d : ℕ} {np : Numpy K} {σ : Type}
  {w : World (ReaderOp K d) ReaderOp.Ans SuggestExc σ} {postsTable chunksTable : String}
  {verdicts : OrderedDict ℤ Verdict} {params : SuggestParams K} {ids : List ℤ}
  {vectors : OrderedDict ℤ (Embedding K d)} {s t : σ} {r : SuggestResult K}

omit [Field K] [LinearOrder K] in
theorem run_indexed {α : Type} {o : Option α} {a : α}
    (h : run w (indexed o) s = (.ok a, t)) : o = some a := by
  cases o with
  | none => cases h
  | some b =>
    cases h
    rfl

def folderMatrix (np : Numpy K) (vectors : OrderedDict ℤ (Embedding K d)) :
    List (Embedding K d) :=
  normalise np ((sortedIds vectors.keys).filterMap vectors.get?)

theorem length_folderMatrix : (folderMatrix np vectors).length = vectors.keys.length := by
  have hall : ∀ i ∈ sortedIds vectors.keys, (vectors.get? i).isSome := by
    intro i hi
    rw [Option.isSome_iff_ne_none, Ne, OrderedDict.get?_eq_none, not_not]
    exact (perm_sortedIds _).mem_iff.mp hi
  rw [folderMatrix, normalise, List.length_map, List.length_filterMap_eq_countP,
    List.countP_eq_length.mpr hall, (perm_sortedIds _).length_eq]

variable (np) in
theorem profile_fits (hkeys : vectors.keys ≠ []) (maxClusters : ℤ) :
    (buildProfile np (folderMatrix np vectors) maxClusters).Fits vectors.keys.length := by
  have hfolder : (folderMatrix np vectors).length = vectors.keys.length := length_folderMatrix
  rw [← hfolder]
  apply buildProfile_fits
  apply List.ne_nil_of_length_pos
  rw [hfolder]
  exact List.length_pos_of_ne_nil hkeys

theorem run_suggestFrom
    (h : run w (suggestFrom np postsTable chunksTable verdicts params ids vectors) s =
      (.ok r, t)) :
    ∃ byPost s' titles themes items,
      run w (gatherCandidates chunksTable postsTable (poolSize params.k)
        (excludedIds ids (ratedPosts verdicts Verdict.negative))
        (buildProfile np (folderMatrix np vectors) params.maxClusters).centroids .empty) s =
          (.ok byPost, s') ∧
      (List.range (buildProfile np (folderMatrix np vectors) params.maxClusters).k).mapM
        (themeOf np (sortedIds vectors.keys) titles (folderMatrix np vectors)
          (buildProfile np (folderMatrix np vectors) params.maxClusters)) = some themes ∧
      ((byPost.values.map CandidateRow.postId).Nodup →
        IsSelection params.k (sortedIds vectors.keys)
          (buildProfile np (folderMatrix np vectors) params.maxClusters) byPost.values items) ∧
      r = { folderSize := ids.length
            embedded := (sortedIds vectors.keys).length
            missingPostIds := ids.filter fun i => i ∉ vectors.keys
            silhouette := (buildProfile np (folderMatrix np vectors) params.maxClusters).silhouette
            candidatesConsidered := byPost.values.length
            rejected := (ratedPosts verdicts Verdict.negative).length
            themes
            items } := by
  obtain ⟨byPost, s₁, hgather, h⟩ := run_bind_ok w h
  obtain ⟨titles, s₂, _, h⟩ := run_bind_ok w h
  obtain ⟨themes, s₃, hthemes, h⟩ := run_bind_ok w h
  obtain ⟨items, s₄, hitems, h⟩ := run_bind_ok w h
  cases h
  refine ⟨byPost, s₁, titles, themes, items, hgather, run_indexed hthemes, fun hnodup => ?_, rfl⟩
  rw [suggestItems] at hitems
  split_ifs at hitems with hempty
  · cases hitems
    rw [List.isEmpty_iff.mp hempty]
    exact isSelection_nil _ _ _
  · obtain ⟨avoid, _, _, hitems⟩ := run_bind_ok w hitems
    exact selectItems_spec hnodup (run_indexed hitems)

end Runs

section Returns

variable {K : Type} [Field K] [LinearOrder K] {d : ℕ} {np : Numpy K} {embeddedIds : List ℤ}
  {titles : OrderedDict ℤ String} {folder : List (Embedding K d)} {profile : FolderProfile K d}
  {n : ℕ}

omit [Field K] [LinearOrder K] in
theorem isSome_becauseOf {m : ℕ} (h : m < embeddedIds.length) (s : K) :
    (becauseOf embeddedIds titles m s).isSome := by
  rw [becauseOf, List.getElem?_eq_getElem h]
  rfl

theorem isSome_themeOf (hnp : np.Contract) (hfits : profile.Fits n) (hfolder : folder.length = n)
    (hids : embeddedIds.length = n) {c : ℕ} (hc : c < profile.k) :
    (themeOf np embeddedIds titles folder profile c).isSome := by
  have hcentroid : c < profile.centroids.length := by
    rw [hfits.centroids]
    exact hc
  rw [themeOf, List.getElem?_eq_getElem hcentroid]
  generalize hmembers : ((List.range profile.labels.length).filter fun i =>
    profile.labels[i]? = some (c : ℤ)) = members
  have hlt : ∀ m ∈ members, m < n := by
    intro m hm
    rw [← hmembers, List.mem_filter, List.mem_range, hfits.labelling.length] at hm
    exact hm.1
  have horder := hnp.argsort_perm
    ((sims (takeAlong folder members) profile.centroids[c]).map (- ·))
  rw [List.length_map, sims, List.length_map, length_takeAlong] at horder
  have hexemplars : (((takeAlong members (np.argsort
      ((sims (takeAlong folder members) profile.centroids[c]).map (- ·)))).take 3).mapM fun m => do
        let v ← folder[m]?
        becauseOf embeddedIds titles m (dotProduct v profile.centroids[c])).isSome := by
    rw [isSome_mapM]
    intro m hm
    have hmn : m < n := by
      apply hlt
      apply mem_takeAlong _ (List.mem_of_mem_take hm)
      intro i hi
      exact List.mem_range.mp (horder.mem_iff.mp hi)
    rw [List.getElem?_eq_getElem (by omega)]
    exact isSome_becauseOf (by omega) _
  obtain ⟨exemplars, heq⟩ := Option.isSome_iff_exists.mp hexemplars
  simp only [Option.bind_eq_bind, Option.bind_some] at heq ⊢
  rw [heq]
  rfl

variable [IsStrictOrderedRing K]

theorem isSome_suggestionOf (hnp : np.Contract) (hfits : profile.Fits n) (hpos : 0 < n)
    (hfolder : folder.length = n) (hids : embeddedIds.length = n)
    {candidates : List (CandidateRow K d)} {candMatrix : List (Embedding K d)}
    (hcand : candMatrix.length = candidates.length) (knn : ℤ) (weights : Option (List K))
    (rank : ℕ) {idx : ℕ} (hidx : idx < candidates.length) :
    (suggestionOf embeddedIds titles profile candidates
      (knnDensity np candMatrix folder knn weights) rank idx).isSome := by
  have hc := List.getElem?_eq_getElem (hcand ▸ hidx : idx < candMatrix.length)
  obtain ⟨htop, hsims, hheat⟩ := getElem?_knnDensity np folder knn weights hc
  have hrow : (sims (normalise np folder) (normaliseRow np candMatrix[idx])).length = n := by
    rw [sims, normalise, List.length_map, List.length_map, hfolder]
  have hle : neighbourCount knn folder.length ≤
      (sims (normalise np folder) (normaliseRow np candMatrix[idx])).length := by
    rw [hrow, hfolder]
    exact neighbourCount_le knn hpos
  obtain ⟨_, hlen, hlt, _⟩ := nearest_spec hnp (neighbourCount_pos knn folder.length) hle
  generalize nearest np (sims (normalise np folder) (normaliseRow np candMatrix[idx]))
    (neighbourCount knn folder.length) = row at htop hsims hheat hlen hlt
  rw [hrow] at hlt
  have hne : 0 < row.1.length := by
    rw [hlen]
    exact neighbourCount_pos knn _
  have hfirst : row.1[0] < profile.labels.length := by
    rw [hfits.labelling.length]
    exact hlt _ (List.getElem_mem hne)
  have hbecause : (((row.1.take 2).zip (row.2.take 2)).mapM fun p =>
      becauseOf embeddedIds titles p.1 p.2).isSome := by
    rw [isSome_mapM]
    intro p hp
    apply isSome_becauseOf
    rw [hids]
    exact hlt _ (List.mem_of_mem_take (List.of_mem_zip hp).1)
  obtain ⟨because, heq⟩ := Option.isSome_iff_exists.mp hbecause
  rw [suggestionOf, List.getElem?_eq_getElem hidx, htop, hsims, hheat]
  simp only [Option.bind_eq_bind, Option.bind_some, List.head?_eq_getElem?,
    List.getElem?_eq_getElem hne, List.getElem?_eq_getElem hfirst, heq, Option.isSome_some]

theorem isSome_selectItems (hnp : np.Contract) (hfits : profile.Fits n) (hpos : 0 < n)
    (hfolder : folder.length = n) (hids : embeddedIds.length = n) (params : SuggestParams K)
    (verdicts : OrderedDict ℤ Verdict) (candidates : List (CandidateRow K d))
    (avoid : List (Embedding K d)) :
    (selectItems np params verdicts embeddedIds titles folder profile candidates
      avoid).isSome := by
  rw [selectItems, isSome_mapM]
  intro p hp
  apply isSome_suggestionOf hnp hfits hpos hfolder hids
  · rw [normalise, List.length_map, List.length_map]
  · have hmem := List.fst_mem_of_mem_zipIdx hp
    have hlt := (mmrSelectBy_inv _ _ _ _).2.2.1 p.1 hmem
    simpa only [List.length_zipWith, length_avoidPenalty, knnDensity, normalise, List.length_map,
      Nat.min_self] using hlt

variable {σ : Type} {w : World (ReaderOp K d) ReaderOp.Ans SuggestExc σ}

/-- The reader answers whatever is asked about these two tables. -/
structure Answers (w : World (ReaderOp K d) ReaderOp.Ans SuggestExc σ)
    (postsTable chunksTable : String) : Prop where
  folderPostIds : ∀ folderId s, ∃ a t, w (.folderPostIds postsTable folderId) s = (.ok a, t)
  folderEmbeddings : ∀ ids s, ∃ a t, w (.folderEmbeddings chunksTable ids) s = (.ok a, t)
  nearestCandidates : ∀ query limit exclude s, ∃ a t,
    w (.nearestCandidates chunksTable postsTable query limit exclude) s = (.ok a, t)
  postTitles : ∀ ids s, ∃ a t, w (.postTitles postsTable ids) s = (.ok a, t)

variable {postsTable chunksTable : String}

omit [Field K] [LinearOrder K] [IsStrictOrderedRing K] in
theorem run_gatherCandidates_returns (hw : Answers w postsTable chunksTable) (pool : ℤ)
    (exclude : List ℤ) (centroids : List (Embedding K d))
    (byPost : OrderedDict ℤ (CandidateRow K d)) (s : σ) :
    ∃ a t, run w (gatherCandidates chunksTable postsTable pool exclude centroids byPost) s =
      (.ok a, t) := by
  induction centroids generalizing byPost s with
  | nil => exact ⟨byPost, s, rfl⟩
  | cons centroid centroids ih =>
    apply run_bind_returns w (run_call_returns w (hw.nearestCandidates centroid pool exclude s))
    exact fun rows s' _ => ih _ s'

omit [Field K] [LinearOrder K] [IsStrictOrderedRing K] in
theorem run_embeddingsOf_returns (hw : Answers w postsTable chunksTable) (ids : List ℤ) (s : σ) :
    ∃ a t, run w (embeddingsOf chunksTable ids) s = (.ok a, t) := by
  rw [embeddingsOf]
  split_ifs
  · exact ⟨_, s, rfl⟩
  · exact run_call_returns w (hw.folderEmbeddings ids s)

omit [Field K] [LinearOrder K] [IsStrictOrderedRing K] in
theorem run_indexed_returns {α : Type} {o : Option α} (h : o.isSome) (s : σ) :
    ∃ a t, run w (indexed o) s = (.ok a, t) := by
  obtain ⟨a, rfl⟩ := Option.isSome_iff_exists.mp h
  exact ⟨a, s, rfl⟩

theorem run_suggestFrom_returns (hnp : np.Contract) (hw : Answers w postsTable chunksTable)
    (verdicts : OrderedDict ℤ Verdict)
    (params : SuggestParams K) (ids : List ℤ) {vectors : OrderedDict ℤ (Embedding K d)}
    (hvectors : vectors.keys ≠ []) (s : σ) :
    ∃ r t, run w (suggestFrom np postsTable chunksTable verdicts params ids vectors) s =
      (.ok r, t) := by
  have hpos : 0 < vectors.keys.length := List.length_pos_of_ne_nil hvectors
  have hids : (sortedIds vectors.keys).length = vectors.keys.length :=
    (perm_sortedIds _).length_eq
  have hfolder : (folderMatrix np vectors).length = vectors.keys.length := length_folderMatrix
  have hfits := profile_fits np hvectors params.maxClusters
  apply run_bind_returns w (run_gatherCandidates_returns hw _ _ _ _ s)
  intro byPost s₁ _
  apply run_bind_returns w (run_call_returns w (hw.postTitles _ s₁))
  intro titles s₂ _
  apply run_bind_returns w
  · apply run_indexed_returns
    rw [isSome_mapM]
    exact fun c hc => isSome_themeOf hnp hfits hfolder hids (List.mem_range.mp hc)
  intro themes s₃ _
  apply run_bind_returns w
  · rw [suggestItems]
    split_ifs
    · exact ⟨[], s₃, rfl⟩
    · apply run_bind_returns w (run_embeddingsOf_returns hw _ s₃)
      intro avoid s₄ _
      apply run_indexed_returns
      exact isSome_selectItems hnp hfits hpos hfolder hids params verdicts _ _
  · exact fun items s₄ _ => ⟨_, s₄, rfl⟩

/-- With one source of posts there is a result as soon as the reader has the vector of one of
them. -/
theorem run_suggestForFolder_returns (hnp : np.Contract) (hw : Answers w postsTable chunksTable)
    {postIds : Option (List ℤ)} {folderId : Option ℤ} (hsource : postIds.isNone ≠ folderId.isNone)
    (verdicts : Option (OrderedDict ℤ Verdict)) (params : SuggestParams K) (s : σ)
    (hvectors : ∀ posts s₁, run w (folderPosts postsTable postIds folderId) s = (.ok posts, s₁) →
      ∀ vectors s₂, run w (embeddingsOf chunksTable (folderIds posts (verdicts.getD .empty))) s₁ =
        (.ok vectors, s₂) → vectors.keys ≠ []) :
    ∃ r t, run w (suggestForFolder np postsTable chunksTable postIds folderId verdicts params) s =
      (.ok r, t) := by
  have hposts : ∃ posts s₁, run w (folderPosts postsTable postIds folderId) s =
      (.ok posts, s₁) := by
    cases postIds with
    | none =>
      cases folderId with
      | none => exact absurd rfl hsource
      | some folderId => exact run_call_returns w (hw.folderPostIds folderId s)
    | some ids =>
      cases folderId with
      | none => exact ⟨ids, s, rfl⟩
      | some folderId => exact absurd rfl hsource
  apply run_bind_returns w hposts
  intro posts s₁ hrun
  apply run_bind_returns w (run_embeddingsOf_returns hw _ s₁)
  intro vectors s₂ hembed
  have hkeys := hvectors posts s₁ hrun vectors s₂ hembed
  have hentries : vectors.entries.isEmpty = false := by
    rw [← Bool.not_eq_true, List.isEmpty_iff]
    exact fun hnil => hkeys (List.map_eq_nil_iff.mpr hnil)
  rw [hentries]
  exact run_suggestFrom_returns hnp hw _ params _ hkeys s₂

end Returns

section Repository

open FolderSuggestionRepository

variable {K : Type} [Field K] [LinearOrder K] {d : ℕ} {lib : Library K d} {db : Pgvector K d}

theorem honours_answer (hdb : db.Contract) : Honours (steady (answer lib db)) := by
  have hrows : ∀ chunksTable postsTable query limit exclude rows,
      nearestCandidates lib db chunksTable postsTable query limit exclude = .ok rows →
      ∃ posts chunks, rows = nearestRows db query limit (candidateRows posts chunks exclude) := by
    intro chunksTable postsTable query limit exclude rows h
    obtain ⟨chunks, _, h⟩ := exists_of_bind_eq_ok h
    obtain ⟨posts, _, h⟩ := exists_of_bind_eq_ok h
    cases h
    exact ⟨posts, chunks, rfl⟩
  constructor
  · intro chunksTable postsTable query limit exclude s rows h
    obtain ⟨posts, chunks, rfl⟩ := hrows _ _ _ _ _ _ h
    rw [nearestRows, List.length_take]
    exact Nat.min_le_left _ _
  · intro chunksTable postsTable query limit exclude s rows h row hrow
    obtain ⟨posts, chunks, rfl⟩ := hrows _ _ _ _ _ _ h
    have hmem := mem_of_mem_nearestRows hdb hrow
    exact (exists_mem_candidateRows.mp ⟨row, hmem, rfl⟩).1
  · intro chunksTable postIds s vectors h
    obtain ⟨chunks, _, h⟩ := exists_of_bind_eq_ok h
    cases h
    exact fun i hi => (mem_keys_meanVectors.mp hi).1

omit [LinearOrder K] in
theorem answers_answer {postsTable chunksTable : String} {posts : List LibraryPost}
    {chunks : List (LibraryChunk K d)} (hposts : lib.posts (relation postsTable) = some posts)
    (hchunks : lib.chunks (relation chunksTable) = some chunks) :
    Answers (steady (answer lib db)) postsTable chunksTable := by
  constructor
  · intro folderId s
    exact ⟨_, s, Prod.ext (folderPostIds_eq hposts folderId) rfl⟩
  · intro ids s
    exact ⟨_, s, Prod.ext (folderEmbeddings_eq hchunks ids) rfl⟩
  · intro query limit exclude s
    exact ⟨_, s, Prod.ext (nearestCandidates_eq db hposts hchunks query limit exclude) rfl⟩
  · intro ids s
    obtain ⟨titles, htitles⟩ := postTitles_eq hposts ids
    exact ⟨titles, s, Prod.ext htitles rfl⟩

end Repository

section Claims

variable {K : Type} [Field K] [LinearOrder K] {d : ℕ} {np : Numpy K} {σ : Type}
  {w : World (ReaderOp K d) ReaderOp.Ans SuggestExc σ}

/-- A run that returns has asked for the folder and for its vectors, and goes on with those. -/
theorem run_suggestForFolder {postsTable chunksTable : String} {postIds : Option (List ℤ)}
    {folderId : Option ℤ} {verdicts : Option (OrderedDict ℤ Verdict)} {params : SuggestParams K}
    {s t : σ} {r : SuggestResult K}
    (h : run w (suggestForFolder np postsTable chunksTable postIds folderId verdicts params) s =
      (.ok r, t)) :
    ∃ posts s₁ vectors s₂,
      run w (folderPosts postsTable postIds folderId) s = (.ok posts, s₁) ∧
      w (.folderEmbeddings chunksTable (folderIds posts (verdicts.getD .empty))) s₁ =
        (.ok vectors, s₂) ∧
      vectors.keys ≠ [] ∧
      run w (suggestFrom np postsTable chunksTable (verdicts.getD .empty) params
        (folderIds posts (verdicts.getD .empty)) vectors) s₂ = (.ok r, t) := by
  obtain ⟨posts, s₁, hposts, h⟩ := run_bind_ok w h
  obtain ⟨vectors, s₂, hvectors, h⟩ := run_bind_ok w h
  split_ifs at h with hempty
  · cases h
  · have hkeys : vectors.keys ≠ [] := by
      intro hnil
      exact hempty (List.isEmpty_iff.mpr (List.map_eq_nil_iff.mp hnil))
    refine ⟨posts, s₁, vectors, s₂, hposts, ?_, hkeys, h⟩
    rw [embeddingsOf] at hvectors
    split_ifs at hvectors with hids
    · cases hvectors
      exact absurd rfl hkeys
    · rwa [run_call] at hvectors

/-- What is suggested is none of what is already decided, and the result fits together. -/
theorem suggestForFolder_undecided (hw : Honours w) (postsTable chunksTable : String)
    (postIds : Option (List ℤ)) (folderId : Option ℤ) (verdicts : Option (OrderedDict ℤ Verdict))
    (params : SuggestParams K) (hk : 1 ≤ params.k) (s t : σ) (r : SuggestResult K)
    (h : run w (suggestForFolder np postsTable chunksTable postIds folderId verdicts params) s =
      (.ok r, t)) :
    ∃ posts s₁ vectors s₂,
      run w (folderPosts postsTable postIds folderId) s = (.ok posts, s₁) ∧
      w (.folderEmbeddings chunksTable (folderIds posts (verdicts.getD .empty))) s₁ =
        (.ok vectors, s₂) ∧
      (r.items.map Suggestion.postId).Nodup ∧
      (∀ item ∈ r.items, item.postId ∉ posts ∧
        ∀ v, (verdicts.getD .empty).get? item.postId ≠ some v) ∧
      r.items.map Suggestion.rank = List.range' 1 r.items.length ∧
      (r.items.length : ℤ) = min params.k r.candidatesConsidered ∧
      r.folderSize = (folderIds posts (verdicts.getD .empty)).length ∧
      r.embedded + r.missingPostIds.length = r.folderSize ∧
      (∀ i, i ∈ r.missingPostIds ↔
        i ∈ folderIds posts (verdicts.getD .empty) ∧ i ∉ vectors.keys) ∧
      (∀ item ∈ r.items, ∀ b ∈ item.because,
        b.postId ∈ folderIds posts (verdicts.getD .empty) ∧ b.postId ∈ vectors.keys) ∧
      (∀ item ∈ r.items, ∃ theme ∈ r.themes, (theme.index : ℤ) = item.theme) ∧
      (r.themes.map Theme.size).sum = r.embedded := by
  obtain ⟨posts, s₁, vectors, s₂, hposts, hvectors, hkeys, hrun⟩ := run_suggestForFolder h
  refine ⟨posts, s₁, vectors, s₂, hposts, hvectors, ?_⟩
  obtain ⟨byPost, s', titles, themes, items, hgather, hthemes, hitems, rfl⟩ :=
    run_suggestFrom hrun
  have hasked : vectors.keys ⊆ folderIds posts (verdicts.getD .empty) :=
    hw.asked _ _ s₁ vectors (by rw [hvectors])
  have hsound := Sound.gather hw (fun p hp => absurd hp List.not_mem_nil) hgather
  have hnodup : (byPost.values.map CandidateRow.postId).Nodup := by
    rw [hsound.map_postId]
    exact byPost.nodup
  have hfits := profile_fits np hkeys params.maxClusters
  obtain ⟨hindex, hsizes⟩ := themes_spec hfits hthemes
  have hselection := hitems hnodup
  have hlen := hselection.length
  refine ⟨hselection.nodup, ?_, hselection.ranks, ?_, rfl, ?_, ?_, ?_, ?_, ?_⟩
  · intro item hitem
    have hmem := hselection.postId item hitem
    rw [hsound.map_postId] at hmem
    obtain ⟨p, hp, heq⟩ := List.mem_map.mp hmem
    have hout := (hsound p hp).2
    rw [heq, mem_excludedIds_iff, not_or, not_not] at hout
    refine ⟨hout.1, fun v => ?_⟩
    rw [hout.2]
    exact nofun
  · dsimp only
    omega
  · have hsplit := length_keys_add_missing (nodup_folderIds _ _) hasked
    dsimp only
    rw [(perm_sortedIds _).length_eq, hsplit]
  · intro i
    simp only [List.mem_filter, decide_eq_true_eq]
  · intro item hitem b hb
    have hmem := (perm_sortedIds _).mem_iff.mp (hselection.because item hitem b hb)
    exact ⟨hasked hmem, hmem⟩
  · intro item hitem
    exact exists_theme_of_label hfits hindex (hselection.theme item hitem)
  · rw [hsizes, (perm_sortedIds _).length_eq]

def twoPosts : Library ℚ 1 :=
  .ofTables "posts_main" "posts_main_chunks_title"
    [⟨1, some "one", none, none, none, [7]⟩, ⟨2, some "two", none, none, none, []⟩] (by decide)
    [⟨1, some ![1]⟩, ⟨2, some ![1]⟩]

theorem suggestForFolder_undecided_two_posts : ∃ r t,
    run (steady (FolderSuggestionRepository.answer twoPosts (sortingPgvector id)))
      (suggestForFolder (sortingNumpy id) "posts_main" "posts_main_chunks_title" (some [1]) none
        none {}) () = (.ok r, t) ∧
    (r.items.map Suggestion.postId).Nodup ∧ (∀ item ∈ r.items, item.postId ∉ [1]) ∧
    (r.items.length : ℤ) = min (10 : ℤ) r.candidatesConsidered := by
  have hposts : twoPosts.posts (relation "posts_main") = some _ := if_pos rfl
  have hchunks : twoPosts.chunks (relation "posts_main_chunks_title") = some _ := if_pos rfl
  obtain ⟨r, t, h⟩ : ∃ r t,
      run (steady (FolderSuggestionRepository.answer twoPosts (sortingPgvector id)))
        (suggestForFolder (sortingNumpy id) "posts_main" "posts_main_chunks_title" (some [1]) none
          none {}) () = (.ok r, t) := by
    apply run_suggestForFolder_returns (contract_sortingNumpy id) (answers_answer hposts hchunks)
      (by decide) none {} () (by
      intro posts s₁ hrun vectors s₂ hembed
      cases hrun
      have hvectors := FolderSuggestionRepository.folderEmbeddings_eq hchunks (folderIds [1] .empty)
      have hne : (folderIds [1] OrderedDict.empty).isEmpty = false := by decide
      simp only [embeddingsOf, Option.getD_none, hne, Bool.false_eq_true, if_false, run_call,
        steady, FolderSuggestionRepository.answer, hvectors, Prod.mk.injEq,
        Except.ok.injEq] at hembed
      rw [← hembed.1]
      exact List.ne_nil_of_mem (FolderSuggestionRepository.mem_keys_meanVectors.mpr
        ⟨by decide, ⟨1, some ![1]⟩, List.mem_cons_self, rfl, rfl⟩))
  obtain ⟨posts, s₁, vectors, s₂, hfolder, _, hnodup, hout, _, hlen, _⟩ :=
    suggestForFolder_undecided (honours_answer (contract_sortingPgvector id)) _ _ _ _ _ _
      (by decide) _ _ r h
  cases hfolder
  exact ⟨r, t, h, hnodup, fun item hitem => (hout item hitem).1, hlen⟩

end Claims

end FolderSuggestion
end RagPipeline
