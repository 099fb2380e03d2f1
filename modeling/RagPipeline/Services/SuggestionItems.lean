import RagPipeline.Lib.MapM
import RagPipeline.Repository.FolderSuggestions
import RagPipeline.Services.FolderProfile
import RagPipeline.Services.KnnDensity
import RagPipeline.Services.MmrSelection

/-! What goes into a suggestion: the posts that are decided, the candidates, themes and items. -/

namespace RagPipeline
namespace FolderSuggestion

open Coro FolderScoring MapM

section Posts

variable {verdicts : OrderedDict ℤ Verdict} {posts : List ℤ} {i : ℤ}

theorem perm_sortedIds (l : List ℤ) : (sortedIds l).Perm l := List.perm_insertionSort _ l

theorem mem_ratedPosts {p : Verdict → Bool} :
    i ∈ ratedPosts verdicts p ↔ ∃ v, verdicts.get? i = some v ∧ p v = true := by
  rw [ratedPosts, (perm_sortedIds _).mem_iff, List.mem_map]
  constructor
  · rintro ⟨e, he, rfl⟩
    rw [List.mem_filter] at he
    exact ⟨e.2, OrderedDict.get?_eq_some.mpr he.1, he.2⟩
  · rintro ⟨v, hv, hp⟩
    exact ⟨(i, v), List.mem_filter.mpr ⟨OrderedDict.get?_eq_some.mp hv, hp⟩, rfl⟩

theorem mem_folderIds : i ∈ folderIds posts verdicts ↔
    i ∈ posts ∨ i ∈ ratedPosts verdicts Verdict.positive := by
  rw [folderIds, (perm_sortedIds _).mem_iff, List.mem_dedup, List.mem_append]

theorem nodup_folderIds (posts : List ℤ) (verdicts : OrderedDict ℤ Verdict) :
    (folderIds posts verdicts).Nodup :=
  (perm_sortedIds _).nodup_iff.mpr (List.nodup_dedup _)

theorem mem_excludedIds {ids rejected : List ℤ} :
    i ∈ excludedIds ids rejected ↔ i ∈ ids ∨ i ∈ rejected := by
  rw [excludedIds, (perm_sortedIds _).mem_iff, List.mem_dedup, List.mem_append]

theorem mem_excludedIds_iff :
    i ∈ excludedIds (folderIds posts verdicts) (ratedPosts verdicts Verdict.negative) ↔
      i ∈ posts ∨ verdicts.get? i ≠ none := by
  rw [mem_excludedIds, mem_folderIds, mem_ratedPosts, mem_ratedPosts]
  cases h : verdicts.get? i with
  | none => simp
  | some v => cases v <;> simp [Verdict.positive, Verdict.negative]

theorem length_keys_add_missing {α : Type} {ids : List ℤ} {vectors : OrderedDict ℤ α}
    (hids : ids.Nodup) (hasked : vectors.keys ⊆ ids) :
    vectors.keys.length + (ids.filter fun i => i ∉ vectors.keys).length = ids.length := by
  have hembedded : (ids.filter fun i => i ∈ vectors.keys).Perm vectors.keys := by
    apply (List.perm_ext_iff_of_nodup (hids.filter _) vectors.nodup).mpr
    intro i
    rw [List.mem_filter, decide_eq_true_eq]
    exact and_iff_right_of_imp fun hi => hasked hi
  have hsplit := List.length_eq_length_filter_add (l := ids) fun i => i ∈ vectors.keys
  rw [hembedded.length_eq] at hsplit
  simpa only [decide_not] using hsplit.symm

end Posts

section Candidates

variable {K : Type} [Field K] [LinearOrder K] {d : ℕ} {np : Numpy K} {σ : Type}
  {w : World (ReaderOp K d) ReaderOp.Ans SuggestExc σ}

structure Honours (w : World (ReaderOp K d) ReaderOp.Ans SuggestExc σ) : Prop where
  limit : ∀ chunksTable postsTable query limit exclude s rows,
    (w (.nearestCandidates chunksTable postsTable query limit exclude) s).1 = .ok rows →
    List.length rows ≤ limit.toNat
  excluded : ∀ chunksTable postsTable query limit exclude s rows,
    (w (.nearestCandidates chunksTable postsTable query limit exclude) s).1 = .ok rows →
    ∀ row ∈ rows, CandidateRow.postId row ∉ exclude
  asked : ∀ chunksTable postIds s vectors,
    (w (.folderEmbeddings chunksTable postIds) s).1 = .ok vectors →
    OrderedDict.keys vectors ⊆ postIds

omit [Field K] [LinearOrder K] in
theorem get?_mergeRows (byPost : OrderedDict ℤ (CandidateRow K d)) (rows : List (CandidateRow K d))
    (i : ℤ) : (mergeRows byPost rows).get? i =
      (byPost.get? i).or ((rows.filter (CandidateRow.postId · = i)).head?) := by
  have hfold : ∀ (l : List (CandidateRow K d)) (o : Option (CandidateRow K d)),
      l.foldl (fun o row => some (o.getD row)) o = o.or l.head? := by
    intro l
    induction l with
    | nil => exact fun o => (Option.or_none).symm
    | cons row l ih =>
      intro o
      rw [List.foldl_cons, ih]
      cases o <;> rfl
  rw [mergeRows, OrderedDict.get?_foldItems, hfold]

/-- Under each post stands a row of it, and none of an excluded post. -/
def Sound (exclude : List ℤ) (byPost : OrderedDict ℤ (CandidateRow K d)) : Prop :=
  ∀ p ∈ byPost.entries, p.2.postId = p.1 ∧ p.1 ∉ exclude

omit [Field K] [LinearOrder K] in
theorem Sound.mergeRows {exclude : List ℤ} {byPost : OrderedDict ℤ (CandidateRow K d)}
    (h : Sound exclude byPost) {rows : List (CandidateRow K d)}
    (hrows : ∀ row ∈ rows, row.postId ∉ exclude) : Sound exclude (mergeRows byPost rows) := by
  intro p hp
  have hget := OrderedDict.get?_eq_some.mpr hp
  rw [get?_mergeRows, Option.or_eq_some_iff] at hget
  obtain hold | ⟨_, hnew⟩ := hget
  · exact h p (OrderedDict.get?_eq_some.mp hold)
  · have hmem := List.mem_filter.mp (List.mem_of_mem_head? (Option.mem_def.mpr hnew))
    have hid : p.2.postId = p.1 := of_decide_eq_true hmem.2
    refine ⟨hid, ?_⟩
    rw [← hid]
    exact hrows p.2 hmem.1

omit [Field K] [LinearOrder K] in
theorem Sound.gather {exclude : List ℤ} (hw : Honours w) {chunksTable postsTable : String}
    {pool : ℤ} {centroids : List (Embedding K d)} {byPost result : OrderedDict ℤ (CandidateRow K d)}
    {s t : σ} (h : Sound exclude byPost)
    (hrun : run w (gatherCandidates chunksTable postsTable pool exclude centroids byPost) s =
      (.ok result, t)) : Sound exclude result := by
  induction centroids generalizing byPost s with
  | nil =>
    obtain ⟨heq, _⟩ := Prod.mk.inj hrun
    cases heq
    exact h
  | cons centroid centroids ih =>
    obtain ⟨rows, s', hcall, hrest⟩ := run_bind_ok w hrun
    rw [run_call] at hcall
    apply ih _ hrest
    apply h.mergeRows
    exact hw.excluded _ _ _ _ _ s rows (by rw [hcall])

omit [Field K] [LinearOrder K] in
theorem Sound.map_postId {exclude : List ℤ} {byPost : OrderedDict ℤ (CandidateRow K d)}
    (h : Sound exclude byPost) : byPost.values.map CandidateRow.postId = byPost.keys := by
  rw [OrderedDict.values, OrderedDict.keys, List.map_map]
  apply List.map_congr_left
  intro p hp
  exact (h p hp).1

end Candidates

section Items

variable {K : Type} [Field K] [LinearOrder K] {d : ℕ} {np : Numpy K}

theorem length_filter_range (l : List ℤ) (c : ℤ) :
    ((List.range l.length).filter fun i => l[i]? = some c).length = l.count c := by
  have hmap : (List.range l.length).map (l[·]?) = l.map some := by
    apply List.ext_getElem
    · rw [List.length_map, List.length_map, List.length_range]
    · intro i hi hi'
      rw [List.length_map] at hi'
      simp only [List.getElem_map, List.getElem_range, List.getElem?_eq_getElem hi']
  have hcount := List.countP_map (p := (· = some c)) (f := (l[·]?)) (l := List.range l.length)
  rw [hmap, List.countP_map] at hcount
  rw [← List.countP_eq_length_filter, List.count]
  refine hcount.symm.trans ?_
  apply List.countP_congr
  intro a _
  rw [Function.comp_apply, decide_eq_true_eq, Option.some_inj, beq_iff_eq]

theorem sum_clusterSizes {n k : ℕ} {labels : List ℤ} (h : IsLabelling n k labels) :
    (clusterSizes labels k).sum = n := by
  have hone : ∀ c : ℤ, 0 ≤ c → c < k →
      ((List.range k).map fun (b : ℕ) => if c = (b : ℤ) then 1 else 0).sum = 1 := by
    intro c h0 hk
    obtain ⟨b, rfl⟩ := Int.eq_ofNat_of_zero_le h0
    have hcount : (List.range k).count b = 1 :=
      List.count_eq_one_of_mem List.nodup_range (List.mem_range.mpr (by omega))
    rw [List.sum_map_eq_nsmul_single b, hcount, if_pos rfl, smul_eq_mul]
    intro a hab _
    exact if_neg fun heq => hab (Int.ofNat.inj heq).symm
  have hsum : ∀ l : List ℤ, (∀ c ∈ l, 0 ≤ c ∧ c < k) → (clusterSizes l k).sum = l.length := by
    intro l hl
    induction l with
    | nil => simp [clusterSizes]
    | cons c l ih =>
      obtain ⟨hc, hl⟩ := List.forall_mem_cons.mp hl
      have hadd : clusterSizes (c :: l) k = (List.range k).map fun (b : ℕ) =>
          l.count (b : ℤ) + if c = (b : ℤ) then 1 else 0 := by
        apply List.map_congr_left
        intro b _
        rw [List.count_cons]
        simp
      rw [hadd, List.sum_map_add, hone c hc.1 hc.2, List.length_cons]
      exact congrArg (· + 1) (ih hl)
  rw [hsum labels fun c hc => ⟨h.nonneg c hc, h.lt c hc⟩, h.length]

variable {embeddedIds : List ℤ} {titles : OrderedDict ℤ String} {folder : List (Embedding K d)}
  {profile : FolderProfile K d}

omit [Field K] [LinearOrder K] in
theorem mem_of_becauseOf {n : ℕ} {s : K} {b : Because K}
    (h : becauseOf embeddedIds titles n s = some b) : b.postId ∈ embeddedIds := by
  rw [becauseOf, Option.bind_eq_bind, Option.bind_eq_some_iff] at h
  obtain ⟨i, hi, h⟩ := h
  cases h
  exact List.mem_of_getElem? hi

omit [LinearOrder K] in
theorem themeOf_eq_some {c : ℕ} {t : Theme K}
    (h : themeOf np embeddedIds titles folder profile c = some t) :
    t.index = c ∧ t.size = profile.labels.count (c : ℤ) := by
  simp only [themeOf, Option.bind_eq_bind, Option.bind_eq_some_iff] at h
  obtain ⟨centroid, _, exemplars, _, h⟩ := h
  cases h
  exact ⟨rfl, length_filter_range _ _⟩

omit [LinearOrder K] in
theorem themes_spec {n : ℕ} (hfits : profile.Fits n) {themes : List (Theme K)}
    (h : (List.range profile.k).mapM (themeOf np embeddedIds titles folder profile) =
      some themes) :
    themes.map Theme.index = List.range profile.k ∧ (themes.map Theme.size).sum = n := by
  have hindex : themes.map Theme.index = (List.range profile.k).map id :=
    map_eq_map_of_mapM h fun c t ht => (themeOf_eq_some ht).1
  have hsize : themes.map Theme.size = clusterSizes profile.labels profile.k :=
    map_eq_map_of_mapM h fun c t ht => (themeOf_eq_some ht).2
  rw [List.map_id] at hindex
  exact ⟨hindex, by rw [hsize, sum_clusterSizes hfits.labelling]⟩

omit [Field K] [LinearOrder K] in
theorem exists_theme_of_label {n : ℕ} (hfits : profile.Fits n) {themes : List (Theme K)}
    (hindex : themes.map Theme.index = List.range profile.k) {label : ℤ}
    (hlabel : label ∈ profile.labels) : ∃ theme ∈ themes, (theme.index : ℤ) = label := by
  have h0 := hfits.labelling.nonneg _ hlabel
  have hlt := hfits.labelling.lt _ hlabel
  have hmem : label.toNat ∈ themes.map Theme.index := by
    rw [hindex, List.mem_range]
    omega
  obtain ⟨theme, htheme, heq⟩ := List.mem_map.mp hmem
  exact ⟨theme, htheme, by omega⟩

variable {candidates : List (CandidateRow K d)} {density : DensityScores K}

/-- What is put together for one picked candidate. -/
structure IsItem (embeddedIds : List ℤ) (profile : FolderProfile K d)
    (candidates : List (CandidateRow K d)) (rank idx : ℕ) (item : Suggestion K) : Prop where
  rank : item.rank = rank
  postId : (candidates.map CandidateRow.postId)[idx]? = some item.postId
  theme : item.theme ∈ profile.labels
  because : ∀ b ∈ item.because, b.postId ∈ embeddedIds

omit [Field K] [LinearOrder K] in
theorem suggestionOf_eq_some {rank idx : ℕ} {item : Suggestion K}
    (h : suggestionOf embeddedIds titles profile candidates density rank idx = some item) :
    IsItem embeddedIds profile candidates rank idx item := by
  simp only [suggestionOf, Option.bind_eq_bind, Option.bind_eq_some_iff] at h
  obtain ⟨cand, hcand, nearest, _, nearestSims, _, score, _, first, _, theme, htheme, because,
    hbecause, h⟩ := h
  cases h
  constructor
  · rfl
  · rw [List.getElem?_map, hcand]
    rfl
  · exact List.mem_of_getElem? htheme
  · exact forall_mem_of_mapM hbecause fun p b hpb => mem_of_becauseOf hpb

theorem length_avoidPenalty (candMatrix avoid : List (Embedding K d)) (strength : K) :
    (avoidPenalty np candMatrix avoid strength).length = candMatrix.length := by
  rw [avoidPenalty]
  split_ifs
  · exact List.length_replicate
  · rw [List.length_map, normalise, List.length_map]

structure IsSelection (k : ℤ) (embeddedIds : List ℤ) (profile : FolderProfile K d)
    (candidates : List (CandidateRow K d)) (items : List (Suggestion K)) : Prop where
  length : (items.length : ℤ) = min (max k 0) candidates.length
  ranks : items.map Suggestion.rank = List.range' 1 items.length
  nodup : (items.map Suggestion.postId).Nodup
  postId : ∀ item ∈ items, item.postId ∈ candidates.map CandidateRow.postId
  theme : ∀ item ∈ items, item.theme ∈ profile.labels
  because : ∀ item ∈ items, ∀ b ∈ item.because, b.postId ∈ embeddedIds

omit [Field K] [LinearOrder K] in
theorem isSelection_nil (k : ℤ) (embeddedIds : List ℤ) (profile : FolderProfile K d) :
    IsSelection k embeddedIds profile [] [] := by
  constructor
  · simp only [List.length_nil, Nat.cast_zero]
    omega
  · rfl
  · exact List.nodup_nil
  · exact fun item hitem => absurd hitem List.not_mem_nil
  · exact fun item hitem => absurd hitem List.not_mem_nil
  · exact fun item hitem => absurd hitem List.not_mem_nil

theorem selectItems_spec {params : SuggestParams K} {verdicts : OrderedDict ℤ Verdict}
    {avoid : List (Embedding K d)} {items : List (Suggestion K)}
    (hnodup : (candidates.map CandidateRow.postId).Nodup)
    (h : selectItems np params verdicts embeddedIds titles folder profile candidates avoid =
      some items) : IsSelection params.k embeddedIds profile candidates items := by
  let candMatrix := normalise np (candidates.map CandidateRow.embedding)
  let density := knnDensity np candMatrix folder params.knn (some (weightsOf verdicts embeddedIds))
  let rankingHeat := List.zipWith (· - ·) density.heat
    (avoidPenalty np candMatrix avoid veryNoPenalty)
  let picked := mmrSelect np rankingHeat candMatrix params.k (1 - params.diversity)
  have hheat : rankingHeat.length = candidates.length := by
    simp only [rankingHeat, density, candMatrix, List.length_zipWith, length_avoidPenalty,
      knnDensity, normalise, List.length_map, Nat.min_self]
  have hinv := mmrSelectBy_inv (fun i s => dotProduct ((normalise np candMatrix).getD i 0)
    ((normalise np candMatrix).getD s 0)) rankingHeat (1 - params.diversity) params.k
  rw [hheat] at hinv
  have hcount : (picked.length : ℤ) = min (max params.k 0) candidates.length := hinv.1
  have hpicked : picked.Nodup := hinv.2.1
  have hlt : ∀ i ∈ picked, i < candidates.length := hinv.2.2.1
  have hlen : items.length = picked.length := by
    rw [length_of_mapM h, List.length_zipIdx]
  have hranks : items.map Suggestion.rank = (picked.zipIdx 1).map Prod.snd :=
    map_eq_map_of_mapM h fun p item hitem => (suggestionOf_eq_some hitem).rank
  have hposts : (items.map Suggestion.postId).map some =
      picked.map fun i => (candidates.map CandidateRow.postId)[i]? := by
    have hmap : items.map (fun item => some item.postId) =
        (picked.zipIdx 1).map fun p => (candidates.map CandidateRow.postId)[p.1]? :=
      map_eq_map_of_mapM h fun p item hitem => (suggestionOf_eq_some hitem).postId.symm
    conv_rhs => rw [← List.zipIdx_map_fst 1 picked, List.map_map]
    rw [List.map_map]
    exact hmap
  constructor
  · rw [hlen, hcount]
  · rw [hranks, List.zipIdx_map_snd, hlen]
  · apply List.Nodup.of_map some
    rw [hposts]
    apply hpicked.map_on
    intro i hi j hj heq
    have hi' : i < (candidates.map CandidateRow.postId).length := by
      rw [List.length_map]
      exact hlt i hi
    exact (List.getElem?_inj hi' hnodup).mp heq
  · exact forall_mem_of_mapM h fun p item hitem =>
      List.mem_of_getElem? (suggestionOf_eq_some hitem).postId
  · exact forall_mem_of_mapM h fun p item hitem => (suggestionOf_eq_some hitem).theme
  · exact forall_mem_of_mapM h fun p item hitem => (suggestionOf_eq_some hitem).because

end Items

end FolderSuggestion
end RagPipeline
