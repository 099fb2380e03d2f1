import RagPipeline.Repository.Feedback
import RagPipeline.Services.SuggestionGuarantees

namespace RagPipeline
namespace FolderSuggestion
open Coro FolderScoring

/-- `make_folder_key`; `sha1` is the hexadecimal digest. -/
def makeFolderKey (sha1 : String → String) (folderId : Option ℤ) (postIds : Option (List ℤ)) :
    String :=
  match folderId with
  | some n => "folder:" ++ toString n
  | none =>
    let digest := sha1 (",".intercalate ((sortedIds (postIds.getD []).dedup).map toString))
    "ids:" ++ String.ofList (digest.toList.take 12)

/-- What `run_suggestion` awaits of its two repositories. -/
inductive SuggestionOp (K : Type) (d : ℕ) where
  | verdicts (libraryId folderKey : String)
  | reader (op : ReaderOp K d)

abbrev SuggestionOp.Ans {K : Type} {d : ℕ} : SuggestionOp K d → Type
  | verdicts .. => OrderedDict ℤ Verdict
  | reader op => op.Ans

section Endpoint

variable {K : Type} [Field K] [LinearOrder K] {d : ℕ} (np : Numpy K) (sha1 : String → String)

def runSuggestion (libraryId chunkType : String) (folderId : Option ℤ) (postIds : Option (List ℤ))
    (params : SuggestParams K) :
    Coro (SuggestionOp K d) SuggestionOp.Ans SuggestExc (String × SuggestResult K) :=
  let key := makeFolderKey sha1 folderId postIds
  let postsTable := "posts_" ++ libraryId
  match embedConfigs.get? chunkType with
  | none => raise (.reader (.other chunkType))
  | some cfg => do
    let chunksTable := buildChunkTableName postsTable chunkType cfg.primary
    let verdicts : OrderedDict ℤ Verdict ← call (SuggestionOp.verdicts libraryId key)
    let result ← embed SuggestionOp.reader
      (suggestForFolder np postsTable chunksTable postIds folderId (some verdicts) params)
    ret (key, result)

end Endpoint

theorem makeFolderKey_congr (sha1 : String → String) {ids ids' : List ℤ}
    (h : ∀ i, i ∈ ids' ↔ i ∈ ids) :
    makeFolderKey sha1 none (some ids') = makeFolderKey sha1 none (some ids) := by
  have hperm : ids'.dedup.Perm ids.dedup := by
    apply (List.perm_ext_iff_of_nodup ids'.nodup_dedup ids.nodup_dedup).mpr
    intro i
    rw [List.mem_dedup, List.mem_dedup, h]
  have hsorted : sortedIds ids'.dedup = sortedIds ids.dedup := by
    have hsame : (sortedIds ids'.dedup).Perm (sortedIds ids.dedup) :=
      (perm_sortedIds _).trans (hperm.trans (perm_sortedIds _).symm)
    exact List.Perm.eq_of_pairwise (fun a b _ _ => le_antisymm)
      (List.pairwise_insertionSort (· ≤ ·) _) (List.pairwise_insertionSort (· ≤ ·) _) hsame
  simp only [makeFolderKey, Option.getD_some, hsorted]

variable {base : RatingKey → Rating} {L : List (RatingKey × Rating)} {k : RatingKey}

theorem last_of_ratings (base : RatingKey → Rating) (L : List (RatingKey × Rating))
    (k : RatingKey) :
    (∀ w ∈ L, w.1 ≠ k) ∨ ∃ before after, L = before ++ (k, ratings base L k) :: after ∧
      ∀ w ∈ after, w.1 ≠ k := by
  induction L using List.reverseRec with
  | nil => exact .inl fun w hw => absurd hw List.not_mem_nil
  | append_singleton L w ih =>
    obtain ⟨k', rating⟩ := w
    rw [ratings_append, Function.update_apply]
    split_ifs with hk
    · subst hk
      exact .inr ⟨L, [], rfl, fun w hw => absurd hw List.not_mem_nil⟩
    · have hlast : ∀ w ∈ [(k', rating)], w.1 ≠ k := by
        intro w hw
        rw [List.mem_singleton.mp hw]
        exact Ne.symm hk
      obtain hnone | ⟨before, after, hL, hafter⟩ := ih
      · left
        intro w hw
        exact (List.mem_append.mp hw).elim (hnone w) (hlast w)
      · right
        refine ⟨before, after ++ [(k', rating)], ?_, fun w hw => ?_⟩
        · rw [← List.cons_append, ← List.append_assoc, ← hL]
        · exact (List.mem_append.mp hw).elim (hafter w) (hlast w)

theorem cleared_of_ratings {v : Verdict} {first : List (RatingKey × Rating)}
    (hrated : first ++ [(k, some v)] <+: L) (hnone : ratings base L k = none) :
    ∃ between after, L = first ++ (k, some v) :: between ++ (k, none) :: after ∧
      ∀ w ∈ after, w.1 ≠ k := by
  obtain ⟨rest, hL⟩ := hrated
  have hmem : (k, some v) ∈ L := by
    rw [← hL]
    simp
  obtain hnever | ⟨before, after, hsplit, hafter⟩ := last_of_ratings base L k
  · exact absurd rfl (hnever _ hmem)
  · rw [hnone] at hsplit
    have hboth : (first ++ [(k, some v)]) ++ rest = before ++ (k, none) :: after := by
      rw [hL, hsplit]
    -- the cleared one is among what follows, since it is the last one of its key
    obtain ⟨more, hbefore, hrest⟩ | ⟨more, hfirst, hcleared⟩ := List.append_eq_append_iff.mp hboth
    · refine ⟨more, after, ?_, hafter⟩
      rw [hsplit, hbefore]
      simp
    · rcases List.eq_nil_or_concat more with rfl | ⟨init, last, rfl⟩
      · refine ⟨[], after, ?_, hafter⟩
        rw [hsplit, ← List.append_nil before, ← hfirst]
      · have hlast : last = (k, some v) := by
          rw [List.concat_eq_append, ← List.append_assoc] at hfirst
          exact (List.singleton_inj.mp (List.append_inj_right' hfirst rfl)).symm
        have hin : (k, some v) ∈ init.concat last ++ rest := by
          rw [hlast]
          simp
        rw [← hcleared] at hin
        obtain heq | hlater := List.mem_cons.mp hin
        · cases heq
        · exact absurd rfl (hafter _ hlater)

section Suggested

variable {K : Type} [Field K] [LinearOrder K] {d : ℕ} {np : Numpy K} {σ : Type}

omit [Field K] [LinearOrder K] in
theorem run_folderPosts_given {w : World (ReaderOp K d) ReaderOp.Ans SuggestExc σ}
    {postsTable : String} {ids posts : List ℤ} {folderId : Option ℤ} {x y : σ}
    (h : run w (folderPosts postsTable (some ids) folderId) x = (.ok posts, y)) :
    folderId = none ∧ posts = ids := by
  cases folderId with
  | none =>
    cases h
    exact ⟨rfl, rfl⟩
  | some n => cases h

theorem unrated_of_run {w : World (ReaderOp K d) ReaderOp.Ans SuggestExc σ} (hw : Honours w)
    {postsTable chunksTable : String} {postIds : Option (List ℤ)} {folderId : Option ℤ}
    {verdicts : OrderedDict ℤ Verdict} {params : SuggestParams K} {x y : σ} {r : SuggestResult K}
    (h : run w (suggestForFolder np postsTable chunksTable postIds folderId (some verdicts)
      params) x = (.ok r, y)) {item : Suggestion K} (hitem : item ∈ r.items) :
    (∀ ids ∈ postIds, item.postId ∉ ids) ∧ verdicts.get? item.postId = none := by
  obtain ⟨posts, _, vectors, _, hposts, _, _, hrun⟩ := run_suggestForFolder h
  obtain ⟨byPost, _, _, _, items, hgather, _, hitems, rfl⟩ := run_suggestFrom hrun
  have hsound := Sound.gather hw (fun p hp => absurd hp List.not_mem_nil) hgather
  have hnodup : (byPost.values.map CandidateRow.postId).Nodup := by
    rw [hsound.map_postId]
    exact byPost.nodup
  have hmem := (hitems hnodup).postId item hitem
  rw [hsound.map_postId] at hmem
  obtain ⟨p, hp, heq⟩ := List.mem_map.mp hmem
  have hout := (hsound p hp).2
  rw [heq, mem_excludedIds_iff, not_or, not_not] at hout
  refine ⟨fun ids hids => ?_, hout.2⟩
  rw [Option.mem_def.mp hids] at hposts
  exact (run_folderPosts_given hposts).2 ▸ hout.1

/-- A response of the endpoint whose verdicts are read in some state of a run of feedback requests:
its key is the one under which feedback on it is filed, the same for each list of the same posts,
and no post in it is given or has a rating then. One that was rated by an answered request has been
cleared since, and not rated again. -/
theorem suggested_unrated {D : FeedbackDb} {sha1 : String → String}
    {T : Requests.State FeedbackOp FeedbackOp.Ans FeedbackExc Unit FeedbackServer
      (RatingKey × Rating) FeedbackRequest}
    (h : Requests.Run feedbackService (Requests.start ⟨D, []⟩) T)
    {w : World (SuggestionOp K d) SuggestionOp.Ans SuggestExc σ}
    (hw : Honours fun op => w (.reader op))
    (hread : ∀ libraryId folderKey x y verdicts,
      w (.verdicts libraryId folderKey) x = (.ok verdicts, y) →
        (run feedbackWorld (FeedbackRepository.verdicts libraryId folderKey) T.object).1 =
          .ok verdicts)
    {libraryId chunkType key : String} {folderId : Option ℤ} {postIds : Option (List ℤ)}
    {params : SuggestParams K} {x y : σ} {r : SuggestResult K}
    (hrun : run w (runSuggestion np sha1 libraryId chunkType folderId postIds params) x =
      (.ok (key, r), y)) :
    key = makeFolderKey sha1 folderId postIds ∧
    (∀ ids ∈ postIds, ∀ ids' : List ℤ, (∀ i, i ∈ ids' ↔ i ∈ ids) →
      makeFolderKey sha1 none (some ids') = key) ∧
    ∀ item ∈ r.items, (∀ ids ∈ postIds, item.postId ∉ ids) ∧
      T.object.db.visible ⟨libraryId, key, item.postId⟩ = none ∧
      ∀ a ∈ T.replies, ∀ v, a.request.key = ⟨libraryId, key, item.postId⟩ →
        ratingOf a.request.verdict = some (some v) →
        ∃ first between after, T.log =
            first ++ (a.request.key, some v) :: between ++ (a.request.key, none) :: after ∧
          a.seen <+: first ∧ ∀ w ∈ after, w.1 ≠ a.request.key := by
  unfold runSuggestion at hrun
  split at hrun
  · cases hrun
  obtain ⟨verdicts, x₁, hverdicts, hrun⟩ := run_bind_ok w hrun
  obtain ⟨result, x₂, hresult, hrun⟩ := run_bind_ok w hrun
  cases hrun
  rw [run_call] at hverdicts
  rw [run_embed] at hresult
  refine ⟨rfl, fun ids hids ids' hsame => ?_, fun item hitem => ?_⟩
  · obtain ⟨posts, _, _, _, hposts, _⟩ := run_suggestForFolder hresult
    rw [Option.mem_def.mp hids] at hposts ⊢
    rw [(run_folderPosts_given hposts).1]
    exact makeFolderKey_congr sha1 hsame
  · obtain ⟨hgiven, hnone⟩ := unrated_of_run hw hresult hitem
    rw [get?_of_run_verdicts (hread _ _ _ _ _ hverdicts)] at hnone
    refine ⟨hgiven, hnone, fun a ha v hkey hrating => ?_⟩
    have hsound := sound_of_run h
    obtain ⟨-, hdone, rating, hrating', first, hseen, hwritten⟩ := hsound.replies a ha
    rw [hrating] at hrating'
    obtain rfl := Option.some.inj hrating'
    have hlog : first ++ [(a.request.key, some v)] <+: T.log := hwritten.trans hdone
    have hratings : ratings D.rated T.log a.request.key = none := by
      obtain hratings | ⟨-, hempty⟩ := hsound.object.visible_or
      · rw [← hratings, hkey]
        exact hnone
      · rw [hempty, List.prefix_nil] at hlog
        exact absurd hlog (List.append_ne_nil_of_right_ne_nil _ (List.cons_ne_nil _ _))
    obtain ⟨between, after, heq, hafter⟩ := cleared_of_ratings hlog hratings
    exact ⟨first, between, after, heq, hseen, hafter⟩

/-- The two repositories, each over a database that stays as it is. -/
def suggestionWorld (server : FeedbackServer) (lib : Library K d) (db : Pgvector K d) :
    World (SuggestionOp K d) SuggestionOp.Ans SuggestExc Unit
  | .verdicts libraryId folderKey, u =>
    ((run feedbackWorld (FeedbackRepository.verdicts libraryId folderKey) server).1.mapError
      fun _ => .reader (.other "feedback"), u)
  | .reader op, u => steady (FolderSuggestionRepository.answer lib db) op u

omit [LinearOrder K] in
theorem read_of_suggestionWorld {server : FeedbackServer} {lib : Library K d} {db : Pgvector K d}
    {libraryId folderKey : String} {x y : Unit} {verdicts : OrderedDict ℤ Verdict}
    (h : suggestionWorld server lib db (.verdicts libraryId folderKey) x = (.ok verdicts, y)) :
    (run feedbackWorld (FeedbackRepository.verdicts libraryId folderKey) server).1 =
      .ok verdicts := by
  have hread : ((run feedbackWorld (FeedbackRepository.verdicts libraryId folderKey)
      server).1.mapError fun _ => SuggestExc.reader (.other "feedback")) = .ok verdicts :=
    congrArg Prod.fst h
  cases hr : (run feedbackWorld (FeedbackRepository.verdicts libraryId folderKey) server).1 with
  | ok d =>
    rw [hr] at hread
    exact congrArg Except.ok (Except.ok.inj hread)
  | error e =>
    rw [hr] at hread
    cases hread

end Suggested

def titledPosts : Library ℚ 1 :=
  .ofTables "posts_main" (buildChunkTableName "posts_main" "title" bgeSmallEmbedCfg.primary)
    [⟨1, some "one", none, none, none, [7]⟩, ⟨8, some "eight", none, none, none, []⟩] (by decide)
    [⟨1, some ![1]⟩, ⟨8, some ![1]⟩]

/-- Post 8 is rated under the key of the list of post 1 and cleared again. -/
def eight : RatingKey := ⟨"main", makeFolderKey id none (some [1]), 8⟩

theorem suggested_unrated_titledPosts : ∃ T key r,
    Requests.Run feedbackService (Requests.start ⟨firstVersionDb, []⟩) T ∧
    run (suggestionWorld T.object titledPosts (sortingPgvector id))
      (runSuggestion (sortingNumpy id) id "main" "title" none (some [1]) {}) () =
        (.ok (key, r), ()) ∧
    makeFolderKey id none (some [1, 1]) = key ∧
    (∃ a ∈ T.replies, a.request.key = eight ∧ ratingOf a.request.verdict = some (some .no)) ∧
    ∀ item ∈ r.items, item.postId ∉ [1] ∧
      (item.postId = 8 → ∃ first between after,
        T.log = first ++ (eight, some .no) :: between ++ (eight, none) :: after) := by
  have hverdict : ratingOf "no" = some (some .no) := by decide
  have hcleared : ratingOf "clear" = some none := by decide
  obtain ⟨rated, hrate, hreply, -⟩ := answered_of_run
    (.refl : Requests.Run feedbackService (Requests.start ⟨firstVersionDb, []⟩) _)
    (r := ⟨0, eight, "no"⟩) hverdict (by decide) rfl
  obtain ⟨T, hclear, hreplies, -⟩ := answered_of_run hrate
    (r := ⟨0, eight, "clear"⟩) hcleared (by decide) rfl
  have hfeedback := hrate.trans hclear
  have hposts : titledPosts.posts (relation "posts_main") = some _ := if_pos rfl
  have hchunks : titledPosts.chunks (relation (buildChunkTableName "posts_main" "title"
    bgeSmallEmbedCfg.primary)) = some _ := if_pos rfl
  obtain ⟨verdicts, hverdicts⟩ := run_verdicts T.object
    (by decide : isText "main") (by decide : isText (makeFolderKey id none (some [1])))
  obtain ⟨r, t, h⟩ : ∃ r t,
      run (steady (FolderSuggestionRepository.answer titledPosts (sortingPgvector id)))
        (suggestForFolder (sortingNumpy id) "posts_main"
          (buildChunkTableName "posts_main" "title" bgeSmallEmbedCfg.primary) (some [1]) none
          (some verdicts) {}) () = (.ok r, t) := by
    apply run_suggestForFolder_returns (contract_sortingNumpy id) (answers_answer hposts hchunks)
      (by decide) (some verdicts) {} () (by
      intro posts s₁ hrun vectors s₂ hembed
      cases hrun
      have hgiven : 1 ∈ folderIds [1] verdicts := mem_folderIds.mpr (.inl List.mem_cons_self)
      have hvectors := FolderSuggestionRepository.folderEmbeddings_eq hchunks
        (folderIds [1] verdicts)
      have hne : (folderIds [1] verdicts).isEmpty = false := by
        rw [← Bool.not_eq_true, List.isEmpty_iff]
        exact List.ne_nil_of_mem hgiven
      simp only [embeddingsOf, Option.getD_some, hne, Bool.false_eq_true, if_false, run_call,
        steady, FolderSuggestionRepository.answer, hvectors, Prod.mk.injEq,
        Except.ok.injEq] at hembed
      rw [← hembed.1]
      exact List.ne_nil_of_mem (FolderSuggestionRepository.mem_keys_meanVectors.mpr
        ⟨hgiven, ⟨1, some ![1]⟩, List.mem_cons_self, rfl, rfl⟩))
  have hrun : run (suggestionWorld T.object titledPosts (sortingPgvector id))
      (runSuggestion (sortingNumpy id) id "main" "title" none (some [1]) {}) () =
        (.ok (makeFolderKey id none (some [1]), r), ()) := by
    have hcfg : embedConfigs.get? "title" = some bgeSmallEmbedCfg := rfl
    have hread : suggestionWorld T.object titledPosts (sortingPgvector id)
        (.verdicts "main" (makeFolderKey id none (some [1]))) () = (.ok verdicts, ()) := by
      rw [suggestionWorld, hverdicts]
      rfl
    have hreader : run (suggestionWorld T.object titledPosts (sortingPgvector id))
        (embed SuggestionOp.reader (suggestForFolder (sortingNumpy id) "posts_main"
          (buildChunkTableName "posts_main" "title" bgeSmallEmbedCfg.primary) (some [1]) none
          (some verdicts) {})) () = (.ok r, ()) := (run_embed _ _ _ _).trans h
    have htable : "posts_" ++ "main" = "posts_main" := by decide
    simp only [runSuggestion, hcfg, htable]
    rw [run_bind, run_call, hread]
    exact (run_bind _ _ _ _).trans (by rw [hreader]; rfl)
  obtain ⟨-, hsame, hitems⟩ := suggested_unrated hfeedback
    (honours_answer (contract_sortingPgvector id)) (fun _ _ _ _ _ => read_of_suggestionWorld) hrun
  have hno : (⟨⟨0, eight, "no"⟩, [], rated.log, ()⟩ : Requests.Reply _ _ _) ∈ T.replies := by
    rw [hreplies, hreply]
    exact List.mem_cons_of_mem _ List.mem_cons_self
  refine ⟨T, _, r, hfeedback, hrun, hsame [1] rfl [1, 1] (by simp), ⟨_, hno, rfl, hverdict⟩,
    fun item hitem => ⟨(hitems item hitem).1 [1] rfl, fun hid => ?_⟩⟩
  obtain ⟨first, between, after, hlog, -⟩ :=
    (hitems item hitem).2.2 _ hno .no (by rw [hid]; rfl) hverdict
  exact ⟨first, between, after, hlog⟩

end FolderSuggestion
end RagPipeline
