import Mathlib.Algebra.Order.Ring.Unbundled.Rat
import RagPipeline.Lib.MapM
import RagPipeline.Lib.StableSort
import RagPipeline.Remote.Precision
import RagPipeline.Search.JobWorld

namespace RagPipeline
open Coro MapM

/-- `RerankerModel.score`. -/
abbrev Reranker := String → List String → Except PyExc (List ℚ)

def localReranker (S : String → String → ℚ) : Reranker := fun query documents =>
  .ok (documents.map (S query))

/-- `float(score)`; the service sends nothing but numbers. -/
def Json.number? : Json → Option ℚ
  | .int n => some n
  | .float q => some q
  | _ => none

/-- A client of the service, which is in that state when the batch is sent. -/
def remoteReranker (cfg : ServiceConfig) (authorization : Option String) (turns : ℕ → Turn)
    (r : RemoteClient) (t : ServiceState) : Reranker := fun query documents => do
  let values ← (run (serviceWorld cfg authorization turns) (r.score query documents) t).1
  orRaise (values.mapM Json.number?)

/-- The service admits the client, and has or can load a reranker that scores with `S`. -/
structure ServesScorer (cfg : ServiceConfig) (authorization : Option String) (turns : ℕ → Turn)
    (r : RemoteClient) (t : ServiceState) (S : String → String → ℚ) : Prop where
  authorized : Service.authorized cfg authorization = .ok ()
  isReranker : ManagerState.kind cfg r.name = some .rerank
  served : ∃ model, (((turns t.requests).found cfg t.mgr).serve cfg (turns t.requests).lib
      (turns t.requests).now r.name).1 = .ok model ∧
    ∀ query documents, model.weights.score query documents = documents.map (S query)

/-- The two ways in which the scores of `S` reach the rerank handler. -/
inductive ScoresWith (S : String → String → ℚ) : Reranker → Prop where
  | onDevice : ScoresWith S (localReranker S)
  | remote {cfg : ServiceConfig} {authorization : Option String} {turns : ℕ → Turn}
      {r : RemoteClient} {t : ServiceState} (h : ServesScorer cfg authorization turns r t S) :
      ScoresWith S (remoteReranker cfg authorization turns r t)

section Wire

theorem mapM_readScore (scores : List ℚ) :
    ((scores.mapIdx fun i score => (⟨i, score⟩ : RerankResultItem)).map
      Service.resultJson).mapM readScore = some (PyList.indexed (scores.map Json.float)) := by
  have hread : ∀ item : RerankResultItem,
      readScore (Service.resultJson item) = some ((item.index : ℤ), .float item.score) :=
    fun _ => rfl
  rw [mapM_map_some hread, Option.some_inj]
  apply List.ext_getElem
  · simp [PyList.indexed]
  · intro i hi hi'
    simp [PyList.indexed]

/-- The client puts the scores back in the order of its documents. -/
theorem scores_of_results {resp : HttpResponse} {scores : List ℚ} (hok : resp.isSuccess = true)
    (hitems : resp.items? "results" = some ((scores.mapIdx fun i score =>
      (⟨i, score⟩ : RerankResultItem)).map Service.resultJson)) :
    resp.scores scores.length = .ok (scores.map Json.float) := by
  have hlen : (scores.map Json.float).length = scores.length := List.length_map _
  rw [scores_eq_ok]
  refine ⟨PyList.indexed (scores.map Json.float),
    ⟨hok, ⟨_, hitems, mapM_readScore scores⟩, fun row hrow => ?_⟩, PyList.assign?_indexed (by simp)⟩
  obtain ⟨k, hk, rfl⟩ := PyList.mem_indexed.mp hrow
  rw [PyList.position?_natCast (hlen ▸ hk)]
  rfl

variable {cfg : ServiceConfig} {authorization : Option String} {turns : ℕ → Turn}
  {r : RemoteClient} {t : ServiceState} {S : String → String → ℚ}

theorem ServesScorer.rerank (h : ServesScorer cfg authorization turns r t S) (query : String)
    {documents : List String} (hne : documents ≠ []) :
    (Service.rerank cfg authorization (turns t.requests).lib (turns t.requests).now
      ((turns t.requests).found cfg t.mgr) r.name query documents).1 =
        .ok ((documents.map (S query)).mapIdx fun i score => ⟨i, score⟩) := by
  obtain ⟨model, hserve, hS⟩ := h.served
  unfold Service.rerank ManagerState.rerank
  rcases hfound : ((turns t.requests).found cfg t.mgr).serve cfg (turns t.requests).lib
    (turns t.requests).now r.name with ⟨x, s'⟩
  rw [hfound] at hserve
  obtain rfl : x = .ok model := hserve
  simp [h.authorized, h.isReranker, hne, ManagerState.scoreWith, hS]

/-- Through the client, the route and the manager, each text gets its own score. -/
theorem ServesScorer.score (h : ServesScorer cfg authorization turns r t S) (query : String)
    {documents : List String} (hne : documents ≠ []) :
    remoteReranker cfg authorization turns r t query documents =
      .ok (documents.map (S query)) := by
  have hroute := h.rerank query hne
  have hbody : (Service.answer cfg authorization (turns t.requests).lib (turns t.requests).now
      ((turns t.requests).found cfg t.mgr) (.postRerank r.name query documents)).1.scores
        documents.length = .ok ((documents.map (S query)).map Json.float) := by
    show (Service.respond _ (Service.rerank ..).1).scores _ = _
    rw [hroute, ← List.length_map (S query)]
    exact scores_of_results rfl rfl
  have hnumber : ∀ q : ℚ, Json.number? (.float q) = some (id q) := fun _ => rfl
  unfold remoteReranker
  rw [run_score_service, hbody, ok_bind, mapM_map_some hnumber, List.map_id]
  rfl

theorem ScoresWith.score {reranker : Reranker} (h : ScoresWith S reranker) (query : String)
    {documents : List String} (hne : documents ≠ []) :
    reranker query documents = .ok (documents.map (S query)) := by
  cases h with
  | onDevice => rfl
  | remote h => exact h.score query hne

end Wire

def JobStore.resultsOf (s : JobStore) (jobId : String) : Option (List SearchResult) :=
  (s.jobs jobId).bind SearchJob.results

section Stored

variable {ω : JobOracle} {s : JobStore} {job : SearchJob} {rows : List ChunkRow}

theorem resultsOf_complete {jobId : String} (hrow : s.jobs jobId = some job)
    (results : List SearchResult) (events : List Event) :
    JobStore.resultsOf ⟨s.jobs.update jobId (SearchJob.complete results), events⟩ jobId =
      some results := by
  simp [JobStore.resultsOf, JobTable.update_same, hrow, SearchJob.complete]

/-- A failure that is recorded afterwards leaves the results. -/
theorem resultsOf_fail (jobId error : String) (code : Option String) (s : JobStore) :
    JobStore.resultsOf ⟨s.jobs.update jobId (SearchJob.fail error code), s.events⟩ jobId =
      s.resultsOf jobId := by
  show ((s.jobs.update jobId _) jobId).bind _ = (s.jobs jobId).bind _
  rw [JobTable.update_same]
  cases s.jobs jobId <;> rfl

/-- The results stay, whether or not they can be announced. -/
theorem resultsOf_rank_finish (ω : JobOracle) {task : SearchRankTask}
    (hrow : s.jobs task.jobId = some job) (results : List SearchResult) :
    (run (jobWorld ω) (attempt (do RerankHandler.finish task results; ret true)
      (RerankHandler.onError task.jobId)) s).2.resultsOf task.jobId = some results := by
  simp only [run_attempt, run_bind, RerankHandler.finish, publishCompleted, run_call, jobWorld]
  -- an event that cannot be published fails the job and leaves its results
  rcases ω (.publish (.searchJobCompleted ⟨task.jobId, task.traceId⟩)) with e | u
  · cases e <;>
      exact (resultsOf_fail ..).trans (resultsOf_complete hrow results s.events)
  · exact resultsOf_complete hrow results _

theorem resultsOf_rerank {task : SearchRankTask} (hrow : s.jobs task.jobId = some job)
    (hrows : ω (.getChunksByIds (candidateIds task.candidates) job.chunksTable) = .ok rows)
    (scores : List ℚ) (hscores : hydrated task.candidates rows ≠ [] →
      ω (.score job.query (rankTexts (hydrated task.candidates rows))) = .ok scores) :
    (run (jobWorld ω) (RerankHandler.handle task) s).2.resultsOf task.jobId =
      some (rankResults job.k (hydrated task.candidates rows) scores) := by
  have hrank : ∀ t, run (jobWorld ω) (RerankHandler.rank task job) t = run (jobWorld ω)
      (RerankHandler.finish task (rankResults job.k (hydrated task.candidates rows) scores)) t := by
    intro t
    simp only [RerankHandler.rank, run_bind, run_call, jobWorld, hrows]
    cases hfound : hydrated task.candidates rows with
    -- nothing was found: no scores are asked for
    | nil => simp [rankResults, sortByScore, sliceTo]
    | cons c cs =>
      rw [hfound] at hscores
      simp only [run_bind, run_call, jobWorld, hscores (List.cons_ne_nil c cs)]
  simp only [RerankHandler.handle, run_bind, run_call, jobWorld, hrow]
  have hmarked : (JobStore.mk (s.jobs.update task.jobId SearchJob.markReranking) s.events).jobs
      task.jobId = some job.markReranking := by simp [JobTable.update_same, hrow]
  have hfinish := resultsOf_rank_finish ω hmarked
    (rankResults job.k (hydrated task.candidates rows) scores)
  rw [run_attempt, run_bind] at hfinish ⊢
  rw [hrank]
  exact hfinish

theorem resultsOf_finalize {task : SearchFinalizeTask} (hrow : s.jobs task.jobId = some job)
    (hrows : ω (.getChunksByIds (candidateIds (sliceTo task.candidates job.k)) job.chunksTable) =
      .ok rows) :
    (run (jobWorld ω) (SearchFinalizeHandler.handle task) s).2.resultsOf task.jobId =
      some (finalResults job.k task.candidates rows) := by
  simp only [SearchFinalizeHandler.handle, SearchFinalizeHandler.finalize, publishCompleted,
    run_bind, run_attempt, run_call, jobWorld, hrow, hrows]
  rcases ω (.publish (.searchJobCompleted ⟨task.jobId, task.traceId⟩)) with e | u
  · exact (resultsOf_fail ..).trans (resultsOf_complete hrow _ s.events)
  · exact resultsOf_complete hrow _ _

end Stored

def SearchResult.row (r : SearchResult) : ChunkRow := ⟨r.chunkId, r.postId, r.text, r.metadata⟩

/-- A better score, or the same one and an earlier candidate. -/
def RanksBefore (ids : List String) (a b : SearchResult) : Prop :=
  b.score < a.score ∨ b.score = a.score ∧ ids.idxOf a.chunkId < ids.idxOf b.chunkId

structure Reorders (score : String → ℚ) (ids : List String) (ranked final : List SearchResult) :
    Prop where
  rows : (ranked.map SearchResult.row).Perm (final.map SearchResult.row)
  ordered : ranked.Pairwise (RanksBefore ids)
  scored : ∀ r ∈ ranked, r.score = score r.text

section Order

variable {candidates : List CandidateChunkRef} {rows rows' : List ChunkRow} {k : ℤ}

theorem sliceTo_of_length_le {α : Type} {l : List α} (h : l.length ≤ k) : sliceTo l k = l := by
  unfold sliceTo
  rw [if_pos (by omega), List.take_of_length_le (by omega)]

theorem hydrated_of_perm (hids : (rows.map ChunkRow.id).Nodup) (h : rows'.Perm rows) :
    hydrated candidates rows' = hydrated candidates rows := by
  have hids' : (rows'.map ChunkRow.id).Nodup := (h.map _).nodup_iff.mpr hids
  unfold hydrated
  congr 1
  funext c
  congr 1
  ext r
  unfold rowsById
  rw [OrderedDict.get?_indexBy _ hids', OrderedDict.get?_indexBy _ hids, h.mem_iff]

theorem pairwise_hydrated (hnodup : (candidates.map CandidateChunkRef.chunkId).Nodup) :
    (hydrated candidates rows).Pairwise fun p p' =>
      (candidates.map CandidateChunkRef.chunkId).idxOf p.1.chunkId <
        (candidates.map CandidateChunkRef.chunkId).idxOf p'.1.chunkId := by
  have hpositions := StableSort.pairwise_idxOf hnodup
  rw [List.pairwise_map] at hpositions
  apply hpositions.filterMap
  intro c c' hc p hp p' hp'
  obtain ⟨r, -, rfl⟩ := Option.map_eq_some_iff.mp hp
  obtain ⟨r', -, rfl⟩ := Option.map_eq_some_iff.mp hp'
  exact hc

theorem rankResults_eq (score : String → ℚ) {ordered : List (CandidateChunkRef × ChunkRow)}
    (h : ordered.length ≤ k) : rankResults k ordered ((rankTexts ordered).map score) =
      (sortByScore (ordered.map fun p => (p, score p.2.text))).map
        fun p => toResult p.1.1 p.1.2 p.2 := by
  have hzip : ordered.zip ((rankTexts ordered).map score) =
      ordered.map fun p => (p, score p.2.text) := by
    rw [rankTexts, List.map_map]
    exact List.map_prod_left_eq_zip.symm
  unfold rankResults
  rw [hzip, sliceTo_of_length_le]
  rwa [sortByScore, List.length_insertionSort, List.length_map]

theorem perm_sortByScore {α : Type} (l : List (α × ℚ)) : (sortByScore l).Perm l :=
  List.perm_insertionSort _ l

theorem pairwise_sortByScore {α : Type} {R : α × ℚ → α × ℚ → Prop} {l : List (α × ℚ)}
    (h : l.Pairwise R) :
    (sortByScore l).Pairwise fun p q => q.2 < p.2 ∨ q.2 = p.2 ∧ R p q := by
  have htotal : Std.Total fun p q : α × ℚ => q.2 ≤ p.2 := ⟨fun p q => le_total q.2 p.2⟩
  have htrans : IsTrans (α × ℚ) fun p q => q.2 ≤ p.2 := ⟨fun p q r hpq hqr => hqr.trans hpq⟩
  apply (StableSort.pairwise_insertionSort h).imp
  intro p q hpq
  obtain hlt | heq := hpq.1.lt_or_eq
  · exact .inl hlt
  · exact .inr ⟨heq, hpq.2 heq.ge⟩

theorem reorders (rows : List ChunkRow)
    (hnodup : (candidates.map CandidateChunkRef.chunkId).Nodup) (hlen : candidates.length ≤ k)
    (score : String → ℚ) :
    Reorders score (candidates.map CandidateChunkRef.chunkId)
      (rankResults k (hydrated candidates rows)
        ((rankTexts (hydrated candidates rows)).map score))
      (finalResults k candidates rows) := by
  have hshort : (hydrated candidates rows).length ≤ k := by
    have h : (hydrated candidates rows).length ≤ candidates.length := List.length_filterMap_le ..
    omega
  rw [rankResults_eq score hshort, finalResults, sliceTo_of_length_le hlen]
  have hperm := perm_sortByScore
    ((hydrated candidates rows).map fun p => (p, score p.2.text))
  -- sorting permutes the pairs, so rows and scores stay together
  refine ⟨?_, ?_, fun r hr => ?_⟩
  · rw [List.map_map, List.map_map]
    have hrows := hperm.map fun p => (toResult p.1.1 p.1.2 p.2).row
    rwa [List.map_map] at hrows
  · rw [List.pairwise_map]
    apply pairwise_sortByScore
    rw [List.pairwise_map]
    exact pairwise_hydrated hnodup
  · obtain ⟨p, hp, rfl⟩ := List.mem_map.mp hr
    obtain ⟨c, -, rfl⟩ := List.mem_map.mp (hperm.mem_iff.mp hp)
    rfl

end Order

/-- What the rerank handler stores are the rows that the finalize handler would store, by the
scores of their own texts, for any rows that are found and in whatever order they are read. -/
theorem reranking_reorders {ω ω' : JobOracle} {s : JobStore} {task : SearchRankTask}
    {finalizeTask : SearchFinalizeTask} {job : SearchJob} (hrow : s.jobs task.jobId = some job)
    (hjob : finalizeTask.jobId = task.jobId) (hsame : finalizeTask.candidates = task.candidates)
    (hnodup : (task.candidates.map CandidateChunkRef.chunkId).Nodup)
    (hlen : task.candidates.length ≤ job.k) {rows rows' : List ChunkRow}
    (hrows : ω (.getChunksByIds (candidateIds task.candidates) job.chunksTable) = .ok rows)
    (hrows' : ω' (.getChunksByIds (candidateIds task.candidates) job.chunksTable) = .ok rows')
    (hids : (rows.map ChunkRow.id).Nodup) (hperm : rows'.Perm rows) {S : String → String → ℚ}
    {reranker : Reranker} (hreranker : ScoresWith S reranker)
    (hscore : ∀ texts, ω (.score job.query texts) = reranker job.query texts) :
    ∃ ranked final,
      (run (jobWorld ω) (RerankHandler.handle task) s).2.resultsOf task.jobId = some ranked ∧
      (run (jobWorld ω') (SearchFinalizeHandler.handle finalizeTask) s).2.resultsOf task.jobId =
        some final ∧
      Reorders (S job.query) (task.candidates.map CandidateChunkRef.chunkId) ranked final := by
  refine ⟨_, _, resultsOf_rerank hrow hrows ((rankTexts (hydrated task.candidates rows)).map
    (S job.query)) fun hne => ?_, ?_, reorders rows hnodup hlen (S job.query)⟩
  · rw [hscore]
    apply hreranker.score
    simpa [rankTexts] using hne
  · rw [← hjob] at hrow ⊢
    rw [← sliceTo_of_length_le hlen, ← hsame] at hrows'
    rw [resultsOf_finalize hrow hrows', hsame, finalResults, hydrated_of_perm hids hperm]
    rfl

def lengthScore (_ text : String) : ℚ := text.length

/-- A reranker that prefers long texts. -/
def lengthLibraries : Libraries where
  build _ _ := .ok ⟨plainWeights.encode, fun query documents => documents.map (lengthScore query)⟩
  tokenizer _ := .ok ()
  probe _ := .ok []

def lengthReranker : Reranker :=
  remoteReranker (plainService "cpu") none (fun _ => ⟨[], lengthLibraries, 1⟩)
    ⟨rerankerSpec.id, true, "/models", none⟩ .start

def rerankJob : SearchJob :=
  SearchJob.create "job" "query" 3 "BAAI/bge-base-en-v1.5" "posts_main_chunks_body" "main" true
    (some "default")

def rerankCandidates : List CandidateChunkRef := [⟨"a", 3⟩, ⟨"b", 2⟩, ⟨"c", 1⟩]

/-- The candidate `b` is gone, and `c` has more text than `a`. -/
def foundRows : List ChunkRow := [⟨"c", 7, "a longer text", none⟩, ⟨"a", 5, "text", none⟩]

def rerankAnswers (rows : List ChunkRow) : JobOracle
  | .getChunksByIds .. => .ok rows
  | .score query texts => lengthReranker query texts
  | op => emptyAnswers op

theorem lengthReranker_scores : ScoresWith lengthScore lengthReranker := by
  refine .remote ⟨rfl, ?_, ⟨_, by rfl, fun query documents => rfl⟩⟩
  unfold ManagerState.kind
  rw [getSpec_rerankerSpec]
  rfl

theorem reranking_reorders_long_text : ∃ ranked final,
    (run (jobWorld (rerankAnswers foundRows)) (RerankHandler.handle
      ⟨⟨"rank", none, none, none⟩, "job", rerankCandidates, some "default"⟩)
      ⟨fun _ => some rerankJob, []⟩).2.resultsOf "job" = some ranked ∧
    (run (jobWorld (rerankAnswers foundRows.reverse)) (SearchFinalizeHandler.handle
      ⟨⟨"finalize", none, none, none⟩, "job", rerankCandidates⟩)
      ⟨fun _ => some rerankJob, []⟩).2.resultsOf "job" = some final ∧
    Reorders (lengthScore "query") ["a", "b", "c"] ranked final :=
  have hrow : (JobStore.mk (fun _ => some rerankJob) []).jobs "job" = some rerankJob := rfl
  reranking_reorders hrow rfl rfl (by decide) (by decide) rfl rfl (by decide)
    (List.reverse_perm foundRows) lengthReranker_scores fun _ => rfl

end RagPipeline
