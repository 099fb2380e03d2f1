import RagPipeline.Lib.Runs
import RagPipeline.Search.JobWorld

namespace RagPipeline
open Coro

def KeepsRow : Option SearchJob → Option SearchJob → Prop
  | some j, some j' =>
    (j.status.terminal = true → j'.status = j.status) ∧
      ¬ (j'.status = .failed ∧ j'.results.isSome = true)
  | none, none => True
  | _, _ => False

/-- Between these two states the job keeps the law. -/
def Keeps (id : String) (s t : JobStore) : Prop := KeepsRow (s.jobs id) (t.jobs id)

def ResultsLawful (id : String) (s : JobStore) : Prop :=
  ∀ j ∈ s.jobs id, j.results.isSome = true → j.status = .complete

/-- A delivery of a task about the job, with the answers its handler gets. -/
inductive Delivery (id : String) where
  | search (ω : JobOracle) (task : SearchRunTask) (h : task.jobId = id)
  | rank (ω : JobOracle) (task : SearchRankTask) (h : task.jobId = id)
  | finalize (ω : JobOracle) (task : SearchFinalizeTask) (h : task.jobId = id)

namespace Delivery

variable {id : String}

def after (s : JobStore) : Delivery id → JobStore
  | search ω task _ => (run (jobWorld ω) (SearchHandler.handle task) s).2
  | rank ω task _ => (run (jobWorld ω) (RerankHandler.handle task) s).2
  | finalize ω task _ => (run (jobWorld ω) (SearchFinalizeHandler.handle task) s).2

def Lawful (s : JobStore) : Delivery id → Prop
  | search ω task _ => Moves (jobWorld ω) (Keeps id) (SearchHandler.handle task) s
  | rank ω task _ => Moves (jobWorld ω) (Keeps id) (RerankHandler.handle task) s
  | finalize ω task _ => Moves (jobWorld ω) (Keeps id) (SearchFinalizeHandler.handle task) s

end Delivery

def SearchJob.hasEmbedding (j : SearchJob) : Bool := j.embedding.any fun v => !v.isEmpty

variable {id : String} {s : JobStore} {j : SearchJob} {ω : JobOracle}

def SearchJob.ResultsOfComplete (j : SearchJob) : Prop :=
  j.results.isSome = true → j.status = .complete

theorem SearchJob.ResultsOfComplete.results_eq_none (hj : j.ResultsOfComplete)
    (h : j.status ≠ .complete) : j.results = none := by
  cases hr : j.results with
  | none => rfl
  | some r => exact absurd (hj (by simp [hr])) h

theorem SearchJob.ResultsOfComplete.results_eq_none_of_open (hj : j.ResultsOfComplete)
    (h : j.status.terminal = false) : j.results = none := by
  apply hj.results_eq_none
  intro hc
  rw [hc] at h
  cases h

theorem resultsOfComplete_of_none (h : j.results = none) : j.ResultsOfComplete := by
  intro hr
  rw [h] at hr
  cases hr

section Awaits

variable (hrow : s.jobs id = some j) (hj : j.ResultsOfComplete)
include hrow

theorem keeps_update (f : SearchJob → SearchJob) :
    Keeps id s { s with jobs := s.jobs.update id f } ↔
      (j.status.terminal = true → (f j).status = j.status) ∧
        ¬ ((f j).status = .failed ∧ (f j).results.isSome = true) := by
  simp [Keeps, hrow, KeepsRow, JobTable.update_same]

theorem keeps_markSearching :
    Keeps id s { s with jobs := s.jobs.update id SearchJob.markSearching } ↔
      j.status.terminal = false := by
  rw [keeps_update hrow]
  cases hs : j.status <;> simp [SearchJob.markSearching, JobStatus.terminal]

theorem keeps_markReranking :
    Keeps id s { s with jobs := s.jobs.update id SearchJob.markReranking } ↔
      j.status.terminal = false := by
  rw [keeps_update hrow]
  cases hs : j.status <;> simp [SearchJob.markReranking, JobStatus.terminal]

theorem keeps_complete (results : List SearchResult) :
    Keeps id s { s with jobs := s.jobs.update id (SearchJob.complete results) } ↔
      j.status ≠ .failed := by
  rw [keeps_update hrow]
  cases hs : j.status <;> simp [SearchJob.complete, JobStatus.terminal]

include hj

theorem keeps_self : Keeps id s s := by
  simp only [Keeps, hrow, KeepsRow, implies_true, true_and]
  rintro ⟨hf, hr⟩
  rw [hj hr] at hf
  cases hf

theorem keeps_fail (error : String) (code : Option String) :
    Keeps id s { s with jobs := s.jobs.update id (SearchJob.fail error code) } ↔
      j.status ≠ .complete := by
  rw [keeps_update hrow]
  have hr : j.status ≠ .complete → j.results = none := hj.results_eq_none
  cases hs : j.status <;> simp [SearchJob.fail, JobStatus.terminal, hr, hs]

end Awaits

theorem row_update (hrow : s.jobs id = some j) (f : SearchJob → SearchJob) :
    ({ s with jobs := s.jobs.update id f } : JobStore).jobs id = some (f j) := by
  simp [JobTable.update_same, hrow]

/-- `search` reads and publishes, and `handle` records its exception, so an open job keeps the
law. -/
theorem moves_search {task : SearchRunTask} (h : task.jobId = id) (job : SearchJob) (v : Vec)
    (hrow : s.jobs id = some j) (hj : j.ResultsOfComplete) (hopen : j.status ≠ .complete) :
    Moves (jobWorld ω) (Keeps id)
      (attempt (SearchHandler.search task job v) fun exc => do
        awaitJob (.failJob task.jobId exc.str none)
        raise exc) s := by
  subst h
  have hself : Keeps task.jobId s s := keeps_self hrow hj
  have hfail := fun e => (keeps_fail hrow hj e none).mpr hopen
  have hpublished : ∀ events, Keeps task.jobId s { s with events } := fun _ => hself
  simp only [moves_attempt, SearchHandler.search, moves_bind, run_bind, moves_call, run_call,
    jobWorld]
  rcases ω (.searchNearest job.chunksTable v job.k) with e | raw
  · simp [hself, hfail]
  · simp only
    split
    · simp [hself, hpublished]
    · simp [hself, hfail]

theorem lawful_search {task : SearchRunTask} (h : task.jobId = id) (hrow : s.jobs id = some j)
    (hj : j.ResultsOfComplete) :
    Moves (jobWorld ω) (Keeps id) (SearchHandler.handle task) s ↔
      j.status.terminal = false ∨ (j.status = .failed ∧ j.hasEmbedding = false) := by
  subst h
  have hself := keeps_self hrow hj
  have hfail := fun e => keeps_fail hrow hj e none
  have hopen : j.status ≠ .complete ↔ j.status.terminal = false ∨ j.status = .failed := by
    cases j.status <;> simp [JobStatus.terminal]
  simp only [SearchHandler.handle, moves_bind, moves_call, run_call, jobWorld, hself, hrow,
    true_and]
  -- no embedding or an empty one fails the job before it is marked
  rcases he : j.embedding with _ | _ | ⟨x, xs⟩
  · simp [jobWorld, hfail, SearchJob.hasEmbedding, he, hopen]
  · simp [jobWorld, hfail, SearchJob.hasEmbedding, he, hopen]
  · simp only [SearchJob.hasEmbedding, he, Option.any_some, List.isEmpty_cons, Bool.not_false,
      Bool.true_eq_false, and_false, or_false, moves_bind, moves_call, run_call, jobWorld,
      keeps_markSearching hrow]
    refine and_iff_left_of_imp fun ho => ?_
    refine moves_search rfl j (x :: xs) (row_update hrow _) ?_ (by simp [SearchJob.markSearching])
    exact resultsOfComplete_of_none (hj.results_eq_none_of_open ho)

/-- The rerank handler gets as far as storing results. -/
def RankStores (ω : JobOracle) (task : SearchRankTask) (job : SearchJob) : Prop :=
  ∃ rows, ω (.getChunksByIds (candidateIds task.candidates) job.chunksTable) = .ok rows ∧
    (hydrated task.candidates rows ≠ [] →
      (ω (.score job.query (rankTexts (hydrated task.candidates rows)))).isOk = true)

def CompletionPublishes (ω : JobOracle) (jobId : String) (traceId : Option String) : Prop :=
  (ω (.publish (.searchJobCompleted ⟨jobId, traceId⟩))).isOk = true

theorem moves_onError (hrow : s.jobs id = some j) (hj : j.ResultsOfComplete) (e : PyExc) :
    Moves (jobWorld ω) (Keeps id) (RerankHandler.onError id e) s ↔ j.status ≠ .complete := by
  cases e <;>
    simp [RerankHandler.onError, moves_bind, jobWorld, keeps_fail hrow hj]

theorem moves_finish {task : SearchRankTask} (h : task.jobId = id) (hrow : s.jobs id = some j)
    (hopen : j.status ≠ .failed) (results : List SearchResult) :
    Moves (jobWorld ω) (Keeps id)
      (attempt (do RerankHandler.finish task results; ret true) (RerankHandler.onError id)) s ↔
      CompletionPublishes ω task.jobId task.traceId := by
  subst h
  have hrow' := row_update hrow (SearchJob.complete results)
  have hj' : (j.complete results).ResultsOfComplete := fun _ => rfl
  have hself := keeps_self hrow' hj'
  have hcomplete := (keeps_complete hrow results).mpr hopen
  simp only [moves_attempt_bind, RerankHandler.finish, publishCompleted, moves_bind, run_bind,
    moves_call, run_call, jobWorld, hcomplete, true_and, CompletionPublishes]
  rcases ω (.publish (.searchJobCompleted ⟨task.jobId, task.traceId⟩)) with e | _
  · simp [hself, moves_onError hrow' hj', SearchJob.complete]
  · simp only [attempt, moves_ret, and_true, isOk_ok, iff_true]
    exact hself

/-- `rank` and the error branch behind it, from the state `mark_reranking` leaves. -/
theorem moves_rank {task : SearchRankTask} (job : SearchJob) (h : task.jobId = id)
    (hrow : s.jobs id = some j) (hj : j.ResultsOfComplete) (hopen : j.status.terminal = false) :
    Moves (jobWorld ω) (Keeps id)
      (attempt (do RerankHandler.rank task job; ret true) (RerankHandler.onError id)) s ↔
      (RankStores ω task job → CompletionPublishes ω task.jobId task.traceId) := by
  subst h
  have hself := keeps_self hrow hj
  have hne : j.status ≠ .failed ∧ j.status ≠ .complete := by
    constructor <;> intro hs <;> rw [hs] at hopen <;> cases hopen
  rw [RerankHandler.rank, bind_assoc, moves_attempt_bind, RankStores]
  simp only [moves_call, run_call, jobWorld, hself, true_and]
  rcases ω (.getChunksByIds (candidateIds task.candidates) job.chunksTable) with e | rows
  · simp [moves_onError hrow hj, hne]
  · simp only [Except.ok.injEq, exists_eq_left']
    -- with no row left the job is completed without a call to the reranker
    cases hydrated task.candidates rows with
    | nil => simpa using moves_finish rfl hrow hne.1 []
    | cons c cs =>
      rw [bind_assoc, moves_attempt_bind]
      simp only [moves_call, run_call, jobWorld, hself, true_and]
      rcases ω (.score job.query (rankTexts (c :: cs))) with e | scores
      · simp [moves_onError hrow hj, hne]
      · simpa using moves_finish rfl hrow hne.1 (rankResults job.k (c :: cs) scores)

theorem lawful_rank {task : SearchRankTask} (h : task.jobId = id) (hrow : s.jobs id = some j)
    (hj : j.ResultsOfComplete) :
    Moves (jobWorld ω) (Keeps id) (RerankHandler.handle task) s ↔
      j.status.terminal = false ∧
        (RankStores ω task j → CompletionPublishes ω task.jobId task.traceId) := by
  subst h
  have hself := keeps_self hrow hj
  simp only [RerankHandler.handle, moves_bind, moves_call, run_call, jobWorld, hself, hrow,
    true_and, keeps_markReranking hrow]
  refine and_congr_right fun ho => ?_
  have hnone := hj.results_eq_none_of_open ho
  exact moves_rank j rfl (row_update hrow _) (resultsOfComplete_of_none hnone) rfl

def FinalizeReads (ω : JobOracle) (task : SearchFinalizeTask) (job : SearchJob) : Prop :=
  (ω (.getChunksByIds (candidateIds (sliceTo task.candidates job.k)) job.chunksTable)).isOk = true

theorem lawful_finalize {task : SearchFinalizeTask} (h : task.jobId = id)
    (hrow : s.jobs id = some j) (hj : j.ResultsOfComplete) :
    Moves (jobWorld ω) (Keeps id) (SearchFinalizeHandler.handle task) s ↔
      (FinalizeReads ω task j →
        j.status ≠ .failed ∧ CompletionPublishes ω task.jobId task.traceId) ∧
      (¬ FinalizeReads ω task j → j.status ≠ .complete) := by
  subst h
  have hself := keeps_self hrow hj
  simp only [SearchFinalizeHandler.handle, SearchFinalizeHandler.finalize, publishCompleted,
    moves_attempt, moves_bind, run_bind, moves_call, run_call, jobWorld, hself, hrow, true_and,
    FinalizeReads, CompletionPublishes]
  rcases ω (.getChunksByIds (candidateIds (sliceTo task.candidates j.k)) j.chunksTable)
    with e | rows
  · simp [keeps_fail hrow hj]
  · simp only [keeps_complete hrow]
    have hrow' := row_update hrow (SearchJob.complete (finalResults j.k task.candidates rows))
    have hj' : (j.complete (finalResults j.k task.candidates rows)).ResultsOfComplete :=
      fun _ => rfl
    have hself' := keeps_self hrow' hj'
    rcases ω (.publish (.searchJobCompleted ⟨task.jobId, task.traceId⟩)) with e | _
    · simp [hself', keeps_fail hrow' hj', SearchJob.complete]
    · simp only [and_true, isOk_ok, forall_const, not_true_eq_false, IsEmpty.forall_iff]
      exact and_iff_left hself'

namespace Delivery

/-- What a delivery must meet for the law: an open job, or a redelivery that repeats the outcome;
and no failure to announce results that are already stored. -/
def Harmless (s : JobStore) : Delivery id → Prop
  | search _ _ _ => ∀ j ∈ s.jobs id,
      j.status.terminal = false ∨ (j.status = .failed ∧ j.hasEmbedding = false)
  | rank ω task _ => ∀ j ∈ s.jobs id, j.status.terminal = false ∧
      (RankStores ω task j → CompletionPublishes ω id task.traceId)
  | finalize ω task _ => ∀ j ∈ s.jobs id,
      (FinalizeReads ω task j → j.status ≠ .failed ∧ CompletionPublishes ω id task.traceId) ∧
      (¬ FinalizeReads ω task j → j.status ≠ .complete)

theorem lawful_iff (d : Delivery id) (hs : ResultsLawful id s) :
    d.Lawful s ↔ d.Harmless s := by
  cases hrow : s.jobs id with
  | none =>
    have hself : Keeps id s s := by simp [Keeps, hrow, KeepsRow]
    cases d with
    | search ω task h =>
      simp [h, Lawful, Harmless, SearchHandler.handle, moves_bind, jobWorld, hrow, hself]
    | rank ω task h =>
      simp [h, Lawful, Harmless, RerankHandler.handle, moves_bind, jobWorld, hrow, hself]
    | finalize ω task h =>
      simp [h, Lawful, Harmless, SearchFinalizeHandler.handle, moves_bind, jobWorld, hrow, hself]
  | some j =>
    have hj := hs j hrow
    have hall : ∀ P : SearchJob → Prop, (∀ j' ∈ s.jobs id, P j') ↔ P j := by
      simp [hrow]
    cases d with
    | search ω task h => rw [Lawful, Harmless, hall, lawful_search h hrow hj]
    | rank ω task h =>
      rw [Lawful, Harmless, hall, lawful_rank h hrow hj, h]
    | finalize ω task h =>
      rw [Lawful, Harmless, hall, lawful_finalize h hrow hj, h]

theorem resultsLawful_update {jobId : String} {f : SearchJob → SearchJob}
    (hs : ResultsLawful id s)
    (hf : ∀ j, s.jobs id = some j → j.ResultsOfComplete → jobId = id → (f j).ResultsOfComplete) :
    ResultsLawful id { s with jobs := s.jobs.update jobId f } := by
  intro j' hj'
  change s.jobs.update jobId f id = some j' at hj'
  by_cases h : id = jobId
  · rw [h, JobTable.update_same, Option.map_eq_some_iff] at hj'
    obtain ⟨j, hj, rfl⟩ := hj'
    rw [← h] at hj
    exact hf j hj (hs j hj) h.symm
  · rw [JobTable.update_other _ h] at hj'
    exact hs j' hj'

theorem resultsLawful_await (ω : JobOracle) (op : JobOp) (s : JobStore)
    (hs : ResultsLawful id s) (hk : Keeps id s (jobWorld ω op s).2) :
    ResultsLawful id (jobWorld ω op s).2 := by
  -- only the writes of a row can break it; reads and events leave the table alone
  cases op with
  | markSearching jobId =>
    refine resultsLawful_update hs fun j hrow hj h => ?_
    subst h
    exact resultsOfComplete_of_none
      (hj.results_eq_none_of_open ((keeps_markSearching hrow).mp hk))
  | markReranking jobId =>
    refine resultsLawful_update hs fun j hrow hj h => ?_
    subst h
    exact resultsOfComplete_of_none
      (hj.results_eq_none_of_open ((keeps_markReranking hrow).mp hk))
  | completeJob jobId results => exact resultsLawful_update hs fun _ _ _ _ _ => rfl
  | failJob jobId error code =>
    refine resultsLawful_update hs fun j hrow hj h => ?_
    subst h
    exact resultsOfComplete_of_none (hj.results_eq_none ((keeps_fail hrow hj error code).mp hk))
  | publish e =>
    simp only [jobWorld]
    split <;> exact hs
  | _ => exact hs

theorem resultsLawful_after (d : Delivery id) (hs : ResultsLawful id s) (h : d.Lawful s) :
    ResultsLawful id (d.after s) := by
  cases d with
  | search ω task _ => exact h.invariant (resultsLawful_await ω) hs
  | rank ω task _ => exact h.invariant (resultsLawful_await ω) hs
  | finalize ω task _ => exact h.invariant (resultsLawful_await ω) hs

end Delivery

/-- The row before any of the three handlers: as `create_job` inserts it, with its embedding if
the query was embedded. -/
def SearchJob.queued (j : SearchJob) : SearchJob :=
  { SearchJob.create j.id j.query j.k j.embeddingProfile j.chunksTable j.libraryId j.rerank
      j.rerankProfile with embedding := j.embedding }

/-- The table with that row only. -/
def queuedStore (j : SearchJob) : JobStore where
  jobs i := if i = j.id then some j.queued else none
  events := []

def afterDeliveries (j : SearchJob) (ds : List (Delivery j.id)) : JobStore :=
  ds.foldl Delivery.after (queuedStore j)

theorem resultsLawful_queued (j : SearchJob) : ResultsLawful j.id (queuedStore j) := by
  intro j' hj'
  obtain rfl : j.queued = j' := by simpa [queuedStore] using hj'
  exact resultsOfComplete_of_none rfl

/-- Over a run of deliveries a terminal job stays as it is, at every await, and is never failed
with results, exactly when every delivery is harmless in the state it finds. -/
theorem lawful_run_iff (j : SearchJob) (ds : List (Delivery j.id)) :
    (∀ pre d, pre ++ [d] <+: ds → d.Lawful (afterDeliveries j pre)) ↔
      ∀ pre d, pre ++ [d] <+: ds → d.Harmless (afterDeliveries j pre) := by
  have hruns : Runs.Each (fun s d _ => Delivery.Lawful s d) (queuedStore j)
        (Runs.trace Delivery.after (queuedStore j) ds) ↔
      Runs.Each (fun s d _ => Delivery.Harmless s d) (queuedStore j)
        (Runs.trace Delivery.after (queuedStore j) ds) := by
    -- results belong to complete jobs as long as the law is kept, which is all a step needs
    refine Runs.each_trace_congr (fun s d (hs : ResultsLawful j.id s) => d.lawful_iff hs)
      (fun s d hs hd => ?_) (resultsLawful_queued j) ds
    exact d.resultsLawful_after hs ((d.lawful_iff hs).mpr hd)
  rwa [Runs.each_trace_prefix, Runs.each_trace_prefix] at hruns

def plainJob : SearchJob :=
  { SearchJob.create "job" "query" 10 "BAAI/bge-base-en-v1.5" "posts_main_chunks_body" "main"
      false none with embedding := some [1] }

def runDelivery : Delivery plainJob.id :=
  .search emptyAnswers ⟨⟨"run", none, none, none⟩, "job"⟩ rfl

/-- The run task is processed, the job is finalized, and the run task is delivered again. -/
def redeliveredRun : List (Delivery plainJob.id) :=
  [runDelivery, .finalize emptyAnswers ⟨⟨"finalize", none, none, none⟩, "job", []⟩ rfl, runDelivery]

/-- The job goes back from complete to searching. -/
theorem redelivered_run_reopens_job :
    ¬ ∀ pre d, pre ++ [d] <+: redeliveredRun → d.Lawful (afterDeliveries plainJob pre) := by
  intro h
  have hlaw := h (redeliveredRun.take 2) runDelivery (List.prefix_refl _)
  have hrow : (afterDeliveries plainJob (redeliveredRun.take 2)).jobs "job" =
      some { plainJob with status := .complete, results := some [] } := by decide
  have hresults : ResultsLawful "job" (afterDeliveries plainJob (redeliveredRun.take 2)) := by
    intro j hj
    obtain rfl := Option.some.inj (hrow.symm.trans hj)
    exact fun _ => rfl
  have hopen := (runDelivery.lawful_iff hresults).mp hlaw _ hrow
  revert hopen
  decide

end RagPipeline
