import RagPipeline.Handlers.Search

namespace RagPipeline
open Coro

namespace RerankHandler

variable (ω : JobOracle) (task : SearchRankTask) (job : SearchJob)

def finishRaises (results : List SearchResult) : Option PyExc :=
  match ω (.completeJob task.jobId results) with
  | .error e => some e
  | .ok _ =>
    match ω (.publish (.searchJobCompleted ⟨task.jobId, task.traceId⟩)) with
    | .error e => some e
    | .ok _ => none

/-- The first exception a dependency raises inside the `try` block. -/
def rankRaises : Option PyExc :=
  match ω (.getChunksByIds (candidateIds task.candidates) job.chunksTable) with
  | .error e => some e
  | .ok rows =>
    match hydrated task.candidates rows with
    | [] => finishRaises ω task []
    | c :: cs =>
      match ω (.score job.query (rankTexts (c :: cs))) with
      | .error e => some e
      | .ok scores => finishRaises ω task (rankResults job.k (c :: cs) scores)

/-- The `fail_job` call of the `except` clauses. -/
def failOp (jobId : String) : PyExc → JobOp
  | .embeddingUnavailable _ =>
    .failJob jobId "The reranker is not available right now." (some rerankUnavailable)
  | exc => .failJob jobId exc.str none

/-- Nothing is raised outside the `try` block, and an `except` clause that runs records the
failure. -/
def Answers : Prop :=
  match ω (.getJob task.jobId) with
  | .error _ => False
  | .ok none => True
  | .ok (some job) => (ω (.markReranking task.jobId)).isOk ∧
      ∀ e ∈ rankRaises ω task job, (ω (failOp task.jobId e)).isOk

variable {ω task job}

theorem eval_finish (results : List SearchResult) :
    eval ω (finish task results) =
      match finishRaises ω task results with
      | some e => .error e
      | none => .ok () := by
  rw [finish, eval_bind, eval_call, finishRaises]
  rcases ω (.completeJob task.jobId results) with e | _
  · rfl
  · simp only [publishCompleted, eval_call]
    rcases ω (.publish (.searchJobCompleted ⟨task.jobId, task.traceId⟩)) with e | _ <;> rfl

theorem eval_rank :
    eval ω (rank task job) =
      match rankRaises ω task job with
      | some e => .error e
      | none => .ok () := by
  rw [rank, eval_bind, eval_call, rankRaises]
  rcases ω (.getChunksByIds (candidateIds task.candidates) job.chunksTable) with e | rows
  · rfl
  · simp only
    cases hydrated task.candidates rows with
    | nil => exact eval_finish []
    | cons c cs =>
      simp only
      rw [eval_bind, eval_call]
      rcases ω (.score job.query (rankTexts (c :: cs))) with e | scores
      · rfl
      · exact eval_finish _

theorem eval_onError_isOk (jobId : String) (e : PyExc) :
    (eval ω (onError jobId e)).isOk ↔ (ω (failOp jobId e)).isOk := by
  cases e with
  | embeddingUnavailable msg =>
    simp only [onError, failOp, eval_bind, eval_call]
    cases ω (.failJob jobId "The reranker is not available right now." (some rerankUnavailable))
      <;> simp
  | _ =>
    simp only [onError, failOp, eval_bind, eval_call]
    cases ω (.failJob jobId _ none) <;> simp

/-- When `handle` answers at all, with True or with False. -/
theorem eval_handle_isOk : (eval ω (handle task)).isOk ↔ Answers ω task := by
  rw [handle, eval_bind, eval_call, Answers]
  rcases ω (.getJob task.jobId) with e | job
  · simp
  · cases job with
    | none => simp
    | some job =>
      simp only [eval_bind, eval_call]
      rcases ω (.markReranking task.jobId) with e | _
      · simp
      · simp only [eval_attempt, eval_bind, eval_rank]
        cases rankRaises ω task job with
        | none => simp
        | some e => simp [eval_onError_isOk]

end RerankHandler
end RagPipeline
