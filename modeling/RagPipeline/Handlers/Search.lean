import RagPipeline.Events
import RagPipeline.Lib.OrderedDict
import RagPipeline.Repository.SearchJobs
import Mathlib.Data.List.Sort

namespace RagPipeline
open Coro

/-- A row as `get_chunks_by_ids` hydrates it. -/
structure ChunkRow where
  id : String
  postId : ℤ
  text : String
  metadata : Option String
deriving DecidableEq

/-- A row as `search_nearest` returns it. -/
structure ScoredChunk extends ChunkRow where
  score : ℚ
deriving DecidableEq

inductive JobOp where
  | getJob (jobId : String)
  | markSearching (jobId : String)
  | markReranking (jobId : String)
  | completeJob (jobId : String) (results : List SearchResult)
  | failJob (jobId : String) (error : String) (code : Option String)
  | searchNearest (table : String) (embedding : Vec) (k : ℤ)
  | getChunksByIds (ids : List String) (table : String)
  | score (query : String) (texts : List String)
  | publish (e : Event)

abbrev JobOp.Ans : JobOp → Type
  | getJob _ => Option SearchJob
  | searchNearest .. => List ScoredChunk
  | getChunksByIds .. => List ChunkRow
  | score .. => List ℚ
  | markSearching _ | markReranking _ | completeJob .. | failJob .. | publish _ => Unit

abbrev JobCoro := Coro JobOp JobOp.Ans PyExc

abbrev awaitJob (op : JobOp) : JobCoro op.Ans := call op

/-- How the dependencies of one handler call answer. -/
abbrev JobOracle := (op : JobOp) → Except PyExc op.Ans

/-- `l[:k]`. -/
def sliceTo {α : Type} (l : List α) (k : ℤ) : List α :=
  if 0 ≤ k then l.take k.toNat else l.take (l.length - k.natAbs)

/-- `rows_by_id`. -/
def rowsById (rows : List ChunkRow) : OrderedDict String ChunkRow :=
  OrderedDict.indexBy ChunkRow.id rows

/-- The keys of `score_by_id`. -/
def candidateIds (candidates : List CandidateChunkRef) : List String :=
  (OrderedDict.ofList (candidates.map fun c => (c.chunkId, c.score))).keys

def hydrated (candidates : List CandidateChunkRef) (rows : List ChunkRow) :
    List (CandidateChunkRef × ChunkRow) :=
  candidates.filterMap fun c => ((rowsById rows).get? c.chunkId).map fun r => (c, r)

def toResult (c : CandidateChunkRef) (r : ChunkRow) (score : ℚ) : SearchResult :=
  ⟨c.chunkId, r.postId, r.text, r.metadata, score⟩

/-- `sorted(..., key=score, reverse=True)`: equal scores keep their order. -/
def sortByScore {α : Type} (l : List (α × ℚ)) : List (α × ℚ) :=
  l.insertionSort fun p q => q.2 ≤ p.2

def SearchHandler.search (task : SearchRunTask) (job : SearchJob) (embedding : Vec) :
    JobCoro Unit := do
  let raw ← awaitJob (.searchNearest job.chunksTable embedding job.k)
  awaitJob (.publish (.searchCandidatesRetrieved {
    queryJobId := task.jobId
    candidates := List.map (fun row : ScoredChunk => ⟨row.id, row.score⟩) raw
    k := job.k
    rerank := job.rerank
    rerankProfile := job.rerankProfile
    traceId := task.traceId }))

def SearchHandler.handle (task : SearchRunTask) : JobCoro Unit := do
  match ← awaitJob (.getJob task.jobId) with
  | none => ret ()
  | some job =>
    match job.embedding with
    | some (x :: xs) => do
      awaitJob (.markSearching task.jobId)
      attempt (SearchHandler.search task job (x :: xs)) fun exc => do
        awaitJob (.failJob task.jobId exc.str none)
        raise exc
    | _ =>
      awaitJob (.failJob task.jobId
        ("Job " ++ task.jobId ++ " has no embedding stored — cannot search") none)

/-- `RERANK_UNAVAILABLE`. -/
def rerankUnavailable : String := "rerank_unavailable"

def publishCompleted (jobId : String) (traceId : Option String) : JobCoro Unit :=
  awaitJob (.publish (.searchJobCompleted ⟨jobId, traceId⟩))

def rankTexts (ordered : List (CandidateChunkRef × ChunkRow)) : List String :=
  ordered.map fun p => p.2.text

def rankResults (k : ℤ) (ordered : List (CandidateChunkRef × ChunkRow)) (scores : List ℚ) :
    List SearchResult :=
  (sliceTo (sortByScore (ordered.zip scores)) k).map fun p => toResult p.1.1 p.1.2 p.2

/-- Both branches of the `try` block end so. -/
def RerankHandler.finish (task : SearchRankTask) (results : List SearchResult) :
    JobCoro Unit := do
  awaitJob (.completeJob task.jobId results)
  publishCompleted task.jobId task.traceId

/-- The `try` block of `handle`. -/
def RerankHandler.rank (task : SearchRankTask) (job : SearchJob) : JobCoro Unit := do
  let rows ← awaitJob (.getChunksByIds (candidateIds task.candidates) job.chunksTable)
  match hydrated task.candidates rows with
  | [] => RerankHandler.finish task []
  | c :: cs => do
    let scores ← awaitJob (.score job.query (rankTexts (c :: cs)))
    RerankHandler.finish task (rankResults job.k (c :: cs) scores)

/-- A reranker that went away fails the job and still counts as handled. -/
def RerankHandler.onError (jobId : String) : PyExc → JobCoro Bool
  | .embeddingUnavailable _ => do
    awaitJob (.failJob jobId "The reranker is not available right now." (some rerankUnavailable))
    ret true
  | exc => do
    awaitJob (.failJob jobId exc.str none)
    ret false

def RerankHandler.handle (task : SearchRankTask) : JobCoro Bool := do
  match ← awaitJob (.getJob task.jobId) with
  | none => ret true
  | some job => do
    awaitJob (.markReranking task.jobId)
    attempt (do
      RerankHandler.rank task job
      ret true)
      (RerankHandler.onError task.jobId)

def finalResults (k : ℤ) (candidates : List CandidateChunkRef) (rows : List ChunkRow) :
    List SearchResult :=
  (hydrated (sliceTo candidates k) rows).map fun p => toResult p.1 p.2 p.1.score

def SearchFinalizeHandler.finalize (task : SearchFinalizeTask) (job : SearchJob) :
    JobCoro Unit := do
  let ids := candidateIds (sliceTo task.candidates job.k)
  let rows ← awaitJob (.getChunksByIds ids job.chunksTable)
  awaitJob (.completeJob task.jobId (finalResults job.k task.candidates rows))
  publishCompleted task.jobId task.traceId

def SearchFinalizeHandler.handle (task : SearchFinalizeTask) : JobCoro Unit := do
  match ← awaitJob (.getJob task.jobId) with
  | none => ret ()
  | some job =>
    attempt (SearchFinalizeHandler.finalize task job) fun exc => do
      awaitJob (.failJob task.jobId exc.str none)
      raise exc

end RagPipeline
