import RagPipeline.Handlers.Search

namespace RagPipeline
open Coro

/-- The rows of `search_jobs`, and the events published and not delivered yet. -/
structure JobStore where
  jobs : JobTable
  events : List Event

/-- `search_jobs` works; the other dependencies answer as they do. -/
def jobWorld (ω : JobOracle) : World JobOp JobOp.Ans PyExc JobStore
  | .getJob id, s => (.ok (s.jobs id), s)
  | .markSearching id, s => (.ok (), { s with jobs := s.jobs.update id SearchJob.markSearching })
  | .markReranking id, s => (.ok (), { s with jobs := s.jobs.update id SearchJob.markReranking })
  | .completeJob id results, s =>
    (.ok (), { s with jobs := s.jobs.update id (SearchJob.complete results) })
  | .failJob id error code, s =>
    (.ok (), { s with jobs := s.jobs.update id (SearchJob.fail error code) })
  | .publish e, s =>
    match ω (.publish e) with
    | .ok _ => (.ok (), { s with events := s.events ++ [e] })
    | .error err => (.error err, s)
  | .searchNearest table embedding k, s => (ω (.searchNearest table embedding k), s)
  | .getChunksByIds ids table, s => (ω (.getChunksByIds ids table), s)
  | .score query texts, s => (ω (.score query texts), s)

def emptyAnswers : JobOracle
  | .getJob _ => .ok none
  | .searchNearest .. => .ok []
  | .getChunksByIds .. => .ok []
  | .score .. => .ok []
  | .markSearching _ | .markReranking _ | .completeJob .. | .failJob .. | .publish _ => .ok ()

def JobStatus.terminal : JobStatus → Bool
  | complete | failed => true
  | _ => false

end RagPipeline
