import RagPipeline.Lib.Promises
import RagPipeline.Repository.Chunks
import RagPipeline.Search.Pipeline

namespace RagPipeline
namespace Searching
open Coro

/-! Any number of search jobs, next to each other and to whatever changes the chunk tables. -/

structure SearchEnv where
  /-- `embedding <=> query` -/
  distance : Vec → Vec → ℚ
  /-- The vector that a model makes of a text. -/
  encoder : String → String → Vec
  /-- The score that a reranker gives a text for a query. -/
  scorer : String → String → String → ℚ
  /-- A chunk's metadata as JSON. -/
  metadata : ChunkMetadata → Option String

/-- The columns of a job that are set once. -/
structure JobRequest where
  query : String
  k : ℤ
  embeddingProfile : String
  chunksTable : String
  rerank : Bool
  rerankProfile : Option String

def request (j : SearchJob) : JobRequest :=
  ⟨j.query, j.k, j.embeddingProfile, j.chunksTable, j.rerank, j.rerankProfile⟩

variable (env : SearchEnv)

def JobRequest.queryVector (r : JobRequest) : Vec :=
  env.encoder r.embeddingProfile (queryText embedConfigs r.embeddingProfile r.query)

def chunkRow (r : StoredChunk) : ChunkRow := ⟨r.id, r.postId, r.text, env.metadata r.metadata⟩

/-- A row of `search_nearest`. -/
def scored (query : Vec) (r : StoredChunk) (embedding : Vec) : ScoredChunk :=
  { chunkRow env r with score := 1 - env.distance embedding query }

def scoredRows (query : Vec) (rows : List StoredChunk) : List ScoredChunk :=
  rows.filterMap fun r => r.embedding.map (scored env query r)

/-- `ORDER BY embedding <=> query LIMIT k`; rows at one distance come in any order. -/
def Nearest (rows : List StoredChunk) (query : Vec) (k : ℤ) (found : List ScoredChunk) : Prop :=
  ∃ ordered : List ScoredChunk, ordered.Perm (scoredRows env query rows) ∧
    (ordered.Pairwise fun a b => b.score ≤ a.score) ∧ found = ordered.take k.toNat

def rowsOf (T : ChunkTables) (table : String) : List StoredChunk :=
  ((T (relation table)).map ChunkTable.rows).getD []

/-- What `search_nearest` may find for the request. -/
def Found (T : ChunkTables) (r : JobRequest) (found : List ScoredChunk) : Prop :=
  Nearest env (rowsOf T r.chunksTable) (r.queryVector env) r.k found

def candidateOf (r : ScoredChunk) : CandidateChunkRef := ⟨r.id, r.score⟩

def rerankModel (profile : Option String) : Option String :=
  (rerankConfigs.get? ((truthy profile).getD "default")).map RerankConfig.primary

def currentRow (T : ChunkTables) (table id : String) : Option ChunkRow :=
  ((rowsOf T table).find? fun r => r.id = id).map (chunkRow env)

def stillThere (T : ChunkTables) (table : String) (found : List ScoredChunk) :
    List (ScoredChunk × ChunkRow) :=
  found.filterMap fun f => (currentRow env T table f.id).map fun row => (f, row)

def resultOf (row : ChunkRow) (score : ℚ) : SearchResult :=
  ⟨row.id, row.postId, row.text, row.metadata, score⟩

/-- The results of a request, made in one go of what was found. -/
def JobRequest.results (r : JobRequest) (T : ChunkTables) (found : List ScoredChunk) :
    List SearchResult :=
  let rows := stillThere env T r.chunksTable found
  if r.rerank then
    let model := (rerankModel r.rerankProfile).getD ""
    (sortByScore (rows.map fun p => (p.2, env.scorer model r.query p.2.text))).map
      fun p => resultOf p.1 p.2
  else rows.map fun p => resultOf p.2 p.1.score

/-- The results are those of what was found at one moment, as it was at a later one. The contents
of the tables are given from the newest on. -/
def Answers (past : List ChunkTables) (r : JobRequest) (results : List SearchResult) : Prop :=
  ∃ (later : List ChunkTables) (T : ChunkTables) (earlier : List ChunkTables),
    past = later ++ T :: earlier ∧ ∃ S ∈ T :: earlier, ∃ found, Found env S r found ∧
      results = r.results env T found

/-- A program on its way, with the model that its worker has loaded. -/
inductive Working where
  | api (p : SearchApiCoro String)
  | cpu (p : JobCoro Unit)
  | rank (modelName : String) (p : JobCoro Bool)
  | embed (modelName : String) (p : EmbedCoro Bool)

/-- The events that were published and the tasks that were sent stay: each may reach its reader
any number of times, or never. `earlier` are the contents that the tables had before. -/
structure State where
  jobs : JobTable
  events : List Event
  tasks : List (String × AnyTask)
  working : List Working
  tables : ChunkTables
  earlier : List ChunkTables

def State.past (s : State) : List ChunkTables := s.tables :: s.earlier

def noJobs (T : ChunkTables) : State := ⟨fun _ => none, [], [], [], T, []⟩

def writeJob (s : State) : JobOp → State
  | .markSearching id => { s with jobs := s.jobs.update id SearchJob.markSearching }
  | .markReranking id => { s with jobs := s.jobs.update id SearchJob.markReranking }
  | .completeJob id results => { s with jobs := s.jobs.update id (SearchJob.complete results) }
  | .failJob id error code => { s with jobs := s.jobs.update id (SearchJob.fail error code) }
  | .publish e => { s with events := s.events ++ [e] }
  | _ => s

/-- What an await of `embed_query` writes. -/
def writeEmbed (s : State) : EmbedOp → State
  | .saveBatch rows => { s with jobs := rows.foldl saveRow s.jobs }
  | .publish e => { s with events := s.events ++ [e] }
  | _ => s

/-- What an await of `create_search` writes; a new job gets the id `uuid`. -/
def writeApi (uuid : String) (s : State) : SearchApiOp → State
  | .createJob query k profile table libraryId rerank rerankProfile =>
    let job := SearchJob.create uuid query k profile table libraryId rerank rerankProfile
    { s with jobs := s.jobs.insert job }
  | .publish e => { s with events := s.events ++ [e] }
  | _ => s

/-- What an await of the handlers may be answered. -/
def AnswersJob (modelName : String) (s : State) : (op : JobOp) → op.Ans → Prop
  | .getJob id, a => a = s.jobs id
  | .searchNearest table embedding k, a =>
    s.tables (relation table) ≠ none ∧ Nearest env (rowsOf s.tables table) embedding k a
  | .getChunksByIds ids table, a =>
    (ids = [] ∨ s.tables (relation table) ≠ none) ∧
      a.Perm (((rowsOf s.tables table).filter fun r => r.id ∈ ids).map (chunkRow env))
  | .score query texts, a => a = texts.map (env.scorer modelName query)
  | _, _ => True

def AnswersEmbed (modelName : String) : (op : EmbedOp) → op.Ans → Prop
  | .encode texts, a => a = texts.map (env.encoder modelName)
  | _, _ => True

/-- A new job gets an id that no job has. -/
def Unused (uuid : String) (s : State) : SearchApiOp → Prop
  | .createJob .. => s.jobs uuid = none
  | _ => True

def AnswersApi (uuid : String) : (op : SearchApiOp) → op.Ans → Prop
  | .createJob .., a => a = uuid
  | _, _ => True

inductive Turn (s : State) : Working → Working → State → Prop
  | api {p p' : SearchApiCoro String} {op : SearchApiOp} {done : Bool} {uuid : String}
      (unused : Unused uuid s op) (h : Awaited (AnswersApi uuid) p op done p') :
      Turn s (.api p) (.api p') (if done then writeApi uuid s op else s)
  | cpu {p p' : JobCoro Unit} {op : JobOp} {done : Bool}
      (h : Awaited (AnswersJob env "" s) p op done p') :
      Turn s (.cpu p) (.cpu p') (if done then writeJob s op else s)
  | rank {m : String} {p p' : JobCoro Bool} {op : JobOp} {done : Bool}
      (h : Awaited (AnswersJob env m s) p op done p') :
      Turn s (.rank m p) (.rank m p') (if done then writeJob s op else s)
  | embed {m : String} {p p' : EmbedCoro Bool} {op : EmbedOp} {done : Bool}
      (h : Awaited (AnswersEmbed env m) p op done p') :
      Turn s (.embed m p) (.embed m p') (if done then writeEmbed s op else s)

inductive Begins (s : State) : Working → Prop
  | search {q : String} {t : SearchRunTask} (h : (q, .searchRun t) ∈ s.tasks) :
      Begins s (.cpu (SearchHandler.handle t))
  | finalize {q : String} {t : SearchFinalizeTask} (h : (q, .searchFinalize t) ∈ s.tasks) :
      Begins s (.cpu (SearchFinalizeHandler.handle t))
  | rank {q modelName : String} {t : SearchRankTask} (h : (q, .searchRank t) ∈ s.tasks)
      (polled : polledModel q = some modelName) :
      Begins s (.rank modelName (RerankHandler.handle t))
  | embed {q modelName : String} {task : AnyTask} {t : EmbedTask} (span : Option SpanIds)
      (h : (q, task) ∈ s.tasks) (query : GpuEmbedWorker.asQueryTask task = some t)
      (polled : polledModel q = some modelName) :
      Begins s (.embed modelName (embedQuery embedConfigs span t modelName))

inductive Step (s : State) : State → Prop
  /-- Posts are synced, chunked or embedded. -/
  | tables (T : ChunkTables) : Step s { s with tables := T, earlier := s.past }
  | request (span : Option SpanIds) (req : SearchRequest) :
      Step s { s with working := .api (createSearch span req) :: s.working }
  | dispatch {e : Event} {taskId : String} {d : Dispatch} (h : e ∈ s.events)
      (hd : dispatched taskId e = some d) : Step s { s with tasks := s.tasks ++ enqueued d }
  | begin {w : Working} (h : Begins s w) : Step s { s with working := w :: s.working }
  | turn {before after : List Working} {w w' : Working} {t : State}
      (h : s.working = before ++ w :: after) (hw : Turn env s w w' t) :
      Step s { t with working := before ++ w' :: after }
  | killed {before after : List Working} {w : Working} (h : s.working = before ++ w :: after) :
      Step s { s with working := before ++ after }

/-- The system may run from `s` to `t`. -/
abbrev Run (s t : State) : Prop := Relation.ReflTransGen (Step env) s t

end Searching
end RagPipeline
