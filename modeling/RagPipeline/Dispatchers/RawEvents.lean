import RagPipeline.Dispatchers
import RagPipeline.Lib.Json

namespace RagPipeline
open Coro

/-! ## Validation

Where a model or a lookup raises, the function here is `none`. -/

/-- The numeric fields of a pydantic model in lax mode; a `float` is kept as it is dumped. -/
structure Pydantic where
  int : Json → Option ℤ
  float : Json → Option Json

/-- A field takes the values of its own type. -/
structure Pydantic.Lawful (p : Pydantic) : Prop where
  int_int : ∀ n, p.int (.int n) = some n
  float_float : ∀ q, p.float (.float q) = some (.float q)

def strField : Json → Option String
  | .str s => some s
  | _ => none

/-- An `Optional[str]` that defaults to `None`. -/
def optStrField : Option Json → Option (Option String)
  | none | some .null => some none
  | some v => (strField v).map some

/-- An `Optional[int]`. -/
def optIntField (p : Pydantic) : Json → Option (Option ℤ)
  | .null => some none
  | v => (p.int v).map some

/-- A `List[str]`. -/
def strListField : Json → Option (List String)
  | .arr items => items.mapM strField
  | _ => none

/-- `CandidateChunkRef(**c)`, which forbids extra fields. -/
def candidateRef (p : Pydantic) : Json → Option Json
  | .obj fields => do
    let c := OrderedDict.ofList fields
    guard (∀ key ∈ c.keys, key ∈ ["chunk_id", "score"])
    let chunkId ← strField (← c.get? "chunk_id")
    let score ← p.float (← c.get? "score")
    some (.obj [("chunk_id", .str chunkId), ("score", score)])
  | _ => none

def BaseTask.fields (kind : String) (t : BaseTask) : List (String × Json) :=
  [("task_id", .str t.taskId), ("kind", .str kind), ("trace_id", .ofOption .str t.traceId),
    ("parent_span_id", .ofOption .str t.parentSpanId),
    ("source_event_id", .ofOption .str t.sourceEventId)]

def ChunkTask.json (t : ChunkTask) : Json :=
  .obj (t.toBaseTask.fields "chunk" ++
    [("task_type", .str t.taskType.key), ("post_id", .int t.postId),
      ("post_table", .str t.postTable), ("embed_model", .str t.embedModel),
      ("analysis_text", .ofOption .str t.analysisText)])

def EmbedTaskType.key : EmbedTaskType → String
  | chunk => "chunk"
  | query => "query"

def EmbedTask.json (t : EmbedTask) : Json :=
  .obj (t.toBaseTask.fields "embed" ++
    [("task_type", .str t.taskType.key), ("model_name", .str t.modelName),
      ("post_id", .ofOption .int t.postId), ("post_table", .ofOption .str t.postTable),
      ("chunk_ids", .arr (t.chunkIds.map .str)), ("chunk_table", .ofOption .str t.chunkTable),
      ("query", .ofOption .str t.query), ("query_job_id", .ofOption .str t.queryJobId)])

def InferTask.json (t : InferTask) : Json :=
  .obj (t.toBaseTask.fields "infer" ++
    [("task_type", .str (if t.categorise then "categorise" else "summarise")),
      ("post_id", .int t.postId), ("post_table", .str t.postTable), ("model", .str t.model),
      ("prompt_template", .str t.promptTemplate)])

def SearchRunTask.json (t : SearchRunTask) : Json :=
  .obj (t.toBaseTask.fields "search_run" ++ [("job_id", .str t.jobId)])

def searchRankJson (base : BaseTask) (jobId : String) (candidates : List Json)
    (rerankProfile : Option String) : Json :=
  .obj (base.fields "search_rank" ++ [("job_id", .str jobId), ("candidates", .arr candidates),
    ("rerank_profile", .ofOption .str rerankProfile)])

def searchFinalizeJson (base : BaseTask) (jobId : String) (candidates : List Json) : Json :=
  .obj (base.fields "search_finalize" ++ [("job_id", .str jobId), ("candidates", .arr candidates)])

def CandidateChunkRef.json (c : CandidateChunkRef) : Json :=
  .obj [("chunk_id", .str c.chunkId), ("score", .float c.score)]

def AnyTask.json : AnyTask → Json
  | chunk t => t.json
  | embed t => t.json
  | infer t => t.json
  | searchRun t => t.json
  | searchRank t =>
    searchRankJson t.toBaseTask t.jobId (t.candidates.map CandidateChunkRef.json) t.rerankProfile
  | searchFinalize t =>
    searchFinalizeJson t.toBaseTask t.jobId (t.candidates.map CandidateChunkRef.json)

structure Message where
  exchange : String
  routingKey : String
  body : Json

def Dispatch.message (d : Dispatch) : Message := ⟨d.exchange, d.routingKey, d.task.json⟩

/-- What is drawn for an event: the span it is handled in, and an id for each of its tasks. -/
structure Draw where
  span : Option SpanIds
  taskId : String → String

/-- A publish is awaited, and may raise. -/
abbrev PublishCoro (α : Type) := Coro Message (fun _ => Unit) PyExc α

def raising {α : Type} : Option α → PublishCoro α
  | some a => ret a
  | none => raise (.other "malformed event")

@[simp] theorem raising_some {α : Type} (a : α) : raising (some a) = ret a := rfl

@[simp] theorem raising_none {α : Type} :
    (raising none : PublishCoro α) = raise (.other "malformed event") := rfl

/-- `_record_queue_lag`: what the timestamp raises is swallowed. -/
def recordQueueLag (event : Json) : Option Unit := (event.get? "occurred_at").map fun _ => ()

/-- `propagate_trace(event.get("trace_id"))`. -/
def propagateRaw (span : Option SpanIds) (fallback : Option Json) : Option Json × Option Json :=
  match currentTraceIds span with
  | (some t, s) => (some (.str t), s.map .str)
  | (none, _) => (fallback, none)

section Bodies

variable (p : Pydantic) (draw : Draw) (event : Json)

/-- `any(f in fields_changed for f in watched)`. -/
def anyIn (fieldsChanged : Json) : List String → Option Bool
  | [] => some false
  | f :: watched => do
    if ← fieldsChanged.contains? f then some true else anyIn fieldsChanged watched

/-- `not fields_changed or any(…)`. -/
def anyChangedRaw (fieldsChanged : Json) (watched : List String) : Option Bool :=
  if fieldsChanged.truthy then anyIn fieldsChanged watched else some true

/-- `has_summary and (…)`. -/
def summaryChangedRaw (hasSummary fieldsChanged : Json) : Option Bool :=
  if hasSummary.truthy then anyChangedRaw fieldsChanged ["summary", "title", "custom_title"]
  else some false

/-- The task that `_route_tasks` publishes for one task type. -/
def chunkTaskRaw (trace : Option Json × Option Json) (postId postTable : Json)
    (taskType : ChunkTaskType) : Option ChunkTask := do
  let cfg ← embedConfigs.get? taskType.key
  let sourceEventId ← optStrField (← event.get? "event_id")
  let traceId ← optStrField trace.1
  let parentSpanId ← optStrField trace.2
  let postId ← p.int postId
  let postTable ← strField postTable
  some {
    taskId := draw.taskId taskType.key
    traceId
    parentSpanId
    sourceEventId
    taskType
    postId
    postTable
    embedModel := cfg.primary
    analysisText := none }

/-- `_route_tasks`. -/
def routeTasksRaw (trace : Option Json × Option Json) (postId postTable : Json) :
    List (ChunkTaskType × Bool) → PublishCoro Unit
  | [] => ret ()
  | (_, false) :: rest => routeTasksRaw trace postId postTable rest
  | (taskType, true) :: rest => do
    let task ← raising (chunkTaskRaw p draw event trace postId postTable taskType)
    call ⟨"ingestion", "cpu.chunk.post", task.json⟩
    routeTasksRaw trace postId postTable rest

/-- What `_dispatch_chunk_tasks` reads before it routes: the trace, the post, the task types. -/
def routesRaw :
    Option ((Option Json × Option Json) × Json × Json × List (ChunkTaskType × Bool)) := do
  let postId ← event.item? "post_id"
  let postTable ← event.item? "post_table"
  let fieldsChanged := (← event.get? "fields_changed").getD (.arr [])
  let hasSummary := (← event.get? "has_summary").getD (.bool false)
  let bodyChanged ← anyChangedRaw fieldsChanged ["body_text", "custom_body"]
  let titleChanged ← anyChangedRaw fieldsChanged ["title", "custom_title"]
  let summaryChanged ← summaryChangedRaw hasSummary fieldsChanged
  let trace := propagateRaw draw.span (← event.get? "trace_id")
  some (trace, postId, postTable,
    [(.body, bodyChanged), (.title, titleChanged), (.summaryTitle, summaryChanged)])

/-- The body of `_handle_post_synced`: the `except` clause reads the post's id for its message. -/
def handlePostSynced : PublishCoro Unit :=
  (do
    raising (recordQueueLag event)
    let (trace, postId, postTable, routes) ← raising (routesRaw draw event)
    routeTasksRaw p draw event trace postId postTable routes).attempt fun _ =>
      raising ((event.get? "post_id").map fun _ => ())

/-- The message of `_dispatch_embedding`. -/
def embeddingMessage : Option Message := do
  let taskType := (← event.get? "task_type").getD (.str "body")
  let body ← embedConfigs.get? "body"
  let cfg := (← Json.lookup? embedConfigs taskType).getD body
  let postId ← event.item? "post_id"
  let chunkIds ← event.item? "chunk_ids"
  let _chunkCount ← chunkIds.len?
  let trace := propagateRaw draw.span (← event.get? "trace_id")
  let postTable ← event.item? "post_table"
  let chunkTable ← event.item? "chunk_table"
  let sourceEventId ← optStrField (← event.get? "event_id")
  let traceId ← optStrField trace.1
  let parentSpanId ← optStrField trace.2
  let postId ← optIntField p postId
  let postTable ← optStrField postTable
  let chunkIds ← strListField chunkIds
  let chunkTable ← optStrField chunkTable
  some ⟨"embedding", cfg.queue, EmbedTask.json {
    taskId := draw.taskId "chunk"
    traceId
    parentSpanId
    sourceEventId
    taskType := .chunk
    modelName := cfg.primary
    postId
    postTable
    chunkIds
    chunkTable
    query := none
    queryJobId := none }⟩

/-- The body of `_handle_chunks_created`. -/
def handleChunksCreated : PublishCoro Unit :=
  (do
    raising (recordQueueLag event)
    let m ← raising (embeddingMessage p draw event)
    call m).attempt fun _ => raising ((event.get? "post_id").map fun _ => ())

/-- The message for a `search_job.created` event; a job with an unknown profile is skipped. -/
def jobCreatedMessage : Option (Option Message) := do
  recordQueueLag event
  let profile ← event.item? "embedding_profile"
  match ← Json.lookup? (modelToConfig embedConfigs) profile with
  | none => some none
  | some cfg =>
    let query ← optStrField (← event.item? "query")
    let queryJobId ← optStrField (← event.item? "query_job_id")
    let traceId ← optStrField (← event.get? "trace_id")
    some (some ⟨"embedding", cfg.queue, EmbedTask.json {
      taskId := draw.taskId "query"
      traceId
      parentSpanId := none
      sourceEventId := none
      taskType := .query
      modelName := cfg.primary
      postId := none
      postTable := none
      chunkIds := []
      chunkTable := none
      query
      queryJobId }⟩)

/-- `event.get("rerank_profile") or "default"`. -/
def rankProfileRaw (rerankProfile : Option Json) : Json :=
  match rerankProfile with
  | some v => if v.truthy then v else .str "default"
  | none => .str "default"

/-- The message for a `search_candidates.retrieved` event; an unknown rerank profile is skipped. -/
def candidatesRetrievedMessage : Option (Option Message) := do
  recordQueueLag event
  let jobId ← event.item? "query_job_id"
  let candidates ← (← (← event.item? "candidates").iter?).mapM (candidateRef p)
  if ((← event.get? "rerank").getD .null).truthy then
    let profile := rankProfileRaw (← event.get? "rerank_profile")
    match ← Json.lookup? rerankConfigs profile with
    | none => some none
    | some cfg =>
      let traceId ← optStrField (← event.get? "trace_id")
      let jobId ← strField jobId
      let rerankProfile ← optStrField profile
      some (some ⟨"embedding", cfg.queue,
        searchRankJson ⟨draw.taskId "search_rank", traceId, none, none⟩ jobId candidates
          rerankProfile⟩)
  else
    let traceId ← optStrField (← event.get? "trace_id")
    let jobId ← strField jobId
    some (some ⟨"search", "cpu.search.finalize",
      searchFinalizeJson ⟨draw.taskId "search_finalize", traceId, none, none⟩ jobId candidates⟩)

/-- The message for a `search_query.embedded` event. -/
def queryEmbeddedMessage : Option (Option Message) := do
  let jobId ← event.item? "query_job_id"
  let traceId ← optStrField (← event.get? "trace_id")
  let jobId ← strField jobId
  some (some ⟨"search", "cpu.search.run", SearchRunTask.json {
    taskId := draw.taskId "search_run"
    traceId
    parentSpanId := none
    sourceEventId := none
    jobId }⟩)

end Bodies

/-- The loops of the search dispatchers have no `try` block. -/
def publishUnguarded (m : Option (Option Message)) : PublishCoro Unit := do
  match ← raising m with
  | none => ret ()
  | some m => call m

end RagPipeline
