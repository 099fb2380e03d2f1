import RagPipeline.Events
import RagPipeline.Config.Models

namespace RagPipeline

structure Dispatch where
  exchange : String
  routingKey : String
  task : AnyTask
deriving DecidableEq

/-- What the dispatcher draws for an event: its own span, and an id for each task. -/
structure PostDispatcher where
  span : PostSyncedEvent → Option SpanIds
  taskId : PostSyncedEvent → ChunkTaskType → String

namespace PostDispatcher

/-- No field at all stands for every field. -/
def anyChanged (fieldsChanged watched : List String) : Bool :=
  fieldsChanged.isEmpty || watched.any fun f => fieldsChanged.contains f

def bodyChanged (event : PostSyncedEvent) : Bool :=
  anyChanged event.fieldsChanged ["body_text", "custom_body"]

def titleChanged (event : PostSyncedEvent) : Bool :=
  anyChanged event.fieldsChanged ["title", "custom_title"]

def summaryChanged (event : PostSyncedEvent) : Bool :=
  event.hasSummary && anyChanged event.fieldsChanged ["summary", "title", "custom_title"]

variable (d : PostDispatcher)

/-- `_route_tasks`; a task type that has no model raises a KeyError, which ends it. -/
def routeTasks (event : PostSyncedEvent) : List (ChunkTaskType × Bool) → List Dispatch
  | [] => []
  | (_, false) :: rest => routeTasks event rest
  | (taskType, true) :: rest =>
    match embedConfigs.get? taskType.key with
    | none => []
    | some cfg =>
      let trace := propagateTrace (d.span event) event.traceId
      { exchange := "ingestion"
        routingKey := "cpu.chunk.post"
        task := .chunk {
          taskId := d.taskId event taskType
          traceId := trace.1
          parentSpanId := trace.2
          sourceEventId := some event.eventId
          taskType
          postId := event.postId
          postTable := event.postTable
          embedModel := cfg.primary
          analysisText := none } } :: routeTasks event rest

def dispatchChunkTasks (event : PostSyncedEvent) : List Dispatch :=
  d.routeTasks event [(.body, bodyChanged event), (.title, titleChanged event),
    (.summaryTitle, summaryChanged event)]

/-- The subscription only yields `post.synced` events. -/
def handleEvents (events : List Event) : List Dispatch :=
  events.flatMap fun
    | .postSynced event => d.dispatchChunkTasks event
    | _ => []

end PostDispatcher

/-- Without a `body` entry the default of the lookup is a KeyError, which the loop logs. -/
def ChunkDispatcher.dispatchEmbedding (configs : EmbedConfigs) (span : Option SpanIds)
    (taskId : String) (event : ChunksCreatedEvent) : Option Dispatch :=
  (configs.get? "body").map fun body =>
    let cfg := (configs.get? event.taskType).getD body
    let trace := propagateTrace span event.traceId
    { exchange := "embedding"
      routingKey := cfg.queue
      task := .embed {
        taskId
        traceId := trace.1
        parentSpanId := trace.2
        sourceEventId := some event.eventId
        taskType := .chunk
        modelName := cfg.primary
        postId := some event.postId
        postTable := some event.postTable
        chunkIds := event.chunkIds
        chunkTable := some event.chunkTable
        query := none
        queryJobId := none } }

/-- `_MODEL_TO_CONFIG`: the last configuration of a model. -/
def modelToConfig (configs : EmbedConfigs) : OrderedDict String EmbedConfig :=
  OrderedDict.indexBy EmbedConfig.primary configs.values

/-- `search_job.created`; an unknown profile is skipped. -/
def SearchDispatcher.jobCreated (configs : EmbedConfigs) (taskId : String)
    (event : SearchJobCreatedEvent) : Option Dispatch :=
  ((modelToConfig configs).get? event.embeddingProfile).map fun cfg =>
    { exchange := "embedding"
      routingKey := cfg.queue
      task := .embed {
        taskId
        traceId := event.traceId
        parentSpanId := none
        sourceEventId := none
        taskType := .query
        modelName := cfg.primary
        postId := none
        postTable := none
        chunkIds := []
        chunkTable := none
        query := some event.query
        queryJobId := some event.queryJobId } }

/-- `event.get("rerank_profile") or "default"`. -/
def rankProfile (event : SearchCandidatesRetrievedEvent) : String :=
  (truthy event.rerankProfile).getD "default"

/-- `search_candidates.retrieved`; an unknown rerank profile is skipped. -/
def SearchDispatcher.candidatesRetrieved (configs : RerankConfigs) (taskId : String)
    (event : SearchCandidatesRetrievedEvent) : Option Dispatch :=
  if event.rerank then
    (configs.get? (rankProfile event)).map fun cfg =>
      { exchange := "embedding"
        routingKey := cfg.queue
        task := .searchRank {
          taskId
          traceId := event.traceId
          parentSpanId := none
          sourceEventId := none
          jobId := event.queryJobId
          candidates := event.candidates
          rerankProfile := some (rankProfile event) } }
  else
    some {
      exchange := "search"
      routingKey := "cpu.search.finalize"
      task := .searchFinalize {
        taskId
        traceId := event.traceId
        parentSpanId := none
        sourceEventId := none
        jobId := event.queryJobId
        candidates := event.candidates } }

def EmbeddingDispatcher.queryEmbedded (taskId : String) (event : SearchQueryEmbeddedEvent) :
    Dispatch where
  exchange := "search"
  routingKey := "cpu.search.run"
  task := .searchRun {
    taskId
    traceId := event.traceId
    parentSpanId := none
    sourceEventId := none
    jobId := event.queryJobId }

end RagPipeline
