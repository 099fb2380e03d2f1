import RagPipeline.Tasks

namespace RagPipeline

structure PostSyncedEvent where
  eventId : String
  postId : ℤ
  postTable : String
  fieldsChanged : List String
  hasSummary : Bool
  updatedAt : DateTime
  traceId : Option String
  parentSpanId : Option String
deriving DecidableEq

structure ChunksCreatedEvent where
  eventId : String
  postId : ℤ
  postTable : String
  chunkIds : List String
  chunkTable : String
  taskType : String
  chunkCount : ℕ
  traceId : Option String
  parentSpanId : Option String
deriving DecidableEq

structure EmbeddingCompletedEvent where
  postId : ℤ
  postTable : String
  chunkIds : List String
  chunkTable : String
  modelName : String
  traceId : Option String
  parentSpanId : Option String
deriving DecidableEq

structure SearchJobCreatedEvent where
  queryJobId : String
  query : String
  embeddingProfile : String
  rerank : Bool
  rerankProfile : Option String
  traceId : Option String
  parentSpanId : Option String
deriving DecidableEq

structure SearchQueryEmbeddedEvent where
  queryJobId : String
  modelName : String
  traceId : Option String
  parentSpanId : Option String
deriving DecidableEq

structure SearchCandidatesRetrievedEvent where
  queryJobId : String
  candidates : List CandidateChunkRef
  k : ℤ
  rerank : Bool
  rerankProfile : Option String
  traceId : Option String
deriving DecidableEq

structure SearchJobCompletedEvent where
  queryJobId : String
  traceId : Option String
deriving DecidableEq

inductive Event where
  | postSynced (e : PostSyncedEvent)
  | chunksCreated (e : ChunksCreatedEvent)
  | embeddingCompleted (e : EmbeddingCompletedEvent)
  | searchJobCreated (e : SearchJobCreatedEvent)
  | searchQueryEmbedded (e : SearchQueryEmbeddedEvent)
  | searchCandidatesRetrieved (e : SearchCandidatesRetrievedEvent)
  | searchJobCompleted (e : SearchJobCompletedEvent)
deriving DecidableEq

/-- The `event_type` field, which is also the topic the event is published on. -/
def Event.topic : Event → String
  | postSynced _ => "post.synced"
  | chunksCreated _ => "chunks.created"
  | embeddingCompleted _ => "embedding.completed"
  | searchJobCreated _ => "search_job.created"
  | searchQueryEmbedded _ => "search_query.embedded"
  | searchCandidatesRetrieved _ => "search_candidates.retrieved"
  | searchJobCompleted _ => "search_job.completed"

/-- The model's fields are required, so building the event from a task without a post raises. -/
def EmbeddingCompletedEvent.build (postId : Option ℤ) (postTable : Option String)
    (chunkIds : List String) (chunkTable : Option String) (modelName : String)
    (traceId parentSpanId : Option String) : Except PyExc EmbeddingCompletedEvent :=
  match postId, postTable, chunkTable with
  | some p, some t, some c => .ok ⟨p, t, chunkIds, c, modelName, traceId, parentSpanId⟩
  | _, _, _ => .error (.other "validation error for EmbeddingCompletedEvent")

end RagPipeline
