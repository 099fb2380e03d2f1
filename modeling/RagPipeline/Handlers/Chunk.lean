import RagPipeline.Events
import RagPipeline.Lib.Coroutine
import RagPipeline.Repository.Chunks
import RagPipeline.Repository.Posts

namespace RagPipeline
open Coro

/-- The awaits of `ChunkPostHandler.handle`. -/
inductive ChunkOp where
  | fetch (postId : ℤ) (tableName : String)
  | ensureTable (tableName : String) (vectorDim : ℕ)
  | getTextHashes (postId : ℤ) (tableName : String)
  | bulkInsert (chunks : List Chunk) (tableName : String)
  | publish (e : Event)

abbrev ChunkOp.Ans : ChunkOp → Type
  | fetch .. => Option Post
  | ensureTable .. => Unit
  | getTextHashes .. => OrderedDict String String
  | bulkInsert .. => Unit
  | publish _ => Unit

abbrev ChunkCoro := Coro ChunkOp ChunkOp.Ans PyExc

abbrev awaitChunk (op : ChunkOp) : ChunkCoro op.Ans := call op

structure Chunking where
  /-- `_chunk_text` with the strategy of the task type. -/
  chunkText : ChunkTaskType → String → List String
  estimateTokens : String → ℕ
  sha256 : String → String

def ChunkTask.chunkTableName (task : ChunkTask) : String :=
  buildChunkTableName task.postTable task.taskType.key task.embedModel

namespace ChunkPostHandler

/-- The text of `summary_title` tasks. -/
def titleAndSummary (post : Post) : String :=
  let title := strip post.title
  let summary := strip (post.summary.getD "")
  "\n\n".intercalate
    ((if title = "" then [] else ["Title: " ++ title]) ++
      if summary = "" then [] else ["Summary: " ++ summary])

def resolveText (task : ChunkTask) (post : Post) : Option String :=
  match task.taskType with
  | .body => truthy post.customBody <|> post.bodyText
  | .title => truthy post.customTitle <|> some post.title
  | .summaryTitle => truthy (some (titleAndSummary post))
  | .analysis => truthy task.analysisText <|> post.analysisText

variable (C : Chunking)

/-- `_build_chunks`, with the ids that `uuid4` makes. -/
def buildChunks (ids : ℕ → String) (post : Post) (task : ChunkTask) (text : String) : List Chunk :=
  (C.chunkText task.taskType text).mapIdx fun i window =>
    { id := ids i
      postId := task.postId
      postUpdatedAt := post.updatedAt
      chunkIndex := i
      text := window
      metadata := ⟨some post.title, some post.externalId⟩
      tokenCount := C.estimateTokens window
      textHash := C.sha256 window }

/-- The chunks whose text is not stored yet. -/
def newChunks (existing : OrderedDict String String) (chunks : List Chunk) : List Chunk :=
  chunks.filter fun c => c.textHash ∉ existing.keys

/-- `chunks.created`. -/
def chunksCreated (eventId : String) (span : Option SpanIds) (task : ChunkTask)
    (chunks : List Chunk) : ChunksCreatedEvent :=
  let trace := propagateTrace span task.traceId
  { eventId, postId := task.postId, postTable := task.postTable
    chunkIds := chunks.map Chunk.id
    chunkTable := task.chunkTableName
    taskType := task.taskType.key
    chunkCount := chunks.length
    traceId := trace.1, parentSpanId := trace.2 }

def store (eventId : String) (span : Option SpanIds) (task : ChunkTask) (chunks : List Chunk) :
    ChunkCoro (List String) := do
  awaitChunk (.bulkInsert chunks task.chunkTableName)
  awaitChunk (.publish (.chunksCreated (chunksCreated eventId span task chunks)))
  ret (chunks.map Chunk.id)

/-- `handle` once the text is known. -/
def storeNew (ids : ℕ → String) (eventId : String) (span : Option SpanIds) (task : ChunkTask)
    (post : Post) (text : String) (vectorDim : ℕ) : ChunkCoro (List String) := do
  awaitChunk (.ensureTable task.chunkTableName vectorDim)
  let existing ← awaitChunk (.getTextHashes task.postId task.chunkTableName)
  match newChunks existing (buildChunks C ids post task text) with
  | [] => ret []
  | c :: cs => store eventId span task (c :: cs)

/-- The ids of the chunks that were inserted. -/
def handle (ids : ℕ → String) (eventId : String) (span : Option SpanIds) (task : ChunkTask) :
    ChunkCoro (List String) := do
  match ← awaitChunk (.fetch task.postId task.postTable) with
  | none => ret []
  | some post =>
    match truthy (resolveText task post) with
    | none => ret []
    | some text =>
      match embedConfigs.get? task.taskType.key with
      | none => ret []
      | some cfg => storeNew C ids eventId span task post text cfg.dim

end ChunkPostHandler
end RagPipeline
