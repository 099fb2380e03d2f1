import RagPipeline.Api.ChunkRouting
import RagPipeline.Handlers.EmbedBatches
import RagPipeline.Lib.LogReader
import RagPipeline.Services.ChunkBackfill

namespace RagPipeline
open Coro

/-! The ingestion pipeline as one system: posts are synced, their events dispatched, their texts
chunked by any number of workers, and the chunks embedded, in any order of steps. -/

/-- What the parts of the pipeline draw, and the models that encode. -/
structure IngestionEnv where
  chunking : Chunking
  /-- The texts on which `_chunk_text` returns. -/
  returns : ChunkTaskType → String → Prop
  encoder : String → String → Vec
  postDispatcher : PostDispatcher
  chunkSpan : ChunksCreatedEvent → Option SpanIds
  embedTaskId : ChunksCreatedEvent → String
  /-- The draws of the `k`-th delivery of a chunk task; `uuid4` never repeats itself. -/
  draws : ℕ → HandlerDraws
  injective : ∀ k, Function.Injective (draws k).ids
  distinct : ∀ {k l}, k ≠ l → ∀ i j, (draws k).ids i ≠ (draws l).ids j

inductive Dispatcher where
  | post | chunk
deriving DecidableEq

/-- The tasks that a dispatcher publishes for an event; other topics it does not see. -/
def IngestionEnv.dispatched (env : IngestionEnv) : Dispatcher → Event → List AnyTask
  | .post, .postSynced e => (env.postDispatcher.dispatchChunkTasks e).map Dispatch.task
  | .chunk, .chunksCreated e =>
    ((ChunkDispatcher.dispatchEmbedding embedConfigs (env.chunkSpan e) (env.embedTaskId e) e).map
      Dispatch.task).toList
  | _, _ => []

def unpublished : ChunkCoro (List String) → Option Event
  | .await (.publish e) _ => some e
  | _ => none

/-- The program has looked up the hashes when it goes on, and chunks the text next. -/
def LooksUp : ChunkCoro (List String) → Prop
  | .await (.getTextHashes ..) _ => True
  | _ => False

def ChunkTask.textIn (task : ChunkTask) (s : ChunkDb) : Option String :=
  (s.posts (relation task.postTable) task.postId).bind fun post =>
    truthy (ChunkPostHandler.resolveText task post)

structure ChunkJob where
  tag : ℕ
  task : ChunkTask
  program : ChunkCoro (List String)
  /-- Once the worker has read the post, the text that it found. -/
  seen : Option (Option String)

namespace ChunkJob

def start (env : IngestionEnv) (tag : ℕ) (task : ChunkTask) : ChunkJob where
  tag
  task
  program := ChunkPostHandler.handle env.chunking (env.draws tag).ids (env.draws tag).eventId
    (env.draws tag).span task
  seen := none

def next (j : ChunkJob) (s : ChunkDb) : ChunkJob :=
  { j with
    program := (Coro.next chunkWorld (j.program, s)).1
    seen := some (j.seen.getD (j.task.textIn s)) }

/-- The worker is to chunk a text, and does not come back. -/
def Hangs (env : IngestionEnv) (j : ChunkJob) : Prop :=
  LooksUp j.program ∧ ∃ text, j.seen = some (some text) ∧ ¬env.returns j.task.taskType text

end ChunkJob

namespace ChunkDb

def empty : ChunkDb := ⟨fun _ _ => none, fun _ => none, []⟩

/-- The part of the database that `sync_posts` writes to. -/
def postStore (s : ChunkDb) : PostStore := ⟨s.posts, s.events, 0⟩

def withPosts (s : ChunkDb) (db : PostStore) : ChunkDb :=
  { s with posts := db.rows, events := db.events }

/-- The part of the database that `embed_chunks` writes to. -/
def embedDb (s : ChunkDb) : EmbedDb := ⟨s.tables, s.events⟩

def withEmbeddings (s : ChunkDb) (db : EmbedDb) : ChunkDb :=
  { s with tables := db.tables, events := db.events }

def existing (s : ChunkDb) (x : SyncStep) : Option Post :=
  s.postStore.row x.tableName x.post.postId

end ChunkDb

/-- The event that `sync_posts` is about to publish. -/
def unsent : SyncCoro PostSyncResult → Option Event
  | .await (.publish e) _ => some e
  | _ => none

/-- A post that a request is at work on. -/
structure SyncJob where
  step : SyncStep
  program : SyncCoro PostSyncResult

namespace SyncJob

def start (x : SyncStep) : SyncJob where
  step := x
  program := syncPost x.trace x.tableName x.eventId x.post

def turn (j : SyncJob) (s : ChunkDb) : SyncCoro PostSyncResult × PostStore :=
  Coro.next (syncWorld fun _ => true) (j.program, s.postStore)

def next (j : SyncJob) (s : ChunkDb) : SyncJob := { j with program := (j.turn s).1 }

/-- The database after that await. -/
def after (j : SyncJob) (s : ChunkDb) : ChunkDb := s.withPosts (j.turn s).2

/-- The await writes the version, and the event to be published next does not compare it with the
row that it is written over. -/
def Overlooks (j : SyncJob) (s : ChunkDb) : Prop :=
  (j.after s).posts ≠ s.posts ∧
    unsent (j.next s).program ≠ some (.postSynced (j.step.event (s.existing j.step)))

end SyncJob

/-- A message that something in the pipeline waits for, or a version that no message is about. -/
inductive Notice where
  | event (e : Event)
  | task (t : AnyTask)
  | version (x : SyncStep)

/-- The database, the requests, the readers of the event log, the tasks in the queues and those
being worked on. What is lost on the way is kept in a list, which nothing in the program reads. -/
structure Ingestion where
  store : ChunkDb
  syncs : List SyncJob
  readers : Dispatcher → LogReader AnyTask
  ready : List AnyTask
  jobs : List ChunkJob
  deliveries : ℕ
  lost : List Notice

/-- The table is that of a task type whose model has that name. -/
def IsChunkTable (tableName modelName : String) : Prop :=
  ∃ postTable, ∃ t : ChunkTaskType, ∃ cfg, embedConfigs.get? t.key = some cfg ∧
    modelName = cfg.primary ∧ tableName = buildChunkTableName postTable t.key cfg.primary

/-- What every publisher of an ingestion task gives it. -/
def AnyTask.Configured : AnyTask → Prop
  | chunk t => t.taskType ≠ .analysis ∧
      ∃ cfg, embedConfigs.get? t.taskType.key = some cfg ∧ t.embedModel = cfg.primary
  | embed t => (∃ table, t.chunkTable = some table ∧ IsChunkTable table t.modelName) ∧
      t.postId.isSome ∧ t.postTable.isSome
  | _ => False

inductive IngestionAction where
  | sync (x : SyncStep)
  | request
  | dispatch (d : Dispatcher)
  | work
  | requeue (t : AnyTask)

namespace Ingestion

def empty : Ingestion where
  store := .empty
  syncs := []
  readers _ := .start
  ready := []
  jobs := []
  deliveries := 0
  lost := []

def withReader (s : Ingestion) (d : Dispatcher) (r : LogReader AnyTask) : Ingestion :=
  { s with readers := Function.update s.readers d r }

def batchTasks {E : String → Vec} (b : EmbedBatch E) : List AnyTask :=
  b.tasks.map fun t => .embed t.val

/-- A step of the system. A killed worker's task is delivered again, a rejected one is gone. -/
inductive Step (env : IngestionEnv) : Ingestion → IngestionAction → Ingestion → Prop
  /-- A request comes to one of its posts. -/
  | sync (s : Ingestion) (x : SyncStep) :
      Step env s (.sync x) { s with syncs := s.syncs ++ [.start x] }
  /-- One await of one request. -/
  | turn (s : Ingestion) (j : SyncJob) (before after : List SyncJob)
      (h : s.syncs = before ++ j :: after) (hreads : ¬j.Overlooks s.store) :
      Step env s .request
        { s with store := j.after s.store, syncs := before ++ j.next s.store :: after }
  /-- The row is not the one that the request has read before. -/
  | overlook (s : Ingestion) (j : SyncJob) (before after : List SyncJob)
      (h : s.syncs = before ++ j :: after) (hreads : j.Overlooks s.store) :
      Step env s .request
        { s with
          store := j.after s.store
          syncs := before ++ j.next s.store :: after
          lost := s.lost ++ [.version j.step] }
  /-- The request is done with the post, an await of it raises, or its process ends. -/
  | leave (s : Ingestion) (j : SyncJob) (before after : List SyncJob)
      (h : s.syncs = before ++ j :: after) :
      Step env s .request
        { s with
          syncs := before ++ after
          lost := s.lost ++ (unsent j.program).toList.map .event }
  /-- The offset is committed before the event is handled. -/
  | take (s : Ingestion) (d : Dispatcher) (k : ℕ) (e : Event) (hdone : (s.readers d).outbox = [])
      (hk : k ∉ (s.readers d).passed) (he : s.store.events[k]? = some e) :
      Step env s (.dispatch d) (s.withReader d ((s.readers d).take k (env.dispatched d e)))
  /-- An event of a lower id than the offset is committed. -/
  | skip (s : Ingestion) (d : Dispatcher) (k : ℕ) (e : Event) (hk : k ∉ (s.readers d).passed)
      (he : s.store.events[k]? = some e) :
      Step env s (.dispatch d)
        { s.withReader d ((s.readers d).skip k) with lost := s.lost ++ [.event e] }
  | publish (s : Ingestion) (d : Dispatcher) (t : AnyTask) (ts : List AnyTask)
      (h : (s.readers d).outbox = t :: ts) :
      Step env s (.dispatch d)
        { s.withReader d ((s.readers d).rest ts) with ready := s.ready ++ [t] }
  /-- A publish raises, or the dispatcher is killed. -/
  | drop (s : Ingestion) (d : Dispatcher) :
      Step env s (.dispatch d)
        { s.withReader d ((s.readers d).rest []) with
          lost := s.lost ++ (s.readers d).outbox.map .task }
  | deliver (s : Ingestion) (task : ChunkTask) (before after : List AnyTask)
      (h : s.ready = before ++ .chunk task :: after) :
      Step env s .work
        { s with
          ready := before ++ after
          jobs := s.jobs ++ [.start env s.deliveries task]
          deliveries := s.deliveries + 1 }
  /-- One await of one worker. -/
  | await (s : Ingestion) (j : ChunkJob) (before after : List ChunkJob)
      (h : s.jobs = before ++ j :: after) (hgoes : ¬j.Hangs env) :
      Step env s .work
        { s with
          store := (Coro.next chunkWorld (j.program, s.store)).2
          jobs := before ++ j.next s.store :: after }
  | ack (s : Ingestion) (j : ChunkJob) (before after : List ChunkJob) (ids : List String)
      (h : s.jobs = before ++ j :: after) (hret : j.program = ret ids) :
      Step env s .work { s with jobs := before ++ after }
  /-- The worker's process ends. -/
  | kill (s : Ingestion) (j : ChunkJob) (before after : List ChunkJob)
      (h : s.jobs = before ++ j :: after) :
      Step env s .work
        { s with
          ready := s.ready ++ [.chunk j.task]
          jobs := before ++ after
          lost := s.lost ++ (unpublished j.program).toList.map .event }
  /-- The handler raises, or cannot be run. -/
  | reject (s : Ingestion) (j : ChunkJob) (before after : List ChunkJob)
      (h : s.jobs = before ++ j :: after) :
      Step env s .work
        { s with
          jobs := before ++ after
          lost := s.lost ++ .task (.chunk j.task) :: (unpublished j.program).toList.map .event }
  /-- A batch of one model's queue. -/
  | embed (s : Ingestion) (modelName : String) (b : EmbedBatch (env.encoder modelName))
      (rest : List AnyTask) (h : s.ready.Perm (batchTasks b ++ rest))
      (hname : b.modelName = modelName) (hmodel : ∀ t ∈ b.tasks, t.val.modelName = modelName) :
      Step env s .work
        { s with store := s.store.withEmbeddings (b.after s.store.embedDb), ready := rest }
  /-- A batch that comes no further: some of its tasks are delivered again, the others rejected, or
  acked since no model can be reached. -/
  | embedStopped (s : Ingestion) (modelName : String) (b : EmbedBatch (env.encoder modelName))
      (stop : Option ℕ) (rest again gone : List AnyTask)
      (h : s.ready.Perm (batchTasks b ++ rest)) (hsettled : (batchTasks b).Perm (again ++ gone))
      (hname : b.modelName = modelName) (hmodel : ∀ t ∈ b.tasks, t.val.modelName = modelName) :
      Step env s .work
        { s with
          store := s.store.withEmbeddings (leaves (embedWorld b) stop
            (embedChunks b.span b.tasks b.modelName) s.store.embedDb)
          ready := rest ++ again
          lost := s.lost ++ gone.map .task }
  /-- A maintenance request publishes a task. -/
  | requeue (s : Ingestion) (t : AnyTask) (h : t.Configured) :
      Step env s (.requeue t) { s with ready := s.ready ++ [t] }

/-- The steps of a run, with the states they lead to. -/
abbrev Run := List (IngestionAction × Ingestion)

def synced (run : Run) : List SyncStep :=
  run.filterMap fun p =>
    match p.1 with
    | .sync x => some x
    | _ => none

end Ingestion
end RagPipeline
