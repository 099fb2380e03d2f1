import RagPipeline.Events
import RagPipeline.Config.Models

namespace RagPipeline
open Coro

structure ChunkEmbeddingRow where
  chunkId : String
  modelName : String
  embedding : Vec
  chunkTable : String
deriving DecidableEq

structure QueryEmbeddingRow where
  queryJobId : String
  modelName : String
  embedding : Vec
deriving DecidableEq

inductive EmbeddingRow where
  | chunk (r : ChunkEmbeddingRow)
  | query (r : QueryEmbeddingRow)
deriving DecidableEq

/-- What `EmbedHandler` awaits; a fetch also says for which task it is made. -/
inductive EmbedOp where
  | fetchTexts (caller : ℕ) (chunkIds : List String) (chunkTable : String)
  | encode (texts : List String)
  | saveBatch (rows : List EmbeddingRow)
  | publish (e : Event)

abbrev EmbedOp.Ans : EmbedOp → Type
  | fetchTexts .. => List (String × String)
  | encode _ => List Vec
  | saveBatch _ => Unit
  | publish _ => Unit

abbrev EmbedCoro := Coro EmbedOp EmbedOp.Ans PyExc

abbrev awaitEmbed (op : EmbedOp) : EmbedCoro op.Ans := call op

/-- How the dependencies of the handler answer, each call for itself. -/
abbrev EmbedOracle := (op : EmbedOp) → Except PyExc op.Ans

structure Triple where
  task : Obj EmbedTask
  chunkId : String
  text : String
deriving DecidableEq

/-- The table to fetch from, for a task that names chunks and a table. -/
def fetchTable (task : EmbedTask) : Option String :=
  if task.chunkIds = [] then none else truthy task.chunkTable

/-- One turn of the fetch loop: the triples it adds and the tasks it fails. -/
def fetchTask (task : Obj EmbedTask) : EmbedCoro (List Triple × List (Obj EmbedTask)) :=
  match fetchTable task.val with
  | none => ret ([], [])
  | some table => do
    match ← (awaitEmbed (.fetchTexts task.id task.val.chunkIds table)).capture with
    | .ok pairs => ret (List.map (fun p => ⟨task, p.1, p.2⟩) pairs, [])
    -- a table that is gone is logged, and its task counts as done
    | .error (.chunkTableNotFound _) => ret ([], [])
    | .error _ => ret ([], [task])

def fetchTriples : List (Obj EmbedTask) → EmbedCoro (List Triple × List (Obj EmbedTask))
  | [] => ret ([], [])
  | task :: tasks => do
    let r ← fetchTask task
    let rs ← fetchTriples tasks
    ret (r.1 ++ rs.1, r.2 ++ rs.2)

/-- `vectors[i]`. -/
def vectorAt (vectors : List Vec) (i : ℕ) : Except PyExc Vec :=
  match vectors[i]? with
  | some v => .ok v
  | none => .error (.other "list index out of range")

/-- The rows of the triples from position `i` on. -/
def embeddingRows (modelName : String) (vectors : List Vec) :
    ℕ → List Triple → Except PyExc (List EmbeddingRow)
  | _, [] => .ok []
  | i, t :: ts =>
    match truthy t.task.val.chunkTable with
    | some table => do
      let v ← vectorAt vectors i
      let rows ← embeddingRows modelName vectors (i + 1) ts
      .ok (.chunk ⟨t.chunkId, modelName, v, table⟩ :: rows)
    | none => embeddingRows modelName vectors (i + 1) ts

abbrev GroupKey := Option ℤ × Option String

/-- `group_meta[key]` and `group_chunks[key]`. -/
structure EventGroup where
  postTable : Option String
  chunkTable : Option String
  chunkIds : List String
deriving DecidableEq

def taskKey (t : EmbedTask) : GroupKey := (t.postId, t.chunkTable)

def groupKey (t : Triple) : GroupKey := taskKey t.task.val

/-- The first triple of a key fixes the meta data of its group. -/
def addToGroup (t : Triple) : Option EventGroup → EventGroup
  | none => ⟨t.task.val.postTable, t.task.val.chunkTable, [t.chunkId]⟩
  | some g => { g with chunkIds := g.chunkIds ++ [t.chunkId] }

def eventGroups (triples : List Triple) : OrderedDict GroupKey EventGroup :=
  OrderedDict.empty.foldItems groupKey addToGroup triples

/-- `embedding.completed` of one group. -/
def groupEvent (modelName : String) (trace : Option String × Option String)
    (e : GroupKey × EventGroup) : Except PyExc EmbeddingCompletedEvent :=
  EmbeddingCompletedEvent.build e.1.1 e.2.postTable e.2.chunkIds e.2.chunkTable modelName
    trace.1 trace.2

def publishGroups (modelName : String) (trace : Option String × Option String) :
    List (GroupKey × EventGroup) → EmbedCoro Unit
  | [] => ret ()
  | g :: gs => do
    let event ← ofExcept (groupEvent modelName trace g)
    awaitEmbed (.publish (.embeddingCompleted event))
    publishGroups modelName trace gs

/-- `{id(t[0]): t[0] for t in triples}.values()`. -/
def seenTasks (triples : List Triple) : List (Obj EmbedTask) :=
  (OrderedDict.indexBy Obj.id (triples.map Triple.task)).values

/-- `[t for t in tasks if t not in fetch_failed]`. -/
def notFailed (tasks fetchFailed : List (Obj EmbedTask)) : List (Obj EmbedTask) :=
  tasks.filter fun t => !t.isIn fetchFailed

/-- What follows a successful `encode`. -/
def storeEmbeddings (triples : List Triple) (vectors : List Vec) (modelName : String)
    (trace : Option String × Option String) : EmbedCoro Unit := do
  let rows ← ofExcept (embeddingRows modelName vectors 0 triples)
  awaitEmbed (.saveBatch rows)
  publishGroups modelName trace (eventGroups triples).entries

/-- The tasks to ack and the tasks to nack. -/
def embedChunks (span : Option SpanIds) (tasks : List (Obj EmbedTask)) (modelName : String) :
    EmbedCoro (List (Obj EmbedTask) × List (Obj EmbedTask)) := do
  let (triples, fetchFailed) ← fetchTriples tasks
  match triples with
  | [] => ret (notFailed tasks fetchFailed, fetchFailed)
  | first :: _ =>
    match ← (awaitEmbed (.encode (triples.map Triple.text))).capture with
    -- no backend: the tasks are acked unembedded; any other exception nacks them all
    | .error (.embeddingUnavailable _) => ret (notFailed tasks fetchFailed, fetchFailed)
    | .error _ => ret ([], tasks)
    | .ok vectors => do
      storeEmbeddings triples vectors modelName (propagateTrace span first.task.val.traceId)
      ret (seenTasks triples, fetchFailed)

def queryText (configs : EmbedConfigs) (modelName query : String) : String :=
  match configs.values.find? (·.primary = modelName) with
  | some cfg => (truthy cfg.queryPrefix).getD "" ++ query
  | none => query

/-- A task without query or job id counts as handled. -/
def embedQuery (configs : EmbedConfigs) (span : Option SpanIds) (task : EmbedTask)
    (modelName : String) : EmbedCoro Bool :=
  match truthy task.query, truthy task.queryJobId with
  | some query, some jobId =>
    attempt (do
      let vectors ← awaitEmbed (.encode [queryText configs modelName query])
      let vector ← ofExcept (vectorAt vectors 0)
      awaitEmbed (.saveBatch [.query ⟨jobId, modelName, vector⟩])
      let trace := propagateTrace span task.traceId
      awaitEmbed (.publish (.searchQueryEmbedded ⟨jobId, modelName, trace.1, trace.2⟩))
      ret true)
      fun _ => ret false
  | _, _ => ret true

/-- Whatever its dependencies raise, `embed_query` answers. -/
theorem eval_embedQuery_isOk (ω : EmbedOracle) (configs : EmbedConfigs) (span : Option SpanIds)
    (task : EmbedTask) (modelName : String) :
    (eval ω (embedQuery configs span task modelName)).isOk := by
  unfold embedQuery
  split
  · rw [eval_attempt]
    split <;> rfl
  · rfl

end RagPipeline
