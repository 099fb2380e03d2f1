import RagPipeline.Handlers.Embed
import RagPipeline.Handlers.Search

namespace RagPipeline
open Coro

/-- A `(delivery_tag, body)` pair as `_poll_queue` returns it. -/
structure RawMessage (Body : Type) where
  deliveryTag : ℕ
  body : Body

/-- A parsed message; every parse makes a task object of its own. -/
structure WorkerMessage where
  task : Obj AnyTask
  deliveryTag : ℕ
deriving DecidableEq

/-- What the worker tells the broker about a delivery. -/
inductive Settlement where
  | ack (deliveryTag : ℕ)
  | nack (deliveryTag : ℕ) (requeue : Bool)
deriving DecidableEq

def Settlement.deliveryTag : Settlement → ℕ
  | ack t => t
  | nack t _ => t

namespace GpuEmbedWorker

variable {Body M : Type}

/-- The message at position `i` of a poll, when `parse_task` accepts its body. -/
def parseMessage (parseTask : Body → Option AnyTask) (p : RawMessage Body × ℕ) :
    Option WorkerMessage :=
  (parseTask p.1.body).map fun t => ⟨⟨p.2, t⟩, p.1.deliveryTag⟩

def parseBatch (parseTask : Body → Option AnyTask) (raw : List (RawMessage Body)) :
    List WorkerMessage :=
  raw.zipIdx.filterMap (parseMessage parseTask)

/-- Malformed messages are nacked while the batch is parsed. -/
def parseNacks (parseTask : Body → Option AnyTask) (raw : List (RawMessage Body)) :
    List Settlement :=
  (raw.filter fun m => (parseTask m.body).isNone).map fun m => .nack m.deliveryTag false

/-- `_model` and `_current_model_name`. -/
structure Warm (M : Type) where
  model : Option M
  currentModelName : Option String

def Warm.cold : Warm M := ⟨none, none⟩

def unloadModel (w : Warm M) : Warm M :=
  match w.model with
  | none => w
  | some _ => .cold

def ensureModel (loadModel : String → Except PyExc M) (w : Warm M) (modelName : String) :
    Except PyExc Unit × Warm M :=
  if w.currentModelName = some modelName then (.ok (), w)
  else
    -- the old model is dropped whether or not the new one loads
    match loadModel modelName with
    | .ok m => (.ok (), ⟨some m, some modelName⟩)
    | .error e => (.error e, unloadModel w)

/-- The handlers the worker was built with, as it calls them. -/
structure Handlers (M : Type) where
  embedChunks : List (Obj EmbedTask) → String → M →
    Except PyExc (List (Obj EmbedTask) × List (Obj EmbedTask))
  embedQuery : Obj EmbedTask → String → M → Except PyExc Bool
  /-- `none` when the worker was built without a rerank handler. -/
  rerank : Option (Obj SearchRankTask → String → M → Except PyExc Bool)

/-- The dependencies behind one visit of a queue. Every query and every rank task has an oracle of
its own, indexed by its object; the chunk tasks of a batch share one `embed_chunks` call. -/
structure Env (M : Type) where
  loadModel : String → Except PyExc M
  chunksSpan : Option SpanIds
  querySpan : ℕ → Option SpanIds
  embedConfigs : EmbedConfigs
  embedChunks : M → EmbedOracle
  embedQuery : M → ℕ → EmbedOracle
  rerank : Option (M → ℕ → JobOracle)

def Env.handlers (env : Env M) : Handlers M where
  embedChunks tasks modelName m :=
    eval (env.embedChunks m) (RagPipeline.embedChunks env.chunksSpan tasks modelName)
  embedQuery task modelName m :=
    eval (env.embedQuery m task.id)
      (RagPipeline.embedQuery env.embedConfigs (env.querySpan task.id) task.val modelName)
  rerank := env.rerank.map fun ω task _ m => eval (ω m task.id) (RerankHandler.handle task.val)

def asChunkTask : AnyTask → Option EmbedTask
  | .embed t => if t.taskType = .chunk then some t else none
  | _ => none

def asQueryTask : AnyTask → Option EmbedTask
  | .embed t => if t.taskType = .query then some t else none
  | _ => none

abbrev Outcome := List WorkerMessage × List WorkerMessage

/-- `(ok if success else failed).append(msg)`, seen from the messages that follow. -/
def Outcome.add (msg : WorkerMessage) (success : Bool) (r : Outcome) : Outcome :=
  if success then (msg :: r.1, r.2) else (r.1, msg :: r.2)

/-- One handler call per message, in order; an exception ends the loop. -/
def handleEach (handle : WorkerMessage → Except PyExc Bool) :
    List WorkerMessage → Except PyExc Outcome
  | [] => .ok ([], [])
  | msg :: msgs => do
    let success ← handle msg
    let r ← handleEach handle msgs
    .ok (Outcome.add msg success r)

/-- One turn of the rerank loop, its assertion included. -/
def rerankMessage (rerank : Obj SearchRankTask → Except PyExc Bool) (msg : WorkerMessage) :
    Except PyExc Bool :=
  match msg.task.val with
  | .searchRank t => rerank ⟨msg.task.id, t⟩
  | _ => .error (.other "AssertionError")

def processRerankBatch (h : Handlers M) (m : M) (batch : List WorkerMessage)
    (modelName : String) : Except PyExc Outcome :=
  match h.rerank with
  | some rerank => handleEach (rerankMessage fun t => rerank t modelName m) batch
  | none => .error (.other "constructed without a rerank_handler")

def queryMessage (h : Handlers M) (m : M) (modelName : String) (msg : WorkerMessage) :
    Except PyExc Bool :=
  match asQueryTask msg.task.val with
  | some t => h.embedQuery ⟨msg.task.id, t⟩ modelName m
  | none => .error (.other "AssertionError")

def chunkMsgs (batch : List WorkerMessage) : List WorkerMessage :=
  batch.filter fun m => (asChunkTask m.task.val).isSome

def queryMsgs (batch : List WorkerMessage) : List WorkerMessage :=
  batch.filter fun m => (asQueryTask m.task.val).isSome

def chunkTasks (batch : List WorkerMessage) : List (Obj EmbedTask) :=
  batch.filterMap fun m => (asChunkTask m.task.val).map fun t => ⟨m.task.id, t⟩

/-- `{id(t): m for t, m in zip(chunk_tasks, chunk_msgs)}`. -/
def taskToMsg (batch : List WorkerMessage) : OrderedDict ℕ WorkerMessage :=
  OrderedDict.ofList (((chunkTasks batch).zip (chunkMsgs batch)).map fun p => (p.1.id, p.2))

def msgsOf (batch : List WorkerMessage) (tasks : List (Obj EmbedTask)) : List WorkerMessage :=
  tasks.filterMap fun t => (taskToMsg batch).get? t.id

/-- A message that is neither a chunk nor a query task ends in neither list. -/
def processEmbedBatch (h : Handlers M) (m : M) (batch : List WorkerMessage) (modelName : String) :
    Except PyExc Outcome := do
  let (ok, failed) ← handleEach (queryMessage h m modelName) (queryMsgs batch)
  match chunkTasks batch with
  -- `embed_chunks` is called only if there are chunk tasks
  | [] => .ok (ok, failed)
  | _ :: _ => do
    let (okTasks, failTasks) ← h.embedChunks (chunkTasks batch) modelName m
    .ok (ok ++ msgsOf batch okTasks, failed ++ msgsOf batch failTasks)

/-- `isinstance(batch[0].task, SearchRankTask)`. -/
def startsWithRank : List WorkerMessage → Bool
  | ⟨⟨_, .searchRank _⟩, _⟩ :: _ => true
  | _ => false

def processBatch (h : Handlers M) (model : Option M) (batch : List WorkerMessage)
    (modelName : String) : Except PyExc Outcome :=
  match model with
  | none => .error (.other "_process_batch called without a loaded model")
  | some m =>
    if startsWithRank batch then processRerankBatch h m batch modelName
    else processEmbedBatch h m batch modelName

def settle (r : Outcome) : List Settlement :=
  r.1.map (fun m => .ack m.deliveryTag) ++ r.2.map fun m => .nack m.deliveryTag false

/-- A batch with a valid message: its settlements, or the exception that leaves `_run_inner`. -/
def handleBatch (env : Env M) (w : Warm M) (modelName : String) (batch : List WorkerMessage) :
    Except PyExc (List Settlement) × Warm M :=
  match ensureModel env.loadModel w modelName with
  | (.ok _, w') => ((processBatch env.handlers w'.model batch modelName).map settle, w')
  -- a load that raises is caught in the loop, any exception of the handlers is not
  | (.error _, w') => (.ok (settle ([], batch)), w')

/-- Where the loop of `_run_inner` stands: the resident model, the queue the scan has come to and
how long nothing was found. -/
structure Loop (M : Type) where
  warm : Warm M
  pos : ℕ
  idleSince : Option ℚ

def Loop.start (w : Warm M) : Loop M := ⟨w, 0, none⟩

/-- What the worker meets when it visits a queue or ends a scan. -/
structure Visit (Body M : Type) where
  env : Env M
  raw : List (RawMessage Body)
  now : ℚ

/-- The result of one visit: what was settled, and the loop as it goes on or the exception that
leaves `_run_inner` with the model then resident. -/
structure Visited (M : Type) where
  settlements : List Settlement
  next : Except (PyExc × Warm M) (Loop M)

/-- A scan that found no work. -/
def idle (idleTimeoutS : ℚ) (now : ℚ) (s : Loop M) : Loop M :=
  match s.idleSince with
  | none => ⟨s.warm, 0, some now⟩
  | some since =>
    if now - since > idleTimeoutS then ⟨unloadModel s.warm, 0, none⟩ else { s with pos := 0 }

/-- One step of the loop. A poll without a valid message moves on to the next queue; a batch ends
the scan. -/
def visit (parseTask : Body → Option AnyTask) (modelQueues : List (String × String))
    (idleTimeoutS : ℚ) (v : Visit Body M) (s : Loop M) : Visited M :=
  match modelQueues[s.pos]? with
  | none => ⟨[], .ok (idle idleTimeoutS v.now s)⟩
  | some (modelName, _) =>
    match parseBatch parseTask v.raw with
    -- nothing polled or nothing valid: the scan goes on, and the idle clock is not touched
    | [] => ⟨parseNacks parseTask v.raw, .ok { s with pos := s.pos + 1 }⟩
    | msg :: msgs =>
      match handleBatch v.env s.warm modelName (msg :: msgs) with
      | (.ok done, w) => ⟨parseNacks parseTask v.raw ++ done, .ok (.start w)⟩
      | (.error e, w) => ⟨parseNacks parseTask v.raw, .error (e, w)⟩

/-- The loops of one worker process: `run` enters `_run_inner` again after a lost connection. -/
inductive Reachable (parseTask : Body → Option AnyTask) (modelQueues : List (String × String))
    (idleTimeoutS : ℚ) : Loop M → Prop
  | start : Reachable parseTask modelQueues idleTimeoutS (.start .cold)
  | step {s s' : Loop M} (v : Visit Body M) (hs : Reachable parseTask modelQueues idleTimeoutS s)
      (h : (visit parseTask modelQueues idleTimeoutS v s).next = .ok s') :
      Reachable parseTask modelQueues idleTimeoutS s'
  | reconnect {s : Loop M} {msg : String} {w : Warm M} (v : Visit Body M)
      (hs : Reachable parseTask modelQueues idleTimeoutS s)
      (h : (visit parseTask modelQueues idleTimeoutS v s).next = .error (.amqpError msg, w)) :
      Reachable parseTask modelQueues idleTimeoutS (.start w)

end GpuEmbedWorker
end RagPipeline
