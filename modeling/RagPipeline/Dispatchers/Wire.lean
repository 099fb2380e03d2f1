import RagPipeline.Tasks.Parsing

namespace RagPipeline
open Coro

/-! From an event in the log to the task that a worker gets. -/

/-- What an event has besides its own fields. -/
structure Envelope where
  eventId : String
  occurredAt : String
  parentSpanId : Option String
  createdAt : String

/-- `BaseEvent.to_dict`: the fields of every event, and after them its own. -/
def baseEventFields (eventId topic occurredAt : String) (traceId parentSpanId : Option String) :
    List (String × Json) :=
  [("event_id", .str eventId), ("event_type", .str topic), ("event_version", .int 1),
    ("occurred_at", .str occurredAt), ("trace_id", .ofOption .str traceId),
    ("parent_span_id", .ofOption .str parentSpanId), ("correlation_id", .null),
    ("causation_id", .null)]

/-- `to_dict`; `iso` dumps a timestamp. -/
def Event.toDict (iso : DateTime → String) (x : Envelope) : Event → Json
  | .postSynced e =>
    .obj (baseEventFields e.eventId "post.synced" x.occurredAt e.traceId e.parentSpanId ++
      [("post_id", .int e.postId), ("post_table", .str e.postTable),
        ("fields_changed", .arr (e.fieldsChanged.map .str)), ("has_summary", .bool e.hasSummary),
        ("updated_at", .str (iso e.updatedAt))])
  | .chunksCreated e =>
    .obj (baseEventFields e.eventId "chunks.created" x.occurredAt e.traceId e.parentSpanId ++
      [("post_id", .int e.postId), ("post_table", .str e.postTable),
        ("chunk_ids", .arr (e.chunkIds.map .str)), ("chunk_table", .str e.chunkTable),
        ("task_type", .str e.taskType), ("chunk_count", .int e.chunkCount),
        ("created_at", .str x.createdAt)])
  | .embeddingCompleted e =>
    .obj (baseEventFields x.eventId "embedding.completed" x.occurredAt e.traceId e.parentSpanId ++
      [("post_id", .int e.postId), ("post_table", .str e.postTable),
        ("chunk_ids", .arr (e.chunkIds.map .str)), ("chunk_table", .str e.chunkTable),
        ("model_name", .str e.modelName)])
  | .searchJobCreated e =>
    .obj (baseEventFields x.eventId "search_job.created" x.occurredAt e.traceId e.parentSpanId ++
      [("query_job_id", .str e.queryJobId), ("query", .str e.query),
        ("embedding_profile", .str e.embeddingProfile), ("rerank", .bool e.rerank),
        ("rerank_profile", .ofOption .str e.rerankProfile)])
  | .searchQueryEmbedded e =>
    .obj (baseEventFields x.eventId "search_query.embedded" x.occurredAt e.traceId e.parentSpanId ++
      [("query_job_id", .str e.queryJobId), ("model_name", .str e.modelName)])
  | .searchCandidatesRetrieved e =>
    .obj (baseEventFields x.eventId "search_candidates.retrieved" x.occurredAt e.traceId
        x.parentSpanId ++
      [("query_job_id", .str e.queryJobId),
        ("candidates", .arr (e.candidates.map CandidateChunkRef.json)), ("k", .int e.k),
        ("rerank", .bool e.rerank), ("rerank_profile", .ofOption .str e.rerankProfile)])
  | .searchJobCompleted e =>
    .obj (baseEventFields x.eventId "search_job.completed" x.occurredAt e.traceId x.parentSpanId ++
      [("query_job_id", .str e.queryJobId)])

def DispatchLoop.topic : DispatchLoop → String
  | postSynced => "post.synced"
  | chunksCreated => "chunks.created"
  | jobCreated => "search_job.created"
  | candidatesRetrieved => "search_candidates.retrieved"
  | queryEmbedded => "search_query.embedded"

section Reading

variable {iso : DateTime → String} {x : Envelope}

theorem getOr_of_item {event v : Json} {key : String} (default : Json)
    (h : event.item? key = some v) : getOr event key default = some v := by
  rw [getOr_eq (isObject_of_item? h), h]
  rfl

theorem reads_toDict {loop : DispatchLoop} {e : Event} (h : loop.topic = e.topic) :
    loop.Reads (e.toDict iso x) e := by
  cases loop with
  | postSynced =>
    cases e with
    | postSynced e =>
      have hitem : ∀ {key v}, _ → ((Event.postSynced e).toDict iso x).item? key = some v :=
        fun h => item?_of_mem (by simp [baseEventFields]) h
      exact ⟨hitem (by simp [baseEventFields]), hitem (by simp), hitem (by simp),
        getOr_of_item _ (hitem (by simp)), getOr_of_item _ (hitem (by simp)),
        getOr_of_item _ (hitem (by simp [baseEventFields]))⟩
    | _ => simp [DispatchLoop.topic, Event.topic] at h
  | chunksCreated =>
    cases e with
    | chunksCreated e =>
      have hitem : ∀ {key v}, _ → ((Event.chunksCreated e).toDict iso x).item? key = some v :=
        fun h => item?_of_mem (by simp [baseEventFields]) h
      exact ⟨hitem (by simp [baseEventFields]), hitem (by simp), hitem (by simp), hitem (by simp),
        hitem (by simp), hitem (by simp), getOr_of_item _ (hitem (by simp [baseEventFields]))⟩
    | _ => simp [DispatchLoop.topic, Event.topic] at h
  | jobCreated =>
    cases e with
    | searchJobCreated e =>
      have hitem : ∀ {key v}, _ → ((Event.searchJobCreated e).toDict iso x).item? key = some v :=
        fun h => item?_of_mem (by simp [baseEventFields]) h
      exact ⟨hitem (by simp), hitem (by simp), hitem (by simp),
        getOr_of_item _ (hitem (by simp [baseEventFields]))⟩
    | _ => simp [DispatchLoop.topic, Event.topic] at h
  | candidatesRetrieved =>
    cases e with
    | searchCandidatesRetrieved e =>
      have hitem : ∀ {key v}, _ →
          ((Event.searchCandidatesRetrieved e).toDict iso x).item? key = some v :=
        fun h => item?_of_mem (by simp [baseEventFields]) h
      have hrefs : List.Forall₂ ReadsCandidate (e.candidates.map CandidateChunkRef.json)
          e.candidates :=
        List.forall₂_map_left_iff.mpr (List.forall₂_same.mpr fun c _ => readsCandidate_json c)
      exact ⟨hitem (by simp), ⟨_, hitem (by simp), hrefs⟩, getOr_of_item _ (hitem (by simp)),
        getOr_of_item _ (hitem (by simp)), getOr_of_item _ (hitem (by simp [baseEventFields]))⟩
    | _ => simp [DispatchLoop.topic, Event.topic] at h
  | queryEmbedded =>
    cases e with
    | searchQueryEmbedded e =>
      have hitem : ∀ {key v}, _ → ((Event.searchQueryEmbedded e).toDict iso x).item? key = some v :=
        fun h => item?_of_mem (by simp [baseEventFields]) h
      exact ⟨hitem (by simp), getOr_of_item _ (hitem (by simp [baseEventFields]))⟩
    | _ => simp [DispatchLoop.topic, Event.topic] at h

end Reading

section Publishing

variable {p : Pydantic} {draw : Draw} {event : Json} {loop : DispatchLoop}
  {outcome : Message → Except PyExc Unit}

/-- The messages up to the first that the broker refuses. -/
def accepted (outcome : Message → Except PyExc Unit) (ds : List Dispatch) : List Message :=
  (ds.map Dispatch.message).takeWhile fun m => (outcome m).isOk

theorem accepted_cons (d : Dispatch) (ds : List Dispatch) : accepted outcome (d :: ds) =
    if (outcome d.message).isOk then d.message :: accepted outcome ds else [] := by
  rw [accepted, List.map_cons, List.takeWhile_cons]
  rfl

theorem noting_message (m : Message) (s : List Message) : noting outcome some m s =
    (outcome m, if (outcome m).isOk then s ++ [m] else s) := by
  rw [noting]
  cases outcome m <;> rfl

theorem snd_run_call_noting (m : Message) (k : PublishCoro Unit) (more : List Message)
    (h : ∀ s, (run (noting outcome some) k s).2 = s ++ more) (s : List Message) :
    (run (noting outcome some) (call m >>= fun _ => k) s).2 =
      s ++ if (outcome m).isOk then m :: more else [] := by
  rw [run_bind, run_call, noting_message]
  cases outcome m with
  | error exc => simp [Except.isOk, Except.toBool]
  | ok u =>
    simp only [Except.isOk, Except.toBool, if_true]
    rw [h, List.append_assoc]
    rfl

theorem run_routeTasksRaw_accepted (hp : p.Lawful) {e : PostSyncedEvent} (h : ReadsPost event e)
    {d : PostDispatcher} (hspan : d.span e = draw.span)
    (hid : ∀ taskType, d.taskId e taskType = draw.taskId taskType.key)
    (routes : List (ChunkTaskType × Bool)) (s : List Message) :
    (run (noting outcome some) (routeTasksRaw p draw event
        (propagateRaw draw.span (event.item? "trace_id")) (.int e.postId) (.str e.postTable) routes)
      s).2 = s ++ accepted outcome (d.routeTasks e routes) := by
  induction routes generalizing s with
  | nil => simp [routeTasksRaw, PostDispatcher.routeTasks, accepted]
  | cons route routes ih =>
    obtain ⟨taskType, changed⟩ := route
    cases changed with
    | false => exact ih s
    | true =>
      rw [routeTasksRaw, chunkTaskRaw_of_reads hp h]
      rw [PostDispatcher.routeTasks]
      cases hcfg : embedConfigs.get? taskType.key with
      | none => simp [accepted]
      | some cfg =>
        simp only [hspan, hid, Option.map_some, raising_some, ret_bind, accepted_cons]
        exact snd_run_call_noting _ _ _ ih s

/-- The `except` clause publishes nothing. -/
theorem snd_run_guarded {w : World Message (fun _ => Unit) PyExc (List Message)}
    (dispatch : PublishCoro Unit) (x : Option Unit) (s : List Message) :
    (run w (dispatch.attempt fun _ => raising x) s).2 = (run w dispatch s).2 := by
  rw [run_attempt]
  rcases run w dispatch s with ⟨_ | _, t⟩
  · cases x <;> rfl
  · rfl

theorem run_publishUnguarded_accepted (o : Option Dispatch) :
    (run (noting outcome some) (publishUnguarded (some (o.map Dispatch.message))) []).2 =
      accepted outcome o.toList := by
  cases o with
  | none => simp [publishUnguarded, accepted]
  | some d =>
    simp only [publishUnguarded, Option.map_some, raising_some, ret_bind, run_call, noting_message,
      Option.toList_some, accepted_cons]
    simp [accepted]

/-- A loop publishes the tasks of its event in their order, up to the first that the broker
refuses. -/
theorem run_body_accepted (hp : p.Lawful) {e : Event} (h : loop.Reads event e) :
    (run (noting outcome some) (loop.body p draw event) []).2 =
      accepted outcome (draw.tasksOf e) := by
  cases loop with
  | postSynced =>
    cases e with
    | postSynced e =>
      have hread : ReadsPost event e := h
      have hlag := recordQueueLag_eq (isObject_of_item? hread.postId)
      simp only [DispatchLoop.body, handlePostSynced, snd_run_guarded, hlag,
        routesRaw_of_reads hread, raising_some, ret_bind]
      exact run_routeTasksRaw_accepted hp hread rfl (fun _ => rfl) _ _
    | _ => cases h
  | chunksCreated =>
    cases e with
    | chunksCreated e =>
      have hread : ReadsChunks event e := h
      have hlag := recordQueueLag_eq (isObject_of_item? hread.postId)
      simp only [DispatchLoop.body, handleChunksCreated, snd_run_guarded, hlag,
        embeddingMessage_of_reads hp hread, raising_some, ret_bind, Draw.tasksOf]
      cases ChunkDispatcher.dispatchEmbedding embedConfigs draw.span (draw.taskId "chunk") e with
      | none => simp [accepted]
      | some d =>
        simp only [Option.map_some, raising_some, ret_bind, run_call, noting_message,
          Option.toList_some, accepted_cons]
        simp [accepted]
    | _ => cases h
  | jobCreated =>
    cases e with
    | searchJobCreated e =>
      simp only [DispatchLoop.body, jobCreatedMessage_of_reads h]
      exact run_publishUnguarded_accepted _
    | _ => cases h
  | candidatesRetrieved =>
    cases e with
    | searchCandidatesRetrieved e =>
      simp only [DispatchLoop.body, candidatesRetrievedMessage_of_reads hp h]
      exact run_publishUnguarded_accepted _
    | _ => cases h
  | queryEmbedded =>
    cases e with
    | searchQueryEmbedded e =>
      simp only [DispatchLoop.body, queryEmbeddedMessage_of_reads h]
      exact run_publishUnguarded_accepted (some _)
    | _ => cases h

end Publishing

theorem carriesFields_message (d : Dispatch) : CarriesFields d.message.body d.task.json :=
  fun _ _ h => h

/-- An event that was published reaches the loop of its topic, and the messages that the loop sends
are parsed by the workers as the tasks that the event asks for, in their order, up to the first that
the broker refuses. -/
theorem dispatched_over_wire {p : Pydantic} (hp : p.Lawful) (iso : DateTime → String) (x : Envelope)
    (draw : Draw) (outcome : Message → Except PyExc Unit) (newId : String) {loop : DispatchLoop}
    {e : Event} (h : loop.topic = e.topic) :
    ((run (noting outcome some) (loop.body p draw (e.toDict iso x)) []).2.map fun m =>
        (m.exchange, m.routingKey, parseTask p newId m.body)) =
      ((draw.tasksOf e).takeWhile fun d => (outcome d.message).isOk).map fun d =>
        (d.exchange, d.routingKey, some d.task.parsed) := by
  rw [run_body_accepted hp (reads_toDict h), accepted, List.takeWhile_map, List.map_map]
  apply List.map_congr_left
  intro d _
  have hparse : parseTask p newId d.message.body = some d.task.parsed :=
    parseTask_of_carriesFields hp (carriesFields_message d)
  simp only [Function.comp_apply, hparse]
  rfl

def queryJob : Event := .searchJobCreated
  { queryJobId := "job", query := "query", embeddingProfile := "BAAI/bge-base-en-v1.5"
    rerank := false, rerankProfile := none, traceId := none, parentSpanId := none }

def queryEnvelope : Envelope := ⟨"event", "2026-01-01", none, "2026-01-01"⟩

theorem dispatched_over_wire_queryJob :
    ((run (noting (fun _ => .ok ()) some) (DispatchLoop.jobCreated.body jsonNumbers
          ⟨none, fun key => key⟩ (queryJob.toDict (fun _ => "") queryEnvelope)) []).2.map fun m =>
        (m.exchange, m.routingKey, parseTask jsonNumbers "drawn" m.body)) =
      (((Draw.tasksOf ⟨none, fun key => key⟩ queryJob).takeWhile fun _ => true).map fun d =>
        (d.exchange, d.routingKey, some d.task.parsed)) :=
  dispatched_over_wire lawful_jsonNumbers (fun _ => "") queryEnvelope ⟨none, fun key => key⟩
    (fun _ => .ok ()) "drawn" rfl

end RagPipeline
