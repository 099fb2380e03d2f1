import RagPipeline.Dispatchers.Validation
import RagPipeline.Lib.Interleave

namespace RagPipeline
open Coro

/-- The five loops that `main` gathers. -/
inductive DispatchLoop where
  | postSynced | chunksCreated | jobCreated | candidatesRetrieved | queryEmbedded
deriving DecidableEq

def DispatchLoop.body (p : Pydantic) (draw : Draw) (event : Json) : DispatchLoop → PublishCoro Unit
  | postSynced => handlePostSynced p draw event
  | chunksCreated => handleChunksCreated p draw event
  | jobCreated => publishUnguarded (jobCreatedMessage draw event)
  | candidatesRetrieved => publishUnguarded (candidatesRetrievedMessage p draw event)
  | queryEmbedded => publishUnguarded (queryEmbeddedMessage draw event)

/-- A publish of a loop while it handles its `n`-th event. -/
structure Publish where
  loop : DispatchLoop
  n : ℕ
  message : Message

/-- The events on each loop's topic, and what is drawn and what the broker answers for each. -/
structure Feed where
  events : DispatchLoop → List Json
  draw : DispatchLoop → ℕ → Draw
  outcome : Publish → Except PyExc Unit

abbrev LoopCoro (α : Type) := Coro Publish (fun _ => Unit) PyExc α

/-- `async for event in subscribe(…)`, from the `n`-th event on. -/
def DispatchLoop.runFrom (p : Pydantic) (draw : ℕ → Draw) (loop : DispatchLoop) :
    ℕ → List Json → LoopCoro Unit
  | _, [] => ret ()
  | n, event :: events => do
    embed (Publish.mk loop n) (loop.body p (draw n) event)
    runFrom p draw loop (n + 1) events

namespace Feed

variable (p : Pydantic) (f : Feed)

def runLoop (loop : DispatchLoop) : LoopCoro Unit := loop.runFrom p (f.draw loop) 0 (f.events loop)

def broker : World Publish (fun _ => Unit) PyExc (List Publish) := noting f.outcome some

/-- The gathered loops after they took turns as the schedule says. An exception that leaves a loop
leaves `gather` too, and `main` closes the connection. -/
def gathered (schedule : List DispatchLoop) :
    Interleave.Pool DispatchLoop Publish (fun _ => Unit) PyExc Unit (List Publish) :=
  Interleave.run f.broker (Interleave.start (f.runLoop p) []) schedule

end Feed

/-- The payload is that of an event of the loop's topic. -/
def DispatchLoop.Reads (event : Json) : DispatchLoop → Event → Prop
  | postSynced, .postSynced e => ReadsPost event e
  | chunksCreated, .chunksCreated e => ReadsChunks event e
  | jobCreated, .searchJobCreated e => ReadsJobCreated event e
  | candidatesRetrieved, .searchCandidatesRetrieved e => ReadsCandidates event e
  | queryEmbedded, .searchQueryEmbedded e => ReadsQueryEmbedded event e
  | _, _ => False

def Draw.tasksOf (draw : Draw) : Event → List Dispatch
  | .postSynced e =>
    PostDispatcher.dispatchChunkTasks
      ⟨fun _ => draw.span, fun _ taskType => draw.taskId taskType.key⟩ e
  | .chunksCreated e =>
    (ChunkDispatcher.dispatchEmbedding embedConfigs draw.span (draw.taskId "chunk") e).toList
  | .searchJobCreated e =>
    (SearchDispatcher.jobCreated embedConfigs (draw.taskId "query") e).toList
  | .searchCandidatesRetrieved e =>
    (SearchDispatcher.candidatesRetrieved rerankConfigs
      (draw.taskId (if e.rerank then "search_rank" else "search_finalize")) e).toList
  | .searchQueryEmbedded e => [EmbeddingDispatcher.queryEmbedded (draw.taskId "search_run") e]
  | _ => []

namespace Feed

variable (p : Pydantic) (f : Feed)

/-- No exception leaves a loop, and given enough turns each has published the tasks of all its
well-formed events whose publishes succeed. -/
structure Isolated : Prop where
  contained : ∀ schedule loop exc, (f.gathered p schedule).progs loop ≠ raise exc
  served : ∀ loop, ∃ turns, ∀ schedule, turns ≤ schedule.count loop → ∀ n event e,
    (f.events loop)[n]? = some event → loop.Reads event e →
    (∀ d ∈ (f.draw loop n).tasksOf e, f.outcome ⟨loop, n, d.message⟩ = .ok ()) →
      ∀ d ∈ (f.draw loop n).tasksOf e, ⟨loop, n, d.message⟩ ∈ (f.gathered p schedule).world

/-- The message that a loop makes of its event is published. -/
def Accepts (loop : DispatchLoop) (n : ℕ) (m : Option (Option Message)) : Prop :=
  ∀ message, m = some (some message) → f.outcome ⟨loop, n, message⟩ = .ok ()

/-- The loop gets over its `n`-th event. -/
def Passes (n : ℕ) (event : Json) : DispatchLoop → Prop
  | .postSynced | .chunksCreated => IsObject event
  | .jobCreated => JobCreatedTaken event ∧
      f.Accepts .jobCreated n (jobCreatedMessage (f.draw .jobCreated n) event)
  | .candidatesRetrieved => CandidatesRetrievedTaken p event ∧
      f.Accepts .candidatesRetrieved n
        (candidatesRetrievedMessage p (f.draw .candidatesRetrieved n) event)
  | .queryEmbedded => QueryEmbeddedTaken event ∧
      f.Accepts .queryEmbedded n (queryEmbeddedMessage (f.draw .queryEmbedded n) event)

/-- The loop's `n`-th event by itself. -/
def bodyRun (loop : DispatchLoop) (n : ℕ) (event : Json) : Except PyExc Unit × List Publish :=
  run (fun m => f.broker ⟨loop, n, m⟩) (loop.body p (f.draw loop n) event) []

end Feed

section OneEvent

variable {p : Pydantic} {f : Feed} {loop : DispatchLoop} {n : ℕ} {event : Json}

theorem ok_publishUnguarded_iff {w : World Message (fun _ => Unit) PyExc (List Publish)}
    {s : List Publish} (m : Option (Option Message)) :
    (run w (publishUnguarded m) s).1 = .ok () ↔
      m.isSome ∧ ∀ message, m = some (some message) → (w message s).1 = .ok () := by
  rcases m with _ | _ | message
  · simp [publishUnguarded]
  · simp [publishUnguarded]
  · simp [publishUnguarded]

theorem ok_raising_iff {w : World Message (fun _ => Unit) PyExc (List Publish)} {s : List Publish}
    {x : Option Unit} : (run w (raising x) s).1 = .ok () ↔ x.isSome := by
  cases x <;> simp

/-- The `try` block covers all but the `except` clause itself, which needs `event.get`. -/
theorem ok_guarded_iff {w : World Message (fun _ => Unit) PyExc (List Publish)} {s : List Publish}
    (dispatch : PublishCoro Unit) :
    (run w ((raising (recordQueueLag event) >>= fun _ => dispatch).attempt fun _ =>
      raising ((event.get? "post_id").map fun _ => ())) s).1 = .ok () ↔ IsObject event := by
  have hget : ((event.get? "post_id").map fun _ => ()).isSome ↔ IsObject event := by
    rw [Option.isSome_map, isSome_get?]
  rw [run_attempt]
  constructor
  · intro h
    by_contra hobj
    have hlag : recordQueueLag event = none := by
      rw [recordQueueLag, Option.map_eq_none_iff, ← Option.not_isSome_iff_eq_none, isSome_get?]
      exact hobj
    rw [hlag] at h
    exact hobj (hget.mp (ok_raising_iff.mp h))
  · intro hobj
    rcases run w (raising (recordQueueLag event) >>= fun _ => dispatch) s with ⟨_ | _, t⟩
    · exact ok_raising_iff.mpr (hget.mpr hobj)
    · rfl

theorem ok_bodyRun_iff : (f.bodyRun p loop n event).1 = .ok () ↔ f.Passes p n event loop := by
  unfold Feed.bodyRun
  cases loop with
  | postSynced => exact ok_guarded_iff _
  | chunksCreated => exact ok_guarded_iff _
  | jobCreated => exact (ok_publishUnguarded_iff _).trans (and_congr_left' isSome_jobCreatedMessage)
  | candidatesRetrieved =>
    exact (ok_publishUnguarded_iff _).trans (and_congr_left' isSome_candidatesRetrievedMessage)
  | queryEmbedded =>
    exact (ok_publishUnguarded_iff _).trans (and_congr_left' isSome_queryEmbeddedMessage)

end OneEvent

section Loops

variable {p : Pydantic} {f : Feed} {loop : DispatchLoop} {n : ℕ}

theorem run_runFrom_cons (event : Json) (events : List Json) (s : List Publish) :
    run f.broker (loop.runFrom p (f.draw loop) n (event :: events)) s =
      match f.bodyRun p loop n event with
      | (.ok _, t) => run f.broker (loop.runFrom p (f.draw loop) (n + 1) events) (s ++ t)
      | (.error e, t) => (.error e, s ++ t) := by
  have hworld : (fun m => f.broker ⟨loop, n, m⟩ : World Message (fun _ => Unit) PyExc _) =
      noting (fun m => f.outcome ⟨loop, n, m⟩) fun m => some ⟨loop, n, m⟩ := by
    funext m t
    simp only [Feed.broker, noting]
    cases f.outcome ⟨loop, n, m⟩ <;> rfl
  have hbody : run (fun m => f.broker ⟨loop, n, m⟩) (loop.body p (f.draw loop n) event) s =
      ((f.bodyRun p loop n event).1, s ++ (f.bodyRun p loop n event).2) := by
    rw [Feed.bodyRun, hworld]
    exact run_noting _ s
  rw [DispatchLoop.runFrom, run_bind, run_embed, hbody]
  rcases f.bodyRun p loop n event with ⟨_ | _, t⟩ <;> rfl

/-- The first event is the `n`-th. -/
theorem forall_getElem?_cons {event : Json} {events : List Json} {P : ℕ → Json → Prop} :
    (∀ i e, (event :: events)[i]? = some e → P (n + i) e) ↔
      P n event ∧ ∀ i e, events[i]? = some e → P (n + 1 + i) e := by
  constructor
  · intro h
    refine ⟨h 0 event rfl, fun i e he => ?_⟩
    rw [Nat.add_right_comm]
    exact h (i + 1) e he
  · rintro ⟨hfirst, hrest⟩ (_ | i) e he
    · obtain rfl := Option.some.inj he
      exact hfirst
    · rw [← Nat.add_assoc, Nat.add_right_comm]
      exact hrest i e he

theorem ok_runFrom_iff {events : List Json} {s : List Publish} :
    (run f.broker (loop.runFrom p (f.draw loop) n events) s).1 = .ok () ↔
      ∀ i event, events[i]? = some event → f.Passes p (n + i) event loop := by
  induction events generalizing n s with
  | nil => exact iff_of_true rfl (by simp)
  | cons event events ih =>
    refine Iff.trans ?_ (forall_getElem?_cons (P := fun i e => f.Passes p i e loop)).symm
    rw [run_runFrom_cons, ← ok_bodyRun_iff]
    rcases f.bodyRun p loop n event with ⟨_ | _, t⟩
    · simp
    · simp [ih]

theorem subset_runFrom {events : List Json} {s : List Publish} :
    s ⊆ (run f.broker (loop.runFrom p (f.draw loop) n events) s).2 := by
  rw [Feed.broker, run_noting]
  exact List.subset_append_left _ _

/-- A loop that goes on to the end has published what each of its events asks for. -/
theorem bodyRun_subset_runFrom {events : List Json} {s : List Publish}
    (h : ∀ i event, events[i]? = some event → f.Passes p (n + i) event loop) :
    ∀ i event, events[i]? = some event → (f.bodyRun p loop (n + i) event).2 ⊆
      (run f.broker (loop.runFrom p (f.draw loop) n events) s).2 := by
  induction events generalizing n s with
  | nil => simp
  | cons event events ih =>
    obtain ⟨hfirst, hrest⟩ := (forall_getElem?_cons (P := fun i e => f.Passes p i e loop)).mp h
    refine (forall_getElem?_cons (P := fun i e => (f.bodyRun p loop i e).2 ⊆ _)).mpr ?_
    have hok := ok_bodyRun_iff.mpr hfirst
    rw [run_runFrom_cons]
    rcases hbody : f.bodyRun p loop n event with ⟨_ | _, t⟩
    · rw [hbody] at hok
      cases hok
    · exact ⟨fun x hx => subset_runFrom (List.mem_append_right s hx), ih hrest⟩

end Loops

section WellFormed

variable {p : Pydantic} {draw : Draw} {event : Json} {f : Feed} {loop : DispatchLoop} {n : ℕ}

theorem broker_of_ok {m : Message} (h : f.outcome ⟨loop, n, m⟩ = .ok ()) (s : List Publish) :
    f.broker ⟨loop, n, m⟩ s = (.ok (), s ++ [⟨loop, n, m⟩]) := by
  rw [Feed.broker, noting, h]
  rfl

/-- As long as the broker accepts them, all the tasks that a post asks for are published. -/
theorem run_routeTasksRaw (hp : p.Lawful) {e : PostSyncedEvent} (h : ReadsPost event e)
    {d : PostDispatcher} (hspan : d.span e = draw.span)
    (hid : ∀ taskType, d.taskId e taskType = draw.taskId taskType.key)
    (routes : List (ChunkTaskType × Bool)) (s : List Publish)
    (hok : ∀ t ∈ d.routeTasks e routes, f.outcome ⟨loop, n, t.message⟩ = .ok ()) :
    (run (fun m => f.broker ⟨loop, n, m⟩) (routeTasksRaw p draw event
        (propagateRaw draw.span (event.item? "trace_id")) (.int e.postId) (.str e.postTable) routes)
      s).2 = s ++ (d.routeTasks e routes).map fun t => ⟨loop, n, t.message⟩ := by
  induction routes generalizing s with
  | nil => simp [routeTasksRaw, PostDispatcher.routeTasks]
  | cons route routes ih =>
    obtain ⟨taskType, changed⟩ := route
    cases changed with
    | false => exact ih s hok
    | true =>
      rw [routeTasksRaw, chunkTaskRaw_of_reads hp h]
      rw [PostDispatcher.routeTasks] at hok ⊢
      cases hcfg : embedConfigs.get? taskType.key with
      | none => simp
      | some cfg =>
        simp only [hcfg, hspan, hid] at hok ⊢
        obtain ⟨hfirst, hrest⟩ := List.forall_mem_cons.mp hok
        have hbroker := broker_of_ok hfirst s
        simp only [Dispatch.message, AnyTask.json] at hbroker
        simp only [Option.map_some, raising_some, ret_bind, run_bind, run_call, hbroker]
        rw [ih _ hrest, List.map_cons, List.append_assoc]
        rfl

/-- The `except` clause publishes nothing. -/
theorem snd_run_attempt_raising {w : World Message (fun _ => Unit) PyExc (List Publish)}
    (dispatch : PublishCoro Unit) (x : Option Unit) (s : List Publish) :
    (run w (dispatch.attempt fun _ => raising x) s).2 = (run w dispatch s).2 := by
  rw [run_attempt]
  rcases run w dispatch s with ⟨_ | _, t⟩
  · cases x <;> rfl
  · rfl

theorem mem_run_publishUnguarded {d : Dispatch} {o : Option Dispatch} (hd : d ∈ o.toList)
    (hok : ∀ d ∈ o.toList, f.outcome ⟨loop, n, d.message⟩ = .ok ()) :
    ⟨loop, n, d.message⟩ ∈ (run (fun m => f.broker ⟨loop, n, m⟩)
      (publishUnguarded (some (o.map Dispatch.message))) []).2 := by
  obtain rfl := Option.mem_toList.mp hd
  simp [publishUnguarded, broker_of_ok (hok d hd)]

/-- A well-formed event whose publishes succeed has its tasks published. -/
theorem tasksOf_mem_bodyRun (hp : p.Lawful) {e : Event} (h : loop.Reads event e)
    (hok : ∀ d ∈ (f.draw loop n).tasksOf e, f.outcome ⟨loop, n, d.message⟩ = .ok ()) :
    ∀ d ∈ (f.draw loop n).tasksOf e, ⟨loop, n, d.message⟩ ∈ (f.bodyRun p loop n event).2 := by
  intro d hd
  unfold Feed.bodyRun
  cases loop with
  | postSynced =>
    cases e with
    | postSynced e =>
      have hread : ReadsPost event e := h
      have hlag := recordQueueLag_eq (isObject_of_item? hread.postId)
      simp only [DispatchLoop.body, handlePostSynced, snd_run_attempt_raising, hlag,
        routesRaw_of_reads hread, raising_some, ret_bind]
      rw [run_routeTasksRaw hp hread rfl (fun _ => rfl) _ _ hok]
      exact List.mem_append_right _ (List.mem_map_of_mem hd)
    | _ => cases h
  | chunksCreated =>
    cases e with
    | chunksCreated e =>
      have hread : ReadsChunks event e := h
      have hlag := recordQueueLag_eq (isObject_of_item? hread.postId)
      have hdispatch : ChunkDispatcher.dispatchEmbedding embedConfigs _ _ e = some d :=
        Option.mem_toList.mp hd
      have hbroker := broker_of_ok (hok d hd) []
      simp only [DispatchLoop.body, handleChunksCreated, snd_run_attempt_raising, hlag,
        embeddingMessage_of_reads hp hread, hdispatch, Option.map_some, raising_some, ret_bind,
        run_call, hbroker]
      exact List.mem_singleton_self _
    | _ => cases h
  | jobCreated =>
    cases e with
    | searchJobCreated e =>
      simp only [DispatchLoop.body, jobCreatedMessage_of_reads h]
      exact mem_run_publishUnguarded hd hok
    | _ => cases h
  | candidatesRetrieved =>
    cases e with
    | searchCandidatesRetrieved e =>
      simp only [DispatchLoop.body, candidatesRetrievedMessage_of_reads hp h]
      exact mem_run_publishUnguarded hd hok
    | _ => cases h
  | queryEmbedded =>
    cases e with
    | searchQueryEmbedded e =>
      simp only [DispatchLoop.body, queryEmbeddedMessage_of_reads h]
      exact mem_run_publishUnguarded (o := some _) hd hok
    | _ => cases h

end WellFormed

section Gathered

variable {p : Pydantic} {f : Feed}

/-- A loop goes on as if it ran by itself, and the broker has what it published. -/
theorem gathered_loop (schedule : List DispatchLoop) (loop : DispatchLoop) :
    (f.gathered p schedule).progs loop =
        (cut f.broker (schedule.count loop) (f.runLoop p loop) []).1 ∧
      (cut f.broker (schedule.count loop) (f.runLoop p loop) []).2 ⊆
        (f.gathered p schedule).world :=
  Interleave.run_noting (f.runLoop p) [] schedule loop

/-- The gathered loops isolate their events exactly when each loop gets over each of its events. -/
theorem isolated_iff (hp : p.Lawful) : f.Isolated p ↔
    ∀ loop n event, (f.events loop)[n]? = some event → f.Passes p n event loop := by
  have hpasses : (∀ loop n event, (f.events loop)[n]? = some event → f.Passes p n event loop) ↔
      ∀ loop, (run f.broker (f.runLoop p loop) []).1 = .ok () := by
    refine forall_congr' fun loop => ?_
    rw [Feed.runLoop, ok_runFrom_iff]
    simp only [Nat.zero_add]
  constructor
  · intro h
    rw [hpasses]
    intro loop
    -- with all the turns that the loop needs, it ends as it would by itself
    have hend := (gathered_loop (p := p) (f := f)
      (List.replicate (awaits f.broker (f.runLoop p loop) []) loop) loop).1
    rw [List.count_replicate_self, cut_of_awaits_le _ le_rfl] at hend
    cases hrun : (run f.broker (f.runLoop p loop) []).1 with
    | ok u => rfl
    | error e =>
      rw [hrun] at hend
      exact absurd hend (h.contained _ loop e)
  · intro h
    have hok := hpasses.mp h
    constructor
    · intro schedule loop exc hraised
      rw [(gathered_loop schedule loop).1] at hraised
      have hrun := run_cut f.broker (schedule.count loop) (f.runLoop p loop) []
      rw [hraised] at hrun
      have hexc := hok loop
      rw [← hrun] at hexc
      cases hexc
    · intro loop
      refine ⟨awaits f.broker (f.runLoop p loop) [], fun schedule hturns => ?_⟩
      intro n event e hget hread hout d hd
      have hworld := (gathered_loop (p := p) (f := f) schedule loop).2
      rw [cut_of_awaits_le _ hturns] at hworld
      apply hworld
      have hsub := bodyRun_subset_runFrom (n := 0) (s := []) (fun i event hi => by
        rw [Nat.zero_add]
        exact h loop i event hi) n event hget
      rw [Nat.zero_add] at hsub
      exact hsub (tasksOf_mem_bodyRun hp hread hout d hd)

end Gathered

def jsonNumbers : Pydantic where
  int
    | .int n => some n
    | _ => none
  float
    | .float q => some (.float q)
    | .int n => some (.float n)
    | .nonFinite name => some (.nonFinite name)
    | _ => none

theorem lawful_jsonNumbers : jsonNumbers.Lawful where
  int_int _ := rfl
  float_float _ := rfl

/-- A search job without a profile, and after it one that could be dispatched. -/
def unprofiledFeed : Feed where
  events
    | .jobCreated => [.obj [("query_job_id", .str "first"), ("query", .str "query")],
        .obj [("query_job_id", .str "second"), ("query", .str "query"),
          ("embedding_profile", .str "BAAI/bge-base-en-v1.5")]]
    | _ => []
  draw _ _ := ⟨none, fun key => key⟩
  outcome _ := .ok ()

theorem isolated_iff_unprofiled : unprofiledFeed.Isolated jsonNumbers ↔
    ∀ loop n event, (unprofiledFeed.events loop)[n]? = some event →
      unprofiledFeed.Passes jsonNumbers n event loop :=
  isolated_iff lawful_jsonNumbers

/-- The first job's exception leaves the loop. -/
theorem unprofiled_job_escapes : ¬ unprofiledFeed.Isolated jsonNumbers :=
  fun h => h.contained [] .jobCreated (.other "malformed event") rfl

end RagPipeline
