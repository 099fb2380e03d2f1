import RagPipeline.Search.Pipeline

namespace RagPipeline
open Coro

/-- `int(c, 16)` of one ASCII digit. -/
def hexDigit (c : Char) : Option ℕ :=
  if '0' ≤ c ∧ c ≤ '9' then some (c.toNat - '0'.toNat)
  else if 'a' ≤ c ∧ c ≤ 'f' then some (c.toNat - 'a'.toNat + 10)
  else if 'A' ≤ c ∧ c ≤ 'F' then some (c.toNat - 'A'.toNat + 10)
  else none

/-- The digits after the first; one underscore may stand before each. -/
def hexFrom (acc : ℕ) : List Char → Option ℕ
  | [] => some acc
  | '_' :: c :: cs => (hexDigit c).bind fun d => hexFrom (16 * acc + d) cs
  | c :: cs => (hexDigit c).bind fun d => hexFrom (16 * acc + d) cs

def hexMagnitude (cs : List Char) : Option ℕ :=
  let digits := match cs with
    | '0' :: 'x' :: '_' :: rest | '0' :: 'X' :: '_' :: rest => rest
    | '0' :: 'x' :: rest | '0' :: 'X' :: rest => rest
    | rest => rest
  match digits with
  | [] => none
  | c :: rest => (hexDigit c).bind fun d => hexFrom d rest

/-- `int(s, 16)` of an ASCII string; `none` is its ValueError. -/
def intBase16 (s : String) : Option ℤ :=
  match (strip s).toList with
  | '-' :: cs => (hexMagnitude cs).map fun n => -(n : ℤ)
  | '+' :: cs => (hexMagnitude cs).map fun n => (n : ℤ)
  | cs => (hexMagnitude cs).map fun n => (n : ℤ)

/-- `format(n, "032x")` and `format(n, "016x")`. -/
def formatHex (width : ℕ) (n : ℤ) : String :=
  let digits := Nat.toDigits 16 n.natAbs
  let sign := if n < 0 then ['-'] else []
  String.ofList (sign ++ List.replicate (width - sign.length - digits.length) '0' ++ digits)

structure SpanContext where
  traceId : ℤ
  spanId : ℤ
deriving DecidableEq

namespace SpanContext

/-- `is_valid`. -/
def Valid (ctx : SpanContext) : Prop := ctx.traceId ≠ 0 ∧ ctx.spanId ≠ 0

instance (ctx : SpanContext) : Decidable ctx.Valid := inferInstanceAs (Decidable (_ ∧ _))

def traceIdHex (ctx : SpanContext) : String := formatHex 32 ctx.traceId

/-- What `current_trace_ids` finds while the span is active. -/
def ids (ctx : SpanContext) : Option SpanIds :=
  if ctx.Valid then some ⟨ctx.traceIdHex, formatHex 16 ctx.spanId⟩ else none

end SpanContext

/-- The parent of the next span, if the ids make a valid context. -/
def extractTraceContext (traceIdHex parentSpanIdHex : Option String) : Option SpanContext :=
  (truthy traceIdHex).bind fun hex => (intBase16 hex).bind fun traceId =>
    let spanId := ((truthy parentSpanIdHex).bind intBase16).getD 0
    if SpanContext.Valid ⟨traceId, spanId⟩ then some ⟨traceId, spanId⟩ else none

/-- `start_as_current_span` where no span is active: the ids are drawn, and a parent gives its
trace. -/
def startSpan (drawn : SpanContext) (parent : Option SpanContext) : SpanContext where
  traceId := (parent.map SpanContext.traceId).getD drawn.traceId
  spanId := drawn.spanId

def AnyTask.base : AnyTask → BaseTask
  | .chunk t => t.toBaseTask
  | .embed t => t.toBaseTask
  | .infer t => t.toBaseTask
  | .searchRun t => t.toBaseTask
  | .searchRank t => t.toBaseTask
  | .searchFinalize t => t.toBaseTask

def Event.traceId : Event → Option String
  | .postSynced e => e.traceId
  | .chunksCreated e => e.traceId
  | .embeddingCompleted e => e.traceId
  | .searchJobCreated e => e.traceId
  | .searchQueryEmbedded e => e.traceId
  | .searchCandidatesRetrieved e => e.traceId
  | .searchJobCompleted e => e.traceId

/-- The events and tasks of a job so far, and the spans its handlers opened. -/
structure TracedJob where
  events : List Event
  tasks : List AnyTask
  spans : List SpanContext

/-- An event may be dispatched and a task handled any number of times, and everything that a
handler awaits may fail. -/
inductive TracedStep where
  | dispatch (i : ℕ) (taskId : String)
  | handle (i : ℕ) (modelName : String) (ωq : EmbedOracle) (ωj : JobOracle)

def EmbedOp.published : EmbedOp → Option Event
  | .publish e => some e
  | _ => none

def JobOp.published : JobOp → Option Event
  | .publish e => some e
  | _ => none

def SearchApiOp.published : SearchApiOp → Option Event
  | .publish e => some e
  | _ => none

/-- The events that handling the task publishes, inside its span; `none` if no handler of the search
pipeline takes the task. -/
def handlerEvents (modelName : String) (ωq : EmbedOracle) (ωj : JobOracle)
    (task : AnyTask) : Option (SpanContext → List Event) :=
  match task with
  | .searchRun t => some fun _ => (run (noting ωj JobOp.published) (SearchHandler.handle t) []).2
  | .searchRank t => some fun _ => (run (noting ωj JobOp.published) (RerankHandler.handle t) []).2
  | .searchFinalize t =>
    some fun _ => (run (noting ωj JobOp.published) (SearchFinalizeHandler.handle t) []).2
  | _ => (GpuEmbedWorker.asQueryTask task).map fun t span =>
    (run (noting ωq EmbedOp.published) (embedQuery embedConfigs span.ids t modelName) []).2

namespace TracedJob

/-- The task that a step hands to its handler, and what the handler then publishes. -/
def taken (s : TracedJob) : TracedStep → Option (AnyTask × (SpanContext → List Event))
  | .dispatch _ _ => none
  | .handle i modelName ωq ωj =>
    (s.tasks[i]?).bind fun task =>
      (handlerEvents modelName ωq ωj task).map fun events => (task, events)

variable (draws : ℕ → SpanContext)

def step (s : TracedJob) (i : TracedStep) : TracedJob :=
  match i with
  | .dispatch i taskId =>
    { s with
      tasks := s.tasks ++ (((s.events[i]?).bind (dispatched taskId)).map Dispatch.task).toList }
  | .handle .. =>
    match s.taken i with
    | none => s
    | some (task, events) =>
      let parent := extractTraceContext task.base.traceId task.base.parentSpanId
      let span := startSpan (draws s.spans.length) parent
      { s with
        events := s.events ++ events span
        spans := s.spans ++ [span] }

def after (events : List Event) (steps : List TracedStep) : TracedJob :=
  steps.foldl (step draws) ⟨events, [], []⟩

/-- The spans, events and tasks of the job all have the trace of `root`. -/
structure OneTrace (root : SpanContext) (s : TracedJob) : Prop where
  spans : ∀ span ∈ s.spans, span.traceId = root.traceId
  events : ∀ e ∈ s.events, e.traceId = some root.traceIdHex
  tasks : ∀ t ∈ s.tasks, t.base.traceId = some root.traceIdHex

def Handles (s : TracedJob) (i : TracedStep) : Prop := s.taken i ≠ none

end TracedJob

/-- A span without a parent gets a trace that is not the one of `root`. -/
structure FreshTraces (root : SpanContext) (draws : ℕ → SpanContext) : Prop where
  valid : root.Valid
  fresh : ∀ n, (draws n).traceId ≠ root.traceId

/-- Without the id of a parent span there is no parent. -/
theorem extractTraceContext_none (traceIdHex : Option String) :
    extractTraceContext traceIdHex none = none := by
  simp [extractTraceContext, truthy, SpanContext.Valid]

section Job

variable {draws : ℕ → SpanContext} {root : SpanContext} {s : TracedJob}

theorem base_of_dispatched {taskId : String} {e : Event} {d : Dispatch}
    (h : dispatched taskId e = some d) :
    d.task.base.traceId = e.traceId ∧ d.task.base.parentSpanId = none := by
  cases e with
  | searchJobCreated e =>
    obtain ⟨cfg, -, rfl⟩ := Option.map_eq_some_iff.mp h
    exact ⟨rfl, rfl⟩
  | searchQueryEmbedded e =>
    obtain rfl := Option.some.inj h
    exact ⟨rfl, rfl⟩
  | searchCandidatesRetrieved e =>
    simp only [dispatched, SearchDispatcher.candidatesRetrieved] at h
    split_ifs at h
    · obtain ⟨cfg, -, rfl⟩ := Option.map_eq_some_iff.mp h
      exact ⟨rfl, rfl⟩
    · obtain rfl := Option.some.inj h
      exact ⟨rfl, rfl⟩
  | postSynced e => cases h
  | chunksCreated e => cases h
  | embeddingCompleted e => cases h
  | searchJobCompleted e => cases h

structure Unhandled (root : SpanContext) (s : TracedJob) : Prop where
  oneTrace : s.OneTrace root
  parents : ∀ t ∈ s.tasks, t.base.parentSpanId = none

theorem Unhandled.dispatch (h : Unhandled root s) (i : ℕ) (taskId : String) :
    Unhandled root (s.step draws (.dispatch i taskId)) := by
  have hnew : ∀ t ∈ (((s.events[i]?).bind (dispatched taskId)).map Dispatch.task).toList,
      t.base.traceId = some root.traceIdHex ∧ t.base.parentSpanId = none := by
    intro t ht
    rw [Option.mem_toList, Option.map_eq_some_iff] at ht
    obtain ⟨d, hd, rfl⟩ := ht
    obtain ⟨e, he, hdispatch⟩ := Option.bind_eq_some_iff.mp hd
    obtain ⟨htrace, hparent⟩ := base_of_dispatched hdispatch
    rw [htrace]
    exact ⟨h.oneTrace.events e (List.mem_of_getElem? he), hparent⟩
  refine ⟨⟨h.oneTrace.spans, h.oneTrace.events, fun t ht => ?_⟩, fun t ht => ?_⟩
  · obtain ht | ht := List.mem_append.mp ht
    · exact h.oneTrace.tasks t ht
    · exact (hnew t ht).1
  · obtain ht | ht := List.mem_append.mp ht
    · exact h.parents t ht
    · exact (hnew t ht).2

theorem mem_tasks_of_taken {i : TracedStep} {task : AnyTask} {events : SpanContext → List Event}
    (h : s.taken i = some (task, events)) : task ∈ s.tasks := by
  cases i with
  | dispatch i taskId => cases h
  | handle i modelName ωq ωj =>
    obtain ⟨task', htask, hevents⟩ := Option.bind_eq_some_iff.mp h
    obtain ⟨events', -, he⟩ := Option.map_eq_some_iff.mp hevents
    obtain ⟨rfl, -⟩ := Prod.mk.inj he
    exact List.mem_of_getElem? htask

/-- A step that hands no task over keeps the trace; the first one that does opens a span in another
trace. -/
theorem Unhandled.step (hfresh : FreshTraces root draws) (h : Unhandled root s) (i : TracedStep) :
    (¬ s.Handles i ∧ Unhandled root (s.step draws i)) ∨
      (s.Handles i ∧ ¬ (s.step draws i).OneTrace root) := by
  cases i with
  | dispatch i taskId => exact .inl ⟨absurd rfl, h.dispatch i taskId⟩
  | handle i modelName ωq ωj =>
    unfold TracedJob.step TracedJob.Handles
    cases htaken : s.taken (.handle i modelName ωq ωj) with
    | none => exact .inl ⟨absurd rfl, h⟩
    | some taken =>
      obtain ⟨task, events⟩ := taken
      refine .inr ⟨nofun, fun hone => ?_⟩
      have hparent := h.parents task (mem_tasks_of_taken htaken)
      have hspan := hone.spans _ (List.mem_append_right _ (List.mem_singleton_self _))
      rw [hparent, extractTraceContext_none] at hspan
      exact hfresh.fresh _ hspan

end Job

section Requests

variable {ω : (op : SearchApiOp) → Except SearchApiExc op.Ans}

theorem run_requestedProfile_noting (req : SearchRequest) (events : List Event) :
    (run (noting ω SearchApiOp.published) (requestedProfile req) events).2 = events := by
  unfold requestedProfile
  split_ifs
  · simp only
    cases rerankConfigs.get? ((truthy req.rerankProfile).getD "default") with
    | none => rfl
    | some cfg =>
      simp only [run_bind, run_call, noting]
      cases ω (.checkReranker cfg) with
      | error e => rfl
      | ok availability =>
        simp only [SearchApiOp.published, Option.toList_none, List.append_nil]
        split_ifs <;> rfl
  · rfl

theorem unhandled_of_createSearch {root : SpanContext} (hroot : root.Valid) {req : SearchRequest}
    {jobId : String} {events : List Event}
    (hcreate : run (noting ω SearchApiOp.published) (createSearch root.ids req) [] =
      (.ok jobId, events)) : Unhandled root ⟨events, [], []⟩ := by
  have hids : (currentTraceIds root.ids).1 = some root.traceIdHex := by
    rw [SpanContext.ids, if_pos hroot]
    rfl
  suffices hevents : ∀ e ∈ events, e.traceId = some root.traceIdHex from
    ⟨⟨by simp, hevents, by simp⟩, by simp⟩
  unfold createSearch at hcreate
  cases hcfg : embedConfigs.get? req.chunkType with
  | none =>
    rw [hcfg] at hcreate
    cases hcreate
  | some cfg =>
    rw [hcfg] at hcreate
    obtain ⟨found, s₁, htable, hrest⟩ := run_bind_ok _ hcreate
    obtain ⟨-, rfl⟩ := run_call_noting htable
    cases found with
    | false => cases hrest
    | true =>
      obtain ⟨profile, s₂, hprofile, hrest⟩ := run_bind_ok _ hrest
      obtain rfl := (congrArg Prod.snd hprofile).symm.trans (run_requestedProfile_noting req _)
      obtain ⟨id, s₃, hjob, hrest⟩ := run_bind_ok _ hrest
      obtain ⟨-, rfl⟩ := run_call_noting hjob
      obtain ⟨u, s₄, hpublish, hrest⟩ := run_bind_ok _ hrest
      obtain ⟨-, rfl⟩ := run_call_noting hpublish
      obtain ⟨-, rfl⟩ := Prod.mk.inj hrest
      simp [SearchApiOp.published, Event.traceId, hids]

variable {draws : ℕ → SpanContext} {root : SpanContext}

/-- A job keeps the trace of its request as long as no handler takes a task of it. -/
theorem one_trace_iff (hfresh : FreshTraces root draws) {req : SearchRequest} {jobId : String}
    {events : List Event}
    (hcreate : run (noting ω SearchApiOp.published) (createSearch root.ids req) [] =
      (.ok jobId, events)) (steps : List TracedStep) :
    (∀ pre, pre <+: steps → (TracedJob.after draws events pre).OneTrace root) ↔
      ∀ pre i, pre ++ [i] <+: steps → ¬ (TracedJob.after draws events pre).Handles i := by
  have hstart := unhandled_of_createSearch hfresh.valid hcreate
  have hstep : ∀ s i, Unhandled root s →
      ((s.step draws i).OneTrace root ↔ ¬ s.Handles i) := by
    intro s i hs
    obtain ⟨hno, hnext⟩ | ⟨htaken, hlost⟩ := hs.step hfresh i
    · exact iff_of_true hnext.oneTrace hno
    · exact iff_of_false hlost (not_not_intro htaken)
  have hkeep : ∀ s i, Unhandled root s → ¬ s.Handles i → Unhandled root (s.step draws i) := by
    intro s i hs hno
    obtain ⟨-, hnext⟩ | ⟨htaken, -⟩ := hs.step hfresh i
    · exact hnext
    · exact absurd htaken hno
  have hruns : Runs.Each (fun _ _ t => TracedJob.OneTrace root t) ⟨events, [], []⟩
        (Runs.trace (TracedJob.step draws) ⟨events, [], []⟩ steps) ↔
      Runs.Each (fun s i _ => ¬ s.Handles i) ⟨events, [], []⟩
        (Runs.trace (TracedJob.step draws) ⟨events, [], []⟩ steps) :=
    Runs.each_trace_congr hstep hkeep hstart steps
  unfold TracedJob.after
  rw [Runs.forall_prefix_iff, and_iff_right hstart.oneTrace, hruns, Runs.each_trace_prefix]

end Requests

/-- The tables and rerankers are there, and the job gets the id `job`. -/
def grantsSearch : (op : SearchApiOp) → Except SearchApiExc op.Ans
  | .tableExists _ => .ok true
  | .checkReranker _ => .ok ⟨true, ""⟩
  | .createJob .. => .ok "job"
  | .publish _ => .ok ()

def requestSpan : SpanContext := ⟨1, 1⟩

def laterSpans (n : ℕ) : SpanContext := ⟨n + 2, n + 2⟩

theorem freshTraces_laterSpans : FreshTraces requestSpan laterSpans where
  valid := by decide
  fresh n := by
    simp only [laterSpans, requestSpan]
    omega

def tracedRequest : Except SearchApiExc String × List Event :=
  run (noting grantsSearch SearchApiOp.published) (createSearch requestSpan.ids bodyRequest) []

theorem tracedRequest_eq : tracedRequest = (.ok "job", tracedRequest.2) :=
  Prod.ext (by decide +kernel) rfl

def embeddedRun : List TracedStep :=
  [.dispatch 0 "embed",
    .handle 0 "BAAI/bge-base-en-v1.5" (encodes (.ok [[1]])) emptyAnswers]

theorem one_trace_iff_embedded_run :
    (∀ pre, pre <+: embeddedRun →
      (TracedJob.after laterSpans tracedRequest.2 pre).OneTrace requestSpan) ↔
      ∀ pre i, pre ++ [i] <+: embeddedRun →
        ¬ (TracedJob.after laterSpans tracedRequest.2 pre).Handles i :=
  one_trace_iff freshTraces_laterSpans tracedRequest_eq embeddedRun

/-- The span of `embed_query` is in a trace of its own. -/
theorem embedding_leaves_trace :
    ¬ ∀ pre, pre <+: embeddedRun →
      (TracedJob.after laterSpans tracedRequest.2 pre).OneTrace requestSpan := by
  intro h
  have hspans : (TracedJob.after laterSpans tracedRequest.2 embeddedRun).spans = [⟨2, 2⟩] := by
    decide +kernel
  have hend := (h embeddedRun (List.prefix_refl _)).spans ⟨2, 2⟩ (by rw [hspans]; decide)
  revert hend
  decide

end RagPipeline
