import RagPipeline.Api.Search
import RagPipeline.Config.Topology
import RagPipeline.Dispatchers
import RagPipeline.Handlers.Embed
import RagPipeline.Lib.Runs
import RagPipeline.Worker.Gpu

namespace RagPipeline
open Coro

/-- The job's row and undelivered events, and the tasks about it in the work queues. -/
structure SearchSystem where
  store : JobStore
  tasks : List (String × AnyTask)

/-- The topics that a dispatcher of the search pipeline subscribes to. -/
def subscribed : Event → Bool
  | .searchJobCreated _ | .searchQueryEmbedded _ | .searchCandidatesRetrieved _ => true
  | _ => false

def dispatched (taskId : String) : Event → Option Dispatch
  | .searchJobCreated e => SearchDispatcher.jobCreated embedConfigs taskId e
  | .searchQueryEmbedded e => some (EmbeddingDispatcher.queryEmbedded taskId e)
  | .searchCandidatesRetrieved e =>
    SearchDispatcher.candidatesRetrieved rerankConfigs taskId e
  | _ => none

/-- The exchange puts the task on every queue bound to its routing key. -/
def enqueued (d : Dispatch) : List (String × AnyTask) :=
  (deliveredTo ((bindings.get? d.exchange).getD []) d.routingKey).map fun q => (q, d.task)

def polledModel (queueName : String) : Option String :=
  ((uniqueQueues deployed).find? (·.2 = queueName)).map Prod.fst

/-- Database updates and event publishes succeed. -/
def reliable (ω : JobOracle) : JobOracle
  | .publish _ => .ok ()
  | op => ω op

def saveRow (jobs : JobTable) : EmbeddingRow → JobTable
  | .query row => jobs.update row.queryJobId (SearchJob.storeEmbedding row.embedding)
  | .chunk _ => jobs

/-- The world of `embed_query`: only `encode` may fail. -/
def queryWorld (ω : EmbedOracle) : World EmbedOp EmbedOp.Ans PyExc JobStore
  | .fetchTexts caller ids table, s => (ω (.fetchTexts caller ids table), s)
  | .encode texts, s => (ω (.encode texts), s)
  | .saveBatch rows, s => (.ok (), { s with jobs := rows.foldl saveRow s.jobs })
  | .publish e, s => (.ok (), { s with events := s.events ++ [e] })

/-- A turn of a dispatcher or of a worker. A worker's task leaves its queue, acked or nacked. -/
inductive SearchStep where
  | dispatch (i : ℕ) (taskId : String)
  /-- The GPU worker polls the task; `loads` tells whether its model could be loaded. -/
  | gpu (i : ℕ) (loads : Bool) (span : Option SpanIds) (ωq : EmbedOracle) (ωr : JobOracle)
  | cpu (i : ℕ) (ω : JobOracle)

/-- What handling a polled task does to the database and the event log. -/
def gpuHandle (span : Option SpanIds) (ωq : EmbedOracle) (ωr : JobOracle) (modelName : String)
    (task : AnyTask) (s : JobStore) : JobStore :=
  match task with
  | .searchRank t => (run (jobWorld (reliable ωr)) (RerankHandler.handle t) s).2
  | _ =>
    match GpuEmbedWorker.asQueryTask task with
    | some t => (run (queryWorld ωq) (embedQuery embedConfigs span t modelName) s).2
    | none => s

def cpuHandle (ω : JobOracle) : AnyTask → JobStore → JobStore
  | .searchRun t, s => (run (jobWorld (reliable ω)) (SearchHandler.handle t) s).2
  | .searchFinalize t, s => (run (jobWorld (reliable ω)) (SearchFinalizeHandler.handle t) s).2
  | _, s => s

namespace SearchSystem

def step (s : SearchSystem) : SearchStep → SearchSystem
  | .dispatch i taskId =>
    match s.store.events[i]? with
    | some e =>
      if subscribed e then
        { store := { s.store with events := s.store.events.eraseIdx i }
          tasks := s.tasks ++ ((dispatched taskId e).map enqueued).getD [] }
      else s
    | none => s
  | .gpu i loads span ωq ωr =>
    match s.tasks[i]? with
    | some (queueName, task) =>
      match polledModel queueName with
      | some modelName =>
        { store := if loads then gpuHandle span ωq ωr modelName task s.store else s.store
          tasks := s.tasks.eraseIdx i }
      | none => s
    | none => s
  | .cpu i ω =>
    match s.tasks[i]? with
    | some (queueName, task) =>
      if queueName = "cpu.search.run" ∨ queueName = "cpu.search.finalize" then
        { store := cpuHandle ω task s.store, tasks := s.tasks.eraseIdx i }
      else s
    | none => s

/-- With no undelivered event and no task left, the job is complete or failed. -/
def NotStranded (jobId : String) (s : SearchSystem) : Prop :=
  (∀ e ∈ s.store.events, subscribed e = false) → s.tasks = [] →
    ∀ j ∈ s.store.jobs jobId, j.status.terminal = true

/-- The model of a polled task loads, and the query of an embed task can be encoded. -/
def Works (s : SearchSystem) : SearchStep → Prop
  | .gpu i loads _ ωq _ =>
    ∀ queueName task modelName, s.tasks[i]? = some (queueName, task) →
      polledModel queueName = some modelName → loads = true ∧
        ∀ t query, task = .embed t → t.query = some query →
          ∃ v vs, ωq (.encode [queryText embedConfigs modelName query]) = .ok (v :: vs)
  | _ => True

end SearchSystem

structure Open (jobId : String) (jobs : JobTable) (job : SearchJob) : Prop where
  row : jobs jobId = some job
  isOpen : job.status.terminal = false
  reranker : job.RerankerKnown

structure Closed (jobId : String) (store : JobStore) (job : SearchJob) : Prop where
  row : store.jobs jobId = some job
  isClosed : job.status.terminal = true
  quiet : ∀ e ∈ store.events, subscribed e = false

inductive Phase (jobId : String) : SearchSystem → Prop
  | created {jobs : JobTable} {j : SearchJob} {e : SearchJobCreatedEvent} (h : Open jobId jobs j)
      (about : e.queryJobId = jobId) (query : e.query ≠ "")
      (profile : ∃ cfg ∈ embedConfigs.values, cfg.primary = e.embeddingProfile) :
      Phase jobId ⟨⟨jobs, [.searchJobCreated e]⟩, []⟩
  | embedding {jobs : JobTable} {j : SearchJob} {q query modelName : String} {t : EmbedTask}
      (h : Open jobId jobs j) (about : t.queryJobId = some jobId) (kind : t.taskType = .query)
      (asks : t.query = some query) (nonempty : query ≠ "")
      (polled : polledModel q = some modelName) :
      Phase jobId ⟨⟨jobs, []⟩, [(q, .embed t)]⟩
  | embedded {jobs : JobTable} {j : SearchJob} {e : SearchQueryEmbeddedEvent}
      (h : Open jobId jobs j) (about : e.queryJobId = jobId) :
      Phase jobId ⟨⟨jobs, [.searchQueryEmbedded e]⟩, []⟩
  | running {jobs : JobTable} {j : SearchJob} {t : SearchRunTask} (h : Open jobId jobs j)
      (about : t.jobId = jobId) :
      Phase jobId ⟨⟨jobs, []⟩, [("cpu.search.run", .searchRun t)]⟩
  | retrieved {jobs : JobTable} {j : SearchJob} {e : SearchCandidatesRetrievedEvent}
      (h : Open jobId jobs j) (about : e.queryJobId = jobId)
      (profile : e.rerank = true → (rerankConfigs.get? (rankProfile e)).isSome = true) :
      Phase jobId ⟨⟨jobs, [.searchCandidatesRetrieved e]⟩, []⟩
  | ranking {jobs : JobTable} {j : SearchJob} {q modelName : String} {t : SearchRankTask}
      (h : Open jobId jobs j) (about : t.jobId = jobId) (polled : polledModel q = some modelName) :
      Phase jobId ⟨⟨jobs, []⟩, [(q, .searchRank t)]⟩
  | finalizing {jobs : JobTable} {j : SearchJob} {t : SearchFinalizeTask} (h : Open jobId jobs j)
      (about : t.jobId = jobId) :
      Phase jobId ⟨⟨jobs, []⟩, [("cpu.search.finalize", .searchFinalize t)]⟩
  | closed {store : JobStore} {j : SearchJob} (h : Closed jobId store j) : Phase jobId ⟨store, []⟩

theorem embed_queues : ∀ cfg ∈ embedConfigs.values,
    deliveredTo ((bindings.get? "embedding").getD []) cfg.queue = [cfg.queue] ∧
      (polledModel cfg.queue).isSome = true := by
  decide

theorem rerank_queues : ∀ cfg ∈ rerankConfigs.values,
    deliveredTo ((bindings.get? "embedding").getD []) cfg.queue = [cfg.queue] ∧
      (polledModel cfg.queue).isSome = true := by
  decide

theorem search_queues : ∀ q ∈ ["cpu.search.run", "cpu.search.finalize"],
    deliveredTo ((bindings.get? "search").getD []) q = [q] ∧ polledModel q = none := by
  decide

theorem enqueued_of_delivered {exchange queueName : String}
    (h : deliveredTo ((bindings.get? exchange).getD []) queueName = [queueName]) (task : AnyTask) :
    enqueued ⟨exchange, queueName, task⟩ = [(queueName, task)] := by
  rw [enqueued, h]
  rfl

section Phases

variable {jobId : String} {jobs : JobTable} {j : SearchJob}

theorem phase_jobCreated {e : SearchJobCreatedEvent} (h : Open jobId jobs j)
    (about : e.queryJobId = jobId) (query : e.query ≠ "")
    (profile : ∃ cfg ∈ embedConfigs.values, cfg.primary = e.embeddingProfile) (taskId : String) :
    Phase jobId ⟨⟨jobs, []⟩, ((dispatched taskId (.searchJobCreated e)).map enqueued).getD []⟩ := by
  obtain ⟨cfg, hmem, hprimary⟩ := profile
  have hnodup : (embedConfigs.values.map EmbedConfig.primary).Nodup := by decide
  have hget : (modelToConfig embedConfigs).get? e.embeddingProfile = some cfg :=
    (OrderedDict.get?_indexBy EmbedConfig.primary hnodup).mpr ⟨hmem, hprimary⟩
  obtain ⟨hqueue, hpolled⟩ := embed_queues cfg hmem
  obtain ⟨modelName, hmodel⟩ := Option.isSome_iff_exists.mp hpolled
  simp only [dispatched, SearchDispatcher.jobCreated, hget, Option.map_some, Option.getD_some]
  rw [enqueued_of_delivered hqueue]
  exact .embedding h (congrArg some about) rfl rfl query hmodel

theorem phase_queryEmbedded {e : SearchQueryEmbeddedEvent} (h : Open jobId jobs j)
    (about : e.queryJobId = jobId) (taskId : String) :
    Phase jobId
      ⟨⟨jobs, []⟩, ((dispatched taskId (.searchQueryEmbedded e)).map enqueued).getD []⟩ := by
  have hqueue := (search_queues "cpu.search.run" (by decide)).1
  simp only [dispatched, EmbeddingDispatcher.queryEmbedded, Option.map_some, Option.getD_some]
  rw [enqueued_of_delivered hqueue]
  exact .running h about

theorem phase_candidatesRetrieved {e : SearchCandidatesRetrievedEvent} (h : Open jobId jobs j)
    (about : e.queryJobId = jobId)
    (profile : e.rerank = true → (rerankConfigs.get? (rankProfile e)).isSome = true)
    (taskId : String) :
    Phase jobId
      ⟨⟨jobs, []⟩, ((dispatched taskId (.searchCandidatesRetrieved e)).map enqueued).getD []⟩ := by
  simp only [dispatched, SearchDispatcher.candidatesRetrieved]
  split_ifs with hr
  · obtain ⟨cfg, hget⟩ := Option.isSome_iff_exists.mp (profile hr)
    have hmem : cfg ∈ rerankConfigs.values :=
      List.mem_map_of_mem (OrderedDict.get?_eq_some.mp hget)
    obtain ⟨hqueue, hpolled⟩ := rerank_queues cfg hmem
    obtain ⟨modelName, hmodel⟩ := Option.isSome_iff_exists.mp hpolled
    simp only [hget, Option.map_some, Option.getD_some]
    rw [enqueued_of_delivered hqueue]
    exact .ranking h about hmodel
  · have hqueue := (search_queues "cpu.search.finalize" (by decide)).1
    simp only [Option.map_some, Option.getD_some]
    rw [enqueued_of_delivered hqueue]
    exact .finalizing h about

theorem Open.update (h : Open jobId jobs j) {f : SearchJob → SearchJob}
    (hopen : (f j).status.terminal = false) (hrerank : (f j).rerank = j.rerank)
    (hprofile : (f j).rerankProfile = j.rerankProfile) :
    Open jobId (jobs.update jobId f) (f j) where
  row := by rw [JobTable.update_same, h.row, Option.map_some]
  isOpen := hopen
  reranker := by
    unfold SearchJob.RerankerKnown
    rw [hrerank, hprofile]
    exact h.reranker

theorem closed_update (hrow : jobs jobId = some j) {f : SearchJob → SearchJob} {events : List Event}
    (hclosed : (f j).status.terminal = true) (hquiet : ∀ e ∈ events, subscribed e = false) :
    Closed jobId ⟨jobs.update jobId f, events⟩ (f j) where
  row := by simp [JobTable.update_same, hrow]
  isClosed := hclosed
  quiet := hquiet

/-- `embed_query` stores the first vector and announces it, or leaves everything as it was. -/
theorem run_embedQuery (ωq : EmbedOracle) (span : Option SpanIds) {t : EmbedTask}
    (modelName : String) {query : String} (asks : t.query = some query) (nonempty : query ≠ "")
    (about : t.queryJobId = some jobId) (hid : jobId ≠ "") (s : JobStore) :
    (run (queryWorld ωq) (embedQuery embedConfigs span t modelName) s).2 =
      match ωq (.encode [queryText embedConfigs modelName query]) with
      | .ok (v :: _) =>
        { jobs := s.jobs.update jobId (SearchJob.storeEmbedding v)
          events := s.events ++ [.searchQueryEmbedded
            ⟨jobId, modelName, (propagateTrace span t.traceId).1,
              (propagateTrace span t.traceId).2⟩] }
      | _ => s := by
  have hq : truthy t.query = some query := by rw [asks, truthy_some nonempty]
  have hj : truthy t.queryJobId = some jobId := by rw [about, truthy_some hid]
  simp only [embedQuery, hq, hj, run_attempt, run_bind, run_call, queryWorld]
  rcases ωq (.encode [queryText embedConfigs modelName query]) with e | _ | ⟨v, vs⟩ <;> rfl

theorem phase_run (ω : JobOracle) {t : SearchRunTask} (h : Open jobId jobs j)
    (about : t.jobId = jobId) : Phase jobId ⟨cpuHandle ω (.searchRun t) ⟨jobs, []⟩, []⟩ := by
  subst about
  simp only [cpuHandle, SearchHandler.handle, run_bind, run_call, jobWorld, h.row]
  have hfailed : ∀ error, Phase t.jobId
      ⟨⟨jobs.update t.jobId (SearchJob.fail error none), []⟩, []⟩ :=
    fun error => .closed (closed_update h.row rfl (by simp))
  rcases he : j.embedding with _ | _ | ⟨x, xs⟩
  · exact hfailed _
  · exact hfailed _
  · simp only [run_bind, run_attempt, run_call, jobWorld, SearchHandler.search, reliable]
    have hs := h.update (f := SearchJob.markSearching) rfl rfl rfl
    rcases ω (.searchNearest j.chunksTable (x :: xs) j.k) with e | raw
    · simp only [run_raise]
      exact .closed (closed_update hs.row rfl (by simp))
    · refine .retrieved hs rfl fun hr => ?_
      obtain ⟨p, hp, hprofile, hknown⟩ := h.reranker hr
      simpa [rankProfile, hprofile, truthy_some hp] using hknown

theorem closed_finalize (ω : JobOracle) {t : SearchFinalizeTask} (h : Open jobId jobs j)
    (about : t.jobId = jobId) :
    ∃ j', Closed jobId (cpuHandle ω (.searchFinalize t) ⟨jobs, []⟩) j' := by
  subst about
  simp only [cpuHandle, SearchFinalizeHandler.handle, SearchFinalizeHandler.finalize,
    publishCompleted, run_bind, run_call, run_attempt, jobWorld, h.row, reliable]
  rcases ω (.getChunksByIds (candidateIds (sliceTo t.candidates j.k)) j.chunksTable) with e | rows
  · simp only [run_raise]
    exact ⟨_, closed_update h.row rfl (by simp)⟩
  · exact ⟨_, closed_update h.row rfl (by simp [subscribed])⟩

/-- The `try` block of the rerank handler completes the job, or raises before any change. -/
theorem run_rank (ω : JobOracle) (t : SearchRankTask) (job : SearchJob) (s : JobStore) :
    (∃ results, run (jobWorld (reliable ω)) (RerankHandler.rank t job) s =
      (.ok (), { jobs := s.jobs.update t.jobId (SearchJob.complete results)
                 events := s.events ++ [.searchJobCompleted ⟨t.jobId, t.traceId⟩] })) ∨
      ∃ e, run (jobWorld (reliable ω)) (RerankHandler.rank t job) s = (.error e, s) := by
  simp only [RerankHandler.rank, run_bind, run_call, jobWorld, reliable]
  rcases ω (.getChunksByIds (candidateIds t.candidates) job.chunksTable) with e | rows
  · exact .inr ⟨e, rfl⟩
  · simp only
    cases hydrated t.candidates rows with
    | nil => exact .inl ⟨[], rfl⟩
    | cons c cs =>
      simp only [run_bind, run_call, jobWorld, reliable]
      rcases ω (.score job.query (rankTexts (c :: cs))) with e | scores
      · exact .inr ⟨e, rfl⟩
      · exact .inl ⟨rankResults job.k (c :: cs) scores, rfl⟩

theorem closed_rank (ω : JobOracle) {t : SearchRankTask} (h : Open jobId jobs j)
    (about : t.jobId = jobId) :
    ∃ j', Closed jobId (run (jobWorld (reliable ω)) (RerankHandler.handle t) ⟨jobs, []⟩).2 j' := by
  subst about
  have hs := h.update (f := SearchJob.markReranking) rfl rfl rfl
  simp only [RerankHandler.handle, run_bind, run_call, jobWorld, h.row, run_attempt]
  obtain ⟨results, hrun⟩ | ⟨e, hrun⟩ :=
    run_rank ω t j ⟨jobs.update t.jobId SearchJob.markReranking, []⟩
  · simp only [hrun, run_ret]
    exact ⟨_, closed_update hs.row rfl (by simp [subscribed])⟩
  · simp only [hrun]
    cases e <;> exact ⟨_, closed_update hs.row rfl (by simp)⟩

namespace SearchSystem

theorem step_event (jobs : JobTable) {e : Event} (he : subscribed e = true) (i : SearchStep) :
    step ⟨⟨jobs, [e]⟩, []⟩ i = ⟨⟨jobs, [e]⟩, []⟩ ∨
      ∃ taskId, step ⟨⟨jobs, [e]⟩, []⟩ i =
        ⟨⟨jobs, []⟩, ((dispatched taskId e).map enqueued).getD []⟩ := by
  rcases i with ⟨_ | n, taskId⟩ | ⟨n, loads, span, ωq, ωr⟩ | ⟨n, ω⟩
  · exact .inr ⟨taskId, by simp [step, he]⟩
  · exact .inl (by simp [step])
  · exact .inl (by simp [step])
  · exact .inl (by simp [step])

/-- With no task and nothing to dispatch, a step does nothing. -/
theorem step_quiet {store : JobStore} (h : ∀ e ∈ store.events, subscribed e = false)
    (i : SearchStep) : step ⟨store, []⟩ i = ⟨store, []⟩ := by
  rcases i with ⟨n, taskId⟩ | ⟨n, loads, span, ωq, ωr⟩ | ⟨n, ω⟩
  · simp only [step]
    split
    next e he => rw [if_neg (by simp [h e (List.mem_of_getElem? he)])]
    next => rfl
  · simp [step]
  · simp [step]

theorem works_of_noTask (store : JobStore) (i : SearchStep) : Works ⟨store, []⟩ i := by
  cases i <;> simp [Works]

theorem step_gpu (jobs : JobTable) {q modelName : String} (task : AnyTask)
    (hq : polledModel q = some modelName) (loads : Bool) (span : Option SpanIds)
    (ωq : EmbedOracle) (ωr : JobOracle) :
    step ⟨⟨jobs, []⟩, [(q, task)]⟩ (.gpu 0 loads span ωq ωr) =
      ⟨if loads then gpuHandle span ωq ωr modelName task ⟨jobs, []⟩ else ⟨jobs, []⟩, []⟩ := by
  simp [step, hq]

theorem step_gpuTask (jobs : JobTable) {q modelName : String} (task : AnyTask)
    (hq : polledModel q = some modelName) (i : SearchStep) :
    (Works ⟨⟨jobs, []⟩, [(q, task)]⟩ i ∧
      step ⟨⟨jobs, []⟩, [(q, task)]⟩ i = ⟨⟨jobs, []⟩, [(q, task)]⟩) ∨
    ∃ loads span ωq ωr, i = .gpu 0 loads span ωq ωr := by
  -- there is one task, so a step that picks any other does nothing
  rcases i with ⟨n, taskId⟩ | ⟨_ | n, loads, span, ωq, ωr⟩ | ⟨_ | n, ω⟩
  · exact .inl ⟨trivial, by simp [step]⟩
  · exact .inr ⟨loads, span, ωq, ωr, rfl⟩
  · exact .inl ⟨by simp [Works], by simp [step]⟩
  · have hne : ¬ (q = "cpu.search.run" ∨ q = "cpu.search.finalize") := by
      intro h
      have hmem : q ∈ ["cpu.search.run", "cpu.search.finalize"] := by simpa using h
      rw [(search_queues q hmem).2] at hq
      cases hq
    exact .inl ⟨trivial, by simp [step, hne]⟩
  · exact .inl ⟨trivial, by simp [step]⟩

/-- With one task on a search queue, the search worker handles it, or the step does nothing. -/
theorem step_cpuTask (jobs : JobTable) {q : String} (task : AnyTask)
    (hq : q ∈ ["cpu.search.run", "cpu.search.finalize"]) (i : SearchStep) :
    Works ⟨⟨jobs, []⟩, [(q, task)]⟩ i ∧
      (step ⟨⟨jobs, []⟩, [(q, task)]⟩ i = ⟨⟨jobs, []⟩, [(q, task)]⟩ ∨
        ∃ ω, step ⟨⟨jobs, []⟩, [(q, task)]⟩ i = ⟨cpuHandle ω task ⟨jobs, []⟩, []⟩) := by
  have hnone : polledModel q = none := (search_queues q hq).2
  have hcpu : q = "cpu.search.run" ∨ q = "cpu.search.finalize" := by simpa using hq
  rcases i with ⟨n, taskId⟩ | ⟨_ | n, loads, span, ωq, ωr⟩ | ⟨_ | n, ω⟩
  · exact ⟨trivial, .inl (by simp [step])⟩
  · refine ⟨?_, .inl (by simp [step, hnone])⟩
    rintro _ _ modelName ⟨⟩ hmodel
    rw [hnone] at hmodel
    cases hmodel
  · exact ⟨by simp [Works], .inl (by simp [step])⟩
  · exact ⟨trivial, .inr ⟨ω, by simp [step, hcpu]⟩⟩
  · exact ⟨trivial, .inl (by simp [step])⟩

end SearchSystem

open SearchSystem

theorem notStranded_of_event {e : Event} (he : subscribed e = true) :
    NotStranded jobId ⟨⟨jobs, [e]⟩, []⟩ := by
  intro hquiet _
  have hno := hquiet e (List.mem_singleton_self e)
  rw [he] at hno
  cases hno

theorem Phase.notStranded {s : SearchSystem} (h : Phase jobId s) : NotStranded jobId s := by
  cases h with
  | created => exact notStranded_of_event rfl
  | embedded => exact notStranded_of_event rfl
  | retrieved => exact notStranded_of_event rfl
  | embedding => exact fun _ htasks => absurd htasks (List.cons_ne_nil _ _)
  | running => exact fun _ htasks => absurd htasks (List.cons_ne_nil _ _)
  | ranking => exact fun _ htasks => absurd htasks (List.cons_ne_nil _ _)
  | finalizing => exact fun _ htasks => absurd htasks (List.cons_ne_nil _ _)
  | closed h =>
    intro _ _ j hj
    obtain rfl := Option.some.inj (h.row.symm.trans hj)
    exact h.isClosed

theorem Open.stranded (h : Open jobId jobs j) : ¬ NotStranded jobId ⟨⟨jobs, []⟩, []⟩ := by
  intro hn
  have hclosed := hn (by simp) rfl j h.row
  rw [h.isOpen] at hclosed
  cases hclosed

theorem not_works_of_not_loaded (h : Open jobId jobs j) {q modelName : String} (task : AnyTask)
    (hq : polledModel q = some modelName) (span : Option SpanIds) (ωq : EmbedOracle)
    (ωr : JobOracle) :
    ¬ Works ⟨⟨jobs, []⟩, [(q, task)]⟩ (.gpu 0 false span ωq ωr) ∧
      ¬ NotStranded jobId (step ⟨⟨jobs, []⟩, [(q, task)]⟩ (.gpu 0 false span ωq ωr)) := by
  refine ⟨fun hw => ?_, ?_⟩
  · cases (hw q task modelName rfl hq).1
  · rw [step_gpu jobs task hq]
    exact h.stranded

theorem works_embed_iff {q modelName query : String} {t : EmbedTask} (asks : t.query = some query)
    (hq : polledModel q = some modelName) (span : Option SpanIds) (ωq : EmbedOracle)
    (ωr : JobOracle) :
    Works ⟨⟨jobs, []⟩, [(q, .embed t)]⟩ (.gpu 0 true span ωq ωr) ↔
      ∃ v vs, ωq (.encode [queryText embedConfigs modelName query]) = .ok (v :: vs) := by
  constructor
  · exact fun hw => (hw q _ modelName rfl hq).2 t query rfl asks
  · rintro hv _ _ modelName' ⟨⟩ hm
    obtain rfl := Option.some.inj (hq.symm.trans hm)
    refine ⟨rfl, ?_⟩
    rintro t' query' ⟨⟩ asks'
    obtain rfl := Option.some.inj (asks.symm.trans asks')
    exact hv

/-- `embed_query` sends the job on when the query is encoded, and strands it otherwise. -/
theorem embedding_step (h : Open jobId jobs j) (hid : jobId ≠ "") {q modelName query : String}
    {t : EmbedTask} (about : t.queryJobId = some jobId) (kind : t.taskType = .query)
    (asks : t.query = some query) (nonempty : query ≠ "") (hq : polledModel q = some modelName)
    (span : Option SpanIds) (ωq : EmbedOracle) (ωr : JobOracle) :
    (Works ⟨⟨jobs, []⟩, [(q, .embed t)]⟩ (.gpu 0 true span ωq ωr) ∧
      Phase jobId (step ⟨⟨jobs, []⟩, [(q, .embed t)]⟩ (.gpu 0 true span ωq ωr))) ∨
    (¬ Works ⟨⟨jobs, []⟩, [(q, .embed t)]⟩ (.gpu 0 true span ωq ωr) ∧
      ¬ NotStranded jobId (step ⟨⟨jobs, []⟩, [(q, .embed t)]⟩ (.gpu 0 true span ωq ωr))) := by
  have hquery : GpuEmbedWorker.asQueryTask (.embed t) = some t := if_pos kind
  have hrun := run_embedQuery ωq span modelName asks nonempty about hid ⟨jobs, []⟩
  rw [works_embed_iff asks hq, step_gpu jobs _ hq]
  simp only [if_true, gpuHandle, hquery, hrun]
  rcases ωq (.encode [queryText embedConfigs modelName query]) with e | _ | ⟨v, vs⟩
  · exact .inr ⟨by simp, h.stranded⟩
  · exact .inr ⟨by simp, h.stranded⟩
  · exact .inl ⟨⟨v, vs, rfl⟩, .embedded (h.update h.isOpen rfl rfl) rfl⟩

/-- A reranker that is loaded settles the job, whatever it then raises. -/
theorem ranking_step (h : Open jobId jobs j) {q modelName : String} {t : SearchRankTask}
    (about : t.jobId = jobId) (hq : polledModel q = some modelName) (span : Option SpanIds)
    (ωq : EmbedOracle) (ωr : JobOracle) :
    Works ⟨⟨jobs, []⟩, [(q, .searchRank t)]⟩ (.gpu 0 true span ωq ωr) ∧
      Phase jobId (step ⟨⟨jobs, []⟩, [(q, .searchRank t)]⟩ (.gpu 0 true span ωq ωr)) := by
  constructor
  · rintro _ _ _ ⟨⟩ _
    exact ⟨rfl, fun _ _ ht => by cases ht⟩
  · rw [step_gpu jobs _ hq]
    obtain ⟨j', hj'⟩ := closed_rank ωr h about
    exact .closed hj'

theorem event_step {e : Event} (he : subscribed e = true)
    (hwaits : Phase jobId ⟨⟨jobs, [e]⟩, []⟩)
    (hgoes : ∀ taskId, Phase jobId ⟨⟨jobs, []⟩, ((dispatched taskId e).map enqueued).getD []⟩)
    (i : SearchStep) : Works ⟨⟨jobs, [e]⟩, []⟩ i ∧ Phase jobId (step ⟨⟨jobs, [e]⟩, []⟩ i) := by
  refine ⟨works_of_noTask _ i, ?_⟩
  obtain hs | ⟨taskId, hs⟩ := step_event jobs he i
  · rwa [hs]
  · rw [hs]
    exact hgoes taskId

theorem cpuTask_step {q : String} {task : AnyTask}
    (hq : q ∈ ["cpu.search.run", "cpu.search.finalize"])
    (hwaits : Phase jobId ⟨⟨jobs, []⟩, [(q, task)]⟩)
    (hgoes : ∀ ω, Phase jobId ⟨cpuHandle ω task ⟨jobs, []⟩, []⟩) (i : SearchStep) :
    Works ⟨⟨jobs, []⟩, [(q, task)]⟩ i ∧ Phase jobId (step ⟨⟨jobs, []⟩, [(q, task)]⟩ i) := by
  obtain ⟨hw, hs⟩ := step_cpuTask jobs task hq i
  refine ⟨hw, ?_⟩
  obtain hs | ⟨ω, hs⟩ := hs
  · rwa [hs]
  · rw [hs]
    exact hgoes ω

/-- A task of the GPU worker waits, is dropped because its model does not load, or is handled. -/
theorem gpuTask_step (h : Open jobId jobs j) {q modelName : String} {task : AnyTask}
    (polled : polledModel q = some modelName) (hwaits : Phase jobId ⟨⟨jobs, []⟩, [(q, task)]⟩)
    (hgoes : ∀ span ωq ωr,
      (Works ⟨⟨jobs, []⟩, [(q, task)]⟩ (.gpu 0 true span ωq ωr) ∧
        Phase jobId (step ⟨⟨jobs, []⟩, [(q, task)]⟩ (.gpu 0 true span ωq ωr))) ∨
      (¬ Works ⟨⟨jobs, []⟩, [(q, task)]⟩ (.gpu 0 true span ωq ωr) ∧
        ¬ NotStranded jobId (step ⟨⟨jobs, []⟩, [(q, task)]⟩ (.gpu 0 true span ωq ωr))))
    (i : SearchStep) :
    (Works ⟨⟨jobs, []⟩, [(q, task)]⟩ i ∧ Phase jobId (step ⟨⟨jobs, []⟩, [(q, task)]⟩ i)) ∨
      (¬ Works ⟨⟨jobs, []⟩, [(q, task)]⟩ i ∧
        ¬ NotStranded jobId (step ⟨⟨jobs, []⟩, [(q, task)]⟩ i)) := by
  obtain ⟨hw, hs⟩ | ⟨loads, span, ωq, ωr, rfl⟩ := step_gpuTask jobs task polled i
  · refine .inl ⟨hw, ?_⟩
    rwa [hs]
  · cases loads with
    | false => exact .inr (not_works_of_not_loaded h task polled span ωq ωr)
    | true => exact hgoes span ωq ωr

/-- A step that works keeps the job on its way; the only other steps leave it behind. -/
theorem Phase.works_or_stranded {s : SearchSystem} (hid : jobId ≠ "") (h : Phase jobId s)
    (i : SearchStep) :
    (Works s i ∧ Phase jobId (s.step i)) ∨ (¬ Works s i ∧ ¬ NotStranded jobId (s.step i)) := by
  cases h with
  | created h about query profile =>
    exact .inl (event_step rfl (.created h about query profile)
      (phase_jobCreated h about query profile) i)
  | embedded h about =>
    exact .inl (event_step rfl (.embedded h about) (phase_queryEmbedded h about) i)
  | retrieved h about profile =>
    exact .inl (event_step rfl (.retrieved h about profile)
      (phase_candidatesRetrieved h about profile) i)
  | embedding h about kind asks nonempty polled =>
    apply gpuTask_step h polled (.embedding h about kind asks nonempty polled)
    intro span ωq ωr
    exact embedding_step h hid about kind asks nonempty polled span ωq ωr
  | running h about =>
    exact .inl (cpuTask_step (by simp) (.running h about) (fun ω => phase_run ω h about) i)
  | ranking h about polled =>
    apply gpuTask_step h polled (.ranking h about polled)
    intro span ωq ωr
    exact .inl (ranking_step h about polled span ωq ωr)
  | finalizing h about =>
    refine .inl (cpuTask_step (by simp) (.finalizing h about) (fun ω => ?_) i)
    obtain ⟨j', hj'⟩ := closed_finalize ω h about
    exact .closed hj'
  | closed h =>
    -- nothing is left that a step could move
    refine .inl ⟨works_of_noTask _ i, ?_⟩
    rw [step_quiet h.quiet]
    exact .closed h

end Phases

section Jobs

open SearchSystem

variable (tables : String → Bool) (rerankers : RerankConfig → Availability) (uuid : String)

theorem Created.phase {jobId : String} {store : JobStore} (c : Created jobId store) :
    Phase jobId ⟨store, []⟩ := by
  have hopen : c.job.status.terminal = false := by
    rw [c.status]
    rfl
  have hphase : Phase jobId ⟨⟨store.jobs, [.searchJobCreated c.event]⟩, []⟩ :=
    .created ⟨c.row, hopen, c.reranker⟩ c.about c.query c.profile
  rwa [← c.events] at hphase

end Jobs

theorem body_mem_keys : "body" ∈ embedConfigs.keys := by
  decide

def bodyRequest : SearchRequest where
  query := "query"
  chunkType := "body"
  k := 10
  libraryId := "main"
  rerank := false
  rerankProfile := none
  query_nonempty := by simp
  chunkType_valid := body_mem_keys
  k_bounds := ⟨by omega, by omega⟩
  libraryId_valid := validateLibraryId_main

/-- What the request leaves when all tables and rerankers are there. -/
def requested : Except SearchApiExc String × JobStore :=
  run (searchApiWorld (fun _ => true) (fun _ => ⟨true, ""⟩) "job") (createSearch none bodyRequest)
    emptyStore

/-- The encoder answers with `r`. -/
def encodes (r : Except PyExc (List Vec)) : EmbedOracle
  | .fetchTexts .. => .ok []
  | .encode _ => r
  | .saveBatch _ | .publish _ => .ok ()

/-- Every step of the job in turn, with nothing found. -/
def servedRun : List SearchStep :=
  [.dispatch 0 "embed", .gpu 0 true none (encodes (.ok [[1]])) emptyAnswers,
    .dispatch 0 "run", .cpu 0 emptyAnswers, .dispatch 0 "finalize", .cpu 0 emptyAnswers]

/-- The query's task is polled while no embedding backend is available. -/
def unavailableRun : List SearchStep :=
  [.dispatch 0 "embed",
    .gpu 0 true none (encodes (.error (.embeddingUnavailable "no backend"))) emptyAnswers]

end RagPipeline
