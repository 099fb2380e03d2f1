import RagPipeline.Ingestion.Accounting

namespace RagPipeline
open Coro ChunkTables

/-! The pipeline can always come to rest, and what holds when it does. -/

/-- A step of the pipeline's own, with nothing sent from outside. -/
def IngestionAction.Internal : IngestionAction → Prop
  | dispatch _ | work => True
  | _ => False

namespace Ingestion

/-- Nothing is on its way, and no worker is at work. -/
structure Resting (s : Ingestion) : Prop where
  ahead : ∀ d, (s.readers d).ahead s.store.events = []
  outbox : ∀ d, (s.readers d).outbox = []
  ready : s.ready = []
  jobs : s.jobs = []

/-- One state leads to another in steps of the pipeline's own. -/
abbrev Leads (env : IngestionEnv) : Ingestion → Ingestion → Prop :=
  Runs.Leads (Step env) IngestionAction.Internal

variable {env : IngestionEnv} {V : List SyncStep} {s t : Ingestion} {d : Dispatcher}

theorem synced_of_internal {run : Run} (h : ∀ p ∈ run, p.1.Internal) : synced run = [] := by
  refine List.filterMap_eq_nil_iff.mpr fun p hp => ?_
  have hp := h p hp
  obtain ⟨a, t⟩ := p
  cases a with
  | sync x => exact hp.elim
  | _ => rfl

theorem Sound.leads (hS : Sound env V s) (h : Leads env s t) : Sound env V t := by
  obtain ⟨run, hrun, hinternal, rfl⟩ := h
  simpa [synced_of_internal hinternal] using hS.run hrun

/-- The dispatcher has handed on what it held and read the log to its end. -/
structure Drained (env : IngestionEnv) (d : Dispatcher) (s t : Ingestion) : Prop where
  leads : Leads env s t
  store : t.store = s.store
  jobs : t.jobs = s.jobs
  lost : t.lost = s.lost
  others : ∀ d', d' ≠ d → t.readers d' = s.readers d'
  outbox : (t.readers d).outbox = []
  ahead : (t.readers d).ahead s.store.events = []
  ready : ∀ y ∈ t.ready, y ∈ s.ready ∨ y ∈ (s.readers d).outbox ∨
    ∃ e ∈ (s.readers d).ahead s.store.events, y ∈ env.dispatched d e

theorem leads_published (s : Ingestion) (d : Dispatcher) :
    Leads env s { s.withReader d ((s.readers d).rest []) with
      ready := s.ready ++ (s.readers d).outbox } := by
  generalize hts : (s.readers d).outbox = ts
  induction ts generalizing s with
  | nil =>
    have hself : s.withReader d ((s.readers d).rest []) = s := by
      rw [Ingestion.withReader, LogReader.rest, ← hts]
      simp
    rw [hself, List.append_nil]
    exact .refl _ _ _
  | cons t ts ih =>
    refine .head (.publish s d t ts hts) trivial ?_
    have hrest := ih { s.withReader d ((s.readers d).rest ts) with ready := s.ready ++ [t] }
      (congrArg LogReader.outbox (withReader_self _))
    simpa [Ingestion.withReader, LogReader.rest] using hrest

/-- It can read the log to its end. -/
theorem exists_drained (env : IngestionEnv) (d : Dispatcher) (s : Ingestion) :
    ∃ t, Drained env d s t := by
  let published : Ingestion := { s.withReader d ((s.readers d).rest []) with
    ready := s.ready ++ (s.readers d).outbox }
  have hpublished : Leads env s published := leads_published s d
  have hreader : published.readers d = (s.readers d).rest [] := withReader_self _
  -- on the number of events it has not passed
  induction hk : ((s.readers d).ahead s.store.events).length generalizing s with
  | zero =>
    refine ⟨published, hpublished, rfl, rfl, rfl, fun d' hd => withReader_ne hd _, ?_, ?_, ?_⟩
    · rw [hreader]
      rfl
    · rw [hreader]
      exact List.length_eq_zero_iff.mp hk
    · intro y hy
      exact (List.mem_append.mp hy).imp_right .inl
  | succ n ih =>
    obtain ⟨e, he⟩ := List.exists_mem_of_length_pos (by
      rw [hk]
      exact Nat.succ_pos n)
    obtain ⟨k, hpassed, hlog⟩ := LogReader.mem_ahead.mp he
    have hahead := LogReader.ahead_take hpassed hlog (env.dispatched d e)
    let taken : Ingestion := published.withReader d ((s.readers d).take k (env.dispatched d e))
    have htake : Step env published (.dispatch d) taken := by
      have hstep : Step env published (.dispatch d) _ := .take published d k e
        (by rw [hreader]; rfl) (by rw [hreader]; exact hpassed) hlog
      rw [hreader] at hstep
      exact hstep
    have htaken : taken.readers d = (s.readers d).take k (env.dispatched d e) := withReader_self _
    have hothers : ∀ d', d' ≠ d → taken.readers d' = s.readers d' := fun d' hd =>
      (withReader_ne hd _).trans (withReader_ne hd _)
    have hlen : ((taken.readers d).ahead s.store.events).length = n := by
      have hperm := hahead.length_eq
      rw [hk, List.length_cons] at hperm
      rw [htaken]
      omega
    obtain ⟨t, ht⟩ := ih taken (leads_published taken d) (withReader_self _) hlen
    refine ⟨t, hpublished.trans (.head htake trivial ht.leads), ht.store, ht.jobs, ht.lost,
      fun d' hd => (ht.others d' hd).trans (hothers d' hd), ht.outbox, ht.ahead, fun y hy => ?_⟩
    obtain hy | hy | ⟨e', he', hy⟩ := ht.ready y hy
    · exact (List.mem_append.mp hy).imp_right .inl
    · rw [htaken] at hy
      exact .inr (.inr ⟨e, he, hy⟩)
    · rw [htaken] at he'
      exact .inr (.inr ⟨e', hahead.mem_iff.mpr (List.mem_cons_of_mem _ he'), hy⟩)

/-- `_chunk_text` returns on the texts that tasks read of the versions. -/
def ReturnsOn (env : IngestionEnv) (V : List SyncStep) : Prop :=
  ∀ (task : ChunkTask) post text, AnyTask.Configured (.chunk task) →
    ReadPost (task.Version V) task post text → env.returns task.taskType text

def Event.IsChunksCreated : Event → Prop
  | .chunksCreated _ => True
  | _ => False

theorem leads_finished (hreturns : ReturnsOn env V) (hS : Sound env V s) {j : ChunkJob}
    {before after : List ChunkJob} (hjobs : s.jobs = before ++ j :: after) :
    Leads env s { s with
      store := (run chunkWorld j.program s.store).2
      jobs := before ++ after } ∧
    ∃ events, (run chunkWorld j.program s.store).2.events = s.store.events ++ events ∧
      ∀ e ∈ events, Event.IsChunksCreated e := by
  obtain ⟨tag, task, p, seen⟩ := j
  -- on its program
  induction p generalizing s seen with
  | ret ids =>
    refine ⟨.single (.ack s _ before after ids hjobs rfl) trivial, [], ?_, by simp⟩
    exact (List.append_nil _).symm
  | raise e =>
    obtain ⟨-, -, hstands⟩ := hS.jobs _ (by
      rw [hjobs]
      exact List.mem_append_right _ List.mem_cons_self)
    cases hstands
  | await op k ih =>
    have hj : ⟨tag, task, await op k, seen⟩ ∈ s.jobs := by
      rw [hjobs]
      exact List.mem_append_right _ List.mem_cons_self
    obtain ⟨-, hconfigured, hstands⟩ := hS.jobs _ hj
    have hgoes : ¬ChunkJob.Hangs env ⟨tag, task, await op k, seen⟩ := by
      rintro ⟨hlooks, text, hseen, hnot⟩
      obtain ⟨post, hread⟩ := hstands.of_looksUp hlooks hseen
      exact hnot (hreturns task post text hconfigured hread)
    have hstep : Step env s .work _ := .await s _ before after hjobs hgoes
    obtain ⟨hleads, events, hevents, hkind⟩ := ih _ (hS.leads (.single hstep trivial)) _ rfl
    refine ⟨.head hstep trivial hleads, (unpublished (await op k)).toList ++ events, ?_, ?_⟩
    · refine hevents.trans ?_
      show (Coro.next chunkWorld (await op k, s.store)).2.events ++ events = _
      rw [(hS.jobStep hj).1.events, List.append_assoc]
    · intro e he
      rw [List.mem_append] at he
      obtain he | he := he
      · obtain ⟨chunks, rfl⟩ := hstands.of_unpublished (Option.mem_toList.mp he)
        trivial
      · exact hkind e he

/-- All of them do. -/
theorem leads_idle (hreturns : ReturnsOn env V) (hS : Sound env V s) :
    ∃ store events, Leads env s { s with store, jobs := [] } ∧
      store.events = s.store.events ++ events ∧ ∀ e ∈ events, Event.IsChunksCreated e := by
  generalize hjobs : s.jobs = jobs
  induction jobs generalizing s with
  | nil =>
    refine ⟨s.store, [], ?_, (List.append_nil _).symm, by simp⟩
    rw [← hjobs]
    exact .refl _ _ _
  | cons j jobs ih =>
    have hfirst : s.jobs = [] ++ j :: jobs := hjobs
    obtain ⟨hleads, events, hevents, hkind⟩ := leads_finished hreturns hS hfirst
    obtain ⟨store', events', hleads', hevents', hkind'⟩ := ih (hS.leads hleads) rfl
    refine ⟨store', events ++ events', hleads.trans hleads', ?_, ?_⟩
    · rw [hevents']
      show (run chunkWorld j.program s.store).2.events ++ events' = _
      rw [hevents, List.append_assoc]
    · exact List.forall_mem_append.mpr ⟨hkind, hkind'⟩

theorem leads_chunked (hreturns : ReturnsOn env V) (hS : Sound env V s) (hjobs : s.jobs = []) :
    ∃ store events ready deliveries,
      Leads env s { s with store, ready, deliveries, jobs := [] } ∧
      store.events = s.store.events ++ events ∧ (∀ e ∈ events, Event.IsChunksCreated e) ∧
        ∀ y ∈ ready, ∃ task, y = .embed task := by
  -- on the number of tasks in the queues
  induction hk : s.ready.length generalizing s with
  | zero =>
    refine ⟨s.store, [], [], s.deliveries, ?_, (List.append_nil _).symm, by simp, by simp⟩
    rw [← List.length_eq_zero_iff.mp hk, ← hjobs]
    exact .refl _ _ _
  | succ k ih =>
    by_cases hembed : ∀ y ∈ s.ready, ∃ task, y = .embed task
    · refine ⟨s.store, [], s.ready, s.deliveries, ?_, (List.append_nil _).symm, by simp, hembed⟩
      rw [← hjobs]
      exact .refl _ _ _
    · push Not at hembed
      obtain ⟨y, hy, hne⟩ := hembed
      obtain ⟨before, after, hready⟩ := List.append_of_mem hy
      have hconfigured := hS.ready y hy
      cases y with
      | chunk task =>
        have hstep : Step env s .work _ := .deliver s task before after hready
        have hone : s.jobs ++ [ChunkJob.start env s.deliveries task] =
            [] ++ ChunkJob.start env s.deliveries task :: [] := by rw [hjobs]
        obtain ⟨hleads, events, hevents, hkind⟩ :=
          leads_finished hreturns (hS.leads (.single hstep trivial)) hone
        have hdelivered : Leads env s _ := .head hstep trivial hleads
        obtain ⟨store', events', ready, deliveries, hleads', hevents', hkind', hembed⟩ :=
          ih (hS.leads hdelivered) rfl (by
            rw [hready, List.length_append, List.length_cons] at hk
            rw [List.length_append]
            omega)
        refine ⟨store', events ++ events', ready, deliveries, hdelivered.trans hleads', ?_, ?_,
          hembed⟩
        · rw [hevents']
          show (run chunkWorld _ s.store).2.events ++ events' = _
          rw [hevents, List.append_assoc]
        · exact List.forall_mem_append.mpr ⟨hkind, hkind'⟩
      | embed task => exact absurd rfl (hne task)
      | _ => exact hconfigured.elim

/-- An embed task as a batch of its own, on a model that is here. -/
def ownBatch (env : IngestionEnv) (task : EmbedTask)
    (h : task.postId.isSome ∧ task.postTable.isSome) :
    EmbedBatch (env.encoder task.modelName) where
  tasks := [⟨0, task⟩]
  modelName := task.modelName
  span := none
  order := ⟨fun _ l => l, fun _ l => .refl l⟩
  leg := .localModel (List.map (env.encoder task.modelName)) fun _ => rfl
  post := List.forall_mem_singleton.mpr h

def Event.IsEmbeddingCompleted : Event → Prop
  | .embeddingCompleted _ => True
  | _ => False

theorem leads_embedded (hS : Sound env V s) (hembed : ∀ y ∈ s.ready, ∃ task, y = .embed task) :
    ∃ store events, Leads env s { s with store, ready := [] } ∧
      store.events = s.store.events ++ events ∧ ∀ e ∈ events, Event.IsEmbeddingCompleted e := by
  generalize hready : s.ready = ready
  induction ready generalizing s with
  | nil =>
    refine ⟨s.store, [], ?_, (List.append_nil _).symm, by simp⟩
    rw [← hready]
    exact .refl _ _ _
  | cons y rest ih =>
    rw [hready] at hembed
    obtain ⟨⟨task, rfl⟩, hrest⟩ := List.forall_mem_cons.mp hembed
    have hconfigured : AnyTask.Configured (.embed task) :=
      hS.ready _ (hready ▸ List.mem_cons_self)
    let b := ownBatch env task hconfigured.2
    have hperm : s.ready.Perm (batchTasks b ++ rest) := by
      rw [hready]
      exact .refl _
    have hstep : Step env s .work _ := .embed s task.modelName b rest hperm rfl
      (List.forall_mem_singleton.mpr rfl)
    have hS' : Sound env V _ := hS.leads (.single hstep trivial)
    obtain ⟨store, events, hleads, hevents, hkind⟩ := ih hS' hrest rfl
    obtain ⟨completed, hcompleted⟩ := (left_after b s.store.embedDb).events
    refine ⟨store, completed.map .embeddingCompleted ++ events, .head hstep trivial hleads, ?_, ?_⟩
    · rw [hevents]
      show (b.after s.store.embedDb).events ++ events = _
      rw [hcompleted, List.append_assoc]
      rfl
    · refine List.forall_mem_append.mpr ⟨fun e he => ?_, hkind⟩
      obtain ⟨e, -, rfl⟩ := List.mem_map.mp he
      trivial

theorem Drained.ready_eq_nil (h : Drained env d s t) (hready : s.ready = [])
    (houtbox : (s.readers d).outbox = [])
    (hahead : ((s.readers d).ahead s.store.events).flatMap (env.dispatched d) = []) :
    t.ready = [] := by
  refine List.eq_nil_iff_forall_not_mem.mpr fun y hy => ?_
  obtain hy | hy | ⟨e, he, hy⟩ := h.ready y hy
  · rw [hready] at hy
    cases hy
  · rw [houtbox] at hy
    cases hy
  · rw [List.flatMap_eq_nil_iff.mp hahead e he] at hy
    cases hy

theorem Drained.mem_ahead (h : Drained env d s t) (hS : Sound env V t) {events : List Event}
    {e : Event} (he : e ∈ (t.readers d).ahead (s.store.events ++ events)) : e ∈ events := by
  have hwithin : (t.readers d).Within s.store.events := h.store ▸ hS.within d
  rw [LogReader.mem_ahead_append hwithin, h.ahead] at he
  exact he.resolve_left List.not_mem_nil

theorem dispatched_post_eq_nil {events : List Event} (h : ∀ e ∈ events, Event.IsChunksCreated e ∨
    Event.IsEmbeddingCompleted e) : events.flatMap (env.dispatched .post) = [] := by
  refine List.flatMap_eq_nil_iff.mpr fun e he => ?_
  have hkind := h e he
  cases e with
  | postSynced e => exact absurd hkind (by simp [Event.IsChunksCreated, Event.IsEmbeddingCompleted])
  | _ => rfl

theorem dispatched_chunk_eq_nil {events : List Event} (h : ∀ e ∈ events,
    Event.IsEmbeddingCompleted e) : events.flatMap (env.dispatched .chunk) = [] := by
  refine List.flatMap_eq_nil_iff.mpr fun e he => ?_
  have hkind := h e he
  cases e with
  | chunksCreated e => exact hkind.elim
  | _ => rfl

theorem dispatched_chunk_embed {e : Event} : ∀ y ∈ env.dispatched .chunk e,
    ∃ task, y = .embed task := by
  intro y hy
  cases e with
  | chunksCreated e =>
    unfold IngestionEnv.dispatched at hy
    obtain ⟨x, hx, rfl⟩ := Option.map_eq_some_iff.mp (Option.mem_toList.mp hy)
    obtain ⟨body, -, rfl⟩ := Option.map_eq_some_iff.mp hx
    exact ⟨_, rfl⟩
  | _ => cases hy

/-- Both dispatchers read the log to its end, and the chunk tasks are worked off. -/
theorem leads_only_embed (hreturns : ReturnsOn env V) (hS : Sound env V s) :
    ∃ t, Leads env s t ∧ t.lost = s.lost ∧ t.jobs = [] ∧
      (∀ y ∈ t.ready, ∃ task, y = .embed task) ∧ ∀ d, (t.readers d).outbox = [] ∧
        ∀ e ∈ (t.readers d).ahead t.store.events, Event.IsChunksCreated e := by
  obtain ⟨a, ha⟩ := exists_drained env .post s
  obtain ⟨b, hb⟩ := exists_drained env .chunk a
  have hab : Leads env s b := ha.leads.trans hb.leads
  obtain ⟨store, events, hidle, hevents, hkind⟩ := leads_idle hreturns (hS.leads hab)
  obtain ⟨store', events', ready, deliveries, hchunked, hevents', hkind', hembed⟩ :=
    leads_chunked hreturns (hS.leads (hab.trans hidle)) rfl
  refine ⟨_, hab.trans (hidle.trans hchunked), hb.lost.trans ha.lost, rfl, hembed, fun d => ?_⟩
  have hall : ∀ e ∈ events ++ events', Event.IsChunksCreated e :=
    List.forall_mem_append.mpr ⟨hkind, hkind'⟩
  have hlog : store'.events = s.store.events ++ (events ++ events') := by
    rw [hevents']
    show store.events ++ events' = _
    rw [hevents, hb.store, ha.store, List.append_assoc]
  have hother : b.readers .post = a.readers .post := hb.others .post (by decide)
  cases d with
  | chunk =>
    refine ⟨hb.outbox, fun e he => hall e (hb.mem_ahead (hS.leads hab) ?_)⟩
    rw [ha.store, ← hlog]
    exact he
  | post =>
    refine ⟨(congrArg LogReader.outbox hother).trans ha.outbox, fun e he => hall e ?_⟩
    apply ha.mem_ahead (hS.leads ha.leads)
    rw [← hother, ← hlog]
    exact he

/-- From every state that the pipeline can be in, its own steps take it to rest, with nothing more
lost. -/
theorem leads_resting (hreturns : ReturnsOn env V) (hS : Sound env V s) :
    ∃ t, Leads env s t ∧ t.lost = s.lost ∧ Resting t := by
  obtain ⟨a, hsa, hlost, hjobs, hembed, hreaders⟩ := leads_only_embed hreturns hS
  have hSa : Sound env V a := hS.leads hsa
  obtain ⟨b, hb⟩ := exists_drained env .chunk a
  have hSb : Sound env V b := hSa.leads hb.leads
  have hembed' : ∀ y ∈ b.ready, ∃ task, y = .embed task := by
    intro y hy
    obtain hy | hy | ⟨e, -, hy⟩ := hb.ready y hy
    · exact hembed y hy
    · rw [(hreaders .chunk).1] at hy
      cases hy
    · exact dispatched_chunk_embed y hy
  obtain ⟨store, events, hbc, hevents, hkind⟩ := leads_embedded hSb hembed'
  let c : Ingestion := { b with store, ready := [] }
  have hSc : Sound env V c := hSb.leads hbc
  have hcevents : c.store.events = a.store.events ++ events := by
    rw [← hb.store]
    exact hevents
  have hpost : c.readers .post = a.readers .post := hb.others .post (by decide)
  have hcpost : ((c.readers .post).ahead c.store.events).flatMap (env.dispatched .post) = [] := by
    refine dispatched_post_eq_nil fun e he => ?_
    rw [hpost, hcevents, LogReader.mem_ahead_append (hSa.within .post)] at he
    exact he.imp ((hreaders .post).2 e) (hkind e)
  have hcchunk :
      ((c.readers .chunk).ahead c.store.events).flatMap (env.dispatched .chunk) = [] := by
    refine dispatched_chunk_eq_nil fun e he => hkind e (hb.mem_ahead hSb ?_)
    rw [← hcevents]
    exact he
  obtain ⟨x, hx⟩ := exists_drained env .post c
  obtain ⟨t, ht⟩ := exists_drained env .chunk x
  have hother : x.readers .chunk = c.readers .chunk := hx.others .chunk (by decide)
  have hxready : x.ready = [] :=
    hx.ready_eq_nil rfl ((congrArg LogReader.outbox hpost).trans (hreaders .post).1) hcpost
  have htready : t.ready = [] := by
    refine ht.ready_eq_nil hxready ((congrArg LogReader.outbox hother).trans hb.outbox) ?_
    rw [hother, hx.store]
    exact hcchunk
  have htpost : t.readers .post = x.readers .post := ht.others .post (by decide)
  have hjobs' : t.jobs = [] := ht.jobs.trans (hx.jobs.trans (hb.jobs.trans hjobs))
  have hlost' : t.lost = s.lost := ht.lost.trans (hx.lost.trans (hb.lost.trans hlost))
  refine ⟨t, hsa.trans (hb.leads.trans (hbc.trans (hx.leads.trans ht.leads))), hlost',
    fun d => ?_, fun d => ?_, htready, hjobs'⟩
  · cases d with
    | chunk =>
      rw [ht.store]
      exact ht.ahead
    | post =>
      rw [htpost, ht.store, hx.store]
      exact hx.ahead
  · cases d with
    | chunk => exact ht.outbox
    | post =>
      rw [htpost]
      exact hx.outbox

theorem Resting.waiting {n : ℕ} (h : Resting s) (d : Dispatcher) :
    s.waiting n d = s.lost.drop n := by
  unfold Ingestion.waiting
  rw [h.ahead d, h.outbox d, h.ready]
  rfl

theorem Resting.not_rowAwaited {n : ℕ} {u id : String} (h : Resting s)
    (hlost : s.lost.length ≤ n) : ¬ RowAwaited n s u id := by
  rintro (⟨x, hx, -⟩ | ⟨j, hj, -⟩)
  · rw [h.waiting, List.drop_eq_nil_of_le hlost] at hx
    cases hx
  · rw [h.jobs] at hj
    cases hj

theorem Resting.not_textAwaited {n : ℕ} {u : String} {i : ℤ} {type : ChunkTaskType}
    (h : Resting s) (hsyncs : s.syncs = []) (hlost : s.lost.length ≤ n) :
    ¬ TextAwaited env n s u i type := by
  rintro (⟨x, hx, -⟩ | ⟨j, hj, -⟩ | ⟨j, hj, -⟩)
  · rw [h.waiting, List.drop_eq_nil_of_le hlost] at hx
    cases hx
  · rw [hsyncs] at hj
    cases hj
  · rw [h.jobs] at hj
    cases hj

/-- Every window of the text is stored with the vector of its text, made by a model of the table. -/
def TextEmbedded (env : IngestionEnv) (s : Ingestion) (u : String) (i : ℤ) (type : ChunkTaskType) :
    Prop :=
  ∃ task, AnyTask.Configured (.chunk task) ∧ task.About u i type ∧
    ∀ text, task.textIn s.store = some text → ∀ window ∈ env.chunking.chunkText type text,
      ∃ r table m, s.store.tables.Has (relation task.chunkTableName) r ∧ r.postId = i ∧
        r.textHash = env.chunking.sha256 window ∧ IsChunkTable table m ∧
          relation table = relation task.chunkTableName ∧ r.embedding = some (env.encoder m r.text)

theorem textEmbedded_of_stored {u : String} {i : ℤ} {type : ChunkTaskType} (hS : Sound env V s)
    (h : TextStored env s u i type)
    (hrows : ∀ u r, s.store.tables.Has u r → r.embedding ≠ none) : TextEmbedded env s u i type := by
  obtain ⟨task, hconfigured, habout, hstored⟩ := h
  refine ⟨task, hconfigured, habout, fun text htext window hw => ?_⟩
  obtain ⟨r, hr, hpost, hhash⟩ := hstored text htext window (habout.type ▸ hw)
  obtain ⟨v, hv⟩ := Option.ne_none_iff_exists'.mp (hrows _ r hr)
  obtain ⟨table, m, hchunk, hu, rfl⟩ := (hS.rows _ r hr).vector v hv
  exact ⟨r, table, m, hr, hpost.trans habout.post, hhash, hchunk, hu.symm, hv⟩

/-- When everything is accounted for and nothing waits, everything is done. -/
theorem embedded_of_resting (hS : Sound env V s) (haccounted : Accounted env 0 s)
    (hrest : Resting s) (hsyncs : s.syncs = []) (hlost : s.lost = []) :
    (∀ u r, s.store.tables.Has u r → r.embedding ≠ none) ∧
    ∀ u i post type, s.store.posts u i = some post → type.Wanted post →
      TextEmbedded env s u i type := by
  have hlen : s.lost.length ≤ 0 := by rw [hlost]; exact Nat.le_refl 0
  have hrows : ∀ u r, s.store.tables.Has u r → r.embedding ≠ none := by
    intro u r hr hnone
    exact hrest.not_rowAwaited hlen (haccounted.rows u r.id r hr rfl hnone)
  refine ⟨hrows, fun u i post type hpost hwanted => ?_⟩
  have hstored : TextStored env s u i type :=
    (haccounted.texts u i type post hpost hwanted).resolve_right
      (hrest.not_textAwaited hsyncs hlen)
  exact textEmbedded_of_stored hS hstored hrows

theorem Step.posts {a : IngestionAction} (hS : Sound env V s) (h : Step env s a t)
    (ha : a.Internal) : t.store.posts = s.store.posts := by
  cases h with
  | turn j before after hsyncs hreads => exact ha.elim
  | overlook j before after hsyncs hreads => exact ha.elim
  | await j before after hjobs hgoes =>
    have hj : j ∈ s.jobs := by
      rw [hjobs]
      exact List.mem_append_right _ List.mem_cons_self
    exact (hS.jobStep hj).1.posts
  | _ => rfl

theorem syncs_of_leads (h : Leads env s t) : t.syncs = s.syncs := by
  obtain ⟨run, hrun, hinternal, rfl⟩ := h
  induction run generalizing s with
  | nil => rfl
  | cons p run ih =>
    obtain ⟨a, u⟩ := p
    obtain ⟨hp, hrest⟩ := List.forall_mem_cons.mp hinternal
    have hstep : Step env s a u := hrun.1
    refine (ih hrun.2 hrest).trans ?_
    cases hstep with
    | sync | turn | overlook | leave => exact hp.elim
    | _ => rfl

theorem posts_of_leads (hS : Sound env V s) (h : Leads env s t) :
    t.store.posts = s.store.posts := by
  obtain ⟨run, hrun, hinternal, rfl⟩ := h
  induction run generalizing s V with
  | nil => rfl
  | cons p run ih =>
    obtain ⟨hp, hrest⟩ := List.forall_mem_cons.mp hinternal
    exact (ih (hS.step hrun.1) hrun.2 hrest).trans (hrun.1.posts hS hp)

end Ingestion
end RagPipeline
