import RagPipeline.Ingestion.Batches
import RagPipeline.Ingestion.Jobs
import RagPipeline.Ingestion.Requests

namespace RagPipeline
open Coro ChunkTables

/-! Where the rows come from: what every step of the system keeps true of its state. -/

/-- The post is what was stored of a version that was sent to the relation. -/
def Version (V : List SyncStep) (u : String) (i : ℤ) (post : Post) : Prop :=
  ∃ x ∈ V, relation x.tableName = u ∧ x.post.postId = i ∧
    ∃ existing, post = PostStore.storedOver existing x.post

abbrev ChunkTask.Version (task : ChunkTask) (V : List SyncStep) : Post → Prop :=
  RagPipeline.Version V (relation task.postTable) task.postId

/-- The row is a window of the text of a version of its post, in the table of such texts, and a
vector that it has is that of its text, made by a model of the table. -/
structure Sourced (env : IngestionEnv) (V : List SyncStep) (u : String) (r : StoredChunk) :
    Prop where
  window : ∃ task, AnyTask.Configured (.chunk task) ∧ MadeFrom env (task.Version V) task u r
  vector : ∀ v, r.embedding = some v →
    ∃ table m, IsChunkTable table m ∧ u = relation table ∧ v = env.encoder m r.text

def Event.Configured : Event → Prop
  | chunksCreated e => ∃ postTable, ∃ t : ChunkTaskType, ∃ cfg,
      embedConfigs.get? t.key = some cfg ∧ e.taskType = t.key ∧
        e.chunkTable = buildChunkTableName postTable t.key cfg.primary
  | _ => True

variable {env : IngestionEnv} {V : List SyncStep}

theorem Version.append {u : String} {i : ℤ} {post : Post} (h : Version V u i post)
    (more : List SyncStep) : Version (V ++ more) u i post := by
  obtain ⟨x, hx, h⟩ := h
  exact ⟨x, List.mem_append_left _ hx, h⟩

theorem MadeFrom.mono {P Q : Post → Prop} {task : ChunkTask} {u : String} {r : StoredChunk}
    (h : MadeFrom env P task u r) (hPQ : ∀ post, P post → Q post) : MadeFrom env Q task u r := by
  obtain ⟨hu, post, text, hread, hmade⟩ := h
  exact ⟨hu, post, text, ⟨hPQ _ hread.holds, hread.reads⟩, hmade⟩

theorem Sourced.append {u : String} {r : StoredChunk} (h : Sourced env V u r)
    (more : List SyncStep) : Sourced env (V ++ more) u r := by
  obtain ⟨task, htask, hmade⟩ := h.window
  exact ⟨⟨task, htask, hmade.mono fun post hpost => hpost.append more⟩, h.vector⟩

theorem configured_routeTasks (d : PostDispatcher) (event : PostSyncedEvent)
    (l : List (ChunkTaskType × Bool)) (hl : ∀ p ∈ l, p.1 ≠ .analysis) :
    ∀ t ∈ d.routeTasks event l, t.task.Configured := by
  induction l with
  | nil => simp [PostDispatcher.routeTasks]
  | cons p rest ih =>
    obtain ⟨hp, hrest⟩ := List.forall_mem_cons.mp hl
    obtain ⟨taskType, wanted⟩ := p
    cases wanted with
    | false => exact ih hrest
    | true =>
      obtain ⟨cfg, hcfg⟩ := exists_embedConfig taskType
      rw [PostDispatcher.routeTasks, hcfg]
      exact List.forall_mem_cons.mpr ⟨⟨hp, cfg, hcfg, rfl⟩, ih hrest⟩

theorem configured_dispatched (d : Dispatcher) {e : Event} (he : e.Configured) :
    ∀ t ∈ env.dispatched d e, t.Configured := by
  intro t ht
  unfold IngestionEnv.dispatched at ht
  split at ht
  next e =>
    obtain ⟨x, hx, rfl⟩ := List.mem_map.mp ht
    exact configured_routeTasks _ _ _ (by simp) x hx
  next e =>
    obtain ⟨postTable, type, cfg, hcfg, htype, htable⟩ := he
    obtain ⟨x, hx, rfl⟩ := Option.map_eq_some_iff.mp (Option.mem_toList.mp ht)
    obtain ⟨body, -, rfl⟩ := Option.map_eq_some_iff.mp hx
    refine ⟨⟨e.chunkTable, rfl, postTable, type, cfg, hcfg, ?_, htable⟩, rfl, rfl⟩
    rw [htype, hcfg]
    rfl
  · cases ht

theorem configured_chunksCreated {task : ChunkTask} (h : AnyTask.Configured (.chunk task))
    (eventId : String) (span : Option SpanIds) (chunks : List Chunk) :
    Event.Configured
      (.chunksCreated (ChunkPostHandler.chunksCreated eventId span task chunks)) := by
  obtain ⟨-, cfg, hcfg, hmodel⟩ := h
  refine ⟨task.postTable, task.taskType, cfg, hcfg, rfl, ?_⟩
  show buildChunkTableName task.postTable task.taskType.key task.embedModel = _
  rw [hmodel]

/-- Rows have a source and the id of a delivery, posts are versions that were sent, tasks and events
are those of the configuration, requests write what was sent, and every worker stands at a stage of
its handler. -/
structure Ingestion.Sound (env : IngestionEnv) (V : List SyncStep) (s : Ingestion) : Prop where
  posts : ∀ u i post, s.store.posts u i = some post → Version V u i post
  rows : ∀ u r, s.store.tables.Has u r → Sourced env V u r
  ids : ∀ u r, s.store.tables.Has u r → ∃ k < s.deliveries, ∃ i, r.id = (env.draws k).ids i
  events : ∀ e ∈ s.store.events, e.Configured
  syncs : ∀ j ∈ s.syncs, j.step ∈ V ∧ j.program.Only j.step.Owns
  within : ∀ d, (s.readers d).Within s.store.events
  outboxes : ∀ d, ∀ t ∈ (s.readers d).outbox, t.Configured
  ready : ∀ t ∈ s.ready, t.Configured
  jobs : ∀ j ∈ s.jobs, j.tag < s.deliveries ∧ AnyTask.Configured (.chunk j.task) ∧
    Standing env (j.task.Version V) j.tag j.task s.store.tables j.seen j.program
  tags : (s.jobs.map ChunkJob.tag).Nodup

namespace Ingestion

variable {s t : Ingestion}

theorem sound_empty (env : IngestionEnv) : Sound env [] .empty where
  posts u i post h := by cases h
  rows u r h := by
    obtain ⟨table, hT, -⟩ := h
    cases hT
  ids u r h := by
    obtain ⟨table, hT, -⟩ := h
    cases hT
  events e he := by cases he
  syncs j hj := by cases hj
  within d k hk := by cases hk
  outboxes d t ht := by cases ht
  ready t ht := by cases ht
  jobs j hj := by cases hj
  tags := List.nodup_nil

end Ingestion

section Writes

variable {s t : ChunkDb} {u : String} {r : StoredChunk}

/-- Relations have no rows but those of before, up to their vectors. -/
def SameRows (T U : ChunkTables) : Prop :=
  ∀ u r, U.Has u r → ∃ r₀, T.Has u r₀ ∧ r.toChunk = r₀.toChunk

theorem SameRows.unused {T U : ChunkTables} (h : SameRows T U) {ids : ℕ → String}
    (hT : T.Unused ids) : U.Unused ids := by
  intro u r hr i
  obtain ⟨r₀, hr₀, heq⟩ := h u r hr
  have hid : r.id = r₀.id := congrArg Chunk.id heq
  rw [hid]
  exact hT u r₀ hr₀ i

theorem sameRows_refl (T : ChunkTables) : SameRows T T := fun _ r hr => ⟨r, hr, rfl⟩

theorem sameRows_embedRows (T : ChunkTables) (E : String → Vec) (named : String → String → Bool) :
    SameRows T (T.embedRows E named) := by
  intro u r hr
  obtain ⟨r₀, hr₀, rfl⟩ := has_embedRows.mp hr
  exact ⟨r₀, hr₀, rfl⟩

/-- A vector that a batch writes is made by a model of the table. -/
theorem Sourced.embedded {modelName : String} {tasks : List (Obj EmbedTask)}
    (htasks : ∀ t ∈ tasks, AnyTask.Configured (.embed t.val) ∧ t.val.modelName = modelName)
    (h : Sourced env V u r) :
    Sourced env V u (ChunkTables.embedded (env.encoder modelName) (namedBy tasks) u r) := by
  refine ⟨h.window, fun v hv => ?_⟩
  simp only [ChunkTables.embedded] at hv
  split_ifs at hv with hnamed
  · obtain ⟨t, ht, hnames⟩ := List.any_eq_true.mp hnamed
    obtain ⟨table, hfetch, hu, -⟩ := EmbedTask.names_iff.mp hnames
    obtain ⟨⟨⟨table', htable', hchunk⟩, -⟩, hmodel⟩ := htasks t ht
    have htable : t.val.chunkTable = some table :=
      (Option.filter_eq_some_iff.mp (truthy_of_fetchTable hfetch)).1
    obtain rfl := Option.some.inj (htable'.symm.trans htable)
    exact ⟨table', modelName, hmodel ▸ hchunk, hu, (Option.some.inj hv).symm⟩
  · exact h.vector v hv

end Writes

def IngestionAction.sent : IngestionAction → List SyncStep
  | .sync x => [x]
  | _ => []

namespace Ingestion

variable {s t : Ingestion}

/-- Workers stay where they stand when rows stay and no new row takes one of their ids. -/
theorem stands_of_keeps {jobs : List ChunkJob} {T U : ChunkTables} {k : ℕ}
    (h : ∀ j ∈ jobs, j.tag < k ∧ AnyTask.Configured (.chunk j.task) ∧
      Standing env (j.task.Version V) j.tag j.task T j.seen j.program)
    (hkeeps : KeepsRows T U)
    (hunused : ∀ j ∈ jobs, T.Unused (env.draws j.tag).ids → U.Unused (env.draws j.tag).ids) :
    ∀ j ∈ jobs, j.tag < k ∧ AnyTask.Configured (.chunk j.task) ∧
      Standing env (j.task.Version V) j.tag j.task U j.seen j.program := by
  intro j hj
  obtain ⟨htag, htask, hstands⟩ := h j hj
  exact ⟨htag, htask, hstands.stable hkeeps (hunused j hj)⟩

/-- More versions do no harm. -/
theorem Sound.append (h : Sound env V s) (more : List SyncStep) : Sound env (V ++ more) s where
  posts u i post hpost := (h.posts u i post hpost).append more
  rows u r hr := (h.rows u r hr).append more
  ids := h.ids
  events := h.events
  syncs j hj := ⟨List.mem_append_left _ (h.syncs j hj).1, (h.syncs j hj).2⟩
  within := h.within
  outboxes := h.outboxes
  ready := h.ready
  jobs j hj := by
    obtain ⟨htag, htask, hstands⟩ := h.jobs j hj
    exact ⟨htag, htask, hstands.mono fun post hpost => hpost.append more⟩
  tags := h.tags

theorem Sound.lose (h : Sound env V s) (lost : List Notice) : Sound env V { s with lost } :=
  { h with }

/-- A request comes to a post. -/
theorem Sound.sync (h : Sound env V s) (x : SyncStep) :
    Sound env (V ++ [x]) { s with syncs := s.syncs ++ [.start x] } := by
  have h' : Sound env (V ++ [x]) s := h.append [x]
  refine { h' with syncs := List.forall_mem_append.mpr ⟨h'.syncs, fun j hj => ?_⟩ }
  obtain rfl := List.mem_singleton.mp hj
  exact ⟨List.mem_append_right _ (List.mem_singleton_self x), only_start x⟩

theorem Sound.log (h : Sound env V s) {events : List Event} (hevents : ∀ e ∈ events, e.Configured) :
    Sound env V { s with store := { s.store with events := s.store.events ++ events } } :=
  { h with
    events := List.forall_mem_append.mpr ⟨h.events, hevents⟩
    within := fun d => (h.within d).append }

/-- A version over the row of its post. -/
theorem Sound.write (h : Sound env V s) {x : SyncStep} (hx : x ∈ V) :
    Sound env V { s with store := s.store.write x } := by
  refine { h with posts := fun u i post hpost => ?_ }
  change (if u = relation x.tableName ∧ i = x.post.postId then
    some (PostStore.storedOver (s.store.existing x) x.post) else s.store.posts u i) = some post
    at hpost
  split_ifs at hpost with hk
  · exact ⟨x, hx, hk.1.symm, hk.2.symm, _, (Option.some.inj hpost).symm⟩
  · exact h.posts u i post hpost

/-- An await of a request. -/
theorem Sound.turn (h : Sound env V s) {j : SyncJob} {before after : List SyncJob}
    (hsyncs : s.syncs = before ++ j :: after) :
    Sound env V { s with
      store := j.after s.store
      syncs := before ++ j.next s.store :: after } := by
  have hall := h.syncs
  rw [hsyncs] at hall
  obtain ⟨hbefore, hrest⟩ := List.forall_mem_append.mp hall
  obtain ⟨⟨hsent, hown⟩, hafter⟩ := List.forall_mem_cons.mp hrest
  have hstore : Sound env V { s with store := j.after s.store } := by
    obtain heq | ⟨-, heq⟩ := j.after_cases hown s.store
    · rw [heq]
      refine h.log fun e he => ?_
      obtain ⟨existing, rfl⟩ := of_unsent hown (Option.mem_toList.mp he)
      trivial
    · rw [heq]
      exact h.write hsent
  refine { hstore with syncs := List.forall_mem_append.mpr ⟨hbefore, ?_⟩ }
  exact List.forall_mem_cons.mpr ⟨⟨hsent, j.only_next hown s.store⟩, hafter⟩

/-- A request is done with a post. -/
theorem Sound.leave (h : Sound env V s) {j : SyncJob} {before after : List SyncJob}
    (hsyncs : s.syncs = before ++ j :: after) :
    Sound env V { s with syncs := before ++ after } := by
  refine { h with syncs := fun j' hj' => h.syncs j' ?_ }
  rw [hsyncs, List.mem_append] at *
  exact hj'.imp_right (List.mem_cons_of_mem _)

theorem Sound.withReader (h : Sound env V s) (d : Dispatcher) {r : LogReader AnyTask}
    (hwithin : r.Within s.store.events) (houtbox : ∀ t ∈ r.outbox, t.Configured) :
    Sound env V (s.withReader d r) := by
  refine { h with
    within := fun d' => ?_
    outboxes := fun d' => ?_ }
  · by_cases hd : d' = d
    · subst hd
      simpa [Ingestion.withReader] using hwithin
    · simpa [Ingestion.withReader, hd] using h.within d'
  · by_cases hd : d' = d
    · subst hd
      simpa [Ingestion.withReader] using houtbox
    · simpa [Ingestion.withReader, hd] using h.outboxes d'

theorem Sound.withReady (h : Sound env V s) {ready : List AnyTask}
    (hready : ∀ t ∈ ready, t.Configured) : Sound env V { s with ready } :=
  { h with ready := hready }

/-- Fewer workers. -/
theorem Sound.remove (h : Sound env V s) {j : ChunkJob} {before after : List ChunkJob}
    (hjobs : s.jobs = before ++ j :: after) :
    Sound env V { s with jobs := before ++ after } := by
  have hsub : (before ++ after).Sublist s.jobs := by
    rw [hjobs]
    exact (List.Sublist.refl before).append (List.sublist_cons_self j after)
  exact { h with
    jobs := fun j' hj' => h.jobs j' (hsub.subset hj')
    tags := (hsub.map ChunkJob.tag).nodup h.tags }

theorem Sound.unused (h : Sound env V s) :
    s.store.tables.Unused (env.draws s.deliveries).ids := by
  intro u r hr i
  obtain ⟨k, hk, l, hl⟩ := h.ids u r hr
  rw [hl]
  exact env.distinct (Nat.ne_of_lt hk) l i

theorem Sound.deliver (h : Sound env V s) {task : ChunkTask} {before after : List AnyTask}
    (hready : s.ready = before ++ .chunk task :: after) :
    Sound env V { s with
      ready := before ++ after
      jobs := s.jobs ++ [.start env s.deliveries task]
      deliveries := s.deliveries + 1 } := by
  have hin : ∀ t ∈ before ++ .chunk task :: after, t.Configured := hready ▸ h.ready
  have hrest : ∀ t ∈ before ++ after, t.Configured := by
    intro t ht
    apply hin
    rw [List.mem_append] at ht ⊢
    exact ht.imp_right (List.mem_cons_of_mem _)
  refine { h with
    ids := fun u r hr => ?_
    ready := hrest
    jobs := fun j hj => ?_
    tags := ?_ }
  · obtain ⟨k, hk, hid⟩ := h.ids u r hr
    exact ⟨k, Nat.lt_succ_of_lt hk, hid⟩
  · rw [List.mem_append, List.mem_singleton] at hj
    obtain hj | rfl := hj
    · obtain ⟨htag, hrest⟩ := h.jobs j hj
      exact ⟨Nat.lt_succ_of_lt htag, hrest⟩
    · exact ⟨Nat.lt_succ_self _, hin _ (List.mem_append_right _ List.mem_cons_self),
        .fetching h.unused⟩
  · rw [List.map_append, List.nodup_append]
    refine ⟨h.tags, List.nodup_singleton _, ?_⟩
    intro k hk l hl
    obtain ⟨j, hj, rfl⟩ := List.mem_map.mp hk
    rw [List.map_singleton, List.mem_singleton] at hl
    have htag : j.tag < s.deliveries := (h.jobs j hj).1
    have hnew : (ChunkJob.start env s.deliveries task).tag = s.deliveries := rfl
    omega

theorem Sound.tag_ne (h : Sound env V s) {j : ChunkJob} {before after : List ChunkJob}
    (hjobs : s.jobs = before ++ j :: after) : ∀ j' ∈ before ++ after, j'.tag ≠ j.tag := by
  have htags := h.tags
  rw [hjobs, List.map_append, List.map_cons, List.nodup_middle, List.nodup_cons,
    ← List.map_append] at htags
  intro j' hj' heq
  exact htags.1 (heq ▸ List.mem_map_of_mem hj')

/-- What an await of a worker does, and where it leaves the worker. -/
theorem Sound.jobStep (h : Sound env V s) {j : ChunkJob} (hj : j ∈ s.jobs) :
    JobStep env (j.task.Version V) j.tag j.task s.store
        (Coro.next chunkWorld (j.program, s.store)).2 j.program (j.next s.store).program ∧
      Standing env (j.task.Version V) j.tag j.task
        (Coro.next chunkWorld (j.program, s.store)).2.tables
        (j.next s.store).seen (j.next s.store).program :=
  (h.jobs j hj).2.2.next fun post hpost => h.posts _ _ post hpost

theorem Sound.others (h : Sound env V s) {j : ChunkJob} {before after : List ChunkJob}
    (hjobs : s.jobs = before ++ j :: after) {t : ChunkDb} {p p' : ChunkCoro (List String)}
    (hstep : JobStep env (j.task.Version V) j.tag j.task s.store t p p') :
    ∀ j' ∈ before ++ after, s.store.tables.Unused (env.draws j'.tag).ids →
      t.tables.Unused (env.draws j'.tag).ids := by
  intro j' hj' hunused u r hr i
  obtain hr | ⟨-, -, ⟨k, hk⟩, -⟩ := hstep.rows u r hr
  · exact hunused u r hr i
  · rw [hk]
    exact env.distinct (h.tag_ne hjobs j' hj').symm k i

theorem Sound.await (h : Sound env V s) {j : ChunkJob} {before after : List ChunkJob}
    (hjobs : s.jobs = before ++ j :: after) :
    Sound env V { s with
      store := (Coro.next chunkWorld (j.program, s.store)).2
      jobs := before ++ j.next s.store :: after } := by
  have hj : j ∈ s.jobs := by
    rw [hjobs]
    exact List.mem_append_right _ List.mem_cons_self
  obtain ⟨htag, htask, hstands⟩ := h.jobs j hj
  obtain ⟨hstep, hnext⟩ := h.jobStep hj
  have hothers := stands_of_keeps (fun j' hj' => h.jobs j' (by
    rw [hjobs, List.mem_append] at *
    exact hj'.imp_right (List.mem_cons_of_mem _))) hstep.keeps (h.others hjobs hstep)
  generalize (Coro.next chunkWorld (j.program, s.store)).2 = store at hstep hnext hothers ⊢
  refine { h with
    posts := fun u i post hpost => h.posts u i post (hstep.posts ▸ hpost)
    rows := fun u r hr => ?_
    ids := fun u r hr => ?_
    events := fun e he => ?_
    within := fun d => ?_
    jobs := fun j' hj' => ?_
    tags := ?_ }
  · obtain hr | ⟨hmade, hnone, -⟩ := hstep.rows u r hr
    · exact h.rows u r hr
    · exact ⟨⟨j.task, htask, hmade⟩, fun v hv => by rw [hnone] at hv; cases hv⟩
  · obtain hr | ⟨-, -, hid, -⟩ := hstep.rows u r hr
    · exact h.ids u r hr
    · exact ⟨j.tag, htag, hid⟩
  · rw [hstep.events, List.mem_append] at he
    apply he.elim
    · exact h.events e
    · intro he
      obtain ⟨chunks, rfl⟩ := hstands.of_unpublished (Option.mem_toList.mp he)
      exact configured_chunksCreated htask _ _ _
  · rw [hstep.events]
    exact (h.within d).append
  · rw [List.mem_append, List.mem_cons, or_left_comm, ← List.mem_append] at hj'
    obtain rfl | hj' := hj'
    · exact ⟨htag, htask, hnext⟩
    · exact hothers j' hj'
  · have htags :
        s.jobs.map ChunkJob.tag = (before ++ j.next s.store :: after).map ChunkJob.tag := by
      rw [hjobs, List.map_append, List.map_append]
      rfl
    exact htags ▸ h.tags

theorem Sound.batch (h : Sound env V s) {modelName : String}
    {b : EmbedBatch (env.encoder modelName)} {rest : List AnyTask}
    (hready : s.ready.Perm (batchTasks b ++ rest))
    (hmodel : ∀ t ∈ b.tasks, t.val.modelName = modelName) :
    (∀ t ∈ b.tasks, AnyTask.Configured (.embed t.val) ∧ t.val.modelName = modelName) ∧
      ∀ t ∈ rest, t.Configured := by
  have hall : ∀ t ∈ batchTasks b ++ rest, t.Configured := by
    intro t ht
    exact h.ready t (hready.mem_iff.mpr ht)
  refine ⟨fun t ht => ⟨?_, hmodel t ht⟩, fun t ht => hall t (List.mem_append_right _ ht)⟩
  exact hall _ (List.mem_append_left _ (List.mem_map_of_mem ht))

theorem Sound.withEmbeddings (h : Sound env V s) {modelName : String}
    {b : EmbedBatch (env.encoder modelName)} {db : EmbedDb}
    (htasks : ∀ t ∈ b.tasks, AnyTask.Configured (.embed t.val) ∧ t.val.modelName = modelName)
    (hleft : b.Left s.store.embedDb db) :
    Sound env V { s with store := s.store.withEmbeddings db } := by
  obtain ⟨htables, events, hevents⟩ := hleft
  have hevents' : db.events = s.store.events ++ events.map .embeddingCompleted := hevents
  have hsame : SameRows s.store.tables db.tables := by
    obtain htables | htables := htables
    · rw [htables]
      exact sameRows_refl _
    · rw [htables]
      exact sameRows_embedRows _ _ _
  have hkeeps : KeepsRows s.store.tables db.tables := by
    obtain htables | htables := htables
    · rw [htables]
      exact .refl _
    · rw [htables]
      exact keeps_embedRows _ _ _
  refine { h with
    rows := fun u r hr => ?_
    ids := fun u r hr => ?_
    events := fun e he => ?_
    within := fun d => ?_
    jobs := stands_of_keeps h.jobs hkeeps fun j _ => hsame.unused }
  · change db.tables.Has u r at hr
    obtain htables | htables := htables
    · rw [htables] at hr
      exact h.rows u r hr
    · rw [htables] at hr
      obtain ⟨r₀, hr₀, rfl⟩ := has_embedRows.mp hr
      exact (h.rows u r₀ hr₀).embedded htasks
  · obtain ⟨r₀, hr₀, heq⟩ := hsame u r hr
    have hid : r.id = r₀.id := congrArg Chunk.id heq
    rw [hid]
    exact h.ids u r₀ hr₀
  · change e ∈ db.events at he
    rw [hevents', List.mem_append] at he
    apply he.elim
    · exact h.events e
    · intro he
      obtain ⟨e, -, rfl⟩ := List.mem_map.mp he
      trivial
  · show (s.readers d).Within db.events
    rw [hevents']
    exact (h.within d).append

theorem left_after {E : String → Vec} (b : EmbedBatch E) (s : EmbedDb) : b.Left s (b.after s) :=
  left_leaves b s none

/-- Every step keeps the invariant, with the posts that it sends. -/
theorem Sound.step {a : IngestionAction} (h : Sound env V s) (hstep : Step env s a t) :
    Sound env (V ++ a.sent) t := by
  have hnone : V ++ [] = V := List.append_nil V
  cases hstep with
  | sync x => exact h.sync x
  | turn j before after hsyncs hreads => exact hnone.symm ▸ h.turn hsyncs
  | overlook j before after hsyncs hreads => exact hnone.symm ▸ (h.turn hsyncs).lose _
  | leave j before after hsyncs => exact hnone.symm ▸ (h.leave hsyncs).lose _
  | take d k e hdone hk he =>
    have hin : e ∈ s.store.events := List.mem_of_getElem? he
    exact hnone.symm ▸ h.withReader d ((h.within d).take he _)
      (configured_dispatched d (h.events e hin))
  | skip d k e hk he =>
    exact hnone.symm ▸ (h.withReader d ((h.within d).skip he) (h.outboxes d)).lose _
  | publish d t ts houtbox =>
    have hall : ∀ t' ∈ t :: ts, t'.Configured := houtbox ▸ h.outboxes d
    obtain ⟨ht, hts⟩ := List.forall_mem_cons.mp hall
    have hreader : Sound env V (s.withReader d ((s.readers d).rest ts)) :=
      h.withReader d (h.within d) hts
    refine hnone.symm ▸ hreader.withReady ?_
    exact List.forall_mem_append.mpr ⟨h.ready, List.forall_mem_singleton.mpr ht⟩
  | drop d =>
    have hreader : Sound env V (s.withReader d ((s.readers d).rest [])) :=
      h.withReader d (h.within d) (by simp [LogReader.rest])
    exact hnone.symm ▸ hreader.lose _
  | deliver task before after hready => exact hnone.symm ▸ h.deliver hready
  | await j before after hjobs hgoes => exact hnone.symm ▸ h.await hjobs
  | ack j before after ids hjobs hret => exact hnone.symm ▸ h.remove hjobs
  | kill j before after hjobs =>
    obtain ⟨-, htask, -⟩ := h.jobs j (by
      rw [hjobs]
      exact List.mem_append_right _ List.mem_cons_self)
    refine hnone.symm ▸ ((h.remove hjobs).withReady ?_).lose _
    exact List.forall_mem_append.mpr ⟨h.ready, List.forall_mem_singleton.mpr htask⟩
  | reject j before after hjobs => exact hnone.symm ▸ (h.remove hjobs).lose _
  | embed modelName b rest hready hname hmodel =>
    obtain ⟨htasks, hrest⟩ := h.batch hready hmodel
    exact hnone.symm ▸ (h.withEmbeddings htasks (left_after b _)).withReady hrest
  | embedStopped modelName b stop rest again gone hready hsettled hname hmodel =>
    obtain ⟨htasks, hrest⟩ := h.batch hready hmodel
    have hagain : ∀ t ∈ again, t.Configured := by
      intro t ht
      obtain ⟨x, hx, rfl⟩ := List.mem_map.mp (hsettled.mem_iff.mpr (List.mem_append_left _ ht))
      exact (htasks x hx).1
    refine hnone.symm ▸ ((h.withEmbeddings htasks (left_leaves b _ stop)).withReady ?_).lose _
    exact List.forall_mem_append.mpr ⟨hrest, hagain⟩
  | requeue t ht =>
    refine hnone.symm ▸ h.withReady ?_
    exact List.forall_mem_append.mpr ⟨h.ready, List.forall_mem_singleton.mpr ht⟩

theorem Sound.run {run : Run} (h : Sound env V s) (hrun : Runs.Each (Step env) s run) :
    Sound env (V ++ synced run) (Runs.last s run) := by
  induction run generalizing s V with
  | nil => simpa [synced, Runs.last] using h
  | cons p run ih =>
    obtain ⟨a, t⟩ := p
    have hrest := ih (h.step hrun.1) hrun.2
    have hsynced : V ++ synced ((a, t) :: run) = V ++ a.sent ++ synced run := by
      cases a <;> simp [synced, IngestionAction.sent]
    rw [hsynced]
    exact hrest

end Ingestion
end RagPipeline
