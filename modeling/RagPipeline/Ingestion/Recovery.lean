import RagPipeline.Ingestion.Guarantees
import RagPipeline.Services.Requeue

namespace RagPipeline
open ChunkTables RequeueService

/-! How the maintenance requests make up for what was lost. -/

def ReadsUnembedded (T : ChunkTables) (t : String) (rows : List (String × ℤ)) : Prop :=
  ∀ id p, (id, p) ∈ rows ↔ ∃ r, T.Has (relation t) r ∧ r.id = id ∧ r.postId = p ∧ r.embedding = none

def ReadsSummaries (s : ChunkDb) (t : String) (ids : List ℤ) : Prop :=
  ∀ i, i ∈ ids ↔ ∃ post, s.posts (relation t) i = some post ∧ truthy post.summary ≠ none

namespace Ingestion

/-- In the run, something is read of the state, and later every one of the tasks is published. -/
def ReadThenPublished (s : Ingestion) (run : Run) (reads : ChunkDb → Prop)
    (asked : AnyTask → Prop) : Prop :=
  ∃ before after, run = before ++ after ∧ reads (Runs.last s before).store ∧
    ∀ y, asked y → ∃ p ∈ after, p.1 = .requeue y

def AskedFor (newId : ℕ → String) (reader : ChunkTableReader) (t : String) (y : AnyTask) : Prop :=
  ∃ d ∈ (requeueMissingEmbeddings embedConfigs newId reader).2, d.task = y ∧
    (target d).1 = some t

variable {env : IngestionEnv} {V : List SyncStep} {s t : Ingestion} {n : ℕ} {u id : String}
  {i : ℤ} {type : ChunkTaskType}

theorem kept_run {C : Ingestion → Prop}
    (hkeep : ∀ {V s a t}, Sound env V s → Step env s a t → n ≤ s.lost.length → C s → C t)
    (hS : Sound env V s) (hn : n ≤ s.lost.length) {run : Run} (hrun : Runs.Each (Step env) s run)
    (h : C s) : C (Runs.last s run) := by
  induction run generalizing s V with
  | nil => exact h
  | cons p run ih =>
    obtain ⟨more, hlost⟩ := (hrun.1.grows hS).lost
    refine ih (hS.step hrun.1) ?_ hrun.2 (hkeep hS hrun.1 hn h)
    rw [hlost, List.length_append]
    exact hn.trans (Nat.le_add_right _ _)

/-- And so does what a task in the queues makes true, if it is published on the way. -/
theorem holds_of_published {C : Ingestion → Prop} {y : AnyTask}
    (hkeep : ∀ {V s a t}, Sound env V s → Step env s a t → n ≤ s.lost.length → C s → C t)
    (hready : ∀ s : Ingestion, y ∈ s.ready → C s) (hS : Sound env V s) (hn : n ≤ s.lost.length)
    {run : Run} (hrun : Runs.Each (Step env) s run) (hpublished : ∃ p ∈ run, p.1 = .requeue y) :
    C (Runs.last s run) := by
  induction run generalizing s V with
  | nil =>
    obtain ⟨p, hp, -⟩ := hpublished
    cases hp
  | cons p run ih =>
    obtain ⟨a, t⟩ := p
    have hS' : Sound env (V ++ a.sent) t := hS.step hrun.1
    have hn' : n ≤ t.lost.length := by
      obtain ⟨more, hlost⟩ := (Step.grows hS hrun.1).lost
      rw [hlost, List.length_append]
      exact hn.trans (Nat.le_add_right _ _)
    obtain ⟨p, hp, hy⟩ := hpublished
    rw [List.mem_cons] at hp
    obtain rfl | hp := hp
    · have hstep : Step env s a t := hrun.1
      obtain rfl : a = .requeue y := hy
      cases hstep
      exact kept_run hkeep hS' hn' hrun.2
        (hready _ (List.mem_append_right _ (List.mem_singleton_self y)))
    · exact ih hS' hn' hrun.2 ⟨p, hp, hy⟩

theorem rowCovered_of_ready {y : AnyTask} (h : (Notice.task y).OfRow u id) (s : Ingestion)
    (hy : y ∈ s.ready) : RowCovered n s u id :=
  fun _ _ _ _ => .inl ⟨_, waiting_of_ready hy, h⟩

theorem textCovered_of_ready {y : AnyTask} (h : (Notice.task y).OfText u i type) (s : Ingestion)
    (hy : y ∈ s.ready) : TextCovered env n s u i type :=
  fun _ _ _ => .inr (.inl ⟨_, waiting_of_ready hy, h⟩)

theorem scanned_requeue (newId : ℕ → String) (reader : ChunkTableReader) :
    Scanned embedConfigs reader reader.listChunkTables
      (requeueMissingEmbeddings embedConfigs newId reader) := by
  have hstart : Scanned embedConfigs reader []
      (⟨0, 0, reader.listChunkTables.length, 0, []⟩, []) :=
    ⟨by simp, .nil, rfl, rfl, rfl, rfl, rfl⟩
  exact hstart.foldl newId reader.listChunkTables

theorem exists_askedFor {newId : ℕ → String} {reader : ChunkTableReader} {table id : String} {p : ℤ}
    (ht : table ∈ reader.listChunkTables) (hrec : recognises embedConfigs table = true)
    (hread : (id, p) ∈ reader.fetchUnembeddedChunks table) :
    ∃ y, AskedFor newId reader table y ∧ (Notice.task y).OfRow (relation table) id := by
  have hscan := scanned_requeue newId reader
  have hexpected : (some table, some p, id) ∈
      expected embedConfigs reader reader.listChunkTables :=
    List.mem_flatMap.mpr ⟨table, List.mem_filter.mpr ⟨ht, hrec⟩, List.mem_map_of_mem hread⟩
  obtain ⟨d, hd, hcarried⟩ := List.mem_flatMap.mp (hscan.partition.mem_iff.mpr hexpected)
  obtain ⟨table', ht', postTable, taskType, cfg, hparse, taskId, postId, ids, hne, -, rfl⟩ :=
    hscan.tasks d hd
  obtain ⟨id', hid, heq⟩ := List.mem_map.mp hcarried
  obtain ⟨htable, hrest⟩ := Prod.mk.inj heq
  obtain rfl := Option.some.inj htable
  obtain ⟨-, rfl⟩ := Prod.mk.inj hrest
  refine ⟨_, ⟨_, hd, rfl, rfl⟩, EmbedTask.names_iff.mpr ⟨table', ?_, rfl, hid⟩⟩
  have hname : table' ≠ "" := by
    rintro rfl
    exact absurd hrec (by decide)
  show (if ids = [] then none else truthy (some table')) = some table'
  rw [if_neg hne]
  exact truthy_some hname

/-- A backfill asks for the summary of every post that it has read of a listed table. -/
theorem exists_backfilled {round : BackfillRound} {table : String}
    (ht : table ∈ round.reader.listPostTables)
    (hread : i ∈ round.reader.fetchPostsWithSummary table) :
    ∃ task ∈ round.tasks, task.postTable = table ∧
      (Notice.task (.chunk task)).OfText (relation table) i .summaryTitle := by
  have htarget : (table, i) ∈ ChunkBackfillService.targets round.tasks := by
    rw [BackfillRound.tasks_eq, (ChunkBackfillService.requeueTables_spec _ _ _ _ _).1]
    exact List.mem_append_right _ (List.mem_flatMap.mpr ⟨table, ht, List.mem_map_of_mem hread⟩)
  obtain ⟨task, htask, heq⟩ := List.mem_map.mp htarget
  obtain ⟨rfl, rfl⟩ := Prod.mk.inj heq
  have htype : task.taskType = .summaryTitle := by rw [round.isBackfill task htask]; rfl
  exact ⟨task, htask, rfl, rfl, rfl, htype⟩

theorem configured_backfilled {round : BackfillRound} :
    ∀ task ∈ round.tasks, AnyTask.Configured (.chunk task) := by
  intro task htask
  rw [round.isBackfill task htask]
  refine ⟨?_, qwen34bEmbedCfg, rfl, rfl⟩
  intro h
  cases h

/-- `POST /maintenance/requeue-missing-embeddings` during the run: each table is read, and the tasks
for what was read of it are published. -/
def RequeuesEmbeddings (s : Ingestion) (run : Run) (newId : ℕ → String)
    (reader : ChunkTableReader) : Prop :=
  ∀ t ∈ reader.listChunkTables, ReadThenPublished s run
    (fun db => ReadsUnembedded db.tables t (reader.fetchUnembeddedChunks t))
    (AskedFor newId reader t)

/-- The first half of `POST /maintenance/requeue-missing-chunks` during the run. -/
def RequeuesChunks (s : Ingestion) (run : Run) (round : BackfillRound) : Prop :=
  ∀ t ∈ round.reader.listPostTables, ReadThenPublished s run
    (fun db => ReadsSummaries db t (round.reader.fetchPostsWithSummary t))
    (fun y => ∃ task ∈ round.tasks, y = .chunk task ∧ task.postTable = t)

theorem le_lost_run (hS : Sound env V s) (hn : n ≤ s.lost.length) {run : Run}
    (hrun : Runs.Each (Step env) s run) : n ≤ (Runs.last s run).lost.length := by
  apply kept_run (C := fun t => n ≤ t.lost.length) _ hS hn hrun hn
  intro V s a t hS hstep hn hle
  obtain ⟨more, hlost⟩ := (hstep.grows hS).lost
  rw [hlost, List.length_append]
  exact hle.trans (Nat.le_add_right _ _)

theorem rowCovered_of_requeues (hS : Sound env V s) {run : Run} (hrun : Runs.Each (Step env) s run)
    {newId : ℕ → String} {reader : ChunkTableReader} (h : RequeuesEmbeddings s run newId reader)
    {table : String} (ht : table ∈ reader.listChunkTables)
    (hrec : recognises embedConfigs table = true) (id : String) :
    RowCovered s.lost.length (Runs.last s run) (relation table) id := by
  obtain ⟨before, after, rfl, hread, hpublished⟩ := h table ht
  obtain ⟨hbefore, hafter⟩ := Runs.Each.append.mp hrun
  have hS' : Sound env (V ++ synced before) (Runs.last s before) := hS.run hbefore
  have hn := le_lost_run hS (Nat.le_refl _) hbefore
  rw [Runs.last_append]
  by_cases hmissing : ∃ r, (Runs.last s before).store.tables.Has (relation table) r ∧ r.id = id ∧
      r.embedding = none
  · obtain ⟨r, hr, hid, hnone⟩ := hmissing
    obtain ⟨y, hasked, hof⟩ := exists_askedFor ht hrec ((hread id r.postId).mpr
      ⟨r, hr, hid, rfl, hnone⟩)
    exact holds_of_published (fun hS hstep hn h => RowCovered.step hS hstep hn h)
      (rowCovered_of_ready hof) hS' hn hafter (hpublished y hasked)
  · apply kept_run (fun hS hstep hn h => RowCovered.step hS hstep hn h) hS' hn hafter
    intro r hr hid hnone
    exact absurd ⟨r, hr, hid, hnone⟩ hmissing

theorem textCovered_of_requeues (hS : Sound env V s) {run : Run} (hrun : Runs.Each (Step env) s run)
    {round : BackfillRound} (h : RequeuesChunks s run round) {table : String}
    (ht : table ∈ round.reader.listPostTables) (i : ℤ) :
    TextCovered env s.lost.length (Runs.last s run) (relation table) i .summaryTitle := by
  obtain ⟨before, after, rfl, hread, hpublished⟩ := h table ht
  obtain ⟨hbefore, hafter⟩ := Runs.Each.append.mp hrun
  have hS' : Sound env (V ++ synced before) (Runs.last s before) := hS.run hbefore
  have hn := le_lost_run hS (Nat.le_refl _) hbefore
  rw [Runs.last_append]
  by_cases hsummary : i ∈ round.reader.fetchPostsWithSummary table
  · obtain ⟨task, htask, htable, hof⟩ := exists_backfilled ht hsummary
    exact holds_of_published (fun hS hstep hn h => TextCovered.step hS hstep hn h)
      (textCovered_of_ready hof) hS' hn hafter (hpublished _ ⟨task, htask, rfl, htable⟩)
  · apply kept_run (fun hS hstep hn h => TextCovered.step hS hstep hn h) hS' hn hafter
    intro post hpost hwanted
    refine absurd ((hread i).mpr ⟨post, hpost, ?_⟩) hsummary
    exact Option.isSome_iff_ne_none.mp (hwanted.2 rfl)

/-- What is left without a vector once the missing embeddings were asked for again and the pipeline
has come to rest: rows that had none before, of tables that the scan does not list or recognise. -/
def LeftOut (s : Ingestion) (reader : ChunkTableReader) (u : String) (r : StoredChunk) : Prop :=
  (∃ r₀, s.store.tables.Has u r₀ ∧ r₀.id = r.id ∧ r₀.embedding = none) ∧
    ∀ t ∈ reader.listChunkTables, recognises embedConfigs t = true → relation t ≠ u

theorem leftOut_of_resting (hS : Sound env V s) {run : Run} (hrun : Runs.Each (Step env) s run)
    {newId : ℕ → String} {reader : ChunkTableReader} (h : RequeuesEmbeddings s run newId reader)
    (hrest : Resting (Runs.last s run)) (hlost : (Runs.last s run).lost = s.lost) {r : StoredChunk}
    (hr : (Runs.last s run).store.tables.Has u r) (hnone : r.embedding = none) :
    LeftOut s reader u r := by
  have hlen : (Runs.last s run).lost.length ≤ s.lost.length := by rw [hlost]
  constructor
  · by_contra hnew
    have hcovered : RowCovered s.lost.length (Runs.last s run) u r.id := by
      apply kept_run (fun hS hstep hn h => RowCovered.step hS hstep hn h) hS (Nat.le_refl _) hrun
      intro r₀ hr₀ hid hnone₀
      exact absurd ⟨r₀, hr₀, hid, hnone₀⟩ hnew
    exact hrest.not_rowAwaited hlen (hcovered r hr rfl hnone)
  · rintro t ht hrec rfl
    exact hrest.not_rowAwaited hlen
      (rowCovered_of_requeues hS hrun h ht hrec r.id r hr rfl hnone)

/-- After any losses: once the missing embeddings were asked for again and the pipeline has come to
rest with nothing more lost, every chunk has the vector of its text, but for those that the scan
cannot see. -/
theorem requeue_recovers (env : IngestionEnv) (run more : Run)
    (hrun : Runs.Each (Step env) .empty run)
    (hmore : Runs.Each (Step env) (Runs.last .empty run) more) (newId : ℕ → String)
    (reader : ChunkTableReader)
    (hrequeues : RequeuesEmbeddings (Runs.last .empty run) more newId reader)
    (hrest : Resting (Runs.last .empty (run ++ more)))
    (hlost : (Runs.last .empty (run ++ more)).lost = (Runs.last .empty run).lost) :
    ∀ u r, (Runs.last .empty (run ++ more)).store.tables.Has u r →
      LeftOut (Runs.last .empty run) reader u r ∨
        ∃ table m, IsChunkTable table m ∧ u = relation table ∧
          r.embedding = some (env.encoder m r.text) := by
  have hS : Sound env ([] ++ synced run) (Runs.last .empty run) := (sound_empty env).run hrun
  rw [Runs.last_append] at hrest hlost ⊢
  intro u r hr
  cases hv : r.embedding with
  | none => exact .inl (leftOut_of_resting hS hmore hrequeues hrest hlost hr hv)
  | some v =>
    obtain ⟨table, m, hchunk, hu, rfl⟩ := ((hS.run hmore).rows u r hr).vector v hv
    exact .inr ⟨table, m, hchunk, hu, rfl⟩

def summarisedTask (type : ChunkTaskType) (cfg : EmbedConfig) : ChunkTask where
  taskId := type.key
  traceId := none
  parentSpanId := none
  sourceEventId := some "event"
  taskType := type
  postId := 50
  postTable := "posts_main"
  embedModel := cfg.primary
  analysisText := none

def bodyTask : ChunkTask := summarisedTask .body bgeBaseEmbedCfg

def titleTask : ChunkTask := summarisedTask .title bgeSmallEmbedCfg

def summaryTask : ChunkTask := summarisedTask .summaryTitle qwen34bEmbedCfg

def dispatching (outbox ready : List AnyTask) (lost : List Notice) : Ingestion :=
  { (empty.announced summarisedStep).withReader .post ⟨[0], outbox⟩ with ready, lost }

def titleChunked : ChunkDb :=
  (Coro.run chunkWorld (ChunkJob.start numberedEnv 0 titleTask).program
    (empty.announced summarisedStep).store).2

def titleChunks : ChunksCreatedEvent :=
  ChunkPostHandler.chunksCreated (numberedDraws 0).eventId (numberedDraws 0).span titleTask
    (drawnChunks numberedEnv 0 titleTask summarisedStep.post "text")

/-- The event of the title's chunk is passed over, and the summary's task is lost. -/
def overtaken : Ingestion :=
  { (dispatching [] [.chunk bodyTask] [.task (.chunk summaryTask), .event (.chunksCreated
      titleChunks)]).withReader .chunk ⟨[1], []⟩ with
    store := titleChunked
    deliveries := 1 }

theorem dispatched_summarised : numberedEnv.dispatched .post
    (.postSynced (summarisedStep.event none)) =
      [.chunk bodyTask, .chunk titleTask, .chunk summaryTask] := by
  rfl

theorem step_publish (t : AnyTask) (outbox ready : List AnyTask) (lost : List Notice) :
    Step numberedEnv (dispatching (t :: outbox) ready lost) (.dispatch .post)
      (dispatching outbox (ready ++ [t]) lost) := by
  have hstep : Step numberedEnv (dispatching (t :: outbox) ready lost) (.dispatch .post) _ :=
    .publish _ .post t outbox (congrArg LogReader.outbox (withReader_self _))
  simpa [dispatching, Ingestion.withReader, LogReader.rest] using hstep

theorem leads_dispatching : Leads numberedEnv (empty.announced summarisedStep)
    (dispatching [] [.chunk bodyTask, .chunk titleTask] [.task (.chunk summaryTask)]) := by
  have htake : Step numberedEnv (empty.announced summarisedStep) (.dispatch .post)
      (dispatching [.chunk bodyTask, .chunk titleTask, .chunk summaryTask] [] []) := by
    have hstep : Step numberedEnv (empty.announced summarisedStep) (.dispatch .post) _ :=
      .take _ .post 0 _ rfl List.not_mem_nil rfl
    rw [dispatched_summarised] at hstep
    exact hstep
  have hdrop : Step numberedEnv
      (dispatching [.chunk summaryTask] [.chunk bodyTask, .chunk titleTask] [])
      (.dispatch .post)
      (dispatching [] [.chunk bodyTask, .chunk titleTask] [.task (.chunk summaryTask)]) := by
    have hstep : Step numberedEnv
        (dispatching [.chunk summaryTask] [.chunk bodyTask, .chunk titleTask] [])
        (.dispatch .post) _ := .drop _ .post
    simpa [dispatching, Ingestion.withReader, LogReader.rest] using hstep
  exact .head htake trivial (.head (step_publish ..) trivial (.head (step_publish ..) trivial
    (.single hdrop trivial)))

/-- The title's event, and its chunk without a vector. -/
theorem stored_titleChunked : titleChunked.events =
      [.postSynced (summarisedStep.event none), .chunksCreated titleChunks] ∧
    (titleChunked.tables (relation titleTask.chunkTableName)).map
      (fun table => table.rows.map fun r => (r.id, r.postId, r.embedding)) =
        some [((numberedDraws 0).ids 0, 50, none)] := by
  decide +kernel

theorem leads_overtaken : Leads numberedEnv (empty.announced summarisedStep) overtaken := by
  have hS := sound_announced numberedEnv summarisedStep
  have hdeliver : Step numberedEnv
      (dispatching [] [.chunk bodyTask, .chunk titleTask] [.task (.chunk summaryTask)]) .work _ :=
    .deliver _ titleTask [.chunk bodyTask] [] rfl
  have hdelivered := leads_dispatching.trans (.single hdeliver trivial)
  have hjobs : [ChunkJob.start numberedEnv 0 titleTask] =
      [] ++ ChunkJob.start numberedEnv 0 titleTask :: [] := rfl
  obtain ⟨hfinished, -⟩ :=
    leads_finished returnsOn_summarisedStep (hS.leads hdelivered) hjobs
  refine hdelivered.trans (hfinished.trans (.single (i := .dispatch .chunk) ?_ trivial))
  have hstep : Step numberedEnv _ (.dispatch .chunk) _ :=
    .skip { (dispatching [] [.chunk bodyTask] [.task (.chunk summaryTask)]) with
      store := titleChunked, deliveries := 1 } .chunk 1 (.chunksCreated titleChunks)
      List.not_mem_nil (by rw [stored_titleChunked.1]; rfl)
  exact hstep

/-- The table of the titles is listed, and the chunk without a vector is found in it. -/
def titleReader : ChunkTableReader where
  listChunkTables := [titleTask.chunkTableName]
  fetchUnembeddedChunks _ := [((numberedDraws 0).ids 0, 50)]

def requeuedTask : EmbedTask :=
  embedTask (toString 0) "posts_main" titleTask.chunkTableName bgeSmallEmbedCfg.primary 50
    [(numberedDraws 0).ids 0]

theorem requeued_titleReader :
    (requeueMissingEmbeddings embedConfigs (fun i => toString i) titleReader).2 =
      [⟨"embedding", bgeSmallEmbedCfg.queue, .embed requeuedTask⟩] := by
  rfl

theorem readsUnembedded_overtaken (t : String) : ReadsUnembedded overtaken.store.tables
    titleTask.chunkTableName (titleReader.fetchUnembeddedChunks t) := by
  obtain ⟨table, hT, hrows⟩ := Option.map_eq_some_iff.mp stored_titleChunked.2
  intro id p
  have hmem : (id, p) ∈ [((numberedDraws 0).ids 0, (50 : ℤ))] ↔
      (id, p, (none : Option Vec)) ∈ [((numberedDraws 0).ids 0, (50 : ℤ), none)] := by
    simp
  show (id, p) ∈ [((numberedDraws 0).ids 0, (50 : ℤ))] ↔ _
  rw [hmem, ← hrows, List.mem_map]
  constructor
  · rintro ⟨r, hr, heq⟩
    obtain ⟨rfl, rfl, hnone⟩ : r.id = id ∧ r.postId = p ∧ r.embedding = none := by simpa using heq
    exact ⟨r, ⟨table, hT, hr⟩, rfl, rfl, hnone⟩
  · rintro ⟨r, ⟨table', hT', hr⟩, rfl, rfl, hnone⟩
    obtain rfl : table' = table := Option.some.inj (hT'.symm.trans hT)
    exact ⟨r, hr, by rw [hnone]⟩

theorem relation_posts_main : relation "posts_main" = "posts_main" := by
  rw [relation]
  decide

theorem posts_overtaken (i : ℤ) : overtaken.store.posts "posts_main" i =
    if i = 50 then some (PostStore.stored summarisedStep.post) else none := by
  have hposts : overtaken.store.posts = (empty.announced summarisedStep).store.posts :=
    posts_of_leads (sound_announced numberedEnv summarisedStep) leads_overtaken
  have htable : relation summarisedStep.tableName = relation "posts_main" := rfl
  rw [hposts, ← relation_posts_main, ← htable]
  show (if _ ∧ _ then _ else _) = _
  simp only [true_and]
  rfl

theorem reads_overtaken : ReadsSummaries overtaken.store "posts_main" [50] := by
  intro i
  rw [relation_posts_main, posts_overtaken, List.mem_singleton]
  by_cases hi : i = 50 <;> simp [hi, PostStore.stored, summarisedStep, truthy]

theorem exists_recovered : ∃ more, Runs.Each (Step numberedEnv) overtaken more ∧
    RequeuesChunks overtaken more summarisedRound ∧
    RequeuesEmbeddings overtaken more (fun i => toString i) titleReader ∧
    Resting (Runs.last overtaken more) ∧ (Runs.last overtaken more).syncs = [] ∧
      (Runs.last overtaken more).lost = overtaken.lost ∧
        (Runs.last overtaken more).store.posts = overtaken.store.posts := by
  have hS : Sound numberedEnv [summarisedStep] overtaken :=
    (sound_announced numberedEnv summarisedStep).leads leads_overtaken
  let task := ChunkBackfillService.chunkTask "task" qwen34bEmbedCfg.primary "posts_main" 50
  have htasks : summarisedRound.tasks = [task] := rfl
  have hchunk : AnyTask.Configured (.chunk task) :=
    configured_backfilled task (htasks ▸ List.mem_singleton_self task)
  have hembed : AnyTask.Configured (.embed requeuedTask) :=
    ⟨⟨_, rfl, "posts_main", .title, bgeSmallEmbedCfg, rfl, rfl, rfl⟩, rfl, rfl⟩
  have hfirst : Step numberedEnv overtaken (.requeue (.chunk task)) _ := .requeue _ _ hchunk
  have hsecond : Step numberedEnv { overtaken with ready := overtaken.ready ++ [.chunk task] }
      (.requeue (.embed requeuedTask)) _ := .requeue _ _ hembed
  have hS' := (hS.step hfirst).step hsecond
  obtain ⟨t, hleads, hlost, hrest⟩ := leads_resting returnsOn_summarisedStep hS'
  have hposts := posts_of_leads hS' hleads
  have hsyncs := syncs_of_leads hleads
  obtain ⟨run, hrun, -, rfl⟩ := hleads
  refine ⟨(.requeue (.chunk task), _) :: (.requeue (.embed requeuedTask), _) :: run,
    ⟨hfirst, hsecond, hrun⟩, ?_, ?_, hrest, hsyncs, hlost, hposts⟩
  · intro table htable
    obtain rfl := List.mem_singleton.mp htable
    refine ⟨[], _, rfl, reads_overtaken, ?_⟩
    rintro y ⟨task', htask', rfl, -⟩
    rw [htasks, List.mem_singleton] at htask'
    exact ⟨_, List.mem_cons_self, by rw [htask']⟩
  · intro table htable
    obtain rfl := List.mem_singleton.mp htable
    refine ⟨[], _, rfl, readsUnembedded_overtaken _, ?_⟩
    rintro y ⟨d, hd, rfl, -⟩
    rw [requeued_titleReader, List.mem_singleton] at hd
    subst hd
    exact ⟨_, List.mem_cons_of_mem _ List.mem_cons_self, rfl⟩

theorem requeue_recovers_overtaken : ∃ run more, Runs.Each (Step numberedEnv) .empty run ∧
    Runs.Each (Step numberedEnv) (Runs.last .empty run) more ∧
    (∃ u r, (Runs.last .empty run).store.tables.Has u r ∧ r.embedding = none) ∧
    ∀ u r, (Runs.last .empty (run ++ more)).store.tables.Has u r →
      LeftOut (Runs.last .empty run) titleReader u r ∨
        ∃ table m, IsChunkTable table m ∧ u = relation table ∧
          r.embedding = some [(r.text.length : ℚ)] := by
  obtain ⟨run, hrun, -, hlast⟩ := exists_led rfl rfl leads_overtaken
  obtain ⟨more, hmore, -, hembeddings, hrest, -, hlost, -⟩ := exists_recovered
  rw [← hlast] at hmore hembeddings hrest hlost
  rw [← Runs.last_append] at hrest hlost
  obtain ⟨r, hr, -, -, hnone⟩ := (readsUnembedded_overtaken "" _ _).mp (List.mem_singleton_self _)
  exact ⟨run, more, hrun, hmore, ⟨_, r, hlast ▸ hr, hnone⟩,
    requeue_recovers numberedEnv run more hrun hmore _ titleReader hembeddings hrest hlost⟩

/-- And once the missing chunks were asked for as well, and no request is under way, the summary of
every post of the tables that the scan lists is chunked as it is now, whatever was lost before. -/
theorem backfill_recovers (env : IngestionEnv) (run more : Run)
    (hrun : Runs.Each (Step env) .empty run)
    (hmore : Runs.Each (Step env) (Runs.last .empty run) more) (round : BackfillRound)
    (hchunks : RequeuesChunks (Runs.last .empty run) more round) (newId : ℕ → String)
    (reader : ChunkTableReader)
    (hembeddings : RequeuesEmbeddings (Runs.last .empty run) more newId reader)
    (hrest : Resting (Runs.last .empty (run ++ more)))
    (hsyncs : (Runs.last .empty (run ++ more)).syncs = [])
    (hlost : (Runs.last .empty (run ++ more)).lost = (Runs.last .empty run).lost) :
    ∀ t ∈ round.reader.listPostTables, ∀ i post,
      (Runs.last .empty (run ++ more)).store.posts (relation t) i = some post →
        truthy post.summary ≠ none → ∃ task, AnyTask.Configured (.chunk task) ∧
          task.About (relation t) i .summaryTitle ∧
            ∀ text, task.textIn (Runs.last .empty (run ++ more)).store = some text →
              ∀ window ∈ env.chunking.chunkText .summaryTitle text, ∃ r,
                (Runs.last .empty (run ++ more)).store.tables.Has
                  (relation task.chunkTableName) r ∧ r.postId = i ∧
                r.textHash = env.chunking.sha256 window ∧
                (r.embedding = none →
                  LeftOut (Runs.last .empty run) reader (relation task.chunkTableName) r) := by
  have hS : Sound env ([] ++ synced run) (Runs.last .empty run) := (sound_empty env).run hrun
  rw [Runs.last_append] at hrest hsyncs hlost ⊢
  intro t ht i post hpost hsummary
  have hwanted : ChunkTaskType.summaryTitle.Wanted post :=
    ⟨by decide, fun _ => Option.isSome_iff_ne_none.mpr hsummary⟩
  obtain ⟨task, hconfigured, habout, hstored⟩ :=
    (textCovered_of_requeues hS hmore hchunks ht i post hpost hwanted).resolve_right
      (hrest.not_textAwaited hsyncs (by rw [hlost]))
  refine ⟨task, hconfigured, habout, fun text htext window hw => ?_⟩
  obtain ⟨r, hr, hid, hhash⟩ := hstored text htext window (habout.type ▸ hw)
  exact ⟨r, hr, hid.trans habout.post, hhash, fun hnone =>
    leftOut_of_resting hS hmore hembeddings hrest hlost hr hnone⟩

theorem backfill_recovers_overtaken : ∃ run more, Runs.Each (Step numberedEnv) .empty run ∧
    Runs.Each (Step numberedEnv) (Runs.last .empty run) more ∧
    (Runs.last .empty (run ++ more)).store.posts "posts_main" 50 =
      some (PostStore.stored summarisedStep.post) ∧
    ∃ task, AnyTask.Configured (.chunk task) ∧
      task.About (relation "posts_main") 50 .summaryTitle ∧
        ∀ text, task.textIn (Runs.last .empty (run ++ more)).store = some text →
          ∀ window ∈ numberedEnv.chunking.chunkText .summaryTitle text, ∃ r,
            (Runs.last .empty (run ++ more)).store.tables.Has (relation task.chunkTableName) r ∧
              r.postId = 50 ∧ r.textHash = numberedEnv.chunking.sha256 window ∧
                (r.embedding = none → LeftOut (Runs.last .empty run) titleReader
                  (relation task.chunkTableName) r) := by
  obtain ⟨run, hrun, -, hlast⟩ := exists_led rfl rfl leads_overtaken
  obtain ⟨more, hmore, hchunks, hembeddings, hrest, hsyncs, hlost, hposts⟩ := exists_recovered
  rw [← hlast] at hmore hchunks hembeddings hrest hsyncs hlost
  rw [← Runs.last_append] at hrest hsyncs hlost
  have hpost : (Runs.last .empty (run ++ more)).store.posts "posts_main" 50 =
      some (PostStore.stored summarisedStep.post) := by
    rw [Runs.last_append, hlast, hposts, posts_overtaken]
    rfl
  exact ⟨run, more, hrun, hmore, hpost, backfill_recovers numberedEnv run more hrun hmore
    summarisedRound hchunks _ titleReader hembeddings hrest hsyncs hlost "posts_main"
    (List.mem_singleton_self _) 50 _ (relation_posts_main ▸ hpost) (by decide)⟩

end Ingestion
end RagPipeline
