import RagPipeline.Ingestion.Guarantees
import RagPipeline.Search.Answered

namespace RagPipeline
namespace EndToEnd
open ChunkTables

/-! Posts that are ingested and searches that are answered, on one database. -/

/-- What the models compute, and pgvector. Queries are embedded as the texts are. -/
structure ServiceEnv where
  ingestion : IngestionEnv
  distance : Vec → Vec → ℚ
  scorer : String → String → String → ℚ
  metadata : ChunkMetadata → Option String

def ServiceEnv.search (env : ServiceEnv) : Searching.SearchEnv :=
  ⟨env.distance, env.ingestion.encoder, env.scorer, env.metadata⟩

/-- Both subsystems, and the versions of posts that were sent so far. -/
structure State where
  ingestion : Ingestion
  search : Searching.State
  sent : List SyncStep

/-- A database whose chunk tables have no rows yet. -/
def start (T : ChunkTables) : State where
  ingestion := { Ingestion.empty with store := { ChunkDb.empty with tables := T } }
  search := Searching.noJobs T
  sent := []

/-- The search sees the chunk tables change as ingestion changes them, and in no other way. -/
inductive Step (env : ServiceEnv) (s : State) : State → Prop
  | ingest {a : IngestionAction} {t : Ingestion}
      (h : Ingestion.Step env.ingestion s.ingestion a t) :
      Step env s
        { ingestion := t
          search := { s.search with tables := t.store.tables, earlier := s.search.past }
          sent := s.sent ++ a.sent }
  | search {u : Searching.State} (h : Searching.Step env.search s.search u)
      (hpast : u.past = s.search.past) : Step env s { s with search := u }

abbrev Run (env : ServiceEnv) (s t : State) : Prop := Relation.ReflTransGen (Step env) s t

variable {env : ServiceEnv} {s t : State} {T : ChunkTables}

theorem sound_start (env : IngestionEnv) (hT : ∀ u r, ¬T.Has u r) :
    Ingestion.Sound env [] (start T).ingestion where
  posts u i post h := by cases h
  rows u r h := absurd h (hT u r)
  ids u r h := absurd h (hT u r)
  events e he := by cases he
  syncs j hj := by cases hj
  within d k hk := by cases hk
  outboxes d t ht := by cases ht
  ready t ht := by cases ht
  jobs j hj := by cases hj
  tags := List.nodup_nil

/-- The search runs on the tables of the ingestion, whose rows stay as they are but for their
vectors. -/
structure Joined (env : ServiceEnv) (T : ChunkTables) (s : State) : Prop where
  sound : Ingestion.Sound env.ingestion s.sent s.ingestion
  tables : s.search.tables = s.ingestion.store.tables
  run : Searching.Run env.search (Searching.noJobs T) s.search
  kept : s.search.past.Pairwise fun later earlier => KeepsRows earlier later
  sourced : ∀ S ∈ s.search.past, ∀ u r, S.Has u r → Sourced env.ingestion s.sent u r

theorem joined_start (env : ServiceEnv) (hT : ∀ u r, ¬T.Has u r) : Joined env T (start T) where
  sound := sound_start env.ingestion hT
  tables := rfl
  run := .refl
  kept := List.pairwise_singleton _ _
  sourced S hS u r hr := by
    rw [List.mem_singleton.mp hS] at hr
    exact absurd hr (hT u r)

theorem tables_of_past {u v : Searching.State} (h : u.past = v.past) : u.tables = v.tables :=
  (List.cons.inj h).1

theorem Joined.step (hs : Joined env T s) (h : Step env s t) : Joined env T t := by
  cases h with
  | @ingest a t h =>
    have hsound : Ingestion.Sound env.ingestion (s.sent ++ a.sent) t := hs.sound.step h
    have hkeeps : KeepsRows s.search.tables t.store.tables :=
      hs.tables ▸ (h.rowsStep hs.sound).keeps
    have hkept := hs.kept
    rw [Searching.State.past, List.pairwise_cons] at hkept
    refine ⟨hsound, rfl, hs.run.tail (.tables t.store.tables), ?_, ?_⟩
    · refine List.pairwise_cons.mpr ⟨fun S hS => ?_, hs.kept⟩
      obtain rfl | hS := List.mem_cons.mp hS
      · exact hkeeps
      · exact (hkept.1 S hS).trans hkeeps
    · intro S hS u r hr
      obtain rfl | hS := List.mem_cons.mp hS
      · exact hsound.rows u r hr
      · exact (hs.sourced S hS u r hr).append a.sent
  | @search u h hpast =>
    refine ⟨hs.sound, (tables_of_past hpast).trans hs.tables, hs.run.tail h, ?_, ?_⟩
    · exact hpast ▸ hs.kept
    · exact hpast ▸ hs.sourced

theorem Joined.of_run (hT : ∀ u r, ¬T.Has u r) (h : Run env (start T) s) : Joined env T s := by
  induction h with
  | refl => exact joined_start env hT
  | tail _ hstep ih => exact ih.step hstep

theorem mem_rowsOf {table : String} {r : StoredChunk} :
    r ∈ Searching.rowsOf T table ↔ T.Has (relation table) r := by
  unfold Searching.rowsOf Has
  cases T (relation table) <;> simp

/-- A row that was found is still there later, as it was but for its vector. -/
theorem currentRow_kept {search : Searching.SearchEnv} {S U : ChunkTables} {table id : String}
    {row : ChunkRow} (h : KeepsRows S U)
    (hrow : Searching.currentRow search S table id = some row) :
    Searching.currentRow search U table id = some row := by
  obtain ⟨r, hr, rfl⟩ := Option.map_eq_some_iff.mp hrow
  obtain ⟨r', hr', hsame⟩ := h.rows _ r (mem_rowsOf.mp (List.mem_of_find?_eq_some hr))
  have hid : r'.id = id := (congrArg Chunk.id hsame).trans (Searching.id_of_find? hr)
  have hfind := Searching.find?_of_mem (Searching.nodup_rowsOf U table) (mem_rowsOf.mpr hr')
  rw [Searching.currentRow, ← hid, hfind]
  show some (Searching.chunkRow search r') = some (Searching.chunkRow search r)
  unfold Searching.chunkRow
  rw [hsame]

theorem exists_row_of_found {search : Searching.SearchEnv} {S : ChunkTables}
    {r : Searching.JobRequest} {found : List ScoredChunk} (h : Searching.Found search S r found)
    {f : ScoredChunk} (hf : f ∈ found) :
    ∃ row v, S.Has (relation r.chunksTable) row ∧ row.embedding = some v ∧
      f = Searching.scored search (r.queryVector search) row v := by
  obtain ⟨ordered, hperm, -, rfl⟩ := h
  have hscored := hperm.mem_iff.mp (List.mem_of_mem_take hf)
  obtain ⟨row, hrow, hvector⟩ := List.mem_filterMap.mp hscored
  obtain ⟨v, hv, rfl⟩ := Option.map_eq_some_iff.mp hvector
  exact ⟨row, v, mem_rowsOf.mp hrow, hv, rfl⟩

/-- The stored results of a search are the `k` nearest rows of the table at one moment, all of which
are there as they were at the later moment at which the results are made. Each is a window of the
text of a post that was sent, and its distance to the query is that of the vector that its own text
has. -/
theorem results_of_posts (hT : ∀ u r, ¬T.Has u r) (h : Run env (start T) s) {id : String}
    {j : SearchJob} (hrow : s.search.jobs id = some j) {results : List SearchResult}
    (hresults : j.results = some results) :
    ∃ later U earlier, s.search.past = later ++ U :: earlier ∧ ∃ S ∈ U :: earlier, ∃ found,
      Searching.Found env.search S (Searching.request j) found ∧
      results = (Searching.request j).immediate env.search found ∧
      ∀ f ∈ found, ∃ row m table,
        S.Has (relation j.chunksTable) row ∧
        (∃ kept, U.Has (relation j.chunksTable) kept ∧ kept.toChunk = row.toChunk) ∧
        Sourced env.ingestion s.sent (relation j.chunksTable) row ∧
        IsChunkTable table m ∧ relation j.chunksTable = relation table ∧
        f = Searching.scored env.search ((Searching.request j).queryVector env.search) row
          (env.ingestion.encoder m row.text) := by
  have hjoined : Joined env T s := Joined.of_run hT h
  obtain ⟨later, U, earlier, hpast, S, hS, found, hfound, rfl⟩ :=
    ((Searching.sound_run (Searching.sound_noJobs T) hjoined.run).rows id j hrow).results
      results hresults
  have hmem : S ∈ s.search.past := hpast ▸ List.mem_append_right _ hS
  have hkeeps : KeepsRows S U := by
    have hkept := hjoined.kept
    rw [hpast, List.pairwise_append, List.pairwise_cons] at hkept
    obtain rfl | hS := List.mem_cons.mp hS
    · exact .refl S
    · exact hkept.2.1.1 S hS
  refine ⟨later, U, earlier, hpast, S, hS, found, hfound, ?_, fun f hf => ?_⟩
  · apply Searching.results_of_kept
    exact fun f hf => currentRow_kept hkeeps (Searching.currentRow_found hfound hf)
  · obtain ⟨row, v, hhas, hv, hscored⟩ := exists_row_of_found hfound hf
    have hsourced := hjoined.sourced S hmem _ row hhas
    obtain ⟨table, m, htable, hsame, rfl⟩ := hsourced.vector v hv
    exact ⟨row, m, table, hhas, hkeeps.rows _ row hhas, hsourced, htable, hsame, hscored⟩

theorem run_of_ingestion {i : Ingestion} {V : List SyncStep} {u : Searching.State}
    {run : Ingestion.Run} (h : Runs.Each (Ingestion.Step env.ingestion) i run)
    (hu : u.tables = i.store.tables) :
    ∃ earlier, Run env ⟨i, u, V⟩ ⟨Runs.last i run,
      { u with tables := (Runs.last i run).store.tables, earlier }, V ++ Ingestion.synced run⟩ := by
  induction run generalizing i V u with
  | nil =>
    refine ⟨u.earlier, ?_⟩
    rw [Ingestion.synced, List.filterMap_nil, List.append_nil, Runs.last, ← hu]
  | cons p run ih =>
    obtain ⟨a, t⟩ := p
    obtain ⟨earlier, hrest⟩ := ih (V := V ++ a.sent)
      (u := { u with tables := t.store.tables, earlier := u.past }) h.2 rfl
    have hsynced : V ++ Ingestion.synced ((a, t) :: run) = V ++ a.sent ++ Ingestion.synced run := by
      cases a <;> simp [Ingestion.synced, IngestionAction.sent]
    refine ⟨earlier, .head (.ingest h.1) ?_⟩
    rw [hsynced]
    exact hrest

theorem past_suffix {search : Searching.SearchEnv} {u v : Searching.State}
    (h : Searching.Step search u v) : u.past <:+ v.past := by
  cases h with
  | tables T => exact List.suffix_cons T u.past
  | @turn before after w w' t h hw =>
    have hpast : t.past = u.past := by
      cases hw with
      | @api p p' op done uuid unused h => cases done <;> cases op <;> rfl
      | @cpu p p' op done h => cases done <;> cases op <;> rfl
      | @rank m p p' op done h => cases done <;> cases op <;> rfl
      | @embed m p p' op done h => cases done <;> cases op <;> rfl
    exact hpast ▸ List.suffix_refl u.past
  | _ => exact List.suffix_refl u.past

/-- A run of the search in which no table changes is one next to an ingestion that does nothing. -/
theorem run_of_search {i : Ingestion} {V : List SyncStep} {u v : Searching.State}
    (h : Searching.Run env.search u v) (hpast : v.past = u.past) :
    Run env ⟨i, u, V⟩ ⟨i, v, V⟩ := by
  have hsuffix : ∀ {u v : Searching.State}, Searching.Run env.search u v → u.past <:+ v.past := by
    intro u v h
    induction h with
    | refl => exact List.suffix_refl _
    | tail _ hstep ih => exact ih.trans (past_suffix hstep)
  induction h using Relation.ReflTransGen.head_induction_on with
  | refl => exact .refl
  | @head u w hstep hrest ih =>
    have hfirst : u.past <:+ w.past := past_suffix hstep
    have hlater : w.past <:+ v.past := hsuffix hrest
    rw [hpast] at hlater
    have hsame : w.past = u.past := hlater.eq_of_length_le hfirst.length_le
    exact .head (.search hstep hsame) (ih (hpast.trans hsame.symm))

def plainService : ServiceEnv where
  ingestion := { numberedEnv with encoder := fun _ _ => [1] }
  distance _ _ := 0
  scorer _ _ _ := 0
  metadata _ := none

def bodyStep : SyncStep where
  trace := (none, none)
  libraryId := "main"
  valid := validateLibraryId_main
  eventId := "event"
  post := { titledPost with bodyText := some "text" }

def bodyTask : ChunkTask where
  taskId := "body"
  traceId := none
  parentSpanId := none
  sourceEventId := some "event"
  taskType := .body
  postId := 50
  postTable := "posts_main"
  embedModel := bgeBaseEmbedCfg.primary
  analysisText := none

def emptyTables : ChunkTables := fun _ => some ChunkTable.empty

def bodySent : Ingestion := (start emptyTables).ingestion.announced bodyStep

def bodyChunked : ChunkDb :=
  (Coro.run chunkWorld (ChunkJob.start plainService.ingestion 0 bodyTask).program bodySent.store).2

def bodyEmbedTask : EmbedTask where
  taskId := "task"
  traceId := none
  parentSpanId := none
  sourceEventId := some "event"
  taskType := .chunk
  modelName := bgeBaseEmbedCfg.primary
  postId := some 50
  postTable := some "posts_main"
  chunkIds := [(numberedDraws 0).ids 0]
  chunkTable := some Searching.bodyTable
  query := none
  queryJobId := none

def bodyEmbedded : ChunkDb :=
  bodyChunked.withEmbeddings
    ((Ingestion.ownBatch plainService.ingestion bodyEmbedTask ⟨rfl, rfl⟩).after bodyChunked.embedDb)

theorem returnsOn_bodyStep : Ingestion.ReturnsOn plainService.ingestion [bodyStep] := by
  apply Ingestion.returnsOn_singleton
  intro task text hanalysis hreads
  have htext : truthy (truthy none <|> some "text") = some "text" := by decide
  unfold ChunkPostHandler.resolveText at hreads
  cases htype : task.taskType with
  | analysis => exact absurd htype hanalysis
  | body =>
    rw [htype] at hreads
    obtain rfl := Option.some.inj (htext.symm.trans hreads)
    show (chunkText 1 .body "text".toList).isSome = true
    decide +kernel
  | title =>
    rw [htype] at hreads
    obtain rfl := Option.some.inj (htext.symm.trans hreads)
    show (chunkText 1 .title "text".toList).isSome = true
    decide +kernel
  | summaryTitle =>
    have hsummary : truthy (truthy (some (ChunkPostHandler.titleAndSummary bodyStep.post))) =
        some "Title: text" := by
      decide +kernel
    rw [htype] at hreads
    obtain rfl := Option.some.inj (hsummary.symm.trans hreads)
    show (chunkText 1 .summaryTitle "Title: text".toList).isSome = true
    decide +kernel

theorem dispatched_bodyStep : ∃ t, plainService.ingestion.dispatched .post
    (.postSynced (bodyStep.event none)) = [.chunk bodyTask, t] := by
  have hlength : (plainService.ingestion.dispatched .post
      (.postSynced (bodyStep.event none))).length = 2 := by
    decide +kernel
  have hhead : (plainService.ingestion.dispatched .post
      (.postSynced (bodyStep.event none))).head? = some (.chunk bodyTask) := by
    decide +kernel
  obtain ⟨t, u, htasks⟩ := List.length_eq_two.mp hlength
  rw [htasks] at hhead ⊢
  obtain rfl := Option.some.inj hhead
  exact ⟨u, rfl⟩

theorem event_bodyChunked : ∃ e, bodyChunked.events[1]? = some e ∧
    plainService.ingestion.dispatched .chunk e = [.embed bodyEmbedTask] := by
  have hevent : (bodyChunked.events[1]?).map (plainService.ingestion.dispatched .chunk) =
      some [.embed bodyEmbedTask] := by
    decide +kernel
  exact Option.map_eq_some_iff.mp hevent

theorem not_has_emptyTables : ∀ u r, ¬emptyTables.Has u r := by
  rintro u r ⟨table, htable, hr⟩
  rw [← Option.some.inj htable] at hr
  cases hr

/-- The body is chunked and embedded, and the title is yet to be dispatched. -/
theorem leads_bodyEmbedded : ∃ t, Ingestion.Leads plainService.ingestion bodySent t ∧
    t.store = bodyEmbedded := by
  obtain ⟨run, hrun, hsynced, hlast⟩ := Ingestion.exists_announced plainService.ingestion
    (start emptyTables).ingestion bodyStep rfl rfl
  have hS := (sound_start plainService.ingestion not_has_emptyTables).run hrun
  rw [hsynced, hlast] at hS
  obtain ⟨title, htasks⟩ := dispatched_bodyStep
  obtain ⟨e, he, hembed⟩ := event_bodyChunked
  let taken : Ingestion := bodySent.withReader .post ⟨[0], [.chunk bodyTask, title]⟩
  let published : Ingestion :=
    { taken.withReader .post ⟨[0], [title]⟩ with ready := [.chunk bodyTask] }
  have htake : Ingestion.Step plainService.ingestion bodySent (.dispatch .post) taken := by
    have hstep : Ingestion.Step plainService.ingestion bodySent (.dispatch .post) _ :=
      .take bodySent .post 0 _ rfl List.not_mem_nil rfl
    rw [htasks] at hstep
    exact hstep
  have hpublish : Ingestion.Step plainService.ingestion taken (.dispatch .post) published :=
    .publish taken .post (.chunk bodyTask) [title] rfl
  have hdeliver : Ingestion.Step plainService.ingestion published .work _ :=
    .deliver published bodyTask [] [] rfl
  have hdelivered : Ingestion.Leads plainService.ingestion bodySent _ :=
    .head htake trivial (.head hpublish trivial (.single hdeliver trivial))
  have hjobs : [ChunkJob.start plainService.ingestion 0 bodyTask] =
      [] ++ ChunkJob.start plainService.ingestion 0 bodyTask :: [] := rfl
  obtain ⟨hfinished, -⟩ :=
    Ingestion.leads_finished returnsOn_bodyStep (hS.leads hdelivered) hjobs
  let chunked : Ingestion := { published with store := bodyChunked, ready := [], deliveries := 1 }
  let asked : Ingestion := chunked.withReader .chunk ⟨[1], [.embed bodyEmbedTask]⟩
  have hevent : Ingestion.Step plainService.ingestion chunked (.dispatch .chunk) asked := by
    have hstep : Ingestion.Step plainService.ingestion chunked (.dispatch .chunk) _ :=
      .take chunked .chunk 1 e rfl List.not_mem_nil he
    rw [hembed] at hstep
    exact hstep
  have hask : Ingestion.Step plainService.ingestion asked (.dispatch .chunk) _ :=
    .publish asked .chunk (.embed bodyEmbedTask) [] rfl
  have hbatch : Ingestion.Step plainService.ingestion
      { asked.withReader .chunk ⟨[1], []⟩ with ready := [.embed bodyEmbedTask] } .work _ :=
    .embed _ bodyEmbedTask.modelName
      (Ingestion.ownBatch plainService.ingestion bodyEmbedTask ⟨rfl, rfl⟩) [] (List.Perm.refl _)
      rfl (List.forall_mem_singleton.mpr rfl)
  exact ⟨_, hdelivered.trans (hfinished.trans (.head hevent trivial (.head hask trivial
    (.single hbatch trivial)))), rfl⟩

theorem keepsRows_run {i : Ingestion} {V : List SyncStep} {run : Ingestion.Run}
    (hS : Ingestion.Sound env.ingestion V i)
    (h : Runs.Each (Ingestion.Step env.ingestion) i run) :
    KeepsRows i.store.tables (Runs.last i run).store.tables := by
  induction run generalizing i V with
  | nil => exact .refl _
  | cons p run ih => exact (h.1.rowsStep hS).keeps.trans (ih (hS.step h.1) h.2)

def foundResult : SearchResult := ⟨(numberedDraws 0).ids 0, 50, "text", none, 1⟩

theorem exists_found : ∃ s, Run plainService (start emptyTables) s ∧ s.sent = [bodyStep] ∧
    s.search.jobs "job" = some (Searching.servedJob [foundResult]) := by
  obtain ⟨t, hleads, hstore⟩ := leads_bodyEmbedded
  obtain ⟨run, hrun, hsynced, rfl⟩ := Ingestion.exists_led rfl rfl hleads
  obtain ⟨earlier, hingested⟩ := run_of_ingestion (V := []) (u := Searching.noJobs emptyTables)
    hrun rfl
  have hthere : Searching.AllThere bodyEmbedded.tables := by
    rw [← hstore]
    intro table
    have hkeeps := keepsRows_run (sound_start plainService.ingestion not_has_emptyTables) hrun
    exact hkeeps.tables _ (Option.some_ne_none _)
  rw [hsynced, List.nil_append, hstore] at hingested
  let ingested : Ingestion := Runs.last (start emptyTables).ingestion run
  let T := bodyEmbedded.tables
  let candidates : List CandidateChunkRef := [⟨(numberedDraws 0).ids 0, 1⟩]
  have hsearch : Run plainService ⟨ingested, Searching.idleState T earlier, [bodyStep]⟩
      ⟨ingested, Searching.searchedState T earlier, [bodyStep]⟩ :=
    run_of_search (Searching.run_found T earlier hthere) rfl
  let dropped : Ingestion := { ingested.withReader .post ((ingested.readers .post).rest []) with
    lost := ingested.lost ++ (ingested.readers .post).outbox.map .task }
  have hdrop : Step plainService ⟨ingested, Searching.searchedState T earlier, [bodyStep]⟩
      ⟨dropped, Searching.changedState T T earlier, [bodyStep]⟩ := by
    have hstep : Step plainService ⟨ingested, Searching.searchedState T earlier, [bodyStep]⟩ _ :=
      .ingest (Ingestion.Step.drop ingested .post)
    have htables : dropped.store.tables = T := congrArg ChunkDb.tables hstore
    change Step plainService _ ⟨dropped, { Searching.searchedState T earlier with
      tables := dropped.store.tables
      earlier := (Searching.searchedState T earlier).past }, [bodyStep]⟩ at hstep
    rw [htables] at hstep
    exact hstep
  have hcandidates : .searchCandidatesRetrieved ⟨"job", candidates, 10, false, none, none⟩ ∈
      (Searching.searchedState T []).events := by
    decide +kernel
  have hresults : (Searching.finalizedState T T [] candidates).jobs "job" =
      some (Searching.servedJob [foundResult]) := by
    decide +kernel
  have hfinal : Run plainService ⟨dropped, Searching.changedState T T earlier, [bodyStep]⟩
      ⟨dropped, Searching.finalizedState T T earlier candidates, [bodyStep]⟩ :=
    run_of_search (Searching.run_finalizedState T T earlier candidates hthere hcandidates) rfl
  exact ⟨_, hingested.trans (hsearch.trans (.head hdrop hfinal)), rfl, hresults⟩

theorem results_of_posts_found : ∃ s, Run plainService (start emptyTables) s ∧
    s.sent = [bodyStep] ∧
    s.search.jobs "job" = some (Searching.servedJob [foundResult]) ∧
    ∃ later U earlier, s.search.past = later ++ U :: earlier ∧ ∃ S ∈ U :: earlier, ∃ found,
      Searching.Found plainService.search S
        (Searching.request (Searching.servedJob [foundResult])) found ∧
      [foundResult] = (Searching.request (Searching.servedJob [foundResult])).immediate
        plainService.search found ∧
      ∀ f ∈ found, ∃ row m table,
        S.Has (relation Searching.bodyTable) row ∧
        (∃ kept, U.Has (relation Searching.bodyTable) kept ∧ kept.toChunk = row.toChunk) ∧
        Sourced plainService.ingestion s.sent (relation Searching.bodyTable) row ∧
        IsChunkTable table m ∧ relation Searching.bodyTable = relation table ∧
        f = Searching.scored plainService.search
          ((Searching.request (Searching.servedJob [foundResult])).queryVector
            plainService.search) row (plainService.ingestion.encoder m row.text) := by
  obtain ⟨s, hrun, hsent, hrow⟩ := exists_found
  exact ⟨s, hrun, hsent, hrow, results_of_posts not_has_emptyTables hrun hrow rfl⟩

end EndToEnd
end RagPipeline
