import RagPipeline.Handlers.BlankChunks
import RagPipeline.Ingestion.Rest

namespace RagPipeline

/-! What the ingestion pipeline guarantees over whole runs. -/

/-- A pipeline whose texts are through after one turn, and whose vectors are their lengths. -/
def numberedEnv : IngestionEnv where
  chunking := chunking 1 (fun _ => 1) wordChunking.sha256
  returns taskType text := (chunkText 1 taskType text.toList).isSome
  encoder _ text := [(text.length : ℚ)]
  postDispatcher := untracedDispatcher
  chunkSpan _ := none
  embedTaskId _ := "task"
  draws := numberedDraws
  injective _ _ _ h := (ids_numberedDraws h).2
  distinct hkl _ _ h := hkl (ids_numberedDraws h).1

def summarisedStep : SyncStep where
  trace := (none, none)
  libraryId := "main"
  valid := validateLibraryId_main
  eventId := "event"
  post := { titledPost with summary := some "a summary" }

namespace Ingestion

/-- What a task reads of a version does not depend on the row that the version was written over. -/
theorem returnsOn_singleton {env : IngestionEnv} {x : SyncStep}
    (h : ∀ (task : ChunkTask) text, task.taskType ≠ .analysis →
      truthy (ChunkPostHandler.resolveText task x.post) = some text →
        env.returns task.taskType text) : ReturnsOn env [x] := by
  rintro task post text ⟨hanalysis, -⟩ ⟨⟨y, hy, -, -, existing, rfl⟩, hreads⟩
  obtain rfl := List.mem_singleton.mp hy
  refine h task text hanalysis (hreads ▸ congrArg truthy ?_)
  unfold ChunkPostHandler.resolveText
  cases htype : task.taskType with
  | analysis => exact absurd htype hanalysis
  | _ => rfl

theorem returnsOn_summarisedStep : ReturnsOn numberedEnv [summarisedStep] := by
  apply returnsOn_singleton
  intro task text hanalysis hreads
  unfold ChunkPostHandler.resolveText at hreads
  cases htype : task.taskType with
  | analysis => exact absurd htype hanalysis
  | body =>
    rw [htype] at hreads
    cases hreads
  | title =>
    have htext : truthy (truthy none <|> some "text") = some "text" := by decide
    rw [htype] at hreads
    obtain rfl := Option.some.inj (htext.symm.trans hreads)
    show (chunkText 1 .title "text".toList).isSome = true
    rfl
  | summaryTitle =>
    have htext : truthy (truthy (some (ChunkPostHandler.titleAndSummary summarisedStep.post))) =
        some "Title: text\n\nSummary: a summary" := by
      rfl
    rw [htype] at hreads
    obtain rfl := Option.some.inj (htext.symm.trans hreads)
    show (chunkText 1 .summaryTitle "Title: text\n\nSummary: a summary".toList).isSome = true
    rfl

theorem text_mem_chunkText : "text" ∈ numberedEnv.chunking.chunkText .title "text" := by
  decide

/-- A post is sent, and then the pipeline goes on by itself. -/
theorem exists_led {env : IngestionEnv} {s t : Ingestion} {x : SyncStep} (hsyncs : s.syncs = [])
    (hnone : s.store.existing x = none) (h : Leads env (s.announced x) t) : ∃ run,
      Runs.Each (Step env) s run ∧ synced run = [x] ∧ Runs.last s run = t := by
  obtain ⟨run, hrun, hsynced, hlast⟩ := exists_announced env s x hsyncs hnone
  obtain ⟨more, hmore, hinternal, rfl⟩ := h
  refine ⟨run ++ more, Runs.Each.append.mpr ⟨hrun, hlast ▸ hmore⟩, ?_, ?_⟩
  · have hnone : synced more = [] := synced_of_internal hinternal
    rw [synced, List.filterMap_append]
    show synced run ++ synced more = [x]
    rw [hnone, hsynced, List.append_nil]
  · rw [Runs.last_append, hlast]

theorem sound_announced (env : IngestionEnv) (x : SyncStep) :
    Sound env [x] (empty.announced x) := by
  obtain ⟨run, hrun, hsynced, hlast⟩ := exists_announced env .empty x rfl rfl
  have hS := (sound_empty env).run hrun
  rw [hsynced, hlast] at hS
  exact hS

theorem exists_rested (env : IngestionEnv) (x : SyncStep) (hreturns : ReturnsOn env [x]) : ∃ run,
    Runs.Each (Step env) .empty run ∧ synced run = [x] ∧ Resting (Runs.last .empty run) ∧
      (Runs.last .empty run).syncs = [] ∧ (Runs.last .empty run).lost = [] ∧
        (Runs.last .empty run).store.posts = (empty.announced x).store.posts := by
  have hS := sound_announced env x
  obtain ⟨t, hleads, hlost, hrest⟩ := leads_resting hreturns hS
  obtain ⟨run, hrun, hsynced, rfl⟩ := exists_led rfl rfl hleads
  exact ⟨run, hrun, hsynced, hrest, syncs_of_leads hleads, hlost, posts_of_leads hS hleads⟩

theorem posts_announced : (empty.announced summarisedStep).store.posts "posts_main" 50 =
    some (PostStore.stored summarisedStep.post) := by
  decide +kernel

/-- The post of before is chunked, and its chunks get their vectors. -/
theorem exists_embedded : ∃ run, Runs.Each (Step numberedEnv) .empty run ∧
    synced run = [summarisedStep] ∧ Resting (Runs.last .empty run) ∧
      (Runs.last .empty run).syncs = [] ∧ (Runs.last .empty run).lost = [] ∧
        (Runs.last .empty run).store.posts "posts_main" 50 =
          some (PostStore.stored summarisedStep.post) ∧
            ∃ u r, (Runs.last .empty run).store.tables.Has u r ∧ r.embedding ≠ none := by
  obtain ⟨run, hrun, hsynced, hrest, hsyncs, hlost, hposts⟩ :=
    exists_rested numberedEnv summarisedStep returnsOn_summarisedStep
  have hpost : (Runs.last .empty run).store.posts "posts_main" 50 =
      some (PostStore.stored summarisedStep.post) := by
    rw [hposts]
    exact posts_announced
  obtain ⟨hrows, htexts⟩ := embedded_of_resting ((sound_empty numberedEnv).run hrun)
    ((accounted_empty numberedEnv).run (sound_empty numberedEnv) hrun) hrest hsyncs hlost
  obtain ⟨task, -, habout, htext⟩ := htexts "posts_main" 50 _ .title hpost
    ⟨by decide, by intro h; cases h⟩
  have hread : task.textIn (Runs.last .empty run).store = some "text" := by
    unfold ChunkTask.textIn
    rw [habout.table, habout.post, hpost, Option.bind_some]
    unfold ChunkPostHandler.resolveText
    rw [habout.type]
    show truthy (truthy none <|> some "text") = some "text"
    decide
  obtain ⟨r, table, m, hr, -⟩ := htext "text" hread "text" text_mem_chunkText
  exact ⟨run, hrun, hsynced, hrest, hsyncs, hlost, hpost, _, r, hr, hrows _ r hr⟩

/-- Whatever happens in whatever order, and wherever processes stop: every chunk stored is a window
of a version of its post that was sent, and a vector that it has is that of its own text. -/
theorem rows_sourced (env : IngestionEnv) (run : Run) (hrun : Runs.Each (Step env) .empty run) :
    ∀ u r, (Runs.last .empty run).store.tables.Has u r → Sourced env (synced run) u r :=
  ((sound_empty env).run hrun).rows

theorem rows_sourced_summarised : ∃ run, Runs.Each (Step numberedEnv) .empty run ∧
    synced run = [summarisedStep] ∧
    (∃ u r, (Runs.last .empty run).store.tables.Has u r ∧ r.embedding ≠ none) ∧
    ∀ u r, (Runs.last .empty run).store.tables.Has u r →
      Sourced numberedEnv [summarisedStep] u r := by
  obtain ⟨run, hrun, hsynced, -, -, -, -, hembedded⟩ := exists_embedded
  exact ⟨run, hrun, hsynced, hembedded, hsynced ▸ rows_sourced numberedEnv run hrun⟩

/-- Whatever happens in whatever order: a row without a vector is waited for or was lost, and so is
a text whose windows are not all stored, unless a version came without its event's telling so. -/
theorem nothing_forgotten (env : IngestionEnv) (run : Run)
    (hrun : Runs.Each (Step env) .empty run) :
    (∀ u r, (Runs.last .empty run).store.tables.Has u r → r.embedding = none →
      RowAwaited 0 (Runs.last .empty run) u r.id) ∧
    ∀ u i post type, (Runs.last .empty run).store.posts u i = some post → type.Wanted post →
      TextStored env (Runs.last .empty run) u i type ∨
        TextAwaited env 0 (Runs.last .empty run) u i type := by
  have haccounted : Accounted env 0 (Runs.last .empty run) :=
    (accounted_empty env).run (sound_empty env) hrun
  constructor
  · intro u r hr hnone
    exact haccounted.rows u r.id r hr rfl hnone
  · intro u i post type hpost hwanted
    exact haccounted.texts u i type post hpost hwanted

theorem nothing_forgotten_announced : ∃ run, Runs.Each (Step numberedEnv) .empty run ∧
    Runs.last .empty run = empty.announced summarisedStep ∧
      (TextStored numberedEnv (empty.announced summarisedStep) "posts_main" 50 .summaryTitle ∨
        TextAwaited numberedEnv 0 (empty.announced summarisedStep) "posts_main" 50
          .summaryTitle) := by
  obtain ⟨run, hrun, -, hlast⟩ := exists_announced numberedEnv .empty summarisedStep rfl rfl
  have hforgotten := (nothing_forgotten numberedEnv run hrun).2
  rw [hlast] at hforgotten
  exact ⟨run, hrun, hlast, hforgotten "posts_main" 50 _ .summaryTitle posts_announced
    ⟨by decide, fun _ => by decide⟩⟩

/-- When the pipeline has come to rest, no request is under way and nothing was lost, every text of
every post is chunked, and every chunk has its vector. -/
theorem complete_at_rest (env : IngestionEnv) (run : Run) (hrun : Runs.Each (Step env) .empty run)
    (hrest : Resting (Runs.last .empty run)) (hsyncs : (Runs.last .empty run).syncs = [])
    (hlost : (Runs.last .empty run).lost = []) :
    (∀ u r, (Runs.last .empty run).store.tables.Has u r → r.embedding ≠ none) ∧
    ∀ u i post type, (Runs.last .empty run).store.posts u i = some post → type.Wanted post →
      TextEmbedded env (Runs.last .empty run) u i type :=
  embedded_of_resting ((sound_empty env).run hrun)
    ((accounted_empty env).run (sound_empty env) hrun) hrest hsyncs hlost

theorem complete_at_rest_summarised : ∃ run, Runs.Each (Step numberedEnv) .empty run ∧
    synced run = [summarisedStep] ∧
      TextEmbedded numberedEnv (Runs.last .empty run) "posts_main" 50 .summaryTitle := by
  obtain ⟨run, hrun, hsynced, hrest, hsyncs, hlost, hpost, -⟩ := exists_embedded
  exact ⟨run, hrun, hsynced, (complete_at_rest numberedEnv run hrun hrest hsyncs hlost).2
    "posts_main" 50 _ .summaryTitle hpost ⟨by decide, fun _ => by decide⟩⟩

end Ingestion
end RagPipeline
