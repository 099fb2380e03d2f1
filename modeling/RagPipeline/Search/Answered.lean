import RagPipeline.Search.Known

namespace RagPipeline
namespace Searching
open Coro

section Invariant

variable (env : SearchEnv)

structure RowTrue (past : List ChunkTables) (j : SearchJob) : Prop where
  embedding : ∀ v, j.embedding = some v → v = (request j).queryVector env
  results : ∀ results, j.results = some results → Answers env past (request j) results

/-- A program on its way keeps to what is known. -/
def WorkingTrue (c : Known) : Working → Prop
  | .api p => Promises TellsApi (MayAwaitApi env) (fun _ _ => True) p c
  | .cpu p => Promises (TellsJob env "") (MayAwaitJob env) (fun _ _ => True) p c
  | .rank m p => Promises (TellsJob env m) (MayAwaitJob env) (fun _ _ => True) p c
  | .embed m p => Promises (TellsEmbed env m) (MayAwaitEmbed env) (fun _ _ => True) p c

structure Sound (s : State) : Prop where
  rows : ∀ id j, s.jobs id = some j → RowTrue env s.past j
  events : ∀ e ∈ s.events, EventTrue env s.known e
  tasks : ∀ x ∈ s.tasks, TaskTrue env s.known x.1 x.2
  working : ∀ w ∈ s.working, WorkingTrue env s.known w

end Invariant

variable {env : SearchEnv} {s t : State} {c d : Known}

theorem RowTrue.mono {past past' : List ChunkTables} {j : SearchJob} (h : RowTrue env past j)
    (hpast : past <:+ past') : RowTrue env past' j where
  embedding := h.embedding
  results results hresults := (h.results results hresults).mono hpast

theorem WorkingTrue.mono {w : Working} (h : WorkingTrue env c w) (hcd : c ≤ d) :
    WorkingTrue env d w := by
  cases w <;> exact Promises.stable h hcd

structure Writes (env : SearchEnv) (s t : State) : Prop where
  known : s.known ≤ t.known
  rows : ∀ id j, t.jobs id = some j → RowTrue env t.past j
  events : ∀ e ∈ t.events, EventTrue env t.known e
  tasks : t.tasks = s.tasks

theorem writes_update (hs : Sound env s) (id : String) {f : SearchJob → SearchJob}
    (hrequest : ∀ j, request (f j) = request j)
    (htrue : ∀ j, s.jobs id = some j → RowTrue env s.past (f j)) :
    Writes env s { s with jobs := s.jobs.update id f } := by
  have hknown : s.known ≤ State.known { s with jobs := s.jobs.update id f } := by
    refine ⟨fun i r hr => ?_, List.suffix_refl _⟩
    simp only [State.known] at hr ⊢
    by_cases hi : i = id
    · subst hi
      obtain ⟨j, hj, rfl⟩ := Option.map_eq_some_iff.mp hr
      rw [JobTable.update_same, hj, Option.map_some, Option.map_some, hrequest]
    · rwa [JobTable.update_other _ hi]
  refine ⟨hknown, fun i j hj => ?_, fun e he => (hs.events e he).mono hknown, rfl⟩
  by_cases hi : i = id
  · subst hi
    obtain ⟨j', hj', rfl⟩ :=
      Option.map_eq_some_iff.mp ((JobTable.update_same s.jobs i f).symm.trans hj)
    exact htrue j' hj'
  · exact hs.rows i j ((JobTable.update_other s.jobs hi f).symm.trans hj)

theorem writes_self (hs : Sound env s) : Writes env s s :=
  ⟨le_rfl, hs.rows, hs.events, rfl⟩

theorem writes_publish (hs : Sound env s) {e : Event} (he : EventTrue env s.known e) :
    Writes env s { s with events := s.events ++ [e] } := by
  refine ⟨le_rfl, hs.rows, fun e' he' => ?_, rfl⟩
  obtain h | h := List.mem_append.mp he'
  · exact hs.events e' h
  · rw [List.mem_singleton.mp h]
    exact he

theorem writes_writeJob (hs : Sound env s) {op : JobOp} (hop : MayAwaitJob env s.known op) :
    Writes env s (writeJob s op) := by
  cases op with
  | markSearching id =>
    exact writes_update hs id (fun _ => rfl) fun j hj => ⟨(hs.rows id j hj).1, (hs.rows id j hj).2⟩
  | markReranking id =>
    exact writes_update hs id (fun _ => rfl) fun j hj => ⟨(hs.rows id j hj).1, (hs.rows id j hj).2⟩
  | failJob id error code =>
    exact writes_update hs id (fun _ => rfl) fun j hj => ⟨(hs.rows id j hj).1, (hs.rows id j hj).2⟩
  | completeJob id results =>
    obtain ⟨r, hr, hanswers⟩ := hop
    refine writes_update hs id (fun _ => rfl) fun j hj => ⟨(hs.rows id j hj).1, ?_⟩
    rintro _ ⟨⟩
    have hj' : s.known.job id = some (request j) := congrArg (Option.map request) hj
    obtain rfl := Option.some_inj.mp (hr.symm.trans hj')
    exact hanswers
  | publish e => exact writes_publish hs hop
  | _ => exact writes_self hs

theorem Sound.jobs {jobs : JobTable} (hs : Sound env s) (h : Writes env s { s with jobs }) :
    Sound env { s with jobs } where
  rows := h.rows
  events := h.events
  tasks x hx := (hs.tasks x hx).mono h.known
  working w hw := (hs.working w hw).mono h.known

theorem writes_saveRow (hs : Sound env s) {row : EmbeddingRow}
    (hrow : ∀ x, .query x = row → ∃ r, s.known.job x.queryJobId = some r ∧
      x.embedding = r.queryVector env) :
    Writes env s { s with jobs := saveRow s.jobs row } := by
  cases row with
  | chunk x => exact writes_self hs
  | query x =>
    obtain ⟨r, hr, hvector⟩ := hrow x rfl
    refine writes_update hs x.queryJobId (fun _ => rfl) fun j hj => ⟨?_, (hs.rows _ j hj).2⟩
    rintro _ ⟨⟩
    have hj' : s.known.job x.queryJobId = some (request j) := congrArg (Option.map request) hj
    obtain rfl := Option.some_inj.mp (hr.symm.trans hj')
    exact hvector

theorem writes_saveRows {rows : List EmbeddingRow} (hs : Sound env s)
    (hrows : ∀ row, .query row ∈ rows →
      ∃ r, s.known.job row.queryJobId = some r ∧ row.embedding = r.queryVector env) :
    Writes env s { s with jobs := rows.foldl saveRow s.jobs } := by
  induction rows generalizing s with
  | nil => exact writes_self hs
  | cons row rows ih =>
    have hfirst : Writes env s { s with jobs := saveRow s.jobs row } := by
      apply writes_saveRow hs
      rintro x rfl
      exact hrows x List.mem_cons_self
    have hrest := ih (hs.jobs hfirst) fun x hx => by
      obtain ⟨r, hr, hvector⟩ := hrows x (List.mem_cons_of_mem row hx)
      exact ⟨r, hfirst.known.1 _ _ hr, hvector⟩
    exact ⟨hfirst.known.trans hrest.known, hrest.rows, hrest.events, rfl⟩

theorem writes_writeEmbed (hs : Sound env s) {op : EmbedOp} (hop : MayAwaitEmbed env s.known op) :
    Writes env s (writeEmbed s op) := by
  cases op with
  | saveBatch rows => exact writes_saveRows hs hop
  | publish e => exact writes_publish hs hop
  | _ => exact writes_self hs

/-- A new row has neither a vector nor results. -/
theorem writes_writeApi (hs : Sound env s) {uuid : String} {op : SearchApiOp}
    (unused : Unused uuid s op) (hop : MayAwaitApi env s.known op) :
    Writes env s (writeApi uuid s op) := by
  cases op with
  | createJob query k profile table libraryId rerank rerankProfile =>
    have hknown : s.known ≤ (writeApi uuid s
        (.createJob query k profile table libraryId rerank rerankProfile)).known := by
      refine ⟨fun id r hr => ?_, List.suffix_refl _⟩
      have hne : id ≠ uuid := by
        rintro rfl
        have hnone : s.jobs id = none := unused
        simp [State.known, hnone] at hr
      have hinsert : JobTable.insert s.jobs (SearchJob.create uuid query k profile table libraryId
          rerank rerankProfile) id = s.jobs id := if_neg hne
      exact (congrArg (Option.map request) hinsert).trans hr
    refine ⟨hknown, fun id j hj => ?_, fun e he => (hs.events e he).mono hknown, rfl⟩
    have hinsert : (if id = uuid then some (SearchJob.create uuid query k profile table libraryId
        rerank rerankProfile) else s.jobs id) = some j := hj
    split_ifs at hinsert
    · obtain rfl := Option.some_inj.mp hinsert
      constructor
      · intro v hv
        cases hv
      · intro results hresults
        cases hresults
    · exact hs.rows id j hinsert
  | publish e => exact writes_publish hs hop
  | _ => exact writes_self hs

/-- A program goes on, and the others keep to what is known by then. -/
theorem Sound.turned (hs : Sound env s) (ht : Writes env s t) {before after : List Working}
    {w w' : Working} (hworking : s.working = before ++ w :: after)
    (hw : WorkingTrue env t.known w') :
    Sound env { t with working := before ++ w' :: after } where
  rows := ht.rows
  events := ht.events
  tasks x hx := (hs.tasks x (ht.tasks ▸ hx)).mono ht.known
  working x hx := by
    obtain h | h := List.mem_append.mp hx
    · exact (hs.working x (hworking ▸ List.mem_append_left _ h)).mono ht.known
    · obtain rfl | h := List.mem_cons.mp h
      · exact hw
      · exact (hs.working x
          (hworking ▸ List.mem_append_right _ (List.mem_cons_of_mem w h))).mono ht.known

theorem tells_answersJob {m : String} (hs : Sound env s) {op : JobOp} {a : op.Ans}
    (ht : Writes env s t) (hpast : t.past = s.past) (ha : AnswersJob env m s op a) :
    TellsJob env m t.known op a := by
  cases op with
  | getJob id =>
    intro j hj
    have hrow : s.jobs id = some j := (ha : a = s.jobs id) ▸ hj
    exact ⟨ht.known.1 _ _ (congrArg (Option.map request) hrow), (hs.rows id j hrow).embedding⟩
  | searchNearest table v k =>
    refine ⟨s.tables, ?_, ha.2⟩
    show s.tables ∈ t.past
    rw [hpast]
    exact List.mem_cons_self
  | getChunksByIds ids table => exact ⟨s.tables, s.earlier, hpast, ha.2⟩
  | score query texts => exact ha
  | _ => trivial

theorem writes_done (hs : Sound env s) (done : Bool) (h : Writes env s t) :
    Writes env s (if done then t else s) := by
  cases done with
  | true => exact h
  | false => exact writes_self hs

/-- An await of a handler, whatever model its worker has. -/
theorem writes_turnJob {α : Type} {m : String} {p p' : JobCoro α} {op : JobOp} {done : Bool}
    (hs : Sound env s)
    (hw : Promises (TellsJob env m) (MayAwaitJob env) (fun _ _ => True) p s.known)
    (h : Awaited (AnswersJob env m s) p op done p') :
    Writes env s (if done then writeJob s op else s) ∧
      Promises (TellsJob env m) (MayAwaitJob env) (fun _ _ => True) p'
        (if done then writeJob s op else s).known := by
  have hwrites := writes_done hs done (writes_writeJob hs (hw.asks h))
  have hpast : (if done then writeJob s op else s).past = s.past := by
    cases done
    · rfl
    · cases op <;> rfl
  exact ⟨hwrites, hw.awaited h hwrites.known fun _ _ ha => tells_answersJob hs hwrites hpast ha⟩

theorem writes_turn {w w' : Working} (hs : Sound env s) (hw : WorkingTrue env s.known w)
    (h : Turn env s w w' t) : Writes env s t ∧ WorkingTrue env t.known w' := by
  cases h with
  | @api p p' op done uuid unused h =>
    have hwrites := writes_done hs done (writes_writeApi hs unused (Promises.asks hw h))
    refine ⟨hwrites, Promises.awaited hw h hwrites.known ?_⟩
    rintro rfl a ha
    cases op with
    | createJob query k profile table libraryId rerank rerankProfile =>
      obtain rfl : a = uuid := ha
      exact congrArg (Option.map request) (if_pos rfl)
    | _ => trivial
  | cpu h => exact writes_turnJob hs hw h
  | rank h => exact writes_turnJob hs hw h
  | @embed m p p' op done h =>
    have hwrites := writes_done hs done (writes_writeEmbed hs (Promises.asks hw h))
    exact ⟨hwrites, Promises.awaited hw h hwrites.known fun _ _ ha => ha⟩

/-- A worker's program keeps to what its task says. -/
theorem working_of_begins {w : Working} (hs : Sound env s) (h : Begins s w) :
    WorkingTrue env s.known w := by
  cases h with
  | search h => exact promises_search _
  | finalize h => exact promises_finalize (hs.tasks _ h)
  | rank h polled => exact promises_rank (hs.tasks _ h) polled
  | embed span h query polled =>
    rename_i q modelName task t
    cases task with
    | embed t' =>
      simp only [GpuEmbedWorker.asQueryTask] at query
      split_ifs at query
      obtain rfl := Option.some_inj.mp query
      exact promises_embedQuery span (hs.tasks _ h) polled
    | _ => cases query

theorem polled_embed : ∀ cfg ∈ embedConfigs.values, polledModel cfg.queue = some cfg.primary := by
  decide

theorem polled_rerank : ∀ cfg ∈ rerankConfigs.values, polledModel cfg.queue = some cfg.primary := by
  decide

theorem taskTrue_jobCreated {e : SearchJobCreatedEvent} (he : EventTrue env c (.searchJobCreated e))
    {taskId : String} {d : Dispatch}
    (hd : SearchDispatcher.jobCreated embedConfigs taskId e = some d) :
    ∀ x ∈ enqueued d, TaskTrue env c x.1 x.2 := by
  obtain ⟨r, hr, hquery, hprofile⟩ := he
  unfold SearchDispatcher.jobCreated at hd
  obtain ⟨cfg, hget, rfl⟩ := Option.map_eq_some_iff.mp hd
  have hnodup : (embedConfigs.values.map EmbedConfig.primary).Nodup := by decide
  obtain ⟨hmem, hprimary⟩ := (OrderedDict.get?_indexBy EmbedConfig.primary hnodup).mp hget
  rw [enqueued_of_delivered (embed_queues cfg hmem).1, List.forall_mem_singleton]
  rintro query jobId ⟨⟩ ⟨⟩
  refine ⟨r, hr, hquery, fun m hm => ?_⟩
  rw [polled_embed cfg hmem, Option.some_inj] at hm
  rw [← hm, hprimary, hprofile]

theorem taskTrue_candidatesRetrieved {e : SearchCandidatesRetrievedEvent}
    (he : EventTrue env c (.searchCandidatesRetrieved e)) {taskId : String} {d : Dispatch}
    (hd : SearchDispatcher.candidatesRetrieved rerankConfigs taskId e = some d) :
    ∀ x ∈ enqueued d, TaskTrue env c x.1 x.2 := by
  obtain ⟨r, hr, hrerank, hprofile, hcandidates⟩ := he
  unfold SearchDispatcher.candidatesRetrieved at hd
  split_ifs at hd with hasked
  · obtain ⟨cfg, hget, rfl⟩ := Option.map_eq_some_iff.mp hd
    have hmem : cfg ∈ rerankConfigs.values :=
      List.mem_map_of_mem (OrderedDict.get?_eq_some.mp hget)
    rw [enqueued_of_delivered (rerank_queues cfg hmem).1, List.forall_mem_singleton]
    refine ⟨r, hr, hrerank ▸ hasked, hcandidates, fun m hm => ?_⟩
    rw [polled_rerank cfg hmem] at hm
    have hmodel : rerankModel r.rerankProfile = some cfg.primary := by
      rw [← hprofile]
      exact congrArg (Option.map RerankConfig.primary) hget
    rw [hmodel, hm]
  · obtain rfl := Option.some_inj.mp hd
    have hqueue := (search_queues "cpu.search.finalize" (by decide)).1
    rw [enqueued_of_delivered hqueue, List.forall_mem_singleton]
    exact ⟨r, hr, hrerank ▸ Bool.eq_false_iff.mpr hasked, hcandidates⟩

theorem taskTrue_dispatched {e : Event} (he : EventTrue env c e) {taskId : String} {d : Dispatch}
    (hd : dispatched taskId e = some d) : ∀ x ∈ enqueued d, TaskTrue env c x.1 x.2 := by
  unfold dispatched at hd
  cases e with
  | searchJobCreated e => exact taskTrue_jobCreated he hd
  | searchQueryEmbedded e =>
    obtain rfl := Option.some_inj.mp hd
    intro x hx
    obtain ⟨q, -, rfl⟩ := List.mem_map.mp hx
    trivial
  | searchCandidatesRetrieved e => exact taskTrue_candidatesRetrieved he hd
  | _ => cases hd

theorem sound_step (hs : Sound env s) (h : Step env s t) : Sound env t := by
  cases h with
  | tables T =>
    have hknown : s.known ≤ State.known { s with tables := T, earlier := s.past } :=
      ⟨fun _ _ h => h, List.suffix_cons T s.past⟩
    exact ⟨fun id j hj => (hs.rows id j hj).mono hknown.2, fun e he => (hs.events e he).mono hknown,
      fun x hx => (hs.tasks x hx).mono hknown, fun w hw => (hs.working w hw).mono hknown⟩
  | request span req =>
    exact ⟨hs.rows, hs.events, hs.tasks,
      List.forall_mem_cons.mpr ⟨promises_createSearch span req, hs.working⟩⟩
  | dispatch h hd =>
    refine ⟨hs.rows, hs.events, fun x hx => ?_, hs.working⟩
    obtain hx | hx := List.mem_append.mp hx
    · exact hs.tasks x hx
    · exact taskTrue_dispatched (hs.events _ h) hd x hx
  | begin h =>
    have hw := working_of_begins hs h
    exact ⟨hs.rows, hs.events, hs.tasks, List.forall_mem_cons.mpr ⟨hw, hs.working⟩⟩
  | turn h hw =>
    obtain ⟨hwrites, hleft⟩ := writes_turn hs (hs.working _ (by rw [h]; simp)) hw
    exact hs.turned hwrites h hleft
  | killed h =>
    refine ⟨hs.rows, hs.events, hs.tasks, fun x hx => hs.working x ?_⟩
    rw [h]
    obtain hx | hx := List.mem_append.mp hx
    · exact List.mem_append_left _ hx
    · exact List.mem_append_right _ (List.mem_cons_of_mem _ hx)

theorem sound_noJobs (T : ChunkTables) : Sound env (noJobs T) where
  rows _ _ h := by cases h
  events _ h := absurd h List.not_mem_nil
  tasks _ h := absurd h List.not_mem_nil
  working _ h := absurd h List.not_mem_nil

theorem sound_run (hs : Sound env s) (h : Run env s t) : Sound env t := by
  induction h with
  | refl => exact hs
  | tail _ hstep ih => exact sound_step ih hstep

/-- Whatever runs next to it, however often its messages are delivered and wherever a program is
killed or an await raises: the results of a job are those of one search for its query, made and
hydrated from what the tables held at two moments of the run. -/
theorem results_answer {T : ChunkTables} (h : Run env (noJobs T) s) {id : String} {j : SearchJob}
    (hrow : s.jobs id = some j) {results : List SearchResult}
    (hresults : j.results = some results) : Answers env s.past (request j) results :=
  ((sound_run (sound_noJobs T) h).rows id j hrow).results results hresults

def JobRequest.immediate (env : SearchEnv) (r : JobRequest) (found : List ScoredChunk) :
    List SearchResult :=
  if r.rerank then
    let model := (rerankModel r.rerankProfile).getD ""
    (sortByScore (found.map fun f => (f.toChunkRow, env.scorer model r.query f.text))).map
      fun p => resultOf p.1 p.2
  else found.map fun f => resultOf f.toChunkRow f.score

theorem currentRow_found {S : ChunkTables} {r : JobRequest} {found : List ScoredChunk}
    (h : Found env S r found) {f : ScoredChunk} (hf : f ∈ found) :
    currentRow env S r.chunksTable f.id = some f.toChunkRow := by
  obtain ⟨ordered, hperm, -, rfl⟩ := h
  have hscored : f ∈ scoredRows env (r.queryVector env) (rowsOf S r.chunksTable) :=
    hperm.mem_iff.mp (List.mem_of_mem_take hf)
  obtain ⟨x, hx, hvector⟩ := List.mem_filterMap.mp hscored
  obtain ⟨v, -, rfl⟩ := Option.map_eq_some_iff.mp hvector
  exact congrArg (Option.map (chunkRow env)) (find?_of_mem (nodup_rowsOf S r.chunksTable) hx)

/-- When all that was found is still there as it was, hydration changes nothing. -/
theorem results_of_kept {U : ChunkTables} {r : JobRequest} {found : List ScoredChunk}
    (h : ∀ f ∈ found, currentRow env U r.chunksTable f.id = some f.toChunkRow) :
    r.results env U found = r.immediate env found := by
  have hthere : stillThere env U r.chunksTable found =
      found.map fun f => (f, f.toChunkRow) := by
    rw [← List.filterMap_eq_map]
    apply List.filterMap_congr
    intro f hf
    rw [h f hf]
    rfl
  unfold JobRequest.results JobRequest.immediate
  rw [hthere]
  simp only [List.map_map, Function.comp_def]

/-- As long as the table of a job stays as it is, its results are the `k` rows nearest to the query,
each as it is in the table, in the order of the search or of the reranker. -/
theorem results_exact {T : ChunkTables} (h : Run env (noJobs T) s) {id : String} {j : SearchJob}
    (hrow : s.jobs id = some j) {results : List SearchResult} (hresults : j.results = some results)
    {rows : List StoredChunk} (hsteady : ∀ S ∈ s.past, rowsOf S j.chunksTable = rows) :
    ∃ found, Nearest env rows ((request j).queryVector env) j.k found ∧
      results = (request j).immediate env found := by
  obtain ⟨later, U, earlier, hpast, S, hS, found, hfound, rfl⟩ :=
    ((sound_run (sound_noJobs T) h).rows id j hrow).results results hresults
  have hrowsS : rowsOf S j.chunksTable = rows :=
    hsteady S (hpast ▸ List.mem_append_right _ hS)
  have hrowsU : rowsOf U j.chunksTable = rows :=
    hsteady U (hpast ▸ List.mem_append_right _ List.mem_cons_self)
  refine ⟨found, hrowsS ▸ hfound, results_of_kept fun f hf => ?_⟩
  have hcurrent := currentRow_found hfound hf
  have hsame : rowsOf U (request j).chunksTable = rowsOf S (request j).chunksTable :=
    hrowsU.trans hrowsS.symm
  rw [currentRow, ← hsame] at hcurrent
  exact hcurrent

def plainEnv : SearchEnv := ⟨fun _ _ => 0, fun _ _ => [1], fun _ _ _ => 0, fun _ => none⟩

def AllThere (T : ChunkTables) : Prop := ∀ table, T (relation table) ≠ none

def plainAnswer (s : State) : (op : JobOp) → op.Ans
  | .getJob id => s.jobs id
  | .searchNearest table v k => (scoredRows plainEnv v (rowsOf s.tables table)).take k.toNat
  | .getChunksByIds ids table =>
    ((rowsOf s.tables table).filter fun r => r.id ∈ ids).map (chunkRow plainEnv)
  | .score _ texts => texts.map fun _ => 0
  | .markSearching _ | .markReranking _ | .completeJob .. | .failJob .. | .publish _ => ()

/-- All rows are at one distance, so that their order is right. -/
theorem answersJob_plainAnswer (hs : AllThere s.tables) (op : JobOp) :
    AnswersJob plainEnv "" s op (plainAnswer s op) := by
  cases op with
  | searchNearest table v k =>
    refine ⟨hs table, _, List.Perm.refl _, List.pairwise_of_forall_mem_list ?_, rfl⟩
    intro f hf g hg
    obtain ⟨r, -, hr⟩ := List.mem_filterMap.mp hf
    obtain ⟨r', -, hr'⟩ := List.mem_filterMap.mp hg
    obtain ⟨_, -, rfl⟩ := Option.map_eq_some_iff.mp hr
    obtain ⟨_, -, rfl⟩ := Option.map_eq_some_iff.mp hr'
    exact le_refl _
  | getChunksByIds ids table => exact ⟨.inr (hs table), List.Perm.refl _⟩
  | score => rfl
  | getJob => rfl
  | _ => trivial

theorem turn_first {w w' : Working} {ws : List Working} {t : State}
    (hworking : s.working = w :: ws) (hw : Turn plainEnv s w w' t) :
    Step plainEnv s { t with working := w' :: ws } := by
  have h : s.working = [] ++ w :: ws := hworking
  exact .turn h hw

theorem killed_first {w : Working} {ws : List Working} (hworking : s.working = w :: ws) :
    Step plainEnv s { s with working := ws } := by
  have h : s.working = [] ++ w :: ws := hworking
  exact .killed h

/-- A handler runs to its end, next to `ws`. -/
def afterJob (ws : List Working) : JobCoro Unit → State → State
  | .ret _, s => { s with working := ws }
  | .raise _, s => { s with working := ws }
  | .await op k, s =>
    let p := k (.ok (plainAnswer s op))
    afterJob ws p { writeJob s op with working := .cpu p :: ws }

theorem run_cpu (p : JobCoro Unit) {ws : List Working} (hs : AllThere s.tables)
    (hworking : s.working = .cpu p :: ws) : Run plainEnv s (afterJob ws p s) := by
  induction p generalizing s with
  | ret a => exact .single (killed_first hworking)
  | raise e => exact .single (killed_first hworking)
  | await op k ih =>
    have hawaited := Awaited.answered (k := k) (answersJob_plainAnswer hs op)
    have htables : AllThere (writeJob s op).tables := by
      cases op <;> exact hs
    exact .head (turn_first hworking (.cpu hawaited)) (ih _ htables rfl)

def plainVectors : (op : EmbedOp) → op.Ans
  | .fetchTexts .. => []
  | .encode texts => texts.map fun _ => [1]
  | .saveBatch _ | .publish _ => ()

def afterEmbed (m : String) (ws : List Working) : EmbedCoro Bool → State → State
  | .ret _, s => { s with working := ws }
  | .raise _, s => { s with working := ws }
  | .await op k, s =>
    let p := k (.ok (plainVectors op))
    afterEmbed m ws p { writeEmbed s op with working := .embed m p :: ws }

theorem run_embed (m : String) (p : EmbedCoro Bool) {ws : List Working}
    (hworking : s.working = .embed m p :: ws) : Run plainEnv s (afterEmbed m ws p s) := by
  induction p generalizing s with
  | ret a => exact .single (killed_first hworking)
  | raise e => exact .single (killed_first hworking)
  | await op k ih =>
    have hanswer : AnswersEmbed plainEnv m op (plainVectors op) := by
      cases op <;> trivial
    exact .head (turn_first hworking (.embed (Awaited.answered hanswer))) (ih _ rfl)

def plainApiAnswer : (op : SearchApiOp) → op.Ans
  | .tableExists _ => true
  | .checkReranker _ => ⟨true, ""⟩
  | .createJob .. => "job"
  | .publish _ => ()

def afterApi (ws : List Working) : SearchApiCoro String → State → State
  | .ret _, s => { s with working := ws }
  | .raise _, s => { s with working := ws }
  | .await op k, s =>
    let p := k (.ok (plainApiAnswer op))
    afterApi ws p { writeApi "job" s op with working := .api p :: ws }

/-- The program creates at most the job `job`, and that once. -/
def CreatesOnce (ws : List Working) : SearchApiCoro String → State → Prop
  | .ret _, _ => True
  | .raise _, _ => True
  | .await op k, s =>
    let p := k (.ok (plainApiAnswer op))
    Unused "job" s op ∧ CreatesOnce ws p { writeApi "job" s op with working := .api p :: ws }

theorem run_api (p : SearchApiCoro String) {ws : List Working} (h : CreatesOnce ws p s)
    (hworking : s.working = .api p :: ws) : Run plainEnv s (afterApi ws p s) := by
  induction p generalizing s with
  | ret a => exact .single (killed_first hworking)
  | raise e => exact .single (killed_first hworking)
  | await op k ih =>
    have hanswer : AnswersApi "job" op (plainApiAnswer op) := by
      cases op <;> trivial
    have hstep := turn_first hworking (.api h.1 (Awaited.answered (k := k) hanswer))
    exact .head hstep (ih _ h.2 rfl)

section Served

variable (T U : ChunkTables) (earlier : List ChunkTables) (candidates : List CandidateChunkRef)

/-- A database without jobs, and what its tables held before. -/
def idleState : State := { noJobs T with earlier }

def acceptedState : State :=
  let p := createSearch none bodyRequest
  afterApi [] p { idleState T earlier with working := [.api p] }

def queryTask : EmbedTask where
  taskId := "embed"
  traceId := none
  parentSpanId := none
  sourceEventId := none
  taskType := .query
  modelName := "BAAI/bge-base-en-v1.5"
  postId := none
  postTable := none
  chunkIds := []
  chunkTable := none
  query := some "query"
  queryJobId := some "job"

def runTask : SearchRunTask := ⟨⟨"run", none, none, none⟩, "job"⟩

def finalizeTask : SearchFinalizeTask := ⟨⟨"finalize", none, none, none⟩, "job", candidates⟩

def sent (s : State) (d : Dispatch) : State := { s with tasks := s.tasks ++ enqueued d }

def queryDispatch : Dispatch := ⟨"embedding", "gpu.embed.bge-base-en-v1.5", .embed queryTask⟩

def runDispatch : Dispatch := ⟨"search", "cpu.search.run", .searchRun runTask⟩

def finalizeDispatch : Dispatch :=
  ⟨"search", "cpu.search.finalize", .searchFinalize (finalizeTask candidates)⟩

def embeddedState : State :=
  let p := embedQuery embedConfigs none queryTask "BAAI/bge-base-en-v1.5"
  afterEmbed "BAAI/bge-base-en-v1.5" [] p
    { sent (acceptedState T earlier) queryDispatch with
      working := [.embed "BAAI/bge-base-en-v1.5" p] }

def searchedState : State :=
  afterJob [] (SearchHandler.handle runTask)
    { sent (embeddedState T earlier) runDispatch with
      working := [.cpu (SearchHandler.handle runTask)] }

def changedState : State :=
  { searchedState T earlier with tables := U, earlier := (searchedState T earlier).past }

/-- The results are made of the tables as they are by then. -/
def finalizedState : State :=
  afterJob [] (SearchFinalizeHandler.handle (finalizeTask candidates))
    { sent (changedState T U earlier) (finalizeDispatch candidates) with
      working := [.cpu (SearchFinalizeHandler.handle (finalizeTask candidates))] }

theorem run_acceptedState : Run plainEnv (idleState T earlier) (acceptedState T earlier) := by
  refine .head (.request none bodyRequest) (run_api _ ?_ rfl)
  exact And.intro trivial (And.intro rfl (And.intro trivial trivial))

theorem run_embeddedState :
    Run plainEnv (acceptedState T earlier) (embeddedState T earlier) := by
  have hevents : (acceptedState T earlier).events = [.searchJobCreated
      ⟨"job", "query", "BAAI/bge-base-en-v1.5", false, none, none, none⟩] := rfl
  have hd : dispatched "embed" (.searchJobCreated
      ⟨"job", "query", "BAAI/bge-base-en-v1.5", false, none, none, none⟩) =
        some queryDispatch := by
    rfl
  have htasks : (sent (acceptedState T earlier) queryDispatch).tasks =
      [("gpu.embed.bge-base-en-v1.5", .embed queryTask)] := rfl
  have hpolled : polledModel "gpu.embed.bge-base-en-v1.5" = some "BAAI/bge-base-en-v1.5" := by
    rfl
  refine .head (.dispatch (hevents ▸ List.mem_singleton_self _) hd)
    (.head (.begin (.embed none (htasks ▸ List.mem_singleton_self _) rfl hpolled)) ?_)
  exact run_embed _ _ rfl

theorem run_searchedState (hT : AllThere T) :
    Run plainEnv (embeddedState T earlier) (searchedState T earlier) := by
  have hevents : .searchQueryEmbedded ⟨"job", "BAAI/bge-base-en-v1.5", none, none⟩ ∈
      (embeddedState T earlier).events := List.mem_cons_of_mem _ (List.mem_singleton_self _)
  have hd : dispatched "run" (.searchQueryEmbedded ⟨"job", "BAAI/bge-base-en-v1.5", none, none⟩) =
      some runDispatch := rfl
  have htask : ("cpu.search.run", .searchRun runTask) ∈
      (sent (embeddedState T earlier) runDispatch).tasks :=
    List.mem_append_right _ (List.mem_singleton_self _)
  exact .head (.dispatch hevents hd) (.head (.begin (.search htask)) (run_cpu _ hT rfl))

theorem run_finalizedState (hU : AllThere U)
    (hfound : .searchCandidatesRetrieved ⟨"job", candidates, 10, false, none, none⟩ ∈
      (searchedState T earlier).events) :
    Run plainEnv (changedState T U earlier) (finalizedState T U earlier candidates) := by
  have hd : dispatched "finalize" (.searchCandidatesRetrieved
      ⟨"job", candidates, 10, false, none, none⟩) = some (finalizeDispatch candidates) := rfl
  have htask : ("cpu.search.finalize", .searchFinalize (finalizeTask candidates)) ∈
      (sent (changedState T U earlier) (finalizeDispatch candidates)).tasks := by
    refine List.mem_append_right _ ?_
    have hqueue := (search_queues "cpu.search.finalize" (by decide)).1
    rw [finalizeDispatch, enqueued_of_delivered hqueue]
    exact List.mem_singleton_self _
  exact .head (.dispatch hfound hd) (.head (.begin (.finalize htask)) (run_cpu _ hU rfl))

theorem run_found (hT : AllThere T) :
    Run plainEnv (idleState T earlier) (searchedState T earlier) :=
  (run_acceptedState T earlier).trans
    ((run_embeddedState T earlier).trans (run_searchedState T earlier hT))

theorem run_served (hT : AllThere T) (hU : AllThere U)
    (hfound : .searchCandidatesRetrieved ⟨"job", candidates, 10, false, none, none⟩ ∈
      (searchedState T earlier).events) :
    Run plainEnv (idleState T earlier) (finalizedState T U earlier candidates) :=
  (run_found T earlier hT).trans
    (.head (.tables U) (run_finalizedState T U earlier candidates hU hfound))

end Served

def bodyTable : String := buildChunkTableName "posts_main" "body" "BAAI/bge-base-en-v1.5"

def windowRow (id : String) : StoredChunk where
  id
  postId := 50
  postUpdatedAt := ⟨1, true⟩
  chunkIndex := 0
  text := id
  metadata := ⟨some "text", none⟩
  tokenCount := 1
  textHash := id
  embedding := some [1]

def oneWindow : ChunkTable := ⟨[windowRow "a"], by decide⟩

def twoWindows : ChunkTable := ⟨[windowRow "a", windowRow "b"], by decide⟩

def tablesWith (bodies others : ChunkTable) : ChunkTables := fun u =>
  some (if u = bodyTable then bodies else others)

theorem allThere_tablesWith (bodies others : ChunkTable) : AllThere (tablesWith bodies others) :=
  fun _ => Option.some_ne_none _

def servedJob (results : List SearchResult) : SearchJob :=
  { SearchJob.create "job" "query" 10 "BAAI/bge-base-en-v1.5" bodyTable "main" false none with
    status := .complete
    embedding := some [1]
    results := some results }

def windowResult (id : String) : SearchResult := ⟨id, 50, id, none, 1⟩

/-- Another window comes after the search, and is not among its results. -/
theorem results_answer_served : Answers plainEnv
    [tablesWith twoWindows .empty, tablesWith oneWindow .empty]
    (request (servedJob [windowResult "a"])) [windowResult "a"] := by
  have hrun := run_served (tablesWith oneWindow .empty) (tablesWith twoWindows .empty) []
    [⟨"a", 1⟩] (allThere_tablesWith _ _) (allThere_tablesWith _ _) (by decide +kernel)
  have hrow : (finalizedState (tablesWith oneWindow .empty) (tablesWith twoWindows .empty) []
      [⟨"a", 1⟩]).jobs "job" = some (servedJob [windowResult "a"]) := by
    decide +kernel
  exact results_answer hrun hrow rfl

/-- Another table changes. -/
theorem results_exact_served : ∃ found,
    Nearest plainEnv twoWindows.rows
      ((request (servedJob [windowResult "a", windowResult "b"])).queryVector plainEnv) 10 found ∧
    [windowResult "a", windowResult "b"] =
      (request (servedJob [windowResult "a", windowResult "b"])).immediate plainEnv found := by
  have hrun := run_served (tablesWith twoWindows .empty) (tablesWith twoWindows oneWindow) []
    [⟨"a", 1⟩, ⟨"b", 1⟩] (allThere_tablesWith _ _) (allThere_tablesWith _ _) (by decide +kernel)
  have hrow : (finalizedState (tablesWith twoWindows .empty) (tablesWith twoWindows oneWindow) []
      [⟨"a", 1⟩, ⟨"b", 1⟩]).jobs "job" =
        some (servedJob [windowResult "a", windowResult "b"]) := by
    decide +kernel
  have htable : relation bodyTable = bodyTable := by decide +kernel
  have hrows : ∀ others, rowsOf (tablesWith twoWindows others) bodyTable = twoWindows.rows := by
    intro others
    unfold rowsOf tablesWith
    rw [htable, if_pos rfl]
    rfl
  refine results_exact hrun hrow rfl fun S hS => ?_
  obtain rfl | hS := List.mem_cons.mp hS
  · exact hrows _
  · rw [List.mem_singleton.mp hS]
    exact hrows _

end Searching
end RagPipeline
