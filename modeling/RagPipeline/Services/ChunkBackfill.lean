import Mathlib.Data.Nat.Pairing
import RagPipeline.Handlers.Rechunk

namespace RagPipeline
open Coro

/-- What a scan reads: the post tables, and of each the posts with a summary. -/
structure PostSummaryReader where
  listPostTables : List String
  fetchPostsWithSummary : String → List ℤ

structure ChunkBackfillResult where
  postsScanned : ℕ
  tasksPublished : ℕ
  tablesScanned : ℕ
deriving DecidableEq

namespace ChunkBackfillService

def chunkTask (taskId embedModel postTable : String) (postId : ℤ) : ChunkTask where
  taskId
  traceId := none
  parentSpanId := none
  sourceEventId := none
  taskType := .summaryTitle
  postId
  postTable
  embedModel
  analysisText := none

variable (newId : ℕ → String) (embedModel : String)

/-- The counts so far and the tasks that are published. -/
abbrev Requeued := ChunkBackfillResult × List ChunkTask

def requeuePost (postTable : String) (r : Requeued) (postId : ℤ) : Requeued :=
  ({ r.1 with tasksPublished := r.1.tasksPublished + 1 },
    r.2 ++ [chunkTask (newId r.1.tasksPublished) embedModel postTable postId])

def requeueTable (reader : PostSummaryReader) (r : Requeued) (postTable : String) : Requeued :=
  let postIds := reader.fetchPostsWithSummary postTable
  postIds.foldl (requeuePost newId embedModel postTable)
    ({ r.1 with postsScanned := r.1.postsScanned + postIds.length }, r.2)

/-- `newId` names the tasks. -/
def requeueMissingChunks (reader : PostSummaryReader) : Except PyExc Requeued :=
  match embedConfigs.get? "summary_title" with
  | none => .error (.other "summary_title")
  | some cfg =>
    .ok (reader.listPostTables.foldl (requeueTable newId cfg.primary reader)
      (⟨0, 0, reader.listPostTables.length⟩, []))

end ChunkBackfillService

/-- What `handle` draws for one task. -/
structure HandlerDraws where
  ids : ℕ → String
  eventId : String
  span : Option SpanIds

/-- The tasks one after another, the `k`-th with the `k`-th draws. -/
def processAll (C : Chunking) :
    (ℕ → HandlerDraws) → List ChunkTask → ChunkDb → List (Except PyExc (List String)) × ChunkDb
  | _, [], s => ([], s)
  | draws, task :: tasks, s =>
    let r := run chunkWorld
      (ChunkPostHandler.handle C (draws 0).ids (draws 0).eventId (draws 0).span task) s
    let rest := processAll C (fun k => draws (k + 1)) tasks r.2
    (r.1 :: rest.1, rest.2)

structure BackfillRound where
  reader : PostSummaryReader
  taskIds : ℕ → String
  draws : ℕ → HandlerDraws

namespace BackfillRound

def tasks (r : BackfillRound) : List ChunkTask :=
  match ChunkBackfillService.requeueMissingChunks r.taskIds r.reader with
  | .ok requeued => requeued.2
  | .error _ => []

variable (C : Chunking)

/-- What the `handle` calls return. -/
def results (s : ChunkDb) (r : BackfillRound) : List (Except PyExc (List String)) :=
  (processAll C r.draws r.tasks s).1

def after (s : ChunkDb) (r : BackfillRound) : ChunkDb := (processAll C r.draws r.tasks s).2

end BackfillRound

/-- The reader lists these tables, and of each the posts whose summary is not empty. -/
structure PostSummaryReader.Reads (reader : PostSummaryReader) (postTables : Set String)
    (s : ChunkDb) : Prop where
  tables : ∀ t, t ∈ reader.listPostTables ↔ t ∈ postTables
  posts : ∀ t ∈ postTables, ∀ i, i ∈ reader.fetchPostsWithSummary t ↔
    ∃ post, s.posts (relation t) i = some post ∧ truthy post.summary ≠ none

/-- `uuid4` draws ids that no stored chunk and no other draw has. -/
structure FreshHandlerDraws (s : ChunkDb) (draws : ℕ → HandlerDraws) : Prop where
  injective : ∀ k, Function.Injective (draws k).ids
  unused : ∀ k i u table, s.tables u = some table → ∀ r ∈ table.rows, r.id ≠ (draws k).ids i
  distinct : ∀ {k l}, k ≠ l → ∀ i j, (draws k).ids i ≠ (draws l).ids j

/-- The windows of the text that the task reads are stored, if it reads one. -/
def Chunked (C : Chunking) (task : ChunkTask) (s : ChunkDb) : Prop :=
  ∀ post text, s.posts (relation task.postTable) task.postId = some post →
    truthy (ChunkPostHandler.resolveText task post) = some text →
      ∃ table, s.tables (relation task.chunkTableName) = some table ∧
        ∀ window ∈ C.chunkText task.taskType text,
          ∃ r ∈ table.rows, r.postId = task.postId ∧ r.textHash = C.sha256 window

namespace ChunkTables

def Grows (T U : ChunkTables) : Prop :=
  ∀ u table, T u = some table → ∃ table', U u = some table' ∧ table.rows ⊆ table'.rows

variable {T U V : ChunkTables}

theorem Grows.refl (T : ChunkTables) : Grows T T :=
  fun _ table h => ⟨table, h, List.Subset.refl _⟩

theorem Grows.trans (h : Grows T U) (h' : Grows U V) : Grows T V := by
  intro u table hT
  obtain ⟨table', hU, hsub⟩ := h u table hT
  obtain ⟨table'', hV, hsub'⟩ := h' u table' hU
  exact ⟨table'', hV, List.Subset.trans hsub hsub'⟩

theorem grows_ensure (T : ChunkTables) (t : String) : Grows T (T.ensure t) := by
  intro u table hT
  refine ⟨table, ?_, List.Subset.refl _⟩
  unfold ensure
  split_ifs <;> simp [hT]

theorem grows_bulkInsert (T : ChunkTables) (t : String) (chunks : List Chunk) :
    Grows T (T.modify t (·.bulkInsert chunks)) := by
  intro u table hT
  by_cases hu : u = relation t
  · subst hu
    refine ⟨table.bulkInsert chunks, ?_, ChunkRepository.subset_bulkInsert _ _⟩
    simp [modify, hT]
  · exact ⟨table, by simp [modify, hu, hT], List.Subset.refl _⟩

theorem ensure_of_some {t : String} {table : ChunkTable} (h : T (relation t) = some table) :
    T.ensure t = T := by
  funext u
  unfold ensure
  split_ifs with hu
  · rw [hu, h]
    rfl
  · rfl

end ChunkTables

section OneTask

variable {C : Chunking} {task : ChunkTask} {s t : ChunkDb} {draws : HandlerDraws}

theorem Chunked.mono (h : Chunked C task s) (hposts : t.posts = s.posts)
    (hgrows : s.tables.Grows t.tables) : Chunked C task t := by
  intro post text hpost htext
  rw [hposts] at hpost
  obtain ⟨table, hT, hstored⟩ := h post text hpost htext
  obtain ⟨table', hU, hsub⟩ := hgrows _ table hT
  refine ⟨table', hU, fun window hw => ?_⟩
  obtain ⟨r, hr, hr'⟩ := hstored window hw
  exact ⟨r, hsub hr, hr'⟩

/-- A task whose windows are stored changes nothing and announces nothing. -/
theorem run_handle_of_chunked (hsha : ∀ window, C.sha256 window ≠ "") (h : Chunked C task s)
    (draws : HandlerDraws) :
    run chunkWorld (ChunkPostHandler.handle C draws.ids draws.eventId draws.span task) s =
      (.ok [], s) := by
  rw [ChunkPostHandler.handle, run_bind, run_call]
  simp only [chunkWorld]
  cases hpost : s.posts (relation task.postTable) task.postId with
  | none => rfl
  | some post =>
    simp only
    cases htext : truthy (ChunkPostHandler.resolveText task post) with
    | none => rfl
    | some text =>
      obtain ⟨cfg, hcfg⟩ := exists_embedConfig task.taskType
      obtain ⟨table, hT, hstored⟩ := h post text hpost htext
      -- every window is found by its hash
      have hnew : ChunkPostHandler.newChunks (ChunkRepository.textHashes table.rows task.postId)
          (ChunkPostHandler.buildChunks C draws.ids post task text) = [] := by
        rw [ChunkPostHandler.newChunks, List.filter_eq_nil_iff]
        intro c hc
        obtain ⟨i, hi, rfl⟩ := List.mem_mapIdx.mp hc
        have hkey := ChunkRepository.mem_keys_textHashes.mpr
          ⟨hsha _, hstored _ (List.getElem_mem hi)⟩
        simpa using hkey
      simp only [hcfg, ChunkPostHandler.storeNew, run_bind, run_call, chunkWorld,
        ChunkTables.ensure_of_some hT, hT, hnew]
      rfl

/-- A task with new ids stores its windows; tables only grow, by rows with these ids. -/
structure Handled (C : Chunking) (task : ChunkTask) (draws : HandlerDraws) (s t : ChunkDb) :
    Prop where
  posts : t.posts = s.posts
  grows : s.tables.Grows t.tables
  chunked : Chunked C task t
  drawn : ∀ u table, t.tables u = some table → ∀ r ∈ table.rows,
    (∃ i, r.id = draws.ids i) ∨ ∃ table', s.tables u = some table' ∧ r ∈ table'.rows

theorem drawn_ensure {T : ChunkTables} {name u : String} {table : ChunkTable}
    (h : T.ensure name u = some table) {r : StoredChunk} (hr : r ∈ table.rows) :
    ∃ table', T u = some table' ∧ r ∈ table'.rows := by
  unfold ChunkTables.ensure at h
  split_ifs at h with hu
  · cases hT : T u with
    | none =>
      rw [hT] at h
      obtain rfl : ChunkTable.empty = table := Option.some.inj h
      cases hr
    | some table' =>
      rw [hT] at h
      obtain rfl : table' = table := Option.some.inj h
      exact ⟨table', rfl, hr⟩
  · exact ⟨table, h, hr⟩

theorem handled_of_none
    (h : ∀ post, s.posts (relation task.postTable) task.postId = some post →
      truthy (ChunkPostHandler.resolveText task post) = none) :
    Handled C task draws s s where
  posts := rfl
  grows := .refl _
  chunked := by
    intro post text hpost htext
    rw [h post hpost] at htext
    cases htext
  drawn u table hT r hr := .inr ⟨table, hT, hr⟩

theorem stored_bulkInsert {rows : List StoredChunk} (post : Post) {text window : String}
    (hinj : Function.Injective draws.ids) (hunused : ∀ i, ∀ r ∈ rows, r.id ≠ draws.ids i)
    (hw : window ∈ C.chunkText task.taskType text) :
    ∃ r ∈ ChunkRepository.bulkInsert rows
        (ChunkPostHandler.newChunks (ChunkRepository.textHashes rows task.postId)
          (ChunkPostHandler.buildChunks C draws.ids post task text)),
      r.postId = task.postId ∧ r.textHash = C.sha256 window := by
  rw [ChunkRepository.bulkInsert_of_fresh (ChunkPostHandler.nodup_ids_newChunks hinj)]
  · by_cases hkey :
        C.sha256 window ∈ (ChunkRepository.textHashes rows task.postId).keys
    · obtain ⟨-, r, hr, hr'⟩ := ChunkRepository.mem_keys_textHashes.mp hkey
      exact ⟨r, List.mem_append_left _ hr, hr'⟩
    · obtain ⟨i, hi, rfl⟩ := List.mem_iff_getElem.mp hw
      refine ⟨_, List.mem_append_right _ (List.mem_map_of_mem
        (List.mem_filter.mpr ⟨List.mem_mapIdx.mpr ⟨i, hi, rfl⟩, ?_⟩)), rfl, rfl⟩
      exact decide_eq_true hkey
  · intro c hc r hr
    obtain ⟨-, i, hi⟩ := of_mem_newChunks hc
    rw [hi]
    exact hunused i r hr

theorem drawn_bulkInsert {T : ChunkTables} {name u : String} {chunks : List Chunk}
    (hdrawn : ∀ c ∈ chunks, ∃ i, c.id = draws.ids i) {table : ChunkTable}
    (h : T.modify name (·.bulkInsert chunks) u = some table) {r : StoredChunk}
    (hr : r ∈ table.rows) :
    (∃ i, r.id = draws.ids i) ∨ ∃ table', T u = some table' ∧ r ∈ table'.rows := by
  unfold ChunkTables.modify at h
  split_ifs at h with hu
  · obtain ⟨table', hT, rfl⟩ := Option.map_eq_some_iff.mp h
    obtain hr | ⟨c, hc, rfl⟩ := ChunkRepository.mem_bulkInsert hr
    · exact .inr ⟨table', hT, hr⟩
    · exact .inl (hdrawn c hc)
  · exact .inr ⟨table, h, hr⟩

variable (C task) in
theorem handled_handle (hinj : Function.Injective draws.ids)
    (hunused : ∀ i u table, s.tables u = some table → ∀ r ∈ table.rows, r.id ≠ draws.ids i) :
    Handled C task draws s
      (run chunkWorld (ChunkPostHandler.handle C draws.ids draws.eventId draws.span task) s).2 := by
  rw [ChunkPostHandler.handle, run_bind, run_call]
  simp only [chunkWorld]
  cases hpost : s.posts (relation task.postTable) task.postId with
  | none =>
    refine handled_of_none fun post h => ?_
    cases hpost.symm.trans h
  | some post =>
    simp only
    cases htext : truthy (ChunkPostHandler.resolveText task post) with
    | none =>
      refine handled_of_none fun post' h => ?_
      obtain rfl : post = post' := Option.some.inj (hpost.symm.trans h)
      exact htext
    | some text =>
      obtain ⟨cfg, hcfg⟩ := exists_embedConfig task.taskType
      obtain ⟨table, hT, hrows⟩ := s.tables.exists_ensure task.chunkTableName
      have hold : ∀ i, ∀ r ∈ table.rows, r.id ≠ draws.ids i := by
        intro i r hr
        obtain ⟨table', hT', hr'⟩ := drawn_ensure hT hr
        exact hunused i _ table' hT' r hr'
      have hchunked : ∀ {t : ChunkDb} {table' : ChunkTable}, t.posts = s.posts →
          t.tables (relation task.chunkTableName) = some table' →
          table'.rows = ChunkRepository.bulkInsert table.rows
            (ChunkPostHandler.newChunks (ChunkRepository.textHashes table.rows task.postId)
              (ChunkPostHandler.buildChunks C draws.ids post task text)) →
          Chunked C task t := by
        intro t table' hposts hT' hrows' post' text' hpost' htext'
        rw [hposts] at hpost'
        obtain rfl : post = post' := Option.some.inj (hpost.symm.trans hpost')
        obtain rfl : text = text' := Option.some.inj (htext.symm.trans htext')
        refine ⟨table', hT', fun window hw => ?_⟩
        rw [hrows']
        exact stored_bulkInsert post hinj hold hw
      simp only [hcfg, ChunkPostHandler.storeNew, run_bind, run_call, chunkWorld, hT]
      cases hnew : ChunkPostHandler.newChunks
          (ChunkRepository.textHashes table.rows task.postId)
          (ChunkPostHandler.buildChunks C draws.ids post task text) with
      | nil =>
        refine ⟨rfl, ChunkTables.grows_ensure _ _, hchunked rfl hT ?_, ?_⟩
        · rw [hnew, ChunkRepository.bulkInsert_nil]
        · exact fun u table' hT' r hr => .inr (drawn_ensure hT' hr)
      | cons c cs =>
        have hdrawn : ∀ d ∈ c :: cs, ∃ i, d.id = draws.ids i :=
          fun d hd => (of_mem_newChunks (hnew ▸ hd)).2
        simp only [ChunkPostHandler.store, run_bind, run_call, chunkWorld, hT]
        refine ⟨rfl, (ChunkTables.grows_ensure _ _).trans (ChunkTables.grows_bulkInsert _ _ _),
          @hchunked _ (table.bulkInsert (c :: cs)) rfl ?_ ?_, ?_⟩
        · simp [ChunkTables.modify, hT]
        · rw [hnew]
          rfl
        · intro u table' hT' r hr
          obtain hr | ⟨table'', hT'', hr''⟩ := drawn_bulkInsert hdrawn hT' hr
          · exact .inl hr
          · exact .inr (drawn_ensure hT'' hr'')

end OneTask

section Rounds

variable {C : Chunking} {s : ChunkDb} {draws : ℕ → HandlerDraws}

theorem FreshHandlerDraws.handle (h : FreshHandlerDraws s draws) (task : ChunkTask) :
    FreshHandlerDraws
      (run chunkWorld (ChunkPostHandler.handle C (draws 0).ids (draws 0).eventId (draws 0).span
        task) s).2 fun k => draws (k + 1) where
  injective k := h.injective (k + 1)
  unused := by
    intro k i u table hT r hr
    have hhandled := handled_handle C task (h.injective 0) (h.unused 0)
    obtain ⟨j, hj⟩ | ⟨table', hT', hr'⟩ := hhandled.drawn u table hT r hr
    · rw [hj]
      exact h.distinct (Nat.succ_ne_zero k).symm j i
    · exact h.unused (k + 1) i u table' hT' r hr'
  distinct := fun hkl => h.distinct fun he => hkl (Nat.succ.inj he)

theorem processAll_spec (tasks : List ChunkTask) (h : FreshHandlerDraws s draws) :
    (processAll C draws tasks s).2.posts = s.posts ∧
      s.tables.Grows (processAll C draws tasks s).2.tables ∧
        ∀ task ∈ tasks, Chunked C task (processAll C draws tasks s).2 := by
  induction tasks generalizing s draws with
  | nil => exact ⟨rfl, .refl _, fun _ h => nomatch h⟩
  | cons task tasks ih =>
    have hhandled := handled_handle C task (h.injective 0) (h.unused 0)
    obtain ⟨hposts, hgrows, hchunked⟩ := ih (h.handle task)
    refine ⟨hposts.trans hhandled.posts, hhandled.grows.trans hgrows, ?_⟩
    intro task' htask'
    obtain rfl | htask' := List.mem_cons.mp htask'
    -- what the first task stored stays
    · exact hhandled.chunked.mono hposts hgrows
    · exact hchunked task' htask'

/-- Tasks that are all chunked change nothing, and each `handle` returns no ids. -/
theorem processAll_of_chunked (hsha : ∀ window, C.sha256 window ≠ "") (tasks : List ChunkTask)
    (h : ∀ task ∈ tasks, Chunked C task s) (draws : ℕ → HandlerDraws) :
    processAll C draws tasks s = (tasks.map fun _ => .ok [], s) := by
  induction tasks generalizing draws with
  | nil => rfl
  | cons task tasks ih =>
    have hfirst := run_handle_of_chunked hsha (h task List.mem_cons_self) (draws 0)
    have hrest := ih (fun task' htask' => h task' (List.mem_cons_of_mem task htask'))
      (fun k => draws (k + 1))
    simp only [processAll, hfirst, hrest, List.map_cons]

namespace ChunkBackfillService

variable {newId : ℕ → String} {model : String} {reader : PostSummaryReader}

def targets (tasks : List ChunkTask) : List (String × ℤ) :=
  tasks.map fun task => (task.postTable, task.postId)

def IsBackfill (model : String) (task : ChunkTask) : Prop :=
  task = chunkTask task.taskId model task.postTable task.postId

variable (newId model) in
theorem requeuePosts_spec (postTable : String) (ids : List ℤ) (r : Requeued) :
    targets (ids.foldl (requeuePost newId model postTable) r).2 =
        targets r.2 ++ ids.map (Prod.mk postTable) ∧
      ((∀ task ∈ r.2, IsBackfill model task) →
        ∀ task ∈ (ids.foldl (requeuePost newId model postTable) r).2, IsBackfill model task) := by
  induction ids generalizing r with
  | nil => exact ⟨(List.append_nil _).symm, id⟩
  | cons i ids ih =>
    obtain ⟨htargets, htasks⟩ := ih (requeuePost newId model postTable r i)
    rw [List.foldl_cons, htargets]
    constructor
    · simp [targets, requeuePost, chunkTask]
    · intro hr
      apply htasks
      intro task htask
      obtain htask | htask := List.mem_append.mp htask
      · exact hr task htask
      · rw [List.mem_singleton.mp htask]
        rfl

variable (newId model reader) in
theorem requeueTables_spec (tables : List String) (r : Requeued) :
    targets (tables.foldl (requeueTable newId model reader) r).2 = targets r.2 ++
        tables.flatMap (fun t => (reader.fetchPostsWithSummary t).map (Prod.mk t)) ∧
      ((∀ task ∈ r.2, IsBackfill model task) →
        ∀ task ∈ (tables.foldl (requeueTable newId model reader) r).2, IsBackfill model task) := by
  induction tables generalizing r with
  | nil => exact ⟨(List.append_nil _).symm, id⟩
  | cons t tables ih =>
    obtain ⟨htargets, htasks⟩ := ih (requeueTable newId model reader r t)
    obtain ⟨htargets', htasks'⟩ := requeuePosts_spec newId model t
      (reader.fetchPostsWithSummary t)
      ({ r.1 with postsScanned := r.1.postsScanned + (reader.fetchPostsWithSummary t).length }, r.2)
    refine ⟨?_, fun hr => htasks (htasks' hr)⟩
    rw [List.foldl_cons, htargets, requeueTable, htargets', List.flatMap_cons, List.append_assoc]

theorem IsBackfill.chunked {task task' : ChunkTask} (h : IsBackfill model task)
    (h' : IsBackfill model task')
    (htarget : (task.postTable, task.postId) = (task'.postTable, task'.postId))
    (hchunked : Chunked C task s) : Chunked C task' s := by
  obtain ⟨htable, hpost⟩ := Prod.mk.inj htarget
  rw [h, htable, hpost] at hchunked
  rw [h']
  exact hchunked

end ChunkBackfillService

namespace BackfillRound
open ChunkBackfillService

variable {postTables : Set String} {r r' : BackfillRound}

theorem tasks_eq (r : BackfillRound) : r.tasks = (r.reader.listPostTables.foldl
    (requeueTable r.taskIds qwen34bEmbedCfg.primary r.reader)
      (⟨0, 0, r.reader.listPostTables.length⟩, [])).2 := rfl

theorem isBackfill (r : BackfillRound) :
    ∀ task ∈ r.tasks, IsBackfill qwen34bEmbedCfg.primary task := by
  rw [tasks_eq]
  exact (requeueTables_spec _ _ _ _ _).2 fun _ h => nomatch h

/-- A round asks for every post that the reader finds, and no others. -/
theorem mem_targets (h : r.reader.Reads postTables s) {t : String} {i : ℤ} :
    (t, i) ∈ targets r.tasks ↔ t ∈ postTables ∧
      ∃ post, s.posts (relation t) i = some post ∧ truthy post.summary ≠ none := by
  rw [tasks_eq, (requeueTables_spec _ _ _ _ _).1]
  show (t, i) ∈ [] ++ _ ↔ _
  rw [List.nil_append, List.mem_flatMap]
  constructor
  · rintro ⟨t', ht, hmem⟩
    obtain ⟨i', hi, he⟩ := List.mem_map.mp hmem
    obtain ⟨rfl, rfl⟩ := Prod.mk.inj he
    have ht' : t' ∈ postTables := (h.tables t').mp ht
    exact ⟨ht', (h.posts t' ht' i').mp hi⟩
  · rintro ⟨ht, hpost⟩
    exact ⟨t, (h.tables t).mpr ht, List.mem_map_of_mem ((h.posts t ht i).mpr hpost)⟩

theorem chunked_after (hfresh : FreshHandlerDraws s r.draws) (h : r.reader.Reads postTables s)
    (h' : r'.reader.Reads postTables s) :
    ∀ task ∈ r'.tasks, Chunked C task (r.after C s) := by
  intro task' htask'
  have htarget : (task'.postTable, task'.postId) ∈ targets r.tasks := by
    rw [mem_targets h, ← mem_targets h']
    exact List.mem_map_of_mem htask'
  obtain ⟨task, htask, he⟩ := List.mem_map.mp htarget
  have hchunked := (processAll_spec (C := C) r.tasks hfresh).2.2 task htask
  exact (r.isBackfill task htask).chunked (r'.isBackfill task' htask') he hchunked

end BackfillRound

end Rounds

open BackfillRound in
/-- After a first backfill whose tasks are handled, any number of later ones leave the posts, the
chunk tables and the events as they are, and each of their `handle` calls returns no ids. -/
theorem backfill_idempotent (C : Chunking) (postTables : Set String) (s : ChunkDb)
    (first : BackfillRound) (later : List BackfillRound) (hsha : ∀ window, C.sha256 window ≠ "")
    (hfresh : FreshHandlerDraws s first.draws) (hfirst : first.reader.Reads postTables s)
    (hlater : ∀ r ∈ later, r.reader.Reads postTables s) :
    later.foldl (after C) (first.after C s) = first.after C s ∧
      ∀ pre r, pre ++ [r] <+: later →
        ∀ result ∈ r.results C (pre.foldl (after C) (first.after C s)), result = .ok [] := by
  have hround : ∀ r ∈ later, processAll C r.draws r.tasks (first.after C s) =
      (r.tasks.map fun _ => .ok [], first.after C s) := by
    intro r hr
    exact processAll_of_chunked hsha r.tasks (chunked_after hfresh hfirst (hlater r hr)) r.draws
  have hstays : ∀ rs : List BackfillRound, (∀ r ∈ rs, r ∈ later) →
      rs.foldl (after C) (first.after C s) = first.after C s := by
    intro rs hrs
    induction rs with
    | nil => rfl
    | cons r rs ih =>
      have hr : r.after C (first.after C s) = first.after C s := by
        rw [after, hround r (hrs r List.mem_cons_self)]
      rw [List.foldl_cons, hr]
      exact ih fun r' hr' => hrs r' (List.mem_cons_of_mem r hr')
  refine ⟨hstays later fun _ => id, fun pre r hpre result hresult => ?_⟩
  have hmem : ∀ r' ∈ pre ++ [r], r' ∈ later := fun r' hr' => hpre.subset hr'
  have hr : r ∈ later := hmem r (List.mem_append_right _ (List.mem_singleton_self r))
  rw [hstays pre fun r' hr' => hmem r' (List.mem_append_left _ hr'), results,
    hround r hr] at hresult
  obtain ⟨-, -, rfl⟩ := List.mem_map.mp hresult
  rfl

def summarisedDb : ChunkDb where
  posts _ postId :=
    if postId = 50 then some { titledPost with summary := some "a summary" } else none
  tables _ := none
  events := []

/-- The `k`-th task draws ids of its own. -/
def numberedDraws (k : ℕ) : HandlerDraws where
  ids i := String.ofList (List.replicate (Nat.pair k i) '0')
  eventId := "event"
  span := none

def summarisedRound : BackfillRound where
  reader := { listPostTables := ["posts_main"], fetchPostsWithSummary := fun _ => [50] }
  taskIds _ := "task"
  draws := numberedDraws

theorem ids_numberedDraws {k l i j : ℕ} (h : (numberedDraws k).ids i = (numberedDraws l).ids j) :
    k = l ∧ i = j := by
  have hchars : List.replicate (Nat.pair k i) '0' = List.replicate (Nat.pair l j) '0' :=
    String.ofList_injective h
  have hlength := congrArg List.length hchars
  rw [List.length_replicate, List.length_replicate] at hlength
  exact Nat.pair_eq_pair.mp hlength

theorem freshHandlerDraws_numberedDraws : FreshHandlerDraws summarisedDb numberedDraws where
  injective _ _ _ h := (ids_numberedDraws h).2
  unused _ _ _ _ hT := nomatch hT
  distinct hkl _ _ h := hkl (ids_numberedDraws h).1

theorem reads_summarisedRound : summarisedRound.reader.Reads {"posts_main"} summarisedDb where
  tables t := by simp [summarisedRound]
  posts t ht i := by
    by_cases hi : i = 50 <;> simp [summarisedRound, summarisedDb, hi, truthy]

theorem backfill_idempotent_summarised :
    [summarisedRound, summarisedRound].foldl (BackfillRound.after wordChunking)
        (summarisedRound.after wordChunking summarisedDb) =
          summarisedRound.after wordChunking summarisedDb ∧
      ∀ pre r, pre ++ [r] <+: [summarisedRound, summarisedRound] →
        ∀ result ∈ r.results wordChunking (pre.foldl (BackfillRound.after wordChunking)
          (summarisedRound.after wordChunking summarisedDb)), result = .ok [] :=
  backfill_idempotent wordChunking {"posts_main"} summarisedDb summarisedRound
    [summarisedRound, summarisedRound] sha256_wordChunking freshHandlerDraws_numberedDraws
    reads_summarisedRound (by simp [reads_summarisedRound])

/-- The first round chunks the summary. -/
example :
    (summarisedRound.results wordChunking summarisedDb).map Except.toOption = [some [""]] := by
  decide +kernel

end RagPipeline
