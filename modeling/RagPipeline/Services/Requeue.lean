import RagPipeline.Dispatchers
import RagPipeline.TableNames

namespace RagPipeline
namespace RequeueService

/-- `by_post`: the un-embedded chunks of each post, in their order. -/
def byPost (unembedded : List (String × ℤ)) : OrderedDict ℤ (List String) :=
  OrderedDict.empty.foldItems Prod.snd (fun r ids => ids.getD [] ++ [r.1]) unembedded

def embedTask (taskId postTable chunkTable modelName : String) (postId : ℤ)
    (chunkIds : List String) : EmbedTask where
  taskId
  traceId := none
  parentSpanId := none
  sourceEventId := none
  taskType := .chunk
  modelName
  postId := some postId
  postTable := some postTable
  chunkIds
  chunkTable := some chunkTable
  query := none
  queryJobId := none

/-- One task for each post with un-embedded chunks; `newId` names the tasks. -/
def publishTasks (newId : ℕ → String) (postTable chunkTable : String) (cfg : EmbedConfig)
    (unembedded : List (String × ℤ)) : List Dispatch :=
  (byPost unembedded).entries.zipIdx.map fun p =>
    { exchange := "embedding"
      routingKey := cfg.queue
      task := .embed (embedTask (newId p.2) postTable chunkTable cfg.primary p.1.1 p.1.2) }

/-- One turn of the scan; an unrecognised table is skipped. -/
def requeueTable (configs : EmbedConfigs) (newId : ℕ → String) (tableName : String)
    (unembedded : List (String × ℤ)) : List Dispatch :=
  match parseChunkTableName tableName (buildChunkTableSuffixMap configs) with
  | none => []
  | some (postTable, _, cfg) => publishTasks newId postTable tableName cfg unembedded

structure ChunkTableReader where
  listChunkTables : List String
  fetchUnembeddedChunks : String → List (String × ℤ)

structure RequeueResult where
  requeuedChunks : ℕ
  tasksPublished : ℕ
  tablesScanned : ℕ
  tablesSkipped : ℕ
  skippedTableNames : List String

/-- The result so far and what is published. -/
abbrev Scan := RequeueResult × List Dispatch

variable (configs : EmbedConfigs) (newId : ℕ → String) (reader : ChunkTableReader)

def scanTable (r : Scan) (tableName : String) : Scan :=
  match parseChunkTableName tableName (buildChunkTableSuffixMap configs) with
  | none =>
    ({ r.1 with
        tablesSkipped := r.1.tablesSkipped + 1
        skippedTableNames := r.1.skippedTableNames ++ [tableName] }, r.2)
  | some (postTable, _, cfg) =>
    match reader.fetchUnembeddedChunks tableName with
    | [] => r
    | row :: rows =>
      ({ r.1 with
          requeuedChunks := r.1.requeuedChunks + (row :: rows).length
          tasksPublished := r.1.tasksPublished + (byPost (row :: rows)).entries.length },
        r.2 ++ publishTasks (fun i => newId (r.1.tasksPublished + i)) postTable tableName cfg
          (row :: rows))

/-- Every publish succeeds. -/
def requeueMissingEmbeddings : Scan :=
  reader.listChunkTables.foldl (scanTable configs newId reader)
    (⟨0, 0, reader.listChunkTables.length, 0, []⟩, [])

def recognises (tableName : String) : Bool :=
  (parseChunkTableName tableName (buildChunkTableSuffixMap configs)).isSome

/-- The rows that a task asks for again: the table, the post and the chunk of each. -/
def carried (d : Dispatch) : List (Option String × Option ℤ × String) :=
  match d.task with
  | .embed task => task.chunkIds.map fun id => (task.chunkTable, task.postId, id)
  | _ => []

def target (d : Dispatch) : Option String × Option ℤ :=
  match d.task with
  | .embed task => (task.chunkTable, task.postId)
  | _ => (none, none)

def expected (tables : List String) : List (Option String × Option ℤ × String) :=
  (tables.filter (recognises configs)).flatMap fun t =>
    (reader.fetchUnembeddedChunks t).map fun r => (some t, some r.2, r.1)

/-- A task for all un-embedded rows that a post has in a recognised table, with the table's post
table, model and queue. -/
def AsksFor (tables : List String) (d : Dispatch) : Prop :=
  ∃ t ∈ tables, ∃ postTable taskType cfg,
    parseChunkTableName t (buildChunkTableSuffixMap configs) = some (postTable, taskType, cfg) ∧
      ∃ taskId postId chunkIds, chunkIds ≠ [] ∧
        chunkIds = ((reader.fetchUnembeddedChunks t).filter (·.2 = postId)).map Prod.fst ∧
        d = ⟨"embedding", cfg.queue,
          .embed (embedTask taskId postTable t cfg.primary postId chunkIds)⟩

/-- Every row of a recognised table is asked for exactly once, with one task for each post of a
table, and nothing else is; the result counts what was done. -/
structure Requeued (tables : List String) (s : Scan) : Prop where
  tasks : ∀ d ∈ s.2, AsksFor configs reader tables d
  partition : (s.2.flatMap carried).Perm (expected configs reader tables)
  once : ((s.2.flatMap carried).map fun c => (c.1, c.2.2)).Nodup
  onePerPost : (s.2.map target).Nodup
  requeuedChunks : s.1.requeuedChunks = (expected configs reader tables).length
  tasksPublished : s.1.tasksPublished = s.2.length
  tablesScanned : s.1.tablesScanned = tables.length
  skippedTableNames : s.1.skippedTableNames = tables.filter fun t => !recognises configs t
  tablesSkipped : s.1.tablesSkipped = s.1.skippedTableNames.length

section Groups

variable (rows : List (String × ℤ))

theorem foldl_append_group (rows : List (String × ℤ)) (ids : List String) :
    rows.foldl (fun o (r : String × ℤ) => some (o.getD [] ++ [r.1])) (some ids) =
      some (ids ++ rows.map Prod.fst) := by
  induction rows generalizing ids with
  | nil => simp
  | cons r rows ih =>
    rw [List.foldl_cons, Option.getD_some, ih, List.map_cons, List.append_assoc]
    rfl

theorem mem_byPost {p : ℤ} {ids : List String} : (p, ids) ∈ (byPost rows).entries ↔
    ids ≠ [] ∧ ids = (rows.filter (·.2 = p)).map Prod.fst := by
  rw [← OrderedDict.get?_eq_some, byPost, OrderedDict.get?_foldItems]
  cases rows.filter (·.2 = p) with
  | nil => simp
  | cons r rs =>
    rw [List.foldl_cons, OrderedDict.get?_empty, Option.getD_none, List.nil_append,
      foldl_append_group, List.singleton_append, Option.some_inj, List.map_cons, eq_comm]
    exact (and_iff_right_of_imp fun h => by rw [h]; exact List.cons_ne_nil _ _).symm

theorem byPost_perm : ((byPost rows).entries.flatMap fun e => e.2.map fun id => (id, e.1)).Perm
    rows := by
  have hupd : ∀ (r : String × ℤ) (o : Option (List String)),
      ((o.getD [] ++ [r.1]).map fun id => (id, r.2)).Perm
        ((o.map fun ids => ids.map fun id => (id, r.2)).getD [] ++ [r]) := by
    intro r o
    cases o <;> simp
  have hperm := OrderedDict.flatMap_foldItems_perm Prod.snd
    (fun (r : String × ℤ) (ids : Option (List String)) => ids.getD [] ++ [r.1])
    (fun (p : ℤ) ids => ids.map fun id => (id, p)) (fun r => [r]) hupd OrderedDict.empty rows
  have hrows : (rows.flatMap fun r => [r]) = rows := List.flatMap_singleton' rows
  rw [hrows] at hperm
  exact hperm

variable (postTable chunkTable : String) (cfg : EmbedConfig)

theorem length_publishTasks :
    (publishTasks newId postTable chunkTable cfg rows).length = (byPost rows).entries.length := by
  simp [publishTasks]

/-- What is said of each task is said of each group. -/
theorem publishTasks_flatMap {β : Type} (f : Dispatch → List β) (g : ℤ × List String → List β)
    (h : ∀ id e, f ⟨"embedding", cfg.queue,
      .embed (embedTask id postTable chunkTable cfg.primary e.1 e.2)⟩ = g e) :
    (publishTasks newId postTable chunkTable cfg rows).flatMap f =
      (byPost rows).entries.flatMap g := by
  rw [publishTasks, List.flatMap_map]
  simp only [h]
  rw [← List.flatMap_map Prod.fst g, List.zipIdx_map_fst]

theorem carried_publishTasks :
    ((publishTasks newId postTable chunkTable cfg rows).flatMap carried).Perm
      (rows.map fun r => (some chunkTable, some r.2, r.1)) := by
  have hgroups := publishTasks_flatMap newId rows postTable chunkTable cfg carried
    (fun e => (e.2.map fun id => (id, e.1)).map fun r => (some chunkTable, some r.2, r.1))
    fun id e => by simp [carried, embedTask]
  rw [hgroups, ← List.map_flatMap]
  exact (byPost_perm rows).map _

theorem target_publishTasks : (publishTasks newId postTable chunkTable cfg rows).map target =
    (byPost rows).keys.map fun p => (some chunkTable, some p) := by
  have hgroups := publishTasks_flatMap newId rows postTable chunkTable cfg (fun d => [target d])
    (fun e => [(some chunkTable, some e.1)]) fun _ _ => rfl
  simpa [OrderedDict.keys, ← List.map_eq_flatMap, Function.comp_def] using hgroups

theorem asksFor_publishTasks {t : String} {tables : List String} (ht : t ∈ tables)
    {taskType : String} (hparse : parseChunkTableName t (buildChunkTableSuffixMap configs) =
      some (postTable, taskType, cfg)) :
    ∀ d ∈ publishTasks newId postTable t cfg (reader.fetchUnembeddedChunks t),
      AsksFor configs reader tables d := by
  intro d hd
  obtain ⟨⟨⟨p, ids⟩, i⟩, hmem, rfl⟩ := List.mem_map.mp hd
  obtain ⟨hne, hids⟩ := (mem_byPost _).mp (List.fst_mem_of_mem_zipIdx hmem)
  exact ⟨t, ht, postTable, taskType, cfg, hparse, newId i, p, ids, hne, hids, rfl⟩

end Groups

section Scan

variable {configs reader} {tables : List String} {t : String} {s : Scan}

theorem AsksFor.mono {d : Dispatch} (h : AsksFor configs reader tables d) {tables' : List String}
    (hsub : tables ⊆ tables') : AsksFor configs reader tables' d := by
  obtain ⟨t, ht, hrest⟩ := h
  exact ⟨t, hsub ht, hrest⟩

/-- What holds after these tables, however often they are listed. -/
structure Scanned (configs : EmbedConfigs) (reader : ChunkTableReader) (tables : List String)
    (s : Scan) : Prop where
  tasks : ∀ d ∈ s.2, AsksFor configs reader tables d
  partition : (s.2.flatMap carried).Perm (expected configs reader tables)
  targets : s.2.map target = (tables.filter (recognises configs)).flatMap fun t =>
    (byPost (reader.fetchUnembeddedChunks t)).keys.map fun p => (some t, some p)
  requeuedChunks : s.1.requeuedChunks = (expected configs reader tables).length
  tasksPublished : s.1.tasksPublished = s.2.length
  skippedTableNames : s.1.skippedTableNames = tables.filter fun t => !recognises configs t
  tablesSkipped : s.1.tablesSkipped = s.1.skippedTableNames.length

theorem scanTable_of_none
    (h : parseChunkTableName t (buildChunkTableSuffixMap configs) = none) :
    scanTable configs newId reader s t =
      ({ s.1 with
          tablesSkipped := s.1.tablesSkipped + 1
          skippedTableNames := s.1.skippedTableNames ++ [t] }, s.2) := by
  rw [scanTable, h]

/-- A table without missing embeddings adds nothing, as if it were gone through. -/
theorem scanTable_of_some {postTable taskType : String} {cfg : EmbedConfig}
    (h : parseChunkTableName t (buildChunkTableSuffixMap configs) =
      some (postTable, taskType, cfg)) :
    scanTable configs newId reader s t =
      ({ s.1 with
          requeuedChunks := s.1.requeuedChunks + (reader.fetchUnembeddedChunks t).length
          tasksPublished := s.1.tasksPublished +
            (byPost (reader.fetchUnembeddedChunks t)).entries.length },
        s.2 ++ publishTasks (fun i => newId (s.1.tasksPublished + i)) postTable t cfg
          (reader.fetchUnembeddedChunks t)) := by
  rw [scanTable, h]
  cases reader.fetchUnembeddedChunks t with
  | nil =>
    have hnone : publishTasks (fun i => newId (s.1.tasksPublished + i)) postTable t cfg [] = [] :=
      rfl
    rw [hnone, List.append_nil]
    rfl
  | cons row rows => rfl

variable (t) in
theorem expected_concat (h : recognises configs t = true) (tables : List String) :
    expected configs reader (tables ++ [t]) = expected configs reader tables ++
      (reader.fetchUnembeddedChunks t).map fun r => (some t, some r.2, r.1) := by
  simp [expected, h]

theorem expected_concat_of_not (h : recognises configs t = false) :
    expected configs reader (tables ++ [t]) = expected configs reader tables := by
  simp [expected, h]

theorem Scanned.scanTable (h : Scanned configs reader tables s) (t : String) :
    Scanned configs reader (tables ++ [t]) (scanTable configs newId reader s t) := by
  have hsub : tables ⊆ tables ++ [t] := List.subset_append_left _ _
  cases hparse : parseChunkTableName t (buildChunkTableSuffixMap configs) with
  | none =>
    have hnot : recognises configs t = false := by rw [recognises, hparse]; rfl
    rw [scanTable_of_none newId hparse]
    refine ⟨fun d hd => (h.tasks d hd).mono hsub, ?_, ?_, ?_, h.tasksPublished, ?_, ?_⟩
    · rw [expected_concat_of_not hnot]
      exact h.partition
    · simpa [hnot] using h.targets
    · rw [expected_concat_of_not hnot]
      exact h.requeuedChunks
    · simp [hnot, h.skippedTableNames]
    · simp [h.tablesSkipped]
  | some parsed =>
    obtain ⟨postTable, taskType, cfg⟩ := parsed
    have hyes : recognises configs t = true := by rw [recognises, hparse]; rfl
    have hmem : t ∈ tables ++ [t] := List.mem_append_right _ (List.mem_singleton_self t)
    rw [scanTable_of_some newId hparse]
    refine ⟨?_, ?_, ?_, ?_, ?_, ?_, h.tablesSkipped⟩
    · intro d hd
      obtain hd | hd := List.mem_append.mp hd
      · exact (h.tasks d hd).mono hsub
      · exact asksFor_publishTasks configs _ reader postTable cfg hmem hparse d hd
    · rw [expected_concat t hyes, List.flatMap_append]
      exact h.partition.append (carried_publishTasks _ _ _ _ _)
    · simp only [List.map_append, h.targets, target_publishTasks]
      simp [hyes]
    · rw [expected_concat t hyes, List.length_append, List.length_map, ← h.requeuedChunks]
    · simp only [List.length_append, length_publishTasks, h.tasksPublished]
    · simp [hyes, h.skippedTableNames]

theorem Scanned.foldl (h : Scanned configs reader tables s) (rest : List String) :
    Scanned configs reader (tables ++ rest) (rest.foldl (RequeueService.scanTable configs newId
      reader) s) := by
  induction rest generalizing tables s with
  | nil => rwa [List.append_nil]
  | cons t rest ih =>
    have hnext := ih (h.scanTable newId t)
    rwa [List.append_assoc, List.singleton_append] at hnext

theorem tablesScanned_foldl (rest : List String) (s : Scan) :
    (rest.foldl (RequeueService.scanTable configs newId reader) s).1.tablesScanned =
      s.1.tablesScanned := by
  induction rest generalizing s with
  | nil => rfl
  | cons t rest ih =>
    rw [List.foldl_cons, ih]
    cases hparse : parseChunkTableName t (buildChunkTableSuffixMap configs) with
    | none => rw [scanTable_of_none newId hparse]
    | some parsed => rw [scanTable_of_some newId hparse]

/-- What differs within each table differs over all of them. -/
theorem nodup_flatMap_tables {β : Type} {f : String → List β} (htables : tables.Nodup)
    (hf : ∀ t ∈ tables, (f t).Nodup) :
    (tables.flatMap fun t => (f t).map fun x => (some t, x)).Nodup := by
  rw [List.nodup_flatMap]
  constructor
  · intro t ht
    exact (hf t ht).map fun x y h => (Prod.mk.inj h).2
  · apply htables.imp
    intro t u hne p ht hu
    obtain ⟨x, -, rfl⟩ := List.mem_map.mp ht
    obtain ⟨y, -, hy⟩ := List.mem_map.mp hu
    exact hne (Option.some.inj (Prod.mk.inj hy).1).symm

end Scan

end RequeueService

open RequeueService

/-- A scan asks for every row of the recognised tables exactly once, in one task for each post of a
table, and skips the others. -/
theorem requeueMissingEmbeddings_spec (configs : EmbedConfigs) (newId : ℕ → String)
    {reader : ChunkTableReader} (htables : reader.listChunkTables.Nodup)
    (hrows : ∀ t ∈ reader.listChunkTables,
      ((reader.fetchUnembeddedChunks t).map Prod.fst).Nodup) :
    Requeued configs reader reader.listChunkTables
      (requeueMissingEmbeddings configs newId reader) := by
  have hstart : Scanned configs reader [] (⟨0, 0, reader.listChunkTables.length, 0, []⟩, []) :=
    ⟨by simp, .nil, rfl, rfl, rfl, rfl, rfl⟩
  have hscan : Scanned configs reader reader.listChunkTables
      (requeueMissingEmbeddings configs newId reader) := hstart.foldl newId reader.listChunkTables
  refine ⟨hscan.tasks, hscan.partition, ?_, ?_, hscan.requeuedChunks, hscan.tasksPublished,
    tablesScanned_foldl newId _ _, hscan.skippedTableNames, hscan.tablesSkipped⟩
  · have hperm := hscan.partition.map fun c => (c.1, c.2.2)
    rw [hperm.nodup_iff, expected, List.map_flatMap]
    simp only [List.map_map]
    have hnodup := nodup_flatMap_tables (f := fun t =>
      (reader.fetchUnembeddedChunks t).map Prod.fst) (htables.filter (recognises configs))
      fun t ht => hrows t (List.mem_filter.mp ht).1
    simpa [Function.comp_def] using hnodup
  · rw [hscan.targets]
    have hnodup := nodup_flatMap_tables (f := fun t =>
      (byPost (reader.fetchUnembeddedChunks t)).keys.map some) (htables.filter (recognises configs))
      fun t _ => (byPost (reader.fetchUnembeddedChunks t)).nodup.map fun _ _ h => Option.some.inj h
    simpa [Function.comp_def] using hnodup

/-- A chunk table with rows of two posts, and one that no configuration has. -/
def twoPostsReader : ChunkTableReader where
  listChunkTables := ["posts_main_chunks_body_baai_bge_base_en_v1_5", "posts_main_chunks_old"]
  fetchUnembeddedChunks t :=
    if t = "posts_main_chunks_old" then [("d", 1)] else [("a", 1), ("b", 2), ("c", 1)]

theorem requeueMissingEmbeddings_spec_two_posts :
    Requeued embedConfigs twoPostsReader twoPostsReader.listChunkTables
      (requeueMissingEmbeddings embedConfigs (fun i => toString i) twoPostsReader) :=
  requeueMissingEmbeddings_spec embedConfigs _ (by decide) (by decide)

end RagPipeline
