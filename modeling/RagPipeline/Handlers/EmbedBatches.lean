import RagPipeline.Handlers.EmbedChunks
import RagPipeline.Lib.Runs
import RagPipeline.Remote.Embeddings
import RagPipeline.Repository.Embeddings
import Mathlib.Data.List.Perm.Basic

namespace RagPipeline
open Coro

structure EmbedDb where
  tables : ChunkTables
  events : List Event

structure RowOrder where
  order : ℕ → List (String × String) → List (String × String)
  perm : ∀ caller l, (order caller l).Perm l

inductive EncodeLeg (E : String → Vec) where
  | localModel (encode : LoadedModel) (pointwise : ∀ texts, encode texts = texts.map E)
  | remote (client : RemoteEmbeddingModel) (mgr : ModelManager) (model : LoadedModel)
      (authorized : checkAuth mgr.settings client.authorization = .ok ())
      (known : mgr.kind client.name = some .embed) (loads : mgr.load client.name = .ok model)
      (pointwise : ∀ texts, model texts = texts.map E)

def EncodeLeg.encode {E : String → Vec} : EncodeLeg E → List String → Except PyExc (List Vec)
  | localModel encode _, texts => .ok (encode texts)
  | remote client mgr .., texts => client.encode mgr texts

/-- One `embed_chunks` call, and what serves it. -/
structure EmbedBatch (E : String → Vec) where
  tasks : List (Obj EmbedTask)
  modelName : String
  span : Option SpanIds
  order : RowOrder
  leg : EncodeLeg E
  /-- Every publisher of chunk tasks names the post. -/
  post : ∀ t ∈ tasks, t.val.postId.isSome ∧ t.val.postTable.isSome

variable {E : String → Vec}

/-- No dependency fails; a table may be missing. -/
def embedWorld (b : EmbedBatch E) : World EmbedOp EmbedOp.Ans PyExc EmbedDb
  | .fetchTexts caller ids t, s =>
    match s.tables (relation t) with
    | some table => (.ok (b.order.order caller (ChunkRepository.fetchTexts table ids)), s)
    | none => (.error (.chunkTableNotFound (asciiLower t)), s)
  | .encode texts, s => (b.leg.encode texts, s)
  | .saveBatch rows, s => (.ok (), { s with tables := ChunkRepository.saveBatch s.tables rows })
  | .publish e, s => (.ok (), { s with events := s.events ++ [e] })

def EmbedBatch.after (s : EmbedDb) (b : EmbedBatch E) : EmbedDb :=
  (run (embedWorld b) (embedChunks b.span b.tasks b.modelName) s).2

def EmbedTask.names (t : EmbedTask) (u id : String) : Bool :=
  (fetchTable t).any fun table => u = relation table && id ∈ t.chunkIds

def namedBy (tasks : List (Obj EmbedTask)) (u id : String) : Bool :=
  tasks.any fun t => t.val.names u id

theorem EmbedTask.names_iff {t : EmbedTask} {u id : String} :
    t.names u id = true ↔
      ∃ table, fetchTable t = some table ∧ u = relation table ∧ id ∈ t.chunkIds := by
  unfold EmbedTask.names
  cases fetchTable t <;> simp

def EmbedTask.requested (t : EmbedTask) (T : ChunkTables) : List StoredChunk :=
  match fetchTable t with
  | some table => (T.rows table).filter fun r => r.id ∈ t.chunkIds
  | none => []

/-- The (task, chunk) pairs that a batch fetches, by the post and the table of the task. -/
def EmbedBatch.pairs (b : EmbedBatch E) (s : EmbedDb) : List (GroupKey × String) :=
  b.tasks.flatMap fun t => (t.val.requested s.tables).map fun r => (taskKey t.val, r.id)

def EmbeddingCompletedEvent.key (e : EmbeddingCompletedEvent) : GroupKey :=
  (some e.postId, some e.chunkTable)

/-- The call publishes one event for each post and table, and these list every fetched pair
once. -/
def EmbedBatch.AnnouncesOnce (b : EmbedBatch E) (s : EmbedDb) : Prop :=
  ∃ events : List EmbeddingCompletedEvent,
    (b.after s).events = s.events ++ events.map .embeddingCompleted ∧
      (events.map EmbeddingCompletedEvent.key).Nodup ∧ (∀ e ∈ events, e.chunkIds ≠ []) ∧
      (events.flatMap fun e => e.chunkIds.map fun c => (e.key, c)).Perm (b.pairs s)

section Fetching

variable {b : EmbedBatch E} {s : EmbedDb} {t : Obj EmbedTask}

theorem fetch_reads (c : ℕ) (ids : List String) (table : String) :
    (embedWorld b (.fetchTexts c ids table) s).2 = s := by
  simp only [embedWorld]
  split <;> rfl

theorem truthy_of_fetchTable {t : EmbedTask} {table : String} (h : fetchTable t = some table) :
    truthy t.chunkTable = some table := by
  unfold fetchTable at h
  split_ifs at h
  exact h

/-- A fetch returns the rows that the task asks for, in some order. -/
theorem fetched_perm :
    ((fetched (answers (embedWorld b) s) t).map fun x => (x.chunkId, x.text)).Perm
      ((t.val.requested s.tables).map fun r => (r.id, r.text)) := by
  unfold fetched fetchAnswer EmbedTask.requested
  cases ht : fetchTable t.val with
  | none => simp
  | some table =>
    simp only [Option.map_some, answers, embedWorld]
    cases hT : s.tables (relation table) with
    | none => simp [ChunkTables.rows, hT]
    | some tab =>
      have hperm := b.order.perm t.id (ChunkRepository.fetchTexts tab t.val.chunkIds)
      simpa [ChunkTables.rows, hT, ChunkRepository.fetchTexts, Function.comp_def] using hperm

theorem of_mem_fetched {x : Triple} (h : x ∈ fetched (answers (embedWorld b) s) t) :
    x.task = t ∧ ∃ table tab, fetchTable t.val = some table ∧
      s.tables (relation table) = some tab ∧
      ∃ r ∈ tab.rows, r.id ∈ t.val.chunkIds ∧ r.id = x.chunkId ∧ r.text = x.text := by
  refine ⟨task_of_mem_fetched _ h, ?_⟩
  have hx : (x.chunkId, x.text) ∈ (t.val.requested s.tables).map fun r => (r.id, r.text) :=
    fetched_perm.mem_iff.mp (List.mem_map_of_mem h)
  obtain ⟨r, hr, hrx⟩ := List.mem_map.mp hx
  obtain ⟨hid, htext⟩ := Prod.mk.inj hrx
  unfold EmbedTask.requested at hr
  split at hr
  next table htable =>
    cases hT : s.tables (relation table) with
    | none => simp [ChunkTables.rows, hT] at hr
    | some tab =>
      rw [ChunkTables.rows_of_eq hT] at hr
      obtain ⟨hr, hmem⟩ := List.mem_filter.mp hr
      exact ⟨table, tab, htable, hT, r, hr, of_decide_eq_true hmem, hid, htext⟩
  · cases hr

theorem mem_allFetched_tasks {x : Triple} (h : x ∈ allFetched (answers (embedWorld b) s) b.tasks) :
    ∃ t ∈ b.tasks, x ∈ fetched (answers (embedWorld b) s) t :=
  List.mem_flatMap.mp h

end Fetching

section Saving

variable {b : EmbedBatch E} {s : EmbedDb}

theorem encode_eq (leg : EncodeLeg E) {texts : List String} (h : texts ≠ []) :
    leg.encode texts = .ok (texts.map E) := by
  cases leg with
  | localModel encode pointwise => exact congrArg Except.ok (pointwise texts)
  | remote client mgr model authorized known loads pointwise =>
    exact encode_of_pointwise authorized known loads pointwise h

def embeddedRow (E : String → Vec) (modelName : String) (x : Triple) : ChunkEmbeddingRow :=
  ⟨x.chunkId, modelName, E x.text, (truthy x.task.val.chunkTable).getD ""⟩

theorem zipWith_chunkRow (modelName : String) (triples : List Triple) :
    List.zipWith (chunkRow modelName) triples ((triples.map Triple.text).map E) =
      triples.map fun x => .chunk (embeddedRow E modelName x) := by
  rw [List.map_map, List.zipWith_map_right, List.zipWith_self]
  rfl

theorem embeddingRows_encoded (modelName : String) {triples : List Triple}
    (h : ∀ x ∈ triples, (truthy x.task.val.chunkTable).isSome = true) :
    embeddingRows modelName ((triples.map Triple.text).map E) 0 triples =
      .ok (triples.map fun x => .chunk (embeddedRow E modelName x)) := by
  rw [embeddingRows_eq h (Nat.zero_le _), if_pos (by simp), List.drop_zero, zipWith_chunkRow]

theorem chunkRows_embedded (modelName : String) {triples : List Triple}
    (h : ∀ x ∈ triples, (truthy x.task.val.chunkTable).isSome = true) :
    ChunkRepository.chunkRows (triples.map fun x => .chunk (embeddedRow E modelName x)) =
      triples.map (embeddedRow E modelName) := by
  rw [ChunkRepository.chunkRows, List.filterMap_map, ← List.filterMap_eq_map]
  refine List.filterMap_congr fun x hx => ?_
  obtain ⟨table, ht⟩ := Option.isSome_iff_exists.mp (h x hx)
  have hne : table ≠ "" := by simpa using (Option.filter_eq_some_iff.mp ht).2
  simp [embeddedRow, ht, hne]

theorem isSome_of_mem_allFetched {x : Triple}
    (h : x ∈ allFetched (answers (embedWorld b) s) b.tasks) :
    (truthy x.task.val.chunkTable).isSome = true := by
  obtain ⟨t, -, hx⟩ := mem_allFetched_tasks h
  obtain ⟨rfl, table, -, htable, -⟩ := of_mem_fetched hx
  rw [truthy_of_fetchTable htable]
  rfl

theorem agrees_embeddedRow {x : Triple} (modelName : String)
    (h : x ∈ allFetched (answers (embedWorld b) s) b.tasks) :
    VectorAgrees E s.tables (embeddedRow E modelName x).chunkTable (embeddedRow E modelName x) := by
  obtain ⟨t, -, hx⟩ := mem_allFetched_tasks h
  obtain ⟨rfl, table, tab, htable, hT, r, hr, -, hid, htext⟩ := of_mem_fetched hx
  intro tab' hT' y hy hyid
  simp only [embeddedRow, truthy_of_fetchTable htable, Option.getD_some] at hT' hyid ⊢
  -- ids are unique in a table, so the row that is updated is the one that was fetched
  obtain rfl := Option.some.inj (hT.symm.trans hT')
  rw [ChunkTable.eq_of_id_eq hy hr (hyid.trans hid.symm), htext]

theorem any_embeddedRow_iff (modelName : String) {u : String} {tab : ChunkTable}
    (hT : s.tables u = some tab) {r : StoredChunk} (hr : r ∈ tab.rows) :
    ((allFetched (answers (embedWorld b) s) b.tasks).map (embeddedRow E modelName)).any
        (fun x => u = relation x.chunkTable && r.id = x.chunkId) = namedBy b.tasks u r.id := by
  rw [Bool.eq_iff_iff, List.any_map, List.any_eq_true, namedBy, List.any_eq_true]
  constructor
  · rintro ⟨x, hx, hux⟩
    obtain ⟨t, ht, hxt⟩ := mem_allFetched_tasks hx
    obtain ⟨rfl, table, tab', htable, -, r', -, hmem, hid, -⟩ := of_mem_fetched hxt
    refine ⟨x.task, ht, ?_⟩
    simp only [Function.comp_apply, embeddedRow, truthy_of_fetchTable htable, Option.getD_some,
      Bool.and_eq_true, decide_eq_true_eq] at hux
    exact EmbedTask.names_iff.mpr ⟨table, htable, hux.1, by rw [hux.2, ← hid]; exact hmem⟩
  · rintro ⟨t, ht, hnames⟩
    obtain ⟨table, htable, rfl, hmem⟩ := EmbedTask.names_iff.mp hnames
    have hreq : r ∈ t.val.requested s.tables := by
      rw [EmbedTask.requested, htable]
      exact List.mem_filter.mpr ⟨ChunkTables.rows_of_eq hT ▸ hr, decide_eq_true hmem⟩
    have hx : (r.id, r.text) ∈
        (fetched (answers (embedWorld b) s) t).map fun x => (x.chunkId, x.text) :=
      fetched_perm.mem_iff.mpr (List.mem_map_of_mem hreq)
    obtain ⟨x, hx, hxr⟩ := List.mem_map.mp hx
    obtain ⟨rfl, -⟩ := of_mem_fetched hx
    refine ⟨x, (mem_allFetched _).mpr ⟨ht, hx⟩, ?_⟩
    simp [embeddedRow, truthy_of_fetchTable htable, (Prod.mk.inj hxr).1]

theorem saveBatch_embedded (modelName : String) :
    ChunkRepository.saveBatch s.tables
        ((allFetched (answers (embedWorld b) s) b.tasks).map fun x =>
          .chunk (embeddedRow E modelName x)) =
      s.tables.embedRows E (namedBy b.tasks) := by
  have hrows := chunkRows_embedded (E := E) modelName
    fun x (hx : x ∈ allFetched (answers (embedWorld b) s) b.tasks) => isSome_of_mem_allFetched hx
  rw [saveBatch_eq (E := E), hrows]
  · exact embedRows_congr fun u tab hT r hr => any_embeddedRow_iff modelName hT hr
  · rw [hrows]
    intro r hr
    obtain ⟨x, hx, rfl⟩ := List.mem_map.mp hr
    exact agrees_embeddedRow modelName hx

end Saving

section Announcing

variable {b : EmbedBatch E} {s : EmbedDb} {modelName : String}
  {trace : Option String × Option String}

theorem groupEvent_eq {g : GroupKey × EventGroup} {e : EmbeddingCompletedEvent}
    (h : groupEvent modelName trace g = .ok e) :
    g.1.1 = some e.postId ∧ g.2.chunkTable = some e.chunkTable ∧ g.2.chunkIds = e.chunkIds := by
  obtain ⟨⟨p, k⟩, ⟨t, c, ids⟩⟩ := g
  cases p <;> cases t <;> cases c <;> cases h
  exact ⟨rfl, rfl, rfl⟩

theorem run_publishGroups {gs : List (GroupKey × EventGroup)}
    (h : ∀ g ∈ gs, ∃ e, groupEvent modelName trace g = .ok e) (s : EmbedDb) :
    ∃ events, List.Forall₂ (fun g e => groupEvent modelName trace g = .ok e) gs events ∧
      run (embedWorld b) (publishGroups modelName trace gs) s =
        (.ok (), { s with events := s.events ++ events.map .embeddingCompleted }) := by
  -- the log grows from event to event
  induction gs generalizing s with
  | nil => exact ⟨[], .nil, by simp [publishGroups]⟩
  | cons g gs ih =>
    obtain ⟨e, he⟩ := h g List.mem_cons_self
    obtain ⟨events, hevents, hrun⟩ := ih (fun g' hg' => h g' (List.mem_cons_of_mem g hg'))
      { s with events := s.events ++ [.embeddingCompleted e] }
    refine ⟨e :: events, .cons he hevents, ?_⟩
    simp [publishGroups, run_bind, he, embedWorld, hrun]

theorem of_mem_eventGroups {triples : List Triple} {g : GroupKey × EventGroup}
    (h : g ∈ (eventGroups triples).entries) :
    g.2.chunkTable = g.1.2 ∧ g.2.chunkIds ≠ [] ∧
      ∃ x ∈ triples, groupKey x = g.1 ∧ g.2.postTable = x.task.val.postTable := by
  have hget := OrderedDict.get?_eq_some.mpr h
  rw [get?_eventGroups] at hget
  cases hx : triples.filter (groupKey · = g.1) with
  | nil =>
    rw [hx] at hget
    cases hget
  | cons x xs =>
    have hmem : x ∈ triples.filter (groupKey · = g.1) := hx ▸ List.mem_cons_self
    obtain ⟨hm, hk⟩ := List.mem_filter.mp hmem
    have hkey : groupKey x = g.1 := of_decide_eq_true hk
    rw [hx] at hget
    have hg := (Option.some.inj hget).symm
    rw [hg]
    exact ⟨congrArg Prod.snd hkey, by simp, x, hm, hkey, rfl⟩

theorem map_key_chunkIds {gs : List (GroupKey × EventGroup)}
    {events : List EmbeddingCompletedEvent}
    (h : List.Forall₂ (fun g e => groupEvent modelName trace g = .ok e) gs events)
    (hg : ∀ g ∈ gs, g.2.chunkTable = g.1.2) :
    events.map (fun e => (e.key, e.chunkIds)) = gs.map fun g => (g.1, g.2.chunkIds) := by
  induction h with
  | nil => rfl
  | @cons g e gs events he _ ih =>
    obtain ⟨hid, htable, hids⟩ := groupEvent_eq he
    have hkey : e.key = g.1 :=
      Prod.ext hid.symm (htable.symm.trans (hg g List.mem_cons_self))
    rw [List.map_cons, List.map_cons, ih fun g' hg' => hg g' (List.mem_cons_of_mem g hg'), hkey,
      hids]

theorem eventGroups_perm (triples : List Triple) :
    ((eventGroups triples).entries.flatMap fun g => g.2.chunkIds.map fun c => (g.1, c)).Perm
      (triples.map fun x => (groupKey x, x.chunkId)) := by
  have hupd : ∀ (x : Triple) (o : Option EventGroup),
      ((addToGroup x o).chunkIds.map fun c => (groupKey x, c)).Perm
        ((o.map fun g => g.chunkIds.map fun c => (groupKey x, c)).getD [] ++
          [(groupKey x, x.chunkId)]) := by
    intro x o
    cases o <;> simp [addToGroup]
  have h := OrderedDict.flatMap_foldItems_perm groupKey addToGroup
    (fun k g => g.chunkIds.map fun c => (k, c)) (fun x => [(groupKey x, x.chunkId)]) hupd
    OrderedDict.empty triples
  simpa [eventGroups, OrderedDict.empty, ← List.map_eq_flatMap] using h

theorem allFetched_perm :
    ((allFetched (answers (embedWorld b) s) b.tasks).map fun x => (groupKey x, x.chunkId)).Perm
      (b.pairs s) := by
  rw [allFetched, List.map_flatMap]
  refine List.Perm.flatMap_left _ fun t _ => ?_
  have hkey : (fetched (answers (embedWorld b) s) t).map (fun x => (groupKey x, x.chunkId)) =
      ((fetched (answers (embedWorld b) s) t).map fun x => (x.chunkId, x.text)).map
        fun p => (taskKey t.val, p.1) := by
    rw [List.map_map]
    refine List.map_congr_left fun x hx => ?_
    rw [groupKey, task_of_mem_fetched _ hx]
    rfl
  rw [hkey]
  have hperm := (fetched_perm (b := b) (s := s) (t := t)).map fun p => (taskKey t.val, p.1)
  simpa [List.map_map, Function.comp_def] using hperm

theorem exists_groupEvent {g : GroupKey × EventGroup}
    (h : g ∈ (eventGroups (allFetched (answers (embedWorld b) s) b.tasks)).entries) :
    ∃ e, groupEvent modelName trace g = .ok e := by
  obtain ⟨htable, -, x, hx, hkey, hpost⟩ := of_mem_eventGroups h
  obtain ⟨t, ht, hxt⟩ := mem_allFetched_tasks hx
  obtain ⟨rfl, table, -, hfetch, -⟩ := of_mem_fetched hxt
  obtain ⟨hid, hpt⟩ := b.post x.task ht
  have hchunk : x.task.val.chunkTable = some table :=
    (Option.filter_eq_some_iff.mp (truthy_of_fetchTable hfetch)).1
  rw [groupEvent_isOk, hpost, htable, ← hkey]
  exact ⟨hid, hpt, Option.isSome_iff_exists.mpr ⟨table, hchunk⟩⟩

end Announcing

section OneBatch

variable (b : EmbedBatch E) (s : EmbedDb)

/-- The store and the log after a batch. -/
theorem after_eq :
    ∃ events : List EmbeddingCompletedEvent, ∃ trace,
      List.Forall₂ (fun g e => groupEvent b.modelName trace g = .ok e)
        (eventGroups (allFetched (answers (embedWorld b) s) b.tasks)).entries events ∧
      b.after s = ⟨s.tables.embedRows E (namedBy b.tasks),
        s.events ++ events.map .embeddingCompleted⟩ := by
  have hsave := saveBatch_embedded (b := b) (s := s) b.modelName
  have hgroups : ∀ trace,
      ∀ g ∈ (eventGroups (allFetched (answers (embedWorld b) s) b.tasks)).entries,
      ∃ e, groupEvent b.modelName trace g = .ok e := fun _ _ => exists_groupEvent
  have htables : ∀ x ∈ allFetched (answers (embedWorld b) s) b.tasks,
      (truthy x.task.val.chunkTable).isSome = true := fun _ => isSome_of_mem_allFetched
  rw [EmbedBatch.after, run_embedChunks fetch_reads]
  generalize allFetched (answers (embedWorld b) s) b.tasks = triples at *
  -- a batch that fetches nothing returns before it encodes
  cases triples with
  | nil =>
    refine ⟨[], (none, none), .nil, ?_⟩
    rw [← hsave, List.map_nil, List.map_nil, List.append_nil]
    rfl
  | cons first rest =>
    let trace := propagateTrace b.span first.task.val.traceId
    obtain ⟨events, hevents, hpublish⟩ := run_publishGroups (b := b) (hgroups trace)
      ⟨s.tables.embedRows E (namedBy b.tasks), s.events⟩
    refine ⟨events, trace, hevents, ?_⟩
    have hencode : embedWorld b (.encode ((first :: rest).map Triple.text)) s =
        (.ok (((first :: rest).map Triple.text).map E), s) :=
      Prod.ext (encode_eq b.leg (by simp)) rfl
    have hstore : run (embedWorld b) (storeEmbeddings (first :: rest)
        (((first :: rest).map Triple.text).map E) b.modelName trace) s =
          (.ok (), ⟨s.tables.embedRows E (namedBy b.tasks),
            s.events ++ events.map .embeddingCompleted⟩) := by
      rw [storeEmbeddings, run_bind, run_ofExcept, embeddingRows_encoded _ htables]
      simp only [run_bind, run_call, embedWorld, hsave]
      exact hpublish
    simp only [hencode, trace, hstore]

/-- Afterwards the rows that the tasks of the batch name hold the vectors of their texts, and every
other row is as it was. -/
theorem tables_after : (b.after s).tables = s.tables.embedRows E (namedBy b.tasks) := by
  obtain ⟨events, trace, -, hafter⟩ := after_eq b s
  rw [hafter]

theorem announcesOnce : b.AnnouncesOnce s := by
  obtain ⟨events, trace, hevents, hafter⟩ := after_eq b s
  have hmap := map_key_chunkIds hevents fun g hg => (of_mem_eventGroups hg).1
  refine ⟨events, by rw [hafter], ?_, fun e he => ?_, ?_⟩
  · have hkeys := congrArg (List.map Prod.fst) hmap
    rw [List.map_map, List.map_map] at hkeys
    show (events.map (Prod.fst ∘ fun e => (e.key, e.chunkIds))).Nodup
    rw [hkeys]
    exact (eventGroups (allFetched (answers (embedWorld b) s) b.tasks)).nodup
  · have hmem : (e.key, e.chunkIds) ∈ events.map fun e => (e.key, e.chunkIds) :=
      List.mem_map_of_mem he
    rw [hmap] at hmem
    obtain ⟨g, hg, hge⟩ := List.mem_map.mp hmem
    rw [← (Prod.mk.inj hge).2]
    exact (of_mem_eventGroups hg).2.1
  · have hlist := congrArg (List.flatMap fun p => p.2.map fun c => (p.1, c)) hmap
    rw [List.flatMap_map, List.flatMap_map] at hlist
    rw [hlist]
    exact (eventGroups_perm _).trans allFetched_perm

end OneBatch

theorem namedBy_append (ts ts' : List (Obj EmbedTask)) (u id : String) :
    namedBy (ts ++ ts') u id = (namedBy ts u id || namedBy ts' u id) :=
  List.any_append

theorem tables_foldl_after (s : EmbedDb) (bs : List (EmbedBatch E)) :
    (bs.foldl EmbedBatch.after s).tables =
      s.tables.embedRows E (namedBy (bs.flatMap EmbedBatch.tasks)) := by
  induction bs generalizing s with
  | nil => exact embedRows_none.symm
  | cons b bs ih =>
    rw [List.foldl_cons, ih, tables_after, embedRows_embedRows, List.flatMap_cons]
    refine embedRows_congr fun u t _ r _ => ?_
    rw [namedBy_append]

/-- However the tasks are ordered, repeated and split into batches, and whatever serves each batch:
every row that some task names ends with the vector of its own text, every other row is unchanged,
and each call announces each fetched pair once. -/
theorem embedded_by_batches (E : String → Vec) (s : EmbedDb) (bs : List (EmbedBatch E)) :
    (bs.foldl EmbedBatch.after s).tables =
        s.tables.embedRows E (namedBy (bs.flatMap EmbedBatch.tasks)) ∧
      ∀ pre b, pre ++ [b] <+: bs → b.AnnouncesOnce (pre.foldl EmbedBatch.after s) :=
  ⟨tables_foldl_after s bs, fun pre b _ => announcesOnce b (pre.foldl EmbedBatch.after s)⟩

/-- A service that encodes a text as its length, two texts at a time. -/
def lengthService : ModelManager where
  settings := ⟨"", 2⟩
  kind _ := some .embed
  load _ := .ok (List.map fun text => [(text.length : ℚ)])

def lengthTask (id : ℕ) (postId : ℤ) (chunkIds : List String) : Obj EmbedTask where
  id
  val :=
    { taskId := "task", traceId := none, parentSpanId := none, sourceEventId := none
      taskType := .chunk, modelName := "model", postId := some postId
      postTable := some "posts_main", chunkIds, chunkTable := some "Chunks"
      query := none, queryJobId := none }

/-- Two tasks that share a chunk, served remotely, with the rows of each fetch in reverse. -/
def lengthBatch : EmbedBatch fun text => [(text.length : ℚ)] where
  tasks := [lengthTask 0 1 ["a", "b", "c"], lengthTask 1 2 ["c"]]
  modelName := "model"
  span := none
  order := ⟨fun _ l => l.reverse, fun _ l => l.reverse_perm⟩
  leg := .remote ⟨"remote", none⟩ lengthService _ rfl rfl rfl fun _ => rfl
  post := by decide

def lengthRow (id text : String) : StoredChunk :=
  { id, postId := 1, postUpdatedAt := ⟨1, true⟩, chunkIndex := 0, text, metadata := ⟨none, none⟩
    tokenCount := 1, textHash := text, embedding := none }

def lengthDb : EmbedDb where
  tables u :=
    if u = "chunks" then
      some ⟨[lengthRow "a" "x", lengthRow "b" "yy", lengthRow "c" "zzz", lengthRow "d" "w"],
        by decide⟩
    else none
  events := []

example : ((lengthBatch.after lengthDb).tables.rows "chunks").map (fun r => (r.id, r.embedding)) =
    [("a", some [1]), ("b", some [2]), ("c", some [3]), ("d", none)] := by decide +kernel

end RagPipeline
