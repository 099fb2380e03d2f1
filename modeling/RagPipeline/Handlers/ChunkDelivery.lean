import RagPipeline.Handlers.Chunk
import RagPipeline.Lib.Runs

namespace RagPipeline
open Coro

structure ChunkDb where
  posts : String → ℤ → Option Post
  tables : ChunkTables
  events : List Event

def chunkWorld : World ChunkOp ChunkOp.Ans PyExc ChunkDb
  | .fetch postId t, s => (.ok (s.posts (relation t) postId), s)
  | .ensureTable t _, s => (.ok (), { s with tables := s.tables.ensure t })
  | .getTextHashes postId t, s =>
    match s.tables (relation t) with
    | some table => (.ok (ChunkRepository.textHashes table.rows postId), s)
    | none => (.error (.other ("relation does not exist: " ++ t)), s)
  | .bulkInsert chunks t, s =>
    match s.tables (relation t) with
    | some _ =>
      (.ok (), { s with tables := s.tables.modify t (·.bulkInsert chunks) })
    | none => (.error (.other ("relation does not exist: " ++ t)), s)
  | .publish e, s => (.ok (), { s with events := s.events ++ [e] })

/-- A delivery of a chunk task, with the ids it draws. It stops after some awaits, or returns. -/
structure ChunkDelivery where
  ids : ℕ → String
  eventId : String
  span : Option SpanIds
  stop : Option ℕ

section Deliveries

variable (C : Chunking) (task : ChunkTask)

namespace ChunkDelivery

def after (s : ChunkDb) (d : ChunkDelivery) : ChunkDb :=
  leaves chunkWorld d.stop (ChunkPostHandler.handle C d.ids d.eventId d.span task) s

def pending (s : ChunkDb) (d : ChunkDelivery) : List Chunk :=
  match s.posts (relation task.postTable) task.postId with
  | none => []
  | some post =>
    match truthy (ChunkPostHandler.resolveText task post) with
    | none => []
    | some text =>
      ChunkPostHandler.newChunks
        (ChunkRepository.textHashes (s.tables.rows task.chunkTableName) task.postId)
        (ChunkPostHandler.buildChunks C d.ids post task text)

def announcement (d : ChunkDelivery) (chunks : List Chunk) : List Event :=
  match chunks with
  | [] => []
  | c :: cs => [.chunksCreated (ChunkPostHandler.chunksCreated d.eventId d.span task (c :: cs))]

/-- There are chunks to store, and the delivery stops once they are stored and before they are
announced: after its fourth await. -/
def StopsUnannounced (s : ChunkDb) (d : ChunkDelivery) : Prop :=
  d.pending C task s ≠ [] ∧ d.stop = some 4

end ChunkDelivery

/-- Some `chunks.created` event lists the chunk. -/
def ChunkAnnounced (s : ChunkDb) (chunkId : String) : Prop :=
  ∃ e, Event.chunksCreated e ∈ s.events ∧ chunkId ∈ e.chunkIds

/-- The rows of the task's post in its chunk table are all announced. -/
def AllAnnounced (s : ChunkDb) : Prop :=
  ∀ r ∈ s.tables.rows task.chunkTableName, r.postId = task.postId → ChunkAnnounced s r.id

structure Wrote (s t : ChunkDb) (chunks : List Chunk) (events : List Event) : Prop where
  posts : t.posts = s.posts
  rows : ∀ u, t.tables.rows u =
    if relation u = relation task.chunkTableName then
      ChunkRepository.bulkInsert (s.tables.rows u) chunks
    else s.tables.rows u
  events : t.events = s.events ++ events

variable {C task} {s t : ChunkDb} {d : ChunkDelivery}

theorem wrote_nothing (s : ChunkDb) : Wrote task s s [] [] where
  posts := rfl
  rows u := by simp
  events := by simp

theorem Wrote.of_ensured {chunks : List Chunk} {events : List Event} (table : String)
    (h : Wrote task { s with tables := s.tables.ensure table } t chunks events) :
    Wrote task s t chunks events where
  posts := h.posts
  rows u := by simpa using h.rows u
  events := h.events

theorem wrote_store {stop : Option ℕ} {table : ChunkTable} (c : Chunk) (cs : List Chunk)
    (hT : s.tables (relation task.chunkTableName) = some table) :
    Wrote task s
      (leaves chunkWorld stop (ChunkPostHandler.store d.eventId d.span task (c :: cs)) s)
      (if Reaches stop 1 then c :: cs else [])
      (if Reaches stop 2 then d.announcement task (c :: cs) else []) := by
  by_cases h0 : stop = some 0
  · rw [leaves_of_zero _ h0, if_neg (not_reaches_of_zero h0 0), if_neg (not_reaches_of_zero h0 1)]
    exact wrote_nothing s
  have hrows : ∀ u, (s.tables.modify task.chunkTableName (·.bulkInsert (c :: cs))).rows u =
      if relation u = relation task.chunkTableName then
        ChunkRepository.bulkInsert (s.tables.rows u) (c :: cs)
      else s.tables.rows u := by
    intro u
    rw [ChunkTables.rows_modify hT]
    split_ifs with hu
    · rw [ChunkTables.rows, hu, hT]
      rfl
    · rfl
  rw [ChunkPostHandler.store, leaves_call_bind _ h0]
  simp only [chunkWorld, hT]
  simp only [← reaches_pred h0, reaches_zero, if_true]
  generalize stop.map Nat.pred = stop
  -- here the chunks are stored, and their event is not published
  by_cases h1 : stop = some 0
  · rw [leaves_of_zero _ h1, if_neg (not_reaches_of_zero h1 0)]
    exact ⟨rfl, hrows, (List.append_nil _).symm⟩
  · rw [leaves_call_bind _ h1]
    simp only [chunkWorld, leaves_ret, ← reaches_pred h1, reaches_zero, if_true]
    exact ⟨rfl, hrows, rfl⟩

theorem wrote_storeNew {stop : Option ℕ} (post : Post) (text : String) (dim : ℕ)
    {chunks : List Chunk}
    (hnew : ChunkPostHandler.newChunks
      (ChunkRepository.textHashes (s.tables.rows task.chunkTableName) task.postId)
      (ChunkPostHandler.buildChunks C d.ids post task text) = chunks) :
    Wrote task s
      (leaves chunkWorld stop
        (ChunkPostHandler.storeNew C d.ids d.eventId d.span task post text dim) s)
      (if Reaches stop 3 then chunks else [])
      (if Reaches stop 4 then d.announcement task chunks else []) := by
  by_cases h0 : stop = some 0
  · rw [leaves_of_zero _ h0, if_neg (not_reaches_of_zero h0 2), if_neg (not_reaches_of_zero h0 3)]
    exact wrote_nothing s
  obtain ⟨table, hT, hrows⟩ := s.tables.exists_ensure task.chunkTableName
  rw [ChunkPostHandler.storeNew, leaves_call_bind _ h0]
  simp only [chunkWorld, ← reaches_pred h0]
  generalize stop.map Nat.pred = stop
  apply Wrote.of_ensured task.chunkTableName
  by_cases h1 : stop = some 0
  · rw [leaves_of_zero _ h1, if_neg (not_reaches_of_zero h1 1), if_neg (not_reaches_of_zero h1 2)]
    exact wrote_nothing _
  rw [leaves_call_bind _ h1]
  simp only [chunkWorld, hT, hrows, hnew, ← reaches_pred h1]
  cases chunks with
  | nil => simpa [ChunkDelivery.announcement] using wrote_nothing _
  | cons c cs => exact wrote_store c cs hT

theorem exists_embedConfig (t : ChunkTaskType) : ∃ cfg, embedConfigs.get? t.key = some cfg := by
  cases t <;> exact ⟨_, rfl⟩

theorem isOk_run_handle (C : Chunking) (task : ChunkTask) (s : ChunkDb) (d : ChunkDelivery) :
    (run chunkWorld (ChunkPostHandler.handle C d.ids d.eventId d.span task) s).1.isOk = true := by
  simp only [ChunkPostHandler.handle, run_bind, run_call, chunkWorld]
  cases s.posts (relation task.postTable) task.postId with
  | none => rfl
  | some post =>
    simp only
    cases truthy (ChunkPostHandler.resolveText task post) with
    | none => rfl
    | some text =>
      obtain ⟨cfg, hcfg⟩ := exists_embedConfig task.taskType
      obtain ⟨table, hT, -⟩ := s.tables.exists_ensure task.chunkTableName
      simp only [hcfg, ChunkPostHandler.storeNew, run_bind, run_call, chunkWorld, hT]
      split
      · rfl
      · simp [ChunkPostHandler.store, run_bind, chunkWorld, hT]

/-- What a delivery stores and announces, by how far it gets. -/
theorem wrote_after (C : Chunking) (task : ChunkTask) (s : ChunkDb) (d : ChunkDelivery) :
    Wrote task s (d.after C task s) (if Reaches d.stop 4 then d.pending C task s else [])
      (if Reaches d.stop 5 then d.announcement task (d.pending C task s) else []) := by
  by_cases h0 : d.stop = some 0
  · rw [ChunkDelivery.after, leaves_of_zero _ h0, if_neg (not_reaches_of_zero h0 3),
      if_neg (not_reaches_of_zero h0 4)]
    exact wrote_nothing s
  -- each await that the delivery gets past shifts where it stops by one
  rw [ChunkDelivery.after, ChunkPostHandler.handle, leaves_call_bind _ h0, ChunkDelivery.pending]
  simp only [chunkWorld, ← reaches_pred h0]
  generalize d.stop.map Nat.pred = stop
  cases s.posts (relation task.postTable) task.postId with
  | none => simpa [ChunkDelivery.announcement] using wrote_nothing s
  | some post =>
    simp only
    cases truthy (ChunkPostHandler.resolveText task post) with
    | none => simpa [ChunkDelivery.announcement] using wrote_nothing s
    | some text =>
      obtain ⟨cfg, hcfg⟩ := exists_embedConfig task.taskType
      simp only [hcfg]
      exact wrote_storeNew post text cfg.dim rfl

theorem of_mem_newChunks {ids : ℕ → String} {post : Post} {text : String}
    {existing : OrderedDict String String} {c : Chunk}
    (h : c ∈ ChunkPostHandler.newChunks existing
      (ChunkPostHandler.buildChunks C ids post task text)) :
    c.postId = task.postId ∧ ∃ i, c.id = ids i := by
  obtain ⟨i, hi, rfl⟩ := List.mem_mapIdx.mp (List.mem_filter.mp h).1
  exact ⟨rfl, i, rfl⟩

theorem of_mem_pending {c : Chunk} (h : c ∈ d.pending C task s) :
    c.postId = task.postId ∧ ∃ i, c.id = d.ids i := by
  unfold ChunkDelivery.pending at h
  split at h
  · cases h
  split at h
  · cases h
  · exact of_mem_newChunks h

theorem mem_announcement {chunks : List Chunk} {e : ChunksCreatedEvent} :
    Event.chunksCreated e ∈ d.announcement task chunks ↔
      chunks ≠ [] ∧ e = ChunkPostHandler.chunksCreated d.eventId d.span task chunks := by
  cases chunks <;> simp [ChunkDelivery.announcement]

theorem row_after {r : StoredChunk}
    (h : r ∈ (d.after C task s).tables.rows task.chunkTableName) :
    r ∈ s.tables.rows task.chunkTableName ∨
      Reaches d.stop 4 ∧ ∃ c ∈ d.pending C task s, r = ⟨c, none⟩ := by
  rw [(wrote_after C task s d).rows, if_pos rfl] at h
  split_ifs at h with h4
  · exact (ChunkRepository.mem_bulkInsert h).imp_right fun hc => ⟨h4, hc⟩
  · exact .inl h

theorem subset_rows_after :
    s.tables.rows task.chunkTableName ⊆ (d.after C task s).tables.rows task.chunkTableName := by
  rw [(wrote_after C task s d).rows, if_pos rfl]
  exact ChunkRepository.subset_bulkInsert _ _

/-- A delivery announces what it stores, if it gets that far, and nothing else. -/
theorem announced_after_iff {chunkId : String} :
    ChunkAnnounced (d.after C task s) chunkId ↔
      ChunkAnnounced s chunkId ∨ Reaches d.stop 5 ∧ ∃ c ∈ d.pending C task s, c.id = chunkId := by
  have hevents := (wrote_after C task s d).events
  constructor
  · rintro ⟨e, he, hid⟩
    rw [hevents, List.mem_append] at he
    obtain he | he := he
    · exact .inl ⟨e, he, hid⟩
    · split_ifs at he with h5
      · obtain ⟨-, rfl⟩ := mem_announcement.mp he
        exact .inr ⟨h5, List.mem_map.mp hid⟩
      · cases he
  · rintro (⟨e, he, hid⟩ | ⟨h5, c, hc, hid⟩)
    · exact ⟨e, by rw [hevents]; exact List.mem_append_left _ he, hid⟩
    · refine ⟨ChunkPostHandler.chunksCreated d.eventId d.span task (d.pending C task s), ?_,
        List.mem_map.mpr ⟨c, hc, hid⟩⟩
      rw [hevents, if_pos h5]
      exact List.mem_append_right _ (mem_announcement.mpr ⟨List.ne_nil_of_mem hc, rfl⟩)

variable (task) in
/-- The delivery draws no id that a row of the table has or an event lists. -/
def DrawsFresh (s : ChunkDb) (d : ChunkDelivery) : Prop :=
  ∀ i, (∀ r ∈ s.tables.rows task.chunkTableName, r.id ≠ d.ids i) ∧ ¬ ChunkAnnounced s (d.ids i)

variable (task) in
/-- `uuid4` draws new ids only. -/
structure FreshIds (s : ChunkDb) (ds : List ChunkDelivery) : Prop where
  fresh : ∀ d ∈ ds, DrawsFresh task s d
  distinct : ds.Pairwise fun d e => ∀ i j, d.ids i ≠ e.ids j

theorem FreshIds.after {ds : List ChunkDelivery} (h : FreshIds task s (d :: ds)) :
    FreshIds task (d.after C task s) ds := by
  obtain ⟨hd, hdistinct⟩ := List.pairwise_cons.mp h.distinct
  refine ⟨fun e he i => ?_, hdistinct⟩
  obtain ⟨hrows, hannounced⟩ := h.fresh e (List.mem_cons_of_mem d he) i
  constructor
  · intro r hr
    obtain hr | ⟨-, c, hc, rfl⟩ := row_after hr
    · exact hrows r hr
    · obtain ⟨-, j, hj⟩ := of_mem_pending hc
      rw [hj]
      exact hd e he j i
  · intro ha
    obtain ha | ⟨-, c, hc, hid⟩ := announced_after_iff.mp ha
    · exact hannounced ha
    · obtain ⟨-, j, hj⟩ := of_mem_pending hc
      exact hd e he j i (hj.symm.trans hid)

/-- One delivery leaves every row announced when it found them so and does not stop between
storing and announcing. -/
theorem allAnnounced_after_iff (h : DrawsFresh task s d) :
    AllAnnounced task (d.after C task s) ↔
      AllAnnounced task s ∧ ¬ d.StopsUnannounced C task s := by
  constructor
  · intro hall
    refine ⟨fun r hr hpost => ?_, ?_⟩
    · obtain ha | ⟨-, c, hc, hid⟩ := announced_after_iff.mp (hall r (subset_rows_after hr) hpost)
      · exact ha
      · -- the row is older than the ids of the delivery
        obtain ⟨-, i, hi⟩ := of_mem_pending hc
        exact absurd (hid.symm.trans hi) ((h i).1 r hr)
    · rintro ⟨hne, hstop⟩
      obtain ⟨c, cs, hp⟩ := List.exists_cons_of_ne_nil hne
      have hc : c ∈ d.pending C task s := hp ▸ List.mem_cons_self
      obtain ⟨hpost, i, hi⟩ := of_mem_pending hc
      have hr : (⟨c, none⟩ : StoredChunk) ∈
          (d.after C task s).tables.rows task.chunkTableName := by
        rw [(wrote_after C task s d).rows, if_pos rfl, if_pos (by simp [Reaches, hstop]), hp]
        exact ChunkRepository.mem_bulkInsert_cons (fun r hr => hi ▸ (h i).1 r hr) cs
      obtain ha | ⟨h5, -⟩ := announced_after_iff.mp (hall _ hr hpost)
      · rw [hi] at ha
        exact (h i).2 ha
      · have : 5 ≤ 4 := h5 4 hstop
        omega
  · rintro ⟨hall, hstops⟩ r hr hpost
    rw [announced_after_iff]
    obtain hr | ⟨h4, c, hc, rfl⟩ := row_after hr
    · exact .inl (hall r hr hpost)
    · refine .inr ⟨fun k hk => ?_, c, hc, rfl⟩
      have hk4 : 4 ≤ k := h4 k hk
      have hne : k ≠ 4 := fun he => hstops ⟨List.ne_nil_of_mem hc, he ▸ hk⟩
      omega

/-- After any deliveries of the task, every row of its post is announced exactly when it was so
before them and none of them stopped between storing chunks and announcing them. -/
theorem stored_announced_iff (C : Chunking) (task : ChunkTask) (s : ChunkDb)
    (ds : List ChunkDelivery) (hids : FreshIds task s ds) :
    AllAnnounced task (ds.foldl (ChunkDelivery.after C task) s) ↔
      AllAnnounced task s ∧ ∀ pre d, pre ++ [d] <+: ds →
        ¬ d.StopsUnannounced C task (pre.foldl (ChunkDelivery.after C task) s) := by
  let Settles (s : ChunkDb) (d : ChunkDelivery) (_ : ChunkDb) : Prop :=
    ¬ d.StopsUnannounced C task s
  suffices hruns : AllAnnounced task (ds.foldl (ChunkDelivery.after C task) s) ↔
      AllAnnounced task s ∧
        Runs.Each Settles s (Runs.trace (ChunkDelivery.after C task) s ds) by
    rwa [Runs.each_trace_prefix] at hruns
  induction ds generalizing s with
  | nil => simp [Runs.trace, Runs.Each]
  | cons d ds ih =>
    have hrest : FreshIds task (d.after C task s) ds := hids.after
    rw [List.foldl_cons, ih _ hrest, allAnnounced_after_iff (hids.fresh d List.mem_cons_self),
      and_assoc]
    rfl

end Deliveries

def shortChunking : Chunking where
  chunkText _ text := [text]
  estimateTokens _ := 1
  sha256 _ := "982d9e3eb996f559e633f4d194def3761d909f5a3b647d1a851fead67c32c9d1"

def titleTask : ChunkTask where
  taskId := "task"
  traceId := none
  parentSpanId := none
  sourceEventId := none
  taskType := .title
  postId := 50
  postTable := "posts_main"
  embedModel := bgeSmallEmbedCfg.primary
  analysisText := none

def titledPost : Post where
  postId := 50
  externalId := "t3_50"
  title := "text"
  bodyText := none
  customTitle := none
  customBody := none
  summary := none
  analysisText := none
  addedAt := ⟨0, true⟩
  updatedAt := ⟨1, true⟩

def unchunkedDb : ChunkDb where
  posts _ postId := if postId = 50 then some titledPost else none
  tables _ := none
  events := []

/-- A delivery whose ids start with that character. -/
def deliveryOf (c : Char) (stop : Option ℕ) : ChunkDelivery where
  ids i := String.ofList (c :: List.replicate i '0')
  eventId := String.ofList [c]
  span := none
  stop := stop

theorem ids_deliveryOf_ne {c c' : Char} (h : c ≠ c') (stop stop' : Option ℕ) (i j : ℕ) :
    (deliveryOf c stop).ids i ≠ (deliveryOf c' stop').ids j := by
  intro he
  have hchars : c :: List.replicate i '0' = c' :: List.replicate j '0' :=
    String.ofList_injective he
  exact h (List.cons.inj hchars).1

def killedAfterInsert : List ChunkDelivery := [deliveryOf 'a' (some 4), deliveryOf 'b' none]

theorem freshIds_killedAfterInsert : FreshIds titleTask unchunkedDb killedAfterInsert where
  fresh d _ i := by simp [unchunkedDb, ChunkTables.rows, ChunkAnnounced]
  distinct := List.pairwise_pair.mpr (ids_deliveryOf_ne (by decide) _ _)

theorem stored_announced_iff_killed_after_insert :
    AllAnnounced titleTask
        (killedAfterInsert.foldl (ChunkDelivery.after shortChunking titleTask) unchunkedDb) ↔
      AllAnnounced titleTask unchunkedDb ∧ ∀ pre d, pre ++ [d] <+: killedAfterInsert →
        ¬ d.StopsUnannounced shortChunking titleTask
          (pre.foldl (ChunkDelivery.after shortChunking titleTask) unchunkedDb) :=
  stored_announced_iff shortChunking titleTask unchunkedDb killedAfterInsert
    freshIds_killedAfterInsert

/-- The second delivery finds the chunk stored, and announces nothing. -/
theorem killed_after_insert_not_announced :
    ¬ AllAnnounced titleTask
      (killedAfterInsert.foldl (ChunkDelivery.after shortChunking titleTask) unchunkedDb) := by
  intro h
  have hrows : ((killedAfterInsert.foldl (ChunkDelivery.after shortChunking titleTask)
      unchunkedDb).tables.rows titleTask.chunkTableName).map (fun r => (r.id, r.postId)) =
        [("a", 50)] := by
    decide +kernel
  have hevents : (killedAfterInsert.foldl (ChunkDelivery.after shortChunking titleTask)
      unchunkedDb).events = [] := by
    decide +kernel
  obtain ⟨r, hr, hid⟩ := List.exists_of_mem_map (hrows ▸ List.mem_singleton_self ("a", (50 : ℤ)))
  obtain ⟨e, he, -⟩ := h r hr (Prod.mk.inj hid).2
  rw [hevents] at he
  cases he

end RagPipeline
