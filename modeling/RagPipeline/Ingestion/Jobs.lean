import RagPipeline.Ingestion.Rows
import RagPipeline.Ingestion.System

namespace RagPipeline
open Coro ChunkTables

/-! What a worker on a chunk task does to the database, one await after another. -/

def WindowsStored (C : Chunking) (task : ChunkTask) (T : ChunkTables) (text : String) : Prop :=
  ∀ window ∈ C.chunkText task.taskType text, ∃ r, T.Has (relation task.chunkTableName) r ∧
    r.postId = task.postId ∧ r.textHash = C.sha256 window

theorem WindowsStored.mono {C : Chunking} {task : ChunkTask} {T U : ChunkTables} {text : String}
    (h : WindowsStored C task T text) (hkeeps : KeepsRows T U) : WindowsStored C task U text := by
  intro window hw
  obtain ⟨r, hr, hpost, hhash⟩ := h window hw
  obtain ⟨r', hr', heq⟩ := hkeeps.rows _ r hr
  refine ⟨r', hr', ?_, ?_⟩
  · rw [heq]
    exact hpost
  · rw [heq]
    exact hhash

/-- The program is about to announce the row with that id of the relation. -/
def Announces (p : ChunkCoro (List String)) (u id : String) : Prop :=
  ∃ e, unpublished p = some (.chunksCreated e) ∧ u = relation e.chunkTable ∧ id ∈ e.chunkIds

section Stages

variable (env : IngestionEnv) (P : Post → Prop) (tag : ℕ) (task : ChunkTask)

/-- `_build_chunks` with the draws of the delivery. -/
abbrev drawnChunks (post : Post) (text : String) : List Chunk :=
  ChunkPostHandler.buildChunks env.chunking (env.draws tag).ids post task text

/-- What the worker does with the hashes that it looked up. -/
def storeFound (post : Post) (text : String) (existing : OrderedDict String String) :
    ChunkCoro (List String) :=
  match ChunkPostHandler.newChunks existing (drawnChunks env tag task post text) with
  | [] => ret []
  | c :: cs => ChunkPostHandler.store (env.draws tag).eventId (env.draws tag).span task (c :: cs)

/-- A post that satisfies `P`, and its text for the task. -/
structure ReadPost (post : Post) (text : String) : Prop where
  holds : P post
  reads : truthy (ChunkPostHandler.resolveText task post) = some text

/-- Where a worker stands: its program, and once it has read the post, the text it found. -/
inductive Standing (T : ChunkTables) : Option (Option String) → ChunkCoro (List String) → Prop
  | fetching (hnew : T.Unused (env.draws tag).ids) :
      Standing T none (ChunkJob.start env tag task).program
  | ensuring (post : Post) (text : String) (dim : ℕ) (hread : ReadPost P task post text)
      (hnew : T.Unused (env.draws tag).ids) :
      Standing T (some (some text)) (ChunkPostHandler.storeNew env.chunking (env.draws tag).ids
        (env.draws tag).eventId (env.draws tag).span task post text dim)
  | looking (post : Post) (text : String) (hread : ReadPost P task post text)
      (hnew : T.Unused (env.draws tag).ids) (htable : T (relation task.chunkTableName) ≠ none) :
      Standing T (some (some text))
        (awaitChunk (.getTextHashes task.postId task.chunkTableName) >>=
          storeFound env tag task post text)
  | inserting (post : Post) (text : String) (c : Chunk) (cs : List Chunk)
      (hread : ReadPost P task post text) (hnew : T.Unused (env.draws tag).ids)
      (htable : T (relation task.chunkTableName) ≠ none)
      (hchunks : c :: cs ⊆ drawnChunks env tag task post text)
      (hnodup : ((c :: cs).map Chunk.id).Nodup)
      (hothers : ∀ window ∈ env.chunking.chunkText task.taskType text,
        env.chunking.sha256 window ∈ (c :: cs).map Chunk.textHash ∨
          ∃ r, T.Has (relation task.chunkTableName) r ∧ r.postId = task.postId ∧
            r.textHash = env.chunking.sha256 window) :
      Standing T (some (some text))
        (ChunkPostHandler.store (env.draws tag).eventId (env.draws tag).span task (c :: cs))
  | publishing (text : String) (chunks : List Chunk)
      (hstored : WindowsStored env.chunking task T text) :
      Standing T (some (some text))
        (awaitChunk (.publish (.chunksCreated (ChunkPostHandler.chunksCreated
          (env.draws tag).eventId (env.draws tag).span task chunks))) >>=
            fun _ => ret (chunks.map Chunk.id))
  | returned (seen : Option String) (ids : List String)
      (hstored : ∀ text, seen = some text → WindowsStored env.chunking task T text) :
      Standing T (some seen) (ret ids)

/-- The row is that of a window of a post that satisfies `P`. -/
def MadeFrom (u : String) (r : StoredChunk) : Prop :=
  u = relation task.chunkTableName ∧ ∃ post text, ReadPost P task post text ∧
    r.postId = task.postId ∧ r.text ∈ env.chunking.chunkText task.taskType text ∧
      r.textHash = env.chunking.sha256 r.text

/-- What one await of the worker does: rows are only added, and those it adds are announced next. -/
structure JobStep (s t : ChunkDb) (p p' : ChunkCoro (List String)) : Prop where
  posts : t.posts = s.posts
  keeps : KeepsRows s.tables t.tables
  rows : ∀ u r, t.tables.Has u r → s.tables.Has u r ∨
    (MadeFrom env P task u r ∧ r.embedding = none ∧ (∃ i, r.id = (env.draws tag).ids i) ∧
      Announces p' u r.id)
  events : t.events = s.events ++ (unpublished p).toList

end Stages

variable {env : IngestionEnv} {P Q : Post → Prop} {tag : ℕ} {task : ChunkTask} {T U : ChunkTables}
  {seen : Option (Option String)} {p : ChunkCoro (List String)} {s : ChunkDb}

theorem mem_drawnChunks {post : Post} {text : String} {c : Chunk}
    (h : c ∈ drawnChunks env tag task post text) :
    c.postId = task.postId ∧ c.text ∈ env.chunking.chunkText task.taskType text ∧
      c.textHash = env.chunking.sha256 c.text ∧ ∃ i, c.id = (env.draws tag).ids i := by
  obtain ⟨i, hi, rfl⟩ := List.mem_mapIdx.mp h
  exact ⟨rfl, List.getElem_mem hi, rfl, i, rfl⟩

theorem hash_of_window {post : Post} {text window : String} (existing : OrderedDict String String)
    (hw : window ∈ env.chunking.chunkText task.taskType text) :
    env.chunking.sha256 window ∈
        (ChunkPostHandler.newChunks existing (drawnChunks env tag task post text)).map
          Chunk.textHash ∨
      env.chunking.sha256 window ∈ existing.keys := by
  by_cases hfound : env.chunking.sha256 window ∈ existing.keys
  · exact .inr hfound
  · obtain ⟨i, hi, rfl⟩ := List.mem_iff_getElem.mp hw
    refine .inl (List.mem_map.mpr ⟨_, List.mem_filter.mpr ⟨List.mem_mapIdx.mpr ⟨i, hi, rfl⟩, ?_⟩,
      rfl⟩)
    exact decide_eq_true hfound

theorem Standing.mono (h : Standing env P tag task T seen p) (hPQ : ∀ post, P post → Q post) :
    Standing env Q tag task T seen p := by
  have hread : ∀ {post text}, ReadPost P task post text → ReadPost Q task post text :=
    fun h => ⟨hPQ _ h.holds, h.reads⟩
  cases h with
  | fetching hnew => exact .fetching hnew
  | ensuring post text dim h hnew => exact .ensuring post text dim (hread h) hnew
  | looking post text h hnew htable => exact .looking post text (hread h) hnew htable
  | inserting post text c cs h hnew htable hchunks hnodup hothers =>
    exact .inserting post text c cs (hread h) hnew htable hchunks hnodup hothers
  | publishing text chunks hstored => exact .publishing text chunks hstored
  | returned seen ids hstored => exact .returned seen ids hstored

/-- The steps of the others leave the worker where it stands, if they do not use its ids. -/
theorem Standing.stable (h : Standing env P tag task T seen p) (hkeeps : KeepsRows T U)
    (hunused : T.Unused (env.draws tag).ids → U.Unused (env.draws tag).ids) :
    Standing env P tag task U seen p := by
  cases h with
  | fetching hnew => exact .fetching (hunused hnew)
  | ensuring post text dim h hnew => exact .ensuring post text dim h (hunused hnew)
  | looking post text h hnew htable =>
    exact .looking post text h (hunused hnew) (hkeeps.tables _ htable)
  | inserting post text c cs h hnew htable hchunks hnodup hothers =>
    refine .inserting post text c cs h (hunused hnew) (hkeeps.tables _ htable) hchunks hnodup ?_
    intro window hw
    refine (hothers window hw).imp_right ?_
    rintro ⟨r, hr, hpost, hhash⟩
    obtain ⟨r', hr', heq⟩ := hkeeps.rows _ r hr
    exact ⟨r', hr', by rw [heq]; exact hpost, by rw [heq]; exact hhash⟩
  | publishing text chunks hstored => exact .publishing text chunks (hstored.mono hkeeps)
  | returned seen ids hstored =>
    exact .returned seen ids fun text htext => (hstored text htext).mono hkeeps

theorem Standing.stored {ids : List String} {text : String}
    (h : Standing env P tag task T seen (ret ids)) (hseen : seen = some (some text)) :
    WindowsStored env.chunking task T text := by
  generalize hp : (ret ids : ChunkCoro (List String)) = p at h
  cases h with
  | returned seen ids hstored => exact hstored text (Option.some.inj hseen)
  | _ => cases hp

/-- What a worker is about to publish is the announcement of its chunks. -/
theorem Standing.of_unpublished {e : Event} (h : Standing env P tag task T seen p)
    (he : unpublished p = some e) : ∃ chunks, e = .chunksCreated (ChunkPostHandler.chunksCreated
      (env.draws tag).eventId (env.draws tag).span task chunks) := by
  cases h with
  | publishing text chunks hstored => exact ⟨chunks, (Option.some.inj he).symm⟩
  | _ => cases he

/-- A worker that has looked up the hashes has read the text that it is to chunk. -/
theorem Standing.of_looksUp {text : String} (h : Standing env P tag task T seen p)
    (hlooks : LooksUp p) (hseen : seen = some (some text)) :
    ∃ post, ReadPost P task post text := by
  cases h with
  | looking post text hread hnew htable =>
    obtain rfl := Option.some.inj (Option.some.inj hseen)
    exact ⟨post, hread⟩
  | _ => exact hlooks.elim

section Step

variable {post : Post} {text : String}

theorem stored_of_found {table : ChunkTable} {hash : String}
    (hT : s.tables (relation task.chunkTableName) = some table)
    (h : hash ∈ (ChunkRepository.textHashes table.rows task.postId).keys) :
    ∃ r, s.tables.Has (relation task.chunkTableName) r ∧ r.postId = task.postId ∧
      r.textHash = hash := by
  obtain ⟨-, r, hr, hpost, hhash⟩ := ChunkRepository.mem_keys_textHashes.mp h
  exact ⟨r, ⟨table, hT, hr⟩, hpost, hhash⟩

/-- After the lookup there is nothing left to store, or the worker comes to its insert. -/
theorem standing_storeFound (hread : ReadPost P task post text)
    (hnew : s.tables.Unused (env.draws tag).ids) {table : ChunkTable}
    (hT : s.tables (relation task.chunkTableName) = some table) :
    Standing env P tag task s.tables (some (some text)) (storeFound env tag task post text
      (ChunkRepository.textHashes table.rows task.postId)) := by
  let found := ChunkRepository.textHashes table.rows task.postId
  have hhash : ∀ window ∈ env.chunking.chunkText task.taskType text,
      env.chunking.sha256 window ∈ (ChunkPostHandler.newChunks found
        (drawnChunks env tag task post text)).map Chunk.textHash ∨
          env.chunking.sha256 window ∈ found.keys := fun window hw => hash_of_window found hw
  have htable : s.tables (relation task.chunkTableName) ≠ none := by
    rw [hT]
    exact Option.some_ne_none table
  have hnodup : ((ChunkPostHandler.newChunks found (drawnChunks env tag task post text)).map
      Chunk.id).Nodup := ChunkPostHandler.nodup_ids_newChunks (env.injective tag)
  unfold storeFound
  cases hchunks : ChunkPostHandler.newChunks found (drawnChunks env tag task post text) with
  | nil =>
    refine .returned _ _ fun text' htext window hw => ?_
    obtain rfl := Option.some.inj htext
    have hfound := hhash window hw
    rw [hchunks, List.map_nil] at hfound
    exact stored_of_found hT (hfound.resolve_left List.not_mem_nil)
  | cons c cs =>
    rw [hchunks] at hnodup
    refine .inserting post text c cs hread hnew htable ?_ hnodup fun window hw => ?_
    · rw [← hchunks]
      exact List.filter_subset_self _
    · rw [← hchunks]
      exact (hhash window hw).imp_right (stored_of_found hT)

variable (env P tag task) in
theorem jobStep_reads {p' : ChunkCoro (List String)} (hp : unpublished p = none) :
    JobStep env P tag task s s p p' where
  posts := rfl
  keeps := .refl _
  rows u r hr := .inl hr
  events := by rw [hp]; exact (List.append_nil _).symm

theorem jobStep_insert {c : Chunk} {cs : List Chunk} (hread : ReadPost P task post text)
    (hnew : s.tables.Unused (env.draws tag).ids) {table : ChunkTable}
    (hT : s.tables (relation task.chunkTableName) = some table)
    (hchunks : c :: cs ⊆ drawnChunks env tag task post text)
    (hnodup : ((c :: cs).map Chunk.id).Nodup) :
    (∀ u r, (s.tables.modify task.chunkTableName (·.bulkInsert (c :: cs))).Has u r ↔
      s.tables.Has u r ∨ u = relation task.chunkTableName ∧ ∃ c' ∈ c :: cs, r = ⟨c', none⟩) ∧
    JobStep env P tag task s
      { s with tables := s.tables.modify task.chunkTableName (·.bulkInsert (c :: cs)) }
      (ChunkPostHandler.store (env.draws tag).eventId (env.draws tag).span task (c :: cs))
      (awaitChunk (.publish (.chunksCreated (ChunkPostHandler.chunksCreated
        (env.draws tag).eventId (env.draws tag).span task (c :: cs)))) >>=
          fun _ => ret ((c :: cs).map Chunk.id)) := by
  have hhas : ∀ u r, (s.tables.modify task.chunkTableName (·.bulkInsert (c :: cs))).Has u r ↔
      s.tables.Has u r ∨ u = relation task.chunkTableName ∧ ∃ c' ∈ c :: cs, r = ⟨c', none⟩ := by
    intro u r
    apply has_bulkInsert hT hnodup
    intro c' hc' u' r' hr'
    obtain ⟨-, -, -, i, hi⟩ := mem_drawnChunks (hchunks hc')
    rw [hi]
    exact hnew u' r' hr' i
  refine ⟨hhas, rfl, keeps_bulkInsert _ _ _, fun u r hr => ?_, (List.append_nil _).symm⟩
  apply ((hhas u r).mp hr).imp_right
  rintro ⟨hu, c', hc', rfl⟩
  obtain ⟨hpost, hwindow, hhash, hid⟩ := mem_drawnChunks (hchunks hc')
  exact ⟨⟨hu, post, text, hread, hpost, hwindow, hhash⟩, rfl, hid, _, rfl, hu,
    List.mem_map_of_mem hc'⟩

/-- An await takes a worker to its next stage. -/
theorem Standing.next (h : Standing env P tag task s.tables seen p)
    (hpost : ∀ post, s.posts (relation task.postTable) task.postId = some post → P post) :
    JobStep env P tag task s (Coro.next chunkWorld (p, s)).2 p (Coro.next chunkWorld (p, s)).1 ∧
      Standing env P tag task (Coro.next chunkWorld (p, s)).2.tables
        (some (seen.getD (task.textIn s))) (Coro.next chunkWorld (p, s)).1 := by
  cases h with
  | fetching hnew =>
    unfold ChunkJob.start ChunkPostHandler.handle
    rw [next_call_bind]
    simp only [chunkWorld]
    refine ⟨jobStep_reads _ _ _ _ rfl, ?_⟩
    unfold ChunkTask.textIn
    cases hrow : s.posts (relation task.postTable) task.postId with
    | none => exact .returned _ _ (by simp)
    | some post =>
      simp only [Option.bind_some, Option.getD_none]
      cases htext : truthy (ChunkPostHandler.resolveText task post) with
      | none => exact .returned _ _ (by simp)
      | some text =>
        obtain ⟨cfg, hcfg⟩ := exists_embedConfig task.taskType
        simp only [hcfg]
        exact .ensuring post text cfg.dim ⟨hpost post hrow, htext⟩ hnew
  | ensuring post text dim hread hnew =>
    have heq : ChunkPostHandler.storeNew env.chunking (env.draws tag).ids (env.draws tag).eventId
        (env.draws tag).span task post text dim =
          awaitChunk (.ensureTable task.chunkTableName dim) >>= fun _ =>
            awaitChunk (.getTextHashes task.postId task.chunkTableName) >>=
              storeFound env tag task post text := rfl
    rw [heq, next_call_bind]
    simp only [chunkWorld]
    refine ⟨⟨rfl, keeps_ensure _ _, fun u r hr => .inl (has_ensure.mp hr),
      (List.append_nil _).symm⟩, ?_⟩
    exact .looking post text hread (fun u r hr => hnew u r (has_ensure.mp hr))
      (ensure_ne_none _ _)
  | looking post text hread hnew htable =>
    obtain ⟨table, hT⟩ := Option.ne_none_iff_exists'.mp htable
    rw [next_call_bind]
    simp only [chunkWorld, hT]
    exact ⟨jobStep_reads _ _ _ _ rfl, standing_storeFound hread hnew hT⟩
  | inserting post text c cs hread hnew htable hchunks hnodup hothers =>
    obtain ⟨table, hT⟩ := Option.ne_none_iff_exists'.mp htable
    obtain ⟨hhas, hstep⟩ := jobStep_insert hread hnew hT hchunks hnodup
    have hnext : Coro.next chunkWorld (ChunkPostHandler.store (env.draws tag).eventId
        (env.draws tag).span task (c :: cs), s) =
          (awaitChunk (.publish (.chunksCreated (ChunkPostHandler.chunksCreated
            (env.draws tag).eventId (env.draws tag).span task (c :: cs)))) >>=
              fun _ => ret ((c :: cs).map Chunk.id),
            { s with tables := s.tables.modify task.chunkTableName (·.bulkInsert (c :: cs)) }) := by
      rw [ChunkPostHandler.store, next_call_bind]
      simp only [chunkWorld, hT]
    rw [hnext]
    refine ⟨hstep, .publishing text (c :: cs) fun window hw => ?_⟩
    obtain hhash | ⟨r, hr, hpost', hhash⟩ := hothers window hw
    · obtain ⟨c', hc', hhash⟩ := List.mem_map.mp hhash
      obtain ⟨hpost', -⟩ := mem_drawnChunks (hchunks hc')
      exact ⟨⟨c', none⟩, (hhas _ _).mpr (.inr ⟨rfl, c', hc', rfl⟩), hpost', hhash⟩
    · exact ⟨r, (hhas _ _).mpr (.inl hr), hpost', hhash⟩
  | publishing text chunks hstored =>
    rw [next_call_bind]
    simp only [chunkWorld]
    refine ⟨⟨rfl, .refl _, fun u r hr => .inl hr, rfl⟩, .returned _ _ fun text' htext => ?_⟩
    obtain rfl := Option.some.inj htext
    exact hstored
  | returned seen ids hstored => exact ⟨jobStep_reads _ _ _ _ rfl, .returned _ _ hstored⟩

end Step

end RagPipeline
