import RagPipeline.Basics
import RagPipeline.TableNames

namespace RagPipeline

structure ChunkMetadata where
  title : Option String
  externalId : Option String
deriving DecidableEq

structure Chunk where
  id : String
  postId : ℤ
  postUpdatedAt : DateTime
  chunkIndex : ℕ
  text : String
  metadata : ChunkMetadata
  tokenCount : ℕ
  textHash : String
deriving DecidableEq

structure StoredChunk extends Chunk where
  embedding : Option Vec
deriving DecidableEq

namespace ChunkRepository

/-- `{text_hash: chunk_id}` of the rows of a post that have a hash. -/
def textHashes (rows : List StoredChunk) (postId : ℤ) : OrderedDict String String :=
  OrderedDict.ofList
    ((rows.filter fun r => r.postId = postId && r.textHash ≠ "").map fun r => (r.textHash, r.id))

/-- `INSERT INTO ... ON CONFLICT (id) DO NOTHING`. -/
def insertRow (rows : List StoredChunk) (c : Chunk) : List StoredChunk :=
  if rows.any fun r => r.id = c.id then rows else rows ++ [⟨c, none⟩]

/-- The statement for every chunk; `executemany` is one transaction. -/
def bulkInsert (rows : List StoredChunk) (chunks : List Chunk) : List StoredChunk :=
  chunks.foldl insertRow rows

@[simp] theorem bulkInsert_nil (rows : List StoredChunk) : bulkInsert rows [] = rows := rfl

theorem nodup_insertRow {rows : List StoredChunk} (h : (rows.map fun r => r.id).Nodup) (c : Chunk) :
    ((insertRow rows c).map fun r => r.id).Nodup := by
  unfold insertRow
  split
  · exact h
  next hc =>
    have hne : ∀ r ∈ rows, r.id ≠ c.id := by simpa using hc
    rw [List.map_append, List.nodup_append]
    refine ⟨h, List.nodup_singleton _, fun i hi j hj => ?_⟩
    obtain ⟨r, hr, rfl⟩ := List.mem_map.mp hi
    rw [List.mem_singleton.mp hj]
    exact hne r hr

theorem nodup_bulkInsert {rows : List StoredChunk} (h : (rows.map fun r => r.id).Nodup)
    (chunks : List Chunk) : ((bulkInsert rows chunks).map fun r => r.id).Nodup := by
  induction chunks generalizing rows with
  | nil => exact h
  | cons c cs ih => exact ih (nodup_insertRow h c)

theorem subset_insertRow (rows : List StoredChunk) (c : Chunk) : rows ⊆ insertRow rows c := by
  unfold insertRow
  split
  · exact List.Subset.refl _
  · exact List.subset_append_left _ _

theorem subset_bulkInsert (rows : List StoredChunk) (chunks : List Chunk) :
    rows ⊆ bulkInsert rows chunks := by
  induction chunks generalizing rows with
  | nil => exact List.Subset.refl _
  | cons c cs ih => exact List.Subset.trans (subset_insertRow rows c) (ih _)

theorem mem_insertRow {rows : List StoredChunk} {c : Chunk} {r : StoredChunk}
    (h : r ∈ insertRow rows c) : r ∈ rows ∨ r = ⟨c, none⟩ := by
  unfold insertRow at h
  split at h
  · exact .inl h
  · simpa using h

theorem mem_bulkInsert {rows : List StoredChunk} {chunks : List Chunk} {r : StoredChunk}
    (h : r ∈ bulkInsert rows chunks) : r ∈ rows ∨ ∃ c ∈ chunks, r = ⟨c, none⟩ := by
  induction chunks generalizing rows with
  | nil => exact .inl h
  | cons c cs ih =>
    obtain hr | ⟨c', hc', rfl⟩ := ih h
    · obtain hr | rfl := mem_insertRow hr
      · exact .inl hr
      · exact .inr ⟨c, List.mem_cons_self, rfl⟩
    · exact .inr ⟨c', List.mem_cons_of_mem c hc', rfl⟩

theorem mem_bulkInsert_cons {rows : List StoredChunk} {c : Chunk} (h : ∀ r ∈ rows, r.id ≠ c.id)
    (cs : List Chunk) : (⟨c, none⟩ : StoredChunk) ∈ bulkInsert rows (c :: cs) := by
  apply subset_bulkInsert (insertRow rows c) cs
  unfold insertRow
  rw [if_neg (by simpa using h)]
  exact List.mem_append_right _ (List.mem_singleton_self _)

end ChunkRepository

/-- A chunk table; `id` is its primary key. -/
@[ext] structure ChunkTable where
  rows : List StoredChunk
  nodup : (rows.map fun r => r.id).Nodup

/-- `(chunk_id, text)` of the rows with these ids. -/
def ChunkRepository.fetchTexts (t : ChunkTable) (chunkIds : List String) : List (String × String) :=
  (t.rows.filter fun r => r.id ∈ chunkIds).map fun r => (r.id, r.text)

namespace ChunkTable

def empty : ChunkTable := ⟨[], List.nodup_nil⟩

def bulkInsert (t : ChunkTable) (chunks : List Chunk) : ChunkTable :=
  ⟨ChunkRepository.bulkInsert t.rows chunks, ChunkRepository.nodup_bulkInsert t.nodup chunks⟩

/-- A write to the `embedding` column. -/
def reembed (t : ChunkTable) (f : StoredChunk → Option Vec) : ChunkTable where
  rows := t.rows.map fun r => { r with embedding := f r }
  nodup := by simpa [List.map_map, Function.comp_def] using t.nodup

/-- `UPDATE ... SET embedding = ... WHERE id = ...`. -/
def setEmbedding (t : ChunkTable) (id : String) (v : Vec) : ChunkTable :=
  t.reembed fun r => if r.id = id then some v else r.embedding

theorem eq_of_id_eq {t : ChunkTable} {r r' : StoredChunk} (hr : r ∈ t.rows) (hr' : r' ∈ t.rows)
    (h : r.id = r'.id) : r = r' := List.inj_on_of_nodup_map t.nodup hr hr' h

end ChunkTable

abbrev ChunkTables := String → Option ChunkTable

namespace ChunkTables

def rows (T : ChunkTables) (tableName : String) : List StoredChunk :=
  ((T (relation tableName)).map ChunkTable.rows).getD []

/-- `CREATE TABLE IF NOT EXISTS`. -/
def ensure (T : ChunkTables) (tableName : String) : ChunkTables := fun u =>
  if u = relation tableName then some ((T u).getD ChunkTable.empty) else T u

def modify (T : ChunkTables) (tableName : String) (f : ChunkTable → ChunkTable) : ChunkTables :=
  fun u => if u = relation tableName then (T u).map f else T u

@[simp] theorem rows_ensure (T : ChunkTables) (t u : String) : (T.ensure t).rows u = T.rows u := by
  unfold rows ensure
  split
  next h =>
    rw [h]
    cases T (relation t) <;> rfl
  next => rfl

theorem exists_ensure (T : ChunkTables) (t : String) :
    ∃ table, T.ensure t (relation t) = some table ∧ table.rows = T.rows t := by
  refine ⟨_, if_pos rfl, ?_⟩
  unfold rows
  cases T (relation t) <;> rfl

theorem rows_of_eq {T : ChunkTables} {t : String} {table : ChunkTable}
    (h : T (relation t) = some table) : T.rows t = table.rows := by
  rw [rows, h]
  rfl

theorem rows_modify {T : ChunkTables} {t : String} {table : ChunkTable}
    (h : T (relation t) = some table) (f : ChunkTable → ChunkTable) (u : String) :
    (T.modify t f).rows u = if relation u = relation t then (f table).rows else T.rows u := by
  unfold rows modify
  split_ifs with hu
  · rw [hu, h]
    rfl
  · rfl

end ChunkTables
end RagPipeline
