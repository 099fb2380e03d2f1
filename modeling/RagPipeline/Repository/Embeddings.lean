import RagPipeline.Handlers.Embed
import RagPipeline.Repository.Chunks

namespace RagPipeline

namespace ChunkRepository

def chunkRows (rows : List EmbeddingRow) : List ChunkEmbeddingRow :=
  rows.filterMap fun
    | .chunk r => if r.chunkTable = "" then none else some r
    | .query _ => none

def byTable (rows : List ChunkEmbeddingRow) : OrderedDict String (List ChunkEmbeddingRow) :=
  OrderedDict.empty.foldItems ChunkEmbeddingRow.chunkTable (fun r o => o.getD [] ++ [r]) rows

def updateEmbedding (table : String) (T : ChunkTables) (r : ChunkEmbeddingRow) : ChunkTables :=
  T.modify table (·.setEmbedding r.chunkId r.embedding)

/-- One `executemany` for each table. -/
def saveBatch (T : ChunkTables) (rows : List EmbeddingRow) : ChunkTables :=
  (byTable (chunkRows rows)).entries.foldl (fun T e => e.2.foldl (updateEmbedding e.1) T) T

end ChunkRepository

/-- The named rows hold the vector of their own text, the others what they held. -/
def ChunkTables.embedRows (E : String → Vec) (named : String → String → Bool) (T : ChunkTables) :
    ChunkTables := fun u =>
  (T u).map fun t => t.reembed fun r => if named u r.id then some (E r.text) else r.embedding

variable {E : String → Vec} {T : ChunkTables} {named named' : String → String → Bool}

theorem reembed_congr {t : ChunkTable} {f g : StoredChunk → Option Vec}
    (h : ∀ r ∈ t.rows, f r = g r) : t.reembed f = t.reembed g := by
  apply ChunkTable.ext
  exact List.map_congr_left fun r hr => by rw [h r hr]

theorem reembed_self (t : ChunkTable) : t.reembed (fun r => r.embedding) = t := by
  apply ChunkTable.ext
  exact List.map_id t.rows

theorem reembed_reembed (t : ChunkTable) (f g : StoredChunk → Option Vec) :
    (t.reembed f).reembed g = t.reembed fun r => g { r with embedding := f r } := by
  apply ChunkTable.ext
  exact List.map_map

theorem embedRows_congr
    (h : ∀ u t, T u = some t → ∀ r ∈ t.rows, named u r.id = named' u r.id) :
    T.embedRows E named = T.embedRows E named' := by
  funext u
  refine Option.map_congr fun t ht => reembed_congr fun r hr => ?_
  rw [h u t ht r hr]

theorem embedRows_none : T.embedRows E (fun _ _ => false) = T := by
  funext u
  unfold ChunkTables.embedRows
  simp [reembed_self]

theorem embedRows_embedRows :
    (T.embedRows E named).embedRows E named' =
      T.embedRows E fun u i => named u i || named' u i := by
  funext u
  unfold ChunkTables.embedRows
  rw [Option.map_map]
  congr 1
  funext t
  rw [Function.comp_apply, reembed_reembed]
  refine reembed_congr fun r _ => ?_
  by_cases hn : named u r.id = true <;> simp [hn]

/-- The vector is that of the text of the row it is written to. -/
def VectorAgrees (E : String → Vec) (T : ChunkTables) (table : String) (r : ChunkEmbeddingRow) :
    Prop :=
  ∀ t, T (relation table) = some t → ∀ x ∈ t.rows, x.id = r.chunkId → r.embedding = E x.text

theorem VectorAgrees.embedRows {table : String} {r : ChunkEmbeddingRow}
    (h : VectorAgrees E T table r) :
    VectorAgrees E (T.embedRows E named) table r := by
  intro t ht x hx hid
  obtain ⟨t₀, ht₀, rfl⟩ := Option.map_eq_some_iff.mp ht
  obtain ⟨x₀, hx₀, rfl⟩ := List.mem_map.mp hx
  exact h t₀ ht₀ x₀ hx₀ hid

theorem updateEmbedding_eq {table : String} {r : ChunkEmbeddingRow} (h : VectorAgrees E T table r) :
    ChunkRepository.updateEmbedding table T r =
      T.embedRows E fun u i => u = relation table && i = r.chunkId := by
  funext u
  unfold ChunkRepository.updateEmbedding ChunkTables.modify ChunkTables.embedRows
  split_ifs with hu
  · subst hu
    refine Option.map_congr fun t ht => reembed_congr fun x hx => ?_
    by_cases hid : x.id = r.chunkId
    · simp [hid, h t ht x hx hid]
    · simp [hid]
  · simp [hu, reembed_self]

theorem foldl_updateEmbedding (ps : List (String × ChunkEmbeddingRow))
    (h : ∀ p ∈ ps, VectorAgrees E T p.1 p.2) :
    ps.foldl (fun T p => ChunkRepository.updateEmbedding p.1 T p.2) T =
      T.embedRows E fun u i => ps.any fun p => u = relation p.1 && i = p.2.chunkId := by
  induction ps generalizing T with
  | nil => exact embedRows_none.symm
  | cons p ps ih =>
    have hp := h p List.mem_cons_self
    have hps : ∀ q ∈ ps, VectorAgrees E T q.1 q.2 := fun q hq => h q (List.mem_cons_of_mem p hq)
    rw [List.foldl_cons, updateEmbedding_eq hp, ih fun q hq => (hps q hq).embedRows,
      embedRows_embedRows]
    rfl

/-- The groups of `by_table` together are the rows. -/
theorem byTable_perm (rows : List ChunkEmbeddingRow) :
    ((ChunkRepository.byTable rows).entries.flatMap fun e => e.2.map fun r => (e.1, r)).Perm
      (rows.map fun r => (r.chunkTable, r)) := by
  have hupd : ∀ (r : ChunkEmbeddingRow) (o : Option (List ChunkEmbeddingRow)),
      ((o.getD [] ++ [r]).map fun x => (r.chunkTable, x)).Perm
        ((o.map fun rs => rs.map fun x => (r.chunkTable, x)).getD [] ++ [(r.chunkTable, r)]) := by
    intro r o
    cases o <;> simp
  have h := OrderedDict.flatMap_foldItems_perm ChunkEmbeddingRow.chunkTable
    (fun r o => o.getD [] ++ [r]) (fun table rs => rs.map fun r => (table, r))
    (fun r => [(r.chunkTable, r)]) hupd OrderedDict.empty rows
  simpa [ChunkRepository.byTable, OrderedDict.empty, ← List.map_eq_flatMap] using h

theorem saveBatch_eq {rows : List EmbeddingRow}
    (h : ∀ r ∈ ChunkRepository.chunkRows rows, VectorAgrees E T r.chunkTable r) :
    ChunkRepository.saveBatch T rows = T.embedRows E fun u i =>
      (ChunkRepository.chunkRows rows).any fun r => u = relation r.chunkTable && i = r.chunkId := by
  have hperm := byTable_perm (ChunkRepository.chunkRows rows)
  have hfold : ChunkRepository.saveBatch T rows =
      ((ChunkRepository.byTable (ChunkRepository.chunkRows rows)).entries.flatMap
        fun e => e.2.map fun r => (e.1, r)).foldl
          (fun T p => ChunkRepository.updateEmbedding p.1 T p.2) T := by
    rw [List.foldl_flatMap]
    simp only [List.foldl_map]
    rfl
  rw [hfold, foldl_updateEmbedding]
  · refine embedRows_congr fun u t _ r _ => ?_
    rw [hperm.any_eq, List.any_map]
    rfl
  · intro p hp
    obtain ⟨r, hr, rfl⟩ := List.mem_map.mp (hperm.mem_iff.mp hp)
    exact h r hr

end RagPipeline
