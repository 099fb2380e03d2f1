import RagPipeline.Repository.Embeddings
import RagPipeline.Services.ChunkBackfill

namespace RagPipeline

/-! The rows of the chunk tables, by relation. -/

namespace ChunkTables

def Has (T : ChunkTables) (u : String) (r : StoredChunk) : Prop :=
  ∃ table, T u = some table ∧ r ∈ table.rows

/-- Relations and rows stay, but for the vectors. -/
structure KeepsRows (T U : ChunkTables) : Prop where
  tables : ∀ u, T u ≠ none → U u ≠ none
  rows : ∀ u r, T.Has u r → ∃ r', U.Has u r' ∧ r'.toChunk = r.toChunk

def Unused (T : ChunkTables) (ids : ℕ → String) : Prop := ∀ u r, T.Has u r → ∀ i, r.id ≠ ids i

variable {T U V : ChunkTables} {t u : String} {r : StoredChunk}

theorem KeepsRows.refl (T : ChunkTables) : KeepsRows T T := ⟨fun _ h => h, fun _ r h => ⟨r, h, rfl⟩⟩

theorem KeepsRows.trans (h : KeepsRows T U) (h' : KeepsRows U V) : KeepsRows T V := by
  refine ⟨fun u hu => h'.tables u (h.tables u hu), fun u r hr => ?_⟩
  obtain ⟨r', hr', heq⟩ := h.rows u r hr
  obtain ⟨r'', hr'', heq'⟩ := h'.rows u r' hr'
  exact ⟨r'', hr'', heq'.trans heq⟩

theorem has_ensure : (T.ensure t).Has u r ↔ T.Has u r := by
  unfold Has ensure
  split_ifs with hu
  · cases hT : T u with
    | none => simp [ChunkTable.empty]
    | some table => simp
  · exact Iff.rfl

theorem keeps_ensure (T : ChunkTables) (t : String) : KeepsRows T (T.ensure t) where
  tables u hu := by
    unfold ensure
    split_ifs
    · exact Option.some_ne_none _
    · exact hu
  rows u r hr := ⟨r, has_ensure.mpr hr, rfl⟩

theorem ensure_ne_none (T : ChunkTables) (t : String) : T.ensure t (relation t) ≠ none := by
  obtain ⟨table, hT, -⟩ := T.exists_ensure t
  rw [hT]
  exact Option.some_ne_none table

/-- New chunks with new ids become rows without vectors. -/
theorem has_bulkInsert {table : ChunkTable} (hT : T (relation t) = some table) {chunks : List Chunk}
    (hnodup : (chunks.map Chunk.id).Nodup)
    (hfresh : ∀ c ∈ chunks, ∀ u r, T.Has u r → r.id ≠ c.id) :
    (T.modify t (·.bulkInsert chunks)).Has u r ↔
      T.Has u r ∨ u = relation t ∧ ∃ c ∈ chunks, r = ⟨c, none⟩ := by
  have hrows : (table.bulkInsert chunks).rows = table.rows ++ chunks.map fun c => ⟨c, none⟩ :=
    ChunkRepository.bulkInsert_of_fresh hnodup fun c hc r hr => hfresh c hc _ r ⟨table, hT, hr⟩
  unfold Has modify
  by_cases hu : u = relation t
  · subst hu
    simp [hT, hrows, eq_comm]
  · simp [hu]

theorem keeps_bulkInsert (T : ChunkTables) (t : String) (chunks : List Chunk) :
    KeepsRows T (T.modify t (·.bulkInsert chunks)) where
  tables u hu := by
    obtain ⟨table, hT⟩ := Option.ne_none_iff_exists'.mp hu
    obtain ⟨table', hU, -⟩ := grows_bulkInsert T t chunks u table hT
    rw [hU]
    exact Option.some_ne_none table'
  rows u r hr := by
    obtain ⟨table, hT, hmem⟩ := hr
    obtain ⟨table', hU, hsub⟩ := grows_bulkInsert T t chunks u table hT
    exact ⟨r, ⟨table', hU, hsub hmem⟩, rfl⟩

/-- A row with the vector that such a write gives it. -/
def embedded (E : String → Vec) (named : String → String → Bool) (u : String) (r : StoredChunk) :
    StoredChunk :=
  { r with embedding := if named u r.id then some (E r.text) else r.embedding }

theorem has_embedRows {E : String → Vec} {named : String → String → Bool} :
    (T.embedRows E named).Has u r ↔ ∃ r₀, T.Has u r₀ ∧ r = embedded E named u r₀ := by
  unfold Has embedRows
  cases hT : T u with
  | none => simp
  | some table =>
    simp only [Option.map_some, Option.some.injEq, exists_eq_left', ChunkTable.reembed,
      List.mem_map]
    exact exists_congr fun r₀ => and_congr_right' eq_comm

theorem keeps_embedRows (T : ChunkTables) (E : String → Vec) (named : String → String → Bool) :
    KeepsRows T (T.embedRows E named) where
  tables u hu := by simpa [embedRows] using hu
  rows u r hr := ⟨embedded E named u r, has_embedRows.mpr ⟨r, hr, rfl⟩, rfl⟩

end ChunkTables
end RagPipeline
