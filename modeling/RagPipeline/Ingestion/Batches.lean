import RagPipeline.Handlers.EmbedBatches
import RagPipeline.Lib.Crash

namespace RagPipeline
open Coro

/-! What a batch of embed tasks leaves, wherever it stops. -/

variable {E : String → Vec} {b : EmbedBatch E} {s t : EmbedDb}

/-- Either no vector is written or all of them are, and events are only added. -/
structure EmbedBatch.Left (b : EmbedBatch E) (s t : EmbedDb) : Prop where
  tables : t.tables = s.tables ∨ t.tables = s.tables.embedRows E (namedBy b.tasks)
  events : ∃ events : List EmbeddingCompletedEvent,
    t.events = s.events ++ events.map .embeddingCompleted

theorem EmbedBatch.Left.refl (b : EmbedBatch E) (s : EmbedDb) : b.Left s s :=
  ⟨.inl rfl, [], (List.append_nil _).symm⟩

/-- A publish of `publish_groups`. -/
def IsCompletion : EmbedOp → Prop
  | .publish (.embeddingCompleted _) => True
  | _ => False

theorem EmbedBatch.Left.publish {op : EmbedOp} (h : b.Left s t) (hop : IsCompletion op) :
    b.Left s (embedWorld b op t).2 := by
  obtain ⟨htables, events, hevents⟩ := h
  cases op with
  | publish e =>
    cases e with
    | embeddingCompleted e =>
      refine ⟨htables, events ++ [e], ?_⟩
      simp only [embedWorld, hevents, List.map_append, List.append_assoc]
      rfl
    | _ => exact hop.elim
  | _ => exact hop.elim

theorem only_publishGroups (modelName : String) (trace : Option String × Option String)
    (gs : List (GroupKey × EventGroup)) :
    Only IsCompletion (publishGroups modelName trace gs) := by
  induction gs with
  | nil => trivial
  | cons g gs ih =>
    exact (only_ofExcept _).bind fun e => (only_call trivial).bind fun _ => ih

def IsFetch : EmbedOp → Prop
  | .fetchTexts .. => True
  | _ => False

theorem only_fetchTriples (tasks : List (Obj EmbedTask)) : Only IsFetch (fetchTriples tasks) := by
  induction tasks with
  | nil => trivial
  | cons task tasks ih =>
    refine Only.bind ?_ fun r => ih.bind fun rs => trivial
    unfold fetchTask
    split
    · trivial
    · refine Only.bind ?_ fun r => ?_
      · exact Only.attempt ((only_call trivial).bind fun _ => trivial) fun _ => trivial
      · split <;> trivial

theorem covers_storeEmbeddings {triples : List Triple}
    (htriples : triples = allFetched (answers (embedWorld b) s) b.tasks)
    (trace : Option String × Option String) :
    Covers (embedWorld b) (fun _ => b.Left s) (fun _ => b.Left s)
      (storeEmbeddings triples ((triples.map Triple.text).map E) b.modelName trace) s := by
  have htables : ∀ x ∈ triples, (truthy x.task.val.chunkTable).isSome = true := by
    rw [htriples]
    exact fun _ => isSome_of_mem_allFetched
  have hsave : ChunkRepository.saveBatch s.tables
      (triples.map fun x => .chunk (embeddedRow E b.modelName x)) =
        s.tables.embedRows E (namedBy b.tasks) := by
    rw [htriples]
    exact saveBatch_embedded b.modelName
  rw [storeEmbeddings, embeddingRows_encoded _ htables, ofExcept_ok, ret_bind, covers_call_bind]
  refine ⟨.refl b s, ?_⟩
  simp only [embedWorld, hsave]
  have hsaved : b.Left s ⟨s.tables.embedRows E (namedBy b.tasks), s.events⟩ :=
    ⟨.inr rfl, [], (List.append_nil _).symm⟩
  have hpublish := Only.covers (w := embedWorld b) (I := b.Left s)
    (fun op t hop ht => ht.publish hop)
    (only_publishGroups b.modelName trace (eventGroups triples).entries) hsaved
  exact hpublish.mono (fun _ _ h => h.2) fun _ _ h => h

/-- At every await of a batch, and at its end. -/
theorem covers_embedChunks (b : EmbedBatch E) (s : EmbedDb) :
    Covers (embedWorld b) (fun _ => b.Left s) (fun _ => b.Left s)
      (embedChunks b.span b.tasks b.modelName) s := by
  have hfetch := (only_fetchTriples b.tasks).covers_reads (w := embedWorld b) (s := s)
    fun op hop => by
      cases op with
      | fetchTexts c ids table => exact fetch_reads c ids table
      | _ => exact hop.elim
  rw [run_fetchTriples fetch_reads] at hfetch
  rw [embedChunks]
  refine (hfetch.mono (fun _ t ht => ht ▸ .refl b s) fun _ _ h => h).bind ?_ ?_
  · rintro ⟨triples, failed⟩ t ⟨hr, rfl⟩
    obtain ⟨htriples, -⟩ := Prod.mk.inj (Except.ok.inj hr)
    cases htriples' : triples with
    | nil => exact .refl b t
    | cons first rest =>
      rw [htriples'] at htriples
      have hencode : embedWorld b (.encode ((first :: rest).map Triple.text)) t =
          (.ok (((first :: rest).map Triple.text).map E), t) :=
        Prod.ext (encode_eq b.leg (by simp)) rfl
      refine Covers.captureBind (R := fun r t' => r = .ok (((first :: rest).map Triple.text).map E)
        ∧ t' = t) ?_ ?_
      · refine (covers_call (EmbedOp.encode ((first :: rest).map Triple.text)) _).mpr ?_
        rw [hencode]
        exact ⟨.refl b t, rfl, rfl⟩
      · rintro r t' ⟨rfl, rfl⟩
        exact (covers_storeEmbeddings htriples _).bind (fun _ _ h => h) fun _ _ h => h
  · rintro e t ⟨hr, -⟩
    cases hr

theorem left_leaves (b : EmbedBatch E) (s : EmbedDb) (stop : Option ℕ) :
    b.Left s (leaves (embedWorld b) stop (embedChunks b.span b.tasks b.modelName) s) :=
  (covers_embedChunks b s).leaves stop

end RagPipeline
