import RagPipeline.Worker.GpuContract

namespace RagPipeline
namespace GpuEmbedWorker

section Histories

variable {Body M : Type} (parseTask : Body → Option AnyTask) (modelQueues : List (String × String))
  (idleTimeoutS : ℚ)

/-- The loop after a visit; behind an exception that leaves `_run_inner`, as `run` enters it
again. -/
def after (s : Loop M) (v : Visit Body M) : Loop M :=
  match (visit parseTask modelQueues idleTimeoutS v s).next with
  | .ok s' => s'
  | .error (_, w) => .start w

/-- The loop of a new worker after these visits. -/
def afterAll (history : List (Visit Body M)) : Loop M :=
  history.foldl (after parseTask modelQueues idleTimeoutS) (.start .cold)

/-- What `_load_model` returns in a visit, if it is called, and the name it is called with. -/
def loaded (s : Loop M) (v : Visit Body M) : Option (String × M) :=
  match modelQueues[s.pos]? with
  | none => none
  | some (modelName, _) =>
    if parseBatch parseTask v.raw = [] ∨ s.warm.currentModelName = some modelName then none
    else (v.env.loadModel modelName).toOption.map (Prod.mk modelName)

/-- All that the loader has returned. -/
def loads (s : Loop M) : List (Visit Body M) → List (String × M)
  | [] => []
  | v :: vs => (loaded parseTask modelQueues s v).toList ++
      loads (after parseTask modelQueues idleTimeoutS s v) vs

/-- There is a model if and only if there is a name, and then it is the object that the loader
returned for that name. -/
structure Holds (w : Warm M) (returned : List (String × M)) : Prop where
  none_iff : w.model = none ↔ w.currentModelName = none
  last : ∀ m, w.model = some m →
    ∃ modelName, w.currentModelName = some modelName ∧ returned.getLast? = some (modelName, m)

/-- The last visits polled the queues before the `pos`-th one, each in its turn, and none of them
gave a valid message. -/
def Scanned (history : List (Visit Body M)) (pos : ℕ) : Prop :=
  ∃ before scan, history = before ++ scan ∧ scan.length = pos ∧
    ∀ i (hi : i < scan.length),
      (afterAll parseTask modelQueues idleTimeoutS (before ++ scan.take i)).pos = i ∧
        parseBatch parseTask scan[i].raw = []

def processed (v : Visit Body M) (modelName : String) (m : M) : Visited M :=
  match processBatch v.env.handlers (some m) (parseBatch parseTask v.raw) modelName with
  | .ok r => ⟨parseNacks parseTask v.raw ++ settle r, .ok (.start ⟨some m, some modelName⟩)⟩
  | .error e => ⟨parseNacks parseTask v.raw, .error (e, ⟨some m, some modelName⟩)⟩

/-- A visit whose batch is nacked as a whole, and that leaves no model. -/
def refused (v : Visit Body M) : Visited M :=
  ⟨parseNacks parseTask v.raw ++
    (parseBatch parseTask v.raw).map fun msg => .nack msg.deliveryTag false, .ok (.start .cold)⟩

end Histories

variable {Body M : Type} {parseTask : Body → Option AnyTask}
  {modelQueues : List (String × String)} {idleTimeoutS : ℚ} {s : Loop M} {v : Visit Body M}
  {history : List (Visit Body M)} {returned : List (String × M)} {w : Warm M}
  {modelName queueName : String}

theorem afterAll_concat (history : List (Visit Body M)) (v : Visit Body M) :
    afterAll parseTask modelQueues idleTimeoutS (history ++ [v]) =
      after parseTask modelQueues idleTimeoutS
        (afterAll parseTask modelQueues idleTimeoutS history) v := by
  simp [afterAll]

theorem loads_concat (s : Loop M) (history : List (Visit Body M)) (v : Visit Body M) :
    loads parseTask modelQueues idleTimeoutS s (history ++ [v]) =
      loads parseTask modelQueues idleTimeoutS s history ++
        (loaded parseTask modelQueues
          (history.foldl (after parseTask modelQueues idleTimeoutS) s) v).toList := by
  induction history generalizing s with
  | nil => simp [loads]
  | cons u us ih =>
    rw [List.cons_append, loads, ih, ← List.append_assoc]
    rfl

theorem holds_cold (returned : List (String × M)) : Holds Warm.cold returned :=
  ⟨iff_of_true rfl rfl, fun m hm => (by cases hm)⟩

theorem Holds.unloadModel (h : Holds w returned) :
    Holds (GpuEmbedWorker.unloadModel w) returned := by
  unfold GpuEmbedWorker.unloadModel
  split
  · exact h
  · exact holds_cold returned

theorem Holds.unloadModel_eq (h : Holds w returned) : GpuEmbedWorker.unloadModel w = .cold := by
  unfold GpuEmbedWorker.unloadModel
  split
  next hnone =>
    have hname := h.none_iff.mp hnone
    cases w
    simp only at hnone hname
    rw [hnone, hname]
    rfl
  · rfl

theorem visit_of_ensured (hq : modelQueues[s.pos]? = some (modelName, queueName))
    (hb : parseBatch parseTask v.raw ≠ []) {u : Unit} {m : M}
    (he : ensureModel v.env.loadModel s.warm modelName = (.ok u, ⟨some m, some modelName⟩)) :
    visit parseTask modelQueues idleTimeoutS v s = processed parseTask v modelName m := by
  obtain ⟨msg, msgs, hbatch⟩ := List.exists_cons_of_ne_nil hb
  rw [visit_eq hq v hbatch, processed, handleBatch, he, hbatch]
  simp only
  cases processBatch v.env.handlers (some m) (msg :: msgs) modelName with
  | ok r => rfl
  | error e => rfl

theorem visit_of_load_error
    (hq : modelQueues[s.pos]? = some (modelName, queueName))
    (hb : parseBatch parseTask v.raw ≠ []) {e : PyExc} {w : Warm M}
    (he : ensureModel v.env.loadModel s.warm modelName = (.error e, w)) (hw : w = .cold) :
    visit parseTask modelQueues idleTimeoutS v s = refused parseTask v := by
  obtain ⟨msg, msgs, hbatch⟩ := List.exists_cons_of_ne_nil hb
  rw [visit_eq hq v hbatch, refused, handleBatch, he, hbatch, hw]
  simp [settle]

variable (idleTimeoutS) in
/-- What becomes of a batch: it is processed with the model that the loader returned last, for this
very name, unless the model does not load. -/
theorem Holds.visit (h : Holds s.warm returned)
    (hq : modelQueues[s.pos]? = some (modelName, queueName))
    (hb : parseBatch parseTask v.raw ≠ []) :
    match (ensureModel v.env.loadModel s.warm modelName).1 with
    | .ok _ => ∃ m, (returned ++ (loaded parseTask modelQueues s v).toList).getLast? =
          some (modelName, m) ∧
        visit parseTask modelQueues idleTimeoutS v s = processed parseTask v modelName m
    | .error _ => visit parseTask modelQueues idleTimeoutS v s = refused parseTask v := by
  by_cases hname : s.warm.currentModelName = some modelName
  · -- the model is warm
    have hkept : ensureModel v.env.loadModel s.warm modelName = (.ok (), s.warm) := by
      rw [ensureModel, if_pos hname]
    have hnone : loaded parseTask modelQueues s v = none := by
      simp only [loaded, hq, hname, or_true, if_true]
    cases hm : s.warm.model with
    | none =>
      have hcold := h.none_iff.mp hm
      rw [hname] at hcold
      cases hcold
    | some m =>
      obtain ⟨name, hname', hlast⟩ := h.last m hm
      obtain rfl := Option.some.inj (hname.symm.trans hname')
      have hwarm : s.warm = ⟨some m, some modelName⟩ := by rw [← hm, ← hname]
      have hvisit : GpuEmbedWorker.visit parseTask modelQueues idleTimeoutS v s =
          processed parseTask v modelName m :=
        visit_of_ensured hq hb (hkept.trans (by rw [hwarm]))
      rw [hkept, hnone, Option.toList_none, List.append_nil]
      exact ⟨m, hlast, hvisit⟩
  · have hcall : loaded parseTask modelQueues s v =
        (v.env.loadModel modelName).toOption.map (Prod.mk modelName) := by
      simp only [loaded, hq, hname, hb, or_false, if_false]
    cases hload : v.env.loadModel modelName with
    | ok m =>
      have he : ensureModel v.env.loadModel s.warm modelName =
          (.ok (), ⟨some m, some modelName⟩) := by
        rw [ensureModel, if_neg hname, hload]
      rw [he, hcall, hload]
      exact ⟨m, List.getLast?_concat, visit_of_ensured hq hb he⟩
    | error e =>
      have he : ensureModel v.env.loadModel s.warm modelName =
          (.error e, GpuEmbedWorker.unloadModel s.warm) := by
        rw [ensureModel, if_neg hname, hload]
      rw [he]
      exact visit_of_load_error hq hb he h.unloadModel_eq

theorem after_of_processed {m : M}
    (h : visit parseTask modelQueues idleTimeoutS v s = processed parseTask v modelName m) :
    after parseTask modelQueues idleTimeoutS s v = .start ⟨some m, some modelName⟩ := by
  rw [after, h, processed]
  cases processBatch v.env.handlers (some m) (parseBatch parseTask v.raw) modelName with
  | ok r => rfl
  | error e => rfl

theorem after_of_nil (hq : modelQueues[s.pos]? = some (modelName, queueName))
    (hb : parseBatch parseTask v.raw = []) :
    after parseTask modelQueues idleTimeoutS s v = { s with pos := s.pos + 1 } := by
  rw [after, visit_eq_of_nil hq v hb]

theorem after_of_none (hq : modelQueues[s.pos]? = none) :
    after parseTask modelQueues idleTimeoutS s v = idle idleTimeoutS v.now s := by
  simp only [after, GpuEmbedWorker.visit, hq]

variable (idleTimeoutS) in
theorem Holds.after (h : Holds s.warm returned) (v : Visit Body M) :
    Holds (after parseTask modelQueues idleTimeoutS s v).warm
      (returned ++ (loaded parseTask modelQueues s v).toList) := by
  cases hq : modelQueues[s.pos]? with
  | none =>
    have hnone : loaded parseTask modelQueues s v = none := by simp only [loaded, hq]
    rw [after_of_none hq, hnone, Option.toList_none, List.append_nil]
    unfold idle
    split
    · exact h
    · split_ifs
      · exact h.unloadModel
      · exact h
  | some q =>
    obtain ⟨modelName, queueName⟩ := q
    by_cases hb : parseBatch parseTask v.raw = []
    · have hnone : loaded parseTask modelQueues s v = none := by
        simp only [loaded, hq, hb, true_or, if_true]
      rw [after_of_nil hq hb, hnone, Option.toList_none, List.append_nil]
      exact h
    · have hvisit := h.visit idleTimeoutS hq hb
      cases he : (ensureModel v.env.loadModel s.warm modelName).1 with
      | ok u =>
        rw [he] at hvisit
        obtain ⟨m, hlast, hv⟩ := hvisit
        rw [after_of_processed hv]
        refine ⟨iff_of_false (Option.some_ne_none m) (Option.some_ne_none modelName), ?_⟩
        intro m' hm'
        obtain rfl := Option.some.inj hm'
        exact ⟨modelName, rfl, hlast⟩
      | error e =>
        rw [he] at hvisit
        rw [GpuEmbedWorker.after, hvisit]
        exact holds_cold _

theorem scanned_zero (history : List (Visit Body M)) :
    Scanned parseTask modelQueues idleTimeoutS history 0 :=
  ⟨history, [], (List.append_nil _).symm, rfl, fun i hi => absurd hi (Nat.not_lt_zero i)⟩

theorem pos_idle (now : ℚ) (s : Loop M) : (idle idleTimeoutS now s).pos = 0 := by
  unfold idle
  split
  · rfl
  · split_ifs
    · rfl
    · rfl

theorem pos_after_of_batch (hq : modelQueues[s.pos]? = some (modelName, queueName))
    (hb : parseBatch parseTask v.raw ≠ []) :
    (after parseTask modelQueues idleTimeoutS s v).pos = 0 := by
  obtain ⟨msg, msgs, hbatch⟩ := List.exists_cons_of_ne_nil hb
  rw [after, visit_eq hq v hbatch]
  rcases handleBatch v.env s.warm modelName (msg :: msgs) with ⟨e | done, w⟩
  · rfl
  · rfl

theorem Scanned.after (h : Scanned parseTask modelQueues idleTimeoutS history
      (afterAll parseTask modelQueues idleTimeoutS history).pos) (v : Visit Body M) :
    Scanned parseTask modelQueues idleTimeoutS (history ++ [v])
      (afterAll parseTask modelQueues idleTimeoutS (history ++ [v])).pos := by
  rw [afterAll_concat]
  cases hq : modelQueues[(afterAll parseTask modelQueues idleTimeoutS history).pos]? with
  | none =>
    rw [after_of_none hq, pos_idle]
    exact scanned_zero _
  | some q =>
    obtain ⟨modelName, queueName⟩ := q
    by_cases hb : parseBatch parseTask v.raw = []
    · -- the scan goes on to the next queue
      rw [after_of_nil hq hb]
      obtain ⟨before, scan, rfl, hlen, hscan⟩ := h
      refine ⟨before, scan ++ [v], by rw [List.append_assoc], by simp [hlen], ?_⟩
      intro i hi
      rw [List.length_append, List.length_singleton] at hi
      by_cases hlt : i < scan.length
      · rw [List.take_append_of_le_length hlt.le, List.getElem_append_left hlt]
        exact hscan i hlt
      · have hlast : i = scan.length := by omega
        subst hlast
        rw [List.take_left, List.getElem_concat_length rfl]
        exact ⟨hlen.symm, hb⟩
    · rw [pos_after_of_batch hq hb]
      exact scanned_zero _

variable (parseTask modelQueues idleTimeoutS) in
theorem holds_afterAll (history : List (Visit Body M)) :
    Holds (afterAll parseTask modelQueues idleTimeoutS history).warm
      (loads parseTask modelQueues idleTimeoutS (.start .cold) history) := by
  induction history using List.reverseRecOn with
  | nil => exact holds_cold []
  | append_singleton history v ih =>
    rw [afterAll_concat, loads_concat]
    exact ih.after idleTimeoutS v

variable (parseTask modelQueues idleTimeoutS) in
theorem scanned_afterAll (history : List (Visit Body M)) :
    Scanned parseTask modelQueues idleTimeoutS history
      (afterAll parseTask modelQueues idleTimeoutS history).pos := by
  induction history using List.reverseRecOn with
  | nil => exact scanned_zero []
  | append_singleton history v ih => exact ih.after v

/-- After every history the model that is warm is the one that the loader returned last, for the
name it goes by. The next batch is processed with the object that the loader returned last, for the
queue's own model, or that model does not load; and the queues before it have all been polled since
any other batch, for nothing. -/
theorem priority_and_model (parseTask : Body → Option AnyTask)
    (modelQueues : List (String × String)) (idleTimeoutS : ℚ) (history : List (Visit Body M)) :
    Holds (afterAll parseTask modelQueues idleTimeoutS history).warm
        (loads parseTask modelQueues idleTimeoutS (.start .cold) history) ∧
      ∀ (v : Visit Body M) (modelName queueName : String),
        modelQueues[(afterAll parseTask modelQueues idleTimeoutS history).pos]? =
            some (modelName, queueName) →
          parseBatch parseTask v.raw ≠ [] →
          Scanned parseTask modelQueues idleTimeoutS history
              (afterAll parseTask modelQueues idleTimeoutS history).pos ∧
            match (ensureModel v.env.loadModel
              (afterAll parseTask modelQueues idleTimeoutS history).warm modelName).1 with
            | .ok _ => ∃ m, (loads parseTask modelQueues idleTimeoutS (.start .cold)
                  (history ++ [v])).getLast? = some (modelName, m) ∧
                visit parseTask modelQueues idleTimeoutS v
                    (afterAll parseTask modelQueues idleTimeoutS history) =
                  processed parseTask v modelName m
            | .error _ => visit parseTask modelQueues idleTimeoutS v
                  (afterAll parseTask modelQueues idleTimeoutS history) =
                refused parseTask v := by
  have hholds := holds_afterAll parseTask modelQueues idleTimeoutS history
  refine ⟨hholds, fun v modelName queueName hq hb => ?_⟩
  refine ⟨scanned_afterAll parseTask modelQueues idleTimeoutS history, ?_⟩
  rw [loads_concat]
  exact hholds.visit idleTimeoutS hq hb

end GpuEmbedWorker
end RagPipeline
