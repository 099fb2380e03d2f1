import RagPipeline.Handlers.Embed

namespace RagPipeline
open Coro

section Fetch

variable (ω : EmbedOracle)

/-- What the store answers for a task that names chunks and a table. -/
def fetchAnswer (task : Obj EmbedTask) : Option (Except PyExc (List (String × String))) :=
  (fetchTable task.val).map fun table => ω (.fetchTexts task.id task.val.chunkIds table)

def fetched (task : Obj EmbedTask) : List Triple :=
  match fetchAnswer ω task with
  | some (.ok pairs) => List.map (fun p => ⟨task, p.1, p.2⟩) pairs
  | _ => []

/-- A missing chunk table does not fail its task, any other exception does. -/
def fetchFails (task : Obj EmbedTask) : Bool :=
  match fetchAnswer ω task with
  | some (.error (.chunkTableNotFound _)) => false
  | some (.error _) => true
  | _ => false

def allFetched (tasks : List (Obj EmbedTask)) : List Triple := tasks.flatMap (fetched ω)

def allFailed (tasks : List (Obj EmbedTask)) : List (Obj EmbedTask) :=
  tasks.filter (fetchFails ω)

theorem task_of_mem_fetched {task : Obj EmbedTask} {t : Triple} (h : t ∈ fetched ω task) :
    t.task = task := by
  unfold fetched at h
  split at h
  · obtain ⟨p, -, rfl⟩ := List.mem_map.mp h
    rfl
  · simp at h

theorem table_of_fetched {task : Obj EmbedTask} (h : fetched ω task ≠ []) :
    ∃ table, truthy task.val.chunkTable = some table := by
  cases ht : fetchTable task.val with
  | none => simp [fetched, fetchAnswer, ht] at h
  | some table =>
    unfold fetchTable at ht
    split_ifs at ht
    exact ⟨table, ht⟩

theorem not_fails_of_fetched {task : Obj EmbedTask} (h : fetched ω task ≠ []) :
    fetchFails ω task = false := by
  unfold fetched at h
  unfold fetchFails
  split at h
  next hs => rw [hs]
  next => exact absurd rfl h

theorem mem_allFetched {tasks : List (Obj EmbedTask)} {t : Triple} :
    t ∈ allFetched ω tasks ↔ t.task ∈ tasks ∧ t ∈ fetched ω t.task := by
  rw [allFetched, List.mem_flatMap]
  constructor
  · rintro ⟨task, hm, ht⟩
    obtain rfl := task_of_mem_fetched ω ht
    exact ⟨hm, ht⟩
  · rintro ⟨hm, ht⟩
    exact ⟨t.task, hm, ht⟩

end Fetch

section FetchRun

variable {σ : Type} {w : World EmbedOp EmbedOp.Ans PyExc σ} {s : σ}

theorem run_fetchTask (hread : ∀ c ids t, (w (.fetchTexts c ids t) s).2 = s)
    (task : Obj EmbedTask) :
    run w (fetchTask task) s =
      (.ok (fetched (answers w s) task, if fetchFails (answers w s) task then [task] else []),
        s) := by
  cases ht : fetchTable task.val with
  | none => simp [fetchTask, fetched, fetchFails, fetchAnswer, ht]
  | some table =>
    have hs := hread task.id task.val.chunkIds table
    simp only [fetchTask, fetched, fetchFails, fetchAnswer, ht, answers, Option.map_some,
      run_bind, run_capture, run_call, hs]
    -- each kind of exception has a branch of its own in the loop
    rcases (w (.fetchTexts task.id task.val.chunkIds table) s).1 with e | pairs
    · cases e <;> rfl
    · rfl

theorem run_fetchTriples (hread : ∀ c ids t, (w (.fetchTexts c ids t) s).2 = s)
    (tasks : List (Obj EmbedTask)) :
    run w (fetchTriples tasks) s =
      (.ok (allFetched (answers w s) tasks, allFailed (answers w s) tasks), s) := by
  induction tasks with
  | nil => rfl
  | cons task tasks ih =>
    rw [fetchTriples, run_bind, run_fetchTask hread]
    simp only [run_bind, ih, run_ret, allFetched, allFailed, List.flatMap_cons]
    cases hf : fetchFails (answers w s) task <;> simp [hf]

/-- What `embed_chunks` returns, by what the fetches and the encoder answer. -/
theorem run_embedChunks (hread : ∀ c ids t, (w (.fetchTexts c ids t) s).2 = s)
    (span : Option SpanIds) (tasks : List (Obj EmbedTask)) (modelName : String) :
    run w (embedChunks span tasks modelName) s =
      match allFetched (answers w s) tasks with
      | [] => (.ok (notFailed tasks (allFailed (answers w s) tasks),
          allFailed (answers w s) tasks), s)
      | first :: rest =>
        match w (.encode ((first :: rest).map Triple.text)) s with
        | (.error (.embeddingUnavailable _), s') =>
          (.ok (notFailed tasks (allFailed (answers w s) tasks),
            allFailed (answers w s) tasks), s')
        | (.error _, s') => (.ok ([], tasks), s')
        | (.ok vectors, s') =>
          match run w (storeEmbeddings (first :: rest) vectors modelName
            (propagateTrace span first.task.val.traceId)) s' with
          | (.ok _, s'') =>
            (.ok (seenTasks (first :: rest), allFailed (answers w s) tasks), s'')
          | (.error e, s'') => (.error e, s'') := by
  rw [embedChunks, run_bind, run_fetchTriples hread]
  cases allFetched (answers w s) tasks with
  | nil => rfl
  | cons first rest =>
    simp only [run_bind, run_capture, run_call]
    rcases w (.encode ((first :: rest).map Triple.text)) s with ⟨e | vectors, s'⟩
    · cases e <;> rfl
    · simp only [run_bind]
      rcases run w (storeEmbeddings (first :: rest) vectors modelName
        (propagateTrace span first.task.val.traceId)) s' with ⟨e | u, s''⟩ <;> rfl

end FetchRun

def chunkRow (modelName : String) (t : Triple) (v : Vec) : EmbeddingRow :=
  .chunk ⟨t.chunkId, modelName, v, (truthy t.task.val.chunkTable).getD ""⟩

/-- Every triple gets the vector at its own position, as long as there are enough of them. -/
theorem embeddingRows_eq {modelName : String} {vectors : List Vec} {ts : List Triple}
    (htab : ∀ t ∈ ts, (truthy t.task.val.chunkTable).isSome) {i : ℕ} (hi : i ≤ vectors.length) :
    embeddingRows modelName vectors i ts =
      if i + ts.length ≤ vectors.length then
        .ok (List.zipWith (chunkRow modelName) ts (vectors.drop i))
      else .error (.other "list index out of range") := by
  induction ts generalizing i with
  | nil => simp [embeddingRows, hi]
  | cons t ts ih =>
    obtain ⟨table, ht⟩ := Option.isSome_iff_exists.mp (htab t (List.mem_cons_self ..))
    -- the triples run out first, or the vectors do
    rcases Nat.lt_or_ge i vectors.length with h | h
    · have hd : vectors.drop i = vectors[i] :: vectors.drop (i + 1) := List.drop_eq_getElem_cons h
      have hl : i + (t :: ts).length = i + 1 + ts.length := by simp only [List.length_cons]; omega
      simp only [embeddingRows, ht, vectorAt, List.getElem?_eq_getElem h,
        ih (fun u hu => htab u (List.mem_cons_of_mem _ hu)) h, hl, hd, List.zipWith_cons_cons]
      split_ifs <;> simp [chunkRow, ht]
    · have hl : ¬ i + (t :: ts).length ≤ vectors.length := by
        simp only [List.length_cons]
        omega
      rw [if_neg hl]
      simp [embeddingRows, ht, vectorAt, List.getElem?_eq_none h]

theorem foldl_addToGroup (ts : List Triple) (g : EventGroup) :
    ts.foldl (fun o x => some (addToGroup x o)) (some g) =
      some { g with chunkIds := g.chunkIds ++ ts.map Triple.chunkId } := by
  induction ts generalizing g with
  | nil => simp
  | cons t ts ih =>
    rw [List.foldl_cons, ih]
    simp [addToGroup]

/-- A group holds the chunks of its key in order and the meta data of the first of them. -/
theorem get?_eventGroups (triples : List Triple) (k : GroupKey) :
    (eventGroups triples).get? k =
      ((triples.filter (groupKey · = k)).head?).map fun t =>
        ⟨t.task.val.postTable, t.task.val.chunkTable,
          (triples.filter (groupKey · = k)).map Triple.chunkId⟩ := by
  rw [eventGroups, OrderedDict.get?_foldItems]
  cases triples.filter (groupKey · = k) with
  | nil => rfl
  | cons t ts =>
    rw [OrderedDict.get?_empty, List.foldl_cons, foldl_addToGroup]
    simp [addToGroup]

theorem mem_keys_eventGroups {triples : List Triple} {k : GroupKey} :
    k ∈ (eventGroups triples).keys ↔ ∃ t ∈ triples, groupKey t = k := by
  simp [eventGroups, OrderedDict.mem_keys_foldItems]

theorem groupEvent_isOk (modelName : String) (trace : Option String × Option String)
    (g : GroupKey × EventGroup) :
    (∃ e, groupEvent modelName trace g = .ok e) ↔
      g.1.1.isSome ∧ g.2.postTable.isSome ∧ g.2.chunkTable.isSome := by
  obtain ⟨⟨p, k⟩, ⟨t, c, ids⟩⟩ := g
  cases p <;> cases t <;> cases c <;> simp [groupEvent, EmbeddingCompletedEvent.build]

section Returned

variable {ω : EmbedOracle} {tasks : List (Obj EmbedTask)}

theorem eval_publishGroups_isOk (modelName : String) (trace : Option String × Option String)
    (gs : List (GroupKey × EventGroup)) :
    (eval ω (publishGroups modelName trace gs)).isOk ↔
      ∀ g ∈ gs, ∃ e, groupEvent modelName trace g = .ok e ∧
        (ω (.publish (.embeddingCompleted e))).isOk := by
  induction gs with
  | nil => simp [publishGroups]
  | cons g gs ih =>
    rw [List.forall_mem_cons, ← ih, publishGroups, eval_bind, eval_ofExcept]
    rcases groupEvent modelName trace g with e | event
    · simp
    · cases hp : ω (.publish (.embeddingCompleted event)) <;> simp [eval_bind, hp]

/-- The steps after a successful `encode` that have to go well. -/
theorem eval_storeEmbeddings_isOk {triples : List Triple}
    (htab : ∀ t ∈ triples, (truthy t.task.val.chunkTable).isSome) (vectors : List Vec)
    (modelName : String) (trace : Option String × Option String) :
    (eval ω (storeEmbeddings triples vectors modelName trace)).isOk ↔
      triples.length ≤ vectors.length ∧
      (ω (.saveBatch (List.zipWith (chunkRow modelName) triples vectors))).isOk ∧
      ∀ g ∈ (eventGroups triples).entries, ∃ e, groupEvent modelName trace g = .ok e ∧
        (ω (.publish (.embeddingCompleted e))).isOk := by
  rw [storeEmbeddings, eval_bind, eval_ofExcept, embeddingRows_eq htab (Nat.zero_le _),
    Nat.zero_add, List.drop_zero]
  split_ifs with hl
  · simp only [hl, true_and, eval_bind, eval_call, ← eval_publishGroups_isOk]
    cases hs : ω (.saveBatch (List.zipWith (chunkRow modelName) triples vectors)) <;> simp
  · simp [hl]

theorem isIn_iff {t : Obj EmbedTask} {l : List (Obj EmbedTask)} :
    t.isIn l = true ↔ ∃ f ∈ l, f.val = t.val := by
  simp [Obj.isIn]

theorem notFailed_disjoint (l : List (Obj EmbedTask)) : (notFailed tasks l).Disjoint l := by
  intro t ht hl
  have := (List.mem_filter.mp ht).2
  rw [isIn_iff.mpr ⟨t, hl, rfl⟩] at this
  simp at this

theorem seenTasks_subset {triples : List Triple} :
    seenTasks triples ⊆ triples.map Triple.task := OrderedDict.values_indexBy_subset _ _

theorem mem_seenTasks (hnd : (tasks.map Obj.id).Nodup) {t : Obj EmbedTask} :
    t ∈ seenTasks (allFetched ω tasks) ↔ t ∈ tasks ∧ fetched ω t ≠ [] := by
  have hsub : ∀ u ∈ (allFetched ω tasks).map Triple.task, u ∈ tasks ∧ fetched ω u ≠ [] := by
    intro u hu
    obtain ⟨x, hx, rfl⟩ := List.mem_map.mp hu
    obtain ⟨hm, hf⟩ := (mem_allFetched ω).mp hx
    exact ⟨hm, List.ne_nil_of_mem hf⟩
  -- the dictionary is keyed by identity, which tells the tasks of one batch apart
  refine ⟨fun h => hsub t (seenTasks_subset h), fun ⟨hm, hf⟩ => ?_⟩
  obtain ⟨x, hx⟩ := List.exists_mem_of_ne_nil _ hf
  have hxt := task_of_mem_fetched ω hx
  have hxa : x ∈ allFetched ω tasks := (mem_allFetched ω).mpr (by rw [hxt]; exact ⟨hm, hx⟩)
  obtain ⟨u, hu, hid⟩ := OrderedDict.exists_mem_values_indexBy Obj.id
    (List.mem_map.mpr ⟨x, hxa, hxt⟩)
  obtain rfl := List.inj_on_of_nodup_map hnd (hsub u (seenTasks_subset hu)).1 hm hid
  exact hu

theorem nodup_seenTasks (triples : List Triple) : (seenTasks triples).Nodup :=
  (OrderedDict.nodup_values_indexBy Obj.id _).of_map

theorem seenTasks_disjoint (hnd : (tasks.map Obj.id).Nodup) :
    (seenTasks (allFetched ω tasks)).Disjoint (allFailed ω tasks) := by
  intro t ht hf
  have h := not_fails_of_fetched ω ((mem_seenTasks hnd).mp ht).2
  rw [(List.mem_filter.mp hf).2] at h
  exact absurd h (by simp)

theorem eval_embedChunks (ω : EmbedOracle) (span : Option SpanIds) (tasks : List (Obj EmbedTask))
    (modelName : String) :
    eval ω (embedChunks span tasks modelName) =
      match allFetched ω tasks with
      | [] => .ok (notFailed tasks (allFailed ω tasks), allFailed ω tasks)
      | first :: rest =>
        match ω (.encode ((first :: rest).map Triple.text)) with
        | .error (.embeddingUnavailable _) =>
          .ok (notFailed tasks (allFailed ω tasks), allFailed ω tasks)
        | .error _ => .ok ([], tasks)
        | .ok vectors =>
          (eval ω (storeEmbeddings (first :: rest) vectors modelName
            (propagateTrace span first.task.val.traceId))).map fun _ =>
              (seenTasks (first :: rest), allFailed ω tasks) := by
  rw [eval, run_embedChunks fun _ _ _ => rfl]
  simp only [answers_steady]
  cases allFetched ω tasks with
  | nil => rfl
  | cons first rest =>
    simp only [steady]
    rcases ω (.encode ((first :: rest).map Triple.text)) with e | vectors
    · cases e <;> rfl
    · simp only [eval]
      rcases run (steady ω) (storeEmbeddings (first :: rest) vectors modelName
        (propagateTrace span first.task.val.traceId)) () with ⟨e | u, v⟩ <;> rfl

theorem embedChunks_returned (hnd : (tasks.map Obj.id).Nodup) {span : Option SpanIds}
    {modelName : String} {ok failed : List (Obj EmbedTask)}
    (h : eval ω (embedChunks span tasks modelName) = .ok (ok, failed)) :
    (ok ++ failed).Nodup ∧ ok ++ failed ⊆ tasks := by
  have ht : tasks.Nodup := hnd.of_map
  have hf : (allFailed ω tasks).Nodup ∧ allFailed ω tasks ⊆ tasks :=
    ⟨ht.filter _, List.filter_sublist.subset⟩
  have hn : (notFailed tasks (allFailed ω tasks) ++ allFailed ω tasks).Nodup ∧
      notFailed tasks (allFailed ω tasks) ++ allFailed ω tasks ⊆ tasks :=
    ⟨(ht.filter _).append hf.1 (notFailed_disjoint _),
      List.append_subset.mpr ⟨List.filter_sublist.subset, hf.2⟩⟩
  rw [eval_embedChunks] at h
  split at h
  next => cases h; exact hn
  next first rest hfr =>
    split at h
    next => cases h; exact hn
    next => cases h; exact ⟨by simpa using ht, by simp⟩
    next vectors _ =>
      rw [← hfr] at h
      rcases hs : eval ω (storeEmbeddings (allFetched ω tasks) vectors modelName
        (propagateTrace span first.task.val.traceId)) with e | u
      · simp [hs, Except.map] at h
      · rw [hs] at h
        cases h
        exact ⟨(nodup_seenTasks _).append hf.1 (seenTasks_disjoint hnd),
          List.append_subset.mpr ⟨fun t hm => ((mem_seenTasks hnd).mp hm).1, hf.2⟩⟩

end Returned

section Keeps

variable (ω : EmbedOracle) (tasks : List (Obj EmbedTask))

def ToldApart : Prop :=
  ∀ t ∈ tasks, fetchFails ω t = false → ∀ f ∈ tasks, fetchFails ω f = true → f.val ≠ t.val

/-- Every task with rows names its post, and the first task of its group the post's table. -/
def EventsBuild : Prop :=
  ∀ t ∈ tasks, fetched ω t ≠ [] → t.val.postId.isSome ∧
    ∀ u ∈ tasks.find? (fun u => fetched ω u ≠ [] ∧ taskKey u.val = taskKey t.val),
      u.val.postTable.isSome

/-- By what `encode` came to. -/
def KeepsAfter : Except PyExc (List Vec) → Prop
  | .error (.embeddingUnavailable _) => ToldApart ω tasks
  | .error _ => True
  | .ok _ => (∀ t ∈ tasks, fetchFails ω t = false → fetched ω t ≠ []) ∧ EventsBuild ω tasks

/-- What the dependencies must answer for `embed_chunks` to return every task it was given. -/
def KeepsEveryTask : Prop :=
  if ∀ t ∈ tasks, fetched ω t = [] then ToldApart ω tasks
  else KeepsAfter ω tasks (ω (.encode ((allFetched ω tasks).map Triple.text)))

instance : Decidable (ToldApart ω tasks) := by
  unfold ToldApart
  infer_instance

instance : Decidable (EventsBuild ω tasks) := by
  unfold EventsBuild
  infer_instance

instance : DecidablePred (KeepsAfter ω tasks)
  | .error (.embeddingUnavailable _) => inferInstanceAs (Decidable (ToldApart ω tasks))
  | .error (.chunkTableNotFound _) => .isTrue trivial
  | .error (.amqpError _) => .isTrue trivial
  | .error (.other _) => .isTrue trivial
  | .ok _ => inferInstanceAs (Decidable (_ ∧ EventsBuild ω tasks))

instance : Decidable (KeepsEveryTask ω tasks) := by
  unfold KeepsEveryTask
  infer_instance

/-- After a successful `encode`: a vector for every text, and neither the write nor the publish of
an event raises. -/
def StoreWorks (span : Option SpanIds) (modelName : String) : Prop :=
  ∀ first ∈ (allFetched ω tasks).head?,
    ∀ vectors, ω (.encode ((allFetched ω tasks).map Triple.text)) = .ok vectors →
      (allFetched ω tasks).length ≤ vectors.length ∧
      (ω (.saveBatch (List.zipWith (chunkRow modelName) (allFetched ω tasks) vectors))).isOk ∧
      ∀ g ∈ (eventGroups (allFetched ω tasks)).entries, ∀ e,
        groupEvent modelName (propagateTrace span first.task.val.traceId) g = .ok e →
          (ω (.publish (.embeddingCompleted e))).isOk

variable {ω tasks}

theorem subset_notFailed_iff :
    tasks ⊆ notFailed tasks (allFailed ω tasks) ++ allFailed ω tasks ↔ ToldApart ω tasks := by
  have hmem : ∀ t, t ∈ notFailed tasks (allFailed ω tasks) ++ allFailed ω tasks ↔
      t ∈ tasks ∧ (fetchFails ω t = false →
        ∀ f ∈ tasks, fetchFails ω f = true → f.val ≠ t.val) := by
    intro t
    rw [List.mem_append, notFailed, allFailed, List.mem_filter, List.mem_filter,
      Bool.not_eq_true', ← Bool.not_eq_true, isIn_iff]
    simp only [List.mem_filter, not_exists, not_and, and_imp]
    cases fetchFails ω t
    · simp
    · simpa using fun (h : t ∈ tasks) _ => h
  exact ⟨fun h t ht => ((hmem t).mp (h ht)).2, fun h t ht => (hmem t).mpr ⟨ht, h t ht⟩⟩

theorem subset_seenTasks_iff (hnd : (tasks.map Obj.id).Nodup) :
    tasks ⊆ seenTasks (allFetched ω tasks) ++ allFailed ω tasks ↔
      ∀ t ∈ tasks, fetchFails ω t = false → fetched ω t ≠ [] := by
  constructor
  · intro h t ht hf
    rcases List.mem_append.mp (h ht) with hs | hs
    · exact ((mem_seenTasks hnd).mp hs).2
    · exact absurd (List.mem_filter.mp hs).2 (by simp [hf])
  · intro h t ht
    cases hf : fetchFails ω t with
    | false => exact List.mem_append_left _ ((mem_seenTasks hnd).mpr ⟨ht, h t ht hf⟩)
    | true => exact List.mem_append_right _ (List.mem_filter.mpr ⟨ht, hf⟩)

theorem find?_fetched (t : Obj EmbedTask) (k : GroupKey) :
    ((fetched ω t).find? (groupKey · = k)).map Triple.task =
      if fetched ω t ≠ [] ∧ taskKey t.val = k then some t else none := by
  cases hf : fetched ω t with
  | nil => simp
  | cons x xs =>
    have hx : ∀ y ∈ x :: xs, y.task = t := fun y hy => task_of_mem_fetched ω (hf ▸ hy)
    by_cases hk : taskKey t.val = k
    · simp [groupKey, hx x (List.mem_cons_self ..), hk]
    · have hnone : (x :: xs).find? (groupKey · = k) = none :=
        List.find?_eq_none.mpr fun y hy => by simp [groupKey, hx y hy, hk]
      simp [hnone, hk]

variable (ω tasks) in
/-- The first triple of a key comes from the first task of that key that has rows. -/
theorem find?_allFetched (k : GroupKey) :
    ((allFetched ω tasks).find? (groupKey · = k)).map Triple.task =
      tasks.find? fun u => fetched ω u ≠ [] ∧ taskKey u.val = k := by
  induction tasks with
  | nil => rfl
  | cons t ts ih =>
    have hcons : allFetched ω (t :: ts) = fetched ω t ++ allFetched ω ts := rfl
    rw [hcons, List.find?_append, Option.map_or, ih, find?_fetched, List.find?_cons]
    split_ifs with h <;> simp [h]

theorem groupEvent_isOk_of_get? {k : GroupKey} {g : EventGroup} {modelName : String}
    {trace : Option String × Option String}
    (h : (eventGroups (allFetched ω tasks)).get? k = some g) :
    (∃ e, groupEvent modelName trace (k, g) = .ok e) ↔
      k.1.isSome ∧ ∀ u, tasks.find? (fun u => fetched ω u ≠ [] ∧ taskKey u.val = k) = some u →
        u.val.postTable.isSome := by
  rw [get?_eventGroups, List.head?_filter] at h
  obtain ⟨t, ht, rfl⟩ := Option.map_eq_some_iff.mp h
  have hk : groupKey t = k := by simpa using List.find?_some ht
  have htask := find?_allFetched ω tasks k
  rw [ht, Option.map_some] at htask
  obtain ⟨hm, hf⟩ := (mem_allFetched ω).mp (List.mem_of_find?_eq_some ht)
  obtain ⟨table, htab⟩ := table_of_fetched ω (List.ne_nil_of_mem hf)
  have hc : t.task.val.chunkTable.isSome := by
    cases hct : t.task.val.chunkTable with
    | none => simp [truthy, hct] at htab
    | some c => rfl
  rw [groupEvent_isOk, ← htask]
  simp [hc]

theorem eventsBuild_iff (modelName : String) (trace : Option String × Option String) :
    (∀ g ∈ (eventGroups (allFetched ω tasks)).entries,
      ∃ e, groupEvent modelName trace g = .ok e) ↔ EventsBuild ω tasks := by
  constructor
  · intro h t ht hf
    -- a task with rows has put its key into the dictionary
    obtain ⟨x, hx⟩ := List.exists_mem_of_ne_nil _ hf
    have hxt := task_of_mem_fetched ω hx
    have hk : taskKey t.val ∈ (eventGroups (allFetched ω tasks)).keys :=
      mem_keys_eventGroups.mpr
        ⟨x, (mem_allFetched ω).mpr (by rw [hxt]; exact ⟨ht, hx⟩), by rw [groupKey, hxt]⟩
    obtain ⟨⟨k, g⟩, hg, rfl⟩ := List.mem_map.mp hk
    exact (groupEvent_isOk_of_get? (OrderedDict.get?_eq_some.mpr hg)).mp (h _ hg)
  · rintro h ⟨k, g⟩ hg
    obtain ⟨x, hx, rfl⟩ := mem_keys_eventGroups.mp (List.mem_map.mpr ⟨_, hg, rfl⟩)
    obtain ⟨hm, hf⟩ := (mem_allFetched ω).mp hx
    exact (groupEvent_isOk_of_get? (OrderedDict.get?_eq_some.mpr hg)).mpr
      (h x.task hm (List.ne_nil_of_mem hf))

theorem storeWorks_of_reliable (hsave : ∀ rows, (ω (.saveBatch rows)).isOk)
    (hpub : ∀ e, (ω (.publish e)).isOk)
    (hlen : ∀ texts vectors, ω (.encode texts) = .ok vectors → vectors.length = texts.length)
    (span : Option SpanIds) (modelName : String) : StoreWorks ω tasks span modelName := by
  intro first _ vectors hv
  refine ⟨?_, hsave _, fun _ _ _ _ => hpub _⟩
  rw [hlen _ _ hv, List.length_map]

/-- `storeEmbeddings` returns when the store works and the events can be built. -/
theorem eval_storeEmbeddings_fetched {first : Triple} {rest : List Triple} {vectors : List Vec}
    (hfr : allFetched ω tasks = first :: rest)
    (henc : ω (.encode ((first :: rest).map Triple.text)) = .ok vectors)
    (span : Option SpanIds) (modelName : String) :
    (eval ω (storeEmbeddings (first :: rest) vectors modelName
      (propagateTrace span first.task.val.traceId))).isOk ↔
      EventsBuild ω tasks ∧ StoreWorks ω tasks span modelName := by
  have htab : ∀ t ∈ first :: rest, (truthy t.task.val.chunkTable).isSome := by
    intro t ht
    rw [← hfr] at ht
    obtain ⟨table, h⟩ := table_of_fetched ω (List.ne_nil_of_mem ((mem_allFetched ω).mp ht).2)
    simp [h]
  rw [eval_storeEmbeddings_isOk htab,
    ← eventsBuild_iff modelName (propagateTrace span first.task.val.traceId), StoreWorks, hfr]
  constructor
  · rintro ⟨hl, hs, hg⟩
    refine ⟨fun g hm => (hg g hm).imp fun _ h => h.1, fun f hf vs hvs => ?_⟩
    obtain rfl : first = f := by simpa using hf
    obtain rfl : vectors = vs := Except.ok.inj (henc.symm.trans hvs)
    refine ⟨hl, hs, fun g hm e he => ?_⟩
    obtain ⟨e', he', hp⟩ := hg g hm
    obtain rfl : e' = e := Except.ok.inj (he'.symm.trans he)
    exact hp
  · rintro ⟨hb, hw⟩
    obtain ⟨hl, hs, hg⟩ := hw first (by simp) vectors henc
    exact ⟨hl, hs, fun g hm => (hb g hm).imp fun e he => ⟨he, hg g hm e he⟩⟩

/-- What is returned has no duplicates, so it is a permutation when nothing is missing. -/
theorem embedChunks_perm_iff_of_ok (hnd : (tasks.map Obj.id).Nodup) {span : Option SpanIds}
    {modelName : String} {ok failed : List (Obj EmbedTask)}
    (h : eval ω (embedChunks span tasks modelName) = .ok (ok, failed)) :
    (∃ ok failed, eval ω (embedChunks span tasks modelName) = .ok (ok, failed) ∧
      (ok ++ failed).Perm tasks) ↔ tasks ⊆ ok ++ failed := by
  obtain ⟨hn, hs⟩ := embedChunks_returned hnd h
  constructor
  · rintro ⟨ok', failed', h', hp⟩
    obtain ⟨rfl, rfl⟩ := Prod.mk.inj (Except.ok.inj (h'.symm.trans h))
    exact hp.symm.subset
  · intro ht
    have hperm : (ok ++ failed).Perm tasks := (List.perm_ext_iff_of_nodup hn hnd.of_map).mpr
      fun _ => ⟨fun hm => hs hm, fun hm => ht hm⟩
    exact ⟨ok, failed, h, hperm⟩

theorem embedChunks_perm_iff_of_encoded (hnd : (tasks.map Obj.id).Nodup) {first : Triple}
    {rest : List Triple} {vectors : List Vec} (hfr : allFetched ω tasks = first :: rest)
    (henc : ω (.encode ((first :: rest).map Triple.text)) = .ok vectors)
    (span : Option SpanIds) (modelName : String) :
    (∃ ok failed, eval ω (embedChunks span tasks modelName) = .ok (ok, failed) ∧
      (ok ++ failed).Perm tasks) ↔
      KeepsAfter ω tasks (.ok vectors) ∧ StoreWorks ω tasks span modelName := by
  have hstore := eval_storeEmbeddings_fetched hfr henc span modelName
  have heval := eval_embedChunks ω span tasks modelName
  simp only [hfr, henc] at heval
  rw [KeepsAfter, and_assoc]
  rcases hs : eval ω (storeEmbeddings (first :: rest) vectors modelName
    (propagateTrace span first.task.val.traceId)) with e | u
  · rw [hs] at heval hstore
    have hfail : ¬ (EventsBuild ω tasks ∧ StoreWorks ω tasks span modelName) := fun h => by
      simpa using hstore.mpr h
    rw [heval]
    simp [Except.map, hfail]
  · rw [hs] at heval hstore
    rw [embedChunks_perm_iff_of_ok hnd heval, ← hfr, subset_seenTasks_iff hnd,
      and_iff_left (hstore.mp rfl)]

/-- `embed_chunks` returns every task it was given, in one list or the other, exactly when its
dependencies answer well. -/
theorem embedChunks_perm_iff (hnd : (tasks.map Obj.id).Nodup) (span : Option SpanIds)
    (modelName : String) :
    (∃ ok failed, eval ω (embedChunks span tasks modelName) = .ok (ok, failed) ∧
      (ok ++ failed).Perm tasks) ↔
      KeepsEveryTask ω tasks ∧ StoreWorks ω tasks span modelName := by
  have hempty : allFetched ω tasks = [] ↔ ∀ t ∈ tasks, fetched ω t = [] :=
    List.flatMap_eq_nil_iff
  have heval := eval_embedChunks ω span tasks modelName
  cases hfr : allFetched ω tasks with
  | nil =>
    have hw : StoreWorks ω tasks span modelName := by simp [StoreWorks, hfr]
    rw [hfr] at heval
    rw [KeepsEveryTask, if_pos (hempty.mp hfr), embedChunks_perm_iff_of_ok hnd heval,
      subset_notFailed_iff]
    exact (and_iff_left hw).symm
  | cons first rest =>
    rw [KeepsEveryTask, if_neg fun h => by simp [hempty.mpr h] at hfr, hfr]
    cases henc : ω (.encode ((first :: rest).map Triple.text)) with
    | error e =>
      have hw : StoreWorks ω tasks span modelName := by
        intro f _ vs hvs
        rw [hfr, henc] at hvs
        cases hvs
      simp only [hfr, henc] at heval
      rw [and_iff_left hw]
      -- only a missing backend acks the tasks that it leaves unembedded
      cases e with
      | embeddingUnavailable msg =>
        rw [embedChunks_perm_iff_of_ok hnd heval, subset_notFailed_iff]
        exact Iff.rfl
      | chunkTableNotFound t => simp [embedChunks_perm_iff_of_ok hnd heval, KeepsAfter]
      | amqpError msg => simp [embedChunks_perm_iff_of_ok hnd heval, KeepsAfter]
      | other msg => simp [embedChunks_perm_iff_of_ok hnd heval, KeepsAfter]
    | ok vectors => exact embedChunks_perm_iff_of_encoded hnd hfr henc span modelName

end Keeps

end RagPipeline
