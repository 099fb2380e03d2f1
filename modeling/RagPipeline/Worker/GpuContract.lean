import RagPipeline.Handlers.Rerank
import RagPipeline.Worker.GpuSettlement

namespace RagPipeline
open Coro

namespace GpuEmbedWorker

variable {Body M : Type} {parseTask : Body → Option AnyTask}
  {modelQueues : List (String × String)} {idleTimeoutS : ℚ} {s : Loop M}
  {modelName queueName : String}

theorem mem_of_mem_parseBatch {raw : List (RawMessage Body)} {msg : WorkerMessage}
    (h : msg ∈ parseBatch parseTask raw) :
    ∃ m ∈ raw, parseTask m.body = some msg.task.val := by
  obtain ⟨p, hp, he⟩ := List.mem_filterMap.mp h
  obtain ⟨t, ht, rfl⟩ := Option.map_eq_some_iff.mp he
  exact ⟨p.1, List.fst_mem_of_mem_zipIdx hp, ht⟩

theorem processBatch_of_embed (env : Env M) (m : M) {batch : List WorkerMessage}
    (h : ∀ msg ∈ batch, ∃ t, msg.task.val = .embed t) :
    processBatch env.handlers (some m) batch modelName =
      processEmbedBatch env.handlers m batch modelName := by
  have hr : startsWithRank batch = false := by
    unfold startsWithRank
    split
    · simpa using h _ (List.mem_cons_self ..)
    · rfl
  simp [processBatch, hr]

/-- Every chunk asked for has a text, and the encoder, the store and the bus work. -/
def workingOracle : EmbedOracle
  | .fetchTexts _ ids _ => .ok (ids.map fun i => (i, "text"))
  | .encode texts => .ok (texts.map fun _ => [1])
  | .saveBatch _ => .ok ()
  | .publish _ => .ok ()

def workingEnv : Env Unit where
  loadModel _ := .ok ()
  chunksSpan := none
  querySpan _ := none
  embedConfigs := RagPipeline.embedConfigs
  embedChunks _ := workingOracle
  embedQuery _ _ := workingOracle
  rerank := none

def chunkEmbedTask (chunkIds : List String) : EmbedTask where
  taskId := "t"
  traceId := none
  parentSpanId := none
  sourceEventId := none
  taskType := .chunk
  modelName := "m"
  postId := some 1
  postTable := some "posts_main"
  chunkIds := chunkIds
  chunkTable := some "posts_main_chunks_body_m"
  query := none
  queryJobId := none

def chunkVisit (ids : List (List String)) : Visit AnyTask Unit where
  env := workingEnv
  raw := ids.zipIdx.map fun p => ⟨p.2, .embed (chunkEmbedTask p.1)⟩
  now := 0

/-- A poll of embed messages is settled, every message once, exactly when the model cannot be
loaded or `embed_chunks` keeps every chunk task of the batch. -/
theorem polled_settled_once_iff (hs : Reachable parseTask modelQueues idleTimeoutS s)
    (hq : modelQueues[s.pos]? = some (modelName, queueName)) (v : Visit Body M)
    (htags : (v.raw.map RawMessage.deliveryTag).Nodup)
    (hkind : ∀ m ∈ v.raw, ∀ t, parseTask m.body = some t → ∃ e, t = .embed e)
    (hsave : ∀ m rows, (v.env.embedChunks m (.saveBatch rows)).isOk)
    (hpub : ∀ m e, (v.env.embedChunks m (.publish e)).isOk)
    (hlen : ∀ m texts vectors, v.env.embedChunks m (.encode texts) = .ok vectors →
      vectors.length = texts.length) :
    (SettledOnce v.raw (visit parseTask modelQueues idleTimeoutS v s).settlements ↔
      ∀ m, modelFor v.env s.warm modelName = some m →
        KeepsEveryTask (v.env.embedChunks m) (chunkTasks (parseBatch parseTask v.raw))) ∧
    ∀ m span tasks, (tasks.map Obj.id).Nodup →
      ((∃ ok failed, eval (v.env.embedChunks m) (RagPipeline.embedChunks span tasks modelName) =
          .ok (ok, failed) ∧ (ok ++ failed).Perm tasks) ↔
        KeepsEveryTask (v.env.embedChunks m) tasks) := by
  have hstore : ∀ m tasks span, StoreWorks (v.env.embedChunks m) tasks span modelName :=
    fun m tasks span => storeWorks_of_reliable (hsave m) (hpub m) (hlen m) span modelName
  have hembed : ∀ msg ∈ parseBatch parseTask v.raw, ∃ t, msg.task.val = .embed t := by
    intro msg hmsg
    obtain ⟨m, hm, ht⟩ := mem_of_mem_parseBatch hmsg
    exact hkind m hm _ ht
  have hback : ∀ m, ComesBack v.env m (parseBatch parseTask v.raw) modelName ↔
      KeepsEveryTask (v.env.embedChunks m) (chunkTasks (parseBatch parseTask v.raw)) := by
    intro m
    rw [ComesBack, processBatch_of_embed v.env m hembed,
      processEmbedBatch_perm_iff (nodup_ids_parseBatch parseTask v.raw)]
    simp only [hstore, and_true]
    exact and_iff_right hembed
  refine ⟨?_, fun m span tasks hnd => ?_⟩
  · rw [settledOnce_visit_iff parseTask idleTimeoutS (consistent_of_reachable hs) hq v htags]
    simp only [hback]
    -- an empty batch keeps its tasks, there being none
    refine ⟨fun h => h.elim (fun hnil m _ => ?_) id, .inr⟩
    rw [hnil]
    simp [KeepsEveryTask, chunkTasks, ToldApart]
  · rw [embedChunks_perm_iff hnd]
    exact and_iff_left (hstore m tasks span)

/-- Reading the chunk `gone` fails. -/
def patchyOracle : EmbedOracle
  | .fetchTexts caller ids table =>
    if "gone" ∈ ids then .error (.other "connection lost")
    else workingOracle (.fetchTexts caller ids table)
  | op => workingOracle op

/-- Two tasks of one post, a task between them that cannot be read, and a body that is no task. -/
def patchyVisit : Visit (Option AnyTask) Unit where
  env := { workingEnv with embedChunks _ := patchyOracle }
  raw := [⟨0, some (.embed (chunkEmbedTask ["a", "b"]))⟩, ⟨1, none⟩,
    ⟨2, some (.embed (chunkEmbedTask ["gone"]))⟩, ⟨3, some (.embed (chunkEmbedTask ["c"]))⟩]
  now := 0

theorem embed_of_patchyVisit : ∀ m ∈ patchyVisit.raw, ∀ t, id m.body = some t →
    ∃ e, t = AnyTask.embed e := by
  intro m hm t ht
  simp only [patchyVisit, List.mem_cons, List.not_mem_nil, or_false] at hm
  obtain rfl | rfl | rfl | rfl := hm
  · exact ⟨_, (Option.some.inj ht).symm⟩
  · cases ht
  · exact ⟨_, (Option.some.inj ht).symm⟩
  · exact ⟨_, (Option.some.inj ht).symm⟩

theorem length_of_patchyOracle {texts : List String} {vectors : List Vec}
    (h : patchyOracle (.encode texts) = .ok vectors) : vectors.length = texts.length := by
  obtain rfl := Except.ok.inj h
  exact List.length_map ..

theorem polled_settled_once_iff_patchyVisit :
    SettledOnce patchyVisit.raw
      (visit id [("m", "q")] 300 patchyVisit (.start .cold)).settlements ∧
    ∃ ok failed, eval patchyOracle (RagPipeline.embedChunks none
        (chunkTasks (parseBatch id patchyVisit.raw)) "m") = .ok (ok, failed) ∧
      (ok ++ failed).Perm (chunkTasks (parseBatch id patchyVisit.raw)) := by
  have hstart : Reachable (M := Unit) id [("m", "q")] 300 (.start .cold) := .start
  have h := polled_settled_once_iff hstart (rfl : [("m", "q")][0]? = some ("m", "q")) patchyVisit
    (by decide) embed_of_patchyVisit (fun _ _ => rfl) (fun _ _ => rfl)
    fun _ _ _ => length_of_patchyOracle
  have hkeeps : ∀ m, KeepsEveryTask (patchyVisit.env.embedChunks m)
      (chunkTasks (parseBatch id patchyVisit.raw)) := by
    intro m
    cases m
    decide
  exact ⟨h.1.mpr fun m _ => hkeeps m, (h.2 () none _ (by decide)).mpr (hkeeps ())⟩

/-- A task without chunk ids is dropped as soon as another task of its batch has rows. -/
theorem chunk_without_ids_not_settled :
    ¬ SettledOnce (chunkVisit [["a"], []]).raw
      (visit some [("m", "q")] 300 (chunkVisit [["a"], []]) (.start .cold)).settlements := by
  unfold SettledOnce
  decide

/-- What the dependencies of a batch must answer for every message to come back. -/
def AnswersBatch (env : Env M) (m : M) (batch : List WorkerMessage) (modelName : String) : Prop :=
  if startsWithRank batch then
    ∃ rerank ∈ env.rerank, ∀ msg ∈ batch, ∃ t, msg.task.val = .searchRank t ∧
      RerankHandler.Answers (rerank m msg.task.id) t
  else
    (∀ msg ∈ batch, ∃ t, msg.task.val = .embed t) ∧
      KeepsEveryTask (env.embedChunks m) (chunkTasks batch) ∧
      StoreWorks (env.embedChunks m) (chunkTasks batch) env.chunksSpan modelName

theorem rerankMessage_isOk (ω : ℕ → JobOracle) (msg : WorkerMessage) :
    (rerankMessage (fun t => eval (ω t.id) (RerankHandler.handle t.val)) msg).isOk ↔
      ∃ t, msg.task.val = .searchRank t ∧ RerankHandler.Answers (ω msg.task.id) t := by
  unfold rerankMessage
  cases msg.task.val with
  | searchRank t => simp [RerankHandler.eval_handle_isOk]
  | _ => simp

theorem comesBack_iff (env : Env M) (m : M) {batch : List WorkerMessage}
    (hids : (batch.map fun m => m.task.id).Nodup) :
    ComesBack env m batch modelName ↔ AnswersBatch env m batch modelName := by
  simp only [ComesBack, AnswersBatch, processBatch]
  split_ifs with hr
  · simp only [processRerankBatch, Env.handlers, ← rerankMessage_isOk]
    cases env.rerank with
    | none => simp
    | some ω =>
      simp only [Option.map_some, Option.mem_def, Option.some.injEq, exists_eq_left',
        ← handleEach_isOk]
      cases hh : handleEach
          (rerankMessage fun t => eval (ω m t.id) (RerankHandler.handle t.val)) batch with
      | error e => simp
      | ok r => simpa using handleEach_perm hh
  · exact processEmbedBatch_perm_iff hids env m modelName

/-- The messages a visit takes from its queue; none when the scan is over. -/
def polled (modelQueues : List (String × String)) (v : Visit Body M) (s : Loop M) :
    List (RawMessage Body) :=
  if s.pos < modelQueues.length then v.raw else []

/-- No exception leaves the loop, and every polled message is settled for good. -/
structure FailureContract (raw : List (RawMessage Body)) (r : Visited M) : Prop where
  goesOn : r.next.isOk
  settled : SettledOnce raw r.settlements
  final : ∀ t, Settlement.nack t true ∉ r.settlements

def AnswersVisit (parseTask : Body → Option AnyTask) (modelQueues : List (String × String))
    (v : Visit Body M) (s : Loop M) : Prop :=
  ∀ modelName queueName, modelQueues[s.pos]? = some (modelName, queueName) →
    parseBatch parseTask v.raw = [] ∨ ∀ m, modelFor v.env s.warm modelName = some m →
      AnswersBatch v.env m (parseBatch parseTask v.raw) modelName

theorem not_requeued_settle (r : Outcome) (t : ℕ) : Settlement.nack t true ∉ settle r := by
  simp [settle]

theorem not_requeued_visit (v : Visit Body M) (t : ℕ) :
    Settlement.nack t true ∉ (visit parseTask modelQueues idleTimeoutS v s).settlements := by
  have hp : Settlement.nack t true ∉ parseNacks parseTask v.raw := by simp [parseNacks]
  unfold visit
  split
  · simp
  next modelName _ _ =>
    split
    · exact hp
    next msg msgs _ =>
      -- neither the handlers' lists nor a failed load requeue anything
      have hd : ∀ done, (handleBatch v.env s.warm modelName (msg :: msgs)).1 = .ok done →
          Settlement.nack t true ∉ done := by
        intro done h
        unfold handleBatch at h
        split at h
        next w' _ =>
          cases hb : processBatch v.env.handlers w'.model (msg :: msgs) modelName with
          | error e => simp [hb, Except.map] at h
          | ok r =>
            rw [hb] at h
            exact Except.ok.inj h ▸ not_requeued_settle r t
        next => exact Except.ok.inj h ▸ not_requeued_settle _ t
      split
      next done w hh => simpa [hp] using hd done (by rw [hh])
      next => exact hp

theorem visit_next_isOk (hq : modelQueues[s.pos]? = some (modelName, queueName))
    (v : Visit Body M) (hs : s.warm.Consistent)
    (h : parseBatch parseTask v.raw = [] ∨ ∀ m, modelFor v.env s.warm modelName = some m →
      ComesBack v.env m (parseBatch parseTask v.raw) modelName) :
    (visit parseTask modelQueues idleTimeoutS v s).next.isOk := by
  cases hb : parseBatch parseTask v.raw with
  | nil => rw [visit_eq_of_nil hq v hb]; rfl
  | cons msg msgs =>
    have hok : (handleBatch v.env s.warm modelName (msg :: msgs)).1.isOk := by
      cases hm : modelFor v.env s.warm modelName with
      | none => rw [handleBatch_of_modelFor_none hs hm]; rfl
      | some m =>
        obtain ⟨r, hr, -⟩ := h.resolve_left (by simp [hb]) m hm
        rw [hb] at hr
        rw [handleBatch_of_modelFor hm, hr]
        rfl
    rw [visit_eq hq v hb]
    rcases hh : handleBatch v.env s.warm modelName (msg :: msgs) with ⟨e | done, w⟩
    · simp [hh] at hok
    · rfl

theorem failureContract_visit_iff (hs : s.warm.Consistent) (v : Visit Body M)
    (htags : (v.raw.map RawMessage.deliveryTag).Nodup) :
    FailureContract (polled modelQueues v s)
        (visit parseTask modelQueues idleTimeoutS v s) ↔
      AnswersVisit parseTask modelQueues v s := by
  have hids := nodup_ids_parseBatch parseTask v.raw
  cases hq : modelQueues[s.pos]? with
  | none =>
    have hpos : ¬ s.pos < modelQueues.length := by simpa using hq
    have hv : visit parseTask modelQueues idleTimeoutS v s =
        ⟨[], .ok (idle idleTimeoutS v.now s)⟩ := by simp only [visit, hq]
    have hc : FailureContract (polled modelQueues v s) (visit parseTask modelQueues
        idleTimeoutS v s) := by
      rw [hv, polled, if_neg hpos]
      exact ⟨rfl, by simp [SettledOnce], by simp⟩
    simp [hc, AnswersVisit, hq]
  | some q =>
    obtain ⟨modelName, queueName⟩ := q
    have hpos : s.pos < modelQueues.length := (List.getElem?_eq_some_iff.mp hq).1
    have hiff := settledOnce_visit_iff parseTask idleTimeoutS hs hq v htags
    have hans : AnswersVisit parseTask modelQueues v s ↔ (parseBatch parseTask v.raw = [] ∨
        ∀ m, modelFor v.env s.warm modelName = some m →
          ComesBack v.env m (parseBatch parseTask v.raw) modelName) := by
      simp [AnswersVisit, hq, comesBack_iff _ _ hids]
    rw [hans, polled, if_pos hpos]
    constructor
    · exact fun h => hiff.mp h.settled
    · exact fun h => ⟨visit_next_isOk hq v hs h, hiff.mpr h, not_requeued_visit v⟩

def KeepsContract (parseTask : Body → Option AnyTask) (modelQueues : List (String × String))
    (idleTimeoutS : ℚ) : List (Visit Body M) → Loop M → Prop
  | [], _ => True
  | v :: vs, s =>
    FailureContract (polled modelQueues v s) (visit parseTask modelQueues idleTimeoutS v s) ∧
      ∀ s', (visit parseTask modelQueues idleTimeoutS v s).next = .ok s' →
        KeepsContract parseTask modelQueues idleTimeoutS vs s'

/-- Every visit of the run, in the loop it meets, has dependencies that answer. -/
def AnswersRun (parseTask : Body → Option AnyTask) (modelQueues : List (String × String))
    (idleTimeoutS : ℚ) : List (Visit Body M) → Loop M → Prop
  | [], _ => True
  | v :: vs, s =>
    AnswersVisit parseTask modelQueues v s ∧
      ∀ s', (visit parseTask modelQueues idleTimeoutS v s).next = .ok s' →
        AnswersRun parseTask modelQueues idleTimeoutS vs s'

/-- The worker keeps its failure contract over a run exactly when the dependencies answer at
every visit of it. -/
theorem keepsContract_iff (hs : Reachable parseTask modelQueues idleTimeoutS s)
    (vs : List (Visit Body M)) (htags : ∀ v ∈ vs, (v.raw.map RawMessage.deliveryTag).Nodup) :
    KeepsContract parseTask modelQueues idleTimeoutS vs s ↔
      AnswersRun parseTask modelQueues idleTimeoutS vs s := by
  induction vs generalizing s with
  | nil => exact Iff.rfl
  | cons v vs ih =>
    rw [List.forall_mem_cons] at htags
    -- the loop after the visit is reachable again, so the rest is the induction hypothesis
    refine and_congr (failureContract_visit_iff (consistent_of_reachable hs) v htags.1) ?_
    exact forall₂_congr fun s' hs' => ih (.step v hs hs') htags.2

def failingOracle : EmbedOracle
  | .encode _ => .error (.other "out of memory")
  | op => patchyOracle op

/-- The same poll, with a model that fails on every text. -/
def failingVisit : Visit (Option AnyTask) Unit where
  env := { workingEnv with embedChunks _ := failingOracle }
  raw := patchyVisit.raw
  now := 1

theorem answersBatch_patchyVisit {ω : EmbedOracle} (env : Env Unit)
    (hkeeps : KeepsEveryTask ω (chunkTasks (parseBatch id patchyVisit.raw)))
    (hsave : ∀ rows, (ω (.saveBatch rows)).isOk) (hpub : ∀ e, (ω (.publish e)).isOk)
    (hlen : ∀ texts vectors, ω (.encode texts) = .ok vectors → vectors.length = texts.length) :
    AnswersBatch { env with embedChunks _ := ω } () (parseBatch id patchyVisit.raw) "m" := by
  rw [AnswersBatch, if_neg (by decide)]
  refine ⟨?_, hkeeps, storeWorks_of_reliable hsave hpub hlen _ _⟩
  intro msg hmsg
  obtain ⟨r, hr, ht⟩ := mem_of_mem_parseBatch hmsg
  exact embed_of_patchyVisit r hr _ ht

theorem keepsContract_iff_failing :
    KeepsContract id [("m", "q")] 300 [patchyVisit, failingVisit] (.start .cold) := by
  refine (keepsContract_iff .start [patchyVisit, failingVisit] (by decide)).mpr ⟨?_, ?_⟩
  · intro modelName queueName hq
    obtain ⟨rfl, rfl⟩ := Prod.mk.inj (Option.some.inj hq)
    exact .inr fun _ _ => answersBatch_patchyVisit workingEnv (by decide) (fun _ => rfl)
      (fun _ => rfl) fun _ _ => length_of_patchyOracle
  · intro s' hs'
    obtain rfl := Except.ok.inj hs'
    refine ⟨?_, fun _ _ => trivial⟩
    intro modelName queueName hq
    obtain ⟨rfl, rfl⟩ := Prod.mk.inj (Option.some.inj hq)
    refine .inr fun _ _ => answersBatch_patchyVisit workingEnv (by decide) (fun _ => rfl)
      (fun _ => rfl) fun _ _ h => ?_
    cases h

/-- The store refuses every write. -/
def readOnlyOracle : EmbedOracle
  | .saveBatch _ => .error (.other "read-only transaction")
  | op => workingOracle op

/-- An exception of `save_batch` leaves `_run_inner` with the batch unsettled. -/
theorem save_failure_breaks_contract :
    ¬ KeepsContract some [("m", "q")] 300
      [{ chunkVisit [["a"]] with env := { workingEnv with embedChunks _ := readOnlyOracle } }]
      (.start .cold) := by
  rintro ⟨h, -⟩
  exact absurd h.goesOn (by decide)

end GpuEmbedWorker
end RagPipeline
