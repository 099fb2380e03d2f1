import RagPipeline.Handlers.EmbedChunks
import RagPipeline.Worker.Gpu

namespace RagPipeline
open Coro

namespace GpuEmbedWorker

variable {Body M : Type} {parseTask : Body → Option AnyTask}

def Warm.Consistent (w : Warm M) : Prop := w.model.isSome = w.currentModelName.isSome

theorem consistent_unloadModel {w : Warm M} (h : w.Consistent) : (unloadModel w).Consistent := by
  unfold unloadModel
  split
  · exact h
  · rfl

theorem consistent_ensureModel {loadModel : String → Except PyExc M} {w : Warm M}
    {modelName : String} (h : w.Consistent) :
    (ensureModel loadModel w modelName).2.Consistent := by
  unfold ensureModel
  split_ifs
  · exact h
  · cases loadModel modelName with
    | ok m => rfl
    | error e => exact consistent_unloadModel h

theorem handleBatch_snd (env : Env M) (w : Warm M) (modelName : String)
    (batch : List WorkerMessage) :
    (handleBatch env w modelName batch).2 = (ensureModel env.loadModel w modelName).2 := by
  unfold handleBatch
  rcases ensureModel env.loadModel w modelName with ⟨e | u, w'⟩ <;> rfl

/-- What a visit does to the resident model, whether it goes on or raises. -/
theorem visit_warm {modelQueues : List (String × String)} {idleTimeoutS : ℚ} (v : Visit Body M)
    (s : Loop M) {w : Warm M}
    (h : (∃ s', (visit parseTask modelQueues idleTimeoutS v s).next = .ok s' ∧ s'.warm = w) ∨
      ∃ e, (visit parseTask modelQueues idleTimeoutS v s).next = .error (e, w)) :
    w = s.warm ∨ w = unloadModel s.warm ∨
      ∃ modelName, w = (ensureModel v.env.loadModel s.warm modelName).2 := by
  unfold visit at h
  split at h
  · obtain ⟨s', hs', rfl⟩ := h.resolve_right (by simp)
    obtain rfl := Except.ok.inj hs'
    unfold idle
    split
    · exact .inl rfl
    · split_ifs
      · exact .inr (.inl rfl)
      · exact .inl rfl
  next modelName _ _ =>
    split at h
    · obtain ⟨s', hs', rfl⟩ := h.resolve_right (by simp)
      obtain rfl := Except.ok.inj hs'
      exact .inl rfl
    next msg msgs _ =>
      have hw := handleBatch_snd v.env s.warm modelName (msg :: msgs)
      rcases hb : handleBatch v.env s.warm modelName (msg :: msgs) with ⟨e | done, w'⟩
      · rw [hb] at h hw
        obtain ⟨e', he⟩ := h.resolve_left (by simp)
        obtain ⟨rfl, rfl⟩ := Prod.mk.inj (Except.error.inj he)
        exact .inr (.inr ⟨modelName, hw⟩)
      · rw [hb] at h hw
        obtain ⟨s', hs', rfl⟩ := h.resolve_right (by simp)
        obtain rfl := Except.ok.inj hs'
        exact .inr (.inr ⟨modelName, hw⟩)

theorem consistent_of_reachable {modelQueues : List (String × String)} {idleTimeoutS : ℚ}
    {s : Loop M} (h : Reachable parseTask modelQueues idleTimeoutS s) : s.warm.Consistent := by
  have hkeep : ∀ {w w' : Warm M} {load : String → Except PyExc M}, w.Consistent →
      (w' = w ∨ w' = unloadModel w ∨ ∃ n, w' = (ensureModel load w n).2) → w'.Consistent := by
    rintro w w' load hw (rfl | rfl | ⟨n, rfl⟩)
    · exact hw
    · exact consistent_unloadModel hw
    · exact consistent_ensureModel hw
  induction h with
  | start => rfl
  | step v _ hv ih => exact hkeep ih (visit_warm v _ (.inl ⟨_, hv, rfl⟩))
  | reconnect v _ hv ih => exact hkeep ih (visit_warm v _ (.inr ⟨_, hv⟩))

/-- The model a batch of that queue is processed with, unless loading it fails. -/
def modelFor (env : Env M) (w : Warm M) (modelName : String) : Option M :=
  if w.currentModelName = some modelName then w.model else (env.loadModel modelName).toOption

theorem ensureModel_of_modelFor {env : Env M} {w : Warm M} {modelName : String} {m : M}
    (h : modelFor env w modelName = some m) :
    ∃ w', ensureModel env.loadModel w modelName = (.ok (), w') ∧ w'.model = some m := by
  unfold modelFor at h
  unfold ensureModel
  split_ifs at h ⊢ with hn
  · exact ⟨w, rfl, h⟩
  · cases hl : env.loadModel modelName with
    | ok m' =>
      rw [hl] at h
      exact ⟨_, rfl, h⟩
    | error e => simp [hl, Except.toOption] at h

theorem ensureModel_of_modelFor_none {env : Env M} {w : Warm M} {modelName : String}
    (hw : w.Consistent) (h : modelFor env w modelName = none) :
    ∃ e w', ensureModel env.loadModel w modelName = (.error e, w') := by
  unfold modelFor at h
  unfold ensureModel
  split_ifs at h ⊢ with hn
  · rw [Warm.Consistent, h, hn] at hw
    simp at hw
  · cases hl : env.loadModel modelName with
    | ok m => simp [hl, Except.toOption] at h
    | error e => exact ⟨e, _, rfl⟩

theorem map_deliveryTag_parseBatch (raw : List (RawMessage Body)) :
    (parseBatch parseTask raw).map WorkerMessage.deliveryTag =
      (raw.filter fun m => (parseTask m.body).isSome).map RawMessage.deliveryTag := by
  have h : ∀ i, ((raw.zipIdx i).filterMap (parseMessage parseTask)).map WorkerMessage.deliveryTag =
      (raw.filter fun m => (parseTask m.body).isSome).map RawMessage.deliveryTag := by
    induction raw with
    | nil => intro i; rfl
    | cons m raw ih =>
      intro i
      cases hp : parseTask m.body <;> simp [List.zipIdx_cons, parseMessage, hp, ih]
  exact h 0

variable (parseTask) in
theorem nodup_ids_parseBatch (raw : List (RawMessage Body)) :
    ((parseBatch parseTask raw).map fun m => m.task.id).Nodup := by
  -- the positions that serve as identities grow along the poll
  have h : ∀ i, ((raw.zipIdx i).filterMap (parseMessage parseTask)).Pairwise
        (fun m m' => m.task.id < m'.task.id) ∧
      ∀ m ∈ (raw.zipIdx i).filterMap (parseMessage parseTask), i ≤ m.task.id := by
    induction raw with
    | nil => intro i; simp
    | cons r raw ih =>
      intro i
      obtain ⟨hp, hle⟩ := ih (i + 1)
      cases hr : parseTask r.body with
      | none =>
        simp only [List.zipIdx_cons, List.filterMap_cons, parseMessage, hr, Option.map_none]
        exact ⟨hp, fun m hm => Nat.le_of_succ_le (hle m hm)⟩
      | some t =>
        simp only [List.zipIdx_cons, List.filterMap_cons, parseMessage, hr, Option.map_some,
          List.pairwise_cons, List.mem_cons, forall_eq_or_imp, le_refl, true_and]
        exact ⟨⟨fun m hm => hle m hm, hp⟩, fun m hm => Nat.le_of_succ_le (hle m hm)⟩
  exact List.pairwise_map.mpr ((h 0).1.imp fun hlt => hlt.ne)

variable (parseTask) in
theorem tags_parse_perm (raw : List (RawMessage Body)) :
    ((parseNacks parseTask raw).map Settlement.deliveryTag ++
      (parseBatch parseTask raw).map WorkerMessage.deliveryTag).Perm
        (raw.map RawMessage.deliveryTag) := by
  have h := (List.filter_append_perm (fun m => (parseTask m.body).isNone) raw).map
    RawMessage.deliveryTag
  rw [List.map_append] at h
  rw [map_deliveryTag_parseBatch, parseNacks, List.map_map]
  simpa [Function.comp_def, Settlement.deliveryTag] using h

/-- Every polled delivery is acked or nacked, and only once. -/
def SettledOnce (raw : List (RawMessage Body)) (done : List Settlement) : Prop :=
  ∀ m ∈ raw, (done.map Settlement.deliveryTag).count m.deliveryTag = 1

theorem map_deliveryTag_settle (r : Outcome) :
    (settle r).map Settlement.deliveryTag = (r.1 ++ r.2).map WorkerMessage.deliveryTag := by
  simp [settle, Function.comp_def, Settlement.deliveryTag]

variable (parseTask) in
theorem settledOnce_iff {raw : List (RawMessage Body)}
    (htags : (raw.map RawMessage.deliveryTag).Nodup) (r : Outcome) (hr : (r.1 ++ r.2).Nodup)
    (hsub : r.1 ++ r.2 ⊆ parseBatch parseTask raw) :
    SettledOnce raw (parseNacks parseTask raw ++ settle r) ↔
      parseBatch parseTask raw ⊆ r.1 ++ r.2 := by
  have hperm := tags_parse_perm parseTask raw
  obtain ⟨hn, hb, hdis⟩ := List.nodup_append.mp (hperm.nodup_iff.mpr htags)
  -- the broker's tags are distinct, so they identify the messages of a poll
  have hinj : ∀ m ∈ parseBatch parseTask raw, ∀ m' ∈ parseBatch parseTask raw,
      m.deliveryTag = m'.deliveryTag → m = m' :=
    fun m hm m' hm' => List.inj_on_of_nodup_map hb hm hm'
  have hdone : ((r.1 ++ r.2).map WorkerMessage.deliveryTag).Nodup :=
    hr.map_on fun m hm m' hm' => hinj m (hsub hm) m' (hsub hm')
  have hall : ((parseNacks parseTask raw).map Settlement.deliveryTag ++
      (r.1 ++ r.2).map WorkerMessage.deliveryTag).Nodup := by
    refine List.nodup_append.mpr ⟨hn, hdone, fun a ha b hbm => ?_⟩
    exact hdis a ha b (List.map_subset _ hsub hbm)
  -- no tag is settled twice, so what remains is that each is settled at all
  rw [SettledOnce, List.map_append, map_deliveryTag_settle]
  constructor
  · intro h m hm
    have hmr : m.deliveryTag ∈ raw.map RawMessage.deliveryTag :=
      hperm.subset (List.mem_append_right _ (List.mem_map_of_mem hm))
    obtain ⟨x, hx, hxm⟩ := List.mem_map.mp hmr
    have hc := h x hx
    rw [hxm] at hc
    have hmem := List.count_pos_iff.mp (by rw [hc]; exact Nat.one_pos)
    rcases List.mem_append.mp hmem with hp | hp
    · exact absurd rfl (hdis _ hp _ (List.mem_map_of_mem hm))
    · obtain ⟨m', hm', he⟩ := List.mem_map.mp hp
      exact hinj m' (hsub hm') m hm he ▸ hm'
  · intro h x hx
    refine List.count_eq_one_of_mem hall ?_
    have hxr := hperm.symm.subset (List.mem_map_of_mem hx)
    exact (List.mem_append.mp hxr).elim (List.mem_append_left _)
      fun hm => List.mem_append_right _ (List.map_subset _ h hm)

theorem Outcome.add_perm {msg : WorkerMessage} {success : Bool} {r : Outcome}
    {msgs : List WorkerMessage} (h : (r.1 ++ r.2).Perm msgs) :
    ((r.add msg success).1 ++ (r.add msg success).2).Perm (msg :: msgs) := by
  cases success with
  | true => exact h.cons msg
  | false => exact List.perm_middle.trans (h.cons msg)

theorem handleEach_perm {handle : WorkerMessage → Except PyExc Bool} {msgs : List WorkerMessage}
    {r : Outcome} (h : handleEach handle msgs = .ok r) : (r.1 ++ r.2).Perm msgs := by
  induction msgs generalizing r with
  | nil =>
    cases h
    exact List.Perm.refl _
  | cons msg msgs ih =>
    rw [handleEach] at h
    cases hm : handle msg with
    | error e => simp [hm] at h
    | ok success =>
      cases hr : handleEach handle msgs with
      | error e => simp [hm, hr] at h
      | ok r' =>
        simp only [hm, hr, ok_bind, Except.ok.injEq] at h
        subst h
        exact Outcome.add_perm (ih hr)

theorem handleEach_isOk {handle : WorkerMessage → Except PyExc Bool} {msgs : List WorkerMessage} :
    (handleEach handle msgs).isOk ↔ ∀ m ∈ msgs, (handle m).isOk := by
  induction msgs with
  | nil => simp [handleEach]
  | cons msg msgs ih =>
    rw [List.forall_mem_cons, ← ih, handleEach]
    cases handle msg with
    | error e => simp
    | ok success => cases handleEach handle msgs <;> simp

theorem map_id_chunkTasks (batch : List WorkerMessage) :
    (chunkTasks batch).map Obj.id = (chunkMsgs batch).map fun m => m.task.id := by
  induction batch with
  | nil => rfl
  | cons m batch ih =>
    unfold chunkTasks chunkMsgs at ih ⊢
    cases h : asChunkTask m.task.val <;> simp [h, ih]

theorem taskToMsg_eq (batch : List WorkerMessage) :
    taskToMsg batch = OrderedDict.indexBy (fun m => m.task.id) (chunkMsgs batch) := by
  unfold taskToMsg OrderedDict.indexBy
  congr 1
  induction batch with
  | nil => rfl
  | cons m batch ih =>
    unfold chunkTasks chunkMsgs at ih ⊢
    cases h : asChunkTask m.task.val <;> simp [h, ih]

section Chunks

variable {batch : List WorkerMessage}

theorem mem_msgsOf (hids : (batch.map fun m => m.task.id).Nodup) {ts : List (Obj EmbedTask)}
    {m : WorkerMessage} :
    m ∈ msgsOf batch ts ↔ m ∈ chunkMsgs batch ∧ ∃ t ∈ ts, t.id = m.task.id := by
  have hc : ((chunkMsgs batch).map fun m => m.task.id).Nodup :=
    (List.filter_sublist.map _).nodup hids
  simp only [msgsOf, List.mem_filterMap, taskToMsg_eq, OrderedDict.get?_indexBy _ hc]
  apply Iff.intro
  · rintro ⟨t, ht, hm, he⟩
    exact ⟨hm, t, ht, he.symm⟩
  · rintro ⟨hm, t, ht, he⟩
    exact ⟨t, ht, hm, he.symm⟩

theorem nodup_msgsOf (hids : (batch.map fun m => m.task.id).Nodup) {ts : List (Obj EmbedTask)}
    (hts : (ts.map Obj.id).Nodup) : (msgsOf batch ts).Nodup := by
  have hc : ((chunkMsgs batch).map fun m => m.task.id).Nodup :=
    (List.filter_sublist.map _).nodup hids
  have he : msgsOf batch ts = (ts.map Obj.id).filterMap (taskToMsg batch).get? := by
    rw [msgsOf, List.filterMap_map]
    rfl
  rw [he]
  refine hts.filterMap fun i j m hi hj => ?_
  rw [taskToMsg_eq, Option.mem_def, OrderedDict.get?_indexBy _ hc] at hi hj
  exact hi.2.symm.trans hj.2

theorem chunkMsgs_subset_msgsOf_iff (hids : (batch.map fun m => m.task.id).Nodup)
    {ts : List (Obj EmbedTask)} (hts : ts ⊆ chunkTasks batch) :
    chunkMsgs batch ⊆ msgsOf batch ts ↔ chunkTasks batch ⊆ ts := by
  have hc : ((chunkMsgs batch).map fun m => m.task.id).Nodup :=
    (List.filter_sublist.map _).nodup hids
  have hc' : ((chunkTasks batch).map Obj.id).Nodup := by rwa [map_id_chunkTasks]
  have hid : ∀ {i : ℕ}, (∃ t ∈ chunkTasks batch, t.id = i) ↔
      ∃ m ∈ chunkMsgs batch, m.task.id = i := by
    intro i
    rw [← List.mem_map, ← List.mem_map, map_id_chunkTasks]
  constructor
  · intro h t ht
    obtain ⟨m, hm, hmt⟩ := hid.mp ⟨t, ht, rfl⟩
    obtain ⟨t', ht', htm⟩ := ((mem_msgsOf hids).mp (h hm)).2
    exact List.inj_on_of_nodup_map hc' (hts ht') ht (htm.trans hmt) ▸ ht'
  · intro h m hm
    obtain ⟨t, ht, htm⟩ := hid.mpr ⟨m, hm, rfl⟩
    exact (mem_msgsOf hids).mpr ⟨hm, t, h ht, htm⟩

theorem mem_chunkMsgs {msg : WorkerMessage} :
    msg ∈ chunkMsgs batch ↔ msg ∈ batch ∧ ∃ t, msg.task.val = .embed t ∧ t.taskType = .chunk := by
  rw [chunkMsgs, List.mem_filter]
  cases msg.task.val with
  | embed t => by_cases h : t.taskType = .chunk <;> simp [asChunkTask, h]
  | _ => simp [asChunkTask]

theorem mem_queryMsgs {msg : WorkerMessage} :
    msg ∈ queryMsgs batch ↔ msg ∈ batch ∧ ∃ t, msg.task.val = .embed t ∧ t.taskType = .query := by
  rw [queryMsgs, List.mem_filter]
  cases msg.task.val with
  | embed t => by_cases h : t.taskType = .query <;> simp [asQueryTask, h]
  | _ => simp [asQueryTask]

theorem mem_batch_of_embed {msg : WorkerMessage} (hm : msg ∈ batch) {t : EmbedTask}
    (ht : msg.task.val = .embed t) : msg ∈ queryMsgs batch ∨ msg ∈ chunkMsgs batch := by
  cases hk : t.taskType with
  | chunk => exact .inr (mem_chunkMsgs.mpr ⟨hm, t, ht, hk⟩)
  | query => exact .inl (mem_queryMsgs.mpr ⟨hm, t, ht, hk⟩)

theorem queryMsgs_disjoint_chunkMsgs : (queryMsgs batch).Disjoint (chunkMsgs batch) := by
  intro msg hq hc
  obtain ⟨-, t, ht, hk⟩ := mem_queryMsgs.mp hq
  obtain ⟨-, t', ht', hk'⟩ := mem_chunkMsgs.mp hc
  obtain rfl := AnyTask.embed.inj (ht.symm.trans ht')
  rw [hk] at hk'
  cases hk'

/-- The queries never fail the batch, so `embed_chunks` decides. -/
theorem processEmbedBatch_eq (env : Env M) (m : M) (batch : List WorkerMessage)
    (modelName : String) :
    ∃ rq : Outcome, (rq.1 ++ rq.2).Perm (queryMsgs batch) ∧
      processEmbedBatch env.handlers m batch modelName =
        (eval (env.embedChunks m)
          (RagPipeline.embedChunks env.chunksSpan (chunkTasks batch) modelName)).map
            fun p => (rq.1 ++ msgsOf batch p.1, rq.2 ++ msgsOf batch p.2) := by
  have hq : (handleEach (queryMessage env.handlers m modelName) (queryMsgs batch)).isOk := by
    refine handleEach_isOk.mpr fun msg hm => ?_
    obtain ⟨-, t, ht, hk⟩ := mem_queryMsgs.mp hm
    simp only [queryMessage, ht, asQueryTask, hk, if_true]
    exact eval_embedQuery_isOk _ _ _ _ _
  cases hr : handleEach (queryMessage env.handlers m modelName) (queryMsgs batch) with
  | error e => simp [hr] at hq
  | ok rq =>
    refine ⟨rq, handleEach_perm hr, ?_⟩
    rw [processEmbedBatch, hr, ok_bind]
    -- without chunk tasks the call that is not made would have returned two empty lists
    cases chunkTasks batch with
    | nil =>
      rw [eval_embedChunks]
      simp [allFetched, allFailed, notFailed, Except.map, msgsOf]
    | cons t ts =>
      simp only [Env.handlers]
      rcases eval (env.embedChunks m)
        (RagPipeline.embedChunks env.chunksSpan (t :: ts) modelName) with e | p <;> rfl

theorem processEmbedBatch_outcome (hids : (batch.map fun m => m.task.id).Nodup) {env : Env M}
    {m : M} {modelName : String} {r : Outcome}
    (h : processEmbedBatch env.handlers m batch modelName = .ok r) :
    ∃ ok failed, eval (env.embedChunks m)
        (RagPipeline.embedChunks env.chunksSpan (chunkTasks batch) modelName) = .ok (ok, failed) ∧
      (r.1 ++ r.2).Perm (queryMsgs batch ++ msgsOf batch (ok ++ failed)) ∧
      (r.1 ++ r.2).Nodup ∧ r.1 ++ r.2 ⊆ batch := by
  obtain ⟨rq, hrq, he⟩ := processEmbedBatch_eq env m batch modelName
  rw [he] at h
  rcases hc : eval (env.embedChunks m)
    (RagPipeline.embedChunks env.chunksSpan (chunkTasks batch) modelName) with e | ⟨ok, failed⟩
  · simp [hc, Except.map] at h
  · rw [hc] at h
    cases h
    have hperm : ((rq.1 ++ msgsOf batch ok) ++ (rq.2 ++ msgsOf batch failed)).Perm
        (queryMsgs batch ++ msgsOf batch (ok ++ failed)) := by
      have hm : msgsOf batch (ok ++ failed) = msgsOf batch ok ++ msgsOf batch failed :=
        List.filterMap_append
      refine List.Perm.trans ?_ (hrq.append_right _)
      rw [hm, List.append_assoc, List.append_assoc]
      exact (List.perm_append_comm_assoc _ _ _).append_left _
    have hc' : ((chunkTasks batch).map Obj.id).Nodup := by
      rw [map_id_chunkTasks]
      exact (List.filter_sublist.map _).nodup hids
    obtain ⟨hnd, hsub⟩ := embedChunks_returned hc' hc
    have hts : ((ok ++ failed).map Obj.id).Nodup :=
      hnd.map_on fun t ht t' ht' => List.inj_on_of_nodup_map hc' (hsub ht) (hsub ht')
    have hmsgs : msgsOf batch (ok ++ failed) ⊆ chunkMsgs batch :=
      fun msg hmsg => ((mem_msgsOf hids).mp hmsg).1
    refine ⟨ok, failed, rfl, hperm, hperm.nodup_iff.mpr ?_, fun msg hmsg => ?_⟩
    · exact (hids.of_map.filter _).append (nodup_msgsOf hids hts)
        fun msg hq hm => queryMsgs_disjoint_chunkMsgs hq (hmsgs hm)
    · rcases List.mem_append.mp (hperm.subset hmsg) with hq | hm
      · exact (mem_queryMsgs.mp hq).1
      · exact (mem_chunkMsgs.mp (hmsgs hm)).1

/-- An embed batch comes back whole when it holds embed tasks only and `embed_chunks` returns all
its tasks. -/
theorem processEmbedBatch_perm_iff (hids : (batch.map fun m => m.task.id).Nodup) (env : Env M)
    (m : M) (modelName : String) :
    (∃ r, processEmbedBatch env.handlers m batch modelName = .ok r ∧ (r.1 ++ r.2).Perm batch) ↔
      (∀ msg ∈ batch, ∃ t, msg.task.val = .embed t) ∧
      KeepsEveryTask (env.embedChunks m) (chunkTasks batch) ∧
      StoreWorks (env.embedChunks m) (chunkTasks batch) env.chunksSpan modelName := by
  have hc : ((chunkTasks batch).map Obj.id).Nodup := by
    rw [map_id_chunkTasks]
    exact (List.filter_sublist.map _).nodup hids
  rw [← embedChunks_perm_iff hc]
  constructor
  · rintro ⟨r, hr, hp⟩
    obtain ⟨ok, failed, he, hperm, -, -⟩ := processEmbedBatch_outcome hids hr
    obtain ⟨hnd, hsub⟩ := embedChunks_returned hc he
    have hb : batch.Perm (queryMsgs batch ++ msgsOf batch (ok ++ failed)) := hp.symm.trans hperm
    refine ⟨fun msg hm => ?_, ok, failed, he, ?_⟩
    · rcases List.mem_append.mp (hb.subset hm) with hq | hq
      · exact (mem_queryMsgs.mp hq).2.imp fun _ h => h.1
      · exact (mem_chunkMsgs.mp ((mem_msgsOf hids).mp hq).1).2.imp fun _ h => h.1
    · have hall : chunkMsgs batch ⊆ msgsOf batch (ok ++ failed) := fun msg hm =>
        (List.mem_append.mp (hb.subset (mem_chunkMsgs.mp hm).1)).resolve_left
          fun hq => queryMsgs_disjoint_chunkMsgs hq hm
      have := (chunkMsgs_subset_msgsOf_iff hids hsub).mp hall
      exact (List.perm_ext_iff_of_nodup hnd hc.of_map).mpr
        fun _ => ⟨fun h => hsub h, fun h => this h⟩
  · rintro ⟨hembed, ok, failed, he, hp⟩
    obtain ⟨rq, -, heq⟩ := processEmbedBatch_eq env m batch modelName
    rw [he] at heq
    obtain ⟨ok', failed', he', hperm, hnd, hsub⟩ := processEmbedBatch_outcome hids heq
    obtain ⟨rfl, rfl⟩ := Prod.mk.inj (Except.ok.inj (he'.symm.trans he))
    refine ⟨_, heq, (List.perm_ext_iff_of_nodup hnd hids.of_map).mpr
      fun msg => ⟨fun h => hsub h, fun h => hperm.symm.subset ?_⟩⟩
    obtain ⟨t, ht⟩ := hembed msg h
    rcases mem_batch_of_embed h ht with hq | hq
    · exact List.mem_append_left _ hq
    · exact List.mem_append_right _
        ((chunkMsgs_subset_msgsOf_iff hids hp.subset).mpr hp.symm.subset hq)

end Chunks

theorem processBatch_returned {batch : List WorkerMessage}
    (hids : (batch.map fun m => m.task.id).Nodup) {env : Env M} {m : M} {modelName : String}
    {r : Outcome} (h : processBatch env.handlers (some m) batch modelName = .ok r) :
    (r.1 ++ r.2).Nodup ∧ r.1 ++ r.2 ⊆ batch := by
  simp only [processBatch] at h
  split_ifs at h
  · unfold processRerankBatch at h
    split at h
    · have hp := handleEach_perm h
      exact ⟨hp.nodup_iff.mpr hids.of_map, hp.subset⟩
    · cases h
  · obtain ⟨_, _, -, -, hr⟩ := processEmbedBatch_outcome hids h
    exact hr

section Visits

variable {modelQueues : List (String × String)} {idleTimeoutS : ℚ} {s : Loop M}
  {modelName queueName : String}

/-- The batch comes back from the handlers as it went in, each message acked or nacked. -/
def ComesBack (env : Env M) (m : M) (batch : List WorkerMessage) (modelName : String) : Prop :=
  ∃ r, processBatch env.handlers (some m) batch modelName = .ok r ∧ (r.1 ++ r.2).Perm batch

theorem visit_eq (hq : modelQueues[s.pos]? = some (modelName, queueName)) (v : Visit Body M)
    {msg : WorkerMessage} {msgs : List WorkerMessage}
    (hb : parseBatch parseTask v.raw = msg :: msgs) :
    visit parseTask modelQueues idleTimeoutS v s =
      match handleBatch v.env s.warm modelName (msg :: msgs) with
      | (.ok done, w) => ⟨parseNacks parseTask v.raw ++ done, .ok (.start w)⟩
      | (.error e, w) => ⟨parseNacks parseTask v.raw, .error (e, w)⟩ := by
  rcases hh : handleBatch v.env s.warm modelName (msg :: msgs) with ⟨e | done, w⟩ <;>
    simp only [visit, hq, hb, hh]

theorem visit_eq_of_nil (hq : modelQueues[s.pos]? = some (modelName, queueName))
    (v : Visit Body M) (hb : parseBatch parseTask v.raw = []) :
    visit parseTask modelQueues idleTimeoutS v s =
      ⟨parseNacks parseTask v.raw, .ok { s with pos := s.pos + 1 }⟩ := by
  simp only [visit, hq, hb]

theorem handleBatch_of_modelFor_none {env : Env M} {w : Warm M} (hw : w.Consistent)
    (hm : modelFor env w modelName = none) (batch : List WorkerMessage) :
    (handleBatch env w modelName batch).1 = .ok (settle ([], batch)) := by
  obtain ⟨e, w', he⟩ := ensureModel_of_modelFor_none hw hm
  simp only [handleBatch, he]

theorem handleBatch_of_modelFor {env : Env M} {w : Warm M} {m : M}
    (hm : modelFor env w modelName = some m) (batch : List WorkerMessage) :
    (handleBatch env w modelName batch).1 =
      (processBatch env.handlers (some m) batch modelName).map settle := by
  obtain ⟨w', he, hw'⟩ := ensureModel_of_modelFor hm
  simp only [handleBatch, he, hw']

variable (parseTask idleTimeoutS) in
theorem settledOnce_visit_iff (hs : s.warm.Consistent)
    (hq : modelQueues[s.pos]? = some (modelName, queueName)) (v : Visit Body M)
    (htags : (v.raw.map RawMessage.deliveryTag).Nodup) :
    SettledOnce v.raw (visit parseTask modelQueues idleTimeoutS v s).settlements ↔
      parseBatch parseTask v.raw = [] ∨ ∀ m, modelFor v.env s.warm modelName = some m →
        ComesBack v.env m (parseBatch parseTask v.raw) modelName := by
  have hids := nodup_ids_parseBatch parseTask v.raw
  have hnone : SettledOnce v.raw (parseNacks parseTask v.raw) ↔
      parseBatch parseTask v.raw = [] := by
    have h := settledOnce_iff parseTask htags ([], []) (by simp) (by simp)
    simpa [settle] using h
  cases hb : parseBatch parseTask v.raw with
  | nil =>
    rw [visit_eq_of_nil hq v hb, hnone, hb]
    simp
  | cons msg msgs =>
    -- the model does not load, the handlers raise, or they return their two lists
    rw [hb] at hids hnone
    rw [visit_eq hq v hb]
    cases hm : modelFor v.env s.warm modelName with
    | none =>
      have he := handleBatch_of_modelFor_none hs hm (msg :: msgs)
      rcases hh : handleBatch v.env s.warm modelName (msg :: msgs) with ⟨r, w⟩
      rw [hh] at he
      obtain rfl := he
      have h := settledOnce_iff parseTask htags ([], msg :: msgs)
        (by simpa using hids.of_map) (by simp [hb])
      simp only [h, hb]
      simp
    | some m =>
      have he := handleBatch_of_modelFor hm (msg :: msgs)
      rcases hh : handleBatch v.env s.warm modelName (msg :: msgs) with ⟨r, w⟩
      rw [hh] at he
      simp only [reduceCtorEq, false_or, Option.some.injEq, forall_eq']
      cases hp : processBatch v.env.handlers (some m) (msg :: msgs) modelName with
      | error e =>
        rw [hp] at he
        obtain rfl := he
        simp only [Except.map, hnone, ComesBack, hp]
        simp
      | ok out =>
        rw [hp] at he
        obtain rfl := he
        obtain ⟨hnd, hsub⟩ := processBatch_returned hids hp
        have h := settledOnce_iff parseTask htags out hnd (by rwa [hb])
        simp only [Except.map, h, hb, ComesBack, hp, Except.ok.injEq, exists_eq_left']
        exact ⟨fun hall => (List.perm_ext_iff_of_nodup hnd hids.of_map).mpr
          fun _ => ⟨fun hx => hsub hx, fun hx => hall hx⟩, fun hperm => hperm.symm.subset⟩

end Visits

end GpuEmbedWorker
end RagPipeline
