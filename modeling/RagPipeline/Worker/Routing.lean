import RagPipeline.Config.Topology
import RagPipeline.Services.Requeue
import RagPipeline.Worker.GpuSettlement

namespace RagPipeline
open Coro GpuEmbedWorker

variable {D : Deployment} {d : Dispatch}

/-- The embed and rank tasks the dispatchers and the requeue service can publish. -/
inductive Published (D : Deployment) (d : Dispatch) : Prop
  | chunk (span : Option SpanIds) (taskId : String) (event : ChunksCreatedEvent)
      (h : ChunkDispatcher.dispatchEmbedding D.embedConfigs span taskId event = some d)
  | query (taskId : String) (event : SearchJobCreatedEvent)
      (h : SearchDispatcher.jobCreated D.embedConfigs taskId event = some d)
  | rank (taskId : String) (event : SearchCandidatesRetrievedEvent) (hr : event.rerank = true)
      (h : SearchDispatcher.candidatesRetrieved D.rerankConfigs taskId event = some d)
  | requeue (newId : ℕ → String) (tableName : String) (unembedded : List (String × ℤ))
      (h : d ∈ RequeueService.requeueTable D.embedConfigs newId tableName unembedded)

def EmbedPick (D : Deployment) (cfg : EmbedConfig) : Prop :=
  ("body" ∈ D.embedConfigs.keys ∧ cfg ∈ D.embedConfigs.values) ∨
    (∃ profile, (modelToConfig D.embedConfigs).get? profile = some cfg) ∨
    ∃ tableName postTable taskType,
      parseChunkTableName tableName (buildChunkTableSuffixMap D.embedConfigs) =
        some (postTable, taskType, cfg)

def RankPick (D : Deployment) (cfg : RerankConfig) : Prop :=
  ∃ profile, profile ≠ "" ∧ D.rerankConfigs.get? profile = some cfg

def EmbedDispatch (cfg : EmbedConfig) (d : Dispatch) : Prop :=
  d.routingKey = cfg.queue ∧ ∃ t, d.task = .embed t ∧ t.modelName = cfg.primary

def RankDispatch (D : Deployment) (cfg : RerankConfig) (d : Dispatch) : Prop :=
  d.routingKey = cfg.queue ∧ ∃ t profile, d.task = .searchRank t ∧
    t.rerankProfile = some profile ∧ D.rerankConfigs.get? profile = some cfg

theorem Published.cases (h : Published D d) :
    (∃ cfg, EmbedPick D cfg ∧ EmbedDispatch cfg d) ∨
      ∃ cfg, RankPick D cfg ∧ RankDispatch D cfg d := by
  cases h with
  | chunk _ _ event h =>
    obtain ⟨body, hb, rfl⟩ := Option.map_eq_some_iff.mp h
    have hkey := List.mem_map_of_mem (f := Prod.fst) (OrderedDict.get?_eq_some.mp hb)
    refine .inl ⟨_, .inl ⟨hkey, ?_⟩, rfl, _, rfl, rfl⟩
    cases ht : D.embedConfigs.get? event.taskType with
    | none => exact List.mem_map_of_mem (f := Prod.snd) (OrderedDict.get?_eq_some.mp hb)
    | some cfg => exact List.mem_map_of_mem (f := Prod.snd) (OrderedDict.get?_eq_some.mp ht)
  | query _ _ h =>
    obtain ⟨cfg, hc, rfl⟩ := Option.map_eq_some_iff.mp h
    exact .inl ⟨cfg, .inr (.inl ⟨_, hc⟩), rfl, _, rfl, rfl⟩
  | rank _ event hr h =>
    rw [SearchDispatcher.candidatesRetrieved, if_pos hr] at h
    obtain ⟨cfg, hc, rfl⟩ := Option.map_eq_some_iff.mp h
    refine .inr ⟨cfg, ⟨_, ?_, hc⟩, rfl, _, _, rfl, rfl, hc⟩
    cases hp : truthy event.rerankProfile with
    | none => simp [rankProfile, hp]
    | some p => simpa [rankProfile, hp] using (Option.filter_eq_some_iff.mp hp).2
  | requeue _ _ _ h =>
    unfold RequeueService.requeueTable at h
    split at h
    · simp at h
    next postTable taskType cfg hp =>
      obtain ⟨p, -, rfl⟩ := List.mem_map.mp h
      exact .inl ⟨cfg, .inr (.inr ⟨_, _, _, hp⟩), rfl, _, rfl, rfl⟩

theorem EmbedPick.published {cfg : EmbedConfig} (h : EmbedPick D cfg) :
    ∃ d, Published D d ∧ EmbedDispatch cfg d := by
  rcases h with ⟨hb, hv⟩ | ⟨profile, hp⟩ | ⟨tableName, postTable, taskType, hp⟩
  · obtain ⟨⟨taskType, c⟩, he, rfl⟩ := List.mem_map.mp hv
    obtain ⟨body, hbody⟩ : ∃ body, D.embedConfigs.get? "body" = some body := by
      rw [← Option.ne_none_iff_exists']
      exact fun hn => OrderedDict.get?_eq_none.mp hn hb
    let event : ChunksCreatedEvent := ⟨"", 0, "", [], "", taskType, 0, none, none⟩
    have hget : D.embedConfigs.get? event.taskType = some c := OrderedDict.get?_eq_some.mpr he
    refine ⟨_, .chunk none "" event (by
      rw [ChunkDispatcher.dispatchEmbedding, hbody, hget]
      rfl), rfl, _, rfl, rfl⟩
  · let event : SearchJobCreatedEvent := ⟨"", "", profile, false, none, none, none⟩
    exact ⟨_, .query "" event (by
      rw [SearchDispatcher.jobCreated, hp]
      rfl), rfl, _, rfl, rfl⟩
  · refine ⟨_, .requeue (fun _ => "") tableName [("", 0)] (by
        rw [RequeueService.requeueTable, hp]
        exact List.mem_singleton_self _), rfl, _, rfl, rfl⟩

theorem RankPick.published {cfg : RerankConfig} (h : RankPick D cfg) :
    ∃ d, Published D d ∧ RankDispatch D cfg d := by
  obtain ⟨profile, hne, hp⟩ := h
  let event : SearchCandidatesRetrievedEvent := ⟨"", [], 0, true, some profile, none⟩
  have ht : rankProfile event = profile := by
    rw [rankProfile, truthy_some hne, Option.getD_some]
  exact ⟨_, .rank "" event rfl (by
    rw [SearchDispatcher.candidatesRetrieved, if_pos rfl, ht, hp]
    rfl), rfl, _, _, rfl, rfl, hp⟩

def namedModel (D : Deployment) : AnyTask → Option String
  | .embed t => some t.modelName
  | .searchRank t =>
    (D.rerankConfigs.get? (t.rerankProfile.getD "default")).map RerankConfig.primary
  | _ => none

/-- Handlers that succeed exactly on the tasks that name the model they are called with. -/
def namedOnly (D : Deployment) : Handlers Unit where
  embedChunks tasks modelName _ :=
    .ok (tasks.partition fun t => namedModel D (.embed t.val) = some modelName)
  embedQuery t modelName _ := .ok (decide (namedModel D (.embed t.val) = some modelName))
  rerank := some fun t modelName _ =>
    .ok (decide (namedModel D (.searchRank t.val) = some modelName))

theorem handleEach_pure {handle : WorkerMessage → Except PyExc Bool} {f : WorkerMessage → Bool}
    {msgs : List WorkerMessage} (h : ∀ m ∈ msgs, handle m = .ok (f m)) :
    handleEach handle msgs = .ok (msgs.filter f, msgs.filter fun m => !f m) := by
  induction msgs with
  | nil => rfl
  | cons m msgs ih =>
    rw [List.forall_mem_cons] at h
    rw [handleEach, h.1, ih h.2, ok_bind, ok_bind]
    cases hf : f m <;> simp [Outcome.add, hf]

variable {batch : List WorkerMessage} {n : String}

variable (D n) in
theorem processBatch_embed_named (hids : (batch.map fun m => m.task.id).Nodup)
    (h : ∀ msg ∈ batch, ∃ t, msg.task.val = .embed t) :
    ∃ r, processBatch (namedOnly D) (some ()) batch n = .ok r ∧
      ∀ msg ∈ batch, msg ∈ r.1 ↔ namedModel D msg.task.val = some n := by
  have hr : startsWithRank batch = false := by
    unfold startsWithRank
    split
    · simpa using h _ (List.mem_cons_self ..)
    · rfl
  let f : WorkerMessage → Bool := fun m => namedModel D m.task.val = some n
  have hq : handleEach (queryMessage (namedOnly D) () n) (queryMsgs batch) =
      .ok ((queryMsgs batch).filter f, (queryMsgs batch).filter fun m => !f m) := by
    refine handleEach_pure fun msg hm => ?_
    obtain ⟨-, t, ht, hk⟩ := mem_queryMsgs.mp hm
    simp [queryMessage, ht, asQueryTask, hk, namedOnly, f]
  let g : Obj EmbedTask → Bool := fun t => namedModel D (.embed t.val) = some n
  have hp : processEmbedBatch (namedOnly D) () batch n =
      .ok ((queryMsgs batch).filter f ++ msgsOf batch ((chunkTasks batch).filter g),
        ((queryMsgs batch).filter fun m => !f m) ++
          msgsOf batch ((chunkTasks batch).filter fun t => !g t)) := by
    rw [processEmbedBatch, hq, ok_bind]
    cases chunkTasks batch with
    | nil => simp [msgsOf]
    | cons t ts =>
      simp only [namedOnly, List.partition_eq_filter_filter, ok_bind]
      rfl
  refine ⟨_, by rw [processBatch, if_neg (by simp [hr]), hp], fun msg hm => ?_⟩
  obtain ⟨t, ht⟩ := h msg hm
  have hmem : msg ∈ msgsOf batch ((chunkTasks batch).filter g) ↔
      msg ∈ chunkMsgs batch ∧ namedModel D msg.task.val = some n := by
    rw [mem_msgsOf hids]
    refine and_congr_right fun hc => ?_
    have hc' : ((chunkTasks batch).map Obj.id).Nodup := by
      rw [map_id_chunkTasks]
      exact (List.filter_sublist.map _).nodup hids
    have hself : (⟨msg.task.id, t⟩ : Obj EmbedTask) ∈ chunkTasks batch := by
      obtain ⟨-, t', ht', hk⟩ := mem_chunkMsgs.mp hc
      obtain rfl := AnyTask.embed.inj (ht.symm.trans ht')
      exact List.mem_filterMap.mpr ⟨msg, hm, by simp [ht, asChunkTask, hk]⟩
    rw [ht]
    constructor
    · rintro ⟨u, hu, hid⟩
      obtain ⟨hu, hg⟩ := List.mem_filter.mp hu
      obtain rfl := List.inj_on_of_nodup_map hc' hu hself hid
      simpa [g] using hg
    · exact fun hn => ⟨_, List.mem_filter.mpr ⟨hself, by simpa [g] using hn⟩, rfl⟩
  rw [List.mem_append, List.mem_filter, hmem]
  rcases mem_batch_of_embed hm ht with hq' | hc
  · have hnc : msg ∉ chunkMsgs batch := fun hc => queryMsgs_disjoint_chunkMsgs hq' hc
    simp [hq', hnc, f]
  · have hnq : msg ∉ queryMsgs batch := fun hq' => queryMsgs_disjoint_chunkMsgs hq' hc
    simp [hnq, hc]

theorem startsWithRank_of_rank {msg : WorkerMessage} {t : SearchRankTask}
    (h : msg.task.val = .searchRank t) : startsWithRank (msg :: batch) = true := by
  obtain ⟨⟨i, v⟩, tag⟩ := msg
  obtain rfl : v = .searchRank t := h
  rfl

variable (D n) in
theorem processBatch_rank_named (hne : batch ≠ [])
    (h : ∀ msg ∈ batch, ∃ t, msg.task.val = .searchRank t) :
    ∃ r, processBatch (namedOnly D) (some ()) batch n = .ok r ∧
      ∀ msg ∈ batch, msg ∈ r.1 ↔ namedModel D msg.task.val = some n := by
  have hr : startsWithRank batch = true := by
    obtain ⟨msg, msgs, rfl⟩ := List.exists_cons_of_ne_nil hne
    obtain ⟨t, ht⟩ := h msg (List.mem_cons_self ..)
    exact startsWithRank_of_rank ht
  let f : WorkerMessage → Bool := fun m => namedModel D m.task.val = some n
  have hp : handleEach (rerankMessage fun t =>
      .ok (decide (namedModel D (.searchRank t.val) = some n))) batch =
      .ok (batch.filter f, batch.filter fun m => !f m) := by
    refine handleEach_pure fun msg hm => ?_
    obtain ⟨t, ht⟩ := h msg hm
    simp [rerankMessage, ht, f]
  refine ⟨_, by rw [processBatch, if_pos hr]; exact hp, fun msg hm => ?_⟩
  simp [List.mem_filter, hm, f]

variable (D n) in
/-- A foreign message makes the assertion of the rerank loop fail. -/
theorem processBatch_mixed (hr : startsWithRank batch = true) {msg : WorkerMessage}
    (hm : msg ∈ batch) {t : EmbedTask} (ht : msg.task.val = .embed t) :
    ¬ (processBatch (namedOnly D) (some ()) batch n).isOk := by
  rw [processBatch, if_pos hr]
  intro h
  have hall := handleEach_isOk.mp h msg hm
  simp [rerankMessage, ht] at hall

def Arrives (D : Deployment) (queueName : String) (t : AnyTask) : Prop :=
  ∃ d, Published D d ∧ d.task = t ∧ queueName ∈ deliveredTo D.embedding d.routingKey

/-- A published task reaches a polled queue, and wherever it is polled, in whatever batch, it is
handled with the model it names. -/
structure Served (D : Deployment) (d : Dispatch) : Prop where
  routed : ∃ q ∈ deliveredTo D.embedding d.routingKey, ∃ modelName,
    (modelName, q) ∈ uniqueQueues D ∧ 0 < pollSize D modelName
  handled : ∀ q ∈ deliveredTo D.embedding d.routingKey, ∀ modelName,
    (modelName, q) ∈ uniqueQueues D → ∀ batch : List WorkerMessage,
      (batch.map fun m => m.task.id).Nodup → (batch.length : ℤ) ≤ pollSize D modelName →
      (∀ msg ∈ batch, Arrives D q msg.task.val) → ∀ msg ∈ batch, msg.task.val = d.task →
        ∃ r, processBatch (namedOnly D) (some ()) batch modelName = .ok r ∧ msg ∈ r.1

/-- The model of the first configuration with that queue, embedding models before rerankers. -/
def firstModel (D : Deployment) (queueName : String) : Option String :=
  ((modelQueues D).find? (·.2 = queueName)).map Prod.fst

/-- The queues bound to a routing key are polled for that model, and none of them also gets tasks
of the other kind unless its messages are polled one by one. -/
def Agrees (D : Deployment) (routingKey primary : String) (foreign : String → Prop) : Prop :=
  (∃ q ∈ deliveredTo D.embedding routingKey, ∃ n ∈ firstModel D q, 0 < pollSize D n) ∧
    ∀ q ∈ deliveredTo D.embedding routingKey, ∀ n ∈ firstModel D q, 0 < pollSize D n →
      n = primary ∧ (1 < pollSize D n → ¬ foreign q)

def ModelsAgree (D : Deployment) : Prop :=
  (∀ cfg, EmbedPick D cfg → Agrees D cfg.queue cfg.primary fun q =>
    ∃ c, RankPick D c ∧ q ∈ deliveredTo D.embedding c.queue) ∧
  ∀ cfg, RankPick D cfg → Agrees D cfg.queue cfg.primary fun q =>
    ∃ c, EmbedPick D c ∧ q ∈ deliveredTo D.embedding c.queue

theorem mem_firstModel {q : String} :
    n ∈ firstModel D q ↔ (n, q) ∈ uniqueQueues D := by
  rw [mem_uniqueQueues, firstModel, Option.mem_def, Option.map_eq_some_iff]
  constructor
  · rintro ⟨⟨m, q'⟩, hf, rfl⟩
    have hq : q' = q := by simpa using List.find?_some hf
    rw [hf, hq]
  · exact fun hf => ⟨_, hf, rfl⟩

theorem EmbedDispatch.namedModel {cfg : EmbedConfig} (h : EmbedDispatch cfg d) :
    namedModel D d.task = some cfg.primary := by
  obtain ⟨-, t, ht, hn⟩ := h
  rw [ht, RagPipeline.namedModel, hn]

theorem RankDispatch.namedModel {cfg : RerankConfig} (h : RankDispatch D cfg d) :
    namedModel D d.task = some cfg.primary := by
  obtain ⟨-, t, profile, ht, hp, hc⟩ := h
  rw [ht, RagPipeline.namedModel, hp, Option.getD_some, hc, Option.map_some]

/-- What comes to a queue was published under a configuration whose key is bound to it. -/
theorem batch_kinds {q : String} (harr : ∀ msg ∈ batch, Arrives D q msg.task.val) :
    ∀ msg ∈ batch, ((∃ t, msg.task.val = .embed t) ∧
        ∃ c, EmbedPick D c ∧ q ∈ deliveredTo D.embedding c.queue) ∨
      (∃ t, msg.task.val = .searchRank t) ∧
        ∃ c, RankPick D c ∧ q ∈ deliveredTo D.embedding c.queue := by
  intro msg hm
  obtain ⟨d, hd, ht, hq⟩ := harr msg hm
  rcases hd.cases with ⟨cfg, hp, hk, t, htt, -⟩ | ⟨cfg, hp, hk, t, -, htt, -, -⟩
  · exact .inl ⟨⟨t, ht.symm.trans htt⟩, cfg, hp, hk ▸ hq⟩
  · exact .inr ⟨⟨t, ht.symm.trans htt⟩, cfg, hp, hk ▸ hq⟩

/-- With no foreign task in its batch, a message is acked when its model is the queue's. -/
theorem handled_of_agrees {primary : String} {foreign : Prop} (K : AnyTask → Prop)
    (hagree : 0 < pollSize D n → n = primary ∧ (1 < pollSize D n → ¬ foreign))
    (hkinds : ¬ foreign → ∀ msg ∈ batch, K msg.task.val)
    (hlen : (batch.length : ℤ) ≤ pollSize D n) {msg : WorkerMessage} (hm : msg ∈ batch)
    (hK : K msg.task.val) (hnamed : namedModel D msg.task.val = some primary)
    (hrun : (∀ msg ∈ batch, K msg.task.val) →
      ∃ r, processBatch (namedOnly D) (some ()) batch n = .ok r ∧
        ∀ msg ∈ batch, msg ∈ r.1 ↔ namedModel D msg.task.val = some n) :
    ∃ r, processBatch (namedOnly D) (some ()) batch n = .ok r ∧ msg ∈ r.1 := by
  have hpos : 0 < batch.length := List.length_pos_of_mem hm
  obtain ⟨hn, hf⟩ := hagree (by omega)
  -- a batch of one message is never mixed
  have hall : ∀ msg ∈ batch, K msg.task.val := by
    by_cases h1 : 1 < pollSize D n
    · exact hkinds (hf h1)
    · obtain ⟨x, rfl⟩ : ∃ x, batch = [x] := List.length_eq_one_iff.mp (by omega)
      simpa [List.mem_singleton.mp hm] using hK
  obtain ⟨r, hr, hmem⟩ := hrun hall
  exact ⟨r, hr, (hmem msg hm).mpr (by rw [hnamed, hn])⟩

theorem served_of_modelsAgree (h : ModelsAgree D) (hd : Published D d) : Served D d := by
  rcases hd.cases with ⟨cfg, hp, hk⟩ | ⟨cfg, hp, hk⟩
  · obtain ⟨⟨q, hq, n, hn, hpos⟩, hall⟩ := h.1 cfg hp
    rw [← hk.1] at hq hall
    refine ⟨⟨q, hq, n, mem_firstModel.mp hn, hpos⟩, ?_⟩
    intro q hq n hn batch hids hlen harr msg hm ht
    refine handled_of_agrees (fun v => ∃ t, v = .embed t)
      (hall q hq n (mem_firstModel.mpr hn)) (fun hno msg hm => ?_) hlen hm ?_ ?_
      (processBatch_embed_named D n hids)
    · exact (batch_kinds harr msg hm).elim (·.1) fun hr => absurd hr.2 hno
    · obtain ⟨-, t, htt, -⟩ := hk
      exact ⟨t, ht.trans htt⟩
    · rw [ht, hk.namedModel]
  · obtain ⟨⟨q, hq, n, hn, hpos⟩, hall⟩ := h.2 cfg hp
    rw [← hk.1] at hq hall
    refine ⟨⟨q, hq, n, mem_firstModel.mp hn, hpos⟩, ?_⟩
    intro q hq n hn batch hids hlen harr msg hm ht
    refine handled_of_agrees (fun v => ∃ t, v = .searchRank t)
      (hall q hq n (mem_firstModel.mpr hn)) (fun hno msg hm => ?_) hlen hm ?_ ?_
      (processBatch_rank_named D n (List.ne_nil_of_mem hm))
    · exact (batch_kinds harr msg hm).elim (fun he => absurd he.2 hno) (·.1)
    · obtain ⟨-, t, -, htt, -⟩ := hk
      exact ⟨t, ht.trans htt⟩
    · rw [ht, hk.namedModel]

/-- A message alone in its batch is acked when its model is the queue's, and only then. -/
theorem named_of_served (hs : Served D d) (hd : Published D d) {q : String}
    (hq : q ∈ deliveredTo D.embedding d.routingKey) (hn : (n, q) ∈ uniqueQueues D)
    (hpos : 0 < pollSize D n) : namedModel D d.task = some n := by
  -- the message alone is a batch that `Served` speaks about
  let msg : WorkerMessage := ⟨⟨0, d.task⟩, 0⟩
  have harr : ∀ m ∈ [msg], Arrives D q m.task.val := by
    intro m hm
    obtain rfl := List.mem_singleton.mp hm
    exact ⟨d, hd, rfl, hq⟩
  have hlen : (([msg] : List WorkerMessage).length : ℤ) ≤ pollSize D n := by
    rw [List.length_singleton]
    omega
  obtain ⟨r, hr, hmem⟩ := hs.handled q hq n hn [msg] (by simp) hlen harr msg
    (List.mem_singleton_self _) rfl
  have hone : ∀ K : AnyTask → Prop, K d.task → ∀ m ∈ [msg], K m.task.val := by
    intro K hK m hm
    rwa [List.mem_singleton.mp hm]
  rcases batch_kinds harr msg (List.mem_singleton_self _) with ⟨ht, -⟩ | ⟨ht, -⟩
  · obtain ⟨r', hr', hiff⟩ := processBatch_embed_named D n (by simp)
      (hone (fun v => ∃ t, v = .embed t) ht)
    obtain rfl := Except.ok.inj (hr.symm.trans hr')
    exact (hiff msg (List.mem_singleton_self _)).mp hmem
  · obtain ⟨r', hr', hiff⟩ := processBatch_rank_named D n (by simp)
      (hone (fun v => ∃ t, v = .searchRank t) ht)
    obtain rfl := Except.ok.inj (hr.symm.trans hr')
    exact (hiff msg (List.mem_singleton_self _)).mp hmem

theorem not_mixed {dr : Dispatch} (hd : Published D d) (hdr : Published D dr) {q : String}
    (hs : Served D d ∨ Served D dr) (hq : q ∈ deliveredTo D.embedding d.routingKey)
    (hqr : q ∈ deliveredTo D.embedding dr.routingKey) (hn : (n, q) ∈ uniqueQueues D)
    {t : EmbedTask} (ht : d.task = .embed t) {tr : SearchRankTask}
    (htr : dr.task = .searchRank tr) : ¬ 1 < pollSize D n := by
  intro hsize
  -- polled together with the rank task in front, both raise
  let rank : WorkerMessage := ⟨⟨0, dr.task⟩, 0⟩
  let msg : WorkerMessage := ⟨⟨1, d.task⟩, 1⟩
  have harr : ∀ m ∈ [rank, msg], Arrives D q m.task.val := by
    simp only [List.mem_cons, List.not_mem_nil, or_false, forall_eq_or_imp, forall_eq]
    exact ⟨⟨dr, hdr, rfl, hqr⟩, d, hd, rfl, hq⟩
  have hlen : (([rank, msg] : List WorkerMessage).length : ℤ) ≤ pollSize D n := by
    simp only [List.length_cons, List.length_nil]
    omega
  have hstart : startsWithRank [rank, msg] = true := startsWithRank_of_rank htr
  have hmem : msg ∈ [rank, msg] := by simp
  have hfail := processBatch_mixed D n hstart hmem ht
  rcases hs with hs | hs
  · obtain ⟨r, hr, -⟩ := hs.handled q hq n hn [rank, msg] (by simp [rank, msg]) hlen harr msg
      (by simp) rfl
    exact hfail (by rw [hr]; rfl)
  · obtain ⟨r, hr, -⟩ := hs.handled q hqr n hn [rank, msg] (by simp [rank, msg]) hlen harr rank
      (by simp) rfl
    exact hfail (by rw [hr]; rfl)

/-- A served task that names a model agrees with its queues, when no tasks that are foreign there
can share a batch with it. -/
theorem agrees_of_served (hs : Served D d) (hd : Published D d) {primary : String}
    (hprimary : namedModel D d.task = some primary) {foreign : String → Prop}
    (hforeign : ∀ q ∈ deliveredTo D.embedding d.routingKey, ∀ n, (n, q) ∈ uniqueQueues D →
      foreign q → ¬ 1 < pollSize D n) : Agrees D d.routingKey primary foreign := by
  obtain ⟨q, hq, n, hn, hpos⟩ := hs.routed
  refine ⟨⟨q, hq, n, mem_firstModel.mpr hn, hpos⟩, fun q hq n hn hpos => ?_⟩
  rw [mem_firstModel] at hn
  have hname := named_of_served hs hd hq hn hpos
  rw [hprimary] at hname
  exact ⟨(Option.some.inj hname).symm, fun hsize hf => hforeign q hq n hn hf hsize⟩

/-- Every published task is served by its own model exactly when queues and models agree. -/
theorem published_served_iff (D : Deployment) :
    (∀ d, Published D d → Served D d) ↔ ModelsAgree D := by
  refine ⟨fun h => ⟨fun cfg hp => ?_, fun cfg hp => ?_⟩, fun h d => served_of_modelsAgree h⟩
  · obtain ⟨d, hd, hk⟩ := hp.published
    rw [← hk.1]
    apply agrees_of_served (h d hd) hd hk.namedModel
    intro q hq n hn hf
    obtain ⟨c, hc, hqc⟩ := hf
    obtain ⟨dr, hdr, hkr, tr, -, htr, -, -⟩ := hc.published
    obtain ⟨-, t, ht, -⟩ := hk
    exact not_mixed hd hdr (.inl (h d hd)) hq (hkr ▸ hqc) hn ht htr
  · obtain ⟨d, hd, hk⟩ := hp.published
    rw [← hk.1]
    apply agrees_of_served (h d hd) hd hk.namedModel
    intro q hq n hn hf
    obtain ⟨c, hc, hqc⟩ := hf
    obtain ⟨de, hde, hke, te, hte, -⟩ := hc.published
    obtain ⟨-, t, -, ht, -, -⟩ := hk
    exact not_mixed hde hd (.inr (h d hd)) (hke ▸ hqc) hq hn hte ht

/-- The deployment with `analysis` moved to the queue of `summary_title`. -/
def sharedQueue : Deployment :=
  { deployed with
    embedConfigs := {
      entries := [
        ("body", bgeBaseEmbedCfg),
        ("title", bgeSmallEmbedCfg),
        ("summary_title", qwen34bEmbedCfg),
        ("analysis", { qwen3EmbedCfg with queue := qwen34bEmbedCfg.queue })]
      nodup := by decide } }

/-- Two models on one queue pass the startup check, and the second one's tasks are handled with
the first. -/
theorem shared_queue_not_served :
    verifyEmbeddingTopology sharedQueue = .ok () ∧
      ¬ ∀ d, Published sharedQueue d → Served sharedQueue d := by
  refine ⟨by decide +kernel, fun h => ?_⟩
  let event : ChunksCreatedEvent :=
    ⟨"e", 1, "posts_main", ["a"], "posts_main_chunks_analysis_qwen", "analysis", 1, none, none⟩
  obtain ⟨d, hd⟩ : ∃ d, ChunkDispatcher.dispatchEmbedding sharedQueue.embedConfigs none "t" event =
      some d := ⟨_, rfl⟩
  have hkey : qwen34bEmbedCfg.queue ∈ deliveredTo sharedQueue.embedding d.routingKey ∧
      namedModel sharedQueue d.task = some qwen3EmbedCfg.primary := by
    obtain rfl := Option.some.inj hd
    decide +kernel
  have hpolled : (qwen34bEmbedCfg.primary, qwen34bEmbedCfg.queue) ∈ uniqueQueues sharedQueue ∧
      0 < pollSize sharedQueue qwen34bEmbedCfg.primary := by decide +kernel
  have hd' : Published sharedQueue d := .chunk none "t" event hd
  have hname := named_of_served (h d hd') hd' hkey.1 hpolled.1 hpolled.2
  rw [hkey.2] at hname
  exact absurd hname (by decide)

end RagPipeline
