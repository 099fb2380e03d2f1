import RagPipeline.Config.Models
import Mathlib.Data.List.Dedup
import Mathlib.Data.List.Sort
import Mathlib.Data.String.Basic

namespace RagPipeline

/-- `(routing_key, queue_name)` pairs of one exchange. -/
abbrev Bindings := List (String × String)

/-- `BINDINGS`, by exchange. -/
def bindings : OrderedDict String Bindings where
  entries := [
    ("ingestion", [("cpu.chunk.post", "cpu.chunk.post")]),
    ("embedding", [
      ("gpu.embed.bge-base-en-v1.5", "gpu.embed.bge-base-en-v1.5"),
      ("gpu.embed.bge-small-en-v1.5", "gpu.embed.bge-small-en-v1.5"),
      ("gpu.embed.qwen3-0.6b", "gpu.embed.qwen3-0.6b"),
      ("gpu.embed.qwen3-4b", "gpu.embed.qwen3-4b"),
      ("gpu.rerank.qwen3-reranker-4b", "gpu.rerank.qwen3-reranker-4b"),
      ("gpu.rerank.qwen3-reranker-0.6b", "gpu.rerank.qwen3-reranker-0.6b")]),
    ("inference", [
      ("gpu.infer_local.qwen3.5-4b", "gpu.infer_local.qwen3.5-4b"),
      ("io.infer_api.chatgpt-4o", "io.infer_api.chatgpt-4o")]),
    ("search", [
      ("cpu.search.run", "cpu.search.run"),
      ("cpu.search.finalize", "cpu.search.finalize")])]
  nodup := by decide

def routingWords (key : String) : List (List Char) := key.toList.splitOn '.'

/-- A topic exchange matches a key against a binding word by word: `*` stands for one word, `#` for
any number of them. -/
def topicMatch : List (List Char) → List (List Char) → Bool
  | [], ks => ks.isEmpty
  | p :: ps, ks =>
    if p = ['#'] then ks.tails.any (topicMatch ps)
    else
      match ks with
      | [] => false
      | k :: ks => (p = ['*'] || p = k) && topicMatch ps ks

/-- The queues an exchange delivers a message to. -/
def deliveredTo (b : Bindings) (routingKey : String) : List String :=
  (b.filter fun p => topicMatch (routingWords p.1) (routingWords routingKey)).map Prod.snd

/-- The tables the GPU worker and the dispatchers are started with. -/
structure Deployment where
  embedConfigs : EmbedConfigs
  rerankConfigs : RerankConfigs
  /-- `BINDINGS["embedding"]`. -/
  embedding : Bindings

/-- The repository's own. -/
def deployed : Deployment where
  embedConfigs := embedConfigs
  rerankConfigs := rerankConfigs
  embedding := (bindings.get? "embedding").getD []

def configuredQueues (D : Deployment) : List String :=
  D.embedConfigs.values.map EmbedConfig.queue ++ D.rerankConfigs.values.map RerankConfig.queue

def missingQueues (D : Deployment) : List String :=
  (configuredQueues D).filter fun q => q ∉ D.embedding.map Prod.snd

/-- Python's list display of the sorted set of these strings. -/
def sortedDisplay (l : List String) : String :=
  "[" ++ ", ".intercalate ((l.dedup.insertionSort (· ≤ ·)).map fun q => "'" ++ q ++ "'") ++ "]"

/-- Only the names of the queues are compared; the routing keys of the bindings are not. -/
def verifyEmbeddingTopology (D : Deployment) : Except String Unit :=
  match missingQueues D with
  | [] => .ok ()
  | missing => .error ("EMBED_CONFIGS/RERANK_CONFIGS reference queues not declared in " ++
      "BINDINGS['embedding']: " ++ sortedDisplay missing ++ ". Tasks routed to these queues " ++
      "would be silently dropped. Add them to task_queue.BINDINGS['embedding'].")

/-- `model_queues`: a model and its queue for each configuration, embedding models first. -/
def modelQueues (D : Deployment) : List (String × String) :=
  (D.embedConfigs.values.map fun c => (c.primary, c.queue)) ++
    D.rerankConfigs.values.map fun c => (c.primary, c.queue)

def dedupQueues : List String → List (String × String) → List (String × String)
  | _, [] => []
  | seen, p :: ps =>
    if p.2 ∈ seen then dedupQueues seen ps else p :: dedupQueues (p.2 :: seen) ps

/-- `unique_queues`: the first pair of each queue. -/
def uniqueQueues (D : Deployment) : List (String × String) := dedupQueues [] (modelQueues D)

/-- `model_max_batch`. -/
def modelMaxBatch (D : Deployment) : OrderedDict String ℤ :=
  OrderedDict.ofList
    ((D.embedConfigs.values.filterMap fun c => c.maxBatch.map fun b => (c.primary, b)) ++
      D.rerankConfigs.values.filterMap fun c => c.maxBatch.map fun b => (c.primary, b))

/-- The worker's own `max_batch` is 32. -/
def pollSize (D : Deployment) (modelName : String) : ℤ :=
  ((modelMaxBatch D).get? modelName).getD 32

theorem mem_dedupQueues {seen : List String} {l : List (String × String)} {p : String × String} :
    p ∈ dedupQueues seen l ↔ p.2 ∉ seen ∧ l.find? (·.2 = p.2) = some p := by
  induction l generalizing seen with
  | nil => simp [dedupQueues]
  | cons x l ih =>
    by_cases hx : x.2 ∈ seen
    · rw [dedupQueues, if_pos hx, ih]
      refine and_congr_right fun hp => ?_
      have hne : x.2 ≠ p.2 := fun h => hp (h ▸ hx)
      rw [List.find?_cons_of_neg (by simpa using hne)]
    · rw [dedupQueues, if_neg hx, List.mem_cons, ih]
      by_cases he : x.2 = p.2
      · rw [List.find?_cons_of_pos (by simpa using he), Option.some.injEq, List.mem_cons]
        constructor
        · rintro (rfl | h)
          · exact ⟨hx, rfl⟩
          · exact absurd (.inl he.symm) h.1
        · rintro ⟨-, rfl⟩
          exact .inl rfl
      · have hpx : p ≠ x := fun h => he (by rw [h])
        rw [List.find?_cons_of_neg (by simpa using he), List.mem_cons, not_or]
        constructor
        · rintro (h | ⟨⟨-, hs⟩, hf⟩)
          · exact absurd h hpx
          · exact ⟨hs, hf⟩
        · rintro ⟨hs, hf⟩
          exact .inr ⟨⟨fun h => he h.symm, hs⟩, hf⟩

/-- A queue is polled for the model of the first configuration that names it. -/
theorem mem_uniqueQueues {D : Deployment} {modelName queueName : String} :
    (modelName, queueName) ∈ uniqueQueues D ↔
      (modelQueues D).find? (·.2 = queueName) = some (modelName, queueName) := by
  simp [uniqueQueues, mem_dedupQueues]

end RagPipeline
