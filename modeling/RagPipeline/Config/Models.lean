import RagPipeline.Lib.OrderedDict
import Mathlib.Data.Int.Notation
import Mathlib.Data.Nat.Notation

namespace RagPipeline

structure EmbedConfig where
  primary : String
  queue : String
  dim : ℕ
  allowLocal : Bool := true
  allowRemote : Bool := true
  remoteModel : Option String := none
  quantization : Option String := none
  queryPrefix : Option String := none
  maxBatch : Option ℤ := none
deriving DecidableEq

structure RerankConfig where
  primary : String
  queue : String
  allowLocal : Bool := true
  allowRemote : Bool := true
  remoteModel : Option String := none
  quantization : Option String := none
  maxBatch : Option ℤ := none
deriving DecidableEq

/-- The embedding models by chunk type. -/
abbrev EmbedConfigs := OrderedDict String EmbedConfig

abbrev RerankConfigs := OrderedDict String RerankConfig

def qwen3EmbedCfg : EmbedConfig where
  primary := "Qwen/Qwen3-Embedding-0.6B"
  queue := "gpu.embed.qwen3-0.6b"
  dim := 1024
  remoteModel := some "text-embedding-qwen3-embedding-0.6b"
  quantization := some "int8"
  queryPrefix := some ("Instruct: Given a web search query, " ++
    "retrieve relevant passages that answer the query\nQuery: ")

def qwen34bEmbedCfg : EmbedConfig where
  primary := "Qwen/Qwen3-Embedding-4B"
  queue := "gpu.embed.qwen3-4b"
  dim := 2560
  remoteModel := some "text-embedding-qwen3-embedding-4b"
  quantization := some "int8"
  queryPrefix := some ("Instruct: Given a web search query, " ++
    "retrieve relevant passages that answer the query\nQuery: ")
  maxBatch := some 2

def bgeBaseEmbedCfg : EmbedConfig where
  primary := "BAAI/bge-base-en-v1.5"
  queue := "gpu.embed.bge-base-en-v1.5"
  dim := 768
  remoteModel := some "text-embedding-bge-base-en-v1.5"
  queryPrefix := some "Represent this sentence for searching relevant passages: "

def bgeSmallEmbedCfg : EmbedConfig where
  primary := "BAAI/bge-small-en-v1.5"
  queue := "gpu.embed.bge-small-en-v1.5"
  dim := 384
  remoteModel := some "text-embedding-bge-small-en-v1.5"
  queryPrefix := some "Represent this sentence for searching relevant passages: "

/-- `EMBED_CONFIGS`. -/
def embedConfigs : EmbedConfigs where
  entries := [
    ("body", bgeBaseEmbedCfg),
    ("title", bgeSmallEmbedCfg),
    ("summary_title", qwen34bEmbedCfg),
    ("analysis", qwen3EmbedCfg)]
  nodup := by decide

def qwen3Reranker4bCfg : RerankConfig where
  primary := "Qwen/Qwen3-Reranker-4B"
  queue := "gpu.rerank.qwen3-reranker-4b"
  allowLocal := false
  remoteModel := some "text-rerank-qwen3-reranker-4b"
  quantization := some "int4"
  maxBatch := some 50

def qwen3Reranker06bCfg : RerankConfig where
  primary := "Qwen/Qwen3-Reranker-0.6B"
  queue := "gpu.rerank.qwen3-reranker-0.6b"
  allowLocal := false
  remoteModel := some "text-rerank-qwen3-reranker-0.6b"
  quantization := some "int4"
  maxBatch := some 50

/-- `RERANK_CONFIGS`. -/
def rerankConfigs : RerankConfigs where
  entries := [
    ("default", qwen3Reranker4bCfg),
    ("qwen3-reranker-4b", qwen3Reranker4bCfg),
    ("qwen3-reranker-0.6b", qwen3Reranker06bCfg)]
  nodup := by decide

end RagPipeline
