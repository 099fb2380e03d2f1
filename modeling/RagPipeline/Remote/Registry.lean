import RagPipeline.Lib.OrderedDict
import RagPipeline.Remote.Embeddings
import RagPipeline.TableNames

namespace RagPipeline

structure ModelSpec where
  id : String
  repoId : String
  kind : ModelKind := .embed
  dim : ℕ := 0
  quantize : Bool := false
  maxSeqLength : Option ℕ := none
deriving DecidableEq

structure Registry where
  specs : OrderedDict String ModelSpec
  id_eq : ∀ p ∈ specs.entries, p.2.id = p.1

namespace Registry

variable (reg : Registry)

def getSpec (modelId : String) : Option ModelSpec := reg.specs.get? modelId

def allSpecs : List ModelSpec := reg.specs.values

end Registry

/-- `MODEL_REGISTRY`. -/
def modelRegistry : Registry where
  specs := {
    entries := [
      ("text-embedding-bge-base-en-v1.5",
        { id := "text-embedding-bge-base-en-v1.5", repoId := "BAAI/bge-base-en-v1.5", dim := 768 }),
      ("text-embedding-bge-small-en-v1.5",
        { id := "text-embedding-bge-small-en-v1.5", repoId := "BAAI/bge-small-en-v1.5",
          dim := 384 }),
      ("text-embedding-qwen3-embedding-0.6b",
        { id := "text-embedding-qwen3-embedding-0.6b", repoId := "Qwen/Qwen3-Embedding-0.6B",
          dim := 1024, quantize := true }),
      ("text-embedding-qwen3-embedding-4b",
        { id := "text-embedding-qwen3-embedding-4b", repoId := "Qwen/Qwen3-Embedding-4B",
          dim := 2560, quantize := true }),
      ("text-rerank-qwen3-reranker-0.6b",
        { id := "text-rerank-qwen3-reranker-0.6b", repoId := "Qwen/Qwen3-Reranker-0.6B",
          kind := .rerank, quantize := true }),
      ("text-rerank-qwen3-reranker-4b",
        { id := "text-rerank-qwen3-reranker-4b", repoId := "Qwen/Qwen3-Reranker-4B",
          kind := .rerank, quantize := true })]
    nodup := by decide }
  id_eq := by decide

/-- `_QUANT_INT8`. -/
def quantInt8 : List String := ["int8", "8bit", "8-bit", "q8", "q8_0"]

/-- `_QUANT_INT4`. -/
def quantInt4 : List String := ["int4", "4bit", "4-bit", "q4", "nf4"]

/-- `_QUANT_OFF`. -/
def quantOff : List String := ["none", "off", "full", "fp16", "float16", "fp32", "float32"]

def quantVocab : ModelKind → List String
  | .embed => quantInt8
  | .rerank => quantInt4

/-- `requested.strip().lower()`: the spellings are ASCII, and no other letter has one of theirs as
its lower case. -/
def normalizeQuantization (requested : String) : String := asciiLower (strip requested)

def quantLabel (spec : ModelSpec) : String :=
  match spec.kind with
  | .rerank => "int4"
  | .embed => "int8"

/-- Whether to load the spec quantised: a request that is understood overrides its default. -/
def resolveQuantization (spec : ModelSpec) (requested : Option String) : Bool :=
  match requested with
  | none => spec.quantize
  | some q =>
    if normalizeQuantization q ∈ quantVocab spec.kind then true
    else if normalizeQuantization q ∈ quantOff then false
    else spec.quantize

end RagPipeline
