import RagPipeline.Basics
import Mathlib.Data.List.Basic
import Mathlib.Data.Nat.Notation

namespace RagPipeline

/-- What the service raises: the manager's own errors, or an HTTP answer. -/
inductive RemoteExc where
  | unknownModel (msg : String)
  | modelLoad (msg : String)
  | http (statusCode : ℕ) (detail : String)
deriving DecidableEq

inductive ModelKind where
  | embed | rerank
deriving DecidableEq

structure Settings where
  apiKey : String
  maxBatchSize : ℤ

abbrev LoadedModel := List String → List Vec

structure ModelManager where
  settings : Settings
  /-- `get_spec(model_id)`, as far as the kind. -/
  kind : String → Option ModelKind
  /-- The encoder of the model, made resident if it is not. -/
  load : String → Except RemoteExc LoadedModel

/-- `range(0, len(texts), size)`: the slices of `size` texts, the last one shorter. -/
def subBatches (size : ℕ) (texts : List String) : List (List String) :=
  (List.range ((texts.length + size - 1) / size)).map fun k => (texts.drop (k * size)).take size

def ModelManager.encode (mgr : ModelManager) (modelId : String) (texts : List String) :
    Except RemoteExc (List Vec) :=
  match mgr.kind modelId with
  | none => .error (.unknownModel modelId)
  | some .rerank => .error (.unknownModel ("'" ++ modelId ++ "' is a kind='rerank' model — " ++
      "POST /v1/embeddings only serves kind='embed' models. Use POST /rerank instead."))
  | some .embed =>
    if texts = [] then .ok []
    else do
      let model ← mgr.load modelId
      let size := (max 1 mgr.settings.maxBatchSize).toNat
      let vectors := (subBatches size texts).flatMap model
      if vectors.length = texts.length then .ok vectors
      else .error (.modelLoad ("'" ++ modelId ++ "' returned " ++ toString vectors.length ++
        " vectors for " ++ toString texts.length ++ " inputs"))

def checkAuth (settings : Settings) (authorization : Option String) : Except RemoteExc Unit :=
  if settings.apiKey = "" then .ok ()
  else if authorization = some ("Bearer " ++ settings.apiKey) then .ok ()
  else .error (.http 401 "invalid or missing bearer token")

/-- The `input` of a request. -/
inductive EmbeddingsInput where
  | one (text : String)
  | many (texts : List String)

def EmbeddingsInput.texts : EmbeddingsInput → List String
  | one text => [text]
  | many texts => texts

structure EmbeddingsRequest where
  model : String
  input : EmbeddingsInput

structure EmbeddingItem where
  index : ℕ
  embedding : Vec

/-- `POST /v1/embeddings`: the `data` of the response. -/
def embeddings (mgr : ModelManager) (authorization : Option String) (body : EmbeddingsRequest) :
    Except RemoteExc (List EmbeddingItem) := do
  checkAuth mgr.settings authorization
  if body.input.texts = [] then .error (.http 400 "input must not be empty")
  else if mgr.kind body.model = none then .error (.http 400 ("unknown model: " ++ body.model))
  else
    match mgr.encode body.model body.input.texts with
    | .ok vectors => .ok (vectors.mapIdx fun i vec => ⟨i, vec⟩)
    | .error (.unknownModel _) => .error (.http 400 ("unknown model: " ++ body.model))
    | .error (.modelLoad msg) => .error (.http 503 msg)
    | .error e => .error e

structure RemoteEmbeddingModel where
  name : String
  authorization : Option String

/-- `encode` against that service; an HTTP error is raised. -/
def RemoteEmbeddingModel.encode (client : RemoteEmbeddingModel) (mgr : ModelManager)
    (texts : List String) : Except PyExc (List Vec) :=
  match embeddings mgr client.authorization ⟨client.name, .many texts⟩ with
  | .ok data => .ok (data.map EmbeddingItem.embedding)
  | .error _ => .error (.other "HTTPStatusError")

theorem flatten_slices (size : ℕ) (texts : List String) (n : ℕ) :
    ((List.range n).map fun k => (texts.drop (k * size)).take size).flatten =
      texts.take (n * size) := by
  induction n with
  | zero => simp
  | succ n ih =>
    rw [List.range_succ, List.map_append, List.flatten_append, ih, Nat.succ_mul, List.take_add]
    simp

theorem length_le_slices {size : ℕ} (h : 0 < size) (n : ℕ) :
    n ≤ (n + size - 1) / size * size := by
  have hmod : (n + size - 1) % size < size := Nat.mod_lt _ h
  have hdiv := Nat.div_add_mod (n + size - 1) size
  rw [Nat.mul_comm] at hdiv
  generalize (n + size - 1) / size * size = m at hdiv ⊢
  omega

theorem flatten_subBatches {size : ℕ} (h : 0 < size) (texts : List String) :
    (subBatches size texts).flatten = texts := by
  rw [subBatches, flatten_slices]
  exact List.take_of_length_le (length_le_slices h texts.length)

theorem flatMap_subBatches {size : ℕ} (h : 0 < size) {model : LoadedModel} {E : String → Vec}
    (hE : ∀ texts, model texts = texts.map E) (texts : List String) :
    (subBatches size texts).flatMap model = texts.map E := by
  have hmodel : model = List.map E := funext hE
  rw [hmodel, List.flatMap_def, ← List.map_flatten, flatten_subBatches h]

theorem map_embedding_items (vectors : List Vec) :
    (vectors.mapIdx fun i vec => (⟨i, vec⟩ : EmbeddingItem)).map EmbeddingItem.embedding =
      vectors := by
  apply List.ext_getElem
  · simp
  · intro i hi hi'
    simp

/-- For a known embedding model that loads, the client gets the vectors of its texts in their
order, whatever `MAX_BATCH_SIZE` is. -/
theorem encode_of_pointwise {client : RemoteEmbeddingModel} {mgr : ModelManager}
    {model : LoadedModel} {E : String → Vec}
    (hauth : checkAuth mgr.settings client.authorization = .ok ())
    (hkind : mgr.kind client.name = some .embed) (hload : mgr.load client.name = .ok model)
    (hE : ∀ texts, model texts = texts.map E) {texts : List String} (hne : texts ≠ []) :
    client.encode mgr texts = .ok (texts.map E) := by
  have hsize : 0 < (max 1 mgr.settings.maxBatchSize).toNat := by omega
  have hencode : mgr.encode client.name texts = .ok (texts.map E) := by
    simp only [ModelManager.encode, hkind, hload, if_neg hne]
    show (if ((subBatches _ texts).flatMap model).length = texts.length then _ else _) = _
    rw [flatMap_subBatches hsize hE, if_pos (List.length_map E)]
  have hanswer : embeddings mgr client.authorization ⟨client.name, .many texts⟩ =
      .ok ((texts.map E).mapIdx fun i vec => ⟨i, vec⟩) := by
    simp [embeddings, EmbeddingsInput.texts, hauth, hkind, hne, hencode]
  rw [RemoteEmbeddingModel.encode, hanswer]
  exact congrArg Except.ok (map_embedding_items _)

end RagPipeline
