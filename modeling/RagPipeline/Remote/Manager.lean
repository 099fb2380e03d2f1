import Mathlib.Data.Rat.Defs
import RagPipeline.Remote.Registry

namespace RagPipeline

structure ServiceSettings extends Settings where
  /-- `resolved_device()`. -/
  device : String
  enableQuantization : Bool
  idleUnloadS : ℚ

structure Weights where
  encode : LoadedModel
  score : String → List String → List ℚ

/-- The libraries during one call: what building a repository's weights comes to, with or without a
quantization config, the tokenizer, and the probe encode. -/
structure Libraries where
  build : String → Bool → Except PyExc Weights
  tokenizer : String → Except PyExc Unit
  probe : String → Except PyExc (List Vec)

/-- A loaded model; it knows whether its weights were built with a quantization config. -/
structure ServedModel where
  quantised : Bool
  weights : Weights

section Loaders

variable (settings : ServiceSettings) (lib : Libraries) (spec : ModelSpec)

def wantQuant : Bool :=
  spec.quantize && settings.enableQuantization && settings.device = "cuda"

/-- What both loaders do: a quantised build that fails is retried at full precision. -/
def buildWeights : Except PyExc ServedModel :=
  if wantQuant settings spec then
    match lib.build spec.repoId true with
    | .ok weights => .ok ⟨true, weights⟩
    | .error _ => (lib.build spec.repoId false).map (ServedModel.mk false)
  else (lib.build spec.repoId false).map (ServedModel.mk false)

/-- `_load_embedder`. -/
def loadEmbedder : Except PyExc ServedModel := buildWeights settings lib spec

/-- `_load_reranker`. -/
def loadReranker : Except PyExc ServedModel := do
  let model ← buildWeights settings lib spec
  lib.tokenizer spec.repoId
  return model

def defaultLoader : Except PyExc ServedModel :=
  match spec.kind with
  | .rerank => loadReranker settings lib spec
  | .embed => loadEmbedder settings lib spec

/-- `_verify_dim`. -/
def verifyDim : Except RemoteExc Unit :=
  match lib.probe spec.repoId with
  | .error exc => .error (.modelLoad ("'" ++ spec.id ++ "' failed its probe encode: " ++ exc.str))
  | .ok probe =>
    let actual := (probe.head?.map List.length).getD 0
    if actual = spec.dim then .ok ()
    else .error (.modelLoad ("'" ++ spec.id ++ "' produced " ++ toString actual ++
      "-dim vectors but the registry declares " ++ toString spec.dim ++ "; refusing to serve it"))

/-- The `try` block of `load`, and the check of the dimension. -/
def loadModel : Except RemoteExc ServedModel :=
  match defaultLoader settings lib spec with
  | .error exc =>
    .error (.modelLoad ("failed to load '" ++ spec.id ++ "': " ++ exc.str))
  | .ok model =>
    match spec.kind with
    | .rerank => .ok model
    | .embed => do
      verifyDim lib spec
      return model

end Loaders

/-- The resident model: `_model`, `_model_id` and `_quantized`, which are set and cleared
together. -/
structure Resident where
  modelId : String
  model : ServedModel
  quantized : Bool

structure ManagerState where
  resident : Option Resident
  lastUsedAt : ℚ

/-- What a manager is made with. -/
structure ServiceConfig where
  settings : ServiceSettings
  registry : Registry

namespace ManagerState

variable (cfg : ServiceConfig) (lib : Libraries) (now : ℚ) (s : ManagerState)

def start : ManagerState := ⟨none, 0⟩

def loadedModelId : Option String := s.resident.map Resident.modelId

def release : ManagerState := { s with resident := none }

def touch : ManagerState := { s with lastUsedAt := now }

def appliedQuantization : Option String :=
  match s.resident with
  | none => none
  | some r =>
    if r.quantized then some (((cfg.registry.getSpec r.modelId).map quantLabel).getD "int8")
    else none

structure ModelEntry where
  id : String
  state : String
  dim : ℕ
  quantization : Option String
  maxContextLength : Option ℕ
deriving DecidableEq

def states : List ModelEntry :=
  cfg.registry.allSpecs.map fun spec =>
    { id := spec.id
      state := if some spec.id = s.loadedModelId then "loaded" else "not-loaded"
      dim := spec.dim
      quantization :=
        if some spec.id = s.loadedModelId then s.appliedQuantization cfg
        else if spec.quantize then some (quantLabel spec) else none
      maxContextLength := spec.maxSeqLength }

/-- Whether the model is resident at that precision already. -/
def holds (modelId : String) (quantized : Bool) : Bool :=
  s.resident.any fun r => r.modelId = modelId && r.quantized = quantized

def load (modelId : String) (quantization : Option String) :
    Except RemoteExc ModelSpec × ManagerState :=
  match cfg.registry.getSpec modelId with
  | none => (.error (.unknownModel modelId), s)
  | some base =>
    let wantQuant := resolveQuantization base quantization
    let spec := { base with quantize := wantQuant }
    if s.holds modelId wantQuant then (.ok spec, s.touch now)
    else
      -- the model at another precision, or another model, goes first
      match loadModel cfg.settings lib spec with
      | .error e => (.error e, s.release)
      | .ok model =>
        (.ok spec, { s with resident := some ⟨modelId, model, wantQuant⟩ }.touch now)

def unload (modelId : Option String) : Bool × ManagerState :=
  match s.resident with
  | none => (false, s)
  | some r => if modelId.all (· = r.modelId) then (true, s.release) else (false, s)

def reapOnce : Bool × ManagerState :=
  if cfg.settings.idleUnloadS ≤ 0 then (false, s)
  else
    match s.resident with
    | none => (false, s)
    | some _ =>
      if now - s.lastUsedAt < cfg.settings.idleUnloadS then (false, s) else (true, s.release)

/-- The load that a batch makes when its model is not resident. -/
def loadOnDemand (modelId : String) : Except RemoteExc Unit × ManagerState :=
  if s.loadedModelId = some modelId then (.ok (), s)
  else
    match s.load cfg lib now modelId none with
    | (.error e, s') => (.error e, s')
    | (.ok _, s') => (.ok (), s')

/-- The model that a batch is computed with under the lock. -/
def serve (modelId : String) : Except RemoteExc ServedModel × ManagerState :=
  match s.loadOnDemand cfg lib now modelId with
  | (.error e, s') => (.error e, s')
  | (.ok _, s') =>
    match s'.resident with
    | none => (.error (.http 500 "AssertionError"), s')
    | some r => (.ok r.model, s'.touch now)

def kind (modelId : String) : Option ModelKind :=
  (cfg.registry.getSpec modelId).map ModelSpec.kind

def modelManager : ModelManager where
  settings := cfg.settings.toSettings
  kind := kind cfg
  load modelId := (s.serve cfg lib now modelId).1.map fun model => model.weights.encode

/-- What is refused before the lock loads nothing. -/
def encode (modelId : String) (texts : List String) : Except RemoteExc (List Vec) × ManagerState :=
  ((s.modelManager cfg lib now).encode modelId texts,
    if kind cfg modelId = some .embed ∧ texts ≠ [] then (s.serve cfg lib now modelId).2 else s)

/-- What `rerank` makes of a loaded model. -/
def scoreWith (modelId query : String) (documents : List String) (model : ServedModel) :
    Except RemoteExc (List ℚ) :=
  let scores := model.weights.score query documents
  if scores.length = documents.length then .ok scores
  else .error (.modelLoad ("'" ++ modelId ++ "' returned " ++ toString scores.length ++
    " scores for " ++ toString documents.length ++ " documents"))

def rerank (modelId query : String) (documents : List String) :
    Except RemoteExc (List ℚ) × ManagerState :=
  match kind cfg modelId with
  | none => (.error (.unknownModel modelId), s)
  | some .embed =>
    (.error (.unknownModel ("'" ++ modelId ++ "' is a kind='embed' model — POST /rerank only " ++
      "serves kind='rerank' models. Use POST /v1/embeddings instead.")), s)
  | some .rerank =>
    if documents = [] then (.ok [], s)
    else
      match s.serve cfg lib now modelId with
      | (.error e, s') => (.error e, s')
      | (.ok model, s') => (scoreWith modelId query documents model, s')

end ManagerState

inductive ManagerCall where
  | load (modelId : String) (quantization : Option String)
  | unload (modelId : Option String)
  | reapOnce
  | encode (modelId : String) (texts : List String)
  | rerank (modelId query : String) (documents : List String)

/-- A call, with how the libraries and the clock are at the time. -/
structure ManagerStep where
  lib : Libraries
  now : ℚ
  call : ManagerCall

def ManagerState.step (cfg : ServiceConfig) (s : ManagerState) (i : ManagerStep) : ManagerState :=
  match i.call with
  | .load modelId quantization => (s.load cfg i.lib i.now modelId quantization).2
  | .unload modelId => (s.unload modelId).2
  | .reapOnce => (s.reapOnce cfg i.now).2
  | .encode modelId texts => (s.encode cfg i.lib i.now modelId texts).2
  | .rerank modelId query documents => (s.rerank cfg i.lib i.now modelId query documents).2

/-- The load that a step makes: its own, or the one of a batch whose model is not resident. -/
def ManagerStep.loads (cfg : ServiceConfig) (s : ManagerState) (i : ManagerStep) :
    Option (String × Option String) :=
  match i.call with
  | .load modelId quantization => some (modelId, quantization)
  | .encode modelId texts =>
    if ManagerState.kind cfg modelId = some .embed ∧ texts ≠ [] ∧
        s.loadedModelId ≠ some modelId then
      some (modelId, none)
    else none
  | .rerank modelId _ documents =>
    if ManagerState.kind cfg modelId = some .rerank ∧ documents ≠ [] ∧
        s.loadedModelId ≠ some modelId then
      some (modelId, none)
    else none
  | .unload _ | .reapOnce => none

namespace ManagerState

variable {cfg : ServiceConfig} {lib : Libraries} {now : ℚ} {s : ManagerState} {modelId : String}

@[simp] theorem touch_resident : (s.touch now).resident = s.resident := rfl

@[simp] theorem release_resident : s.release.resident = none := rfl

theorem loaded_of_holds {quantized : Bool} (h : s.holds modelId quantized = true) :
    s.loadedModelId = some modelId := by
  unfold holds at h
  unfold loadedModelId
  cases hr : s.resident with
  | none => simp [hr] at h
  | some r =>
    rw [hr, Option.any_some, Bool.and_eq_true, decide_eq_true_eq] at h
    rw [Option.map_some, h.1]

theorem load_cases (cfg : ServiceConfig) (lib : Libraries) (now : ℚ) (s : ManagerState)
    (modelId : String) (q : Option String) :
    (cfg.registry.getSpec modelId = none ∧ ∃ e, s.load cfg lib now modelId q = (.error e, s)) ∨
    (∃ e, s.load cfg lib now modelId q = (.error e, s.release)) ∨
    ∃ base spec, cfg.registry.getSpec modelId = some base ∧
      spec = { base with quantize := resolveQuantization base q } ∧
        ((s.holds modelId spec.quantize = true ∧
            s.load cfg lib now modelId q = (.ok spec, s.touch now)) ∨
          (s.holds modelId spec.quantize = false ∧ ∃ model,
            loadModel cfg.settings lib spec = .ok model ∧
            s.load cfg lib now modelId q =
              (.ok spec, ⟨some ⟨modelId, model, spec.quantize⟩, now⟩))) := by
  unfold load
  cases hspec : cfg.registry.getSpec modelId with
  | none => exact .inl ⟨rfl, _, rfl⟩
  | some base =>
    simp only
    split_ifs with hholds
    · exact .inr (.inr ⟨base, _, rfl, rfl, .inl ⟨hholds, rfl⟩⟩)
    · have hnot : s.holds modelId (resolveQuantization base q) = false := by simpa using hholds
      cases hmodel : loadModel cfg.settings lib
        { base with quantize := resolveQuantization base q } with
      | error e => exact .inr (.inl ⟨e, rfl⟩)
      | ok model => exact .inr (.inr ⟨base, _, rfl, rfl, .inr ⟨hnot, model, hmodel, rfl⟩⟩)

theorem resident_serve (cfg : ServiceConfig) (lib : Libraries) (now : ℚ) (s : ManagerState)
    (modelId : String) : (s.serve cfg lib now modelId).2.resident =
      if s.loadedModelId = some modelId then s.resident
      else (s.load cfg lib now modelId none).2.resident := by
  unfold serve loadOnDemand
  split_ifs with hid
  · simp only
    cases hs : s.resident with
    | none => simp [hs]
    | some r => simp [hs]
  · rcases s.load cfg lib now modelId none with ⟨e | spec, s'⟩
    · rfl
    · simp only
      cases hs : s'.resident with
      | none => simp [hs]
      | some r => simp [hs]

theorem serve_eq_ok {model : ServedModel} {s' : ManagerState}
    (h : s.serve cfg lib now modelId = (.ok model, s')) :
    ∃ r, s'.resident = some r ∧ r.model = model := by
  unfold serve at h
  rcases hload : s.loadOnDemand cfg lib now modelId with ⟨e | u, t⟩
  · simp [hload] at h
  · cases ht : t.resident with
    | none => simp [hload, ht] at h
    | some r =>
      simp only [hload, ht, Prod.mk.injEq, Except.ok.injEq] at h
      obtain ⟨hmodel, rfl⟩ := h
      exact ⟨r, ht, hmodel⟩

theorem resident_rerank (cfg : ServiceConfig) (lib : Libraries) (now : ℚ) (s : ManagerState)
    (modelId query : String) (documents : List String) :
    (s.rerank cfg lib now modelId query documents).2.resident =
      if kind cfg modelId = some .rerank ∧ documents ≠ [] ∧ s.loadedModelId ≠ some modelId then
        (s.load cfg lib now modelId none).2.resident
      else s.resident := by
  unfold rerank
  cases hkind : kind cfg modelId with
  | none => simp
  | some kind =>
    cases kind with
    | embed => simp
    | rerank =>
      by_cases hdocs : documents = []
      · simp [hdocs]
      · -- the scores that come out of `serve` do not matter to the state
        have hstate : (match s.serve cfg lib now modelId with
            | (.error e, s') => ((.error e : Except RemoteExc (List ℚ)), s')
            | (.ok model, s') => (scoreWith modelId query documents model, s')).2 =
              (s.serve cfg lib now modelId).2 := by
          rcases s.serve cfg lib now modelId with ⟨e | model, s'⟩ <;> rfl
        simp only [if_neg hdocs]
        rw [hstate, resident_serve]
        by_cases hid : s.loadedModelId = some modelId <;> simp [hid, hdocs]

theorem resident_encode (cfg : ServiceConfig) (lib : Libraries) (now : ℚ) (s : ManagerState)
    (modelId : String) (texts : List String) :
    (s.encode cfg lib now modelId texts).2.resident =
      if kind cfg modelId = some .embed ∧ texts ≠ [] ∧ s.loadedModelId ≠ some modelId then
        (s.load cfg lib now modelId none).2.resident
      else s.resident := by
  unfold encode
  by_cases h : kind cfg modelId = some .embed ∧ texts ≠ []
  · rw [if_pos h, resident_serve]
    by_cases hid : s.loadedModelId = some modelId <;> simp [hid, h.1, h.2]
  · rw [if_neg h, if_neg fun h' => h ⟨h'.1, h'.2.1⟩]

theorem resident_unload (s : ManagerState) (modelId : Option String) :
    (s.unload modelId).2.resident = none ∨ (s.unload modelId).2.resident = s.resident := by
  unfold unload
  cases hs : s.resident with
  | none => exact .inl hs
  | some r =>
    simp only
    split_ifs
    · exact .inl rfl
    · exact .inr hs

theorem resident_reapOnce (cfg : ServiceConfig) (now : ℚ) (s : ManagerState) :
    (s.reapOnce cfg now).2.resident = none ∨ (s.reapOnce cfg now).2.resident = s.resident := by
  unfold reapOnce
  by_cases hoff : cfg.settings.idleUnloadS ≤ 0
  · rw [if_pos hoff]
    exact .inr rfl
  · rw [if_neg hoff]
    cases hs : s.resident with
    | none => exact .inl hs
    | some r =>
      by_cases hidle : now - s.lastUsedAt < cfg.settings.idleUnloadS
      · exact .inr (by simp [hidle, hs])
      · exact .inl (by simp [hidle])

theorem resident_step (cfg : ServiceConfig) (s : ManagerState) (i : ManagerStep) :
    (∃ modelId q, i.loads cfg s = some (modelId, q) ∧
      (s.step cfg i).resident = (s.load cfg i.lib i.now modelId q).2.resident) ∨
    (i.loads cfg s = none ∧
      ((s.step cfg i).resident = none ∨ (s.step cfg i).resident = s.resident)) := by
  obtain ⟨lib, now, call⟩ := i
  cases call with
  | load modelId q => exact .inl ⟨modelId, q, rfl, rfl⟩
  | unload modelId => exact .inr ⟨rfl, resident_unload s modelId⟩
  | reapOnce => exact .inr ⟨rfl, resident_reapOnce cfg now s⟩
  | encode modelId texts =>
    have hencode := resident_encode cfg lib now s modelId texts
    by_cases h : kind cfg modelId = some .embed ∧ texts ≠ [] ∧ s.loadedModelId ≠ some modelId
    · exact .inl ⟨modelId, none, if_pos h, hencode.trans (if_pos h)⟩
    · exact .inr ⟨if_neg h, .inr (hencode.trans (if_neg h))⟩
  | rerank modelId query documents =>
    have hrerank := resident_rerank cfg lib now s modelId query documents
    by_cases h : kind cfg modelId = some .rerank ∧ documents ≠ [] ∧ s.loadedModelId ≠ some modelId
    · exact .inl ⟨modelId, none, if_pos h, hrerank.trans (if_pos h)⟩
    · exact .inr ⟨if_neg h, .inr (hrerank.trans (if_neg h))⟩

end ManagerState
end RagPipeline
