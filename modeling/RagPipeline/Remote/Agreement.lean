import RagPipeline.Remote.Precision

namespace RagPipeline
open Coro

namespace LocalLeg

/-- `_QUANT_INT8` of the worker. -/
def quantInt8 : List String := ["int8", "8bit", "8-bit", "q8", "q8_0"]

/-- `_QUANT_INT4` of the worker. -/
def quantInt4 : List String := ["int4", "4bit", "4-bit", "q4", "nf4"]

/-- `_QUANT_OFF` of the worker. -/
def quantOff : List String := ["none", "off", "full", "fp16", "float16", "fp32", "float32"]

/-- What is not understood is warned about, and loaded at full precision. -/
def wantsQuantised (vocab : List String) (quantization : Option String) : Bool :=
  match quantization with
  | none => false
  | some q =>
    if normalizeQuantization q ∈ vocab then true
    else if normalizeQuantization q ∈ quantOff then false
    else false

def wantsInt8 (quantization : Option String) : Bool := wantsQuantised quantInt8 quantization

def wantsInt4 (quantization : Option String) : Bool := wantsQuantised quantInt4 quantization

/-- Whether the local leg of a model of that kind loads it quantised. -/
def wants : ModelKind → Option String → Bool
  | .embed => wantsInt8
  | .rerank => wantsInt4

end LocalLeg

theorem wants_some_iff (kind : ModelKind) (q : String) :
    LocalLeg.wants kind (some q) = true ↔ normalizeQuantization q ∈ quantVocab kind := by
  cases kind with
  | embed => simp [LocalLeg.wants, LocalLeg.wantsInt8, LocalLeg.wantsQuantised,
      LocalLeg.quantInt8, quantVocab, quantInt8]
  | rerank => simp [LocalLeg.wants, LocalLeg.wantsInt4, LocalLeg.wantsQuantised,
      LocalLeg.quantInt4, quantVocab, quantInt4]

/-- The service makes of a request what the local leg makes of it exactly when the request is
understood, or the model is not quantised by default. -/
theorem resolve_eq_wants_iff (spec : ModelSpec) (q : Option String) :
    resolveQuantization spec q = LocalLeg.wants spec.kind q ↔
      (∃ v ∈ q, normalizeQuantization v ∈ quantVocab spec.kind ∨
        normalizeQuantization v ∈ quantOff) ∨ spec.quantize = false := by
  cases q with
  | none =>
    have hlocal : LocalLeg.wants spec.kind none = false := by cases spec.kind <;> rfl
    simp [hlocal, resolveQuantization]
  | some v =>
    unfold resolveQuantization
    simp only [Option.mem_some_iff, exists_eq_left']
    by_cases hvocab : normalizeQuantization v ∈ quantVocab spec.kind
    · rw [if_pos hvocab, (wants_some_iff spec.kind v).mpr hvocab]
      exact iff_of_true rfl (.inl (.inl hvocab))
    · have hlocal : LocalLeg.wants spec.kind (some v) = false := by
        rw [← Bool.not_eq_true, wants_some_iff]
        exact hvocab
      rw [if_neg hvocab, hlocal]
      by_cases hoff : normalizeQuantization v ∈ quantOff
      · rw [if_pos hoff]
        exact iff_of_true rfl (.inl (.inr hoff))
      · -- here the service falls back on its default, and the local leg on full precision
        rw [if_neg hoff]
        simp [hvocab, hoff]

/-- The request of the step that built the resident copy, when it was another's before the step.
A copy that is at the right precision already is not built again. -/
def ManagerStep.request (cfg : ServiceConfig) (s : ManagerState) (i : ManagerStep)
    (q : Option String) : Option String :=
  match i.loads cfg s with
  | none => q
  | some (modelId, q') =>
    match cfg.registry.getSpec modelId with
    | none => q
    | some base => if s.holds modelId (resolveQuantization base q') then q else q'

def ManagerStep.record (cfg : ServiceConfig) (t : ManagerState × Option String)
    (i : ManagerStep) : ManagerState × Option String := (t.1.step cfg i, i.request cfg t.1 t.2)

def recordRun (cfg : ServiceConfig) (calls : List ManagerStep) : ManagerState × Option String :=
  calls.foldl (ManagerStep.record cfg) (.start, none)

/-- The request that the copy a batch is computed with was built for: a load on demand has none. -/
def servedRequest (cfg : ServiceConfig) (calls : List ManagerStep) (modelId : String) :
    Option String :=
  if (recordRun cfg calls).1.loadedModelId = some modelId then (recordRun cfg calls).2 else none

theorem recordRun_fst (cfg : ServiceConfig) (calls : List ManagerStep) :
    (recordRun cfg calls).1 = calls.foldl (ManagerState.step cfg) .start := by
  unfold recordRun
  induction calls using List.reverseRecOn with
  | nil => rfl
  | append_singleton calls i ih =>
    rw [List.foldl_append, List.foldl_append, List.foldl_cons, List.foldl_nil, List.foldl_cons,
      List.foldl_nil, ← ih]
    rfl

structure ServiceConfig.CanQuantise (cfg : ServiceConfig) : Prop where
  enabled : cfg.settings.enableQuantization = true
  device : cfg.settings.device = "cuda"

def Libraries.CanQuantise (lib : Libraries) : Prop :=
  ∀ repoId, (lib.build repoId true).isOk = true

/-- The resident copy has the precision that its request comes to. -/
def ManagerState.BuiltFor (cfg : ServiceConfig) (s : ManagerState) (q : Option String) : Prop :=
  ∀ r, s.resident = some r → ∃ base, cfg.registry.getSpec r.modelId = some base ∧
    r.quantized = resolveQuantization base q ∧ r.model.quantised = r.quantized

section Machine

variable {cfg : ServiceConfig} {s : ManagerState} {q : Option String}

/-- On such a machine the weights have the precision that was asked for. -/
theorem quantised_eq_of_loadModel (hcfg : cfg.CanQuantise) {lib : Libraries}
    (hlib : lib.CanQuantise) {spec : ModelSpec} {model : ServedModel}
    (h : loadModel cfg.settings lib spec = .ok model) : model.quantised = spec.quantize := by
  rw [Bool.eq_iff_iff, quantised_of_loadModel h, wantQuant_iff]
  simp [hcfg.enabled, hcfg.device, hlib spec.repoId]

theorem builtFor_step (hcfg : cfg.CanQuantise) {i : ManagerStep} (hlib : i.lib.CanQuantise)
    (hs : s.BuiltFor cfg q) : (s.step cfg i).BuiltFor cfg (i.request cfg s q) := by
  intro r hr
  obtain ⟨modelId, q', hloads, hload⟩ | ⟨hloads, hnone | hsame⟩ :=
    ManagerState.resident_step cfg s i
  · rw [hload] at hr
    unfold ManagerStep.request
    rw [hloads]
    obtain ⟨hnone, e, he⟩ | ⟨e, he⟩ | ⟨base, spec, hbase, rfl, hcases⟩ :=
      ManagerState.load_cases cfg i.lib i.now s modelId q'
    · rw [he] at hr
      simp only [hnone]
      exact hs r hr
    · rw [he] at hr
      cases hr
    · simp only [hbase]
      obtain ⟨hholds, he⟩ | ⟨hnot, model, hmodel, he⟩ := hcases
      · -- the copy stays, and so does its request
        rw [if_pos hholds]
        rw [he] at hr
        exact hs r hr
      · rw [if_neg (by simp [hnot])]
        rw [he] at hr
        obtain rfl := Option.some.inj hr
        exact ⟨base, hbase, rfl, quantised_eq_of_loadModel hcfg hlib hmodel⟩
  · rw [hnone] at hr
    cases hr
  · rw [hsame] at hr
    unfold ManagerStep.request
    rw [hloads]
    exact hs r hr

theorem builtFor_recordRun (hcfg : cfg.CanQuantise) {calls : List ManagerStep}
    (hlibs : ∀ i ∈ calls, i.lib.CanQuantise) :
    (recordRun cfg calls).1.BuiltFor cfg (recordRun cfg calls).2 := by
  unfold recordRun
  induction calls using List.reverseRecOn with
  | nil => exact fun r hr => nomatch hr
  | append_singleton calls i ih =>
    rw [List.foldl_append, List.foldl_cons, List.foldl_nil]
    apply builtFor_step hcfg (hlibs i (by simp))
    exact ih fun j hj => hlibs j (List.mem_append_left [i] hj)

/-- A batch is computed at the precision that its copy's request comes to. -/
theorem quantised_of_serve (hcfg : cfg.CanQuantise) {lib : Libraries} {now : ℚ}
    (hlib : lib.CanQuantise) (hs : s.BuiltFor cfg q) {modelId : String} {spec : ModelSpec}
    (hspec : cfg.registry.getSpec modelId = some spec) {model : ServedModel}
    (hserve : (s.serve cfg lib now modelId).1 = .ok model) :
    model.quantised =
      resolveQuantization spec (if s.loadedModelId = some modelId then q else none) := by
  obtain ⟨r, hr, rfl⟩ := ManagerState.serve_eq_ok (Prod.ext hserve rfl)
  rw [ManagerState.resident_serve] at hr
  by_cases hid : s.loadedModelId = some modelId
  -- the resident copy has its own request, and one that is loaded on demand has none
  · rw [if_pos hid] at hr ⊢
    obtain ⟨base, hbase, hquantized, hmodel⟩ := hs r hr
    have hrid : r.modelId = modelId := by simpa [ManagerState.loadedModelId, hr] using hid
    rw [hrid, hspec] at hbase
    obtain rfl := Option.some.inj hbase
    rw [hmodel, hquantized]
  · rw [if_neg hid] at hr ⊢
    obtain ⟨hnone, -, -⟩ | ⟨e, he⟩ | ⟨base, spec', hbase, rfl, hcases⟩ :=
      ManagerState.load_cases cfg lib now s modelId none
    · rw [hspec] at hnone
      cases hnone
    · rw [he] at hr
      cases hr
    · rw [hspec] at hbase
      obtain rfl := Option.some.inj hbase
      obtain ⟨hholds, -⟩ | ⟨-, model, hload, he⟩ := hcases
      · exact absurd (ManagerState.loaded_of_holds hholds) hid
      · rw [he] at hr
        obtain rfl := Option.some.inj hr
        exact quantised_eq_of_loadModel hcfg hlib hload

end Machine

/-- What a client sends to be computed. -/
inductive Batch where
  | embed (texts : List String)
  | rerank (query : String) (documents : List String)

def Batch.send (r : RemoteClient) : Batch → HttpCoro (List Json)
  | .embed texts => r.encode texts
  | .rerank query documents => r.score query documents

section Served

variable {cfg : ServiceConfig} {authorization : Option String} {lib : Libraries} {now : ℚ}
  {s : ManagerState}

theorem ok_of_items {α : Type} {body : α → Json} {x : Except RemoteExc α} {items : List Json}
    {key : String} (hkey : key = "data" ∨ key = "results")
    (h : (Service.respond body x).items? key = some items) : ∃ a, x = .ok a := by
  cases x with
  | ok a => exact ⟨a, rfl⟩
  | error e =>
    exfalso
    cases e with
    | http code detail =>
      obtain rfl | rfl := hkey
      · have hnone : (Service.respond body (.error (.http code detail))).items? "data" = none := rfl
        rw [hnone] at h
        cases h
      · have hnone : (Service.respond body (.error (.http code detail))).items? "results" = none :=
          rfl
        rw [hnone] at h
        cases h
    | unknownModel msg => cases h
    | modelLoad msg => cases h

theorem serve_of_encode {model : String} {texts : List String} {vectors : List Vec}
    (hne : texts ≠ []) (h : (s.modelManager cfg lib now).encode model texts = .ok vectors) :
    ∃ m, (s.serve cfg lib now model).1 = .ok m := by
  cases hserve : (s.serve cfg lib now model).1 with
  | ok m => exact ⟨m, rfl⟩
  | error e =>
    exfalso
    have hload : (s.modelManager cfg lib now).load model = .error e := by
      show (s.serve cfg lib now model).1.map _ = _
      rw [hserve]
      rfl
    unfold ModelManager.encode at h
    rw [hload, if_neg hne] at h
    split at h <;> cases h

theorem serve_of_embeddings {model : String} {texts : List String} {items : List EmbeddingItem}
    (h : (Service.embeddings cfg authorization lib now s model texts).1 = .ok items) :
    ∃ m, (s.serve cfg lib now model).1 = .ok m := by
  change embeddings (s.modelManager cfg lib now) authorization ⟨model, .many texts⟩ = _ at h
  unfold embeddings at h
  cases hauth : checkAuth (s.modelManager cfg lib now).settings authorization with
  | error e =>
    rw [hauth] at h
    cases h
  | ok u =>
    rw [hauth, ok_bind] at h
    split_ifs at h with hempty hkind
    cases hencode : (s.modelManager cfg lib now).encode model texts with
    | ok vectors => exact serve_of_encode hempty hencode
    | error e =>
      simp only [EmbeddingsInput.texts, hencode] at h
      cases e <;> cases h

theorem serve_of_rerank {model query : String} {documents : List String}
    {items : List RerankResultItem}
    (h : (Service.rerank cfg authorization lib now s model query documents).1 = .ok items) :
    ∃ m, (s.serve cfg lib now model).1 = .ok m := by
  unfold Service.rerank at h
  cases hauth : Service.authorized cfg authorization with
  | error e =>
    rw [hauth] at h
    cases h
  | ok u =>
    simp only [hauth] at h
    split_ifs at h with hempty hkind
    unfold ManagerState.rerank at h
    cases hk : ManagerState.kind cfg model with
    | none => exact absurd hk hkind
    | some kind =>
      cases kind with
      | embed =>
        rw [hk] at h
        cases h
      | rerank =>
        simp only [hk, if_neg hempty] at h
        rcases hserve : s.serve cfg lib now model with ⟨e | m, s'⟩
        · rw [hserve] at h
          cases e <;> cases h
        · exact ⟨m, rfl⟩

/-- A batch that comes back was computed with a model. -/
theorem serve_of_send {turns : ℕ → Turn} {r : RemoteClient} {batch : Batch} {t : ServiceState}
    {results : List Json}
    (h : (run (serviceWorld cfg authorization turns) (batch.send r) t).1 = .ok results) :
    ∃ m, (((turns t.requests).found cfg t.mgr).serve cfg (turns t.requests).lib
      (turns t.requests).now r.name).1 = .ok m := by
  cases batch with
  | embed texts =>
    rw [Batch.send, run_encode_service, embeddings_eq_ok] at h
    obtain ⟨items, hitems, -⟩ := h.read
    obtain ⟨a, ha⟩ := ok_of_items (.inl rfl) hitems
    exact serve_of_embeddings ha
  | rerank query documents =>
    rw [Batch.send, run_score_service, scores_eq_ok] at h
    obtain ⟨rows, hrows, -⟩ := h
    obtain ⟨items, hitems, -⟩ := hrows.read
    obtain ⟨a, ha⟩ := ok_of_items (.inr rfl) hitems
    exact serve_of_rerank ha

end Served

/-- Quantised builds succeed for the client's requests and for the others' calls. -/
structure Turn.CanQuantise (turn : Turn) : Prop where
  own : turn.lib.CanQuantise
  others : ∀ i ∈ turn.others, i.lib.CanQuantise

def ServiceState.callsBefore (turns : ℕ → Turn) (t : ServiceState) : List ManagerStep :=
  t.calls ++ (turns t.requests).others

section

variable {cfg : ServiceConfig} {authorization : Option String} {turns : ℕ → Turn}

theorem lib_of_calls {lib : Libraries} {now : ℚ} {op : HttpOp} {i : ManagerStep}
    (hi : i ∈ Service.calls cfg authorization lib now op) : i.lib = lib := by
  unfold Service.calls at hi
  cases hauth : Service.authorized cfg authorization with
  | error e =>
    rw [hauth] at hi
    cases hi
  | ok u =>
    rw [hauth] at hi
    cases op <;> simp at hi
    all_goals
      subst hi
      rfl

theorem canQuantise_of_run (cfg : ServiceConfig) (authorization : Option String)
    (hturns : ∀ n, (turns n).CanQuantise) {α : Type} (p : HttpCoro α) :
    ∀ i ∈ (run (serviceWorld cfg authorization turns) p .start).2.calls, i.lib.CanQuantise := by
  refine run_invariant _ (I := fun t : ServiceState => ∀ i ∈ t.calls, i.lib.CanQuantise)
    (fun op t ht i hi => ?_) p (fun i hi => nomatch hi)
  obtain hold | hnew := List.mem_append.mp hi
  · exact ht i hold
  · obtain hother | hown := List.mem_append.mp hnew
    · exact (hturns _).others i hother
    · rw [lib_of_calls hown]
      exact (hturns _).own

/-- A batch that comes back after the model was ensured is computed at the local leg's precision
exactly when the request of its copy resolves to that precision. -/
theorem precision_agrees_iff (hcfg : cfg.CanQuantise) (hturns : ∀ n, (turns n).CanQuantise)
    {r : RemoteClient} {spec : ModelSpec} (hspec : cfg.registry.getSpec r.name = some spec)
    {t : ServiceState} (hensure : run (serviceWorld cfg authorization turns) r.ensureModelLoaded
      .start = (.ok true, t)) {batch : Batch} {results : List Json}
    (hbatch : (run (serviceWorld cfg authorization turns) (batch.send r) t).1 = .ok results) :
    ∃ model, (((turns t.requests).found cfg t.mgr).serve cfg (turns t.requests).lib
        (turns t.requests).now r.name).1 = .ok model ∧
      ((model.quantised = true ↔ LocalLeg.wants spec.kind r.quantization = true) ↔
        resolveQuantization spec (servedRequest cfg (t.callsBefore turns) r.name) =
          LocalLeg.wants spec.kind r.quantization) := by
  obtain ⟨model, hmodel⟩ := serve_of_send hbatch
  refine ⟨model, hmodel, ?_⟩
  have hlogged : t.Logged cfg := by
    have hrun : (run (serviceWorld cfg authorization turns) r.ensureModelLoaded .start).2.Logged
        cfg := ServiceState.Logged.run _ rfl
    rwa [hensure] at hrun
  have hcalls : ∀ i ∈ t.callsBefore turns, i.lib.CanQuantise := by
    have hrun := canQuantise_of_run cfg authorization hturns r.ensureModelLoaded
    rw [hensure] at hrun
    intro i hi
    obtain hold | hother := List.mem_append.mp hi
    · exact hrun i hold
    · exact (hturns _).others i hother
  -- the manager that the batch finds is what all calls so far made it
  have hfound : (recordRun cfg (t.callsBefore turns)).1 = (turns t.requests).found cfg t.mgr := by
    rw [recordRun_fst, ServiceState.callsBefore, List.foldl_append, ← hlogged]
    rfl
  have hbuilt := builtFor_recordRun hcfg hcalls
  rw [← hfound] at hmodel
  rw [quantised_of_serve hcfg (hturns _).own hbuilt hspec hmodel, ← Bool.eq_iff_iff]
  exact Iff.rfl

end

def quietTurn : Turn := ⟨[], plainLibraries true, 1⟩

/-- A service with a GPU that one client has to itself. -/
abbrev quietService : World HttpOp (fun _ => HttpResponse) PyExc ServiceState :=
  serviceWorld (plainService "cuda") none fun _ => quietTurn

def rerankerClient (quantization : String) : RemoteClient :=
  ⟨rerankerSpec.id, true, "/models", some quantization⟩

def afterEnsure (quantization : String) : ServiceState :=
  (run quietService (rerankerClient quantization).ensureModelLoaded .start).2

/-- The model that computes the client's next batch. -/
def nextModel (quantization : String) : Except RemoteExc ServedModel :=
  ((quietTurn.found (plainService "cuda") (afterEnsure quantization).mgr).serve
    (plainService "cuda") quietTurn.lib quietTurn.now rerankerSpec.id).1

theorem quietTurn_canQuantise : quietTurn.CanQuantise := ⟨fun _ => rfl, nofun⟩

theorem precision_agrees_iff_int4 : ∃ model, nextModel "int4" = .ok model ∧
    (model.quantised = true ↔ LocalLeg.wants .rerank (some "int4") = true) := by
  have hensure : run quietService (rerankerClient "int4").ensureModelLoaded .start =
      (.ok true, afterEnsure "int4") := Prod.ext (by decide +kernel) rfl
  have hbatch : (run quietService ((Batch.rerank "q" ["d"]).send (rerankerClient "int4"))
      (afterEnsure "int4")).1 = .ok [.float 0] := by rfl
  obtain ⟨model, hmodel, hiff⟩ := precision_agrees_iff ⟨rfl, rfl⟩ (fun _ => quietTurn_canQuantise)
    (getSpec_rerankerSpec "cuda") hensure hbatch
  exact ⟨model, hmodel, hiff.mpr (by decide +kernel)⟩

/-- A reranker that is configured with int8 runs at int4 remotely, and at full precision
locally. -/
theorem int8_reranks_at_int4 :
    (run quietService (rerankerClient "int8").ensureModelLoaded .start).1 = .ok true ∧
      (run quietService ((Batch.rerank "q" ["d"]).send (rerankerClient "int8"))
        (afterEnsure "int8")).1 = .ok [.float 0] ∧
      ∃ model, nextModel "int8" = .ok model ∧
        ¬ (model.quantised = true ↔ LocalLeg.wants .rerank (some "int8") = true) := by
  refine ⟨by decide +kernel, by rfl, ⟨true, plainWeights⟩, by rfl, ?_⟩
  have hlocal : LocalLeg.wants .rerank (some "int8") = false := by decide
  simp [hlocal]

end RagPipeline
