import RagPipeline.Lib.Runs
import RagPipeline.Remote.Service

namespace RagPipeline

namespace ManagerState

variable {cfg : ServiceConfig} {lib : Libraries} {now : ℚ} {s : ManagerState}

/-- The resident weights were built with a quantization config. -/
def Quantised (s : ManagerState) : Prop := ∃ r, s.resident = some r ∧ r.model.quantised = true

/-- Wherever the service reports the precision of its resident model, it reports the one that was
applied. -/
structure ReportsPrecision (cfg : ServiceConfig) (s : ManagerState) : Prop where
  applied : (s.appliedQuantization cfg).isSome ↔ s.Quantised
  listed : ∀ e ∈ s.states cfg, e.state = "loaded" → (e.quantization.isSome ↔ s.Quantised)

/-- The recorded precision is the one that was built. -/
def Recorded (s : ManagerState) : Prop :=
  ∀ r, s.resident = some r → r.model.quantised = r.quantized

theorem isSome_appliedQuantization : (s.appliedQuantization cfg).isSome ↔
    ∃ r, s.resident = some r ∧ r.quantized = true := by
  unfold appliedQuantization
  cases s.resident with
  | none => simp
  | some r => cases hq : r.quantized <;> simp [hq]

theorem quantization_of_listed {e : ModelEntry} (he : e ∈ s.states cfg) (hl : e.state = "loaded") :
    e.quantization = s.appliedQuantization cfg := by
  obtain ⟨spec, -, rfl⟩ := List.mem_map.mp he
  by_cases hid : some spec.id = s.loadedModelId
  · exact if_pos hid
  · simp [hid] at hl

theorem reportsPrecision_iff : s.ReportsPrecision cfg ↔ s.Recorded := by
  constructor
  · intro h r hr
    have happlied := h.applied
    rw [isSome_appliedQuantization] at happlied
    unfold Quantised at happlied
    simp only [hr, Option.some.injEq, exists_eq_left'] at happlied
    exact Bool.eq_iff_iff.mpr happlied.symm
  · intro h
    have happlied : (s.appliedQuantization cfg).isSome ↔ s.Quantised := by
      rw [isSome_appliedQuantization]
      apply exists_congr
      intro r
      apply and_congr_right
      intro hr
      rw [h r hr]
    refine ⟨happlied, fun e he hl => ?_⟩
    rw [quantization_of_listed he hl]
    exact happlied

end ManagerState

section Build

variable {lib : Libraries}

theorem buildWeights_of_loadModel {settings : ServiceSettings} {spec : ModelSpec}
    {model : ServedModel} (h : loadModel settings lib spec = .ok model) :
    buildWeights settings lib spec = .ok model := by
  unfold loadModel at h
  cases hload : defaultLoader settings lib spec with
  | error e => simp [hload] at h
  | ok model' =>
    have hmodel : model' = model := by
      cases hk : spec.kind with
      | rerank => simpa [hload, hk] using h
      | embed =>
        simp only [hload, hk] at h
        cases hdim : verifyDim lib spec with
        | error e => simp [hdim] at h
        | ok u => simpa [hdim] using h
    subst hmodel
    unfold defaultLoader at hload
    cases hk : spec.kind with
    | embed => simpa [hk, loadEmbedder] using hload
    | rerank =>
      simp only [hk, loadReranker] at hload
      rcases hb : buildWeights settings lib spec with e | built
      · rw [hb] at hload
        cases hload
      · rw [hb] at hload
        rcases htok : lib.tokenizer spec.repoId with e | u
        · simp [htok] at hload
        · simpa [htok] using hload

theorem quantised_of_full {repoId : String} {model : ServedModel}
    (h : (lib.build repoId false).map (ServedModel.mk false) = .ok model) :
    model.quantised = false := by
  cases hfull : lib.build repoId false with
  | error e => simp [hfull, Except.map] at h
  | ok weights =>
    simp only [hfull, Except.map, Except.ok.injEq] at h
    subst h
    rfl

/-- What is loaded is quantised exactly when the spec and the settings ask for it and that build
works. -/
theorem quantised_of_loadModel {settings : ServiceSettings} {spec : ModelSpec}
    {model : ServedModel} (h : loadModel settings lib spec = .ok model) :
    model.quantised = true ↔
      wantQuant settings spec = true ∧ (lib.build spec.repoId true).isOk = true := by
  have hbuild := buildWeights_of_loadModel h
  unfold buildWeights at hbuild
  by_cases hwant : wantQuant settings spec = true
  · rw [if_pos hwant] at hbuild
    cases htrue : lib.build spec.repoId true with
    | ok weights =>
      simp only [htrue] at hbuild
      obtain rfl := Except.ok.inj hbuild
      simp [hwant]
    | error e =>
      -- the build that failed is tried again at full precision
      simp only [htrue] at hbuild
      simp [quantised_of_full hbuild]
  · rw [if_neg hwant] at hbuild
    simp [quantised_of_full hbuild, hwant]

theorem wantQuant_iff {settings : ServiceSettings} {spec : ModelSpec} :
    wantQuant settings spec = true ↔
      spec.quantize = true ∧ settings.enableQuantization = true ∧ settings.device = "cuda" := by
  simp [wantQuant, and_assoc]

end Build

/-- When the load that a step makes returns, the service reports the precision it applied: asked
about it, and in the response to the load. -/
structure ManagerStep.Truthful (cfg : ServiceConfig) (s : ManagerState) (i : ManagerStep) :
    Prop where
  reports : ∀ modelId q spec, i.loads cfg s = some (modelId, q) →
    (s.load cfg i.lib i.now modelId q).1 = .ok spec →
      (s.load cfg i.lib i.now modelId q).2.ReportsPrecision cfg
  answers : ∀ authorization modelId q resp, i.loads cfg s = some (modelId, q) →
    (Service.loadModel cfg authorization i.lib i.now s modelId q).1 = .ok resp →
      (resp.quantization.isSome ↔ (s.load cfg i.lib i.now modelId q).2.Quantised)

/-- Where the load that a step makes has to build quantised weights, quantisation is enabled, the
device is a GPU and the build works. -/
def ManagerStep.Honoured (cfg : ServiceConfig) (s : ManagerState) (i : ManagerStep) : Prop :=
  ∀ modelId q spec, i.loads cfg s = some (modelId, q) →
    (s.load cfg i.lib i.now modelId q).1 = .ok spec → s.holds modelId spec.quantize = false →
      spec.quantize = true →
        cfg.settings.enableQuantization = true ∧ cfg.settings.device = "cuda" ∧
          (i.lib.build spec.repoId true).isOk = true

open ManagerState

variable {cfg : ServiceConfig} {s : ManagerState} {i : ManagerStep}

theorem quantization_of_response {authorization q : Option String} {modelId : String}
    {resp : ModelActionResponse} {lib : Libraries} {now : ℚ}
    (h : (Service.loadModel cfg authorization lib now s modelId q).1 = .ok resp) :
    (∃ spec, (s.load cfg lib now modelId q).1 = .ok spec) ∧
      resp.quantization = (s.load cfg lib now modelId q).2.appliedQuantization cfg := by
  unfold Service.loadModel at h
  cases hauth : Service.authorized cfg authorization with
  | error e => simp [hauth] at h
  | ok u =>
    rcases hload : s.load cfg lib now modelId q with ⟨e | spec, s'⟩
    · cases e <;> simp [hauth, hload] at h
    · simp only [hauth, hload, Except.ok.injEq] at h
      subst h
      exact ⟨⟨spec, rfl⟩, rfl⟩

theorem truthful_iff : i.Truthful cfg s ↔ ∀ modelId q spec, i.loads cfg s = some (modelId, q) →
    (s.load cfg i.lib i.now modelId q).1 = .ok spec →
      (s.load cfg i.lib i.now modelId q).2.Recorded := by
  constructor
  · intro h modelId q spec hloads hok
    exact reportsPrecision_iff.mp (h.reports modelId q spec hloads hok)
  · intro h
    refine ⟨fun modelId q spec hloads hok => reportsPrecision_iff.mpr (h modelId q spec hloads hok),
      fun authorization modelId q resp hloads hresp => ?_⟩
    obtain ⟨⟨spec, hok⟩, hq⟩ := quantization_of_response hresp
    rw [hq]
    exact (reportsPrecision_iff.mpr (h modelId q spec hloads hok)).applied

/-- A load that returns records the precision of what it built, unless quantised weights were asked
for and could not be built. -/
theorem recorded_load_iff (hs : s.Recorded) {lib : Libraries} {now : ℚ} {modelId : String}
    {q : Option String} {spec : ModelSpec}
    (hok : (s.load cfg lib now modelId q).1 = .ok spec) :
    (s.load cfg lib now modelId q).2.Recorded ↔
      (s.holds modelId spec.quantize = false → spec.quantize = true →
        cfg.settings.enableQuantization = true ∧ cfg.settings.device = "cuda" ∧
          (lib.build spec.repoId true).isOk = true) := by
  obtain ⟨-, e, he⟩ | ⟨e, he⟩ | ⟨base, spec', -, -, hcases⟩ := load_cases cfg lib now s modelId q
  · rw [he] at hok
    cases hok
  · rw [he] at hok
    cases hok
  · obtain ⟨hholds, he⟩ | ⟨hnot, model, hmodel, he⟩ := hcases
    · -- the resident copy is kept
      rw [he] at hok ⊢
      obtain rfl := Except.ok.inj hok
      rw [hholds]
      exact iff_of_true hs nofun
    · rw [he] at hok ⊢
      obtain rfl := Except.ok.inj hok
      have hrecorded : ManagerState.Recorded ⟨some ⟨modelId, model, spec'.quantize⟩, now⟩ ↔
          model.quantised = spec'.quantize := by
        simp [ManagerState.Recorded]
      rw [hrecorded, imp_iff_right hnot, Bool.eq_iff_iff, quantised_of_loadModel hmodel,
        wantQuant_iff]
      tauto

/-- One step, from a state whose precision is recorded. -/
theorem truthful_iff_honoured (hs : s.Recorded) : i.Truthful cfg s ↔ i.Honoured cfg s := by
  rw [truthful_iff]
  apply forall₃_congr
  intro modelId q spec
  apply forall₂_congr
  intro _ hok
  exact recorded_load_iff hs hok

theorem recorded_step (hs : s.Recorded) (h : i.Truthful cfg s) : (s.step cfg i).Recorded := by
  intro r hr
  obtain ⟨modelId, q, hloads, hload⟩ | ⟨-, hnone | hsame⟩ := resident_step cfg s i
  · rw [hload] at hr
    obtain ⟨-, e, he⟩ | ⟨e, he⟩ | ⟨base, spec, -, -, hcases⟩ :=
      load_cases cfg i.lib i.now s modelId q
    · rw [he] at hr
      exact hs r hr
    · rw [he] at hr
      cases hr
    · have hok : (s.load cfg i.lib i.now modelId q).1 = .ok spec := by
        obtain ⟨-, he⟩ | ⟨-, model, -, he⟩ := hcases <;> rw [he]
      exact truthful_iff.mp h modelId q spec hloads hok r hr
  · rw [hnone] at hr
    cases hr
  · rw [hsame] at hr
    exact hs r hr

/-- In every run of calls, after every load that returns the service reports the precision it
applied exactly when every load that had to quantise could. -/
theorem reports_precision_iff (cfg : ServiceConfig) (steps : List ManagerStep) :
    Runs.Each (fun s i _ => ManagerStep.Truthful cfg s i) .start
        (Runs.trace (ManagerState.step cfg) .start steps) ↔
      Runs.Each (fun s i _ => ManagerStep.Honoured cfg s i) .start
        (Runs.trace (ManagerState.step cfg) .start steps) := by
  have hstart : ManagerState.start.Recorded := fun r hr => nomatch hr
  refine Runs.each_trace_congr (P := fun s i _ => ManagerStep.Truthful cfg s i)
    (Q := fun s i _ => ManagerStep.Honoured cfg s i) (fun s i hs => truthful_iff_honoured hs)
    (fun s i hs h => ?_) hstart steps
  exact recorded_step hs ((truthful_iff_honoured hs).mpr h)

def plainWeights : Weights :=
  ⟨fun texts => texts.map fun _ => [], fun _ documents => documents.map fun _ => 0⟩

def plainLibraries (quantises : Bool) : Libraries where
  build _ quantised :=
    if quantised && !quantises then .error (.other "No module named 'bitsandbytes'")
    else .ok plainWeights
  tokenizer _ := .ok ()
  probe _ := .ok []

def plainService (device : String) : ServiceConfig where
  settings := ⟨⟨"", 32⟩, device, true, 900⟩
  registry := modelRegistry

def rerankerSpec : ModelSpec where
  id := "text-rerank-qwen3-reranker-0.6b"
  repoId := "Qwen/Qwen3-Reranker-0.6B"
  kind := .rerank
  quantize := true

theorem getSpec_rerankerSpec (device : String) :
    (plainService device).registry.getSpec rerankerSpec.id = some rerankerSpec := by
  show modelRegistry.getSpec _ = _
  decide +kernel

def loadReranker06b : ManagerStep where
  lib := plainLibraries false
  now := 1
  call := .load rerankerSpec.id none

theorem load_on_cpu : ManagerState.start.load (plainService "cpu") (plainLibraries false) 1
    rerankerSpec.id none =
      (.ok rerankerSpec, ⟨some ⟨rerankerSpec.id, ⟨false, plainWeights⟩, true⟩, 1⟩) := by
  unfold ManagerState.load
  rw [getSpec_rerankerSpec]
  rfl

/-- The registry's precision is asked for and cannot be had, and the service reports int4. -/
theorem cpu_load_reports_int4 :
    ¬ Runs.Each (fun s i _ => ManagerStep.Truthful (plainService "cpu") s i) .start
      (Runs.trace (ManagerState.step (plainService "cpu")) .start [loadReranker06b]) := by
  rintro ⟨htruthful, -⟩
  have hrecorded := truthful_iff.mp htruthful rerankerSpec.id none rerankerSpec rfl
    (congrArg Prod.fst load_on_cpu)
  have hload : (ManagerState.start.load (plainService "cpu") (plainLibraries false) 1
      rerankerSpec.id none).2.resident =
        some ⟨rerankerSpec.id, ⟨false, plainWeights⟩, true⟩ := by
    rw [load_on_cpu]
  exact Bool.false_ne_true (hrecorded _ hload)

end RagPipeline
