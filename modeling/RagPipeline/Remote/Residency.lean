import Mathlib.Algebra.Order.Ring.Rat
import Mathlib.Data.Nat.Cast.Order.Basic
import RagPipeline.Lib.Crash
import RagPipeline.Remote.Manager

namespace RagPipeline
open Coro

inductive ManagerExc where
  | unknownModel (msg : String)
  | modelLoad (msg : String)
  | raised (exc : PyExc)

def ManagerExc.str : ManagerExc → String
  | unknownModel m => m
  | modelLoad m => m
  | raised e => e.str

/-- `_model`, `_model_id`, `_quantized` and `_last_used_at`. -/
structure ManagerFields (M : Type) where
  model : Option M
  modelId : Option String
  quantized : Bool
  lastUsedAt : ℚ

inductive ManagerOp (M : Type) where
  | get
  | set (fields : ManagerFields M)
  | loader (spec : ModelSpec)
  | encode (model : M) (texts : List String)
  | score (model : M) (query : String) (documents : List String)
  | clock

abbrev ManagerOp.Ans {M : Type} : ManagerOp M → Type
  | .get => ManagerFields M
  | .set _ => Unit
  | .loader _ => M
  | .encode _ _ => List Vec
  | .score _ _ _ => List ℚ
  | .clock => ℚ

abbrev ManagerCoro (M : Type) := Coro (ManagerOp M) ManagerOp.Ans ManagerExc

abbrev awaitManager {M : Type} (op : ManagerOp M) : ManagerCoro M op.Ans := call op

namespace ManagerCoro

variable {M : Type} (cfg : ServiceConfig)

def modify (f : ManagerFields M → ManagerFields M) : ManagerCoro M Unit := do
  let fields ← awaitManager .get
  awaitManager (.set (f fields))

def release : ManagerCoro M Unit :=
  modify fun fields => { fields with model := none, modelId := none, quantized := false }

def touch : ManagerCoro M Unit := do
  let now ← awaitManager .clock
  modify fun fields => { fields with lastUsedAt := now }

/-- `_verify_dim`. -/
def verifyDim (spec : ModelSpec) (model : M) : ManagerCoro M Unit :=
  (awaitManager (.encode model ["dimension probe"])).capture >>= fun
    | .error exc =>
      raise (.modelLoad ("'" ++ spec.id ++ "' failed its probe encode: " ++ exc.str))
    | .ok probe =>
      let actual := (probe.head?.map List.length).getD 0
      if actual = spec.dim then ret ()
      else raise (.modelLoad ("'" ++ spec.id ++ "' produced " ++ toString actual ++
        "-dim vectors but the registry declares " ++ toString spec.dim ++
        "; refusing to serve it"))

def verify (spec : ModelSpec) (model : M) : ManagerCoro M Unit :=
  match spec.kind with
  | .embed => verifyDim spec model
  | .rerank => ret ()

/-- `load`, once nothing is resident. -/
def install (modelId : String) (spec : ModelSpec) : ManagerCoro M ModelSpec :=
  (awaitManager (.loader spec)).capture >>= fun
    | .error exc => raise (.modelLoad ("failed to load '" ++ modelId ++ "': " ++ exc.str))
    | .ok model => do
      verify spec model
      modify fun fields =>
        { fields with model := some model, modelId := some modelId, quantized := spec.quantize }
      touch
      ret spec

def releaseIf (p : Option String → Bool) : ManagerCoro M Unit :=
  awaitManager .get >>= fun fields => if p fields.modelId then release else ret ()

def evict (modelId : String) : ManagerCoro M Unit := do
  releaseIf fun resident => resident = some modelId
  releaseIf fun resident => resident ≠ none

def load (modelId : String) (quantization : Option String) : ManagerCoro M ModelSpec :=
  match cfg.registry.getSpec modelId with
  | none => raise (.unknownModel modelId)
  | some base =>
    let wantQuant := resolveQuantization base quantization
    let spec := { base with quantize := wantQuant }
    awaitManager .get >>= fun fields =>
      if fields.modelId = some modelId ∧ fields.quantized = wantQuant then do
        touch
        ret spec
      else do
        evict modelId
        install modelId spec

def unload (modelId : Option String) : ManagerCoro M Bool :=
  awaitManager .get >>= fun fields =>
    match fields.modelId with
    | none => ret false
    | some resident =>
      if modelId.all (· = resident) then do
        release
        ret true
      else ret false

/-- The load that a batch makes when its model is not resident. -/
def loadOnDemand (modelId : String) : ManagerCoro M Unit :=
  awaitManager .get >>= fun fields =>
    if fields.modelId = some modelId then ret ()
    else do
      let _ ← load cfg modelId none
      ret ()

/-- `model = self._model`, and the `assert` that there is one. -/
def resident : ManagerCoro M M :=
  awaitManager .get >>= fun fields =>
    match fields.model with
    | none => raise (.raised (.other "AssertionError"))
    | some model => ret model

def encodeBatches (model : M) : List (List String) → ManagerCoro M (List Vec)
  | [] => ret []
  | batch :: batches => do
    let raw ← awaitManager (.encode model batch)
    let rest ← encodeBatches model batches
    ret (raw ++ rest)

/-- What both kinds of work do: the clock is read for the log line before and after. -/
def work {α : Type} (modelId : String) (use : M → ManagerCoro M α) : ManagerCoro M α := do
  let _ ← awaitManager .clock
  loadOnDemand cfg modelId
  let model ← resident
  let result ← use model
  touch
  let _ ← awaitManager .clock
  ret result

def encode (modelId : String) (texts : List String) : ManagerCoro M (List Vec) :=
  match (cfg.registry.getSpec modelId).map ModelSpec.kind with
  | none => raise (.unknownModel modelId)
  | some .rerank =>
    raise (.unknownModel ("'" ++ modelId ++ "' is a kind='rerank' model — " ++
      "POST /v1/embeddings only serves kind='embed' models. Use POST /rerank instead."))
  | some .embed =>
    if texts = [] then ret []
    else
      let size := (max 1 cfg.settings.maxBatchSize).toNat
      work cfg modelId (fun model => encodeBatches model (subBatches size texts)) >>=
        fun vectors =>
          if vectors.length = texts.length then ret vectors
          else raise (.modelLoad ("'" ++ modelId ++ "' returned " ++ toString vectors.length ++
            " vectors for " ++ toString texts.length ++ " inputs"))

def rerank (modelId query : String) (documents : List String) : ManagerCoro M (List ℚ) :=
  match (cfg.registry.getSpec modelId).map ModelSpec.kind with
  | none => raise (.unknownModel modelId)
  | some .embed =>
    raise (.unknownModel ("'" ++ modelId ++ "' is a kind='embed' model — POST /rerank only " ++
      "serves kind='rerank' models. Use POST /v1/embeddings instead."))
  | some .rerank =>
    if documents = [] then ret []
    else
      work cfg modelId (fun model => awaitManager (.score model query documents)) >>= fun scores =>
        if scores.length = documents.length then ret scores
        else raise (.modelLoad ("'" ++ modelId ++ "' returned " ++ toString scores.length ++
          " scores for " ++ toString documents.length ++ " documents"))

def reapOnce : ManagerCoro M Bool :=
  if cfg.settings.idleUnloadS ≤ 0 then ret false
  else
    awaitManager .get >>= fun fields =>
      match fields.modelId with
      | none => ret false
      | some _ =>
        awaitManager .clock >>= fun now =>
          if now - fields.lastUsedAt < cfg.settings.idleUnloadS then ret false
          else do
            release
            ret true

end ManagerCoro

def ManagerCall.program {M : Type} (cfg : ServiceConfig) : ManagerCall → ManagerCoro M Unit
  | .load modelId quantization => ManagerCoro.load cfg modelId quantization >>= fun _ => ret ()
  | .unload modelId => ManagerCoro.unload modelId >>= fun _ => ret ()
  | .reapOnce => ManagerCoro.reapOnce cfg >>= fun _ => ret ()
  | .encode modelId texts => ManagerCoro.encode cfg modelId texts >>= fun _ => ret ()
  | .rerank modelId query documents =>
    ManagerCoro.rerank cfg modelId query documents >>= fun _ => ret ()

/-- The loader, the models and the clock, each by how many calls were made before. -/
structure Outside (M : Type) where
  loader : ℕ → ModelSpec → Except PyExc M
  encode : ℕ → M → List String → Except PyExc (List Vec)
  score : ℕ → M → String → List String → Except PyExc (List ℚ)
  clock : ℕ → ℚ

structure ResidencyState (M : Type) where
  fields : ManagerFields M
  /-- The calls to the outside so far. -/
  calls : ℕ

namespace ResidencyState

variable {M : Type} (cfg : ServiceConfig) (out : Outside M) (s : ResidencyState M)

def start : ResidencyState M := ⟨⟨none, none, false, 0⟩, 0⟩

def called : ResidencyState M := { s with calls := s.calls + 1 }

def world : World (ManagerOp M) ManagerOp.Ans ManagerExc (ResidencyState M)
  | .get, s => (.ok s.fields, s)
  | .set fields, s => (.ok (), { s with fields })
  | .loader spec, s => ((out.loader s.calls spec).mapError .raised, s.called)
  | .encode model texts, s => ((out.encode s.calls model texts).mapError .raised, s.called)
  | .score model query documents, s =>
    ((out.score s.calls model query documents).mapError .raised, s.called)
  | .clock, s => (.ok (out.clock s.calls), s.called)

def step (c : ManagerCall) : ResidencyState M := (run (world out) (c.program cfg) s).2

def after (calls : List ManagerCall) : ResidencyState M := calls.foldl (step cfg out) start

/-- Nothing is resident. -/
def Empty : Prop := s.fields.model = none ∧ s.fields.modelId = none

/-- The loader returned the model for the spec of that id at that precision, and an embedding model
then passed the check of its dimension. -/
def LoadedAs (model : M) (modelId : String) (quantized : Bool) : Prop :=
  ∃ base k, cfg.registry.getSpec modelId = some base ∧ k < s.calls ∧
    out.loader k { base with quantize := quantized } = .ok model ∧
      (base.kind = .embed → k + 1 < s.calls ∧
        ∃ probe, out.encode (k + 1) model ["dimension probe"] = .ok probe ∧
          (probe.head?.map List.length).getD 0 = base.dim)

/-- The model and its id are there together, and the model is what its id and precision say. -/
structure WellFormed : Prop where
  absent_iff : s.fields.model = none ↔ s.fields.modelId = none
  loadedAs : ∀ model modelId, s.fields.model = some model → s.fields.modelId = some modelId →
    s.LoadedAs cfg out model modelId s.fields.quantized

/-- At every await the state is well formed, and nothing is resident when the loader is called. -/
def AtAwait (op : ManagerOp M) (s : ResidencyState M) : Prop :=
  s.WellFormed cfg out ∧ ∀ spec, op = .loader spec → s.Empty

end ResidencyState

/-- The calls that mark their model as used when they succeed; a batch of nothing does no work. -/
def ManagerCall.Uses : ManagerCall → Prop
  | .load _ _ => True
  | .encode _ texts => texts ≠ []
  | .rerank _ _ documents => documents ≠ []
  | .unload _ | .reapOnce => False

/-- The reading of the clock with which a successful call that ended there marked its use. A batch
reads the clock once more for its log line. -/
def ManagerCall.markedAt {M : Type} (out : Outside M) (t : ResidencyState M) : ManagerCall → ℚ
  | .load _ _ => out.clock (t.calls - 1)
  | _ => out.clock (t.calls - 2)

namespace ResidencyState

variable {M : Type} {cfg : ServiceConfig} {out : Outside M} {s t u : ResidencyState M}

def released (s : ResidencyState M) : ResidencyState M :=
  { s with fields := { s.fields with model := none, modelId := none, quantized := false } }

def touched (out : Outside M) (s : ResidencyState M) : ResidencyState M where
  fields := { s.fields with lastUsedAt := out.clock s.calls }
  calls := s.calls + 1

theorem LoadedAs.mono {model : M} {modelId : String} {quantized : Bool}
    (h : s.LoadedAs cfg out model modelId quantized) (hcalls : s.calls ≤ t.calls) :
    t.LoadedAs cfg out model modelId quantized := by
  obtain ⟨base, k, hspec, hk, hloader, hprobe⟩ := h
  refine ⟨base, k, hspec, by omega, hloader, fun hkind => ?_⟩
  obtain ⟨hk', probe, hencode, hdim⟩ := hprobe hkind
  exact ⟨by omega, probe, hencode, hdim⟩

/-- Calls to the outside, and the time of the last use, do not matter. -/
theorem WellFormed.mono (h : s.WellFormed cfg out) (hmodel : t.fields.model = s.fields.model)
    (hid : t.fields.modelId = s.fields.modelId) (hquant : t.fields.quantized = s.fields.quantized)
    (hcalls : s.calls ≤ t.calls) : t.WellFormed cfg out where
  absent_iff := by rw [hmodel, hid, h.absent_iff]
  loadedAs := by
    intro model modelId hm hi
    rw [hmodel] at hm
    rw [hid] at hi
    rw [hquant]
    exact (h.loadedAs model modelId hm hi).mono hcalls

theorem WellFormed.of_fields_eq (h : s.WellFormed cfg out) (hfields : t.fields = s.fields)
    (hcalls : s.calls ≤ t.calls) : t.WellFormed cfg out :=
  h.mono (by rw [hfields]) (by rw [hfields]) (by rw [hfields]) hcalls

theorem WellFormed.touched (h : s.WellFormed cfg out) : (s.touched out).WellFormed cfg out :=
  h.mono rfl rfl rfl (Nat.le_succ _)

theorem WellFormed.of_empty (h : s.Empty) : s.WellFormed cfg out where
  absent_iff := iff_of_true h.1 h.2
  loadedAs _ _ hm _ := nomatch h.1.symm.trans hm

theorem empty_released (s : ResidencyState M) : s.released.Empty := ⟨rfl, rfl⟩

theorem WellFormed.empty (h : s.WellFormed cfg out) (hid : s.fields.modelId = none) : s.Empty :=
  ⟨h.absent_iff.mpr hid, hid⟩

variable (out) in
/-- The time of the last use stays, or a later reading of the clock takes its place. -/
structure Advances (s t : ResidencyState M) : Prop where
  calls : s.calls ≤ t.calls
  lastUsedAt : t.fields.lastUsedAt = s.fields.lastUsedAt ∨
    ∃ k, s.calls ≤ k ∧ t.fields.lastUsedAt = out.clock k

theorem Advances.refl (s : ResidencyState M) : Advances out s s := ⟨le_refl _, .inl rfl⟩

theorem Advances.trans (h : Advances out s t) (h' : Advances out t u) : Advances out s u := by
  refine ⟨le_trans h.calls h'.calls, ?_⟩
  obtain hstay | ⟨k, hk, hlast⟩ := h'.lastUsedAt
  · rw [hstay]
    exact h.lastUsedAt
  · exact .inr ⟨k, le_trans h.calls hk, hlast⟩

theorem Advances.of_fields_eq (hfields : t.fields = s.fields) (hcalls : s.calls ≤ t.calls) :
    Advances out s t := ⟨hcalls, .inl (by rw [hfields])⟩

theorem advances_released (s : ResidencyState M) : Advances out s s.released :=
  ⟨le_refl _, .inl rfl⟩

theorem advances_touched (s : ResidencyState M) : Advances out s (s.touched out) :=
  ⟨Nat.le_succ _, .inr ⟨s.calls, le_refl _, rfl⟩⟩

open ManagerCoro

/-- From a well-formed state, every await of the program is as it should be, and it ends so. -/
abbrev Ends {α : Type} (cfg : ServiceConfig) (out : Outside M)
    (Q : Except ManagerExc α → ResidencyState M → Prop) (p : ManagerCoro M α)
    (s : ResidencyState M) : Prop := Covers (world out) (AtAwait cfg out) Q p s

section Methods

variable {α : Type} {Q : Except ManagerExc α → ResidencyState M → Prop}

theorem ends_get_bind (h : s.WellFormed cfg out) {f : ManagerFields M → ManagerCoro M α}
    (hf : Ends cfg out Q (f s.fields) s) : Ends cfg out Q (awaitManager .get >>= f) s :=
  (covers_call_bind _ _).mpr ⟨⟨h, nofun⟩, hf⟩

theorem ends_clock_bind (h : s.WellFormed cfg out) {f : ℚ → ManagerCoro M α}
    (hf : Ends cfg out Q (f (out.clock s.calls)) s.called) :
    Ends cfg out Q (awaitManager .clock >>= f) s :=
  (covers_call_bind _ _).mpr ⟨⟨h, nofun⟩, hf⟩

theorem ends_modify {Q : Except ManagerExc Unit → ResidencyState M → Prop}
    (h : s.WellFormed cfg out) {f : ManagerFields M → ManagerFields M}
    (hQ : Q (.ok ()) { s with fields := f s.fields }) : Ends cfg out Q (modify f) s :=
  ends_get_bind h ((covers_call _ _).mpr ⟨⟨h, nofun⟩, hQ⟩)

theorem ends_release {Q : Except ManagerExc Unit → ResidencyState M → Prop}
    (h : s.WellFormed cfg out) (hQ : Q (.ok ()) s.released) : Ends cfg out Q release s :=
  ends_modify h hQ

theorem ends_touch {Q : Except ManagerExc Unit → ResidencyState M → Prop}
    (h : s.WellFormed cfg out) (hQ : Q (.ok ()) (s.touched out)) : Ends cfg out Q touch s := by
  have hcalled : s.called.WellFormed cfg out := h.of_fields_eq rfl (Nat.le_succ _)
  exact ends_clock_bind h (ends_modify hcalled hQ)

end Methods

theorem ends_releaseIf {Q : Except ManagerExc Unit → ResidencyState M → Prop}
    (h : s.WellFormed cfg out) (p : Option String → Bool)
    (hyes : p s.fields.modelId = true → Q (.ok ()) s.released)
    (hno : p s.fields.modelId = false → Q (.ok ()) s) : Ends cfg out Q (releaseIf p) s := by
  apply ends_get_bind h
  cases hp : p s.fields.modelId with
  | true => exact ends_release h (hyes hp)
  | false => exact hno hp

theorem ends_evict (h : s.WellFormed cfg out) (modelId : String) :
    Ends cfg out (fun r t => r = .ok () ∧ t.Empty ∧ Advances out s t) (evict modelId) s := by
  unfold evict
  refine (covers_bind _ _).mpr (ends_releaseIf h _ (fun _ => ?_) fun _ => ?_)
  · have hreleased : s.released.WellFormed cfg out := .of_empty (empty_released s)
    refine ends_releaseIf hreleased _ (fun _ => ?_) fun _ => ?_
    · exact ⟨rfl, empty_released _, (advances_released s).trans (advances_released _)⟩
    · exact ⟨rfl, empty_released s, advances_released s⟩
  · refine ends_releaseIf h _ (fun _ => ?_) fun hnone => ?_
    · exact ⟨rfl, empty_released s, advances_released s⟩
    · exact ⟨rfl, h.empty (by simpa using hnone), .refl s⟩

/-- An embedding model that is not refused had the right width at the probe. -/
theorem ends_verify (h : s.WellFormed cfg out) (spec : ModelSpec) (model : M) :
    Ends cfg out (fun r t => t.fields = s.fields ∧ s.calls ≤ t.calls ∧
      (r = .ok () → spec.kind = .embed → s.calls < t.calls ∧
        ∃ probe, out.encode s.calls model ["dimension probe"] = .ok probe ∧
          (probe.head?.map List.length).getD 0 = spec.dim)) (verify spec model) s := by
  unfold verify
  cases hkind : spec.kind with
  | rerank => exact ⟨rfl, le_refl _, fun _ => nofun⟩
  | embed =>
    unfold ManagerCoro.verifyDim
    rw [Ends, covers_bind, covers_capture, covers_call]
    refine ⟨⟨h, nofun⟩, ?_⟩
    simp only [world]
    cases hprobe : out.encode s.calls model ["dimension probe"] with
    | error exc => exact ⟨rfl, Nat.le_succ _, nofun⟩
    | ok probe =>
      simp only [Except.mapError]
      by_cases hdim : (probe.head?.map List.length).getD 0 = spec.dim
      · rw [if_pos hdim]
        exact ⟨rfl, Nat.le_succ _, fun _ _ => ⟨Nat.lt_succ_self _, probe, rfl, hdim⟩⟩
      · rw [if_neg hdim]
        exact ⟨rfl, Nat.le_succ _, nofun⟩

/-- How a load ends: it marks the use of what it loaded, or nothing is resident. -/
structure Loaded {α : Type} (cfg : ServiceConfig) (out : Outside M) (s : ResidencyState M)
    (r : Except ManagerExc α) (t : ResidencyState M) : Prop where
  wellFormed : t.WellFormed cfg out
  advances : Advances out s t
  marked : ∀ a, r = .ok a → t.fields.lastUsedAt = out.clock (t.calls - 1)
  empty : ∀ e, r = .error e → t.Empty

theorem ends_install (h : s.Empty) {modelId : String} {base spec : ModelSpec}
    (hspec : cfg.registry.getSpec modelId = some base)
    (hbase : spec = { base with quantize := spec.quantize }) :
    Ends cfg out (Loaded cfg out s) (install modelId spec) s := by
  have hcalled : s.called.Empty := h
  unfold install
  rw [Ends, covers_bind, covers_capture, covers_call]
  refine ⟨⟨.of_empty h, fun _ _ => h⟩, ?_⟩
  simp only [world]
  cases hloader : out.loader s.calls spec with
  | error exc =>
    exact ⟨.of_empty hcalled, .of_fields_eq rfl (Nat.le_succ _), nofun, fun _ _ => hcalled⟩
  | ok model =>
    simp only [Except.mapError]
    refine Covers.bind (ends_verify (.of_empty hcalled) spec model) ?_ ?_
    · rintro ⟨⟩ t ⟨hfields, hcalls, hverified⟩
      have hkind : spec.kind = base.kind := by rw [hbase]
      have hdim : spec.dim = base.dim := by rw [hbase]
      -- the fields are set after the checks, so the state is well formed again
      have hset : WellFormed cfg out ({ t with fields := { t.fields with
          model := some model, modelId := some modelId, quantized := spec.quantize } }) := by
        refine ⟨iff_of_false nofun nofun, ?_⟩
        intro model' modelId' hm hi
        obtain rfl : model = model' := Option.some.inj hm
        obtain rfl : modelId = modelId' := Option.some.inj hi
        refine ⟨base, s.calls, hspec, hcalls, hbase ▸ hloader, fun hembed => ?_⟩
        rw [← hdim]
        exact hverified rfl (hkind.trans hembed)
      have ht : t.WellFormed cfg out := .of_empty (by rwa [Empty, hfields])
      have hadvances : Advances out s t := .of_fields_eq hfields (Nat.le_of_succ_le hcalls)
      refine (covers_bind _ _).mpr (ends_modify ht ?_)
      refine (covers_bind _ _).mpr (ends_touch hset ?_)
      refine ⟨hset.touched, ?_, fun _ _ => rfl, nofun⟩
      exact hadvances.trans ⟨Nat.le_succ _, .inr ⟨t.calls, le_refl _, rfl⟩⟩
    · rintro e t ⟨hfields, hcalls, -⟩
      have hempty : t.Empty := by rwa [Empty, hfields]
      exact ⟨.of_empty hempty, .of_fields_eq hfields (Nat.le_of_succ_le hcalls), nofun,
        fun _ _ => hempty⟩

theorem Loaded.of_advances {α : Type} {r : Except ManagerExc α} (h : Loaded cfg out t r u)
    (hadvances : Advances out s t) : Loaded cfg out s r u :=
  { h with advances := hadvances.trans h.advances }

theorem ends_load (h : s.WellFormed cfg out) (modelId : String) (quantization : Option String) :
    Ends cfg out (fun r t => cfg.registry.getSpec modelId = none ∧
        r = .error (.unknownModel modelId) ∧ t = s ∨
      cfg.registry.getSpec modelId ≠ none ∧ Loaded cfg out s r t)
      (load cfg modelId quantization) s := by
  unfold load
  cases hspec : cfg.registry.getSpec modelId with
  | none => exact .inl ⟨rfl, rfl, rfl⟩
  | some base =>
    refine ends_get_bind h ?_
    split_ifs with hresident
    · refine (covers_bind _ _).mpr (ends_touch h ?_)
      exact .inr ⟨nofun, h.touched, advances_touched s, fun _ _ => rfl, nofun⟩
    · refine Covers.bind (ends_evict h modelId) ?_ ?_
      · rintro - t ⟨-, hempty, hadvances⟩
        refine (ends_install hempty hspec rfl).mono (fun _ _ hC => hC) fun r u hu => ?_
        exact .inr ⟨nofun, hu.of_advances hadvances⟩
      · rintro e t ⟨he, -⟩
        cases he

/-- What every call leaves: a well-formed state, and no earlier time of use. -/
def Keeps (cfg : ServiceConfig) (out : Outside M) (s t : ResidencyState M) : Prop :=
  t.WellFormed cfg out ∧ Advances out s t

theorem ends_load_keeps (h : s.WellFormed cfg out) (modelId : String)
    (quantization : Option String) :
    Ends cfg out (fun _ => Keeps cfg out s) (load cfg modelId quantization) s := by
  refine (ends_load h modelId quantization).mono (fun _ _ hC => hC) ?_
  rintro r t (⟨-, -, rfl⟩ | ⟨-, hloaded⟩)
  · exact ⟨h, .refl t⟩
  · exact ⟨hloaded.wellFormed, hloaded.advances⟩

theorem ends_loadOnDemand (h : s.WellFormed cfg out) (modelId : String) :
    Ends cfg out (fun _ => Keeps cfg out s) (loadOnDemand cfg modelId) s := by
  refine ends_get_bind h ?_
  split_ifs
  · exact ⟨h, .refl s⟩
  · exact Covers.bind (ends_load_keeps h modelId none) (fun _ _ ht => ht) fun _ _ ht => ht

def Works (s t : ResidencyState M) : Prop := t.fields = s.fields ∧ s.calls ≤ t.calls

theorem ends_encodeBatches (h : s.WellFormed cfg out) (model : M) (batches : List (List String)) :
    Ends cfg out (fun _ => Works s) (encodeBatches model batches) s := by
  induction batches generalizing s with
  | nil => exact ⟨rfl, le_refl _⟩
  | cons batch batches ih =>
    have hcalled : s.called.WellFormed cfg out := h.of_fields_eq rfl (Nat.le_succ _)
    unfold encodeBatches
    rw [Ends, covers_call_bind]
    refine ⟨⟨h, nofun⟩, ?_⟩
    simp only [world]
    cases out.encode s.calls model batch with
    | error exc => exact ⟨rfl, Nat.le_succ _⟩
    | ok raw =>
      refine Covers.bind (ih hcalled) ?_ ?_
      · exact fun rest t ht => ⟨ht.1, Nat.le_of_succ_le ht.2⟩
      · exact fun e t ht => ⟨ht.1, Nat.le_of_succ_le ht.2⟩

theorem ends_score (h : s.WellFormed cfg out) (model : M) (query : String)
    (documents : List String) :
    Ends cfg out (fun _ => Works s) (awaitManager (.score model query documents)) s :=
  (covers_call _ _).mpr ⟨⟨h, nofun⟩, rfl, Nat.le_succ _⟩

/-- A batch that returns marks the use with the reading before its last one. -/
def Worked {α : Type} (cfg : ServiceConfig) (out : Outside M) (s : ResidencyState M)
    (r : Except ManagerExc α) (t : ResidencyState M) : Prop :=
  Keeps cfg out s t ∧ ∀ a, r = .ok a → t.fields.lastUsedAt = out.clock (t.calls - 2)

theorem Worked.error {α : Type} {e : ManagerExc} (h : Keeps cfg out s t) :
    Worked cfg out s (.error e : Except ManagerExc α) t := ⟨h, nofun⟩

theorem ends_work {α : Type} (h : s.WellFormed cfg out) (modelId : String)
    {use : M → ManagerCoro M α}
    (huse : ∀ model t, t.WellFormed cfg out → Ends cfg out (fun _ => Works t) (use model) t) :
    Ends cfg out (Worked cfg out s) (work cfg modelId use) s := by
  have hcalled : s.called.WellFormed cfg out := h.of_fields_eq rfl (Nat.le_succ _)
  have hstart : Advances out s s.called := .of_fields_eq rfl (Nat.le_succ _)
  unfold work
  refine ends_clock_bind h ?_
  refine Covers.bind (ends_loadOnDemand hcalled modelId) ?_ ?_
  · rintro - t ⟨ht, hload⟩
    refine (covers_bind _ _).mpr (ends_get_bind ht ?_)
    cases hmodel : t.fields.model with
    | none => exact .error ⟨ht, hstart.trans hload⟩
    | some model =>
      refine Covers.bind (huse model t ht) ?_ ?_
      · rintro result u ⟨hfields, hcalls⟩
        have hu : u.WellFormed cfg out := ht.of_fields_eq hfields hcalls
        have hadvances : Advances out s u :=
          (hstart.trans hload).trans (.of_fields_eq hfields hcalls)
        refine (covers_bind _ _).mpr (ends_touch hu ?_)
        refine ends_clock_bind hu.touched ?_
        refine ⟨⟨hu.touched.of_fields_eq rfl (Nat.le_succ _), ?_⟩, fun _ _ => rfl⟩
        exact hadvances.trans ⟨Nat.le_add_right u.calls 2, .inr ⟨u.calls, le_refl _, rfl⟩⟩
      · rintro e u ⟨hfields, hcalls⟩
        refine .error ⟨ht.of_fields_eq hfields hcalls, ?_⟩
        exact (hstart.trans hload).trans (.of_fields_eq hfields hcalls)
  · rintro e t ⟨ht, hload⟩
    exact .error ⟨ht, hstart.trans hload⟩

/-- The check of the number of results leaves the state. -/
theorem ends_work_checked {α : Type} {use : M → ManagerCoro M α} {modelId : String}
    (hwork : Ends cfg out (Worked cfg out s) (work cfg modelId use) s) (p : α → Prop)
    [DecidablePred p] (e : α → ManagerExc) :
    Ends cfg out (Worked cfg out s)
      (work cfg modelId use >>= fun a => if p a then ret a else raise (e a)) s := by
  refine Covers.bind hwork ?_ ?_
  · intro a t ht
    split_ifs
    · exact ht
    · exact .error ht.1
  · exact fun e t ht => .error ht.1

theorem ends_encode (h : s.WellFormed cfg out) (modelId : String) (texts : List String) :
    Ends cfg out (fun r t => Keeps cfg out s t ∧ (texts ≠ [] → Worked cfg out s r t))
      (encode cfg modelId texts) s := by
  have hrefused : ∀ e, Ends cfg out
      (fun r t => Keeps cfg out s t ∧ (texts ≠ [] → Worked cfg out s r t))
      (raise e : ManagerCoro M (List Vec)) s :=
    fun e => ⟨⟨h, .refl s⟩, fun _ => .error ⟨h, .refl s⟩⟩
  unfold encode
  split
  · exact hrefused _
  · exact hrefused _
  · split_ifs with htexts
    · exact ⟨⟨h, .refl s⟩, absurd htexts⟩
    · have hwork := ends_work h modelId fun model t ht => ends_encodeBatches ht model
        (subBatches (max 1 cfg.settings.maxBatchSize).toNat texts)
      refine (ends_work_checked hwork _ _).mono (fun _ _ hC => hC) ?_
      exact fun r t ht => ⟨ht.1, fun _ => ht⟩

theorem ends_rerank (h : s.WellFormed cfg out) (modelId query : String)
    (documents : List String) :
    Ends cfg out (fun r t => Keeps cfg out s t ∧ (documents ≠ [] → Worked cfg out s r t))
      (rerank cfg modelId query documents) s := by
  have hrefused : ∀ e, Ends cfg out
      (fun r t => Keeps cfg out s t ∧ (documents ≠ [] → Worked cfg out s r t))
      (raise e : ManagerCoro M (List ℚ)) s :=
    fun e => ⟨⟨h, .refl s⟩, fun _ => .error ⟨h, .refl s⟩⟩
  unfold rerank
  split
  · exact hrefused _
  · exact hrefused _
  · split_ifs with hdocuments
    · exact ⟨⟨h, .refl s⟩, absurd hdocuments⟩
    · have hwork := ends_work h modelId fun model t ht => ends_score ht model query documents
      refine (ends_work_checked hwork _ _).mono (fun _ _ hC => hC) ?_
      exact fun r t ht => ⟨ht.1, fun _ => ht⟩

theorem ends_unload (h : s.WellFormed cfg out) (modelId : Option String) :
    Ends cfg out (fun _ => Keeps cfg out s) (unload modelId) s := by
  refine ends_get_bind h ?_
  split
  · exact ⟨h, .refl s⟩
  · split_ifs
    · refine (covers_bind _ _).mpr (ends_release h ?_)
      exact ⟨.of_empty (empty_released s), advances_released s⟩
    · exact ⟨h, .refl s⟩

theorem ends_reapOnce (h : s.WellFormed cfg out) :
    Ends cfg out (fun _ t => Keeps cfg out s t ∧ (t.fields.modelId ≠ s.fields.modelId →
        0 < cfg.settings.idleUnloadS ∧
          cfg.settings.idleUnloadS ≤ out.clock s.calls - s.fields.lastUsedAt))
      (reapOnce cfg) s := by
  unfold reapOnce
  split_ifs with hoff
  · exact ⟨⟨h, .refl s⟩, fun hne => absurd rfl hne⟩
  refine ends_get_bind h ?_
  cases hid : s.fields.modelId with
  | none => exact ⟨⟨h, .refl s⟩, fun hne => absurd hid hne⟩
  | some modelId =>
    have hcalled : s.called.WellFormed cfg out := h.of_fields_eq rfl (Nat.le_succ _)
    have hclock : Advances out s s.called := .of_fields_eq rfl (Nat.le_succ _)
    refine ends_clock_bind h ?_
    split_ifs with hused
    · exact ⟨⟨hcalled, hclock⟩, fun hne => absurd hid hne⟩
    · refine (covers_bind _ _).mpr (ends_release hcalled ?_)
      refine ⟨⟨.of_empty (empty_released _), hclock.trans (advances_released _)⟩, fun _ => ?_⟩
      exact ⟨Rat.not_le.mp hoff, Rat.not_lt.mp hused⟩

theorem ends_program (h : s.WellFormed cfg out) (c : ManagerCall) :
    Ends cfg out (fun r t => Keeps cfg out s t ∧
        (c.Uses → r = .ok () → t.fields.lastUsedAt = c.markedAt out t)) (c.program cfg) s := by
  cases c with
  | load modelId quantization =>
    refine Covers.bind (ends_load h modelId quantization) ?_ ?_
    · rintro spec t (⟨-, hr, -⟩ | ⟨-, hloaded⟩)
      · cases hr
      · exact ⟨⟨hloaded.wellFormed, hloaded.advances⟩, fun _ _ => hloaded.marked spec rfl⟩
    · rintro e t (⟨-, -, rfl⟩ | ⟨-, hloaded⟩)
      · exact ⟨⟨h, .refl t⟩, nofun⟩
      · exact ⟨⟨hloaded.wellFormed, hloaded.advances⟩, nofun⟩
  | unload modelId =>
    exact Covers.bind (ends_unload h modelId) (fun _ _ ht => ⟨ht, nofun⟩) fun _ _ ht => ⟨ht, nofun⟩
  | reapOnce =>
    exact Covers.bind (ends_reapOnce h) (fun _ _ ht => ⟨ht.1, nofun⟩) fun _ _ ht => ⟨ht.1, nofun⟩
  | encode modelId texts =>
    refine Covers.bind (ends_encode h modelId texts) ?_ fun _ _ ht => ⟨ht.1, fun _ => nofun⟩
    exact fun vectors t ht => ⟨ht.1, fun hne _ => (ht.2 hne).2 vectors rfl⟩
  | rerank modelId query documents =>
    refine Covers.bind (ends_rerank h modelId query documents) ?_ ?_
    · exact fun scores t ht => ⟨ht.1, fun hne _ => (ht.2 hne).2 scores rfl⟩
    · exact fun _ _ ht => ⟨ht.1, fun _ => nofun⟩

theorem keeps_step (h : s.WellFormed cfg out) (c : ManagerCall) :
    (s.step cfg out c).WellFormed cfg out ∧ Advances out s (s.step cfg out c) :=
  (ends_program h c).run.1

theorem keeps_foldl (h : s.WellFormed cfg out) (calls : List ManagerCall) :
    (calls.foldl (step cfg out) s).WellFormed cfg out ∧
      Advances out s (calls.foldl (step cfg out) s) := by
  induction calls generalizing s with
  | nil => exact ⟨h, .refl s⟩
  | cons c calls ih =>
    obtain ⟨hstep, hadvances⟩ := keeps_step h c
    obtain ⟨hrest, hadvances'⟩ := ih hstep
    exact ⟨hrest, hadvances.trans hadvances'⟩

theorem wellFormed_start : (start : ResidencyState M).WellFormed cfg out := .of_empty ⟨rfl, rfl⟩

theorem wellFormed_after (calls : List ManagerCall) : (after cfg out calls).WellFormed cfg out :=
  (keeps_foldl wellFormed_start calls).1

/-- Later calls do not put the time of a use back. -/
theorem Advances.markedAt_le (hclock : Monotone out.clock) (h : Advances out s t)
    {c : ManagerCall} (hmarked : s.fields.lastUsedAt = c.markedAt out s) :
    c.markedAt out s ≤ t.fields.lastUsedAt := by
  obtain hstay | ⟨k, hk, hlast⟩ := h.lastUsedAt
  · rw [hstay, hmarked]
  · rw [hlast]
    have hreading : ∃ j, j ≤ s.calls ∧ c.markedAt out s = out.clock j := by
      cases c
      · exact ⟨s.calls - 1, Nat.sub_le _ _, rfl⟩
      all_goals exact ⟨s.calls - 2, Nat.sub_le _ _, rfl⟩
    obtain ⟨j, hj, hmark⟩ := hreading
    rw [hmark]
    exact hclock (le_trans hj hk)

variable (cfg out) in
structure Residency (calls : List ManagerCall) : Prop where
  wellFormed : (after cfg out calls).WellFormed cfg out
  awaits : ∀ c : ManagerCall, Covers (world out) (AtAwait cfg out)
    (fun _ t => t.WellFormed cfg out) (c.program cfg) (after cfg out calls)
  /-- Also of a load that a batch makes: it starts in a well-formed state too. -/
  failedLoad : ∀ s : ResidencyState M, s.WellFormed cfg out → ∀ modelId quantization e t,
    run (world out) (load cfg modelId quantization) s = (.error e, t) →
      if cfg.registry.getSpec modelId = none then t = s else t.Empty
  reaped : (run (world out) (reapOnce cfg) (after cfg out calls)).2.fields.modelId ≠
      (after cfg out calls).fields.modelId →
    0 < cfg.settings.idleUnloadS ∧ ∀ earlier c later, calls = earlier ++ c :: later → c.Uses →
      (run (world out) (c.program cfg) (after cfg out earlier)).1 = .ok () →
        cfg.settings.idleUnloadS ≤ out.clock (after cfg out calls).calls -
          c.markedAt out (after cfg out (earlier ++ [c]))

/-- After any calls, with a clock that does not go back and a loader and models that may fail at
any time: the model is there when its id is, and is what the loader returned for that id and
precision, checked if it embeds; the loader is called with nothing resident; a load that fails
leaves nothing resident, or everything as it was if the model is unknown; and what is reaped was
last used, or loaded, at least the idle time before. -/
theorem residency (cfg : ServiceConfig) (out : Outside M) (hclock : Monotone out.clock)
    (calls : List ManagerCall) : Residency cfg out calls where
  wellFormed := wellFormed_after calls
  awaits c := (ends_program (wellFormed_after calls) c).mono (fun _ _ hC => hC)
    fun _ _ ht => ht.1.1
  failedLoad := by
    intro s hs modelId quantization e t hrun
    have hload := (ends_load hs modelId quantization).run
    rw [hrun] at hload
    obtain ⟨hspec, -, ht⟩ | ⟨hspec, hloaded⟩ := hload
    · rw [if_pos hspec]
      exact ht
    · rw [if_neg hspec]
      exact hloaded.empty e rfl
  reaped := by
    intro hreaped
    obtain ⟨hpos, hidle⟩ := (ends_reapOnce (wellFormed_after calls)).run.2 hreaped
    refine ⟨hpos, fun earlier c later hcalls huses hok => ?_⟩
    have hafter : after cfg out (earlier ++ [c]) = (after cfg out earlier).step cfg out c :=
      List.foldl_concat _ _ _ _
    have hmarked : (after cfg out (earlier ++ [c])).fields.lastUsedAt =
        c.markedAt out (after cfg out (earlier ++ [c])) := by
      rw [hafter]
      exact (ends_program (wellFormed_after earlier) c).run.2 huses hok
    have hlater : after cfg out calls =
        later.foldl (step cfg out) (after cfg out (earlier ++ [c])) := by
      rw [hcalls, after, after, ← List.foldl_append, List.append_assoc, List.singleton_append]
    have hadvances : Advances out (after cfg out (earlier ++ [c])) (after cfg out calls) := by
      rw [hlater]
      exact (keeps_foldl (wellFormed_after (earlier ++ [c])) later).2
    -- no later call has put the mark back
    have hle := hadvances.markedAt_le hclock hmarked
    exact le_trans hidle (sub_le_sub_left hle _)

end ResidencyState

def rerankerId : String := "text-rerank-qwen3-reranker-0.6b"

/-- What is not used for two seconds is reaped. -/
def quickReaping : ServiceConfig where
  settings := {
    apiKey := ""
    maxBatchSize := 32
    device := "cuda"
    enableQuantization := true
    idleUnloadS := 2 }
  registry := modelRegistry

/-- Every call succeeds and takes a second. -/
def steadyOutside : Outside Unit where
  loader _ _ := .ok ()
  encode _ _ texts := .ok (texts.map fun _ => [0])
  score _ _ _ documents := .ok (documents.map fun _ => 0)
  clock k := k

def sparedReranker : List ManagerCall := [.load rerankerId none, .reapOnce]

theorem residency_spared_reranker :
    ResidencyState.Residency quickReaping steadyOutside sparedReranker :=
  ResidencyState.residency quickReaping steadyOutside Nat.mono_cast sparedReranker

/-- A load of an unknown model fails and leaves the reranker resident. A rerank of no documents
succeeds after the clock said 2, and the reaper unloads the reranker when it says 3. -/
theorem unknown_load_and_empty_batch :
    let s := ResidencyState.after quickReaping steadyOutside sparedReranker
    let w := ResidencyState.world steadyOutside
    s.fields.modelId = some rerankerId ∧
      (run w (ManagerCoro.load quickReaping "no-such-model" none) s).1.isOk = false ∧
      (run w (ManagerCoro.load quickReaping "no-such-model" none) s).2.fields.modelId =
        some rerankerId ∧
      (run w (ManagerCoro.rerank quickReaping rerankerId "query" []) s).1.isOk = true ∧
      (run w (ManagerCoro.rerank quickReaping rerankerId "query" []) s).2.calls = s.calls ∧
      steadyOutside.clock (s.calls - 1) = 2 ∧ steadyOutside.clock s.calls = 3 ∧
      (run w (ManagerCoro.reapOnce quickReaping) s).2.fields.modelId = none := by
  decide +kernel

end RagPipeline
