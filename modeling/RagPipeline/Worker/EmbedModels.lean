import RagPipeline.Remote.Agreement
import RagPipeline.Worker.LocalRunGuard

namespace RagPipeline
open Coro

inductive ModelOp where
  /-- `get_guard().run(model)` up to its `yield`, and its `finally` clause. -/
  | enterGuard (model : String)
  | leaveGuard (model : String)
  | importSentenceTransformers
  /-- `SentenceTransformer(model_name, …)`, which answers with its dimension. -/
  | build (model : String) (quantised : Bool)
  | encode (model : String) (texts : List String)
  /-- The remote leg with its checks: an exception sends the batch to the local leg. -/
  | remote (remoteId : String) (quantization : Option String) (texts : List String)

namespace ModelOp

abbrev Ans : ModelOp → Type
  | build _ _ => ℕ
  | encode _ _ | remote _ _ _ => List Vec
  | _ => Unit

/-- The model that is loaded or run on this machine. -/
def localWork : ModelOp → Option String
  | build model _ | encode model _ => some model
  | _ => none

end ModelOp

abbrev ModelCoro (α : Type) := Coro ModelOp ModelOp.Ans PyExc α

abbrev awaitModel (op : ModelOp) : ModelCoro op.Ans := call op

/-- A `_RealEmbeddingModel` or a `_MockEmbeddingModel` of that name. -/
structure LocalModel (name : String) where
  isMock : Bool

/-- The local leg of a model with a remote one: `_LazyLocalModel` with its `_model`, or
`_NoLocalFallback`. -/
inductive LocalFallback (cfg : EmbedConfig) where
  | lazyLocal (model : Option (LocalModel cfg.primary))
  | noLocal

inductive EmbedModel where
  | direct (name : String) (model : LocalModel name)
  | fallback (cfg : EmbedConfig) (leg : LocalFallback cfg)

/-- The mock computes its vectors on this machine as well, from a hash of each text. -/
def LocalModel.encode {name : String} (_ : LocalModel name) (texts : List String) :
    ModelCoro (List Vec) := awaitModel (.encode name texts)

structure EmbedSettings where
  embedRemoteUrl : String
  /-- `os.getenv("MOCK_EMBEDDINGS", "")`. -/
  mockEmbeddings : String := ""

namespace EmbedSettings

def mocks (settings : EmbedSettings) : Bool :=
  strip settings.mockEmbeddings ∉ ["", "0", "false", "False"]

def useRemote (settings : EmbedSettings) (cfg : EmbedConfig) : Bool :=
  settings.embedRemoteUrl ≠ "" && cfg.allowRemote

end EmbedSettings

/-- `remote_id`. -/
def EmbedConfig.remoteId (cfg : EmbedConfig) : String := (truthy cfg.remoteModel).getD cfg.primary

namespace GpuEntrypoint

/-- `_config_for`. -/
def configFor (configs : EmbedConfigs) (modelName : String) : Option EmbedConfig :=
  configs.values.find? (·.primary = modelName)

variable (settings : EmbedSettings) (configs : EmbedConfigs)

/-- The int8 load, when it is asked for and does not fail. -/
def buildInt8 (modelName : String) (quantization : Option String) : ModelCoro (Option ℕ) :=
  if LocalLeg.wantsInt8 quantization then
    (awaitModel (.build modelName true) >>= fun dim => ret (some dim)).attempt fun _ => ret none
  else ret none

def buildModel (modelName : String) (quantization : Option String) : ModelCoro ℕ := do
  match ← buildInt8 modelName quantization with
  | some dim => ret dim
  | none => awaitModel (.build modelName false)

def loadSentenceTransformer (modelName : String) (quantization : Option String) :
    ModelCoro (LocalModel modelName) := do
  (awaitModel .importSentenceTransformers).attempt fun _ =>
    raise (.other ("sentence-transformers not available — cannot load '" ++ modelName ++
      "'. Install via: pip install sentence-transformers"))
  let dim ← buildModel modelName quantization
  match configFor configs modelName with
  | some cfg =>
    if dim ≠ cfg.dim then
      raise (.other ("'" ++ modelName ++ "' loaded with dim=" ++ toString dim ++
        " but EMBED_CONFIGS declares " ++ toString cfg.dim ++
        "; refusing to embed into a column of the wrong width."))
    else ret ⟨false⟩
  | none => ret ⟨false⟩

def loadLocalModel (modelName : String) : ModelCoro (LocalModel modelName) :=
  if settings.mocks then ret ⟨true⟩
  else
    loadSentenceTransformer configs modelName
      ((configFor configs modelName).bind EmbedConfig.quantization)

def noLegError (modelName : String) (cfg : EmbedConfig) : PyExc :=
  .other ("'" ++ modelName ++ "' has allow_local=False and no usable remote leg (allow_remote=" ++
    (if cfg.allowRemote then "True" else "False") ++ ", EMBED_REMOTE_URL='" ++
    (if settings.embedRemoteUrl ≠ "" then settings.embedRemoteUrl else "<unset>") ++
    "'). Set EMBED_REMOTE_URL or allow_local=True in EMBED_CONFIGS.")

def loadModel (modelName : String) : ModelCoro EmbedModel :=
  match configFor configs modelName with
  | none => loadLocalModel settings configs modelName >>= fun m => ret (.direct modelName m)
  | some cfg =>
    if !settings.useRemote cfg && !cfg.allowLocal then
      raise (noLegError settings modelName cfg)
    else if !settings.useRemote cfg then
      loadLocalModel settings configs modelName >>= fun m => ret (.direct modelName m)
    else if cfg.allowLocal then ret (.fallback cfg (.lazyLocal none))
    else ret (.fallback cfg .noLocal)

/-- The body of the guarded run: the result and the model that the object keeps. -/
def encodeLoaded (cfg : EmbedConfig) (model : Option (LocalModel cfg.primary))
    (texts : List String) :
    ModelCoro (Except PyExc (List Vec) × Option (LocalModel cfg.primary)) := do
  match ← capture (match model with
    | some m => ret m
    | none => loadLocalModel settings configs cfg.primary) with
  | .error e => ret (.error e, model)
  | .ok m => do
    let vectors ← capture (m.encode texts)
    ret (vectors, some m)

/-- The result of a call that may raise, and the object as the call leaves it. -/
def encodeLocal {cfg : EmbedConfig} (leg : LocalFallback cfg) (texts : List String) :
    ModelCoro (Except PyExc (List Vec) × LocalFallback cfg) :=
  match leg with
  | .noLocal => ret (.error (.embeddingUnavailable ("Remote embedding unavailable for '" ++
      cfg.primary ++ "' and local embedding is disabled for it (allow_local=False in " ++
      "EMBED_CONFIGS). Bring the remote embedder back up, then run " ++
      "POST /maintenance/requeue-missing-embeddings, or allow local embedding for this model.")),
      .noLocal)
  | .lazyLocal model => do
    match ← capture (awaitModel (.enterGuard cfg.primary)) with
    | .error e => ret (.error e, .lazyLocal model)
    | .ok _ => do
      let (vectors, model') ← encodeLoaded settings configs cfg model texts
      awaitModel (.leaveGuard cfg.primary)
      ret (vectors, .lazyLocal model')

def encode (m : EmbedModel) (texts : List String) :
    ModelCoro (Except PyExc (List Vec) × EmbedModel) :=
  match m with
  | .direct name model => do
    let vectors ← capture (model.encode texts)
    ret (vectors, .direct name model)
  | .fallback cfg leg => do
    match ← capture (awaitModel (.remote cfg.remoteId cfg.quantization texts)) with
    | .ok vectors => ret (.ok vectors, .fallback cfg leg)
    | .error _ => do
      let (vectors, leg') ← encodeLocal settings configs leg texts
      ret (vectors, .fallback cfg leg')

/-- A model that the worker loads, and the batches that it encodes with it. -/
structure ModelUse where
  modelName : String
  batches : List (List String)

def encodeBatches (m : EmbedModel) : List (List String) → ModelCoro Unit
  | [] => ret ()
  | texts :: rest => do
    let (_, m') ← encode settings configs m texts
    encodeBatches m' rest

/-- The worker goes on after a load or a batch that fails. -/
def process : List ModelUse → ModelCoro Unit
  | [] => ret ()
  | u :: rest => do
    match ← capture (loadModel settings configs u.modelName) with
    | .ok m => do
      encodeBatches settings configs m u.batches
      process rest
    | .error _ => process rest

/-- What each operation of a process answers, the first, the second and so on. -/
abbrev Answers := ℕ → (op : ModelOp) → Except PyExc op.Ans

/-- The guard as `LocalRunGuard` has it, and everything else as the answers have it. -/
def modelWorld (directory : String) (answers : Answers) :
    World ModelOp ModelOp.Ans PyExc (LocalRunGuard.Process × ℕ)
  | .enterGuard model, (s, n) =>
    ((run guardWorld (LocalRunGuard.enter directory model) s.guard).1,
      (LocalRunGuard.step directory s (.enter model none), n))
  | .leaveGuard _, (s, n) => (.ok (), (LocalRunGuard.step directory s (.leave none), n))
  | op, (s, n) => (answers n op, (s, n + 1))

/-- One process: what it does, and after how many awaits it is killed, if it is, with how many of
the guard's own operations done in the one that it is killed in. -/
structure Life where
  uses : List ModelUse
  answers : Answers
  killed : Option (ℕ × ℕ)

/-- What the guard sees of a process that dies at that operation. -/
def deathStep (steps : ℕ) : Option ModelOp → LocalRunGuard.Step
  | some (.enterGuard model) => .enter model (some steps)
  | some (.leaveGuard _) => .leave (some steps)
  | _ => .restart

variable (directory : String)

/-- Where a process is after so many awaits. -/
def Life.at (l : Life) (n : ℕ) (s : LocalRunGuard.Process) :
    Config ModelOp ModelOp.Ans PyExc Unit (LocalRunGuard.Process × ℕ) :=
  cut (modelWorld directory l.answers) n (process settings configs l.uses) (s, 0)

def Life.after (s : LocalRunGuard.Process) (l : Life) : LocalRunGuard.Process :=
  match l.killed with
  | some (n, steps) =>
    LocalRunGuard.step directory (l.at settings configs directory n s).2.1
      (deathStep steps (l.at settings configs directory n s).1.awaiting)
  | none =>
    LocalRunGuard.step directory (run (modelWorld directory l.answers)
      (process settings configs l.uses) (s, 0)).2.1 .restart

/-- The process is killed while it loads or runs the model on this machine. -/
def Life.killedAtWork (model : String) (s : LocalRunGuard.Process) (l : Life) : Bool :=
  match l.killed with
  | some (n, _) =>
    (l.at settings configs directory n s).1.awaiting.bind ModelOp.localWork = some model
  | none => false

/-- How many processes of a history are killed while they load or run the model. -/
def killsAtWork (model : String) : LocalRunGuard.Process → List Life → ℕ
  | _, [] => 0
  | s, l :: ls => (l.killedAtWork settings configs directory model s).toNat +
      killsAtWork model (l.after settings configs directory s) ls

/-- An operation that leaves the guard alone and is work for no other model. -/
def Works (name : String) : ModelOp → Prop
  | .enterGuard _ | .leaveGuard _ => False
  | .build model _ | .encode model _ => model = name
  | .importSentenceTransformers | .remote _ _ _ => True

section Programs

-- Unification would run `strip` to see whether a program begins with the mock.
attribute [local irreducible] EmbedSettings.mocks

variable {settings configs directory} {name model : String} {op : ModelOp} {answers : Answers}
  {t : LocalRunGuard.Process × ℕ}

theorem Works.guard (h : Works name op) : (modelWorld directory answers op t).2.1 = t.1 := by
  rcases t with ⟨s, n⟩
  cases op with
  | enterGuard m => exact h.elim
  | leaveGuard m => exact h.elim
  | _ => rfl

theorem Works.localWork (h : Works name op) (hwork : op.localWork = some model) : name = model := by
  cases op with
  | build m b =>
    have hname : m = name := h
    exact hname.symm.trans (Option.some.inj hwork)
  | encode m texts =>
    have hname : m = name := h
    exact hname.symm.trans (Option.some.inj hwork)
  | _ => cases hwork

theorem works_buildInt8 (quantization : Option String) :
    Only (Works name) (buildInt8 name quantization) := by
  unfold buildInt8
  split_ifs
  · refine Only.attempt (Only.bind (only_call ?_) fun _ => trivial) fun _ => trivial
    exact rfl
  · trivial

theorem works_loadSentenceTransformer (quantization : Option String) :
    Only (Works name) (loadSentenceTransformer configs name quantization) := by
  unfold loadSentenceTransformer
  refine Only.bind (Only.attempt (only_call trivial) fun _ => trivial) fun _ => ?_
  have hbuild : Only (Works name) (buildModel name quantization) := by
    refine Only.bind (works_buildInt8 quantization) fun built => ?_
    cases built with
    | some dim => trivial
    | none => exact only_call rfl
  refine Only.bind hbuild fun dim => ?_
  cases configFor configs name with
  | none => trivial
  | some cfg =>
    dsimp only
    split_ifs
    · trivial
    · trivial

variable (settings configs name) in
theorem works_loadLocalModel : Only (Works name) (loadLocalModel settings configs name) := by
  unfold loadLocalModel
  split_ifs
  · trivial
  · exact works_loadSentenceTransformer _

theorem works_capture {α : Type} {p : ModelCoro α} (h : Only (Works name) p) :
    Only (Works name) p.capture :=
  Only.attempt (h.bind fun _ => trivial) fun _ => trivial

variable (settings configs) in
theorem works_encodeLoaded (cfg : EmbedConfig) (m : Option (LocalModel cfg.primary))
    (texts : List String) :
    Only (Works cfg.primary) (encodeLoaded settings configs cfg m texts) := by
  unfold encodeLoaded
  refine Only.bind (works_capture ?_) fun r => ?_
  · cases m with
    | none => exact works_loadLocalModel settings configs cfg.primary
    | some m => trivial
  · cases r with
    | error e => trivial
    | ok m => exact Only.bind (works_capture (only_call rfl)) fun _ => trivial

def Invariant (models : Set String) (model : String) (killed : Bool)
    (s : LocalRunGuard.Process) : Prop :=
  LocalRunGuard.Inv model killed s ∧ ∀ other ∈ s.inside, other ∈ models

/-- What holds at every await: only models of the configuration are guarded, and the work for the
model is done inside its run. -/
structure Guarded (models : Set String) (model : String) (killed : Bool) (op : ModelOp)
    (t : LocalRunGuard.Process × ℕ) : Prop where
  inv : Invariant models model killed t.1
  enters : ∀ other, op = .enterGuard other → other ∈ models
  work : op.localWork = some model → t.1.inside = some model

def Outside (models : Set String) (model : String) (killed : Bool)
    (t : LocalRunGuard.Process × ℕ) : Prop :=
  Invariant models model killed t.1 ∧ t.1.inside = none

/-- The objects that may run the model only run it behind the guard. -/
def Shape (models : Set String) (model : String) : EmbedModel → Prop
  | .direct name _ => name ≠ model
  | .fallback cfg _ => cfg.primary ∈ models

variable {models : Set String} {killed : Bool} {α : Type}

variable (directory answers) in
theorem covers_works {p : ModelCoro α} (hp : Only (Works name) p)
    (hinv : Invariant models model killed t.1) (hin : name = model → t.1.inside = some model) :
    Covers (modelWorld directory answers) (Guarded models model killed)
      (fun _ u => u.1 = t.1) p t := by
  have hcovers := hp.covers (w := modelWorld directory answers) (I := fun u => u.1 = t.1)
    (fun op u hop hu => hop.guard.trans hu) rfl
  refine hcovers.mono (fun op u hu => ?_) fun _ _ hu => hu
  obtain ⟨hop, hu⟩ := hu
  refine ⟨by rwa [hu], ?_, ?_⟩
  · rintro other rfl
    exact hop.elim
  · intro hwork
    rw [hu]
    exact hin (hop.localWork hwork)

variable (directory) in
theorem Invariant.step (hinj : models.InjOn LocalRunGuard.sanitise) (hmodel : model ∈ models)
    {s : LocalRunGuard.Process} (h : Invariant models model killed s) {i : LocalRunGuard.Step}
    (hi : ∀ other ∈ i.model, other ∈ models) :
    Invariant models model (killed || s.killedIn directory model i)
      (LocalRunGuard.step directory s i) :=
  ⟨LocalRunGuard.inv_step directory hinj hmodel h.1 h.2 hi, LocalRunGuard.inside_step h.2 hi⟩

variable (directory) in
theorem Invariant.survive (hinj : models.InjOn LocalRunGuard.sanitise) (hmodel : model ∈ models)
    {s : LocalRunGuard.Process} (h : Invariant models model killed s) {i : LocalRunGuard.Step}
    (hi : ∀ other ∈ i.model, other ∈ models) (hstop : i.stop = none) :
    Invariant models model killed (LocalRunGuard.step directory s i) := by
  have hstep := h.step directory hinj hmodel hi
  have hkilled : s.killedIn directory model i = false := by
    simp [LocalRunGuard.Process.killedIn, hstop]
  rwa [hkilled, Bool.or_false] at hstep

theorem returns_encodeLoaded (cfg : EmbedConfig) (m : Option (LocalModel cfg.primary))
    (texts : List String) : Returns (encodeLoaded settings configs cfg m texts) := by
  refine Returns.bind (returns_capture _) fun r => ?_
  cases r with
  | error e => trivial
  | ok m => exact Returns.bind (returns_capture _) fun _ => trivial

theorem mem_model_enter {other : String} (hother : other ∈ models) (stop : Option ℕ) :
    ∀ m ∈ (LocalRunGuard.Step.enter other stop).model, m ∈ models := by
  intro m hm
  obtain rfl := Option.some.inj hm
  exact hother

variable (settings configs directory answers) in
theorem covers_encodeLocal (hinj : models.InjOn LocalRunGuard.sanitise) (hmodel : model ∈ models)
    {cfg : EmbedConfig} (hcfg : cfg.primary ∈ models) (leg : LocalFallback cfg)
    (texts : List String) (ht : Outside models model killed t) :
    Covers (modelWorld directory answers) (Guarded models model killed)
      (fun _ => Outside models model killed) (encodeLocal settings configs leg texts) t := by
  cases leg with
  | noLocal => exact ht
  | lazyLocal m =>
    obtain ⟨s, n⟩ := t
    obtain ⟨hinv, hout⟩ := ht
    have hentered := hinv.survive directory hinj hmodel
      (mem_model_enter hcfg none) rfl
    have hinside := LocalRunGuard.inside_enter directory hout cfg.primary
    have henter : Covers (modelWorld directory answers) (Guarded models model killed)
        (fun r u => Invariant models model killed u.1 ∧
          ((∃ a, r = .ok a) ∧ u.1.inside = some cfg.primary ∨
            (∃ e, r = .error e) ∧ u.1.inside = none))
        (awaitModel (.enterGuard cfg.primary)) (s, n) := by
      refine (covers_call (ModelOp.enterGuard cfg.primary) _).mpr
        ⟨⟨hinv, ?_, nofun⟩, hentered, hinside⟩
      rintro other ⟨⟩
      exact hcfg
    unfold encodeLocal
    refine henter.captureBind ?_
    rintro r u ⟨hu, ⟨⟨a, rfl⟩, hin⟩ | ⟨⟨e, rfl⟩, hnone⟩⟩
    · -- the body runs inside, and the `finally` clause gets out again
      have hbody := (covers_works directory answers (t := u)
        (works_encodeLoaded settings configs cfg m texts) hu
        (fun hname => hname ▸ hin)).and (returns_encodeLoaded cfg m texts).covers
      refine (hbody.mono (fun _ _ h => h.1) fun _ _ h => h).bind ?_ ?_
      · rintro p v ⟨hv, -⟩
        have hv' : Invariant models model killed v.1 := by rwa [hv]
        have hleft := hv'.survive directory (i := .leave none) hinj hmodel nofun rfl
        rw [covers_call_bind]
        exact ⟨⟨hv', nofun, nofun⟩, hleft, rfl⟩
      · rintro e v ⟨-, a, ha⟩
        cases ha
    · exact ⟨hu, hnone⟩

variable (settings configs directory answers) in
theorem covers_encode (hinj : models.InjOn LocalRunGuard.sanitise) (hmodel : model ∈ models)
    {m : EmbedModel} (hm : Shape models model m) (texts : List String)
    (ht : Outside models model killed t) :
    Covers (modelWorld directory answers) (Guarded models model killed)
      (fun r u => Outside models model killed u ∧ ∀ v m', r = .ok (v, m') → Shape models model m')
      (encode settings configs m texts) t := by
  cases m with
  | direct name lm =>
    have hwork : Only (Works name) (lm.encode texts) := only_call rfl
    have hcovers := covers_works directory answers hwork ht.1
      (fun hname => absurd hname hm)
    refine hcovers.captureBind fun r u hu => ⟨?_, ?_⟩
    · unfold Outside
      rwa [hu]
    · rintro v m' ⟨⟩
      exact hm
  | fallback cfg leg =>
    obtain ⟨s, n⟩ := t
    have hremote : Covers (modelWorld directory answers) (Guarded models model killed)
        (fun _ => Outside models model killed)
        (awaitModel (.remote cfg.remoteId cfg.quantization texts)) (s, n) :=
      (covers_call (ModelOp.remote cfg.remoteId cfg.quantization texts) _).mpr
        ⟨⟨ht.1, nofun, nofun⟩, ht⟩
    refine hremote.captureBind fun r u hu => ?_
    cases r with
    | ok vectors =>
      refine ⟨hu, ?_⟩
      rintro v m' ⟨⟩
      exact hm
    | error e =>
      have hlocal := covers_encodeLocal settings configs directory answers hinj hmodel hm leg
        texts hu
      refine hlocal.bind (fun p v hv => ⟨hv, ?_⟩) fun e v hv => ⟨hv, by simp⟩
      rintro v m' ⟨⟩
      exact hm

variable (settings configs directory answers) in
theorem covers_encodeBatches (hinj : models.InjOn LocalRunGuard.sanitise) (hmodel : model ∈ models)
    {m : EmbedModel} (hm : Shape models model m) (batches : List (List String))
    (ht : Outside models model killed t) :
    Covers (modelWorld directory answers) (Guarded models model killed)
      (fun _ => Outside models model killed) (encodeBatches settings configs m batches) t := by
  induction batches generalizing m t with
  | nil => exact ht
  | cons texts rest ih =>
    have hencode := covers_encode settings configs directory answers hinj hmodel hm texts ht
    refine hencode.bind ?_ fun e u hu => hu.1
    rintro ⟨v, m'⟩ u ⟨hu, hshape⟩
    exact ih (hshape v m' rfl) hu

variable (directory answers) in
theorem covers_loadModel {cfg : EmbedConfig} (hcfg : configFor configs model = some cfg)
    (hremote : settings.useRemote cfg = true)
    (hmodels : ∀ cfg ∈ configs.values, cfg.primary ∈ models) (modelName : String)
    (ht : Outside models model killed t) :
    Covers (modelWorld directory answers) (Guarded models model killed)
      (fun r u => Outside models model killed u ∧ ∀ m, r = .ok m → Shape models model m)
      (loadModel settings configs modelName) t := by
  -- what is loaded directly is another model
  have hdirect : modelName ≠ model →
      Covers (modelWorld directory answers) (Guarded models model killed)
        (fun r u => Outside models model killed u ∧ ∀ m, r = .ok m → Shape models model m)
        (loadLocalModel settings configs modelName >>= fun m => ret (.direct modelName m)) t := by
    intro hne
    have hload := covers_works directory answers (works_loadLocalModel settings configs modelName)
      ht.1 (fun hname => absurd hname hne)
    have hout : ∀ u : LocalRunGuard.Process × ℕ, u.1 = t.1 → Outside models model killed u := by
      intro u hu
      unfold Outside
      rwa [hu]
    refine hload.bind (fun m u hu => ⟨hout u hu, ?_⟩) fun e u hu => ⟨hout u hu, by simp⟩
    rintro m' ⟨⟩
    exact hne
  unfold loadModel
  cases hfind : configFor configs modelName with
  | none =>
    apply hdirect
    rintro rfl
    rw [hfind] at hcfg
    cases hcfg
  | some cfg' =>
    have hmem : cfg'.primary ∈ models := hmodels cfg' (List.mem_of_find?_eq_some hfind)
    dsimp only
    split_ifs with hrefused hlocal hallow
    · exact (covers_raise _).mpr ⟨ht, by simp⟩
    · apply hdirect
      rintro rfl
      rw [hfind] at hcfg
      obtain rfl := Option.some.inj hcfg
      simp [hremote] at hlocal
    · refine ⟨ht, ?_⟩
      rintro m ⟨⟩
      exact hmem
    · refine ⟨ht, ?_⟩
      rintro m ⟨⟩
      exact hmem

variable (directory answers) in
theorem covers_process (hinj : models.InjOn LocalRunGuard.sanitise) (hmodel : model ∈ models)
    {cfg : EmbedConfig} (hcfg : configFor configs model = some cfg)
    (hremote : settings.useRemote cfg = true)
    (hmodels : ∀ cfg ∈ configs.values, cfg.primary ∈ models) (uses : List ModelUse)
    (ht : Outside models model killed t) :
    Covers (modelWorld directory answers) (Guarded models model killed)
      (fun _ => Outside models model killed) (process settings configs uses) t := by
  induction uses generalizing t with
  | nil => exact ht
  | cons u rest ih =>
    have hload := covers_loadModel directory answers hcfg hremote hmodels u.modelName ht
    refine hload.captureBind fun r v hv => ?_
    cases r with
    | error e => exact ih hv.1
    | ok m =>
      have hbatches := covers_encodeBatches settings configs directory answers hinj hmodel
        (hv.2 m rfl) u.batches hv.1
      exact hbatches.bind (fun _ v' hv' => ih hv') fun e v' hv' => hv'

theorem stop_deathStep (steps : ℕ) (op : Option ModelOp) : (deathStep steps op).stop ≠ none := by
  rcases op with _ | op
  · exact nofun
  · cases op <;> exact nofun

theorem Invariant.die (hinj : models.InjOn LocalRunGuard.sanitise) (hmodel : model ∈ models)
    {s : LocalRunGuard.Process} (h : Invariant models model killed s) {i : LocalRunGuard.Step}
    (hi : ∀ other ∈ i.model, other ∈ models) (hstop : i.stop ≠ none) (n : ℕ) :
    Outside models model (killed || s.killedIn directory model i)
      (LocalRunGuard.step directory s i, n) := by
  refine ⟨h.step directory hinj hmodel hi, ?_⟩
  unfold LocalRunGuard.step
  cases hs : i.stop with
  | none => exact absurd hs hstop
  | some k => rfl

variable (directory) in
/-- A process that is killed at the model's work is killed in its run, and is the first one. -/
theorem Guarded.killedIn {op : ModelOp} (h : Guarded models model killed op t)
    (hwork : op.localWork = some model) :
    killed = false ∧ t.1.killedIn directory model .restart = true := by
  have hin := h.work hwork
  constructor
  · cases killed with
    | false => rfl
    | true => exact absurd hin h.inv.1.not_inside
  · have hmine : LocalRunGuard.running model ∈ t.1.guard.mine := h.inv.1.sync.2.mpr hin
    simpa [LocalRunGuard.Process.killedIn, LocalRunGuard.Step.stop, LocalRunGuard.Process.left,
      LocalRunGuard.Process.program] using hmine

theorem Outside.after (hinj : models.InjOn LocalRunGuard.sanitise) (hmodel : model ∈ models)
    {cfg : EmbedConfig} (hcfg : configFor configs model = some cfg)
    (hremote : settings.useRemote cfg = true)
    (hmodels : ∀ cfg ∈ configs.values, cfg.primary ∈ models) {s : LocalRunGuard.Process}
    (hs : Outside models model killed (s, 0)) (l : Life) :
    ∃ killed', Outside models model killed' (l.after settings configs directory s, 0) ∧
      killed.toNat + (l.killedAtWork settings configs directory model s).toNat ≤ killed'.toNat := by
  have hcovers := covers_process directory l.answers hinj hmodel hcfg
    hremote hmodels l.uses hs
  have hmono : ∀ b : Bool, killed.toNat + (false).toNat ≤ (killed || b).toNat := by
    intro b
    cases killed <;> cases b <;> decide
  have hnone : ∀ other ∈ LocalRunGuard.Step.restart.model, other ∈ models := by
    simp [LocalRunGuard.Step.model]
  unfold Life.after Life.killedAtWork
  cases l.killed with
  | none => exact ⟨_, hcovers.run.1.die hinj hmodel hnone (Option.some_ne_none 0) 0, hmono _⟩
  | some p =>
    obtain ⟨n, steps⟩ := p
    have hcut : Covers (modelWorld directory l.answers) (Guarded models model killed)
        (fun _ => Outside models model killed) (l.at settings configs directory n s).1
        (l.at settings configs directory n s).2 := hcovers.cut n
    have hstop := stop_deathStep steps (l.at settings configs directory n s).1.awaiting
    dsimp only
    generalize hc : l.at settings configs directory n s = c at hcut hstop ⊢
    rcases c with ⟨a | e | ⟨op, k⟩, t⟩
    · exact ⟨_, hcut.1.die hinj hmodel hnone hstop 0, hmono _⟩
    · exact ⟨_, hcut.1.die hinj hmodel hnone hstop 0, hmono _⟩
    · have hguarded : Guarded models model killed op t := hcut.1
      have hi : ∀ other ∈ (deathStep steps (some op)).model, other ∈ models := by
        cases op with
        | enterGuard m => exact mem_model_enter (hguarded.enters m rfl) _
        | leaveGuard m => simp [deathStep, LocalRunGuard.Step.model]
        | _ => exact hnone
      refine ⟨_, hguarded.inv.die hinj hmodel hi hstop 0, ?_⟩
      by_cases hwork : op.localWork = some model
      · obtain ⟨rfl, hkilled⟩ := hguarded.killedIn directory hwork
        have hrestart : deathStep steps (some op) = .restart := by
          cases op with
          | enterGuard m => cases hwork
          | leaveGuard m => cases hwork
          | _ => rfl
        simp [awaiting, hrestart, hkilled, Bool.toNat_le]
      · simpa [awaiting, hwork] using hmono _

variable (directory) in
theorem killsAtWork_le (hinj : models.InjOn LocalRunGuard.sanitise) (hmodel : model ∈ models)
    {cfg : EmbedConfig} (hcfg : configFor configs model = some cfg)
    (hremote : settings.useRemote cfg = true)
    (hmodels : ∀ cfg ∈ configs.values, cfg.primary ∈ models) {s : LocalRunGuard.Process}
    (hs : Outside models model killed (s, 0)) (history : List Life) :
    killed.toNat + killsAtWork settings configs directory model s history ≤ 1 ∧
      ∃ killed', Outside models model killed'
        (history.foldl (fun s l => l.after settings configs directory s) s, 0) := by
  induction history generalizing killed s with
  | nil => exact ⟨Bool.toNat_le killed, killed, hs⟩
  | cons l ls ih =>
    obtain ⟨killed', hafter, hle⟩ := hs.after hinj hmodel hcfg hremote hmodels l
    obtain ⟨hrest, hend⟩ := ih hafter
    refine ⟨?_, hend⟩
    unfold killsAtWork
    omega

/-- The library is there, and nothing else is answered. -/
def bareAnswers : Answers
  | _, .importSentenceTransformers => .ok ()
  | _, _ => .error (.other "")

def Life.first (settings : EmbedSettings) (model : String) : Life where
  uses := [⟨model, [[""]]⟩]
  answers := bareAnswers
  killed := some (if settings.mocks then 0 else 1, 0)

theorem loadModel_direct {cfg : EmbedConfig} (hcfg : configFor configs model = some cfg)
    (hremote : settings.useRemote cfg = false) (hlocal : cfg.allowLocal = true) :
    loadModel settings configs model =
      loadLocalModel settings configs model >>= fun m => ret (.direct model m) := by
  simp [loadModel, hcfg, hremote, hlocal]

theorem killedAtWork_first {cfg : EmbedConfig} (hcfg : configFor configs model = some cfg)
    (hremote : settings.useRemote cfg = false) (hlocal : cfg.allowLocal = true)
    (s : LocalRunGuard.Process) :
    (Life.first settings model).killedAtWork settings configs directory model s = true := by
  have hload := loadModel_direct hcfg hremote hlocal
  unfold Life.killedAtWork Life.first Life.at
  simp only [process, hload, decide_eq_true_eq]
  by_cases hmock : settings.mocks
  · simp only [hmock, if_true, loadLocalModel]
    rfl
  · simp only [hmock, loadLocalModel]
    cases hint : LocalLeg.wantsInt8 ((configFor configs model).bind EmbedConfig.quantization) with
    | true =>
      have hbuild : buildInt8 model ((configFor configs model).bind EmbedConfig.quantization) =
          (awaitModel (.build model true) >>= fun dim => ret (some dim)).attempt
            fun _ => ret none := if_pos hint
      simp only [loadSentenceTransformer, buildModel, hbuild]
      rfl
    | false =>
      have hbuild : buildInt8 model ((configFor configs model).bind EmbedConfig.quantization) =
          ret none := if_neg (by simp [hint])
      simp only [loadSentenceTransformer, buildModel, hbuild]
      rfl

end Programs

/-- `EMBED_CONFIGS` with these `allow_local` and `allow_remote` entries. -/
def withLegs (legs : String → Bool × Bool) : EmbedConfigs where
  entries := embedConfigs.entries.map fun p =>
    (p.1, { p.2 with allowLocal := (legs p.1).1, allowRemote := (legs p.1).2 })
  nodup := by
    rw [List.map_map]
    exact embedConfigs.nodup

theorem primary_withLegs (legs : String → Bool × Bool) :
    (withLegs legs).values.map EmbedConfig.primary =
      embedConfigs.values.map EmbedConfig.primary := by
  simp [withLegs, OrderedDict.values, Function.comp_def]

theorem mem_embedModels {legs : String → Bool × Bool} {cfg : EmbedConfig}
    (h : cfg ∈ (withLegs legs).values) : cfg.primary ∈ LocalRunGuard.embedModels := by
  show cfg.primary ∈ embedConfigs.values.map EmbedConfig.primary
  rw [← primary_withLegs legs]
  exact List.mem_map_of_mem h

theorem primary_of_configFor {configs : EmbedConfigs} {model : String} {cfg : EmbedConfig}
    (h : configFor configs model = some cfg) : cfg ∈ configs.values ∧ cfg.primary = model :=
  ⟨List.mem_of_find?_eq_some h, by simpa using List.find?_some h⟩

/-- Over every history at most one process is killed at the model's work, and all of it is done
inside the guarded run of that model. -/
def CannotCrashLoop (settings : EmbedSettings) (configs : EmbedConfigs) (directory model : String) :
    Prop :=
  ∀ history : List Life,
    killsAtWork settings configs directory model LocalRunGuard.fresh history ≤ 1 ∧
    ∀ l : Life, Covers (modelWorld directory l.answers)
      (fun op t => op.localWork = some model → t.1.inside = some model) (fun _ _ => True)
      (process settings configs l.uses)
      (history.foldl (fun s l => l.after settings configs directory s) LocalRunGuard.fresh, 0)

/-- A model that `_load_model` accepts is safe exactly when it has a usable remote leg. -/
theorem cannotCrashLoop_iff (settings : EmbedSettings) (legs : String → Bool × Bool)
    (directory : String) {model : String} {cfg : EmbedConfig}
    (hcfg : configFor (withLegs legs) model = some cfg)
    (haccepts : settings.useRemote cfg = true ∨ cfg.allowLocal = true) :
    CannotCrashLoop settings (withLegs legs) directory model ↔ settings.useRemote cfg = true := by
  constructor
  · intro h
    by_contra hremote
    rw [Bool.not_eq_true] at hremote
    have hlocal : cfg.allowLocal = true := haccepts.resolve_left (by simp [hremote])
    -- two processes, each killed at the first thing that it does for the model
    have htwo := (h [.first settings model, .first settings model]).1
    simp [killsAtWork, killedAtWork_first hcfg hremote hlocal] at htwo
  · intro hremote history
    have hmem := primary_of_configFor hcfg
    have hmodel : model ∈ LocalRunGuard.embedModels := hmem.2 ▸ mem_embedModels hmem.1
    have hfresh : Outside LocalRunGuard.embedModels model false (LocalRunGuard.fresh, 0) :=
      ⟨⟨LocalRunGuard.inv_fresh model, by simp [LocalRunGuard.fresh]⟩, rfl⟩
    obtain ⟨hone, killed, hout⟩ := killsAtWork_le directory
      LocalRunGuard.sanitise_injOn_embedModels hmodel hcfg hremote
      (fun _ h => mem_embedModels h) hfresh history
    refine ⟨by simpa using hone, fun l => ?_⟩
    have hcovers := covers_process directory l.answers
      LocalRunGuard.sanitise_injOn_embedModels hmodel hcfg hremote
      (fun _ h => mem_embedModels h) l.uses hout
    exact hcovers.mono (fun _ _ h => h.work) fun _ _ _ => trivial

/-- With the configuration as it stands and the endpoint set. -/
theorem cannotCrashLoop_bge : CannotCrashLoop { embedRemoteUrl := "http://gpu-box:8000/v1" }
    (withLegs fun _ => (true, true)) "/tmp/rag-local-guard" "BAAI/bge-base-en-v1.5" :=
  have hcfg : configFor (withLegs fun _ => (true, true)) "BAAI/bge-base-en-v1.5" =
      some bgeBaseEmbedCfg := by decide
  (cannotCrashLoop_iff { embedRemoteUrl := "http://gpu-box:8000/v1" } (fun _ => (true, true))
    "/tmp/rag-local-guard" hcfg (.inl (by decide))).mpr (by decide)

/-- Without an endpoint two processes are killed one after the other while they load the model. -/
theorem crash_loop_without_endpoint :
    ¬ ∀ (settings : EmbedSettings) (legs : String → Bool × Bool) (directory model : String)
      (cfg : EmbedConfig), configFor (withLegs legs) model = some cfg →
      settings.useRemote cfg = true ∨ cfg.allowLocal = true →
      CannotCrashLoop settings (withLegs legs) directory model := by
  intro h
  have hbge := h { embedRemoteUrl := "" } (fun _ => (true, true)) "/tmp/rag-local-guard"
    "BAAI/bge-base-en-v1.5" bgeBaseEmbedCfg (by decide) (.inr rfl)
    [.first { embedRemoteUrl := "" } "BAAI/bge-base-en-v1.5",
      .first { embedRemoteUrl := "" } "BAAI/bge-base-en-v1.5"]
  have htwo : killsAtWork { embedRemoteUrl := "" } (withLegs fun _ => (true, true))
      "/tmp/rag-local-guard" "BAAI/bge-base-en-v1.5" LocalRunGuard.fresh
      [.first { embedRemoteUrl := "" } "BAAI/bge-base-en-v1.5",
        .first { embedRemoteUrl := "" } "BAAI/bge-base-en-v1.5"] = 2 := by
    decide
  omega

end GpuEntrypoint
end RagPipeline
