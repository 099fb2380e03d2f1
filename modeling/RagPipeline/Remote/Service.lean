import RagPipeline.Remote.Client
import RagPipeline.Remote.Manager

namespace RagPipeline
open Coro

structure ModelActionResponse where
  model : String
  state : String
  quantization : Option String
  detail : Option String

structure RerankResultItem where
  index : ℕ
  score : ℚ

namespace Service

variable (cfg : ServiceConfig) (authorization : Option String) (lib : Libraries) (now : ℚ)
  (s : ManagerState)

def authorized : Except RemoteExc Unit := checkAuth cfg.settings.toSettings authorization

/-- `POST /api/v1/models/load`. -/
def loadModel (model : String) (quantization : Option String) :
    Except RemoteExc ModelActionResponse × ManagerState :=
  match authorized cfg authorization with
  | .error e => (.error e, s)
  | .ok _ =>
    match s.load cfg lib now model quantization with
    | (.error (.unknownModel _), s') => (.error (.http 404 ("unknown model: " ++ model)), s')
    | (.error (.modelLoad msg), s') => (.error (.http 503 msg), s')
    | (.error e, s') => (.error e, s')
    | (.ok _, s') => (.ok ⟨model, "loaded", s'.appliedQuantization cfg, none⟩, s')

/-- `POST /v1/embeddings`. -/
def embeddings (model : String) (input : List String) :
    Except RemoteExc (List EmbeddingItem) × ManagerState :=
  (RagPipeline.embeddings (s.modelManager cfg lib now) authorization ⟨model, .many input⟩,
    match authorized cfg authorization with
    | .error _ => s
    | .ok _ => (s.encode cfg lib now model input).2)

/-- `POST /v1/rerank`. -/
def rerank (model query : String) (documents : List String) :
    Except RemoteExc (List RerankResultItem) × ManagerState :=
  match authorized cfg authorization with
  | .error e => (.error e, s)
  | .ok _ =>
    if documents = [] then (.error (.http 400 "documents must not be empty"), s)
    else if ManagerState.kind cfg model = none then
      (.error (.http 400 ("unknown model: " ++ model)), s)
    else
      match s.rerank cfg lib now model query documents with
      -- the text of a KeyError is the quoted message
      | (.error (.unknownModel msg), s') => (.error (.http 400 ("\"" ++ msg ++ "\"")), s')
      | (.error (.modelLoad msg), s') => (.error (.http 503 msg), s')
      | (.error e, s') => (.error e, s')
      | (.ok scores, s') => (.ok (scores.mapIdx fun i score => ⟨i, score⟩), s')

def optStr : Option String → Json
  | some s => .str s
  | none => .null

def entryJson (e : ManagerState.ModelEntry) : Json :=
  .obj [("id", .str e.id), ("object", .str "model"), ("type", .str "embeddings"),
    ("state", .str e.state), ("dim", .int e.dim), ("quantization", optStr e.quantization),
    ("max_context_length", (e.maxContextLength.map fun n => .int n).getD .null)]

def actionJson (r : ModelActionResponse) : Json :=
  .obj [("model", .str r.model), ("state", .str r.state),
    ("quantization", optStr r.quantization), ("detail", optStr r.detail)]

def embeddingJson (item : EmbeddingItem) : Json :=
  .obj [("object", .str "embedding"), ("index", .int item.index),
    ("embedding", .arr (item.embedding.map .float))]

def resultJson (item : RerankResultItem) : Json :=
  .obj [("index", .int item.index), ("score", .float item.score)]

/-- The response to a route's result; what is no HTTP answer is an internal error. -/
def respond {α : Type} (body : α → Json) : Except RemoteExc α → HttpResponse
  | .ok a => ⟨200, some (body a)⟩
  | .error (.http code detail) => ⟨code, some (.obj [("detail", .str detail)])⟩
  | .error _ => ⟨500, none⟩

/-- `GET /v1/models`. -/
def listModels : Except RemoteExc (List String) := do
  authorized cfg authorization
  return cfg.registry.allSpecs.map ModelSpec.id

/-- `GET /api/v0/models`. -/
def nativeModels : Except RemoteExc (List ManagerState.ModelEntry) := do
  authorized cfg authorization
  return s.states cfg

/-- The response to a request, and what the manager is like then. The paths of a client are below
`/v1`. -/
def answer : HttpOp → HttpResponse × ManagerState
  | .getHealth path =>
    (if path = "/models" then
      respond (fun ids => .obj [("object", .str "list"),
        ("data", .arr (ids.map fun id => .obj [("id", .str id)]))])
        (listModels cfg authorization)
      else ⟨404, none⟩, s)
  | .getModels =>
    (respond (fun entries => .obj [("object", .str "list"), ("data", .arr (entries.map entryJson))])
      (nativeModels cfg authorization s), s)
  | .postLoad model quantization =>
    let (r, s') := loadModel cfg authorization lib now s model quantization
    (respond actionJson r, s')
  | .postEmbeddings model input =>
    let (r, s') := embeddings cfg authorization lib now s model input
    (respond (fun items => .obj [("object", .str "list"), ("model", .str model),
      ("data", .arr (items.map embeddingJson))]) r, s')
  | .postRerank model query documents =>
    let (r, s') := rerank cfg authorization lib now s model query documents
    (respond (fun items => .obj [("model", .str model),
      ("results", .arr (items.map resultJson))]) r, s')

end Service

def Service.calls (cfg : ServiceConfig) (authorization : Option String) (lib : Libraries) (now : ℚ)
    (op : HttpOp) : List ManagerStep :=
  match authorized cfg authorization with
  | .error _ => []
  | .ok _ =>
    match op with
    | .getHealth _ | .getModels => []
    | .postLoad model quantization => [⟨lib, now, .load model quantization⟩]
    | .postEmbeddings model input => [⟨lib, now, .encode model input⟩]
    | .postRerank model query documents => [⟨lib, now, .rerank model query documents⟩]

/-- What happens when a client makes a request: the calls that others get in first, and then how
the libraries and the clock are. -/
structure Turn where
  others : List ManagerStep
  lib : Libraries
  now : ℚ

/-- The manager, the calls that made it so, and how many requests the client has made. -/
structure ServiceState where
  mgr : ManagerState
  calls : List ManagerStep
  requests : ℕ

def ServiceState.start : ServiceState := ⟨.start, [], 0⟩

def serviceWorld (cfg : ServiceConfig) (authorization : Option String) (turns : ℕ → Turn) :
    World HttpOp (fun _ => HttpResponse) PyExc ServiceState := fun op s =>
  let turn := turns s.requests
  let (resp, mgr) := Service.answer cfg authorization turn.lib turn.now
    (turn.others.foldl (ManagerState.step cfg) s.mgr) op
  (.ok resp, {
    mgr
    calls := s.calls ++ (turn.others ++ Service.calls cfg authorization turn.lib turn.now op)
    requests := s.requests + 1 })

section

variable {cfg : ServiceConfig} {authorization : Option String} {lib : Libraries} {now : ℚ}
  {s : ManagerState}

theorem rerank_refused {model query : String} {documents : List String}
    (h : documents = [] ∨ ManagerState.kind cfg model = none) :
    (s.rerank cfg lib now model query documents).2 = s := by
  unfold ManagerState.rerank
  obtain rfl | hkind := h
  · cases ManagerState.kind cfg model with
    | none => rfl
    | some kind => cases kind <;> rfl
  · rw [hkind]

theorem answer_mgr (op : HttpOp) : (Service.answer cfg authorization lib now s op).2 =
    (Service.calls cfg authorization lib now op).foldl (ManagerState.step cfg) s := by
  unfold Service.calls
  cases op with
  | getHealth path =>
    cases Service.authorized cfg authorization <;> rfl
  | getModels =>
    cases Service.authorized cfg authorization <;> rfl
  | postLoad model q =>
    show (Service.loadModel cfg authorization lib now s model q).2 = _
    unfold Service.loadModel
    cases Service.authorized cfg authorization with
    | error e => rfl
    | ok u =>
      show _ = (s.load cfg lib now model q).2
      rcases s.load cfg lib now model q with ⟨e | spec, s'⟩
      · cases e <;> rfl
      · rfl
  | postEmbeddings model input =>
    show (Service.embeddings cfg authorization lib now s model input).2 = _
    unfold Service.embeddings
    cases Service.authorized cfg authorization <;> rfl
  | postRerank model query documents =>
    -- what the route refuses by itself the manager would refuse as well, and load nothing
    show (Service.rerank cfg authorization lib now s model query documents).2 = _
    unfold Service.rerank
    cases Service.authorized cfg authorization with
    | error e => rfl
    | ok u =>
      show _ = (s.rerank cfg lib now model query documents).2
      by_cases hdocs : documents = []
      · rw [rerank_refused (.inl hdocs)]
        simp [hdocs]
      · by_cases hkind : ManagerState.kind cfg model = none
        · rw [rerank_refused (.inr hkind)]
          simp [hdocs, hkind]
        · simp only [if_neg hdocs, if_neg hkind]
          rcases s.rerank cfg lib now model query documents with ⟨e | scores, s'⟩
          · cases e <;> rfl
          · rfl

theorem serviceWorld_mgr (turns : ℕ → Turn) (op : HttpOp) (t : ServiceState) :
    (serviceWorld cfg authorization turns op t).2.mgr =
      ((turns t.requests).others ++ Service.calls cfg authorization (turns t.requests).lib
        (turns t.requests).now op).foldl (ManagerState.step cfg) t.mgr := by
  rw [List.foldl_append, ← answer_mgr]
  rfl

/-- The manager that a request finds: others may get in first. -/
def Turn.found (cfg : ServiceConfig) (turn : Turn) (s : ManagerState) : ManagerState :=
  turn.others.foldl (ManagerState.step cfg) s

theorem run_encode_service (turns : ℕ → Turn) (r : RemoteClient) (texts : List String)
    (t : ServiceState) :
    (run (serviceWorld cfg authorization turns) (r.encode texts) t).1 =
      (Service.answer cfg authorization (turns t.requests).lib (turns t.requests).now
        ((turns t.requests).found cfg t.mgr) (.postEmbeddings r.name texts)).1.embeddings := by
  unfold RemoteClient.encode
  rw [run_bind, run_call]
  exact congrArg Prod.fst (run_ofExcept _ _ _)

theorem run_score_service (turns : ℕ → Turn) (r : RemoteClient) (query : String)
    (documents : List String) (t : ServiceState) :
    (run (serviceWorld cfg authorization turns) (r.score query documents) t).1 =
      (Service.answer cfg authorization (turns t.requests).lib (turns t.requests).now
        ((turns t.requests).found cfg t.mgr)
        (.postRerank r.name query documents)).1.scores documents.length := by
  unfold RemoteClient.score
  rw [run_bind, run_call]
  exact congrArg Prod.fst (run_ofExcept _ _ _)

def ServiceState.Logged (cfg : ServiceConfig) (t : ServiceState) : Prop :=
  t.mgr = t.calls.foldl (ManagerState.step cfg) .start

theorem ServiceState.Logged.run {turns : ℕ → Turn} {α : Type} (p : HttpCoro α) {t : ServiceState}
    (h : t.Logged cfg) :
    (Coro.run (serviceWorld cfg authorization turns) p t).2.Logged cfg := by
  refine run_invariant _ (I := ServiceState.Logged cfg) (fun op t ht => ?_) p h
  unfold ServiceState.Logged
  rw [serviceWorld_mgr, ht, ← List.foldl_append]
  rfl

end

end RagPipeline
