import RagPipeline.Basics
import RagPipeline.Lib.Json

namespace RagPipeline
open Coro

/-- The requests that the pipeline makes of a remote endpoint. -/
inductive HttpOp where
  | getHealth (path : String)
  | getModels
  | postLoad (model : String) (quantization : Option String)
  | postEmbeddings (model : String) (input : List String)
  | postRerank (model query : String) (documents : List String)
deriving DecidableEq

structure HttpResponse where
  statusCode : ℕ
  body : Option Json

abbrev HttpCoro := Coro HttpOp (fun _ => HttpResponse) PyExc

/-- A request may raise as well, a timeout for one. -/
abbrev awaitHttp (op : HttpOp) : HttpCoro HttpResponse := call op

namespace HttpResponse

def isSuccess (resp : HttpResponse) : Bool := 200 ≤ resp.statusCode && resp.statusCode ≤ 299

def raiseForStatus (resp : HttpResponse) : Except PyExc Unit :=
  if resp.isSuccess then .ok () else .error (.other "HTTPStatusError")

end HttpResponse

/-- A reader that fails raises; no handler looks at the exception. -/
def orRaise {α : Type} : Option α → Except PyExc α
  | some a => .ok a
  | none => .error (.other "exception")

/-- `RemoteEmbeddingModel` and `RemoteRerankModel`; their checks are the same. -/
structure RemoteClient where
  name : String
  hasLoadClient : Bool
  healthPath : String
  quantization : Option String

/-- `next(m for m in data if m.get("id") == name)`: it looks no further than the first. -/
def firstEntry (name : String) : List Json → Option (Option Json)
  | [] => some none
  | m :: ms =>
    match m.get? "id" with
    | none => none
    | some id => if id.any fun v => v.isStr name then some (some m) else firstEntry name ms

/-- `resp.json().get("data", [])`, and the entry of the model in it. -/
def HttpResponse.modelEntry (resp : HttpResponse) (name : String) : Option (Option Json) := do
  let body ← resp.body
  match ← body.get? "data" with
  | none => some none
  | some data => firstEntry name (← data.iter?)

def HttpResponse.items? (resp : HttpResponse) (key : String) : Option (List Json) := do
  let data ← (← resp.body).item? key
  data.iter?

/-- What `RemoteEmbeddingModel.encode` makes of a response. -/
def HttpResponse.embeddings (resp : HttpResponse) : Except PyExc (List Json) := do
  resp.raiseForStatus
  let data ← orRaise (resp.items? "data")
  orRaise (data.mapM fun row => row.item? "embedding")

def readScore (row : Json) : Option (ℤ × Json) := do
  let score ← row.item? "score"
  let index ← (← row.item? "index").index?
  return (index, score)

/-- One turn of the loop that realigns the scores. -/
def setScore (scores : List Json) (row : Json) : Option (List Json) := do
  let (index, score) ← readScore row
  PyList.setItem? scores index score

/-- What `RemoteRerankModel.score` makes of a response, for that many documents. -/
def HttpResponse.scores (resp : HttpResponse) (n : ℕ) : Except PyExc (List Json) := do
  resp.raiseForStatus
  let data ← orRaise (resp.items? "results")
  orRaise (data.foldlM setScore (List.replicate n (.float 0)))

namespace RemoteClient

variable (r : RemoteClient)

def isEndpointHealthy : HttpCoro Bool :=
  attempt (do
    let resp ← awaitHttp (.getHealth r.healthPath)
    ofExcept resp.raiseForStatus
    return true)
  fun _ => ret false

/-- The model's entry in the list of models, when it can be found. -/
def modelEntry : HttpCoro (Option Json) :=
  if r.hasLoadClient then
    attempt (do
      let resp ← awaitHttp .getModels
      ofExcept resp.raiseForStatus
      ofExcept (orRaise (resp.modelEntry r.name)))
    fun _ => ret none
  else ret none

def isModelAvailable : HttpCoro Bool :=
  if r.hasLoadClient then do
    let entry ← r.modelEntry
    return entry.isSome
  else ret true

/-- A timeout and any other failure of the load mean that the batch is not sent. -/
def requestLoad : HttpCoro Bool :=
  attempt (do
    let resp ← awaitHttp (.postLoad r.name (truthy r.quantization))
    ofExcept resp.raiseForStatus
    return true)
  fun _ => ret false

def ensureModelLoaded : HttpCoro Bool :=
  if r.hasLoadClient then do
    match ← r.modelEntry with
    | none => return false
    | some entry =>
      if (entry.item? "state").any fun v => v.isStr "loaded" then return true
      else r.requestLoad
  else ret true

/-- `RemoteEmbeddingModel.encode`. -/
def encode (texts : List String) : HttpCoro (List Json) := do
  let resp ← awaitHttp (.postEmbeddings r.name texts)
  ofExcept resp.embeddings

/-- `RemoteRerankModel.score`. -/
def score (query : String) (documents : List String) : HttpCoro (List Json) := do
  let resp ← awaitHttp (.postRerank r.name query documents)
  ofExcept (resp.scores documents.length)

end RemoteClient

structure HttpResponse.Embeds (resp : HttpResponse) (rows : List Json) : Prop where
  success : resp.isSuccess = true
  read : ∃ items, resp.items? "data" = some items ∧
    items.mapM (fun row => row.item? "embedding") = some rows

/-- A success that gives these scores for that many documents: every index is one of a document,
or counts from the last one. -/
structure HttpResponse.Scores (resp : HttpResponse) (n : ℕ) (rows : List (ℤ × Json)) : Prop where
  success : resp.isSuccess = true
  read : ∃ items, resp.items? "results" = some items ∧ items.mapM readScore = some rows
  inRange : ∀ r ∈ rows, (PyList.position? n r.1).isSome

variable {resp : HttpResponse}

theorem orRaise_eq_ok {α : Type} {x : Option α} {a : α} : orRaise x = .ok a ↔ x = some a := by
  cases x <;> simp [orRaise]

theorem raiseForStatus_eq_ok : resp.raiseForStatus = .ok () ↔ resp.isSuccess = true := by
  unfold HttpResponse.raiseForStatus
  split_ifs with h <;> simp [h]

theorem foldlM_setScore (items : List Json) (scores : List Json) :
    items.foldlM setScore scores =
      (items.mapM readScore).bind fun rows => PyList.assign? rows scores := by
  -- the list under assignment changes from turn to turn
  induction items generalizing scores with
  | nil => rfl
  | cons row items ih =>
    rw [List.foldlM_cons, List.mapM_cons]
    cases hrow : readScore row with
    | none => simp [setScore, hrow]
    | some r =>
      simp only [setScore, hrow, Option.bind_eq_bind, Option.bind_some]
      cases hrows : items.mapM readScore with
      | none =>
        cases PyList.setItem? scores r.1 r.2 with
        | none => rfl
        | some out => simp [ih, hrows]
      | some rows =>
        show _ = PyList.assign? (r :: rows) scores
        rw [PyList.assign?, List.foldlM_cons]
        cases PyList.setItem? scores r.1 r.2 with
        | none => rfl
        | some out =>
          show items.foldlM setScore out = PyList.assign? rows out
          rw [ih, hrows]
          rfl

theorem embeddings_eq_ok {rows : List Json} :
    resp.embeddings = .ok rows ↔ resp.Embeds rows := by
  unfold HttpResponse.embeddings
  by_cases hs : resp.isSuccess = true
  · rw [raiseForStatus_eq_ok.mpr hs, ok_bind]
    cases hd : resp.items? "data" with
    | none => exact iff_of_false nofun fun h => by simpa [hd] using h.read
    | some items =>
      show orRaise _ = _ ↔ _
      rw [orRaise_eq_ok]
      refine ⟨fun h => ⟨hs, items, hd, h⟩, fun h => ?_⟩
      obtain ⟨items', hd', h⟩ := h.read
      rwa [Option.some.inj (hd.symm.trans hd')]
  · have hraise : resp.raiseForStatus = .error (.other "HTTPStatusError") := if_neg hs
    rw [hraise, error_bind]
    exact iff_of_false nofun fun h => hs h.success

theorem scores_eq_ok {n : ℕ} {out : List Json} : resp.scores n = .ok out ↔
    ∃ rows, resp.Scores n rows ∧
      PyList.assign? rows (List.replicate n (.float 0)) = some out := by
  unfold HttpResponse.scores
  by_cases hs : resp.isSuccess = true
  · rw [raiseForStatus_eq_ok.mpr hs, ok_bind]
    cases hd : resp.items? "results" with
    | none =>
      refine iff_of_false nofun ?_
      rintro ⟨rows, h, -⟩
      simpa [hd] using h.read
    | some items =>
      show orRaise _ = _ ↔ _
      rw [orRaise_eq_ok, foldlM_setScore, Option.bind_eq_some_iff]
      apply exists_congr
      intro rows
      apply and_congr_left
      intro hassign
      have hrange := PyList.isSome_assign?_iff.mp (Option.isSome_iff_exists.mpr ⟨out, hassign⟩)
      rw [List.length_replicate] at hrange
      refine ⟨fun hread => ⟨hs, ⟨items, hd, hread⟩, hrange⟩, fun h => ?_⟩
      obtain ⟨items', hd', h⟩ := h.read
      rwa [Option.some.inj (hd.symm.trans hd')]
  · have hraise : resp.raiseForStatus = .error (.other "HTTPStatusError") := if_neg hs
    rw [hraise, error_bind]
    refine iff_of_false nofun ?_
    rintro ⟨rows, h, -⟩
    exact hs h.success

theorem HttpResponse.Scores.assigned {n : ℕ} {rows : List (ℤ × Json)} (h : resp.Scores n rows) :
    ∃ out, PyList.assign? rows (List.replicate n (.float 0)) = some out := by
  have hsome : (PyList.assign? rows (List.replicate n (Json.float 0))).isSome := by
    rw [PyList.isSome_assign?_iff, List.length_replicate]
    exact h.inRange
  exact Option.isSome_iff_exists.mp hsome

end RagPipeline
