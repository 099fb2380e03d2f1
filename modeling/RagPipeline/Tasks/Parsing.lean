import RagPipeline.Dispatchers.Isolation

namespace RagPipeline

open MapM (isSome_mapM)

/-! ## `parse_task`

The payload is what `json.loads` makes of a message; a model that refuses it is `none`. -/

def fieldOr {α : Type} (payload : Json) (key : String) (default : α) (read : Json → Option α) :
    Option α :=
  match payload.item? key with
  | none => some default
  | some v => read v

/-- A `Literal`, and what its values stand for. -/
def literal {α : Type} (values : List (String × α)) (v : Json) : Option α :=
  (strField v).bind fun s => (values.find? fun e => e.1 = s).map Prod.snd

section Models

variable (p : Pydantic) (newId : String) (payload : Json)

/-- `CandidateChunkRef`, as a task holds it: its score may be NaN or infinite. -/
def candidateOf (v : Json) : Option (CandidateChunkRef Json) := do
  let c ← candidateRef p v
  let chunkId ← strField (← c.item? "chunk_id")
  let score ← c.item? "score"
  some ⟨chunkId, score⟩

/-- A `List[CandidateChunkRef]`. -/
def candidatesOf : Json → Option (List (CandidateChunkRef Json))
  | .arr items => items.mapM (candidateOf p)
  | _ => none

/-- The fields of every task; `newId` is what `uuid4` draws for a task without an id. -/
def BaseTask.ofPayload : Option BaseTask := do
  let taskId ← fieldOr payload "task_id" newId strField
  let traceId ← optStrField (payload.item? "trace_id")
  let parentSpanId ← optStrField (payload.item? "parent_span_id")
  let sourceEventId ← optStrField (payload.item? "source_event_id")
  some { taskId, traceId, parentSpanId, sourceEventId }

def chunkTaskTypes : List (String × ChunkTaskType) :=
  [("body", .body), ("summary_title", .summaryTitle), ("title", .title), ("analysis", .analysis)]

def ChunkTask.ofPayload : Option ChunkTask := do
  let base ← BaseTask.ofPayload newId payload
  let taskType ← literal chunkTaskTypes (← payload.item? "task_type")
  let postId ← p.int (← payload.item? "post_id")
  let postTable ← strField (← payload.item? "post_table")
  let embedModel ← strField (← payload.item? "embed_model")
  let analysisText ← optStrField (payload.item? "analysis_text")
  some { toBaseTask := base, taskType, postId, postTable, embedModel, analysisText }

def embedTaskTypes : List (String × EmbedTaskType) := [("chunk", .chunk), ("query", .query)]

def EmbedTask.ofPayload : Option EmbedTask := do
  let base ← BaseTask.ofPayload newId payload
  let taskType ← literal embedTaskTypes (← payload.item? "task_type")
  let modelName ← strField (← payload.item? "model_name")
  let postId ← fieldOr payload "post_id" none (optIntField p)
  let postTable ← optStrField (payload.item? "post_table")
  let chunkIds ← fieldOr payload "chunk_ids" [] strListField
  let chunkTable ← optStrField (payload.item? "chunk_table")
  let query ← optStrField (payload.item? "query")
  let queryJobId ← optStrField (payload.item? "query_job_id")
  some { toBaseTask := base, taskType, modelName, postId, postTable, chunkIds, chunkTable, query,
         queryJobId }

def inferTaskTypes : List (String × Bool) := [("categorise", true), ("summarise", false)]

def InferTask.ofPayload : Option InferTask := do
  let base ← BaseTask.ofPayload newId payload
  let categorise ← fieldOr payload "task_type" true (literal inferTaskTypes)
  let postId ← p.int (← payload.item? "post_id")
  let postTable ← strField (← payload.item? "post_table")
  let model ← strField (← payload.item? "model")
  let promptTemplate ← strField (← payload.item? "prompt_template")
  some { toBaseTask := base, categorise, postId, postTable, model, promptTemplate }

def SearchRunTask.ofPayload : Option SearchRunTask := do
  let base ← BaseTask.ofPayload newId payload
  let jobId ← strField (← payload.item? "job_id")
  some { toBaseTask := base, jobId }

def SearchRankTask.ofPayload : Option (SearchRankTask Json) := do
  let base ← BaseTask.ofPayload newId payload
  let jobId ← strField (← payload.item? "job_id")
  let candidates ← fieldOr payload "candidates" [] (candidatesOf p)
  let rerankProfile ← optStrField (payload.item? "rerank_profile")
  some { toBaseTask := base, jobId, candidates, rerankProfile }

def SearchFinalizeTask.ofPayload : Option (SearchFinalizeTask Json) := do
  let base ← BaseTask.ofPayload newId payload
  let jobId ← strField (← payload.item? "job_id")
  let candidates ← fieldOr payload "candidates" [] (candidatesOf p)
  some { toBaseTask := base, jobId, candidates }

/-- `kind` selects the model. -/
def parseTask : Option (AnyTask Json) := do
  match ← strField (← payload.item? "kind") with
  | "chunk" => (ChunkTask.ofPayload p newId payload).map .chunk
  | "embed" => (EmbedTask.ofPayload p newId payload).map .embed
  | "infer" => (InferTask.ofPayload p newId payload).map .infer
  | "search_run" => (SearchRunTask.ofPayload newId payload).map .searchRun
  | "search_rank" => (SearchRankTask.ofPayload p newId payload).map .searchRank
  | "search_finalize" => (SearchFinalizeTask.ofPayload p newId payload).map .searchFinalize
  | _ => none

end Models

section RoundTrip

variable {p : Pydantic} {newId : String} {payload : Json}

def CandidateChunkRef.parsed (c : CandidateChunkRef) : CandidateChunkRef Json :=
  ⟨c.chunkId, .float c.score⟩

def SearchRankTask.parsed (t : SearchRankTask) : SearchRankTask Json :=
  { t with candidates := t.candidates.map CandidateChunkRef.parsed }

def SearchFinalizeTask.parsed (t : SearchFinalizeTask) : SearchFinalizeTask Json :=
  { t with candidates := t.candidates.map CandidateChunkRef.parsed }

/-- The task as `parse_task` gives it, with its scores as `float`s. -/
def AnyTask.parsed : AnyTask → AnyTask Json
  | chunk t => .chunk t
  | embed t => .embed t
  | infer t => .infer t
  | searchRun t => .searchRun t
  | searchRank t => .searchRank t.parsed
  | searchFinalize t => .searchFinalize t.parsed

/-- The fields of a dump are there, among others and in any order. -/
def CarriesFields (payload dump : Json) : Prop :=
  ∀ key v, dump.item? key = some v → payload.item? key = some v

theorem item?_of_mem {fields : List (String × Json)} (hnodup : (fields.map Prod.fst).Nodup)
    {key : String} {v : Json} (h : (key, v) ∈ fields) : (Json.obj fields).item? key = some v := by
  unfold Json.item?
  rw [OrderedDict.get?_eq_some, OrderedDict.entries_ofList hnodup]
  exact h

theorem optStrField_ofOption (s : Option String) :
    optStrField (some (.ofOption .str s)) = some s := by
  cases s <;> rfl

theorem optIntField_ofOption (hp : p.Lawful) (n : Option ℤ) :
    optIntField p (.ofOption .int n) = some n := by
  cases n with
  | none => rfl
  | some n =>
    show (p.int (.int n)).map some = some (some n)
    rw [hp.int_int]
    rfl

theorem fieldOr_of_item {α : Type} {key : String} {default : α} {read : Json → Option α} {v : Json}
    (h : payload.item? key = some v) : fieldOr payload key default read = read v := by
  unfold fieldOr
  rw [h]

/-- The fields of a dump whose keys differ. -/
theorem CarriesFields.item? {fields : List (String × Json)}
    (h : CarriesFields payload (.obj fields)) (hnodup : (fields.map Prod.fst).Nodup) :
    ∀ e ∈ fields, payload.item? e.1 = some e.2 :=
  fun e he => h e.1 e.2 (item?_of_mem hnodup he)

theorem baseTask_ofPayload {kind : String} {t : BaseTask} {more : List (String × Json)}
    (h : ∀ e ∈ t.fields kind ++ more, payload.item? e.1 = some e.2) :
    BaseTask.ofPayload newId payload = some t := by
  have hfields : ∀ e ∈ t.fields kind, payload.item? e.1 = some e.2 :=
    fun e he => h e (List.mem_append_left _ he)
  simp only [BaseTask.fields, List.forall_mem_cons] at hfields
  obtain ⟨htask, -, htrace, hparent, hsource, -⟩ := hfields
  unfold BaseTask.ofPayload
  simp only [fieldOr_of_item htask, htrace, hparent, hsource, optStrField_ofOption, strField,
    Option.bind_eq_bind, Option.bind_some]

theorem readsCandidate_json (c : CandidateChunkRef) : ReadsCandidate c.json c := by
  refine ⟨⟨_, rfl, fun key hkey => ?_⟩, rfl, rfl⟩
  obtain ⟨v, hv⟩ := (OrderedDict.mem_keys_ofList _ _).mp hkey
  simp only [List.mem_cons, List.not_mem_nil, or_false, Prod.mk.injEq] at hv ⊢
  exact hv.imp And.left And.left

theorem candidateOf_json (hp : p.Lawful) (c : CandidateChunkRef) :
    candidateOf p c.json = some c.parsed := by
  unfold candidateOf
  rw [candidateRef_of_reads hp (readsCandidate_json c)]
  rfl

theorem candidatesOf_json (hp : p.Lawful) (cs : List CandidateChunkRef) :
    candidatesOf p (.arr (cs.map CandidateChunkRef.json)) =
      some (cs.map CandidateChunkRef.parsed) := by
  show (cs.map CandidateChunkRef.json).mapM (candidateOf p) = _
  induction cs with
  | nil => rfl
  | cons c cs ih =>
    rw [List.map_cons, List.mapM_cons, candidateOf_json hp, ih]
    rfl

theorem chunkTask_ofPayload (hp : p.Lawful) {t : ChunkTask} (h : CarriesFields payload t.json) :
    ChunkTask.ofPayload p newId payload = some t := by
  have hitem := h.item? (by simp [BaseTask.fields])
  have hbase : BaseTask.ofPayload newId payload = some t.toBaseTask := baseTask_ofPayload hitem
  rw [List.forall_mem_append] at hitem
  have hmore := hitem.2
  simp only [List.forall_mem_cons] at hmore
  obtain ⟨htype, hpost, htable, hmodel, htext, -⟩ := hmore
  have hliteral : literal chunkTaskTypes (.str t.taskType.key) = some t.taskType := by
    cases t.taskType <;> rfl
  unfold ChunkTask.ofPayload
  simp only [hbase, htype, hpost, htable, hmodel, htext, hliteral, hp.int_int, optStrField_ofOption,
    strField, Option.bind_eq_bind, Option.bind_some]

theorem embedTask_ofPayload (hp : p.Lawful) {t : EmbedTask} (h : CarriesFields payload t.json) :
    EmbedTask.ofPayload p newId payload = some t := by
  have hitem := h.item? (by simp [BaseTask.fields])
  have hbase : BaseTask.ofPayload newId payload = some t.toBaseTask := baseTask_ofPayload hitem
  rw [List.forall_mem_append] at hitem
  have hmore := hitem.2
  simp only [List.forall_mem_cons] at hmore
  obtain ⟨htype, hmodel, hpost, htable, hids, hchunks, hquery, hjob, -⟩ := hmore
  have hliteral : literal embedTaskTypes (.str t.taskType.key) = some t.taskType := by
    cases t.taskType <;> rfl
  have hlist : strListField (.arr (t.chunkIds.map .str)) = some t.chunkIds := mapM_strField _
  unfold EmbedTask.ofPayload
  simp only [hbase, htype, hmodel, fieldOr_of_item hpost, htable, fieldOr_of_item hids, hchunks,
    hquery, hjob, hliteral, hlist, optIntField_ofOption hp, optStrField_ofOption, strField,
    Option.bind_eq_bind, Option.bind_some]

theorem inferTask_ofPayload (hp : p.Lawful) {t : InferTask} (h : CarriesFields payload t.json) :
    InferTask.ofPayload p newId payload = some t := by
  have hitem := h.item? (by simp [BaseTask.fields])
  have hbase : BaseTask.ofPayload newId payload = some t.toBaseTask := baseTask_ofPayload hitem
  rw [List.forall_mem_append] at hitem
  have hmore := hitem.2
  simp only [List.forall_mem_cons] at hmore
  obtain ⟨htype, hpost, htable, hmodel, hprompt, -⟩ := hmore
  have hliteral : literal inferTaskTypes (.str (if t.categorise then "categorise" else "summarise"))
      = some t.categorise := by
    cases t.categorise <;> rfl
  unfold InferTask.ofPayload
  simp only [hbase, fieldOr_of_item htype, hpost, htable, hmodel, hprompt, hliteral, hp.int_int,
    strField, Option.bind_eq_bind, Option.bind_some]

theorem searchRunTask_ofPayload {t : SearchRunTask} (h : CarriesFields payload t.json) :
    SearchRunTask.ofPayload newId payload = some t := by
  have hitem := h.item? (by simp [BaseTask.fields])
  have hbase : BaseTask.ofPayload newId payload = some t.toBaseTask := baseTask_ofPayload hitem
  rw [List.forall_mem_append] at hitem
  have hjob : payload.item? "job_id" = some (.str t.jobId) :=
    hitem.2 _ (List.mem_singleton_self _)
  unfold SearchRunTask.ofPayload
  simp only [hbase, hjob, strField, Option.bind_eq_bind, Option.bind_some]

theorem searchRankTask_ofPayload (hp : p.Lawful) {t : SearchRankTask}
    (h : CarriesFields payload (AnyTask.searchRank t).json) :
    SearchRankTask.ofPayload p newId payload = some t.parsed := by
  have hitem := h.item? (by simp [BaseTask.fields])
  have hbase : BaseTask.ofPayload newId payload = some t.toBaseTask := baseTask_ofPayload hitem
  rw [List.forall_mem_append] at hitem
  have hmore := hitem.2
  simp only [List.forall_mem_cons] at hmore
  obtain ⟨hjob, hcandidates, hprofile, -⟩ := hmore
  unfold SearchRankTask.ofPayload
  simp only [hbase, hjob, fieldOr_of_item hcandidates, hprofile, candidatesOf_json hp,
    optStrField_ofOption, strField, Option.bind_eq_bind, Option.bind_some]
  rfl

theorem searchFinalizeTask_ofPayload (hp : p.Lawful) {t : SearchFinalizeTask}
    (h : CarriesFields payload (AnyTask.searchFinalize t).json) :
    SearchFinalizeTask.ofPayload p newId payload = some t.parsed := by
  have hitem := h.item? (by simp [BaseTask.fields])
  have hbase : BaseTask.ofPayload newId payload = some t.toBaseTask := baseTask_ofPayload hitem
  rw [List.forall_mem_append] at hitem
  have hmore := hitem.2
  simp only [List.forall_mem_cons] at hmore
  obtain ⟨hjob, hcandidates, -⟩ := hmore
  unfold SearchFinalizeTask.ofPayload
  simp only [hbase, hjob, fieldOr_of_item hcandidates, candidatesOf_json hp, strField,
    Option.bind_eq_bind, Option.bind_some]
  rfl

def AnyTask.kind : AnyTask → String
  | chunk _ => "chunk"
  | embed _ => "embed"
  | infer _ => "infer"
  | searchRun _ => "search_run"
  | searchRank _ => "search_rank"
  | searchFinalize _ => "search_finalize"

theorem kind_of_carriesFields {t : AnyTask} (h : CarriesFields payload t.json) :
    payload.item? "kind" = some (.str t.kind) := by
  apply h
  cases t <;>
    exact item?_of_mem (by simp [BaseTask.fields]) (by simp [BaseTask.fields, AnyTask.kind])

/-- Every task is parsed back from a message that carries its fields, in any order and with any
others. -/
theorem parseTask_of_carriesFields (hp : p.Lawful) {t : AnyTask}
    (h : CarriesFields payload t.json) : parseTask p newId payload = some t.parsed := by
  unfold parseTask
  rw [kind_of_carriesFields h]
  cases t with
  | chunk t => exact congrArg (Option.map AnyTask.chunk) (chunkTask_ofPayload hp h)
  | embed t => exact congrArg (Option.map AnyTask.embed) (embedTask_ofPayload hp h)
  | infer t => exact congrArg (Option.map AnyTask.infer) (inferTask_ofPayload hp h)
  | searchRun t => exact congrArg (Option.map AnyTask.searchRun) (searchRunTask_ofPayload h)
  | searchRank t => exact congrArg (Option.map AnyTask.searchRank) (searchRankTask_ofPayload hp h)
  | searchFinalize t =>
    exact congrArg (Option.map AnyTask.searchFinalize) (searchFinalizeTask_ofPayload hp h)

end RoundTrip

/-- A field of a model: whether it has a default, and the values that it takes. -/
structure ModelField where
  name : String
  required : Bool
  takes : Json → Prop

def ModelField.Fits (f : ModelField) (payload : Json) : Prop :=
  match payload.item? f.name with
  | none => f.required = false
  | some v => f.takes v

section Schema

def IsStr (v : Json) : Prop := ∃ s, v = .str s

def IsOptStr (v : Json) : Prop := v = .null ∨ IsStr v

def IsOneOf (values : List String) (v : Json) : Prop := ∃ s ∈ values, v = .str s

def IsStrList (v : Json) : Prop := ∃ l : List String, v = .arr (l.map .str)

variable (p : Pydantic)

def IsInt (v : Json) : Prop := ∃ n, p.int v = some n

def IsOptInt (v : Json) : Prop := v = .null ∨ IsInt p v

def IsCandidateList (v : Json) : Prop := ∃ items, v = .arr items ∧ ∀ c ∈ items, CandidateTaken p c

def baseSchema : List ModelField :=
  [⟨"task_id", false, IsStr⟩, ⟨"trace_id", false, IsOptStr⟩, ⟨"parent_span_id", false, IsOptStr⟩,
    ⟨"source_event_id", false, IsOptStr⟩]

/-- The fields of the model that a kind selects, besides those of every task. -/
def taskSchema : String → Option (List ModelField)
  | "chunk" => some [
      ⟨"task_type", true, IsOneOf ["body", "summary_title", "title", "analysis"]⟩,
      ⟨"post_id", true, IsInt p⟩, ⟨"post_table", true, IsStr⟩, ⟨"embed_model", true, IsStr⟩,
      ⟨"analysis_text", false, IsOptStr⟩]
  | "embed" => some [
      ⟨"task_type", true, IsOneOf ["chunk", "query"]⟩, ⟨"model_name", true, IsStr⟩,
      ⟨"post_id", false, IsOptInt p⟩, ⟨"post_table", false, IsOptStr⟩,
      ⟨"chunk_ids", false, IsStrList⟩, ⟨"chunk_table", false, IsOptStr⟩,
      ⟨"query", false, IsOptStr⟩, ⟨"query_job_id", false, IsOptStr⟩]
  | "infer" => some [
      ⟨"task_type", false, IsOneOf ["categorise", "summarise"]⟩, ⟨"post_id", true, IsInt p⟩,
      ⟨"post_table", true, IsStr⟩, ⟨"model", true, IsStr⟩, ⟨"prompt_template", true, IsStr⟩]
  | "search_run" => some [⟨"job_id", true, IsStr⟩]
  | "search_rank" => some [
      ⟨"job_id", true, IsStr⟩, ⟨"candidates", false, IsCandidateList p⟩,
      ⟨"rerank_profile", false, IsOptStr⟩]
  | "search_finalize" => some [⟨"job_id", true, IsStr⟩, ⟨"candidates", false, IsCandidateList p⟩]
  | _ => none

def FitsSchema (payload : Json) (fields : List ModelField) : Prop :=
  ∀ f ∈ baseSchema ++ fields, f.Fits payload

def FitsModel (payload : Json) : Prop :=
  ∃ kind fields, payload.item? "kind" = some (.str kind) ∧ taskSchema p kind = some fields ∧
    FitsSchema payload fields

variable {p} {newId : String} {payload : Json}

theorem isSome_literal {α : Type} (values : List (String × α)) (v : Json) :
    (literal values v).isSome ↔ IsOneOf (values.map Prod.fst) v := by
  unfold literal IsOneOf
  cases v with
  | str s => simp [strField]
  | _ => simp [strField]

theorem isSome_strField_iff (v : Json) : (strField v).isSome ↔ IsStr v := isSome_strField

theorem isSome_int (v : Json) : (p.int v).isSome ↔ IsInt p v := Option.isSome_iff_exists

theorem isSome_optIntField (v : Json) : (optIntField p v).isSome ↔ IsOptInt p v := by
  unfold IsOptInt
  rw [← isSome_int]
  cases v <;> simp [optIntField]

theorem isSome_strListField (v : Json) : (strListField v).isSome ↔ IsStrList v := by
  constructor
  · intro h
    cases v with
    | arr items =>
      have hstr := isSome_mapM.mp h
      refine ⟨items.filterMap strField, congrArg Json.arr ?_⟩
      clear h
      induction items with
      | nil => rfl
      | cons v items ih =>
        obtain ⟨hv, hitems⟩ := List.forall_mem_cons.mp hstr
        obtain ⟨s, rfl⟩ := isSome_strField.mp hv
        exact congrArg (Json.str s :: ·) (ih hitems)
    | _ => cases h
  · rintro ⟨l, rfl⟩
    exact Option.isSome_iff_exists.mpr ⟨l, mapM_strField l⟩

theorem isSome_candidateOf (v : Json) : (candidateOf p v).isSome ↔ CandidateTaken p v := by
  rw [← isSome_candidateRef]
  unfold candidateOf
  cases hc : candidateRef p v with
  | none => rfl
  | some c =>
    refine iff_of_true ?_ rfl
    cases v with
    | obj fields =>
      rw [candidateRef_obj] at hc
      split_ifs at hc
      obtain ⟨id, -, hc⟩ := Option.bind_eq_some_iff.mp hc
      obtain ⟨chunkId, -, hc⟩ := Option.bind_eq_some_iff.mp hc
      obtain ⟨w, -, hc⟩ := Option.bind_eq_some_iff.mp hc
      obtain ⟨score, -, hc⟩ := Option.bind_eq_some_iff.mp hc
      cases hc
      rfl
    | _ => cases hc

theorem isSome_candidatesOf (v : Json) : (candidatesOf p v).isSome ↔ IsCandidateList p v := by
  unfold IsCandidateList
  cases v with
  | arr items =>
    simp only [candidatesOf, isSome_mapM, isSome_candidateOf, Json.arr.injEq, exists_eq_left']
  | _ => simp [candidatesOf]

section Rules

variable {α β : Type} {key : String} {P : Prop}

theorem isSome_required {read : Json → Option α} {takes : Json → Prop} {f : α → Option β}
    (htakes : ∀ v, (read v).isSome ↔ takes v) (h : ∀ a, (f a).isSome ↔ P) :
    (payload.item? key >>= fun v => read v >>= f).isSome ↔
      (⟨key, true, takes⟩ : ModelField).Fits payload ∧ P := by
  unfold ModelField.Fits
  simp only [isSome_bind, h, ← and_assoc, exists_and_right]
  refine and_congr_left' ?_
  cases payload.item? key with
  | none => simp
  | some v => simp [← htakes v, Option.isSome_iff_exists]

theorem isSome_default {default : α} {read : Json → Option α} {takes : Json → Prop}
    {f : α → Option β} (htakes : ∀ v, (read v).isSome ↔ takes v) (h : ∀ a, (f a).isSome ↔ P) :
    (fieldOr payload key default read >>= f).isSome ↔
      (⟨key, false, takes⟩ : ModelField).Fits payload ∧ P := by
  unfold ModelField.Fits fieldOr
  simp only [isSome_bind, h, exists_and_right]
  refine and_congr_left' ?_
  cases payload.item? key with
  | none => simp
  | some v => simp [← htakes v, Option.isSome_iff_exists]

theorem isSome_optStr {f : Option String → Option β} (h : ∀ a, (f a).isSome ↔ P) :
    (optStrField (payload.item? key) >>= f).isSome ↔
      (⟨key, false, IsOptStr⟩ : ModelField).Fits payload ∧ P := by
  unfold ModelField.Fits IsOptStr IsStr
  simp only [isSome_bind, h, exists_and_right]
  refine and_congr_left' ?_
  rw [← Option.isSome_iff_exists, isSome_optStrField]
  cases payload.item? key <;> simp

end Rules

theorem isSome_base {β : Type} {f : BaseTask → Option β} {P : Prop}
    (h : ∀ a, (f a).isSome ↔ P) :
    (BaseTask.ofPayload newId payload >>= f).isSome ↔ (∀ f ∈ baseSchema, f.Fits payload) ∧ P := by
  unfold BaseTask.ofPayload
  simp only [bind_assoc]
  refine Iff.trans (isSome_default isSome_strField_iff fun _ => isSome_optStr fun _ =>
    isSome_optStr fun _ => isSome_optStr fun _ => h _) ?_
  simp [baseSchema, and_assoc]

theorem fitsSchema_iff {fields : List ModelField} : FitsSchema payload fields ↔
    (∀ f ∈ baseSchema, f.Fits payload) ∧ ∀ f ∈ fields, f.Fits payload :=
  List.forall_mem_append

theorem isSome_chunkTask : (ChunkTask.ofPayload p newId payload).isSome ↔
    FitsSchema payload ((taskSchema p "chunk").getD []) := by
  have hfields : taskSchema p "chunk" = some _ := rfl
  unfold ChunkTask.ofPayload
  rw [hfields, Option.getD_some, fitsSchema_iff]
  refine Iff.trans (isSome_base fun _ => isSome_required (isSome_literal _) fun _ =>
    isSome_required isSome_int fun _ => isSome_required isSome_strField_iff fun _ =>
    isSome_required isSome_strField_iff fun _ => isSome_optStr fun _ =>
    iff_true_intro rfl) ?_
  simp [chunkTaskTypes]

theorem isSome_embedTask : (EmbedTask.ofPayload p newId payload).isSome ↔
    FitsSchema payload ((taskSchema p "embed").getD []) := by
  have hfields : taskSchema p "embed" = some _ := rfl
  unfold EmbedTask.ofPayload
  rw [hfields, Option.getD_some, fitsSchema_iff]
  refine Iff.trans (isSome_base fun _ => isSome_required (isSome_literal _) fun _ =>
    isSome_required isSome_strField_iff fun _ => isSome_default isSome_optIntField fun _ =>
    isSome_optStr fun _ => isSome_default isSome_strListField fun _ => isSome_optStr fun _ =>
    isSome_optStr fun _ => isSome_optStr fun _ => iff_true_intro rfl) ?_
  simp [embedTaskTypes]

theorem isSome_inferTask : (InferTask.ofPayload p newId payload).isSome ↔
    FitsSchema payload ((taskSchema p "infer").getD []) := by
  have hfields : taskSchema p "infer" = some _ := rfl
  unfold InferTask.ofPayload
  rw [hfields, Option.getD_some, fitsSchema_iff]
  refine Iff.trans (isSome_base fun _ => isSome_default (isSome_literal _) fun _ =>
    isSome_required isSome_int fun _ => isSome_required isSome_strField_iff fun _ =>
    isSome_required isSome_strField_iff fun _ =>
    isSome_required isSome_strField_iff fun _ => iff_true_intro rfl) ?_
  simp [inferTaskTypes]

theorem isSome_searchRunTask : (SearchRunTask.ofPayload newId payload).isSome ↔
    FitsSchema payload ((taskSchema p "search_run").getD []) := by
  have hfields : taskSchema p "search_run" = some _ := rfl
  unfold SearchRunTask.ofPayload
  rw [hfields, Option.getD_some, fitsSchema_iff]
  refine Iff.trans (isSome_base fun _ => isSome_required isSome_strField_iff fun _ =>
    iff_true_intro rfl) ?_
  simp

theorem isSome_searchRankTask : (SearchRankTask.ofPayload p newId payload).isSome ↔
    FitsSchema payload ((taskSchema p "search_rank").getD []) := by
  have hfields : taskSchema p "search_rank" = some _ := rfl
  unfold SearchRankTask.ofPayload
  rw [hfields, Option.getD_some, fitsSchema_iff]
  refine Iff.trans (isSome_base fun _ => isSome_required isSome_strField_iff fun _ =>
    isSome_default isSome_candidatesOf fun _ => isSome_optStr fun _ => iff_true_intro rfl) ?_
  simp

theorem isSome_searchFinalizeTask : (SearchFinalizeTask.ofPayload p newId payload).isSome ↔
    FitsSchema payload ((taskSchema p "search_finalize").getD []) := by
  have hfields : taskSchema p "search_finalize" = some _ := rfl
  unfold SearchFinalizeTask.ofPayload
  rw [hfields, Option.getD_some, fitsSchema_iff]
  refine Iff.trans (isSome_base fun _ => isSome_required isSome_strField_iff fun _ =>
    isSome_default isSome_candidatesOf fun _ => iff_true_intro rfl) ?_
  simp

/-- `parse_task` takes the payloads that have a kind and fit its model, and no others. -/
theorem isSome_parseTask_iff : (parseTask p newId payload).isSome ↔ FitsModel p payload := by
  unfold parseTask FitsModel
  cases hkind : payload.item? "kind" with
  | none => simp
  | some v =>
    cases v with
    | str kind =>
      simp only [Option.bind_eq_bind, Option.bind_some, strField, Option.some.injEq,
        Json.str.injEq, exists_and_left, exists_eq_left']
      split
      · rw [Option.isSome_map, isSome_chunkTask]
        simp [taskSchema]
      · rw [Option.isSome_map, isSome_embedTask]
        simp [taskSchema]
      · rw [Option.isSome_map, isSome_inferTask]
        simp [taskSchema]
      · rw [Option.isSome_map, isSome_searchRunTask (p := p)]
        simp [taskSchema]
      · rw [Option.isSome_map, isSome_searchRankTask]
        simp [taskSchema]
      · rw [Option.isSome_map, isSome_searchFinalizeTask]
        simp [taskSchema]
      · simp [taskSchema, *]
    | _ => simp [strField]

/-- The format of a message: what is taken fits the model of its kind, and a task is parsed back
from its own fields. -/
theorem task_format (hp : p.Lawful) (newId : String) (payload : Json) :
    ((parseTask p newId payload).isSome ↔ FitsModel p payload) ∧
      ∀ t : AnyTask, CarriesFields payload t.json → parseTask p newId payload = some t.parsed :=
  ⟨isSome_parseTask_iff, fun _ h => parseTask_of_carriesFields hp h⟩

end Schema

/-- A message of another sender: the fields are in another order, there is one more, and a score is
no number. -/
def foreignPayload : Json :=
  .obj [("queued_at", .str "2026-01-01"), ("job_id", .str "job"), ("source_event_id", .null),
    ("candidates", .arr [.obj [("score", .nonFinite "NaN"), ("chunk_id", .str "chunk")]]),
    ("parent_span_id", .null), ("trace_id", .null), ("kind", .str "search_finalize"),
    ("task_id", .str "task")]

def foreignTask : SearchFinalizeTask Json :=
  ⟨⟨"task", none, none, none⟩, "job", [⟨"chunk", .nonFinite "NaN"⟩]⟩

/-- The same fields as those of a dump, in another order. -/
def reorderedPayload : Json :=
  .obj [("job_id", .str "job"), ("source_event_id", .null), ("parent_span_id", .null),
    ("trace_id", .null), ("kind", .str "search_run"), ("task_id", .str "task")]

def reorderedTask : AnyTask := .searchRun ⟨⟨"task", none, none, none⟩, "job"⟩

theorem carriesFields_reordered : CarriesFields reorderedPayload reorderedTask.json := by
  intro key v h
  have hentries := OrderedDict.get?_eq_some.mp h
  rw [OrderedDict.entries_ofList (by decide)] at hentries
  simp only [BaseTask.fields, List.cons_append, List.nil_append, List.mem_cons,
    List.not_mem_nil, or_false, Prod.mk.injEq] at hentries
  rcases hentries with ⟨rfl, rfl⟩ | ⟨rfl, rfl⟩ | ⟨rfl, rfl⟩ | ⟨rfl, rfl⟩ | ⟨rfl, rfl⟩ |
    ⟨rfl, rfl⟩ <;> rfl

theorem task_format_foreign :
    parseTask jsonNumbers "drawn" foreignPayload = some (.searchFinalize foreignTask) ∧
      FitsModel jsonNumbers foreignPayload ∧
      parseTask jsonNumbers "drawn" reorderedPayload = some reorderedTask.parsed :=
  ⟨rfl, (task_format lawful_jsonNumbers "drawn" foreignPayload).1.mp rfl,
    (task_format lawful_jsonNumbers "drawn" reorderedPayload).2 _ carriesFields_reordered⟩

end RagPipeline
