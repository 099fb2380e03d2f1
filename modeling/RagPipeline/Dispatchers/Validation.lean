import RagPipeline.Dispatchers.RawEvents
import RagPipeline.Lib.MapM

namespace RagPipeline

open MapM (isSome_mapM)

def IsObject (event : Json) : Prop := ∃ fields, event = .obj fields

/-- A list or a dictionary is no key of a dictionary. -/
def Hashable (v : Json) : Prop := (∀ items, v ≠ .arr items) ∧ ∀ fields, v ≠ .obj fields

section Fields

variable (event : Json) (key : String)

def HasStr : Prop := ∃ s, event.item? key = some (.str s)

/-- The key is there, with a string or `None`. -/
def HasOptStr : Prop := event.item? key = some .null ∨ HasStr event key

def OptStrOrAbsent : Prop := event.item? key = none ∨ HasOptStr event key

end Fields

/-- A candidate with the fields `chunk_id` and `score` and no others. -/
def CandidateTaken (p : Pydantic) (c : Json) : Prop :=
  ∃ fields, c = .obj fields ∧
    (∀ key ∈ (OrderedDict.ofList fields).keys, key ∈ ["chunk_id", "score"]) ∧
    HasStr c "chunk_id" ∧ ∃ v, c.item? "score" = some v ∧ (p.float v).isSome

def JobCreatedTaken (event : Json) : Prop :=
  ∃ profile, event.item? "embedding_profile" = some profile ∧ Hashable profile ∧
    ∀ name cfg, profile = .str name → (modelToConfig embedConfigs).get? name = some cfg →
      HasOptStr event "query" ∧ HasOptStr event "query_job_id" ∧ OptStrOrAbsent event "trace_id"

/-- The fields that a task with candidates takes over. -/
def JobFieldsTaken (event : Json) : Prop :=
  HasStr event "query_job_id" ∧ OptStrOrAbsent event "trace_id"

def CandidatesRetrievedTaken (p : Pydantic) (event : Json) : Prop :=
  (∃ jobId, event.item? "query_job_id" = some jobId) ∧
  (∃ candidates items, event.item? "candidates" = some candidates ∧
    candidates.iter? = some items ∧ ∀ c ∈ items, CandidateTaken p c) ∧
  if ((event.item? "rerank").getD .null).truthy then
    Hashable (rankProfileRaw (event.item? "rerank_profile")) ∧
      ∀ name cfg, rankProfileRaw (event.item? "rerank_profile") = .str name →
        rerankConfigs.get? name = some cfg → JobFieldsTaken event
  else JobFieldsTaken event

def QueryEmbeddedTaken (event : Json) : Prop := JobFieldsTaken event

theorem get?_eq_item? {event : Json} (h : IsObject event) (key : String) :
    event.get? key = some (event.item? key) := by
  obtain ⟨fields, rfl⟩ := h
  rfl

theorem isObject_of_item? {event v : Json} {key : String} (h : event.item? key = some v) :
    IsObject event := by
  cases event with
  | obj fields => exact ⟨fields, rfl⟩
  | _ => cases h

theorem isSome_get? {event : Json} {key : String} : (event.get? key).isSome ↔ IsObject event := by
  cases event with
  | obj fields => exact iff_of_true rfl ⟨fields, rfl⟩
  | _ => exact iff_of_false Bool.false_ne_true fun ⟨_, h⟩ => Json.noConfusion h

theorem isSome_strField {v : Json} : (strField v).isSome ↔ ∃ s, v = .str s := by
  cases v with
  | str s => exact iff_of_true rfl ⟨s, rfl⟩
  | _ => exact iff_of_false Bool.false_ne_true fun ⟨_, h⟩ => Json.noConfusion h

theorem isSome_lookup? {ν : Type} {d : OrderedDict String ν} {v : Json} :
    (Json.lookup? d v).isSome ↔ Hashable v := by
  cases v <;> simp [Json.lookup?, Hashable]

theorem lookup?_eq_some_some {ν : Type} {d : OrderedDict String ν} {v : Json} {x : ν} :
    Json.lookup? d v = some (some x) ↔ ∃ s, v = .str s ∧ d.get? s = some x := by
  cases v <;> simp [Json.lookup?]

theorem isSome_optStrField {v : Option Json} :
    (optStrField v).isSome ↔ v = none ∨ v = some .null ∨ ∃ s, v = some (.str s) := by
  rcases v with _ | v
  · simp [optStrField]
  · cases v <;> simp [optStrField, strField]

theorem isSome_bind {α β : Type} {x : Option α} {f : α → Option β} :
    (x >>= f).isSome ↔ ∃ a, x = some a ∧ (f a).isSome := by
  cases x <;> simp

/-- An unknown name is skipped. -/
theorem isSome_lookup_bind {ν : Type} {d : OrderedDict String ν} {v : Json} {P : Prop}
    {f : Option ν → Option (Option Message)} (hskip : f none = some none)
    (h : ∀ name x, v = .str name → ((f (some x)).isSome ↔ P)) :
    (Json.lookup? d v >>= f).isSome ↔
      Hashable v ∧ ∀ name x, v = .str name → d.get? name = some x → P := by
  rw [← isSome_lookup? (d := d)]
  cases hv : Json.lookup? d v with
  | none => simp
  | some found =>
    cases found with
    | none =>
      simp only [Option.bind_eq_bind, Option.bind_some, hskip, Option.isSome_some, true_and,
        true_iff]
      intro name x hname hx
      rw [lookup?_eq_some_some.mpr ⟨name, hname, hx⟩] at hv
      cases hv
    | some x =>
      obtain ⟨name, hname, hx⟩ := lookup?_eq_some_some.mp hv
      simp only [Option.bind_eq_bind, Option.bind_some, Option.isSome_some, true_and,
        h name x hname]
      exact ⟨fun hP _ _ _ _ => hP, fun hP => hP name x hname hx⟩

section Messages

variable {p : Pydantic} {draw : Draw} {event : Json} {key : String}

section Rules

variable {α : Type} {P : Prop}

theorem isSome_item_str {f : String → Option α} (h : ∀ s, (f s).isSome ↔ P) :
    (event.item? key >>= fun v => strField v >>= f).isSome ↔ HasStr event key ∧ P := by
  simp only [isSome_bind, h, ← and_assoc, exists_and_right, HasStr]
  refine and_congr_left' ?_
  simp only [← Option.isSome_iff_exists, isSome_strField]
  exact ⟨fun ⟨_, hv, s, hs⟩ => ⟨s, hs ▸ hv⟩, fun ⟨s, hs⟩ => ⟨_, hs, s, rfl⟩⟩

theorem isSome_item_optStr {f : Option String → Option α} (h : ∀ s, (f s).isSome ↔ P) :
    (event.item? key >>= fun v => optStrField (some v) >>= f).isSome ↔
      HasOptStr event key ∧ P := by
  simp only [isSome_bind, h, ← and_assoc, exists_and_right, HasOptStr, HasStr]
  refine and_congr_left' ?_
  cases event.item? key with
  | none => simp
  | some v => simpa [Option.isSome_iff_exists] using isSome_optStrField (v := some v)

theorem isSome_get_optStr (hobj : IsObject event) {f : Option String → Option α}
    (h : ∀ s, (f s).isSome ↔ P) :
    (event.get? key >>= fun v => optStrField v >>= f).isSome ↔ OptStrOrAbsent event key ∧ P := by
  rw [get?_eq_item? hobj]
  simp only [isSome_bind, h, Option.some.injEq, exists_eq_left', exists_and_right, OptStrOrAbsent,
    HasOptStr, HasStr]
  refine and_congr_left' ?_
  rw [← Option.isSome_iff_exists, isSome_optStrField]

end Rules

theorem recordQueueLag_eq (hobj : IsObject event) : recordQueueLag event = some () := by
  rw [recordQueueLag, get?_eq_item? hobj]
  rfl

theorem isSome_jobCreatedMessage :
    (jobCreatedMessage draw event).isSome ↔ JobCreatedTaken event := by
  unfold jobCreatedMessage JobCreatedTaken
  cases hprofile : event.item? "embedding_profile" with
  | none => simp [recordQueueLag]
  | some profile =>
    have hobj := isObject_of_item? hprofile
    rw [recordQueueLag_eq hobj]
    show (Json.lookup? (modelToConfig embedConfigs) profile >>= _).isSome ↔ _
    simp only [Option.some.injEq, exists_eq_left']
    refine isSome_lookup_bind rfl fun _ cfg _ => ?_
    refine isSome_item_optStr fun query => isSome_item_optStr fun queryJobId => ?_
    refine (isSome_get_optStr hobj fun traceId => ?_).trans (iff_of_eq (and_true _))
    exact iff_true_intro rfl

theorem isSome_jobFields {α : Type} {jobId : Json} (hjob : event.item? "query_job_id" = some jobId)
    {f : Option String → String → Option α} (h : ∀ t s, (f t s).isSome) :
    (event.get? "trace_id" >>= fun v => optStrField v >>= fun t =>
      strField jobId >>= f t).isSome ↔ JobFieldsTaken event := by
  have hobj := isObject_of_item? hjob
  have hstr : ∀ t, (strField jobId >>= f t).isSome ↔ HasStr event "query_job_id" := by
    intro t
    simp only [isSome_bind, h, and_true, ← Option.isSome_iff_exists, isSome_strField, HasStr, hjob,
      Option.some.injEq]
  exact (isSome_get_optStr hobj hstr).trans and_comm

theorem isSome_queryEmbeddedMessage :
    (queryEmbeddedMessage draw event).isSome ↔ QueryEmbeddedTaken event := by
  unfold queryEmbeddedMessage QueryEmbeddedTaken
  cases hjob : event.item? "query_job_id" with
  | none => simp [JobFieldsTaken, HasStr, hjob]
  | some jobId => exact isSome_jobFields hjob fun _ _ => rfl

theorem candidateRef_obj (fields : List (String × Json)) :
    candidateRef p (.obj fields) =
      if ∀ key ∈ (OrderedDict.ofList fields).keys, key ∈ ["chunk_id", "score"] then
        (Json.obj fields).item? "chunk_id" >>= fun v => strField v >>= fun chunkId =>
          (Json.obj fields).item? "score" >>= fun v => p.float v >>= fun score =>
            some (Json.obj [("chunk_id", .str chunkId), ("score", score)])
      else none := by
  show (guard _ >>= fun _ => _) = _
  rw [guard]
  split_ifs <;> rfl

theorem isSome_candidateRef {c : Json} : (candidateRef p c).isSome ↔ CandidateTaken p c := by
  cases c with
  | obj fields =>
    have hscore : ∀ chunkId,
        ((Json.obj fields).item? "score" >>= fun v => p.float v >>= fun score =>
          some (Json.obj [("chunk_id", .str chunkId), ("score", score)])).isSome ↔
          ∃ v, (Json.obj fields).item? "score" = some v ∧ (p.float v).isSome := by
      intro chunkId
      simp only [isSome_bind, Option.isSome_some, and_true, ← Option.isSome_iff_exists]
    unfold CandidateTaken
    simp only [Json.obj.injEq, exists_eq_left']
    rw [candidateRef_obj]
    split_ifs with hkeys
    · rw [and_iff_right hkeys]
      exact isSome_item_str hscore
    · exact iff_of_false Bool.false_ne_true fun h => hkeys h.1
  | _ => exact iff_of_false Bool.false_ne_true fun ⟨_, h, _⟩ => Json.noConfusion h

theorem isSome_candidates {α : Type} {P : Prop} {f : List Json → Option α}
    (h : ∀ l, (f l).isSome ↔ P) :
    (event.item? "candidates" >>= fun v => v.iter? >>= fun items =>
      items.mapM (candidateRef p) >>= f).isSome ↔
      (∃ candidates items, event.item? "candidates" = some candidates ∧
        candidates.iter? = some items ∧ ∀ c ∈ items, CandidateTaken p c) ∧ P := by
  simp only [isSome_bind, h, exists_and_right, ← and_assoc, ← Option.isSome_iff_exists, isSome_mapM,
    isSome_candidateRef]
  refine and_congr_left' ?_
  simp only [exists_and_left, and_assoc]

theorem isSome_candidatesRetrievedMessage :
    (candidatesRetrievedMessage p draw event).isSome ↔ CandidatesRetrievedTaken p event := by
  unfold candidatesRetrievedMessage CandidatesRetrievedTaken
  cases hjob : event.item? "query_job_id" with
  | none => simp [recordQueueLag]
  | some jobId =>
    have hobj := isObject_of_item? hjob
    rw [recordQueueLag_eq hobj, and_iff_right ⟨jobId, rfl⟩]
    refine isSome_candidates fun candidates => ?_
    rw [get?_eq_item? hobj "rerank"]
    simp only [Option.bind_eq_bind, Option.bind_some]
    split_ifs
    · rw [get?_eq_item? hobj "rerank_profile"]
      refine isSome_lookup_bind rfl fun name cfg hname => isSome_jobFields hjob fun traceId id => ?_
      rw [hname]
      rfl
    · exact isSome_jobFields hjob fun traceId id => rfl

end Messages

/-- `event.get(key, default)`. -/
def getOr (event : Json) (key : String) (default : Json) : Option Json :=
  (event.get? key).map fun v => v.getD default

structure ReadsPost (event : Json) (e : PostSyncedEvent) : Prop where
  eventId : event.item? "event_id" = some (.str e.eventId)
  postId : event.item? "post_id" = some (.int e.postId)
  postTable : event.item? "post_table" = some (.str e.postTable)
  fieldsChanged : getOr event "fields_changed" (.arr []) = some (.arr (e.fieldsChanged.map .str))
  hasSummary : getOr event "has_summary" (.bool false) = some (.bool e.hasSummary)
  traceId : getOr event "trace_id" .null = some (.ofOption .str e.traceId)

structure ReadsChunks (event : Json) (e : ChunksCreatedEvent) : Prop where
  eventId : event.item? "event_id" = some (.str e.eventId)
  postId : event.item? "post_id" = some (.int e.postId)
  postTable : event.item? "post_table" = some (.str e.postTable)
  chunkIds : event.item? "chunk_ids" = some (.arr (e.chunkIds.map .str))
  chunkTable : event.item? "chunk_table" = some (.str e.chunkTable)
  taskType : event.item? "task_type" = some (.str e.taskType)
  traceId : getOr event "trace_id" .null = some (.ofOption .str e.traceId)

structure ReadsJobCreated (event : Json) (e : SearchJobCreatedEvent) : Prop where
  queryJobId : event.item? "query_job_id" = some (.str e.queryJobId)
  query : event.item? "query" = some (.str e.query)
  embeddingProfile : event.item? "embedding_profile" = some (.str e.embeddingProfile)
  traceId : getOr event "trace_id" .null = some (.ofOption .str e.traceId)

structure ReadsCandidate (c : Json) (ref : CandidateChunkRef) : Prop where
  fields : ∃ fields, c = .obj fields ∧
    ∀ key ∈ (OrderedDict.ofList fields).keys, key ∈ ["chunk_id", "score"]
  chunkId : c.item? "chunk_id" = some (.str ref.chunkId)
  score : c.item? "score" = some (.float ref.score)

structure ReadsCandidates (event : Json) (e : SearchCandidatesRetrievedEvent) : Prop where
  queryJobId : event.item? "query_job_id" = some (.str e.queryJobId)
  candidates : ∃ items, event.item? "candidates" = some (.arr items) ∧
    List.Forall₂ ReadsCandidate items e.candidates
  rerank : getOr event "rerank" .null = some (.bool e.rerank)
  rerankProfile : getOr event "rerank_profile" .null = some (.ofOption .str e.rerankProfile)
  traceId : getOr event "trace_id" .null = some (.ofOption .str e.traceId)

structure ReadsQueryEmbedded (event : Json) (e : SearchQueryEmbeddedEvent) : Prop where
  queryJobId : event.item? "query_job_id" = some (.str e.queryJobId)
  traceId : getOr event "trace_id" .null = some (.ofOption .str e.traceId)

section WellFormed

variable {p : Pydantic} {draw : Draw} {event : Json}

theorem getOr_eq (hobj : IsObject event) (key : String) (default : Json) :
    getOr event key default = some ((event.item? key).getD default) := by
  rw [getOr, get?_eq_item? hobj]
  rfl

theorem optStrField_item {key : String} {s : Option String} (hobj : IsObject event)
    (h : getOr event key .null = some (.ofOption .str s)) :
    optStrField (event.item? key) = some s := by
  rw [getOr_eq hobj, Option.some_inj] at h
  cases hv : event.item? key with
  | none =>
    rw [hv] at h
    cases s with
    | none => rfl
    | some s => cases h
  | some v =>
    rw [hv, Option.getD_some] at h
    subst h
    cases s <;> rfl

theorem jobCreatedMessage_of_reads {e : SearchJobCreatedEvent} (h : ReadsJobCreated event e) :
    jobCreatedMessage draw event =
      some ((SearchDispatcher.jobCreated embedConfigs (draw.taskId "query") e).map
        Dispatch.message) := by
  have hobj := isObject_of_item? h.query
  unfold jobCreatedMessage SearchDispatcher.jobCreated
  simp only [recordQueueLag_eq hobj, h.embeddingProfile, Json.lookup?, h.query, h.queryJobId,
    get?_eq_item? hobj, Option.bind_eq_bind, Option.bind_some, optStrField_item hobj h.traceId]
  cases (modelToConfig embedConfigs).get? e.embeddingProfile <;> rfl

theorem queryEmbeddedMessage_of_reads {e : SearchQueryEmbeddedEvent}
    (h : ReadsQueryEmbedded event e) : queryEmbeddedMessage draw event =
      some (some (EmbeddingDispatcher.queryEmbedded (draw.taskId "search_run") e).message) := by
  have hobj := isObject_of_item? h.queryJobId
  unfold queryEmbeddedMessage
  simp only [h.queryJobId, get?_eq_item? hobj, Option.bind_eq_bind, Option.bind_some,
    optStrField_item hobj h.traceId]
  rfl

theorem candidateRef_of_reads (hp : p.Lawful) {c : Json} {ref : CandidateChunkRef}
    (h : ReadsCandidate c ref) : candidateRef p c = some ref.json := by
  obtain ⟨⟨fields, rfl, hkeys⟩, hid, hscore⟩ := h
  rw [candidateRef_obj, if_pos hkeys, hid, hscore]
  simp only [strField, Option.bind_eq_bind, Option.bind_some, hp.float_float]
  rfl

theorem mapM_candidateRef_of_reads (hp : p.Lawful) {items : List Json}
    {refs : List CandidateChunkRef} (h : List.Forall₂ ReadsCandidate items refs) :
    items.mapM (candidateRef p) = some (refs.map CandidateChunkRef.json) := by
  induction h with
  | nil => rfl
  | cons hc hrest ih =>
    rw [List.mapM_cons, candidateRef_of_reads hp hc, ih]
    rfl

theorem candidatesRetrievedMessage_of_reads (hp : p.Lawful) {e : SearchCandidatesRetrievedEvent}
    (h : ReadsCandidates event e) : candidatesRetrievedMessage p draw event =
      some ((SearchDispatcher.candidatesRetrieved rerankConfigs
        (draw.taskId (if e.rerank then "search_rank" else "search_finalize")) e).map
          Dispatch.message) := by
  have hobj := isObject_of_item? h.queryJobId
  obtain ⟨items, hitems, hrefs⟩ := h.candidates
  have hrerank : (event.item? "rerank").getD .null = .bool e.rerank := by
    simpa only [getOr_eq hobj, Option.some_inj] using h.rerank
  have hprofile : rankProfileRaw (event.item? "rerank_profile") = .str (rankProfile e) := by
    have hread := h.rerankProfile
    rw [getOr_eq hobj, Option.some_inj] at hread
    rw [rankProfile]
    cases hv : event.item? "rerank_profile" with
    | none =>
      rw [hv] at hread
      cases hprofile : e.rerankProfile with
      | none => rfl
      | some name =>
        rw [hprofile] at hread
        cases hread
    | some v =>
      rw [hv, Option.getD_some] at hread
      subst hread
      cases e.rerankProfile with
      | none => rfl
      | some name =>
        by_cases hname : name = ""
        · subst hname
          rfl
        · rw [truthy_some hname]
          simp [rankProfileRaw, Json.ofOption, Json.truthy, hname]
  unfold candidatesRetrievedMessage SearchDispatcher.candidatesRetrieved
  simp only [recordQueueLag_eq hobj, h.queryJobId, hitems, Json.iter?, hrerank, Json.truthy,
    mapM_candidateRef_of_reads hp hrefs, hprofile, Json.lookup?,
    get?_eq_item? hobj, Option.bind_eq_bind, Option.bind_some, optStrField_item hobj h.traceId]
  split_ifs
  · cases rerankConfigs.get? (rankProfile e) <;> rfl
  · rfl

/-- The trace that a dispatcher passes on is that of its span, or else the event's. -/
theorem propagateRaw_eq (span : Option SpanIds) {v : Option Json} {traceId : Option String}
    (h : optStrField v = some traceId) :
    optStrField (propagateRaw span v).1 = some (propagateTrace span traceId).1 ∧
      optStrField (propagateRaw span v).2 = some (propagateTrace span traceId).2 := by
  cases span with
  | none => exact ⟨h, rfl⟩
  | some ids => exact ⟨rfl, rfl⟩

theorem mapM_strField (l : List String) : (l.map Json.str).mapM strField = some l := by
  induction l with
  | nil => rfl
  | cons s l ih =>
    rw [List.map_cons, List.mapM_cons, ih]
    rfl

theorem embeddingMessage_of_reads (hp : p.Lawful) {e : ChunksCreatedEvent}
    (h : ReadsChunks event e) : embeddingMessage p draw event =
      (ChunkDispatcher.dispatchEmbedding embedConfigs draw.span (draw.taskId "chunk") e).map
        Dispatch.message := by
  have hobj := isObject_of_item? h.postId
  obtain ⟨htrace, hparent⟩ := propagateRaw_eq draw.span (optStrField_item hobj h.traceId)
  unfold embeddingMessage ChunkDispatcher.dispatchEmbedding
  simp only [get?_eq_item? hobj, h.taskType, h.postId, h.chunkIds, h.postTable, h.chunkTable,
    h.eventId, htrace, hparent, Json.lookup?, Json.len?, Option.bind_eq_bind, Option.bind_some,
    Option.getD_some, optIntField, hp.int_int, strListField, mapM_strField]
  cases embedConfigs.get? "body" <;> rfl

theorem contains?_map_str (l : List String) (f : String) :
    (Json.arr (l.map .str)).contains? f = some (l.contains f) := by
  have hin : ((l.map Json.str).any fun x => x.isStr f) = l.contains f := by
    induction l with
    | nil => rfl
    | cons s l ih =>
      rw [List.map_cons, List.any_cons, List.contains_cons, ih]
      simp [Json.isStr, BEq.beq, eq_comm]
  exact congrArg some hin

theorem anyIn_eq (l watched : List String) :
    anyIn (.arr (l.map .str)) watched = some (watched.any fun f => l.contains f) := by
  induction watched with
  | nil => rfl
  | cons f watched ih =>
    rw [anyIn, contains?_map_str, ih, List.any_cons]
    cases l.contains f <;> rfl

theorem anyChangedRaw_eq (l watched : List String) :
    anyChangedRaw (.arr (l.map .str)) watched = some (PostDispatcher.anyChanged l watched) := by
  rw [anyChangedRaw, anyIn_eq, PostDispatcher.anyChanged]
  cases l <;> rfl

theorem routesRaw_of_reads {e : PostSyncedEvent} (h : ReadsPost event e) :
    routesRaw draw event = some (propagateRaw draw.span (event.item? "trace_id"), .int e.postId,
      .str e.postTable, [(.body, PostDispatcher.bodyChanged e),
        (.title, PostDispatcher.titleChanged e),
        (.summaryTitle, PostDispatcher.summaryChanged e)]) := by
  have hobj := isObject_of_item? h.postId
  have hfields : (event.item? "fields_changed").getD (.arr []) =
      .arr (e.fieldsChanged.map .str) := by
    simpa only [getOr_eq hobj, Option.some_inj] using h.fieldsChanged
  have hsummary : (event.item? "has_summary").getD (.bool false) = .bool e.hasSummary := by
    simpa only [getOr_eq hobj, Option.some_inj] using h.hasSummary
  have hchanged : summaryChangedRaw (.bool e.hasSummary) (.arr (e.fieldsChanged.map .str)) =
      some (PostDispatcher.summaryChanged e) := by
    rw [summaryChangedRaw, anyChangedRaw_eq, PostDispatcher.summaryChanged]
    cases e.hasSummary <;> rfl
  unfold routesRaw
  simp only [h.postId, h.postTable, get?_eq_item? hobj, hfields, hsummary, anyChangedRaw_eq,
    hchanged, Option.bind_eq_bind, Option.bind_some]
  rfl

theorem chunkTaskRaw_of_reads (hp : p.Lawful) {e : PostSyncedEvent} (h : ReadsPost event e)
    (taskType : ChunkTaskType) :
    chunkTaskRaw p draw event (propagateRaw draw.span (event.item? "trace_id")) (.int e.postId)
        (.str e.postTable) taskType =
      (embedConfigs.get? taskType.key).map fun cfg =>
        { taskId := draw.taskId taskType.key
          traceId := (propagateTrace draw.span e.traceId).1
          parentSpanId := (propagateTrace draw.span e.traceId).2
          sourceEventId := some e.eventId
          taskType
          postId := e.postId
          postTable := e.postTable
          embedModel := cfg.primary
          analysisText := none } := by
  have hobj := isObject_of_item? h.postId
  obtain ⟨htrace, hparent⟩ := propagateRaw_eq draw.span (optStrField_item hobj h.traceId)
  unfold chunkTaskRaw
  simp only [get?_eq_item? hobj, h.eventId, htrace, hparent, hp.int_int, Option.bind_eq_bind,
    Option.bind_some]
  cases embedConfigs.get? taskType.key <;> rfl

end WellFormed

end RagPipeline
