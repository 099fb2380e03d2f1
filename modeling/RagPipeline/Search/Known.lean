import RagPipeline.Search.Reranking
import RagPipeline.Search.System

namespace RagPipeline
namespace Searching
open Coro

/-- What the jobs ask for, and what the tables have held so far, from the newest on. -/
structure Known where
  job : String → Option JobRequest
  past : List ChunkTables

instance : Preorder Known where
  le c d := (∀ id r, c.job id = some r → d.job id = some r) ∧ c.past <:+ d.past
  le_refl c := ⟨fun _ _ h => h, List.suffix_refl _⟩
  le_trans _ _ _ h h' := ⟨fun id r hr => h'.1 id r (h.1 id r hr), h.2.trans h'.2⟩

def State.known (s : State) : Known := ⟨fun id => (s.jobs id).map request, s.past⟩

variable (env : SearchEnv)

def Candidates (c : Known) (r : JobRequest) (candidates : List CandidateChunkRef) : Prop :=
  ∃ S ∈ c.past, ∃ found, Found env S r found ∧ candidates = found.map candidateOf

def EventTrue (c : Known) : Event → Prop
  | .searchJobCreated e => ∃ r, c.job e.queryJobId = some r ∧ e.query = r.query ∧
      e.embeddingProfile = r.embeddingProfile
  | .searchCandidatesRetrieved e => ∃ r, c.job e.queryJobId = some r ∧ e.rerank = r.rerank ∧
      e.rerankProfile = r.rerankProfile ∧ Candidates env c r e.candidates
  | _ => True

/-- What a task on this queue says of a job is so, and the queue is that of the right model. -/
def TaskTrue (c : Known) (queueName : String) : AnyTask → Prop
  | .embed t => ∀ query jobId, t.query = some query → t.queryJobId = some jobId →
      ∃ r, c.job jobId = some r ∧ query = r.query ∧
        ∀ m, polledModel queueName = some m → m = r.embeddingProfile
  | .searchRank t => ∃ r, c.job t.jobId = some r ∧ r.rerank = true ∧
      Candidates env c r t.candidates ∧
        ∀ m, polledModel queueName = some m → rerankModel r.rerankProfile = some m
  | .searchFinalize t => ∃ r, c.job t.jobId = some r ∧ r.rerank = false ∧
      Candidates env c r t.candidates
  | _ => True

variable {env} {c d : Known}

theorem Candidates.mono {r : JobRequest} {candidates : List CandidateChunkRef}
    (h : Candidates env c r candidates) (hcd : c ≤ d) : Candidates env d r candidates := by
  obtain ⟨S, hS, hfound⟩ := h
  exact ⟨S, hcd.2.subset hS, hfound⟩

theorem EventTrue.mono {e : Event} (h : EventTrue env c e) (hcd : c ≤ d) : EventTrue env d e := by
  cases e with
  | searchJobCreated e =>
    obtain ⟨r, hr, hrest⟩ := h
    exact ⟨r, hcd.1 _ _ hr, hrest⟩
  | searchCandidatesRetrieved e =>
    obtain ⟨r, hr, hrerank, hprofile, hcandidates⟩ := h
    exact ⟨r, hcd.1 _ _ hr, hrerank, hprofile, hcandidates.mono hcd⟩
  | _ => trivial

theorem TaskTrue.mono {q : String} {t : AnyTask} (h : TaskTrue env c q t) (hcd : c ≤ d) :
    TaskTrue env d q t := by
  cases t with
  | embed t =>
    intro query jobId hquery hjob
    obtain ⟨r, hr, hrest⟩ := h query jobId hquery hjob
    exact ⟨r, hcd.1 _ _ hr, hrest⟩
  | searchRank t =>
    obtain ⟨r, hr, hrerank, hcandidates, hmodel⟩ := h
    exact ⟨r, hcd.1 _ _ hr, hrerank, hcandidates.mono hcd, hmodel⟩
  | searchFinalize t =>
    obtain ⟨r, hr, hrerank, hcandidates⟩ := h
    exact ⟨r, hcd.1 _ _ hr, hrerank, hcandidates.mono hcd⟩
  | _ => trivial

theorem Answers.mono {past past' : List ChunkTables} {r : JobRequest}
    {results : List SearchResult} (h : Answers env past r results) (hpast : past <:+ past') :
    Answers env past' r results := by
  obtain ⟨later, T, earlier, rfl, hrest⟩ := h
  obtain ⟨more, rfl⟩ := hpast
  exact ⟨more ++ later, T, earlier, (List.append_assoc _ _ _).symm, hrest⟩

variable (env)

def TellsJob (modelName : String) (c : Known) : (op : JobOp) → op.Ans → Prop
  | .getJob id, a => ∀ j : SearchJob, a = some j → c.job id = some (request j) ∧
      ∀ v, j.embedding = some v → v = (request j).queryVector env
  | .searchNearest table embedding k, a =>
    ∃ T ∈ c.past, Nearest env (rowsOf T table) embedding k a
  | .getChunksByIds ids table, a => ∃ T earlier, c.past = T :: earlier ∧
      a.Perm (((rowsOf T table).filter fun r => r.id ∈ ids).map (chunkRow env))
  | .score query texts, a => a = texts.map (env.scorer modelName query)
  | _, _ => True

def MayAwaitJob (c : Known) : JobOp → Prop
  | .completeJob id results => ∃ r, c.job id = some r ∧ Answers env c.past r results
  | .publish e => EventTrue env c e
  | _ => True

def TellsEmbed (modelName : String) (_ : Known) : (op : EmbedOp) → op.Ans → Prop :=
  AnswersEmbed env modelName

def MayAwaitEmbed (c : Known) : EmbedOp → Prop
  | .saveBatch rows => ∀ row, .query row ∈ rows →
      ∃ r, c.job row.queryJobId = some r ∧ row.embedding = r.queryVector env
  | .publish e => EventTrue env c e
  | _ => True

def TellsApi (c : Known) : (op : SearchApiOp) → op.Ans → Prop
  | .createJob query k profile table _ rerank rerankProfile, jobId =>
    c.job jobId = some ⟨query, k, profile, table, rerank, rerankProfile⟩
  | _, _ => True

def MayAwaitApi (c : Known) : SearchApiOp → Prop
  | .publish e => EventTrue env c e
  | _ => True

variable {env} {modelName : String}

theorem promises_failJob (jobId error : String) (code : Option String) :
    Promises (TellsJob env modelName) (MayAwaitJob env) (fun _ _ => True)
      (awaitJob (.failJob jobId error code)) c :=
  promises_call (fun _ _ => trivial) fun _ _ _ _ _ _ => trivial

/-- The candidates of a search are what it has found. -/
theorem promises_search (t : SearchRunTask) :
    Promises (TellsJob env modelName) (MayAwaitJob env) (fun _ _ => True)
      (SearchHandler.handle t) c := by
  refine promises_call_bind (fun _ _ => trivial) fun d _ a ha => ?_
  cases a with
  | none => exact fun _ _ => trivial
  | some job =>
    obtain ⟨hjob, hvector⟩ := ha job rfl
    cases hembedding : job.embedding with
    | none =>
      simp only [hembedding]
      exact promises_failJob _ _ _
    | some v =>
      cases v with
      | nil =>
        simp only [hembedding]
        exact promises_failJob _ _ _
      | cons x xs =>
        simp only [hembedding]
        refine promises_call_bind (fun _ _ => trivial) fun d₁ hd₁ _ _ => ?_
        refine Promises.attempt ?_ fun d₂ _ e =>
          (promises_failJob t.jobId e.str none).bind fun _ _ _ _ => promises_raise e
        refine promises_call_bind (fun _ _ => trivial) fun d₂ hd₂ found hfound => ?_
        refine promises_call (fun d₃ hd₃ => ?_) fun _ _ _ _ _ _ => trivial
        obtain ⟨T, hT, hnearest⟩ := hfound
        have hknown : d₃.job t.jobId = some (request job) :=
          (hd₁.trans (hd₂.trans hd₃)).1 _ _ hjob
        refine ⟨request job, hknown, rfl, rfl, T, hd₃.2.subset hT, found, ?_, rfl⟩
        rw [Found, ← hvector _ hembedding]
        exact hnearest

theorem id_of_find? {rows : List StoredChunk} {id : String} {r : StoredChunk}
    (h : rows.find? (fun r => r.id = id) = some r) : r.id = id := by
  simpa using List.find?_some h

theorem find?_of_mem {rows : List StoredChunk} (hnodup : (rows.map fun r => r.id).Nodup)
    {r : StoredChunk} (h : r ∈ rows) : rows.find? (fun x => x.id = r.id) = some r := by
  obtain ⟨x, hx⟩ := Option.isSome_iff_exists.mp
    (List.find?_isSome.mpr ⟨r, h, decide_eq_true rfl⟩ : (rows.find? fun x => x.id = r.id).isSome)
  rw [hx, List.inj_on_of_nodup_map hnodup (List.mem_of_find?_eq_some hx) h (id_of_find? hx)]

theorem get?_rowsById {rows : List StoredChunk} (hnodup : (rows.map fun r => r.id).Nodup)
    {ids : List String} {a : List ChunkRow}
    (ha : a.Perm ((rows.filter fun r => r.id ∈ ids).map (chunkRow env))) {id : String}
    (hid : id ∈ ids) :
    (rowsById a).get? id = (rows.find? fun r => r.id = id).map (chunkRow env) := by
  have hids : (a.map ChunkRow.id).Nodup := by
    have hsub : ((rows.filter fun r => r.id ∈ ids).map fun r => r.id).Nodup :=
      hnodup.sublist (List.filter_sublist.map _)
    rw [(ha.map ChunkRow.id).nodup_iff, List.map_map]
    exact hsub
  ext row
  unfold rowsById
  rw [OrderedDict.get?_indexBy _ hids, ha.mem_iff]
  constructor
  · rintro ⟨hrow, rfl⟩
    obtain ⟨r, hr, rfl⟩ := List.mem_map.mp hrow
    exact congrArg (Option.map (chunkRow env)) (find?_of_mem hnodup (List.mem_of_mem_filter hr))
  · intro h
    obtain ⟨r, hr, rfl⟩ := Option.map_eq_some_iff.mp h
    have hsame : r.id = id := id_of_find? hr
    refine ⟨List.mem_map.mpr ⟨r, List.mem_filter.mpr ⟨List.mem_of_find?_eq_some hr, ?_⟩, rfl⟩,
      hsame⟩
    exact decide_eq_true (hsame ▸ hid)

theorem nodup_rowsOf (T : ChunkTables) (table : String) :
    ((rowsOf T table).map fun r => r.id).Nodup := by
  unfold rowsOf
  cases T (relation table) with
  | none => exact List.nodup_nil
  | some t => exact t.nodup

theorem hydrated_candidates {T : ChunkTables} {table : String} {found : List ScoredChunk}
    {ids : List String} {a : List ChunkRow}
    (ha : a.Perm (((rowsOf T table).filter fun r => r.id ∈ ids).map (chunkRow env)))
    (hids : ∀ f ∈ found, f.id ∈ ids) :
    hydrated (found.map candidateOf) a =
      (stillThere env T table found).map fun p => (candidateOf p.1, p.2) := by
  unfold hydrated stillThere
  rw [List.filterMap_map, List.map_filterMap]
  apply List.filterMap_congr
  intro f hf
  have hrow := get?_rowsById (nodup_rowsOf T table) ha (hids f hf)
  simp only [Function.comp_apply, candidateOf, currentRow, hrow, Option.map_map]
  rfl

theorem id_of_currentRow {T : ChunkTables} {table id : String} {row : ChunkRow}
    (h : currentRow env T table id = some row) : row.id = id := by
  obtain ⟨r, hr, rfl⟩ := Option.map_eq_some_iff.mp h
  exact id_of_find? hr

theorem promises_complete {α : Type} {jobId : String} {r : JobRequest} (traceId : Option String)
    {results : List SearchResult} (hr : c.job jobId = some r)
    (hresults : Answers env c.past r results) (b : α) :
    Promises (TellsJob env modelName) (MayAwaitJob env) (fun _ _ => True)
      (awaitJob (.completeJob jobId results) >>= fun _ =>
        publishCompleted jobId traceId >>= fun _ => ret b) c := by
  refine promises_call_bind (fun d hd => ⟨r, hd.1 _ _ hr, hresults.mono hd.2⟩) fun d _ _ _ => ?_
  exact promises_call_bind (fun _ _ => trivial) fun _ _ _ _ _ _ => trivial

theorem answers_of_candidates {r : JobRequest} {found : List ScoredChunk} {S T : ChunkTables}
    {earlier : List ChunkTables} {results : List SearchResult} (hS : S ∈ T :: earlier)
    (hfound : Found env S r found) (hresults : results = r.results env T found) :
    Answers env (T :: earlier) r results :=
  ⟨[], T, earlier, rfl, S, hS, found, hfound, hresults⟩

theorem found_fits {S : ChunkTables} {r : JobRequest} {found : List ScoredChunk}
    (h : Found env S r found) : found = [] ∨ (found.length : ℤ) ≤ r.k := by
  obtain ⟨ordered, -, -, rfl⟩ := h
  have hlen : (ordered.take r.k.toNat).length ≤ r.k.toNat := List.length_take_le _ _
  by_cases hk : 0 ≤ r.k
  · right
    omega
  · left
    apply List.eq_nil_of_length_eq_zero
    omega

theorem sliceTo_found {S : ChunkTables} {r : JobRequest} {found : List ScoredChunk}
    (h : Found env S r found) :
    sliceTo (found.map candidateOf) r.k = found.map candidateOf := by
  obtain rfl | hlen := found_fits h
  · simp [sliceTo]
  · apply sliceTo_of_length_le
    rwa [List.length_map]

theorem mem_candidateIds {found : List ScoredChunk} {f : ScoredChunk} (h : f ∈ found) :
    f.id ∈ candidateIds (found.map candidateOf) := by
  unfold candidateIds
  rw [OrderedDict.mem_keys_ofList]
  exact ⟨f.score, List.mem_map.mpr ⟨candidateOf f, List.mem_map_of_mem h, rfl⟩⟩

theorem toResult_of_stillThere {T : ChunkTables} {table : String} {found : List ScoredChunk}
    {p : ScoredChunk × ChunkRow} (hp : p ∈ stillThere env T table found) (score : ℚ) :
    toResult (candidateOf p.1) p.2 score = resultOf p.2 score := by
  obtain ⟨f, -, hrow⟩ := List.mem_filterMap.mp hp
  obtain ⟨row, hcurrent, rfl⟩ := Option.map_eq_some_iff.mp hrow
  have hid := id_of_currentRow hcurrent
  simp only [toResult, candidateOf, resultOf, hid]

/-- The score stays with its item, whatever the item is made into. -/
theorem sortByScore_map {α β : Type} (f : α → β) (l : List (α × ℚ)) :
    sortByScore (l.map fun p => (f p.1, p.2)) = (sortByScore l).map fun p => (f p.1, p.2) := by
  unfold sortByScore
  exact (List.map_insertionSort (fun p q : α × ℚ => q.2 ≤ p.2) (fun p q : β × ℚ => q.2 ≤ p.2)
    (fun p => (f p.1, p.2)) l fun _ _ _ _ => Iff.rfl).symm

theorem finalResults_found {S T : ChunkTables} {r : JobRequest} {found : List ScoredChunk}
    {a : List ChunkRow} (hfound : Found env S r found) (hr : r.rerank = false)
    (ha : a.Perm (((rowsOf T r.chunksTable).filter fun x =>
      x.id ∈ candidateIds (found.map candidateOf)).map (chunkRow env))) :
    finalResults r.k (found.map candidateOf) a = r.results env T found := by
  unfold finalResults JobRequest.results
  rw [sliceTo_found hfound, hydrated_candidates ha fun f hf => mem_candidateIds hf, hr]
  simp only [Bool.false_eq_true, if_false, List.map_map]
  apply List.map_congr_left
  intro p hp
  exact toResult_of_stillThere hp _

theorem rankResults_found {S T : ChunkTables} {r : JobRequest} {found : List ScoredChunk}
    {a : List ChunkRow} (hfound : Found env S r found) (hr : r.rerank = true)
    (hmodel : rerankModel r.rerankProfile = some modelName)
    (ha : a.Perm (((rowsOf T r.chunksTable).filter fun x =>
      x.id ∈ candidateIds (found.map candidateOf)).map (chunkRow env))) :
    rankResults r.k (hydrated (found.map candidateOf) a)
        ((rankTexts (hydrated (found.map candidateOf) a)).map (env.scorer modelName r.query)) =
      r.results env T found := by
  rw [hydrated_candidates ha fun f hf => mem_candidateIds hf]
  obtain rfl | hlen := found_fits hfound
  · simp [JobRequest.results, stillThere, rankResults, sliceTo, sortByScore]
  have hshort : (stillThere env T r.chunksTable found).length ≤ found.length :=
    List.length_filterMap_le _ _
  have hordered : (((stillThere env T r.chunksTable found).map fun p =>
      (candidateOf p.1, p.2)).length : ℤ) ≤ r.k := by
    rw [List.length_map]
    omega
  rw [rankResults_eq _ hordered]
  let score := fun p : ScoredChunk × ChunkRow => (p, env.scorer modelName r.query p.2.text)
  have hranked := sortByScore_map (fun p : ScoredChunk × ChunkRow => (candidateOf p.1, p.2))
    ((stillThere env T r.chunksTable found).map score)
  have hspec := sortByScore_map (fun p : ScoredChunk × ChunkRow => p.2)
    ((stillThere env T r.chunksTable found).map score)
  rw [List.map_map] at hranked hspec
  unfold JobRequest.results
  simp only [hr, hmodel, if_true, Option.getD_some, List.map_map]
  refine (congrArg _ hranked).trans (Eq.trans ?_ (congrArg _ hspec).symm)
  rw [List.map_map, List.map_map]
  apply List.map_congr_left
  intro p hp
  have hmem := (perm_sortByScore _).mem_iff.mp hp
  obtain ⟨q, hq, rfl⟩ := List.mem_map.mp hmem
  exact toResult_of_stillThere hq _

theorem promises_finalize {q : String} {t : SearchFinalizeTask}
    (h : TaskTrue env c q (.searchFinalize t)) :
    Promises (TellsJob env modelName) (MayAwaitJob env) (fun _ _ => True)
      (SearchFinalizeHandler.handle t) c := by
  obtain ⟨r, hr, hrerank, S, hS, found, hfound, hcandidates⟩ := h
  refine promises_call_bind (fun _ _ => trivial) fun d hd a ha => ?_
  cases a with
  | none => exact fun _ _ => trivial
  | some job =>
    have hjob : d.job t.jobId = some (request job) := (ha job rfl).1
    obtain rfl : request job = r := Option.some_inj.mp (hjob.symm.trans (hd.1 _ _ hr))
    refine Promises.attempt ?_ fun d₁ _ e =>
      (promises_failJob t.jobId e.str none).bind fun _ _ _ _ => promises_raise e
    refine promises_call_bind (fun _ _ => trivial) fun d₁ hd₁ rows hrows => ?_
    obtain ⟨T, earlier, hpast, hperm⟩ := hrows
    have hslice : sliceTo t.candidates job.k = t.candidates := by
      rw [hcandidates]
      exact sliceTo_found hfound
    have hmem : S ∈ T :: earlier := hpast ▸ (hd.trans hd₁).2.subset hS
    rw [hslice, hcandidates] at hperm
    have hresults := finalResults_found hfound hrerank hperm
    rw [← hcandidates] at hresults
    exact promises_complete t.traceId (hd₁.1 _ _ hjob)
      (hpast ▸ answers_of_candidates hmem hfound hresults) ()

theorem promises_rank {q : String} {t : SearchRankTask} (h : TaskTrue env c q (.searchRank t))
    (polled : polledModel q = some modelName) :
    Promises (TellsJob env modelName) (MayAwaitJob env) (fun _ _ => True)
      (RerankHandler.handle t) c := by
  obtain ⟨r, hr, hrerank, ⟨S, hS, found, hfound, hcandidates⟩, hmodel⟩ := h
  refine promises_call_bind (fun _ _ => trivial) fun d hd a ha => ?_
  cases a with
  | none => exact fun _ _ => trivial
  | some job =>
    have hjob : d.job t.jobId = some (request job) := (ha job rfl).1
    obtain rfl : request job = r := Option.some_inj.mp (hjob.symm.trans (hd.1 _ _ hr))
    refine promises_call_bind (fun _ _ => trivial) fun d₁ hd₁ _ _ => ?_
    refine Promises.attempt ?_ fun d₂ _ e => ?_
    · rw [RerankHandler.rank, Coro.bind_assoc]
      refine promises_call_bind (fun _ _ => trivial) fun d₂ hd₂ rows hrows => ?_
      obtain ⟨T, earlier, hpast, hperm⟩ := hrows
      have hmem : S ∈ T :: earlier := hpast ▸ (hd.trans (hd₁.trans hd₂)).2.subset hS
      have hknown : d₂.job t.jobId = some (request job) := (hd₁.trans hd₂).1 _ _ hjob
      rw [hcandidates] at hperm
      have hresults := rankResults_found hfound hrerank (hmodel _ polled) hperm
      rw [← hcandidates] at hresults
      have hcomplete : ∀ d', d₂ ≤ d' → Promises (TellsJob env modelName) (MayAwaitJob env)
          (fun _ _ => True) (RerankHandler.finish t (rankResults job.k (hydrated t.candidates rows)
            ((rankTexts (hydrated t.candidates rows)).map (env.scorer modelName job.query))) >>=
              fun _ => ret true) d' := by
        intro d' hd'
        have hanswers : Answers env d₂.past (request job) _ :=
          hpast ▸ answers_of_candidates hmem hfound hresults
        exact promises_complete t.traceId (hd'.1 _ _ hknown) (hanswers.mono hd'.2) true
      cases hordered : hydrated t.candidates rows with
      | nil =>
        have hnil : rankResults job.k [] ((rankTexts []).map (env.scorer modelName job.query)) =
            [] := by
          simp [rankResults, sortByScore, sliceTo]
        rw [hordered, hnil] at hcomplete
        exact hcomplete d₂ le_rfl
      | cons x xs =>
        rw [hordered] at hcomplete
        simp only
        rw [Coro.bind_assoc]
        refine promises_call_bind (fun _ _ => trivial) fun d₃ hd₃ scores hscores => ?_
        obtain rfl : scores = _ := hscores
        exact hcomplete d₃ hd₃
    · cases e with
      | embeddingUnavailable msg =>
        exact (promises_failJob _ _ _).bind fun _ _ _ _ _ _ => trivial
      | _ => exact (promises_failJob _ _ _).bind fun _ _ _ _ _ _ => trivial

theorem promises_embedQuery {q : String} {t : EmbedTask} (span : Option SpanIds)
    (h : TaskTrue env c q (.embed t)) (polled : polledModel q = some modelName) :
    Promises (TellsEmbed env modelName) (MayAwaitEmbed env) (fun _ _ => True)
      (embedQuery embedConfigs span t modelName) c := by
  unfold embedQuery
  split
  next query jobId hquery hjobId =>
    obtain ⟨r, hr, rfl, hmodel⟩ := h query jobId (Option.filter_eq_some_iff.mp hquery).1
      (Option.filter_eq_some_iff.mp hjobId).1
    have hm : modelName = r.embeddingProfile := hmodel _ polled
    refine Promises.attempt ?_ fun _ _ _ _ _ => trivial
    refine promises_call_bind (fun _ _ => trivial) fun d hd vectors hvectors => ?_
    obtain rfl : vectors = [r.queryVector env] := by
      rw [JobRequest.queryVector, ← hm]
      exact hvectors
    refine promises_call_bind (fun d₁ hd₁ row hrow => ?_) fun _ _ _ _ => ?_
    · obtain rfl := EmbeddingRow.query.inj (List.mem_singleton.mp hrow)
      exact ⟨r, (hd.trans hd₁).1 _ _ hr, rfl⟩
    · exact promises_call_bind (fun _ _ => trivial) fun _ _ _ _ _ _ => trivial
  · exact fun _ _ => trivial

theorem promises_requestedProfile (req : SearchRequest) :
    Promises (TellsApi) (MayAwaitApi env) (fun _ _ => True) (requestedProfile req) c := by
  unfold requestedProfile
  split_ifs
  · simp only
    split
    · exact promises_raise _
    · refine promises_call_bind (fun _ _ => trivial) fun _ _ availability _ => ?_
      split_ifs
      · exact fun _ _ => trivial
      · exact promises_raise _
  · exact fun _ _ => trivial

/-- The first event of a job tells what the job asks for. -/
theorem promises_createSearch (span : Option SpanIds) (req : SearchRequest) :
    Promises TellsApi (MayAwaitApi env) (fun _ _ => True) (createSearch span req) c := by
  unfold createSearch
  split
  · exact promises_raise _
  · refine promises_call_bind (fun _ _ => trivial) fun _ _ tableExists _ => ?_
    split_ifs
    · refine (promises_requestedProfile req).bind fun _ _ profile _ => ?_
      refine promises_call_bind (fun _ _ => trivial) fun d _ jobId hjobId => ?_
      refine promises_call_bind (fun d₁ hd₁ => ?_) fun _ _ _ _ _ _ => trivial
      exact ⟨_, hd₁.1 _ _ hjobId, rfl, rfl⟩
    · exact promises_raise _

end Searching
end RagPipeline
