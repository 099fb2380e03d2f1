import RagPipeline.Search.JobWorld
import RagPipeline.TableNames

namespace RagPipeline
open Coro

structure SearchRequest where
  query : String
  chunkType : String
  k : ℤ
  libraryId : String
  rerank : Bool
  rerankProfile : Option String
  query_nonempty : query ≠ ""
  chunkType_valid : chunkType ∈ embedConfigs.keys
  k_bounds : 0 < k ∧ k ≤ 999
  libraryId_valid : validateLibraryId libraryId = .ok libraryId

structure Availability where
  ok : Bool
  reason : String
deriving DecidableEq

inductive SearchApiOp where
  | tableExists (tableName : String)
  | checkReranker (cfg : RerankConfig)
  | createJob (query : String) (k : ℤ) (embeddingProfile chunksTable libraryId : String)
      (rerank : Bool) (rerankProfile : Option String)
  | publish (e : Event)

abbrev SearchApiOp.Ans : SearchApiOp → Type
  | tableExists _ => Bool
  | checkReranker _ => Availability
  | createJob .. => String
  | publish _ => Unit

/-- What `create_search` raises: the details of its HTTP errors, or what its dependencies raise. -/
inductive SearchApiExc where
  | noChunkTable (libraryId chunkType : String)
  | unknownRerankProfile (profile : String)
  | rerankUnavailable (message : String)
  | exc (e : PyExc)
deriving DecidableEq

def SearchApiExc.statusCode : SearchApiExc → ℕ
  | noChunkTable .. => 404
  | unknownRerankProfile _ => 422
  | rerankUnavailable _ => 503
  | exc _ => 500

abbrev SearchApiCoro := Coro SearchApiOp SearchApiOp.Ans SearchApiExc

abbrev awaitApi (op : SearchApiOp) : SearchApiCoro op.Ans := call op

/-- Reranking is checked before the job exists, so a refusal leaves nothing behind. -/
def requestedProfile (req : SearchRequest) : SearchApiCoro (Option String) :=
  if req.rerank then do
    let profile := (truthy req.rerankProfile).getD "default"
    match rerankConfigs.get? profile with
    | none => raise (.unknownRerankProfile profile)
    | some cfg => do
      let availability ← awaitApi (.checkReranker cfg)
      if availability.ok then ret (some profile)
      else raise (.rerankUnavailable availability.reason)
  else ret none

/-- The id of the new job. -/
def createSearch (span : Option SpanIds) (req : SearchRequest) : SearchApiCoro String :=
  match embedConfigs.get? req.chunkType with
  | none => raise (.exc (.other req.chunkType))
  | some cfg => do
    let chunksTable := buildChunkTableName ("posts_" ++ req.libraryId) req.chunkType cfg.primary
    let tableExists ← awaitApi (.tableExists chunksTable)
    if tableExists then do
      let rerankProfile ← requestedProfile req
      let jobId ← awaitApi (.createJob req.query req.k cfg.primary chunksTable req.libraryId
        req.rerank rerankProfile)
      let trace := currentTraceIds span
      awaitApi (.publish (.searchJobCreated
        ⟨jobId, req.query, cfg.primary, req.rerank, rerankProfile, trace.1, trace.2⟩))
      ret jobId
    else raise (.noChunkTable req.libraryId req.chunkType)

/-- The tables and rerankers there are; a job gets the id `uuid`. -/
def searchApiWorld (tables : String → Bool) (rerankers : RerankConfig → Availability)
    (uuid : String) : World SearchApiOp SearchApiOp.Ans SearchApiExc JobStore
  | .tableExists t, s => (.ok (tables t), s)
  | .checkReranker cfg, s => (.ok (rerankers cfg), s)
  | .createJob query k profile table libraryId rerank rerankProfile, s =>
    let job := SearchJob.create uuid query k profile table libraryId rerank rerankProfile
    (.ok uuid, { s with jobs := s.jobs.insert job })
  | .publish e, s => (.ok (), { s with events := s.events ++ [e] })

def SearchJob.RerankerKnown (j : SearchJob) : Prop :=
  j.rerank = true → ∃ p, p ≠ "" ∧ j.rerankProfile = some p ∧ (rerankConfigs.get? p).isSome = true

/-- What an accepted request leaves: the job's row and its first event. -/
structure Created (jobId : String) (store : JobStore) where
  job : SearchJob
  event : SearchJobCreatedEvent
  row : store.jobs jobId = some job
  status : job.status = .embedding
  reranker : job.RerankerKnown
  events : store.events = [.searchJobCreated event]
  about : event.queryJobId = jobId
  query : event.query ≠ ""
  profile : ∃ cfg ∈ embedConfigs.values, cfg.primary = event.embeddingProfile

def emptyStore : JobStore := ⟨fun _ => none, []⟩

variable (tables : String → Bool) (rerankers : RerankConfig → Availability) (uuid : String)

theorem run_requestedProfile (req : SearchRequest) (s : JobStore) :
    ∃ r, run (searchApiWorld tables rerankers uuid) (requestedProfile req) s = (r, s) ∧
      ∀ profile, r = .ok profile → req.rerank = true →
        ∃ p, p ≠ "" ∧ profile = some p ∧ (rerankConfigs.get? p).isSome = true := by
  unfold requestedProfile
  split_ifs with hr
  · have hp : (truthy req.rerankProfile).getD "default" ≠ "" := by
      cases h : truthy req.rerankProfile with
      | none => decide
      | some p => simpa using (Option.filter_eq_some_iff.mp h).2
    generalize (truthy req.rerankProfile).getD "default" = p at hp
    simp only
    cases hc : rerankConfigs.get? p with
    | none => exact ⟨.error (.unknownRerankProfile p), rfl, by simp⟩
    | some cfg =>
      by_cases ha : (rerankers cfg).ok = true
      · refine ⟨.ok (some p), by simp [run_bind, searchApiWorld, ha], ?_⟩
        rintro profile ⟨⟩ -
        exact ⟨p, hp, rfl, by rw [hc]; rfl⟩
      · exact ⟨.error (.rerankUnavailable (rerankers cfg).reason),
          by simp [run_bind, searchApiWorld, ha], by simp⟩
  · exact ⟨.ok none, rfl, fun _ _ h => absurd h hr⟩

theorem created_of_createSearch {span : Option SpanIds} {req : SearchRequest} {jobId : String}
    {store : JobStore}
    (h : run (searchApiWorld tables rerankers uuid) (createSearch span req) emptyStore =
      (.ok jobId, store)) : jobId = uuid ∧ Nonempty (Created jobId store) := by
  unfold createSearch at h
  split at h
  · cases h
  next cfg hcfg =>
    simp only [run_bind, run_call, searchApiWorld] at h
    split at h
    · obtain ⟨r, hrun, hprofile⟩ := run_requestedProfile tables rerankers uuid req emptyStore
      rcases r with e | profile
      · simp [run_bind, hrun] at h
      · simp only [run_bind, hrun, run_call, searchApiWorld, run_ret] at h
        obtain ⟨hid, rfl⟩ := Prod.mk.inj h
        obtain rfl := Except.ok.inj hid
        exact ⟨rfl, ⟨{
          job := _
          event := _
          row := if_pos rfl
          status := rfl
          reranker := hprofile profile rfl
          events := rfl
          about := rfl
          query := req.query_nonempty
          profile := ⟨cfg, List.mem_map_of_mem (OrderedDict.get?_eq_some.mp hcfg), rfl⟩ }⟩⟩
    · cases h

end RagPipeline
