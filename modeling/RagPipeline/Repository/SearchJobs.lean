import RagPipeline.Tasks

namespace RagPipeline

inductive JobStatus where
  | embedding | searching | reranking | complete | failed
deriving DecidableEq

structure SearchResult where
  chunkId : String
  postId : ℤ
  text : String
  metadata : Option String
  score : ℚ
deriving DecidableEq

/-- A row of `search_jobs`. -/
structure SearchJob where
  id : String
  status : JobStatus
  libraryId : String
  query : String
  k : ℤ
  embeddingProfile : String
  chunksTable : String
  rerank : Bool
  rerankProfile : Option String
  embedding : Option Vec
  results : Option (List SearchResult)
  error : Option String
  errorCode : Option String
deriving DecidableEq

namespace SearchJob

/-- The row `create_job` inserts. -/
def create (id query : String) (k : ℤ) (embeddingProfile chunksTable libraryId : String)
    (rerank : Bool) (rerankProfile : Option String) : SearchJob :=
  { id, status := .embedding, libraryId, query, k, embeddingProfile, chunksTable, rerank,
    rerankProfile, embedding := none, results := none, error := none, errorCode := none }

def storeEmbedding (embedding : Vec) (j : SearchJob) : SearchJob :=
  { j with embedding := some embedding }

def markSearching (j : SearchJob) : SearchJob := { j with status := .searching }

def markReranking (j : SearchJob) : SearchJob := { j with status := .reranking }

def complete (results : List SearchResult) (j : SearchJob) : SearchJob :=
  { j with status := .complete, results := some results }

def fail (error : String) (code : Option String) (j : SearchJob) : SearchJob :=
  { j with status := .failed, error := some error, errorCode := code }

end SearchJob

abbrev JobTable := String → Option SearchJob

/-- `UPDATE search_jobs SET ... WHERE id = ...`. -/
def JobTable.update (t : JobTable) (id : String) (f : SearchJob → SearchJob) : JobTable :=
  fun i => if i = id then (t i).map f else t i

/-- `INSERT INTO search_jobs`. -/
def JobTable.insert (t : JobTable) (j : SearchJob) : JobTable :=
  fun i => if i = j.id then some j else t i

theorem JobTable.update_same (t : JobTable) (id : String) (f : SearchJob → SearchJob) :
    t.update id f id = (t id).map f := if_pos rfl

theorem JobTable.update_other (t : JobTable) {id i : String} (h : i ≠ id)
    (f : SearchJob → SearchJob) : t.update id f i = t i := if_neg h

end RagPipeline
