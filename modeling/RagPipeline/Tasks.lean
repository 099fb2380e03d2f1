import RagPipeline.Basics

namespace RagPipeline

/-- The fields every task carries besides its `kind`. -/
structure BaseTask where
  taskId : String
  traceId : Option String
  parentSpanId : Option String
  sourceEventId : Option String
deriving DecidableEq

inductive ChunkTaskType where
  | body | summaryTitle | title | analysis
deriving DecidableEq

/-- The literal of the `task_type` field, which is also the key of the configuration tables. -/
def ChunkTaskType.key : ChunkTaskType → String
  | body => "body"
  | summaryTitle => "summary_title"
  | title => "title"
  | analysis => "analysis"

structure ChunkTask extends BaseTask where
  taskType : ChunkTaskType
  postId : ℤ
  postTable : String
  embedModel : String
  analysisText : Option String
deriving DecidableEq

inductive EmbedTaskType where
  | chunk | query
deriving DecidableEq

structure EmbedTask extends BaseTask where
  taskType : EmbedTaskType
  modelName : String
  postId : Option ℤ
  postTable : Option String
  chunkIds : List String
  chunkTable : Option String
  query : Option String
  queryJobId : Option String
deriving DecidableEq

structure InferTask extends BaseTask where
  categorise : Bool
  postId : ℤ
  postTable : String
  model : String
  promptTemplate : String
deriving DecidableEq

/-- One ANN candidate: its chunk and its cosine score. -/
structure CandidateChunkRef (Score : Type := ℚ) where
  chunkId : String
  score : Score
deriving DecidableEq

structure SearchRunTask extends BaseTask where
  jobId : String
deriving DecidableEq

structure SearchRankTask (Score : Type := ℚ) extends BaseTask where
  jobId : String
  candidates : List (CandidateChunkRef Score)
  rerankProfile : Option String
deriving DecidableEq

structure SearchFinalizeTask (Score : Type := ℚ) extends BaseTask where
  jobId : String
  candidates : List (CandidateChunkRef Score)
deriving DecidableEq

/-- The discriminated union that `parse_task` selects from by `kind`. -/
inductive AnyTask (Score : Type := ℚ) where
  | chunk (t : ChunkTask)
  | embed (t : EmbedTask)
  | infer (t : InferTask)
  | searchRun (t : SearchRunTask)
  | searchRank (t : SearchRankTask Score)
  | searchFinalize (t : SearchFinalizeTask Score)
deriving DecidableEq

end RagPipeline
