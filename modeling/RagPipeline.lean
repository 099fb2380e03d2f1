import RagPipeline.Lib.OrderedDict
import RagPipeline.Lib.Coroutine
import RagPipeline.Lib.Crash
import RagPipeline.Lib.Runs
import RagPipeline.Lib.Promises
import RagPipeline.Lib.Broker
import RagPipeline.Lib.Clusters
import RagPipeline.Lib.FindSub
import RagPipeline.Lib.Interleave
import RagPipeline.Lib.LastWriter
import RagPipeline.Lib.Json
import RagPipeline.Lib.StableSort
import RagPipeline.Lib.Words
import RagPipeline.Lib.Regex
import RagPipeline.Lib.Separator
import RagPipeline.Basics
import RagPipeline.Config.Models
import RagPipeline.Config.Topology
import RagPipeline.TableNames
import RagPipeline.Utils.ChunkStrategies
import RagPipeline.Utils.HardLimit
import RagPipeline.Utils.OverlapPrefix
import RagPipeline.Utils.ChunkProgress
import RagPipeline.Utils.ChunkPartition
import RagPipeline.Utils.ChunkOverlap
import RagPipeline.Utils.BlankText
import RagPipeline.Tasks
import RagPipeline.Events
import RagPipeline.Dispatchers
import RagPipeline.Dispatchers.RawEvents
import RagPipeline.Dispatchers.Validation
import RagPipeline.Dispatchers.Isolation
import RagPipeline.Repository.Posts
import RagPipeline.Repository.Freshness
import RagPipeline.Repository.Chunks
import RagPipeline.Repository.Embeddings
import RagPipeline.Repository.SearchJobs
import RagPipeline.Infrastructure.EventBus
import RagPipeline.Infrastructure.ConsumerGroups
import RagPipeline.Infrastructure.TaskQueue
import RagPipeline.Infrastructure.TaskDelivery
import RagPipeline.Api.Sync
import RagPipeline.Api.SyncEvents
import RagPipeline.Api.SyncRaces
import RagPipeline.Api.ChunkRouting
import RagPipeline.Api.Search
import RagPipeline.Api.Similar
import RagPipeline.Api.LibraryNames
import RagPipeline.Handlers.Chunk
import RagPipeline.Handlers.ChunkText
import RagPipeline.Handlers.ChunkDelivery
import RagPipeline.Handlers.Rechunk
import RagPipeline.Handlers.ChunkRaces
import RagPipeline.Handlers.BlankChunks
import RagPipeline.Handlers.Embed
import RagPipeline.Handlers.EmbedChunks
import RagPipeline.Handlers.EmbedBatches
import RagPipeline.Handlers.Search
import RagPipeline.Handlers.Rerank
import RagPipeline.Remote.Embeddings
import RagPipeline.Remote.Client
import RagPipeline.Remote.Fallback
import RagPipeline.Remote.Registry
import RagPipeline.Remote.Manager
import RagPipeline.Remote.Residency
import RagPipeline.Remote.Service
import RagPipeline.Remote.Precision
import RagPipeline.Remote.Agreement
import RagPipeline.Search.JobWorld
import RagPipeline.Search.Lifecycle
import RagPipeline.Search.Pipeline
import RagPipeline.Search.Tracing
import RagPipeline.Search.Reranking
import RagPipeline.Search.System
import RagPipeline.Search.Known
import RagPipeline.Search.Answered
import RagPipeline.EndToEnd
import RagPipeline.Services.Requeue
import RagPipeline.Services.ChunkBackfill
import RagPipeline.Worker.Gpu
import RagPipeline.Worker.GpuSettlement
import RagPipeline.Worker.GpuContract
import RagPipeline.Worker.GpuPriority
import RagPipeline.Worker.Routing
import RagPipeline.Worker.CpuProcess
import RagPipeline.Worker.LocalRunGuard
import RagPipeline.Worker.EmbedModels
import RagPipeline.Services.FolderScoring
import RagPipeline.Services.MmrSelection
import RagPipeline.Services.KnnDensity
import RagPipeline.Services.FolderProfile
import RagPipeline.Services.Kmeans
import RagPipeline.Services.FolderSuggestion
import RagPipeline.Repository.FolderSuggestions
import RagPipeline.Services.SuggestionItems
import RagPipeline.Services.SuggestionGuarantees
import RagPipeline.Services.CandidatePool
import RagPipeline.Lib.LogReader
import RagPipeline.Ingestion.System
import RagPipeline.Ingestion.Rows
import RagPipeline.Ingestion.Jobs
import RagPipeline.Ingestion.Batches
import RagPipeline.Ingestion.Sound
import RagPipeline.Ingestion.Messages
import RagPipeline.Ingestion.Accounting
import RagPipeline.Ingestion.Rest
import RagPipeline.Ingestion.Guarantees
import RagPipeline.Ingestion.Recovery
import RagPipeline.Tasks.Parsing
import RagPipeline.Dispatchers.Wire
import RagPipeline.Lib.Requests
import RagPipeline.Repository.Feedback
import RagPipeline.Api.FolderSuggestions
import RagPipeline.Api.SyncRows
