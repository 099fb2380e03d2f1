import RagPipeline.Lib.Runs
import RagPipeline.Repository.Posts

namespace RagPipeline
open Coro

structure SyncRequest where
  posts : List Post
  libraryId : String
  valid : validateLibraryId libraryId = .ok libraryId

structure PostSyncResult where
  postId : ℤ
  status : SyncStatus
  success : Bool
  error : Option String
deriving DecidableEq

/-- The text fields that differ; a missing text and an empty one are the same. -/
def evaluateChangedFields (post : Post) (existing : Option Post) : List String :=
  match existing with
  | none => []
  | some old =>
    [("body_text", post.bodyText, old.bodyText),
      ("custom_body", post.customBody, old.customBody),
      ("summary", post.summary, old.summary),
      ("title", some post.title, some old.title),
      ("custom_title", post.customTitle, old.customTitle)].filterMap fun f =>
        if f.2.2.getD "" ≠ f.2.1.getD "" then some f.1 else none

/-- The body of the loop: an exception becomes the post's own error result. -/
def syncPost (trace : Option String × Option String) (postTable eventId : String) (post : Post) :
    SyncCoro PostSyncResult :=
  attempt (do
    let existing ← PostRepository.fetch post.postId postTable
    let (syncStatus, _) ← PostRepository.upsert post postTable
    if syncStatus ≠ .skipped then
      awaitSync (.publish (.postSynced {
        eventId, postId := post.postId, postTable
        fieldsChanged := evaluateChangedFields post existing
        hasSummary := (truthy post.summary).isSome
        updatedAt := post.updatedAt, traceId := trace.1, parentSpanId := trace.2 }))
    return ⟨post.postId, syncStatus, true, none⟩)
  fun exc => ret ⟨post.postId, .error, false, some exc.str⟩

def syncEach (trace : Option String × Option String) (postTable : String) (uuid : ℕ → String) :
    List (Post × ℕ) → SyncCoro (List PostSyncResult)
  | [] => ret []
  | (post, i) :: rest => do
    let result ← syncPost trace postTable (uuid i) post
    let results ← syncEach trace postTable uuid rest
    return result :: results

def postTable (libraryId : String) : String := "posts_" ++ libraryId

def syncPosts (span : Option SpanIds) (uuid : ℕ → String) (req : SyncRequest) :
    SyncCoro (List PostSyncResult) := do
  PostRepository.ensureTable (postTable req.libraryId)
  syncEach (currentTraceIds span) (postTable req.libraryId) uuid req.posts.zipIdx

end RagPipeline
