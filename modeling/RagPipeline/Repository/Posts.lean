import RagPipeline.Events
import RagPipeline.TableNames

namespace RagPipeline
open Coro

/-- The columns of a post that ingestion reads; the others are only carried along. -/
structure Post where
  postId : ℤ
  externalId : String
  title : String
  bodyText : Option String
  customTitle : Option String
  customBody : Option String
  summary : Option String
  analysisText : Option String
  addedAt : DateTime
  updatedAt : DateTime
  embeddedAt : Option DateTime := none
deriving DecidableEq

/-- The awaits of `sync_posts` and of the repository below it. -/
inductive SyncOp where
  | ensureTable (tableName : String)
  | fetch (postId : ℤ) (tableName : String)
  | fetchUpdatedAt (postId : ℤ) (tableName : String)
  | executeUpsert (post : Post) (tableName : String)
  | publish (e : Event)

abbrev SyncOp.Ans : SyncOp → Type
  | ensureTable _ => Unit
  | fetch _ _ => Option Post
  | fetchUpdatedAt _ _ => Option DateTime
  | executeUpsert _ _ => Unit
  | publish _ => Unit

abbrev SyncCoro := Coro SyncOp SyncOp.Ans PyExc

abbrev awaitSync (op : SyncOp) : SyncCoro op.Ans := call op

inductive SyncStatus where
  | inserted | updated | skipped | error
deriving DecidableEq

namespace PostRepository

def ensureTable (tableName : String) : SyncCoro Unit :=
  awaitSync (.ensureTable (asciiLower tableName))

def fetch (postId : ℤ) (tableName : String) : SyncCoro (Option Post) :=
  awaitSync (.fetch postId (asciiLower tableName))

/-- Whether the row in the table is at least as fresh as the post. -/
def atLeastAsFresh (existing : Option DateTime) (post : Post) : Except PyExc Bool :=
  match existing with
  | none => .ok false
  | some t => t.ge post.updatedAt

def upsert (post : Post) (tableName : String) : SyncCoro (SyncStatus × Option DateTime) := do
  let existing ← awaitSync (.fetchUpdatedAt post.postId (asciiLower tableName))
  if ← ofExcept (atLeastAsFresh existing post) then
    return (.skipped, existing)
  else
    awaitSync (.executeUpsert post (asciiLower tableName))
    return (if existing.isNone then .inserted else .updated, existing)

end PostRepository

/-- The rows by relation and id, the event log, and how often publishing was tried. -/
structure PostStore where
  rows : String → ℤ → Option Post
  events : List Event
  attempts : ℕ

namespace PostStore

def empty : PostStore := ⟨fun _ _ => none, [], 0⟩

def row (db : PostStore) (tableName : String) (postId : ℤ) : Option Post :=
  db.rows (relation tableName) postId

/-- What an insert stores: columns of type TIMESTAMPTZ come back with a zone, the table has no
column for the analysis, and the insert names none for when the post was embedded. -/
def stored (post : Post) : Post :=
  { post with
    addedAt := { post.addedAt with aware := true }
    updatedAt := { post.updatedAt with aware := true }
    analysisText := none
    embeddedAt := none }

/-- What the statement leaves where there was that row: `DO UPDATE SET` does not name `added_at` and
`embedded_at`. -/
def storedOver (existing : Option Post) (post : Post) : Post :=
  { stored post with
    addedAt := (existing.map Post.addedAt).getD (stored post).addedAt
    embeddedAt := existing.bind Post.embeddedAt }

/-- `INSERT ... ON CONFLICT (post_id) DO UPDATE ... WHERE updated_at < EXCLUDED.updated_at`. -/
def upsertRow (db : PostStore) (tableName : String) (post : Post) : PostStore :=
  { db with
    rows := fun t i =>
      if t = relation tableName ∧ i = post.postId then
        match db.rows t i with
        | none => some (stored post)
        | some old =>
          if old.updatedAt.instant < post.updatedAt.instant then some (storedOver (some old) post)
          else some old
      else db.rows t i }

/-- `INSERT INTO event_log`, unless this attempt fails. -/
def publish (db : PostStore) (publishes : ℕ → Bool) (e : Event) : Except PyExc Unit × PostStore :=
  if publishes db.attempts then
    (.ok (), { db with events := db.events ++ [e], attempts := db.attempts + 1 })
  else (.error (.other "event bus down"), { db with attempts := db.attempts + 1 })

end PostStore

/-- A database that works, with a log that takes the attempts it is told to take. -/
def syncWorld (publishes : ℕ → Bool) : World SyncOp SyncOp.Ans PyExc PostStore
  | .ensureTable _, db => (.ok (), db)
  | .fetch postId tableName, db => (.ok (db.row tableName postId), db)
  | .fetchUpdatedAt postId tableName, db =>
    (.ok ((db.row tableName postId).map Post.updatedAt), db)
  | .executeUpsert post tableName, db => (.ok (), db.upsertRow tableName post)
  | .publish e, db => db.publish publishes e

variable {db : PostStore}

@[simp] theorem row_asciiLower (t : String) (i : ℤ) : db.row (asciiLower t) i = db.row t i := by
  simp [PostStore.row]

@[simp] theorem upsertRow_asciiLower (t : String) (post : Post) :
    db.upsertRow (asciiLower t) post = db.upsertRow t post := by
  simp [PostStore.upsertRow]

end RagPipeline
