import Mathlib.Data.Int.Order.Basic
import RagPipeline.Lib.LastWriter
import RagPipeline.Repository.Posts

namespace RagPipeline
open Coro Interleave

/-- A folder; validation gives both timestamps a zone. -/
structure Folder where
  folderId : ℤ
  name : String
  parentId : Option ℤ
  createdAt : DateTime
  updatedAt : DateTime
  isDeleted : Bool
  zoned : createdAt.aware = true ∧ updatedAt.aware = true
deriving DecidableEq

structure Highlight where
  highlightId : ℤ
  postId : ℤ
  text : String
  note : Option String
  startOffset : Option ℤ
  endOffset : Option ℤ
  createdAt : DateTime
  updatedAt : DateTime
  isDeleted : Bool
  zoned : createdAt.aware = true ∧ updatedAt.aware = true
deriving DecidableEq

/-- Rows with a primary key and the freshness signal. -/
class Timestamped (Row : Type) where
  key : Row → ℤ
  updatedAt : Row → DateTime

instance : Timestamped Folder := ⟨Folder.folderId, Folder.updatedAt⟩

instance : Timestamped Highlight := ⟨Highlight.highlightId, Highlight.updatedAt⟩

inductive RowOp (Row : Type) where
  | fetchUpdatedAt (key : ℤ) (tableName : String)
  | executeUpsert (row : Row) (tableName : String)

abbrev RowOp.Ans {Row : Type} : RowOp Row → Type
  | fetchUpdatedAt .. => Option DateTime
  | executeUpsert .. => Unit

abbrev RowCoro (Row : Type) := Coro (RowOp Row) RowOp.Ans PyExc

section Upsert

variable {Row : Type}

abbrev awaitRow (op : RowOp Row) : RowCoro Row op.Ans := call op

variable [Timestamped Row]

def rowAtLeastAsFresh (existing : Option DateTime) (row : Row) : Except PyExc Bool :=
  match existing with
  | none => .ok false
  | some t => t.ge (Timestamped.updatedAt row)

/-- `upsert` of both repositories. -/
def freshUpsert (row : Row) (tableName : String) : RowCoro Row (SyncStatus × Option DateTime) := do
  let existing ← awaitRow (.fetchUpdatedAt (Timestamped.key row) (asciiLower tableName))
  if ← ofExcept (rowAtLeastAsFresh existing row) then
    return (.skipped, existing)
  else
    awaitRow (.executeUpsert row (asciiLower tableName))
    return (if existing.isNone then .inserted else .updated, existing)

abbrev RowStore (Row : Type) := String → ℤ → Option Row

/-- `INSERT ... ON CONFLICT (...) DO UPDATE ... WHERE updated_at < EXCLUDED.updated_at`. -/
def RowStore.upsertRow (db : RowStore Row) (tableName : String) (row : Row) : RowStore Row :=
  fun t i =>
    if t = relation tableName ∧ i = Timestamped.key row then
      match db t i with
      | none => some row
      | some old =>
        if (Timestamped.updatedAt old).instant < (Timestamped.updatedAt row).instant then some row
        else some old
    else db t i

def rowWorld : World (RowOp Row) RowOp.Ans PyExc (RowStore Row)
  | .fetchUpdatedAt key tableName, db =>
    (.ok ((db (relation tableName) key).map Timestamped.updatedAt), db)
  | .executeUpsert row tableName, db => (.ok (), db.upsertRow tableName row)

end Upsert

def FolderRepository.upsert (folder : Folder) (tableName : String) :
    RowCoro Folder (SyncStatus × Option DateTime) := freshUpsert folder tableName

def HighlightRepository.upsert (highlight : Highlight) (tableName : String) :
    RowCoro Highlight (SyncStatus × Option DateTime) := freshUpsert highlight tableName

def Post.stamp (post : Post) : ℤ := post.updatedAt.instant

def rowStamp {Row : Type} [Timestamped Row] (row : Row) : ℤ := (Timestamped.updatedAt row).instant

/-- The post without the columns that a conflicting insert leaves alone. -/
def Post.overwritten (post : Post) : Post := { post with addedAt := ⟨0, true⟩, embeddedAt := none }

/-- The columns that a conflicting insert leaves alone. -/
def Post.kept (post : Post) : DateTime × Option DateTime := (post.addedAt, post.embeddedAt)

/-- The statement writes the row as a register does, but for the columns that are kept. -/
theorem row_upsertRow (db : PostStore) (tableName : String) (post : Post) :
    ((db.upsertRow tableName post).row tableName post.postId).map Post.overwritten =
      LastWriter.write Post.stamp ((db.row tableName post.postId).map Post.overwritten)
        (PostStore.stored post).overwritten := by
  simp only [PostStore.row, PostStore.upsertRow, and_self, if_true]
  cases db.rows (relation tableName) post.postId with
  | none => rfl
  | some old =>
    by_cases h : old.updatedAt.instant < post.updatedAt.instant
    · exact (congrArg (Option.map _) (if_pos h)).trans
        (LastWriter.write_of_newer fun u hu => by cases hu; exact h).symm
    · exact (congrArg (Option.map _) (if_neg h)).trans
        (LastWriter.write_of_covers ⟨old.overwritten, rfl, not_lt.mp h⟩).symm

/-- What a conflicting insert leaves alone is that of the row, or of the post that is new. -/
theorem kept_upsertRow (db : PostStore) (tableName t : String) (post : Post) (i : ℤ) :
    ((db.upsertRow tableName post).row t i).map Post.kept = (db.row t i).map Post.kept ∨
      db.row t i = none ∧ i = post.postId ∧
        ((db.upsertRow tableName post).row t i).map Post.kept =
          some (PostStore.stored post).kept := by
  simp only [PostStore.row, PostStore.upsertRow]
  split_ifs with hkey
  · cases hrow : db.rows (relation t) i with
    | none => exact .inr ⟨rfl, hkey.2, rfl⟩
    | some old =>
      left
      dsimp only
      split_ifs <;> rfl
  · exact .inl rfl

theorem RowStore.upsertRow_key {Row : Type} [Timestamped Row] (db : RowStore Row)
    (tableName : String) (row : Row) :
    db.upsertRow tableName row (relation tableName) (Timestamped.key row) =
      LastWriter.write rowStamp (db (relation tableName) (Timestamped.key row)) row := by
  simp only [RowStore.upsertRow, and_self, if_true]
  cases db (relation tableName) (Timestamped.key row) with
  | none => rfl
  | some old =>
    by_cases h : (Timestamped.updatedAt old).instant < (Timestamped.updatedAt row).instant
    · exact (if_pos h).trans (LastWriter.write_of_newer fun u hu => by cases hu; exact h).symm
    · exact (if_neg h).trans (LastWriter.write_of_covers ⟨old, rfl, not_lt.mp h⟩).symm

/-- What compares as at least as fresh is so by its instant. -/
theorem DateTime.le_of_ge {a b : DateTime} (h : a.ge b = .ok true) : b.instant ≤ a.instant := by
  unfold DateTime.ge at h
  split at h
  · simpa using Except.ok.inj h
  · cases h

theorem looks_upsert (publishes : ℕ → Bool) (post : Post) (tableName : String) :
    LastWriter.Looks Post.stamp (syncWorld publishes)
      (fun db => (db.row tableName post.postId).map Post.overwritten)
      (PostStore.stored post).overwritten (PostRepository.upsert post tableName) := by
  apply LastWriter.looks_of_check
  · intro db
    refine ⟨(db.row tableName post.postId).map Post.updatedAt, by simp [syncWorld], ?_⟩
    intro hcheck
    cases hrow : db.row tableName post.postId with
    | none => simp [hrow, PostRepository.atLeastAsFresh] at hcheck
    | some old =>
      rw [hrow] at hcheck
      have hge : old.updatedAt.ge post.updatedAt = .ok true := hcheck
      have hle : post.updatedAt.instant ≤ old.updatedAt.instant := DateTime.le_of_ge hge
      exact ⟨old.overwritten, rfl, hle⟩
  · intro db
    refine ⟨(), _, rfl, ?_⟩
    rw [upsertRow_asciiLower, row_upsertRow]

theorem looks_freshUpsert {Row : Type} [Timestamped Row] (row : Row) (tableName : String) :
    LastWriter.Looks rowStamp rowWorld
      (fun db : RowStore Row => db (relation tableName) (Timestamped.key row)) row
      (freshUpsert row tableName) := by
  apply LastWriter.looks_of_check
  · intro db
    refine ⟨(db (relation tableName) (Timestamped.key row)).map Timestamped.updatedAt,
      by simp [rowWorld], ?_⟩
    intro hcheck
    cases hrow : db (relation tableName) (Timestamped.key row) with
    | none => simp [hrow, rowAtLeastAsFresh] at hcheck
    | some old =>
      rw [hrow] at hcheck
      have hge : (Timestamped.updatedAt old).ge (Timestamped.updatedAt row) = .ok true := hcheck
      exact ⟨old, rfl, DateTime.le_of_ge hge⟩
  · intro db
    refine ⟨(), _, rfl, ?_⟩
    have hlower : db.upsertRow (asciiLower tableName) row = db.upsertRow tableName row := by
      funext t i
      simp only [RowStore.upsertRow, relation_asciiLower]
    rw [hlower, RowStore.upsertRow_key]

def SyncOp.written : SyncOp → Option Post
  | executeUpsert post _ => some post
  | _ => none

theorem only_upsert_own (post : Post) (tableName : String) :
    (PostRepository.upsert post tableName).Only fun op => ∀ p ∈ op.written, p = post := by
  unfold PostRepository.upsert
  apply Only.bind
  · exact only_call fun p hp => absurd hp (Option.not_mem_none p)
  · intro existing
    apply Only.bind (only_ofExcept _)
    intro fresh
    by_cases hfresh : fresh = true
    · rw [if_pos hfresh]
      trivial
    · rw [if_neg hfresh]
      apply Only.bind
      · exact only_call fun p hp => (Option.some.inj hp).symm
      · exact fun _ => trivial

/-- However upserts of one post interleave, the columns that a conflicting insert leaves alone stay
as they were, or as the call that created the row has them. -/
theorem firstStays_upsert {ι : Type} [DecidableEq ι] (publishes : ℕ → Bool) (tableName : String)
    (key : ℤ) (calls : ι → Post) (db : PostStore) :
    LastWriter.FirstStays (syncWorld publishes) (fun db => (db.row tableName key).map Post.kept)
      (fun i => PostRepository.upsert (calls i) tableName)
      (fun i => (PostStore.stored (calls i)).kept) db := by
  apply LastWriter.firstStays fun i => only_upsert_own (calls i) tableName
  intro i op s hop
  cases op with
  | executeUpsert post t =>
    obtain rfl := hop post rfl
    obtain heq | ⟨hnone, -, hkept⟩ := kept_upsertRow s t tableName (calls i) key
    · exact .inl heq
    · refine .inr ⟨?_, hkept⟩
      rw [hnone]
      rfl
  | publish e =>
    have hrows : (s.publish publishes e).2.rows = s.rows := by
      unfold PostStore.publish
      split_ifs <;> rfl
    left
    show ((s.publish publishes e).2.rows (relation tableName) key).map Post.kept = _
    rw [hrows]
    rfl
  | ensureTable t => exact .inl rfl
  | fetch i t => exact .inl rfl
  | fetchUpdatedAt i t => exact .inl rfl

/-- However the statements of any upserts of one post, one folder or one highlight interleave, the
freshest write wins. Of a post it does in all columns but `added_at` and `embedded_at`: these stay
as they were, or as the call that created the row has them. -/
theorem freshest_write_wins {ι : Type} [DecidableEq ι] (tableName : String) (key : ℤ) :
    (∀ (publishes : ℕ → Bool) (calls : ι → Post) (db : PostStore),
      (∀ i, (calls i).postId = key) →
        LastWriter.FreshestWins Post.stamp (syncWorld publishes)
          (fun db => (db.row tableName key).map Post.overwritten)
          (fun i => PostRepository.upsert (calls i) tableName)
          (fun i => (PostStore.stored (calls i)).overwritten) db ∧
        LastWriter.FirstStays (syncWorld publishes)
          (fun db => (db.row tableName key).map Post.kept)
          (fun i => PostRepository.upsert (calls i) tableName)
          (fun i => (PostStore.stored (calls i)).kept) db) ∧
    (∀ (calls : ι → Folder) (db : RowStore Folder), (∀ i, (calls i).folderId = key) →
      LastWriter.FreshestWins rowStamp rowWorld (fun db => db (relation tableName) key)
        (fun i => FolderRepository.upsert (calls i) tableName) calls db) ∧
    ∀ (calls : ι → Highlight) (db : RowStore Highlight), (∀ i, (calls i).highlightId = key) →
      LastWriter.FreshestWins rowStamp rowWorld (fun db => db (relation tableName) key)
        (fun i => HighlightRepository.upsert (calls i) tableName) calls db := by
  refine ⟨fun publishes calls db hkey => ⟨?_, firstStays_upsert publishes tableName key calls db⟩,
    fun calls db hkey => ?_, fun calls db hkey => ?_⟩
  · apply LastWriter.freshestWins
    intro i
    rw [← hkey i]
    exact looks_upsert publishes (calls i) tableName
  · apply LastWriter.freshestWins
    intro i
    rw [← hkey i]
    exact looks_freshUpsert (calls i) tableName
  · apply LastWriter.freshestWins
    intro i
    rw [← hkey i]
    exact looks_freshUpsert (calls i) tableName

/-- Two versions of a post, which the client says it added at different times. -/
def racingVersions (newer : Bool) : Post where
  postId := 50
  externalId := "t3_50"
  title := if newer then "revised" else "text"
  bodyText := none
  customTitle := none
  customBody := none
  summary := none
  analysisText := none
  addedAt := ⟨if newer then 2 else 1, true⟩
  updatedAt := ⟨if newer then 2 else 1, true⟩

/-- The two calls, whose awaits come in that order. -/
def race (schedule : List Bool) : Pool Bool SyncOp SyncOp.Ans PyExc
    (SyncStatus × Option DateTime) PostStore :=
  Interleave.run (syncWorld fun _ => true)
    (start (fun b => PostRepository.upsert (racingVersions b) "posts_main") PostStore.empty)
    schedule

/-- Both versions find no row. -/
theorem race_returned (b : Bool) : AllReturned (race [false, true, b, !b]) := by
  have hresult : ∀ b i, result ((race [false, true, b, !b]).progs i) = some (.inserted, none) := by
    decide +kernel
  exact fun i => ⟨_, eq_ret_of_result (hresult b i)⟩

theorem freshest_write_wins_raced :
    (∃ i, ((race [false, true, true, false]).world.row "posts_main" 50).map Post.overwritten =
        some (PostStore.stored (racingVersions i)).overwritten ∧
      ∀ j, ((PostStore.stored (racingVersions j)).overwritten).stamp ≤
        ((PostStore.stored (racingVersions i)).overwritten).stamp) ∧
    ∃ i, some (PostStore.stored (racingVersions true)).kept =
      some (PostStore.stored (racingVersions i)).kept := by
  obtain ⟨hwins, hfirst⟩ := (freshest_write_wins "posts_main" 50).1 (fun _ => true) racingVersions
    PostStore.empty fun _ => rfl
  refine ⟨hwins.newest _ (race_returned true) ⟨true, fun u hu => nomatch hu⟩, ?_⟩
  have hrow : ((race [false, true, true, false]).world.row "posts_main" 50).map Post.kept =
      some (PostStore.stored (racingVersions true)).kept := by
    decide +kernel
  obtain hold | ⟨-, i, hi⟩ := hfirst.first _ _ hrow
  · cases hold
  · exact ⟨i, congrArg some hi⟩

/-- The older version is written first, and its `added_at` stays: the row is neither version. -/
theorem added_at_of_older_version : ¬ LastWriter.FreshestWins Post.stamp (syncWorld fun _ => true)
    (fun db => db.row "posts_main" 50)
    (fun b => PostRepository.upsert (racingVersions b) "posts_main")
    (fun b => PostStore.stored (racingVersions b)) PostStore.empty := by
  intro h
  obtain ⟨i, hi, -⟩ := h.newest [false, true, false, true] (race_returned false)
    ⟨true, fun u hu => nomatch hu⟩
  have hrow : ∀ i, (race [false, true, false, true]).world.row "posts_main" 50 ≠
      some (PostStore.stored (racingVersions i)) := by
    decide +kernel
  exact hrow i hi

end RagPipeline
