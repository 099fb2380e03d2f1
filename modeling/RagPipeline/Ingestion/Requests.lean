import RagPipeline.Api.SyncRaces
import RagPipeline.Ingestion.System
import RagPipeline.Lib.Crash

namespace RagPipeline
open Coro

/-! What a request does to the database with one of its posts, one await after another. -/

/-- The version lies over the row of its post. -/
def ChunkDb.write (s : ChunkDb) (x : SyncStep) : ChunkDb :=
  { s with
    posts := fun u i =>
      if u = relation x.tableName ∧ i = x.post.postId then
        some (PostStore.storedOver (s.existing x) x.post)
      else s.posts u i }

/-- Nothing is written but the post, and no event is published but its own. -/
def SyncStep.Owns (x : SyncStep) : SyncOp → Prop
  | .executeUpsert post tableName => post = x.post ∧ tableName = asciiLower x.tableName
  | .publish e => ∃ existing, e = .postSynced (x.event existing)
  | _ => True

variable {x : SyncStep} {s : ChunkDb} {j : SyncJob}

theorem only_upsert_owns : (PostRepository.upsert x.post x.tableName).Only x.Owns := by
  apply Only.bind (only_call trivial)
  intro existing
  apply Only.bind (only_ofExcept _)
  intro fresh
  cases fresh with
  | true => trivial
  | false => exact Only.bind (only_call ⟨rfl, rfl⟩) fun _ => trivial

theorem only_start (x : SyncStep) : (SyncJob.start x).program.Only x.Owns := by
  apply Only.attempt
  · apply Only.bind (only_call trivial)
    intro existing
    apply Only.bind only_upsert_owns
    intro r
    dsimp only
    split_ifs
    · exact Only.bind (only_call ⟨existing, rfl⟩) fun _ => trivial
    · trivial
  · intro e
    trivial

theorem SyncJob.only_next (h : j.program.Only j.step.Owns) (s : ChunkDb) :
    (j.next s).program.Only (j.next s).step.Owns := h.next _

theorem of_unsent (h : j.program.Only j.step.Owns) {e : Event} (he : unsent j.program = some e) :
    ∃ existing, e = .postSynced (j.step.event existing) := by
  obtain ⟨x, p⟩ := j
  cases p with
  | await op k =>
    cases op with
    | publish e' =>
      obtain rfl := Option.some.inj he
      exact h.1
    | _ => cases he
  | _ => cases he

theorem withPosts_upsertRow (hfresh : Fresh s.postStore x.tableName x.post) :
    s.withPosts (s.postStore.upsertRow x.tableName x.post) = s.write x := by
  have hrows : (s.postStore.upsertRow x.tableName x.post).rows = (s.write x).posts := by
    funext u i
    simp only [PostStore.upsertRow, ChunkDb.postStore, ChunkDb.write]
    split_ifs with hk
    · obtain ⟨rfl, rfl⟩ := hk
      have hexisting : s.existing x = s.posts (relation x.tableName) x.post.postId := rfl
      rw [hexisting]
      cases hrow : s.posts (relation x.tableName) x.post.postId with
      | none => rfl
      | some old => exact if_pos (hfresh old hrow)
    · rfl
  rw [ChunkDb.withPosts, hrows]
  rfl

theorem withPosts_upsertRow_of_not_fresh (hfresh : ¬Fresh s.postStore x.tableName x.post) :
    s.withPosts (s.postStore.upsertRow x.tableName x.post) = s := by
  have hrows : (s.postStore.upsertRow x.tableName x.post).rows = s.posts := by
    unfold Fresh at hfresh
    push Not at hfresh
    obtain ⟨old, hold, hle⟩ := hfresh
    funext u i
    simp only [PostStore.upsertRow, ChunkDb.postStore]
    split_ifs with hk
    · obtain ⟨rfl, rfl⟩ := hk
      have hrow : s.posts (relation x.tableName) x.post.postId = some old := hold
      rw [hrow]
      exact if_neg (Int.not_lt.mpr hle)
    · rfl
  rw [ChunkDb.withPosts, hrows]
  rfl

/-- An await publishes the event that the request was about to publish, or it writes the version. -/
theorem SyncJob.after_cases (h : j.program.Only j.step.Owns) (s : ChunkDb) :
    j.after s = { s with events := s.events ++ (unsent j.program).toList } ∨
      unsent j.program = none ∧ j.after s = s.write j.step := by
  have hkept : s = { s with events := s.events ++ (none : Option Event).toList } := by
    rw [Option.toList_none, List.append_nil]
  obtain ⟨x, p⟩ := j
  cases p with
  | await op k =>
    cases op with
    | executeUpsert post tableName =>
      obtain ⟨hpost, htable⟩ : post = x.post ∧ tableName = asciiLower x.tableName := h.1
      subst hpost htable
      have hafter : SyncJob.after ⟨x, await (.executeUpsert x.post (asciiLower x.tableName)) k⟩ s =
          s.withPosts (s.postStore.upsertRow x.tableName x.post) := by
        rw [← upsertRow_asciiLower]
        rfl
      rw [hafter]
      by_cases hfresh : Fresh s.postStore x.tableName x.post
      · exact .inr ⟨rfl, withPosts_upsertRow hfresh⟩
      · exact .inl ((withPosts_upsertRow_of_not_fresh hfresh).trans hkept)
    | publish e => exact .inl rfl
    | _ => exact .inl hkept
  | _ => exact .inl hkept

/-- Whatever the request does with the post, the events of before are still there. -/
theorem SyncJob.events_after (h : j.program.Only j.step.Owns) (s : ChunkDb) :
    (j.after s).events = s.events ++ (unsent j.program).toList := by
  obtain heq | ⟨hnone, heq⟩ := j.after_cases h s
  · rw [heq]
  · rw [heq, hnone, Option.toList_none, List.append_nil]
    rfl

@[simp] theorem SyncJob.tables_after (j : SyncJob) (s : ChunkDb) :
    (j.after s).tables = s.tables := rfl

/-- Unless it overlooks a row, a request that writes a post is about to publish what has changed. -/
theorem SyncJob.announces_of_write (hreads : ¬j.Overlooks s)
    (hposts : (j.after s).posts ≠ s.posts) :
    unsent (j.next s).program = some (.postSynced (j.step.event (s.existing j.step))) := by
  by_contra hne
  exact hreads ⟨hposts, hne⟩

namespace SyncStep

variable (x) (s)

/-- No row was found. -/
def looking : SyncJob :=
  ⟨x, attempt (PostRepository.upsert x.post x.tableName >>= x.report none) x.onError⟩

/-- The freshness check has passed. -/
def writing : SyncJob :=
  ⟨x, attempt (awaitSync x.writeOp >>= fun _ => x.report none (writtenStatus none, none)) x.onError⟩

def publishing : SyncJob :=
  ⟨x, attempt (awaitSync (x.publishOp none) >>= fun _ =>
    ret ⟨x.post.postId, writtenStatus none, true, none⟩) x.onError⟩

/-- The event is published. -/
def reported : SyncJob := ⟨x, ret ⟨x.post.postId, writtenStatus none, true, none⟩⟩

variable (hnone : s.existing x = none)
include hnone

theorem turn_start : (SyncJob.start x).turn s = (x.looking.program, s.postStore) := by
  unfold SyncJob.turn
  show Coro.next _ (x.program, _) = _
  rw [program_eq, next_attempt_call_bind]
  simp only [syncWorld, row_asciiLower]
  have hrow : s.postStore.row x.tableName x.post.postId = none := hnone
  rw [hrow]
  rfl

theorem turn_looking : x.looking.turn s = (x.writing.program, s.postStore) := by
  have hrow : s.postStore.row x.tableName x.post.postId = none := hnone
  unfold SyncJob.turn looking
  rw [looking_eq, next_attempt_call_bind]
  simp only [syncWorld, row_asciiLower]
  have hcheck : PostRepository.atLeastAsFresh none x.post = .ok false := rfl
  rw [hrow, Option.map_none, hcheck, ofExcept_ok, ret_bind, if_neg Bool.false_ne_true,
    Coro.bind_assoc]
  rfl

omit hnone

theorem turn_writing : x.writing.turn s =
    (x.publishing.program, s.postStore.upsertRow x.tableName x.post) := by
  unfold SyncJob.turn writing
  rw [next_attempt_call_bind]
  simp only [syncWorld, upsertRow_asciiLower]
  rw [report_written]
  rfl

theorem turn_publishing : x.publishing.turn s = (x.reported.program,
    { s.postStore with events := s.events ++ [.postSynced (x.event none)], attempts := 1 }) := by
  unfold SyncJob.turn publishing
  rw [next_attempt_call_bind]
  rfl

end SyncStep

theorem SyncJob.of_turn {p : SyncCoro PostSyncResult} {db : PostStore} (h : j.turn s = (p, db)) :
    j.next s = ⟨j.step, p⟩ ∧ j.after s = s.withPosts db := by
  unfold SyncJob.next SyncJob.after
  rw [h]
  exact ⟨rfl, rfl⟩

/-- The write compares the version with no row, and there is none. -/
theorem SyncStep.not_overlooks_writing (hnone : s.existing x = none) : ¬x.writing.Overlooks s := by
  rintro ⟨-, hne⟩
  obtain ⟨hnext, -⟩ := SyncJob.of_turn (x.turn_writing s)
  have hevent : unsent (x.writing.next s).program = some (.postSynced (x.event none)) := by
    rw [hnext]
    rfl
  rw [show x.writing.step = x from rfl, hnone] at hne
  exact hne hevent

namespace Ingestion

def announced (s : Ingestion) (x : SyncStep) : Ingestion :=
  { s with
    store := { s.store.write x with events := s.store.events ++ [.postSynced (x.event none)] }
    syncs := [] }

theorem exists_announced (env : IngestionEnv) (s : Ingestion) (x : SyncStep) (hsyncs : s.syncs = [])
    (hnone : s.store.existing x = none) : ∃ run, Runs.Each (Step env) s run ∧ synced run = [x] ∧
      Runs.last s run = s.announced x := by
  have hwritten : s.store.withPosts (s.store.postStore.upsertRow x.tableName x.post) =
      s.store.write x := by
    apply withPosts_upsertRow
    intro old hold
    have hrow : some old = none := hold.symm.trans hnone
    cases hrow
  let at_ (store : ChunkDb) (j : SyncJob) : Ingestion := { s with store, syncs := [j] }
  have hturn : ∀ {store : ChunkDb} {j : SyncJob} {p : SyncCoro PostSyncResult} {db : PostStore},
      ¬j.Overlooks store → j.turn store = (p, db) →
        Step env (at_ store j) .request (at_ (store.withPosts db) ⟨j.step, p⟩) := by
    intro store j p db hreads hnext
    obtain ⟨hnext, hafter⟩ := SyncJob.of_turn hnext
    rw [← hnext, ← hafter]
    exact .turn (at_ store j) j [] [] rfl hreads
  have hreads : ∀ {store : ChunkDb} {j : SyncJob} {p : SyncCoro PostSyncResult} {db : PostStore},
      j.turn store = (p, db) → db.rows = store.posts → ¬j.Overlooks store := by
    rintro store j p db hnext hrows ⟨hposts, -⟩
    obtain ⟨-, hafter⟩ := SyncJob.of_turn hnext
    exact hposts (by rw [hafter]; exact hrows)
  have hsync : Step env s (.sync x) (at_ s.store (.start x)) := by
    have hstep : Step env s (.sync x) _ := .sync s x
    rw [hsyncs] at hstep
    exact hstep
  have hfetch := hturn (hreads (x.turn_start s.store hnone) rfl) (x.turn_start s.store hnone)
  have hlook := hturn (hreads (x.turn_looking s.store hnone) rfl) (x.turn_looking s.store hnone)
  have hwrite := hturn (x.not_overlooks_writing hnone) (x.turn_writing s.store)
  rw [hwritten] at hwrite
  have hpublish := hturn (hreads (x.turn_publishing (s.store.write x)) rfl)
    (x.turn_publishing (s.store.write x))
  have hleave : Step env (at_ (s.announced x).store x.reported) .request (s.announced x) := by
    have hstep : Step env (at_ (s.announced x).store x.reported) .request _ :=
      .leave _ x.reported [] [] rfl
    have hlost : s.lost ++ (unsent x.reported.program).toList.map Notice.event = s.lost :=
      List.append_nil s.lost
    simp only [at_, hlost] at hstep
    exact hstep
  exact ⟨[(.sync x, _), (.request, _), (.request, _), (.request, _), (.request, _), (.request, _)],
    ⟨hsync, hfetch, hlook, hwrite, hpublish, hleave, trivial⟩, rfl, rfl⟩

end Ingestion
end RagPipeline
