import Mathlib.Data.Int.Order.Basic
import RagPipeline.Api.Sync

namespace RagPipeline
open Coro

variable {db db' : PostStore} {publishes : ℕ → Bool} {t : String}

/-- The post is new to the table, or newer than its row there. -/
def Fresh (db : PostStore) (tableName : String) (post : Post) : Prop :=
  ∀ old, db.row tableName post.postId = some old →
    old.updatedAt.instant < post.updatedAt.instant

/-- After a fresh post was written, its row is the post, with the columns that are kept, and every
other row is as before. -/
theorem row_written {post : Post} (h : Fresh db t post) (u : String) (i : ℤ) :
    (db.upsertRow t post).row u i =
      if relation u = relation t ∧ i = post.postId then
        some (PostStore.storedOver (db.row t post.postId) post)
      else db.row u i := by
  simp only [PostStore.row, PostStore.upsertRow]
  split_ifs with hk
  · obtain ⟨hu, rfl⟩ := hk
    unfold Fresh PostStore.row at h
    rw [hu]
    cases hrow : db.rows (relation t) post.postId with
    | none => rfl
    | some old => exact if_pos (h old hrow)
  · rfl

@[simp] theorem attempts_upsertRow (t : String) (post : Post) :
    (db.upsertRow t post).attempts = db.attempts := by
  rw [PostStore.upsertRow]

@[simp] theorem events_upsertRow (t : String) (post : Post) :
    (db.upsertRow t post).events = db.events := by
  rw [PostStore.upsertRow]

/-- A post of a request, with what the route adds to it. -/
structure SyncStep where
  trace : Option String × Option String
  libraryId : String
  valid : validateLibraryId libraryId = .ok libraryId
  eventId : String
  post : Post

def SyncStep.tableName (x : SyncStep) : String := postTable x.libraryId

def SyncStep.event (x : SyncStep) (existing : Option Post) : PostSyncedEvent :=
  { eventId := x.eventId, postId := x.post.postId, postTable := x.tableName
    fieldsChanged := evaluateChangedFields x.post existing
    hasSummary := (truthy x.post.summary).isSome
    updatedAt := x.post.updatedAt, traceId := x.trace.1, parentSpanId := x.trace.2 }

def writtenStatus (existing : Option DateTime) : SyncStatus :=
  if existing.isNone then .inserted else .updated

theorem writtenStatus_ne_skipped (existing : Option DateTime) :
    writtenStatus existing ≠ .skipped := by
  unfold writtenStatus
  split <;> decide

/-- What `sync_posts` does with a post. -/
inductive Synced (publishes : ℕ → Bool) (db : PostStore) (x : SyncStep) :
    PostSyncResult → PostStore → Prop
  /-- The timestamps do not compare. -/
  | refused (error : String) {old : Post}
      (hrow : db.row x.tableName x.post.postId = some old)
      (h : old.updatedAt.aware ≠ x.post.updatedAt.aware) :
      Synced publishes db x ⟨x.post.postId, .error, false, some error⟩ db
  | skipped {old : Post} (hrow : db.row x.tableName x.post.postId = some old)
      (h : x.post.updatedAt.instant ≤ old.updatedAt.instant) :
      Synced publishes db x ⟨x.post.postId, .skipped, true, none⟩ db
  | published (h : Fresh db x.tableName x.post)
      (hp : publishes db.attempts = true) :
      Synced publishes db x ⟨x.post.postId,
        writtenStatus ((db.row x.tableName x.post.postId).map Post.updatedAt), true, none⟩
        { db.upsertRow x.tableName x.post with
          events := db.events ++ [.postSynced (x.event (db.row x.tableName x.post.postId))]
          attempts := db.attempts + 1 }
  | lost (error : String) (h : Fresh db x.tableName x.post)
      (hp : publishes db.attempts = false) :
      Synced publishes db x ⟨x.post.postId, .error, false, some error⟩
        { db.upsertRow x.tableName x.post with attempts := db.attempts + 1 }

/-- The freshness check of `upsert` skips, raises or finds the post fresh. -/
theorem atLeastAsFresh_cases (db : PostStore) (t : String) (post : Post) :
    (∃ old, db.row t post.postId = some old ∧ old.updatedAt.aware ≠ post.updatedAt.aware ∧
      ∃ e, PostRepository.atLeastAsFresh ((db.row t post.postId).map Post.updatedAt) post =
        .error e) ∨
    (∃ old, db.row t post.postId = some old ∧
      post.updatedAt.instant ≤ old.updatedAt.instant ∧
      PostRepository.atLeastAsFresh ((db.row t post.postId).map Post.updatedAt) post = .ok true) ∨
    (Fresh db t post ∧
      PostRepository.atLeastAsFresh ((db.row t post.postId).map Post.updatedAt) post =
        .ok false) := by
  unfold Fresh
  cases hrow : db.row t post.postId with
  | none => simp [PostRepository.atLeastAsFresh]
  | some old =>
    by_cases ha : old.updatedAt.aware = post.updatedAt.aware
    · by_cases hle : post.updatedAt.instant ≤ old.updatedAt.instant
      · exact .inr (.inl ⟨old, rfl, hle, by
          simp [PostRepository.atLeastAsFresh, DateTime.ge, ha, hle]⟩)
      · refine .inr (.inr ⟨?_, by simp [PostRepository.atLeastAsFresh, DateTime.ge, ha, hle]⟩)
        rintro _ ⟨⟩
        omega
    · exact .inl ⟨old, rfl, ha, _, by
        simp only [PostRepository.atLeastAsFresh, DateTime.ge, Option.map_some, if_neg ha]
        rfl⟩

theorem run_upsert (post : Post) (t : String) :
    run (syncWorld publishes) (PostRepository.upsert post t) db =
      let existing := (db.row t post.postId).map Post.updatedAt
      match PostRepository.atLeastAsFresh existing post with
      | .error e => (.error e, db)
      | .ok true => (.ok (.skipped, existing), db)
      | .ok false => (.ok (writtenStatus existing, existing), db.upsertRow t post) := by
  simp only [PostRepository.upsert, run_bind, run_call, run_ofExcept, syncWorld, row_asciiLower]
  rcases PostRepository.atLeastAsFresh ((db.row t post.postId).map Post.updatedAt) post with
    e | _ | _
  · rfl
  · simp [run_bind, syncWorld, writtenStatus]
  · rfl

theorem run_syncPost (publishes : ℕ → Bool) (db : PostStore) (x : SyncStep) : ∃ r db',
    run (syncWorld publishes) (syncPost x.trace x.tableName x.eventId x.post) db = (.ok r, db') ∧
      Synced publishes db x r db' := by
  rcases atLeastAsFresh_cases db x.tableName x.post with
    ⟨old, hrow, ha, e, he⟩ | ⟨old, hrow, hle, he⟩ | ⟨hf, he⟩
  · refine ⟨_, _, ?_, .refused e.str hrow ha⟩
    simp [syncPost, run_attempt, run_bind, PostRepository.fetch, run_upsert, syncWorld, he]
  · refine ⟨_, _, ?_, .skipped hrow hle⟩
    simp [syncPost, run_attempt, run_bind, PostRepository.fetch, run_upsert, syncWorld, he]
  · cases hp : publishes db.attempts with
    | true =>
      refine ⟨_, _, ?_, .published hf hp⟩
      simp [syncPost, run_attempt, run_bind, PostRepository.fetch, run_upsert, syncWorld, he,
        PostStore.publish, hp, writtenStatus_ne_skipped, SyncStep.event]
    | false =>
      refine ⟨_, _, ?_, .lost "event bus down" hf hp⟩
      simp [syncPost, run_attempt, run_bind, PostRepository.fetch, run_upsert, syncWorld, he,
        PostStore.publish, hp, writtenStatus_ne_skipped, PyExc.str]

/-- An event of the post, at least as new as that version, is in the log. -/
def Announced (db : PostStore) (tableName : String) (postId version : ℤ) : Prop :=
  ∃ e, .postSynced e ∈ db.events ∧ relation e.postTable = relation tableName ∧
    e.postId = postId ∧ version ≤ e.updatedAt.instant

structure Backed (db : PostStore) : Prop where
  announced : ∀ t i row, db.row t i = some row → Announced db t i row.updatedAt.instant
  bounded : ∀ e, .postSynced e ∈ db.events →
    ∃ row, db.row e.postTable e.postId = some row ∧ e.updatedAt.instant ≤ row.updatedAt.instant

theorem backed_empty : Backed .empty where
  announced := by simp [PostStore.empty, PostStore.row]
  bounded := by simp [PostStore.empty]

theorem Announced.mono {t : String} {i version : ℤ} (h : Announced db t i version)
    (he : db.events ⊆ db'.events) : Announced db' t i version := by
  obtain ⟨e, hm, h⟩ := h
  exact ⟨e, he hm, h⟩

section Step

variable {x : SyncStep} {r : PostSyncResult} (h : Synced publishes db x r db')
include h

theorem Synced.events_subset : db.events ⊆ db'.events := by
  cases h with
  | published _ _ => exact List.subset_append_left ..
  | lost _ _ _ =>
    show db.events ⊆ (db.upsertRow x.tableName x.post).events
    rw [events_upsertRow]
    exact List.Subset.refl _
  | _ => exact List.Subset.refl _

theorem Synced.attempts_le : db.attempts ≤ db'.attempts ∧ db'.attempts ≤ db.attempts + 1 := by
  cases h <;> simp

theorem Synced.announced (hb : Backed db) (hr : r.success = true) :
    Announced db' x.tableName x.post.postId x.post.updatedAt.instant := by
  cases h with
  | refused _ _ _ => cases hr
  | lost _ _ _ => cases hr
  | skipped hrow hle =>
    obtain ⟨e, hm, ht, hi, hv⟩ := hb.announced _ _ _ hrow
    exact ⟨e, hm, ht, hi, hle.trans hv⟩
  | published _ _ =>
    exact ⟨_, List.mem_append_right _ (List.mem_singleton_self _), rfl, rfl, le_refl _⟩

theorem Synced.bounded (hb : Backed db) :
    ∀ e, .postSynced e ∈ db'.events →
      ∃ row, db'.row e.postTable e.postId = some row ∧
        e.updatedAt.instant ≤ row.updatedAt.instant := by
  have hwritten : Fresh db x.tableName x.post → ∀ e, .postSynced e ∈ db.events →
      ∃ row, (db.upsertRow x.tableName x.post).row e.postTable e.postId = some row ∧
        e.updatedAt.instant ≤ row.updatedAt.instant := by
    intro hf e he
    obtain ⟨row, hrow, hle⟩ := hb.bounded e he
    rw [row_written hf]
    -- the row of the event is the one that was written, or another
    split_ifs with hk
    · refine ⟨_, rfl, hle.trans (hf row ?_).le⟩
      rw [← hk.2, ← hrow]
      simp only [PostStore.row, hk.1]
    · exact ⟨row, hrow, hle⟩
  cases h with
  | refused _ _ _ => exact hb.bounded
  | skipped _ _ => exact hb.bounded
  | lost _ hf _ =>
    intro e he
    rw [show _ = db.events from events_upsertRow ..] at he
    exact hwritten hf e he
  | published hf _ =>
    intro e he
    rcases List.mem_append.mp he with he | he
    · exact hwritten hf e he
    · obtain rfl := Event.postSynced.inj (List.mem_singleton.mp he)
      exact ⟨_, (row_written hf _ _).trans (if_pos ⟨rfl, rfl⟩), le_refl _⟩

theorem Synced.backed (hb : Backed db)
    (hp : db'.attempts = db.attempts ∨ publishes db.attempts = true) : Backed db' := by
  refine ⟨?_, h.bounded hb⟩
  cases h with
  | refused _ _ _ => exact hb.announced
  | skipped _ _ => exact hb.announced
  | lost _ _ hlost => simp [hlost] at hp
  | published hf _ =>
    intro t i row hrow
    change (db.upsertRow x.tableName x.post).row t i = some row at hrow
    rw [row_written hf] at hrow
    split_ifs at hrow with hk
    · obtain rfl := Option.some.inj hrow
      exact ⟨_, List.mem_append_right _ (List.mem_singleton_self _), hk.1.symm, hk.2.symm,
        le_refl _⟩
    · exact (hb.announced t i row hrow).mono (List.subset_append_left ..)

end Step

structure SyncCall where
  span : Option SpanIds
  uuid : ℕ → String
  req : SyncRequest

namespace SyncCall

def run (publishes : ℕ → Bool) (c : SyncCall) (db : PostStore) :
    Except PyExc (List PostSyncResult) × PostStore :=
  Coro.run (syncWorld publishes) (syncPosts c.span c.uuid c.req) db

def after (publishes : ℕ → Bool) (db : PostStore) (c : SyncCall) : PostStore :=
  (c.run publishes db).2

/-- The call with the first `j` posts of its request. -/
def upTo (c : SyncCall) (j : ℕ) : SyncCall :=
  { c with req := { c.req with posts := c.req.posts.take j } }

def step (c : SyncCall) (p : Post × ℕ) : SyncStep :=
  ⟨currentTraceIds c.span, c.req.libraryId, c.req.valid, c.uuid p.2, p.1⟩

def steps (c : SyncCall) : List SyncStep := c.req.posts.zipIdx.map c.step

end SyncCall

def stepResult (publishes : ℕ → Bool) (db : PostStore) (x : SyncStep) :
    Except PyExc PostSyncResult × PostStore :=
  run (syncWorld publishes) (syncPost x.trace x.tableName x.eventId x.post) db

def afterStep (publishes : ℕ → Bool) (db : PostStore) (x : SyncStep) : PostStore :=
  (stepResult publishes db x).2

inductive Results (publishes : ℕ → Bool) :
    PostStore → List SyncStep → List PostSyncResult → Prop
  | nil (db : PostStore) : Results publishes db [] []
  | cons {db : PostStore} {x : SyncStep} {xs : List SyncStep} {r : PostSyncResult}
      {rs : List PostSyncResult} (h : Synced publishes db x r (afterStep publishes db x))
      (hs : Results publishes (afterStep publishes db x) xs rs) :
      Results publishes db (x :: xs) (r :: rs)

theorem synced_stepResult (publishes : ℕ → Bool) (db : PostStore) (x : SyncStep) :
    ∃ r, stepResult publishes db x = (.ok r, afterStep publishes db x) ∧
      Synced publishes db x r (afterStep publishes db x) := by
  obtain ⟨r, db', hr, h⟩ := run_syncPost publishes db x
  refine ⟨r, ?_, ?_⟩
  · rw [afterStep, stepResult, hr]
  · rwa [afterStep, stepResult, hr]

theorem run_syncEach (publishes : ℕ → Bool) (c : SyncCall) (ps : List (Post × ℕ))
    (db : PostStore) : ∃ rs,
      run (syncWorld publishes) (syncEach (currentTraceIds c.span) (postTable c.req.libraryId)
        c.uuid ps) db = (.ok rs, (ps.map c.step).foldl (afterStep publishes) db) ∧
      Results publishes db (ps.map c.step) rs := by
  induction ps generalizing db with
  | nil => exact ⟨[], rfl, .nil db⟩
  | cons p ps ih =>
    obtain ⟨r, hr, h⟩ := synced_stepResult publishes db (c.step p)
    obtain ⟨rs, hrs, hs⟩ := ih (afterStep publishes db (c.step p))
    refine ⟨r :: rs, ?_, .cons h hs⟩
    have hp : run (syncWorld publishes) (syncPost (currentTraceIds c.span)
        (postTable c.req.libraryId) (c.uuid p.2) p.1) db =
          (.ok r, afterStep publishes db (c.step p)) := hr
    simp only [syncEach, run_bind, hp, hrs]
    rfl

theorem SyncCall.run_eq (publishes : ℕ → Bool) (c : SyncCall) (db : PostStore) : ∃ rs,
    c.run publishes db = (.ok rs, c.steps.foldl (afterStep publishes) db) ∧
      Results publishes db c.steps rs := by
  obtain ⟨rs, hrs, hs⟩ := run_syncEach publishes c c.req.posts.zipIdx db
  refine ⟨rs, ?_, hs⟩
  rw [SyncCall.run, syncPosts, run_bind, PostRepository.ensureTable, run_call]
  exact hrs

theorem SyncCall.after_eq (publishes : ℕ → Bool) (c : SyncCall) (db : PostStore) :
    c.after publishes db = c.steps.foldl (afterStep publishes) db := by
  obtain ⟨rs, hrs, -⟩ := c.run_eq publishes db
  rw [SyncCall.after, hrs]

theorem SyncCall.steps_upTo (c : SyncCall) (j : ℕ) : (c.upTo j).steps = c.steps.take j := by
  show (c.req.posts.take j).zipIdx.map c.step = (c.req.posts.zipIdx.map c.step).take j
  rw [← List.map_take]
  congr 1
  apply List.ext_getElem?
  intro i
  rw [List.getElem?_zipIdx, List.getElem?_take, List.getElem?_take]
  split_ifs <;> simp

/-- Whatever version of a post is sent next, by itself: when it is reported as synced, an event at
least as new is in the log. -/
def Truthful (publishes : ℕ → Bool) (db : PostStore) : Prop :=
  ∀ (c : SyncCall) v r, c.req.posts = [v] → (c.run publishes db).1 = .ok [r] →
    r.success = true →
      Announced (c.after publishes db) (postTable c.req.libraryId) v.postId v.updatedAt.instant

/-- The states of a run of requests: before each post, and at the end. -/
def statesBetween (publishes : ℕ → Bool) (db : PostStore) : List SyncCall → List PostStore
  | [] => [db]
  | c :: cs =>
    (List.range c.req.posts.length).map (fun j => (c.upTo j).after publishes db) ++
      statesBetween publishes (c.after publishes db) cs

theorem Backed.truthful (hb : Backed db) : Truthful publishes db := by
  intro c v r hv hr hsuccess
  obtain ⟨rs, hrun, hs⟩ := c.run_eq publishes db
  rw [hrun] at hr
  obtain rfl := Except.ok.inj hr
  have hsteps : c.steps = [c.step (v, 0)] := by rw [SyncCall.steps, hv]; rfl
  rw [SyncCall.after_eq, hsteps]
  rw [hsteps] at hs
  cases hs with
  | cons h _ => exact h.announced hb hsuccess

theorem SyncCall.run_of_stored (publishes : ℕ → Bool) (db : PostStore) (c : SyncCall) {v : Post}
    (hv : c.req.posts = [v]) (hrow : db.row (postTable c.req.libraryId) v.postId = some v) :
    ∃ r, (c.run publishes db).1 = .ok [r] ∧ r.success = true ∧ c.after publishes db = db := by
  obtain ⟨rs, hrun, hs⟩ := c.run_eq publishes db
  have hsteps : c.steps = [c.step (v, 0)] := by rw [SyncCall.steps, hv]; rfl
  rw [SyncCall.after_eq, hrun, hsteps]
  rw [hsteps] at hs
  cases hs with
  | cons h hnil =>
    cases hnil
    rw [List.foldl_cons, List.foldl_nil]
    have hnf : ¬ Fresh db (c.step (v, 0)).tableName v := fun hf => lt_irrefl _ (hf v hrow)
    generalize afterStep publishes db (c.step (v, 0)) = d at h
    cases h with
    | refused _ hold hne =>
      obtain rfl := Option.some.inj (hrow.symm.trans hold)
      exact absurd rfl hne
    | skipped _ _ => exact ⟨_, rfl, rfl, rfl⟩
    | published hf _ => exact absurd hf hnf
    | lost _ hf _ => exact absurd hf hnf

/-- A version that was stored and not published is taken for synced when it is sent again. -/
theorem Synced.not_truthful_of_lost {x : SyncStep} {r : PostSyncResult}
    (h : Synced publishes db x r db') (hb : Backed db)
    (hp : ¬ (db'.attempts = db.attempts ∨ publishes db.attempts = true)) :
    ¬ Truthful publishes db' := by
  cases h with
  | refused _ _ _ => simp at hp
  | skipped _ _ => simp at hp
  | published _ hpub => simp [hpub] at hp
  | lost _ hf _ =>
    intro htruth
    -- the client sends the stored version again, with a zone as the database has it
    let v := PostStore.storedOver (db.row x.tableName x.post.postId) x.post
    let c : SyncCall := ⟨none, fun _ => "", ⟨[v], x.libraryId, x.valid⟩⟩
    have hrow : (db.upsertRow x.tableName x.post).row x.tableName x.post.postId = some v := by
      rw [row_written hf, if_pos ⟨rfl, rfl⟩]
    obtain ⟨r, hr, hsuccess, hafter⟩ := c.run_of_stored publishes
      { db.upsertRow x.tableName x.post with attempts := db.attempts + 1 } rfl hrow
    obtain ⟨e, he, ht, hi, hle⟩ := htruth c v r rfl hr hsuccess
    rw [hafter] at he
    change _ ∈ (db.upsertRow x.tableName x.post).events at he
    rw [events_upsertRow] at he
    obtain ⟨row, her, hrle⟩ := hb.bounded e he
    have hold : db.row x.tableName x.post.postId = some row := by
      rw [← her, hi]
      exact congrArg (db.rows · _) ht.symm
    have hlt := hf row hold
    have hle' : x.post.updatedAt.instant ≤ e.updatedAt.instant := hle
    omega

theorem attempts_le_foldl (publishes : ℕ → Bool) (xs : List SyncStep) (db : PostStore) :
    db.attempts ≤ (xs.foldl (afterStep publishes) db).attempts := by
  induction xs generalizing db with
  | nil => exact le_refl _
  | cons x xs ih =>
    obtain ⟨r, -, h⟩ := synced_stepResult publishes db x
    exact h.attempts_le.1.trans (ih _)

theorem each_published_iff (xs : List SyncStep) (db : PostStore) :
    Runs.Each (fun s _ t => t.attempts = s.attempts ∨ publishes s.attempts = true) db
        (Runs.trace (afterStep publishes) db xs) ↔
      ∀ n, db.attempts ≤ n → n < (xs.foldl (afterStep publishes) db).attempts →
        publishes n = true := by
  -- each post makes at most one attempt, and the attempts are numbered through the run
  induction xs generalizing db with
  | nil =>
    refine iff_of_true trivial fun n hle hlt => ?_
    exact absurd hle (not_le_of_gt hlt)
  | cons x xs ih =>
    obtain ⟨r, -, h⟩ := synced_stepResult publishes db x
    obtain ⟨hle, hle'⟩ := h.attempts_le
    have hend := attempts_le_foldl publishes xs (afterStep publishes db x)
    show (_ ∨ _) ∧ Runs.Each _ _ (Runs.trace _ (afterStep publishes db x) xs) ↔ _
    rw [ih, List.foldl_cons]
    constructor
    · rintro ⟨hx, hxs⟩ n hn hlt
      by_cases hn' : (afterStep publishes db x).attempts ≤ n
      · exact hxs n hn' hlt
      · obtain rfl : n = db.attempts := by omega
        exact hx.resolve_left (by omega)
    · intro hall
      refine ⟨?_, fun n hn hlt => hall n (hle.trans hn) hlt⟩
      by_cases he : (afterStep publishes db x).attempts = db.attempts
      · exact .inl he
      · exact .inr (hall _ (le_refl _) (by omega))

theorem forall_statesBetween {T : PostStore → Prop} (calls : List SyncCall) (db : PostStore) :
    (∀ s ∈ statesBetween publishes db calls, T s) ↔
      T db ∧ Runs.Each (fun _ _ s => T s) db
        (Runs.trace (afterStep publishes) db (calls.flatMap SyncCall.steps)) := by
  induction calls generalizing db with
  | nil => simp [statesBetween, Runs.trace, Runs.Each]
  | cons c cs ih =>
    have hlen : c.req.posts.length = c.steps.length := by simp [SyncCall.steps]
    have hcut : ∀ j, (c.upTo j).after publishes db =
        (c.steps.take j).foldl (afterStep publishes) db := by
      intro j
      rw [SyncCall.after_eq, SyncCall.steps_upTo]
    rw [List.flatMap_cons, Runs.trace_append, Runs.Each.append, Runs.last_trace, ← and_assoc,
      Runs.each_trace_iff, and_assoc, ← SyncCall.after_eq, ← ih]
    simp only [statesBetween, List.mem_append, List.mem_map, List.mem_range, hlen, hcut]
    constructor
    · intro h
      exact ⟨fun j hj => h _ (.inl ⟨j, hj, rfl⟩), fun s hs => h s (.inr hs)⟩
    · rintro ⟨hcuts, hrest⟩ s (⟨j, hj, rfl⟩ | hs)
      · exact hcuts j hj
      · exact hrest s hs

theorem events_subset_foldl (publishes : ℕ → Bool) (xs : List SyncStep) (db : PostStore) :
    db.events ⊆ (xs.foldl (afterStep publishes) db).events := by
  induction xs generalizing db with
  | nil => exact List.Subset.refl _
  | cons x xs ih =>
    obtain ⟨r, -, h⟩ := synced_stepResult publishes db x
    exact List.Subset.trans h.events_subset (ih _)

theorem Results.announced {xs : List SyncStep} {rs : List PostSyncResult}
    (hs : Results publishes db xs rs) (hb : Backed db)
    (hp : Runs.Each (fun s _ t => t.attempts = s.attempts ∨ publishes s.attempts = true) db
      (Runs.trace (afterStep publishes) db xs)) {i : ℕ} {x : SyncStep} {r : PostSyncResult}
    (hx : xs[i]? = some x) (hr : rs[i]? = some r) (hsuccess : r.success = true) :
    Announced (xs.foldl (afterStep publishes) db) x.tableName x.post.postId
      x.post.updatedAt.instant := by
  induction hs generalizing i with
  | nil => simp at hx
  | cons h hs ih =>
    obtain ⟨hp, hps⟩ := hp
    cases i with
    | zero =>
      obtain rfl := Option.some.inj hx
      obtain rfl := Option.some.inj hr
      exact (h.announced hb hsuccess).mono (events_subset_foldl ..)
    | succ i => exact ih (h.backed hb hp) hps hx hr

/-- The state a run of requests leaves. -/
def afterCalls (publishes : ℕ → Bool) (calls : List SyncCall) : PostStore :=
  calls.foldl (SyncCall.after publishes) .empty

theorem afterCalls_eq (publishes : ℕ → Bool) (calls : List SyncCall) :
    afterCalls publishes calls =
      (calls.flatMap SyncCall.steps).foldl (afterStep publishes) .empty := by
  have h : SyncCall.after publishes = fun db c => c.steps.foldl (afterStep publishes) db := by
    funext db c
    exact c.after_eq publishes db
  rw [afterCalls, h, List.foldl_flatMap]

/-- Every success of every request of the run stands for an event in the log. -/
def SuccessesAnnounced (publishes : ℕ → Bool) (calls : List SyncCall) : Prop :=
  ∀ before c rest, calls = before ++ c :: rest →
    ∀ results, (c.run publishes (afterCalls publishes before)).1 = .ok results →
      ∀ (i : ℕ) v r, c.req.posts[i]? = some v → results[i]? = some r → r.success = true →
        Announced (afterCalls publishes (before ++ [c])) (postTable c.req.libraryId) v.postId
          v.updatedAt.instant

def PublishedIn (publishes : ℕ → Bool) (db : PostStore) (_ : SyncStep) (db' : PostStore) : Prop :=
  db'.attempts = db.attempts ∨ publishes db.attempts = true

theorem successesAnnounced_of_published {calls : List SyncCall}
    (hp : ∀ n < (afterCalls publishes calls).attempts, publishes n = true) :
    SuccessesAnnounced publishes calls := by
  intro before c rest hcalls results hres i v r hv hr hsuccess
  have hall : Runs.Each (PublishedIn publishes) .empty
      (Runs.trace (afterStep publishes) .empty (calls.flatMap SyncCall.steps)) :=
    (each_published_iff _ _).mpr fun n _ hn => hp n (by rwa [afterCalls_eq])
  rw [hcalls, List.flatMap_append, List.flatMap_cons, Runs.trace_append, Runs.Each.append,
    Runs.trace_append, Runs.Each.append, Runs.last_trace, ← afterCalls_eq] at hall
  -- the requests before keep the invariant that the request itself needs
  obtain ⟨hbefore, hc, -⟩ := hall
  have hb : Backed (afterCalls publishes before) := by
    rw [afterCalls_eq]
    refine hbefore.invariant_foldl (fun s x hs ht => ?_) backed_empty
    obtain ⟨_, -, h⟩ := synced_stepResult publishes s x
    exact h.backed hs ht
  obtain ⟨rs, hrun, hs⟩ := c.run_eq publishes (afterCalls publishes before)
  rw [hrun] at hres
  obtain rfl := Except.ok.inj hres
  have hx : c.steps[i]? = some (c.step (v, i)) := by simp [SyncCall.steps, hv]
  have hend : afterCalls publishes (before ++ [c]) =
      c.steps.foldl (afterStep publishes) (afterCalls publishes before) := by
    rw [afterCalls, List.foldl_append]
    exact c.after_eq publishes _
  rw [hend]
  exact hs.announced hb hc hx hr hsuccess

/-- In every state of a run of requests a success stands for a published event, whatever is sent
next, exactly when no attempt to publish failed. Then every success of the run itself does. -/
theorem synced_announced_iff (publishes : ℕ → Bool) (calls : List SyncCall) :
    ((∀ db ∈ statesBetween publishes .empty calls, Truthful publishes db) ↔
      ∀ n < (afterCalls publishes calls).attempts, publishes n = true) ∧
    ((∀ n < (afterCalls publishes calls).attempts, publishes n = true) →
      SuccessesAnnounced publishes calls) := by
  refine ⟨?_, successesAnnounced_of_published⟩
  have hruns : Runs.Each (fun _ _ t => Truthful publishes t) .empty
        (Runs.trace (afterStep publishes) .empty (calls.flatMap SyncCall.steps)) ↔
      Runs.Each (PublishedIn publishes) .empty
        (Runs.trace (afterStep publishes) .empty (calls.flatMap SyncCall.steps)) := by
    refine Runs.each_trace_congr (fun s x hs => ?_) (fun s x hs hp => ?_) backed_empty _
    all_goals obtain ⟨_, -, h⟩ := synced_stepResult publishes s x
    · -- one step: what was lost is the version to send again
      refine ⟨fun htruth => ?_, fun hp => (h.backed hs hp).truthful⟩
      by_contra hp
      exact h.not_truthful_of_lost hs hp htruth
    · exact h.backed hs hp
  rw [forall_statesBetween, and_iff_right backed_empty.truthful, hruns]
  refine (each_published_iff _ _).trans ?_
  rw [← afterCalls_eq]
  exact ⟨fun h n hn => h n (Nat.zero_le n) hn, fun h n _ hn => h n hn⟩

/-- The client's post, as it is sent each time. -/
def resentPost : Post where
  postId := 50
  externalId := "t3_50"
  title := "title"
  bodyText := none
  customTitle := none
  customBody := none
  summary := none
  analysisText := none
  addedAt := ⟨0, true⟩
  updatedAt := ⟨1, true⟩

def resend : SyncCall :=
  ⟨none, fun _ => "e", ⟨[resentPost], "main", by decide⟩⟩

/-- The first attempt to publish fails, so the first request reports an error. The second reports
a success, and the log is empty. -/
theorem publish_failure_not_announced :
    ¬ SuccessesAnnounced (fun n => decide (n ≠ 0)) [resend, resend] := by
  intro h
  obtain ⟨e, he, -⟩ := h [resend] resend [] rfl [⟨50, .skipped, true, none⟩] (by decide +kernel) 0
    resentPost _ rfl rfl rfl
  have hlog : (afterCalls (fun n => decide (n ≠ 0)) ([resend] ++ [resend])).events = [] := by
    decide +kernel
  rw [hlog] at he
  cases he

end RagPipeline
