import RagPipeline.Api.SyncEvents
import RagPipeline.Repository.Freshness

namespace RagPipeline
open Coro Interleave

namespace SyncStep

variable (x : SyncStep)

abbrev fetchOp : SyncOp := .fetch x.post.postId (asciiLower x.tableName)

abbrev lookOp : SyncOp := .fetchUpdatedAt x.post.postId (asciiLower x.tableName)

abbrev writeOp : SyncOp := .executeUpsert x.post (asciiLower x.tableName)

abbrev publishOp (existing : Option Post) : SyncOp := .publish (.postSynced (x.event existing))

def row (db : PostStore) : Option Post := db.row x.tableName x.post.postId

/-- The `updated_at` that the SELECT of `upsert` answers with. -/
def seen (db : PostStore) : Option DateTime := (x.row db).map Post.updatedAt

def program : SyncCoro PostSyncResult := syncPost x.trace x.tableName x.eventId x.post

/-- The `except` clause. -/
def onError (exc : PyExc) : SyncCoro PostSyncResult :=
  ret ⟨x.post.postId, .error, false, some exc.str⟩

/-- The rest of the `try` block after `upsert`. -/
def report (existing : Option Post) (outcome : SyncStatus × Option DateTime) :
    SyncCoro PostSyncResult := do
  if outcome.1 ≠ .skipped then
    awaitSync (x.publishOp existing)
  return ⟨x.post.postId, outcome.1, true, none⟩

def Created (past : List (SyncOp × PostStore)) : Prop :=
  ∃ db, (x.writeOp, db) ∈ past ∧ x.row db = none

def Overwrote (past : List (SyncOp × PostStore)) : Prop :=
  ∃ db, (x.writeOp, db) ∈ past ∧ ∃ old, x.row db = some old ∧ old.stamp < x.post.stamp

/-- The call published `post.synced`. -/
def Published (past : List (SyncOp × PostStore)) : Prop :=
  ∃ existing db, (x.publishOp existing, db) ∈ past

/-- Between the call's SELECT and its write the row that it had not seen was created, or the row
that it had seen became at least as fresh as its version. -/
def Overtaken (past : List (SyncOp × PostStore)) : Prop :=
  ∃ db db', (x.lookOp, db) ∈ past ∧ (x.writeOp, db') ∈ past ∧
    ((x.row db = none ∧ x.row db' ≠ none) ∨
      (x.row db ≠ none ∧ ¬ LastWriter.Newer Post.stamp (x.row db') x.post))

/-- The result of the call says what its own statement did, and the event was published when that
stored the post. -/
structure TrueResult (past : List (SyncOp × PostStore)) (r : PostSyncResult) : Prop where
  inserted : r.status = .inserted → x.Created past
  updated : r.status = .updated → x.Overwrote past
  skipped : r.status = .skipped → ¬ x.Created past ∧ ¬ x.Overwrote past
  published : x.Published past ↔ x.Created past ∨ x.Overwrote past

/-- Where a call stands. -/
inductive Stage : SyncCoro PostSyncResult → List (SyncOp × PostStore) → PostStore → Prop
  | fetching {s : PostStore} : Stage x.program [] s
  | looking {s : PostStore} (db : PostStore) (existing : Option Post) :
      Stage (attempt (PostRepository.upsert x.post x.tableName >>= x.report existing) x.onError)
        [(x.fetchOp, db)] s
  | writing {s : PostStore} (db db₁ : PostStore) (existing : Option Post)
      (hseen : x.row db₁ ≠ none → x.row s ≠ none) :
      Stage (attempt (awaitSync x.writeOp >>= fun _ =>
          x.report existing (writtenStatus (x.seen db₁), x.seen db₁)) x.onError)
        [(x.fetchOp, db), (x.lookOp, db₁)] s
  | publishing {s : PostStore} (db db₁ db₂ : PostStore) (existing : Option Post)
      (hseen : x.row db₁ ≠ none → x.row db₂ ≠ none) (hrow : x.row s ≠ none) :
      Stage (attempt (awaitSync (x.publishOp existing) >>= fun _ =>
          ret ⟨x.post.postId, writtenStatus (x.seen db₁), true, none⟩) x.onError)
        [(x.fetchOp, db), (x.lookOp, db₁), (x.writeOp, db₂)] s
  | published {s : PostStore} (db db₁ db₂ db₃ : PostStore) (existing : Option Post)
      (hseen : x.row db₁ ≠ none → x.row db₂ ≠ none) (hrow : x.row s ≠ none) :
      Stage (ret ⟨x.post.postId, writtenStatus (x.seen db₁), true, none⟩)
        [(x.fetchOp, db), (x.lookOp, db₁), (x.writeOp, db₂), (x.publishOp existing, db₃)] s
  | skipped {s : PostStore} (db db₁ : PostStore) (hrow : x.row s ≠ none) :
      Stage (ret ⟨x.post.postId, .skipped, true, none⟩) [(x.fetchOp, db), (x.lookOp, db₁)] s
  | refused {s : PostStore} (db db₁ : PostStore) (e : PyExc) (hrow : x.row s ≠ none) :
      Stage (ret ⟨x.post.postId, .error, false, some e.str⟩) [(x.fetchOp, db), (x.lookOp, db₁)] s

/-- The event bus takes every event. -/
abbrev syncDb : World SyncOp SyncOp.Ans PyExc PostStore := syncWorld fun _ => true

variable {x} {s t : PostStore} {p : SyncCoro PostSyncResult} {past : List (SyncOp × PostStore)}

theorem program_eq : x.program = attempt (awaitSync x.fetchOp >>= fun existing =>
    PostRepository.upsert x.post x.tableName >>= x.report existing) x.onError := rfl

theorem report_written (existing : Option Post) (at? : Option DateTime) :
    x.report existing (writtenStatus at?, at?) = awaitSync (x.publishOp existing) >>= fun _ =>
      ret ⟨x.post.postId, writtenStatus at?, true, none⟩ := by
  unfold report
  rw [if_pos (writtenStatus_ne_skipped at?)]
  rfl

/-- The freshness check of `upsert`, and what follows it. -/
theorem looking_eq (existing : Option Post) :
    attempt (PostRepository.upsert x.post x.tableName >>= x.report existing) x.onError =
      attempt (awaitSync x.lookOp >>= fun at? =>
        (Coro.ofExcept (PostRepository.atLeastAsFresh at? x.post) >>= fun fresh =>
          if fresh = true then ret (.skipped, at?)
          else awaitSync x.writeOp >>= fun _ => ret (writtenStatus at?, at?)) >>=
            x.report existing) x.onError := by
  unfold PostRepository.upsert
  rw [Coro.bind_assoc]
  rfl

theorem row_writeOp_ne_none (s : PostStore) : x.row (syncDb x.writeOp s).2 ≠ none := by
  show (s.upsertRow (asciiLower x.tableName) x.post).row x.tableName x.post.postId ≠ none
  have hcovers : LastWriter.Covers Post.stamp
      (((s.upsertRow x.tableName x.post).row x.tableName x.post.postId).map Post.overwritten)
      (PostStore.stored x.post).overwritten := by
    rw [row_upsertRow]
    exact LastWriter.covers_write _ _
  obtain ⟨u, hu, -⟩ := hcovers
  obtain ⟨post, hpost, -⟩ := Option.map_eq_some_iff.mp hu
  rw [upsertRow_asciiLower, hpost]
  exact Option.some_ne_none post

theorem Stage.next (h : x.Stage p past s) :
    x.Stage (Coro.next syncDb (p, s)).1 (past ++ awaited p s) (Coro.next syncDb (p, s)).2 := by
  cases h with
  | fetching =>
    rw [program_eq, next_attempt_call_bind, awaited_attempt_call_bind]
    exact .looking s _
  | looking db existing =>
    rw [looking_eq, next_attempt_call_bind, awaited_attempt_call_bind]
    have hlook : syncDb x.lookOp s = (.ok (x.seen s), s) := by
      simp [syncWorld, lookOp, seen, row]
    rw [hlook]
    -- timestamps that do not compare, a row that is as fresh, or a write to come
    rcases atLeastAsFresh_cases s x.tableName x.post with
      ⟨old, hrow, -, e, he⟩ | ⟨old, hrow, -, he⟩ | ⟨-, he⟩
    · have hcheck : PostRepository.atLeastAsFresh (x.seen s) x.post = .error e := he
      simp only [hcheck, ofExcept_error, raise_bind]
      exact .refused db s e (by simp [row, hrow])
    · have hcheck : PostRepository.atLeastAsFresh (x.seen s) x.post = .ok true := he
      simp only [hcheck, ofExcept_ok, ret_bind, if_true]
      exact .skipped db s (by simp [row, hrow])
    · have hcheck : PostRepository.atLeastAsFresh (x.seen s) x.post = .ok false := he
      simp only [hcheck, ofExcept_ok, ret_bind, Bool.false_eq_true, if_false]
      rw [Coro.bind_assoc]
      exact .writing db s existing id
  | writing db db₁ existing hseen =>
    rw [next_attempt_call_bind, awaited_attempt_call_bind]
    show x.Stage ((x.report existing _).attempt x.onError) _ (syncDb x.writeOp s).2
    rw [report_written]
    exact .publishing db db₁ s existing hseen (row_writeOp_ne_none s)
  | publishing db db₁ db₂ existing hseen hrow =>
    rw [next_attempt_call_bind, awaited_attempt_call_bind]
    exact .published db db₁ db₂ s existing hseen hrow
  | published db db₁ db₂ db₃ existing hseen hrow =>
    exact .published db db₁ db₂ db₃ existing hseen hrow
  | skipped db db₁ hrow => exact .skipped db db₁ hrow
  | refused db db₁ e hrow => exact .refused db db₁ e hrow

/-- Only a write of the call changes the row, and only a row that is not there is created. -/
theorem Stage.row_next (h : x.Stage p past s) :
    (x.row s ≠ none → x.row (Coro.next syncDb (p, s)).2 ≠ none) ∧
      (x.Created (past ++ awaited p s) ↔ x.Created past ∨
        (x.row s = none ∧ x.row (Coro.next syncDb (p, s)).2 ≠ none)) := by
  have hother : ∀ {op : SyncOp} {t : PostStore}, op ≠ x.writeOp → x.row t = x.row s →
      (x.row s ≠ none → x.row t ≠ none) ∧ (x.Created (past ++ [(op, s)]) ↔
        x.Created past ∨ (x.row s = none ∧ x.row t ≠ none)) := by
    intro op t hop ht
    rw [ht]
    refine ⟨id, ?_⟩
    simp [Created, hop.symm]
  -- every statement but the write leaves the row and creates nothing
  cases h with
  | fetching =>
    rw [program_eq, next_attempt_call_bind, awaited_attempt_call_bind]
    exact hother nofun rfl
  | looking db existing =>
    rw [looking_eq, next_attempt_call_bind, awaited_attempt_call_bind]
    exact hother nofun rfl
  | writing db db₁ existing hseen =>
    rw [next_attempt_call_bind, awaited_attempt_call_bind]
    have hne : x.row (syncDb x.writeOp s).2 ≠ none := row_writeOp_ne_none s
    refine ⟨fun _ => hne, ?_⟩
    show x.Created (_ ++ [(x.writeOp, s)]) ↔ _ ∨ (_ ∧ x.row (syncDb x.writeOp s).2 ≠ none)
    rw [and_iff_left hne]
    simp [Created]
  | publishing db db₁ db₂ existing hseen hrow =>
    rw [next_attempt_call_bind, awaited_attempt_call_bind]
    exact hother nofun rfl
  | published _ _ _ _ _ _ _ => simp [awaited, Coro.next]
  | skipped _ _ _ => simp [awaited, Coro.next]
  | refused _ _ _ _ => simp [awaited, Coro.next]

theorem Stage.mono (h : x.Stage p past s) (hst : x.row s ≠ none → x.row t ≠ none) :
    x.Stage p past t := by
  cases h with
  | fetching => exact .fetching
  | looking db existing => exact .looking db existing
  | writing db db₁ existing hseen => exact .writing db db₁ existing fun h => hst (hseen h)
  | publishing db db₁ db₂ existing hseen hrow =>
    exact .publishing db db₁ db₂ existing hseen (hst hrow)
  | published db db₁ db₂ db₃ existing hseen hrow =>
    exact .published db db₁ db₂ db₃ existing hseen (hst hrow)
  | skipped db db₁ hrow => exact .skipped db db₁ (hst hrow)
  | refused db db₁ e hrow => exact .refused db db₁ e (hst hrow)

/-- How a call that has returned came to its result. -/
inductive Returned (x : SyncStep) : PostSyncResult → List (SyncOp × PostStore) → Prop
  | published (db db₁ db₂ db₃ : PostStore) (existing : Option Post)
      (hseen : x.row db₁ ≠ none → x.row db₂ ≠ none) :
      Returned x ⟨x.post.postId, writtenStatus (x.seen db₁), true, none⟩
        [(x.fetchOp, db), (x.lookOp, db₁), (x.writeOp, db₂), (x.publishOp existing, db₃)]
  | skipped (db db₁ : PostStore) :
      Returned x ⟨x.post.postId, .skipped, true, none⟩ [(x.fetchOp, db), (x.lookOp, db₁)]
  | refused (db db₁ : PostStore) (e : PyExc) :
      Returned x ⟨x.post.postId, .error, false, some e.str⟩ [(x.fetchOp, db), (x.lookOp, db₁)]

theorem Stage.of_ret {r : PostSyncResult} (h : x.Stage (ret r) past s) :
    Returned x r past ∧ x.row s ≠ none := by
  generalize hp : (ret r : SyncCoro PostSyncResult) = p at h
  cases h with
  | fetching => exact absurd hp.symm (attempt_call_bind_ne_ret _ _ _ _)
  | looking db existing =>
    rw [looking_eq] at hp
    exact absurd hp.symm (attempt_call_bind_ne_ret _ _ _ _)
  | writing db db₁ existing hseen => exact absurd hp.symm (attempt_call_bind_ne_ret _ _ _ _)
  | publishing db db₁ db₂ existing hseen hrow =>
    exact absurd hp.symm (attempt_call_bind_ne_ret _ _ _ _)
  | published db db₁ db₂ db₃ existing hseen hrow =>
    obtain rfl := Coro.ret.inj hp
    exact ⟨.published db db₁ db₂ db₃ existing hseen, hrow⟩
  | skipped db db₁ hrow =>
    obtain rfl := Coro.ret.inj hp
    exact ⟨.skipped db db₁, hrow⟩
  | refused db db₁ e hrow =>
    obtain rfl := Coro.ret.inj hp
    exact ⟨.refused db db₁ e, hrow⟩

theorem seen_eq_none_iff (db : PostStore) : x.seen db = none ↔ x.row db = none :=
  Option.map_eq_none_iff

theorem writtenStatus_eq_inserted_iff (db : PostStore) :
    writtenStatus (x.seen db) = .inserted ↔ x.row db = none := by
  rw [← seen_eq_none_iff]
  cases x.seen db <;> simp [writtenStatus]

theorem writtenStatus_eq_updated_iff (db : PostStore) :
    writtenStatus (x.seen db) = .updated ↔ x.row db ≠ none := by
  rw [ne_eq, ← seen_eq_none_iff]
  cases x.seen db <;> simp [writtenStatus]

theorem newer_row_iff (db : PostStore) : LastWriter.Newer Post.stamp (x.row db) x.post ↔
    x.row db = none ∨ ∃ old, x.row db = some old ∧ old.stamp < x.post.stamp := by
  cases x.row db with
  | none => simp [LastWriter.Newer]
  | some old => simp [LastWriter.Newer]

theorem Returned.trueResult_iff {r : PostSyncResult} (h : Returned x r past) :
    x.TrueResult past r ↔ ¬ x.Overtaken past := by
  cases h with
  | published db db₁ db₂ db₃ existing hseen =>
    have hcreated : x.Created [(x.fetchOp, db), (x.lookOp, db₁), (x.writeOp, db₂),
        (x.publishOp existing, db₃)] ↔ x.row db₂ = none := by
      simp [Created]
    have hoverwrote : x.Overwrote [(x.fetchOp, db), (x.lookOp, db₁), (x.writeOp, db₂),
        (x.publishOp existing, db₃)] ↔
          ∃ old, x.row db₂ = some old ∧ old.stamp < x.post.stamp := by
      simp [Overwrote]
    have hovertaken : x.Overtaken [(x.fetchOp, db), (x.lookOp, db₁), (x.writeOp, db₂),
        (x.publishOp existing, db₃)] ↔ (x.row db₁ = none ∧ x.row db₂ ≠ none) ∨
          (x.row db₁ ≠ none ∧ ¬ LastWriter.Newer Post.stamp (x.row db₂) x.post) := by
      simp [Overtaken]
    have hpublished : x.Published [(x.fetchOp, db), (x.lookOp, db₁), (x.writeOp, db₂),
        (x.publishOp existing, db₃)] := ⟨existing, db₃, by simp⟩
    rw [hovertaken]
    constructor
    -- `db₁` is what the SELECT saw and `db₂` what the write found
    · intro htrue
      have hstored := htrue.published.mp hpublished
      rw [hcreated, hoverwrote, ← newer_row_iff] at hstored
      have hins := fun h => hcreated.mp
        (htrue.inserted ((writtenStatus_eq_inserted_iff db₁).mpr h))
      tauto
    · intro hnot
      refine ⟨fun hs => ?_, fun hs => ?_, fun hs => absurd hs (writtenStatus_ne_skipped _),
        fun _ => ?_, fun _ => hpublished⟩
      · have hnone : x.row db₁ = none := (writtenStatus_eq_inserted_iff db₁).mp hs
        rw [hcreated]
        by_contra hne
        exact hnot (.inl ⟨hnone, hne⟩)
      · have hsome : x.row db₁ ≠ none := (writtenStatus_eq_updated_iff db₁).mp hs
        have hnewer : LastWriter.Newer Post.stamp (x.row db₂) x.post := by
          by_contra hn
          exact hnot (.inr ⟨hsome, hn⟩)
        rw [hoverwrote]
        exact ((newer_row_iff db₂).mp hnewer).resolve_left (hseen hsome)
      · rw [hcreated, hoverwrote, ← newer_row_iff]
        by_cases hnone : x.row db₁ = none
        · by_contra hn
          refine hnot (.inl ⟨hnone, fun h => hn ?_⟩)
          rw [h]
          simp [LastWriter.Newer]
        · by_contra hn
          exact hnot (.inr ⟨hnone, hn⟩)
  | skipped db db₁ =>
    have hnever : ¬ x.Overtaken [(x.fetchOp, db), (x.lookOp, db₁)] := by simp [Overtaken]
    rw [iff_true_right hnever]
    constructor <;> simp [Created, Overwrote, Published]
  | refused db db₁ e =>
    have hnever : ¬ x.Overtaken [(x.fetchOp, db), (x.lookOp, db₁)] := by simp [Overtaken]
    rw [iff_true_right hnever]
    constructor <;> simp [Created, Overwrote, Published]

theorem Returned.inserted_of_created {r : PostSyncResult} (h : Returned x r past)
    (hc : x.Created past) : r.status = .inserted := by
  obtain ⟨db, hmem, hrow⟩ := hc
  cases h with
  | published db₀ db₁ db₂ db₃ existing hseen =>
    have hdb : db = db₂ := by simpa using hmem
    subst hdb
    exact (writtenStatus_eq_inserted_iff db₁).mpr (not_not.mp fun h => hseen h hrow)
  | skipped db₀ db₁ => simp at hmem
  | refused db₀ db₁ e => simp at hmem

end SyncStep

structure RowCalls (ι : Type) where
  tableName : String
  postId : ℤ
  call : ι → SyncStep
  onTable : ∀ i, (call i).tableName = tableName
  onPost : ∀ i, (call i).post.postId = postId

namespace RowCalls

open SyncStep

variable {ι : Type} (c : RowCalls ι)

def row (db : PostStore) : Option Post := db.row c.tableName c.postId

theorem row_call (i : ι) : (c.call i).row = c.row := by
  funext db
  rw [SyncStep.row, c.onTable, c.onPost, row]

def start (db : PostStore) : Pool ι SyncOp SyncOp.Ans PyExc PostSyncResult PostStore :=
  Interleave.start (fun i => (c.call i).program) db

structure StatusesTrue (db : PostStore)
    (P : Pool ι SyncOp SyncOp.Ans PyExc PostSyncResult PostStore) : Prop where
  each : ∀ i r, P.progs i = ret r → (c.call i).TrueResult (P.past i) r
  sole : c.row db = none → Nonempty ι → AllReturned P →
    ∃! i, ∃ r, P.progs i = ret r ∧ r.status = .inserted

def OneCreator (P : Pool ι SyncOp SyncOp.Ans PyExc PostSyncResult PostStore) : Prop :=
  (c.row P.world = none → ∀ i, ¬ (c.call i).Created (P.past i)) ∧
    (c.row P.world ≠ none → ∃! i, (c.call i).Created (P.past i))

theorem protocol : Protocol syncDb (fun i p past s => (c.call i).Stage p past s)
    (fun s t => c.row s ≠ none → c.row t ≠ none) where
  step h := h.next
  moves h := by
    rw [← c.row_call]
    exact h.row_next.1
  stable h hst := h.mono (by rwa [c.row_call])

variable [DecidableEq ι] {c} {db : PostStore}
  {P : Pool ι SyncOp SyncOp.Ans PyExc PostSyncResult PostStore}

theorem holds_run (schedule : List ι) :
    Holds (fun i p past s => (c.call i).Stage p past s)
      (Interleave.run syncDb (c.start db) schedule) :=
  c.protocol.holds_run (fun _ => .fetching) schedule

theorem OneCreator.step (h : c.OneCreator P)
    (hP : Holds (fun i p past s => (c.call i).Stage p past s) P) (i : ι) :
    c.OneCreator (Interleave.step syncDb P i) := by
  obtain ⟨hstays, hcreated⟩ := (hP i).row_next
  rw [c.row_call] at hstays hcreated
  have hself : (c.call i).Created ((Interleave.step syncDb P i).past i) ↔
      (c.call i).Created (P.past i) ∨
        (c.row P.world = none ∧ c.row (Interleave.step syncDb P i).world ≠ none) := by
    refine Iff.trans ?_ hcreated
    simp [Interleave.step]
  have hothers : ∀ j ≠ i, (Interleave.step syncDb P i).past j = P.past j := by
    intro j hj
    simp [Interleave.step, Function.update_of_ne hj]
  have hall : ∀ j, ¬ (c.row P.world = none ∧ c.row (Interleave.step syncDb P i).world ≠ none) →
      ((c.call j).Created ((Interleave.step syncDb P i).past j) ↔
        (c.call j).Created (P.past j)) := by
    intro j hsame
    by_cases hj : j = i
    · subst hj
      rw [hself, or_iff_left hsame]
    · rw [hothers j hj]
  -- a row is created by the first write, and from then on nobody creates it
  by_cases hrow : c.row P.world = none
  · refine ⟨fun hnone j => ?_, fun hne => ?_⟩
    · rw [hall j fun h => h.2 hnone]
      exact h.1 hrow j
    · refine ⟨i, hself.mpr (.inr ⟨hrow, hne⟩), fun j (hj : (c.call j).Created _) => ?_⟩
      -- nobody had created it before
      by_contra hji
      rw [hothers j hji] at hj
      exact h.1 hrow j hj
  · refine ⟨fun hnone => absurd hnone (hstays hrow), fun _ => ?_⟩
    have hsame : ¬ (c.row P.world = none ∧ c.row (Interleave.step syncDb P i).world ≠ none) :=
      fun h => hrow h.1
    simp only [hall _ hsame]
    exact h.2 hrow

theorem oneCreator_run (hdb : c.row db = none) (schedule : List ι) :
    c.OneCreator (Interleave.run syncDb (c.start db) schedule) := by
  induction schedule using List.reverseRecOn with
  | nil =>
    refine ⟨fun _ i hi => ?_, fun hne => absurd hdb hne⟩
    obtain ⟨s, hmem, -⟩ := hi
    exact absurd hmem List.not_mem_nil
  | append_singleton schedule i ih =>
    rw [run_concat]
    exact ih.step (holds_run schedule) i

/-- For every set of calls for one post and every order of their statements: the statuses of the
calls that have returned are true exactly when none of these was overtaken between its SELECT and
its write. -/
theorem statuses_true_iff (c : RowCalls ι) (db : PostStore) (schedule : List ι) :
    c.StatusesTrue db (Interleave.run syncDb (c.start db) schedule) ↔
      ∀ i r, (Interleave.run syncDb (c.start db) schedule).progs i = ret r →
        ¬ (c.call i).Overtaken ((Interleave.run syncDb (c.start db) schedule).past i) := by
  have hreturned : ∀ i r, (Interleave.run syncDb (c.start db) schedule).progs i = ret r →
      Returned (c.call i) r ((Interleave.run syncDb (c.start db) schedule).past i) ∧
        c.row (Interleave.run syncDb (c.start db) schedule).world ≠ none := by
    intro i r hr
    have hstage : (c.call i).Stage ((Interleave.run syncDb (c.start db) schedule).progs i) _ _ :=
      holds_run schedule i
    rw [hr] at hstage
    rw [← c.row_call i]
    exact hstage.of_ret
  constructor
  · intro htrue i r hr
    exact (hreturned i r hr).1.trueResult_iff.mp (htrue.each i r hr)
  · intro hnot
    have heach : ∀ i r, (Interleave.run syncDb (c.start db) schedule).progs i = ret r →
        (c.call i).TrueResult ((Interleave.run syncDb (c.start db) schedule).past i) r :=
      fun i r hr => (hreturned i r hr).1.trueResult_iff.mpr (hnot i r hr)
    refine ⟨heach, ?_⟩
    rintro hdb ⟨j⟩ hall
    obtain ⟨rj, hrj⟩ := hall j
    obtain ⟨i, hi, hunique⟩ := (oneCreator_run hdb schedule).2 (hreturned j rj hrj).2
    obtain ⟨ri, hri⟩ := hall i
    refine ⟨i, ⟨ri, hri, (hreturned i ri hri).1.inserted_of_created hi⟩, ?_⟩
    rintro k ⟨rk, hrk, hstatus⟩
    exact hunique k ((heach k rk hrk).inserted hstatus)

end RowCalls

/-- Two versions of a new post, sent at the same time. -/
def racingSyncs : RowCalls Bool where
  tableName := "posts_main"
  postId := 50
  call newer := ⟨(none, none), "main", validateLibraryId_main, "e", racingVersions newer⟩
  onTable _ := rfl
  onPost _ := rfl

/-- Each call reads before the other writes. Both say that they inserted the post. -/
theorem both_report_inserted : ¬ racingSyncs.StatusesTrue .empty
    (Interleave.run SyncStep.syncDb (racingSyncs.start .empty)
      [false, false, true, true, false, false, true, true]) := by
  intro htrue
  have hresult : ∀ b, Interleave.result ((Interleave.run SyncStep.syncDb (racingSyncs.start .empty)
      [false, false, true, true, false, false, true, true]).progs b) =
        some ⟨50, .inserted, true, none⟩ := by
    decide +kernel
  have hret := fun b => Interleave.eq_ret_of_result (hresult b)
  obtain ⟨i, -, hunique⟩ := htrue.sole rfl ⟨true⟩ fun b => ⟨_, hret b⟩
  have hfalse := hunique false ⟨_, hret false, rfl⟩
  have htrue' := hunique true ⟨_, hret true, rfl⟩
  rw [← htrue'] at hfalse
  cases hfalse

end RagPipeline
