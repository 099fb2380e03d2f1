import RagPipeline.Lib.Requests
import RagPipeline.Services.FolderSuggestion

namespace RagPipeline
namespace FolderSuggestion
open Coro

structure RatingKey where
  libraryId : String
  folderKey : String
  postId : ℤ
deriving DecidableEq

/-- `VERDICTS` -/
def feedbackVerdicts : List Verdict := [.veryNo, .no, .yes, .veryYes]

theorem mem_feedbackVerdicts (v : Verdict) : v ∈ feedbackVerdicts := by
  cases v <;> decide

def Verdict.text : Verdict → String
  | veryNo => "very_no"
  | no => "no"
  | yes => "yes"
  | veryYes => "very_yes"

/-- A verdict, or none once it is cleared. -/
abbrev Rating := Option Verdict

/-- What `set_verdict` takes its text for; `none` where it refuses it. -/
def ratingOf (verdict : String) : Option Rating :=
  if verdict = "clear" then some none
  else (feedbackVerdicts.find? fun v => v.text = verdict).map some

inductive KeyColumn where
  | playlistKey
  | folderKey
deriving DecidableEq

structure FeedbackTable where
  keyColumn : KeyColumn
  rows : OrderedDict RatingKey Verdict
  /-- What its `CHECK` constraints admit. -/
  admitted : List Verdict
  checked : ∀ e ∈ rows.entries, e.2 ∈ admitted

/-- The table under its first name and under its present one. -/
structure FeedbackDb where
  recommendationFeedback : Option FeedbackTable
  folderSuggestionFeedback : Option FeedbackTable
  /-- Whether the index of the primary key has room for a key, which Postgres compresses. -/
  indexes : RatingKey → Bool := fun _ => true

inductive FeedbackExc where
  | undefinedTable
  | undefinedColumn
  | checkViolation
  /-- An argument is no value of its column. -/
  | dataError
  /-- The index has no room for the key. -/
  | programLimitExceeded
  /-- `verdict must be one of VERDICTS or 'clear', got` ... -/
  | valueError (verdict : String)
  | other (msg : String)
deriving DecidableEq

namespace FeedbackTable

def created : FeedbackTable := ⟨.folderKey, .empty, feedbackVerdicts, fun _ h => nomatch h⟩

/-- All constraints are dropped, and the one on `VERDICTS` is added. -/
def recheck (t : FeedbackTable) : FeedbackTable :=
  { t with admitted := feedbackVerdicts, checked := fun e _ => mem_feedbackVerdicts e.2 }

/-- `DELETE` -/
def delete (t : FeedbackTable) (k : RatingKey) : FeedbackTable where
  keyColumn := t.keyColumn
  rows := t.rows.erase k
  admitted := t.admitted
  checked e he := t.checked e (List.mem_of_mem_filter he)

/-- `INSERT ... ON CONFLICT (...) DO UPDATE` -/
def upsert (t : FeedbackTable) (k : RatingKey) (v : Verdict) (hv : v ∈ t.admitted) :
    FeedbackTable where
  keyColumn := t.keyColumn
  rows := t.rows.set k v
  admitted := t.admitted
  checked e he := by
    have hget : (t.rows.set k v).get? e.1 = some e.2 := OrderedDict.get?_eq_some.mpr he
    rw [OrderedDict.set, OrderedDict.get?_alter] at hget
    split_ifs at hget with hk
    · exact Option.some.inj hget ▸ hv
    · exact t.checked e (OrderedDict.get?_eq_some.mp hget)

/-- `SELECT post_id, verdict ... WHERE library_id = $1 AND folder_key = $2` -/
def select (t : FeedbackTable) (libraryId folderKey : String) : List (ℤ × Verdict) :=
  (t.rows.entries.filter fun e => e.1.libraryId = libraryId ∧ e.1.folderKey = folderKey).map
    fun e => (e.1.postId, e.2)

end FeedbackTable

namespace FeedbackDb

def table (db : FeedbackDb) : Except FeedbackExc FeedbackTable :=
  match db.folderSuggestionFeedback with
  | none => .error .undefinedTable
  | some t => if t.keyColumn = .folderKey then .ok t else .error .undefinedColumn

def setTable (db : FeedbackDb) (t : FeedbackTable) : FeedbackDb :=
  { db with folderSuggestionFeedback := some t }

/-- `ALTER TABLE recommendation_feedback RENAME`, when only that one exists. -/
def renameTable (db : FeedbackDb) : FeedbackDb :=
  match db.recommendationFeedback, db.folderSuggestionFeedback with
  | some t, none => { db with recommendationFeedback := none, folderSuggestionFeedback := some t }
  | _, _ => db

/-- The statements of `_ensure_schema`, which are one transaction. -/
def ensureSchema (db : FeedbackDb) : FeedbackDb :=
  let db := db.renameTable
  let t := match db.folderSuggestionFeedback with
    | some t => { t with keyColumn := .folderKey }
    | none => .created
  db.setTable t.recheck

end FeedbackDb

/-- What a process awaits of the database, and its own flag `_schema_ready`. -/
inductive FeedbackOp where
  | schemaReady (process : ℕ)
  | setSchemaReady (process : ℕ)
  | executeSchema
  | executeDelete (k : RatingKey)
  | executeUpsert (k : RatingKey) (v : Verdict)
  | fetchVerdicts (libraryId folderKey : String)

abbrev FeedbackOp.Ans : FeedbackOp → Type
  | schemaReady _ => Bool
  | fetchVerdicts .. => List (ℤ × Verdict)
  | _ => Unit

abbrev FeedbackCoro := Coro FeedbackOp FeedbackOp.Ans FeedbackExc

/-- A call that tells Lean the type of the answer. -/
abbrev awaitFeedback (op : FeedbackOp) : FeedbackCoro op.Ans := call op

namespace FeedbackRepository

/-- `_ensure_schema`: the migration runs once for each process. -/
def ensureSchema (process : ℕ) : FeedbackCoro Unit := do
  let ready ← awaitFeedback (.schemaReady process)
  if ready then ret ()
  else do
    awaitFeedback .executeSchema
    awaitFeedback (.setSchemaReady process)

def writeRating (k : RatingKey) : Rating → FeedbackCoro Unit
  | none => awaitFeedback (.executeDelete k)
  | some v => awaitFeedback (.executeUpsert k v)

def setVerdict (process : ℕ) (k : RatingKey) (verdict : String) : FeedbackCoro Unit :=
  match ratingOf verdict with
  | none => raise (.valueError verdict)
  | some rating => do
    ensureSchema process
    writeRating k rating

/-- A database without the table, or with one from before, has no verdicts. -/
def verdicts (libraryId folderKey : String) : FeedbackCoro (OrderedDict ℤ Verdict) :=
  (do
    let rows ← awaitFeedback (.fetchVerdicts libraryId folderKey)
    ret (OrderedDict.ofList rows)).attempt fun
    | .undefinedTable => ret .empty
    | .undefinedColumn => ret .empty
    | e => raise e

end FeedbackRepository

/-- The database, and the processes whose flag is set. -/
structure FeedbackServer where
  db : FeedbackDb
  ready : List ℕ

/-- The values are ones of the columns of the key. -/
def RatingKey.fits (k : RatingKey) : Bool :=
  isText k.libraryId && isText k.folderKey && isInteger k.postId

def FeedbackServer.write (s : FeedbackServer) (k : RatingKey) (rating : Rating) :
    Except FeedbackExc Unit × FeedbackServer :=
  match s.db.table with
  | .error e => (.error e, s)
  | .ok t =>
    if k.fits then
      match rating with
      | none => (.ok (), { s with db := s.db.setTable (t.delete k) })
      | some v =>
        if s.db.indexes k then
          if hv : v ∈ t.admitted then (.ok (), { s with db := s.db.setTable (t.upsert k v hv) })
          else (.error .checkViolation, s)
        else (.error .programLimitExceeded, s)
    else (.error .dataError, s)

def FeedbackDb.fetch (db : FeedbackDb) (libraryId folderKey : String) :
    Except FeedbackExc (List (ℤ × Verdict)) :=
  match db.table with
  | .error e => .error e
  | .ok t =>
    if isText libraryId && isText folderKey then .ok (t.select libraryId folderKey)
    else .error .dataError

def feedbackWorld : World FeedbackOp FeedbackOp.Ans FeedbackExc FeedbackServer
  | .schemaReady process, s => (.ok (decide (process ∈ s.ready)), s)
  | .setSchemaReady process, s => (.ok (), { s with ready := process :: s.ready })
  | .executeSchema, s => (.ok (), { s with db := s.db.ensureSchema })
  | .executeDelete k, s => s.write k none
  | .executeUpsert k v, s => s.write k (some v)
  | .fetchVerdicts libraryId folderKey, s => (s.db.fetch libraryId folderKey, s)

namespace FeedbackDb

def visible (db : FeedbackDb) (k : RatingKey) : Rating :=
  match db.table with
  | .error _ => none
  | .ok t => t.rows.get? k

/-- The rating that is stored under either name of the table. -/
def rated (db : FeedbackDb) (k : RatingKey) : Rating :=
  (db.folderSuggestionFeedback <|> db.recommendationFeedback).bind fun t => t.rows.get? k

end FeedbackDb

/-- The ratings once these were set on top of others. -/
def ratings (base : RatingKey → Rating) (L : List (RatingKey × Rating)) : RatingKey → Rating :=
  L.foldl (fun r w => Function.update r w.1 w.2) base

theorem ratings_append (base : RatingKey → Rating) (L : List (RatingKey × Rating)) (k : RatingKey)
    (rating : Rating) :
    ratings base (L ++ [(k, rating)]) = Function.update (ratings base L) k rating := by
  rw [ratings, List.foldl_append]
  rfl

namespace FeedbackTable

theorem get?_delete (t : FeedbackTable) (k : RatingKey) :
    (t.delete k).rows.get? = Function.update t.rows.get? k none := by
  funext k'
  show (t.rows.erase k).get? k' = _
  rw [OrderedDict.get?_erase, Function.update_apply]

theorem get?_upsert (t : FeedbackTable) (k : RatingKey) {v : Verdict} (hv : v ∈ t.admitted) :
    (t.upsert k v hv).rows.get? = Function.update t.rows.get? k (some v) := by
  funext k'
  show (t.rows.set k v).get? k' = _
  rw [OrderedDict.set, OrderedDict.get?_alter, Function.update_apply]

/-- Each post stands once among the verdicts of a folder. -/
theorem nodup_select (t : FeedbackTable) (libraryId folderKey : String) :
    ((t.select libraryId folderKey).map Prod.fst).Nodup := by
  rw [select, List.map_map]
  apply List.Nodup.map_on
  · intro e he e' he' hpost
    obtain ⟨hmem, hkey⟩ := List.mem_filter.mp he
    obtain ⟨hmem', hkey'⟩ := List.mem_filter.mp he'
    rw [decide_eq_true_eq] at hkey hkey'
    have hsame : e.1 = e'.1 := by
      have hid : e.1.postId = e'.1.postId := hpost
      cases hk : e.1
      cases hk' : e'.1
      simp_all
    exact Prod.ext hsame (Option.some.inj
      ((OrderedDict.get?_eq_some.mpr hmem).symm.trans
        (hsame ▸ OrderedDict.get?_eq_some.mpr hmem')))
  · exact (List.Nodup.of_map Prod.fst t.rows.nodup).filter _

theorem get?_select (t : FeedbackTable) (libraryId folderKey : String) (postId : ℤ) :
    (OrderedDict.ofList (t.select libraryId folderKey)).get? postId =
      t.rows.get? ⟨libraryId, folderKey, postId⟩ := by
  apply Option.ext
  intro v
  rw [OrderedDict.get?_ofList (t.nodup_select libraryId folderKey), OrderedDict.get?_eq_some,
    select, List.mem_map]
  constructor
  · rintro ⟨e, he, heq⟩
    obtain ⟨hmem, hkey⟩ := List.mem_filter.mp he
    rw [decide_eq_true_eq] at hkey
    obtain ⟨rfl, rfl⟩ := Prod.mk.inj heq
    obtain ⟨rfl, rfl⟩ := hkey
    exact hmem
  · intro hmem
    exact ⟨_, List.mem_filter.mpr ⟨hmem, decide_eq_true ⟨rfl, rfl⟩⟩, rfl⟩

end FeedbackTable

namespace FeedbackDb

variable {db : FeedbackDb} {t : FeedbackTable}

theorem keyColumn_of_table (h : db.table = .ok t) : t.keyColumn = .folderKey := by
  unfold table at h
  split at h
  · cases h
  · split_ifs at h with hkey
    cases h
    exact hkey

theorem table_setTable (db : FeedbackDb) (h : t.keyColumn = .folderKey) :
    (db.setTable t).table = .ok t := by
  unfold setTable table
  exact if_pos h

theorem visible_of_table (h : db.table = .ok t) (k : RatingKey) :
    db.visible k = t.rows.get? k := by
  rw [visible, h]

theorem rated_of_table (h : db.table = .ok t) (k : RatingKey) : db.rated k = t.rows.get? k := by
  unfold table at h
  unfold rated
  split at h
  · cases h
  · rename_i t' hdb
    split_ifs at h with hkey
    cases h
    rw [hdb]
    rfl

def Migrated (db : FeedbackDb) : Prop := ∃ t, db.table = .ok t ∧ t.admitted = feedbackVerdicts

theorem migrated_setTable (db : FeedbackDb) (h : t.keyColumn = .folderKey)
    (hall : t.admitted = feedbackVerdicts) : (db.setTable t).Migrated :=
  ⟨t, db.table_setTable h, hall⟩

theorem indexes_ensureSchema (db : FeedbackDb) : db.ensureSchema.indexes = db.indexes := by
  obtain ⟨old, new, indexes⟩ := db
  cases old <;> cases new <;> rfl

/-- The migration keeps every rating that is stored under either name. -/
theorem exists_table_ensureSchema (db : FeedbackDb) :
    ∃ t, db.ensureSchema.table = .ok t ∧ t.admitted = feedbackVerdicts ∧
      ∀ k, t.rows.get? k = db.rated k := by
  obtain ⟨old, new, indexes⟩ := db
  cases old <;> cases new <;> exact ⟨_, table_setTable _ rfl, rfl, fun k => rfl⟩

theorem migrated_ensureSchema (db : FeedbackDb) : db.ensureSchema.Migrated := by
  obtain ⟨t, ht, hall, -⟩ := db.exists_table_ensureSchema
  exact ⟨t, ht, hall⟩

end FeedbackDb

structure FeedbackRequest where
  process : ℕ
  key : RatingKey
  verdict : String

abbrev feedbackService : Requests.Service FeedbackOp FeedbackOp.Ans FeedbackExc Unit FeedbackServer
    (RatingKey × Rating) FeedbackRequest where
  world := feedbackWorld
  write
    | .executeDelete k => some (k, none)
    | .executeUpsert k v => some (k, some v)
    | _ => none
  program r := FeedbackRepository.setVerdict r.process r.key r.verdict

def FeedbackRequest.asks (r : FeedbackRequest) : Multiset (RatingKey × Rating) :=
  ((ratingOf r.verdict).map fun rating => (r.key, rating)).toList

/-- The table holds the ratings on record, on top of those of the first database `D`. -/
structure Recorded (D : FeedbackDb) (s : FeedbackServer) (L : List (RatingKey × Rating)) :
    Prop where
  stored : ∀ t, s.db.table = .ok t → t.rows.get? = ratings D.rated L
  untouched : (∀ t, s.db.table ≠ .ok t) → s.db = D ∧ L = []
  indexes : s.db.indexes = D.indexes
  ready : s.ready ≠ [] → s.db.Migrated

variable {D : FeedbackDb} {s : FeedbackServer} {L : List (RatingKey × Rating)}

theorem recorded_start (D : FeedbackDb) : Recorded D ⟨D, []⟩ [] := by
  refine ⟨fun t ht => ?_, fun _ => ⟨rfl, rfl⟩, rfl, fun h => absurd rfl h⟩
  funext k
  exact (FeedbackDb.rated_of_table ht k).symm

theorem Recorded.ensureSchema (h : Recorded D s L) :
    Recorded D { s with db := s.db.ensureSchema } L := by
  obtain ⟨t, ht, hall, hrows⟩ := s.db.exists_table_ensureSchema
  have hstored : t.rows.get? = ratings D.rated L := by
    funext k
    rw [hrows]
    by_cases hold : ∃ t, s.db.table = .ok t
    · obtain ⟨t', ht'⟩ := hold
      rw [FeedbackDb.rated_of_table ht', h.stored t' ht']
    · obtain ⟨hdb, rfl⟩ := h.untouched (not_exists.mp hold)
      rw [hdb]
      rfl
  refine ⟨fun t' ht' => ?_, fun hnone => absurd ht (hnone t),
    s.db.indexes_ensureSchema.trans h.indexes, fun _ => ⟨t, ht, hall⟩⟩
  rw [ht] at ht'
  cases ht'
  exact hstored

/-- A write goes through once the table can be named, or it changes nothing. -/
theorem write_cases (s : FeedbackServer) (k : RatingKey) (rating : Rating) :
    (∃ e, s.write k rating = (.error e, s)) ∨
      ∃ t t', s.db.table = .ok t ∧ s.write k rating = (.ok (), { s with db := s.db.setTable t' }) ∧
        t'.keyColumn = t.keyColumn ∧ t'.admitted = t.admitted ∧
        t'.rows.get? = Function.update t.rows.get? k rating := by
  unfold FeedbackServer.write
  cases ht : s.db.table with
  | error e => exact .inl ⟨e, rfl⟩
  | ok t =>
    cases rating with
    | none =>
      simp only
      split_ifs
      · exact .inr ⟨t, t.delete k, rfl, rfl, rfl, rfl, t.get?_delete k⟩
      · exact .inl ⟨_, rfl⟩
    | some v =>
      simp only
      split_ifs with _ _ hv
      · exact .inr ⟨t, t.upsert k v hv, rfl, rfl, rfl, rfl, t.get?_upsert k hv⟩
      all_goals exact .inl ⟨_, rfl⟩

theorem Recorded.write (h : Recorded D s L) (k : RatingKey) (rating : Rating) :
    Recorded D (s.write k rating).2
      (L ++ if (s.write k rating).1.isOk then [(k, rating)] else []) := by
  obtain ⟨e, he⟩ | ⟨t, t', ht, hw, hkey, hall, hrows⟩ := write_cases s k rating
  · rw [he]
    simpa using h
  · rw [hw]
    have htable := s.db.table_setTable (hkey.trans (FeedbackDb.keyColumn_of_table ht))
    refine ⟨fun t'' ht'' => ?_, fun hnone => absurd htable (hnone t'), h.indexes,
      fun hready => ?_⟩
    · rw [htable] at ht''
      cases ht''
      rw [hrows, h.stored t ht]
      exact (ratings_append _ _ _ _).symm
    · obtain ⟨t'', ht'', hadmitted⟩ := h.ready hready
      rw [ht] at ht''
      cases ht''
      exact ⟨t', htable, hall.trans hadmitted⟩

/-- The flag is set once the schema was migrated. -/
def AsksAllowed (c : Prop × Requests.Record (RatingKey × Rating)) : FeedbackOp → Prop
  | .setSchemaReady _ => c.1
  | _ => True

def Answered (seen : List (RatingKey × Rating)) (c : Prop × Requests.Record (RatingKey × Rating)) :
    (op : FeedbackOp) → op.Ans → Prop
  | .executeSchema, _ => c.1
  | .executeDelete k, _ => Requests.WrittenSince seen c.2 (k, none)
  | .executeUpsert k v, _ => Requests.WrittenSince seen c.2 (k, some v)
  | _, _ => True

def RatingStored (r : FeedbackRequest) (seen : List (RatingKey × Rating))
    (c : Requests.Record (RatingKey × Rating)) (_ : Unit) : Prop :=
  ∃ rating, ratingOf r.verdict = some rating ∧ Requests.WrittenSince seen c (r.key, rating)

theorem migrated_write (s : FeedbackServer) (k : RatingKey) (rating : Rating) (h : s.db.Migrated) :
    (s.write k rating).2.db.Migrated := by
  obtain ⟨e, he⟩ | ⟨t, t', ht, hw, hkey, hall, -⟩ := write_cases s k rating
  · rw [he]
    exact h
  · obtain ⟨t'', ht'', hadmitted⟩ := h
    rw [ht] at ht''
    cases ht''
    rw [hw]
    exact FeedbackDb.migrated_setTable _ (hkey.trans (FeedbackDb.keyColumn_of_table ht))
      (hall.trans hadmitted)

theorem explained (D : FeedbackDb) : feedbackService.Explained (Recorded D)
    (fun s => s.db.Migrated) AsksAllowed Answered := by
  constructor
  · intro op x L hx hG
    cases op with
    | schemaReady i =>
      rw [Requests.Service.written_of_none _ rfl, List.append_nil]
      exact hx
    | setSchemaReady i =>
      rw [Requests.Service.written_of_none _ rfl, List.append_nil]
      exact ⟨hx.stored, hx.untouched, hx.indexes, fun _ => hG⟩
    | executeSchema =>
      rw [Requests.Service.written_of_none _ rfl, List.append_nil]
      exact hx.ensureSchema
    | executeDelete k =>
      rw [Requests.Service.written_of_some _ rfl]
      exact hx.write k none
    | executeUpsert k v =>
      rw [Requests.Service.written_of_some _ rfl]
      exact hx.write k (some v)
    | fetchVerdicts l f =>
      rw [Requests.Service.written_of_none _ rfl, List.append_nil]
      exact hx
  · intro op x L hx hG
    cases op with
    | executeSchema => exact fun _ => x.db.migrated_ensureSchema
    | executeDelete k => exact migrated_write x k none
    | executeUpsert k v => exact migrated_write x k (some v)
    | schemaReady i => exact le_rfl
    | setSchemaReady i => exact le_rfl
    | fetchVerdicts l f => exact le_rfl
  · intro op x L seen a hx hG hseen ha
    cases op with
    | executeSchema => exact x.db.migrated_ensureSchema
    | executeDelete k => exact Requests.writtenSince_last hseen (k, none)
    | executeUpsert k v => exact Requests.writtenSince_last hseen (k, some v)
    | _ => trivial

/-- No request sets the flag before the migration, and one that returns has its rating on record. -/
theorem promises_setVerdict (r : FeedbackRequest) (L : List (RatingKey × Rating))
    (c : Prop × Requests.Record (RatingKey × Rating)) :
    Promises (Answered L) AsksAllowed (fun c => RatingStored r L c.2)
      (feedbackService.program r) c := by
  show Promises _ _ _ (FeedbackRepository.setVerdict r.process r.key r.verdict) c
  unfold FeedbackRepository.setVerdict
  cases hrating : ratingOf r.verdict with
  | none => exact promises_raise _
  | some rating =>
    have hschema : Promises (Answered L) AsksAllowed (fun _ _ => True)
        (FeedbackRepository.ensureSchema r.process) c := by
      refine promises_call_bind (fun _ _ => trivial) fun d hd ready _ => ?_
      split_ifs
      · exact promises_ret fun _ _ => trivial
      · refine promises_call_bind (fun _ _ => trivial) fun d' hd' _ hmigrated => ?_
        exact promises_call (fun e he => he.1 hmigrated) fun _ _ _ _ _ _ => trivial
    refine hschema.bind fun d hd _ _ => ?_
    cases rating with
    | none =>
      exact promises_call (fun _ _ => trivial) fun e he _ hstored e' he' =>
        ⟨none, hrating, Requests.WrittenSince.mono hstored he'.2⟩
    | some v =>
      exact promises_call (fun _ _ => trivial) fun e he _ hstored e' he' =>
        ⟨some v, hrating, Requests.WrittenSince.mono hstored he'.2⟩

theorem spends_setVerdict (r : FeedbackRequest) :
    Requests.Spends feedbackService.write (feedbackService.program r) r.asks := by
  show Requests.Spends _ (FeedbackRepository.setVerdict r.process r.key r.verdict) _
  unfold FeedbackRepository.setVerdict FeedbackRequest.asks
  cases hrating : ratingOf r.verdict with
  | none => trivial
  | some rating =>
    have hschema : Requests.Spends feedbackService.write
        (FeedbackRepository.ensureSchema r.process) 0 := by
      intro ready
      cases ready with
      | error e => trivial
      | ok ready =>
        cases ready with
        | true => trivial
        | false =>
          intro migrated
          cases migrated with
          | error e => trivial
          | ok u => exact Requests.spends_call (FeedbackOp.setSchemaReady _)
    have hwrite : Requests.Spends feedbackService.write
        (FeedbackRepository.writeRating r.key rating) {(r.key, rating)} := by
      cases rating with
      | none => exact Requests.spends_call (FeedbackOp.executeDelete _)
      | some v => exact Requests.spends_call (FeedbackOp.executeUpsert _ _)
    have hboth := Requests.spends_bind hschema fun _ => hwrite
    rwa [Multiset.zero_add] at hboth

/-- What a reader is told, if it is told anything. -/
theorem get?_of_run_verdicts {libraryId folderKey : String} {d : OrderedDict ℤ Verdict}
    (h : (run feedbackWorld (FeedbackRepository.verdicts libraryId folderKey) s).1 = .ok d)
    (postId : ℤ) : d.get? postId = s.db.visible ⟨libraryId, folderKey, postId⟩ := by
  simp only [FeedbackRepository.verdicts, attempt_call_bind, run, feedbackWorld,
    FeedbackDb.fetch] at h
  unfold FeedbackDb.visible
  cases ht : s.db.table with
  | ok t =>
    rw [ht] at h
    simp only at h ⊢
    split_ifs at h
    · obtain rfl := Except.ok.inj h
      exact t.get?_select libraryId folderKey postId
    · cases h
  | error e =>
    rw [ht] at h
    simp only at h ⊢
    cases e <;> first | cases h; rfl | cases h

/-- Nothing but a NUL keeps a reader from an answer. -/
theorem run_verdicts (s : FeedbackServer) {libraryId folderKey : String} (hlib : isText libraryId)
    (hkey : isText folderKey) : ∃ d,
    run feedbackWorld (FeedbackRepository.verdicts libraryId folderKey) s = (.ok d, s) := by
  simp only [FeedbackRepository.verdicts, attempt_call_bind, run, feedbackWorld,
    FeedbackDb.fetch, hlib, hkey]
  cases ht : s.db.table with
  | ok t => exact ⟨_, rfl⟩
  | error e =>
    have hundefined : e = .undefinedTable ∨ e = .undefinedColumn := by
      unfold FeedbackDb.table at ht
      split at ht
      · exact .inl (Except.error.inj ht).symm
      · split_ifs at ht
        exact .inr (Except.error.inj ht).symm
    obtain rfl | rfl := hundefined <;> exact ⟨_, rfl⟩

theorem Recorded.visible (h : Recorded D s L) (hs : s.db.Migrated) :
    s.db.visible = ratings D.rated L := by
  obtain ⟨t, ht, -⟩ := hs
  rw [← h.stored t ht]
  funext k
  exact FeedbackDb.visible_of_table ht k

theorem run_ensureSchema (h : Recorded D s L) (process : ℕ) :
    ∃ t, run feedbackWorld (FeedbackRepository.ensureSchema process) s = (.ok (), t) ∧
      Recorded D t L ∧ t.db.Migrated := by
  by_cases hready : process ∈ s.ready
  · refine ⟨s, ?_, h, h.ready (List.ne_nil_of_mem hready)⟩
    simp only [FeedbackRepository.ensureSchema, run_bind, run_call, feedbackWorld, hready]
    rfl
  · have hschema := h.ensureSchema
    have hmigrated := s.db.migrated_ensureSchema
    refine ⟨{ db := s.db.ensureSchema, ready := process :: s.ready }, ?_,
      ⟨hschema.stored, hschema.untouched, hschema.indexes, fun _ => hmigrated⟩, hmigrated⟩
    simp only [FeedbackRepository.ensureSchema, run_bind, run_call, feedbackWorld, hready]
    rfl

theorem write_returns (hs : s.db.Migrated) {k : RatingKey} (hk : k.fits) (hroom : s.db.indexes k)
    (rating : Rating) : (s.write k rating).1 = .ok () := by
  obtain ⟨t, ht, hall⟩ := hs
  cases rating with
  | none => simp [FeedbackServer.write, hk, ht]
  | some v => simp [FeedbackServer.write, hk, ht, hroom, hall, mem_feedbackVerdicts]

theorem run_writeRating (s : FeedbackServer) (k : RatingKey) (rating : Rating) :
    run feedbackWorld (FeedbackRepository.writeRating k rating) s = s.write k rating := by
  cases rating <;> exact run_call feedbackWorld _ s

theorem run_setVerdict (h : Recorded D s L) {r : FeedbackRequest} {rating : Rating}
    (hrating : ratingOf r.verdict = some rating) (hk : r.key.fits) (hroom : D.indexes r.key) :
    ∃ t, run feedbackWorld (feedbackService.program r) s = (.ok (), t) ∧
      t.db.visible = ratings D.rated (L ++ [(r.key, rating)]) := by
  obtain ⟨t, hrun, hrecorded, hmigrated⟩ := run_ensureSchema h r.process
  have hok : (t.write r.key rating).1 = .ok () :=
    write_returns hmigrated hk (hrecorded.indexes ▸ hroom) rating
  refine ⟨(t.write r.key rating).2, ?_, ?_⟩
  · show run _ (FeedbackRepository.setVerdict r.process r.key r.verdict) s = _
    simp only [FeedbackRepository.setVerdict, hrating]
    rw [run_bind, hrun]
    exact (run_writeRating t r.key rating).trans (Prod.ext hok rfl)
  · have hafter := hrecorded.write r.key rating
    rw [hok] at hafter
    exact hafter.visible (migrated_write t r.key rating hmigrated)

variable {T : Requests.State FeedbackOp FeedbackOp.Ans FeedbackExc Unit FeedbackServer
  (RatingKey × Rating) FeedbackRequest}

theorem sound_of_run (h : Requests.Run feedbackService (Requests.start ⟨D, []⟩) T) :
    Requests.Sound (Recorded D) (fun s => s.db.Migrated) AsksAllowed Answered RatingStored T :=
  (Requests.sound_start (recorded_start D)).run (explained D)
    (fun r L c _ => promises_setVerdict r L c) h

/-- Before the table can be named, nothing was written. -/
theorem Recorded.visible_or (h : Recorded D s L) :
    s.db.visible = ratings D.rated L ∨ s.db = D ∧ L = [] := by
  by_cases hold : ∃ t, s.db.table = .ok t
  · obtain ⟨t, ht⟩ := hold
    left
    rw [← h.stored t ht]
    funext k
    exact FeedbackDb.visible_of_table ht k
  · exact .inr (h.untouched (not_exists.mp hold))

theorem answered_of_run (h : Requests.Run feedbackService (Requests.start ⟨D, []⟩) T)
    {r : FeedbackRequest} {rating : Rating} (hrating : ratingOf r.verdict = some rating)
    (hk : r.key.fits) (hroom : D.indexes r.key) :
    ∃ t, Requests.Run feedbackService T t ∧ t.replies = ⟨r, T.log, t.log, ()⟩ :: T.replies ∧
      t.object.db.visible = ratings D.rated (T.log ++ [(r.key, rating)]) := by
  obtain ⟨y, hrun, hvisible⟩ := run_setVerdict (sound_of_run h).object hrating hk hroom
  obtain ⟨M, hreach⟩ := Requests.run_request (S := feedbackService) (s := T) (r := r) hrun
  exact ⟨_, hreach, rfl, hvisible⟩

/-- However requests to any processes overlap, are killed or lose their connections, and whichever
tables there were at first: a reader sees the last rating on record for each post, and below the
record what was ever rated under either name of the table, unless nothing was written yet. Every
answered request is on record between its start and its answer, nothing is on record twice or
without a request, and a request that nothing disturbs is answered if its key is one that the
columns and their index take. -/
theorem ratings_linearised (h : Requests.Run feedbackService (Requests.start ⟨D, []⟩) T) :
    (∀ libraryId folderKey, isText libraryId → isText folderKey → ∃ d,
      run feedbackWorld (FeedbackRepository.verdicts libraryId folderKey) T.object =
        (.ok d, T.object) ∧
      ∀ postId, d.get? postId = T.object.db.visible ⟨libraryId, folderKey, postId⟩) ∧
    (T.object.db.visible = ratings D.rated T.log ∨ T.object.db = D ∧ T.log = []) ∧
    (∀ r ∈ T.replies, ∃ rating before, ratingOf r.request.verdict = some rating ∧
      r.seen <+: before ∧ before ++ [(r.request.key, rating)] <+: r.done ∧ r.done <+: T.log) ∧
    (T.log : Multiset (RatingKey × Rating)) ≤ (T.sent.map FeedbackRequest.asks).sum ∧
    ∀ r rating, ratingOf r.verdict = some rating → r.key.fits → D.indexes r.key →
      ∃ t, Requests.Run feedbackService T t ∧
        t.replies = ⟨r, T.log, t.log, ()⟩ :: T.replies ∧
        t.object.db.visible = ratings D.rated (T.log ++ [(r.key, rating)]) := by
  have hsound := sound_of_run h
  have hrecorded : Recorded D T.object T.log := hsound.object
  refine ⟨fun libraryId folderKey hlib hkey => ?_, hrecorded.visible_or, fun r hr => ?_,
    Requests.log_le_asked spends_setVerdict h, fun r rating hrating hk hroom => ?_⟩
  · obtain ⟨d, hrun⟩ := run_verdicts T.object hlib hkey
    exact ⟨d, hrun, get?_of_run_verdicts (congrArg Prod.fst hrun)⟩
  · obtain ⟨-, hdone, rating, hrating, before, hseen, hwritten⟩ := hsound.replies r hr
    exact ⟨rating, before, hrating, hseen, hwritten, hdone⟩
  · exact answered_of_run h hrating hk hroom

/-- One `yes` in a table of the first version. -/
def firstVersionDb : FeedbackDb where
  recommendationFeedback := some
    { keyColumn := .playlistKey
      rows := OrderedDict.empty.set ⟨"main", "folder:1", 7⟩ .yes
      admitted := [.yes, .no]
      checked := by decide }
  folderSuggestionFeedback := none

/-- A post is rated and cleared again, on top of a rating in a table of the first version. -/
theorem ratings_linearised_firstVersion :
    ∃ rated cleared : Requests.State FeedbackOp FeedbackOp.Ans FeedbackExc Unit FeedbackServer
        (RatingKey × Rating) FeedbackRequest,
      Requests.Run feedbackService (Requests.start ⟨firstVersionDb, []⟩) rated ∧
      rated.object.db.visible ⟨"main", "folder:1", 7⟩ = some .yes ∧
      rated.object.db.visible ⟨"main", "folder:1", 8⟩ = some .veryNo ∧
      Requests.Run feedbackService rated cleared ∧ cleared.replies.length = 2 ∧
      cleared.object.db.visible ⟨"main", "folder:1", 8⟩ = none ∧
      ∃ first between, first ++ (⟨"main", "folder:1", 8⟩, some .veryNo) :: between ++
        [(⟨"main", "folder:1", 8⟩, none)] <+: cleared.log := by
  obtain ⟨-, -, -, -, hfirst⟩ :=
    ratings_linearised (.refl : Requests.Run feedbackService
      (Requests.start ⟨firstVersionDb, []⟩) _)
  obtain ⟨rated, hrate, hreply, hrated⟩ :=
    hfirst ⟨0, ⟨"main", "folder:1", 8⟩, "very_no"⟩ (some .veryNo) (by decide) (by decide) rfl
  obtain ⟨-, -, hdone, -, hnext⟩ := ratings_linearised hrate
  obtain ⟨cleared, hclear, hreplies, hcleared⟩ :=
    hnext ⟨0, ⟨"main", "folder:1", 8⟩, "clear"⟩ none (by decide) (by decide) rfl
  obtain ⟨-, -, hall, -, -⟩ := ratings_linearised (hrate.trans hclear)
  refine ⟨rated, cleared, hrate, ?_, ?_, hclear, ?_, ?_, ?_⟩
  · rw [hrated]
    decide
  · rw [hrated]
    decide
  · rw [hreplies, hreply]
    rfl
  · rw [hcleared, ratings_append, Function.update_self]
  · obtain ⟨rating, before, hrating, -, hwritten, hlog⟩ :=
      hdone _ (hreply ▸ List.mem_cons_self)
    obtain ⟨rating', before', hrating', hseen, hwritten', hlog'⟩ :=
      hall _ (hreplies ▸ List.mem_cons_self)
    obtain rfl := Option.some.inj hrating
    obtain rfl := Option.some.inj hrating'
    obtain ⟨between, hbetween⟩ := (hwritten.trans hlog).trans hseen
    refine ⟨before, between, ?_⟩
    have hboth := hwritten'.trans hlog'
    rw [← hbetween] at hboth
    simpa using hboth

end FolderSuggestion
end RagPipeline
