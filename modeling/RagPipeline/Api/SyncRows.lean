import Mathlib.Data.Multiset.Bind
import Mathlib.Order.CompletePartialOrder
import RagPipeline.Api.LibraryNames
import RagPipeline.Lib.Requests
import RagPipeline.Repository.Freshness

namespace RagPipeline
open Coro

structure RowSyncResult where
  rowId : ℤ
  status : SyncStatus
  success : Bool
  error : Option String
deriving DecidableEq

inductive RowSyncOp (Row : Type) where
  | ensureTable (tableName : String)
  | row (op : RowOp Row)

abbrev RowSyncOp.Ans {Row : Type} : RowSyncOp Row → Type
  | ensureTable _ => Unit
  | row op => op.Ans

abbrev RowSyncCoro (Row : Type) := Coro (RowSyncOp Row) RowSyncOp.Ans PyExc

section Routes

variable {Row : Type} [Timestamped Row]

/-- The body of the loop: an exception becomes the row's own error result. -/
def syncRow (tableName : String) (row : Row) : RowSyncCoro Row RowSyncResult :=
  attempt (do
    let (syncStatus, _) ← embed RowSyncOp.row (freshUpsert row tableName)
    ret ⟨Timestamped.key row, syncStatus, true, none⟩)
  fun exc => ret ⟨Timestamped.key row, .error, false, some exc.str⟩

def syncEachRow (tableName : String) : List Row → RowSyncCoro Row (List RowSyncResult)
  | [] => ret []
  | row :: rest => do
    let result ← syncRow tableName row
    let results ← syncEachRow tableName rest
    ret (result :: results)

/-- Both routes. -/
def syncRows (tableName : String) (rows : List Row) : RowSyncCoro Row (List RowSyncResult) := do
  let _ : Unit ← call (RowSyncOp.ensureTable (asciiLower tableName))
  syncEachRow tableName rows

end Routes

structure FolderSyncRequest where
  folders : List Folder
  libraryId : String
  valid : validateLibraryId libraryId = .ok libraryId

structure HighlightSyncRequest where
  highlights : List Highlight
  libraryId : String
  valid : validateLibraryId libraryId = .ok libraryId

def syncFolders (req : FolderSyncRequest) : RowSyncCoro Folder (List RowSyncResult) :=
  syncRows (folderTable req.libraryId) req.folders

def syncHighlights (req : HighlightSyncRequest) : RowSyncCoro Highlight (List RowSyncResult) :=
  syncRows (highlightTable req.libraryId) req.highlights

/-- The relations that exist, and their rows. -/
structure RowDb (Row : Type) where
  tables : List String
  rows : RowStore Row

/-- Rows whose values the columns of their table take or refuse. -/
class Columned (Row : Type) extends Timestamped Row where
  fits : Row → Bool
  isInteger_key : ∀ row, fits row = true → isInteger (Timestamped.key row) = true

/-- `folder_id INTEGER`, `name TEXT`, `parent_id INTEGER` and two of `TIMESTAMPTZ`. -/
def Folder.fits (folder : Folder) : Bool :=
  isInteger folder.folderId && isText folder.name && folder.parentId.all isInteger &&
    isTimestamp folder.createdAt && isTimestamp folder.updatedAt

/-- `highlight_id` and `post_id INTEGER`, `text` and `note TEXT`, the offsets and the timestamps. -/
def Highlight.fits (highlight : Highlight) : Bool :=
  isInteger highlight.highlightId && isInteger highlight.postId && isText highlight.text &&
    highlight.note.all isText && highlight.startOffset.all isInteger &&
    highlight.endOffset.all isInteger && isTimestamp highlight.createdAt &&
    isTimestamp highlight.updatedAt

instance : Columned Folder where
  fits := Folder.fits
  isInteger_key folder h := by
    simp only [Folder.fits, Bool.and_eq_true] at h
    exact h.1.1.1.1

instance : Columned Highlight where
  fits := Highlight.fits
  isInteger_key highlight h := by
    simp only [Highlight.fits, Bool.and_eq_true] at h
    exact h.1.1.1.1.1.1.1

section Tables

variable {Row : Type} [Columned Row]

def undefinedTable : PyExc := .other "relation does not exist"

def dataError : PyExc := .other "invalid input for query argument"

def RowOp.onRelation : RowOp Row → String
  | fetchUpdatedAt _ tableName => relation tableName
  | executeUpsert _ tableName => relation tableName

/-- The arguments of a statement are values of the columns that it compares or sets. -/
def RowOp.fits : RowOp Row → Bool
  | fetchUpdatedAt key _ => isInteger key
  | executeUpsert row _ => Columned.fits row

def RowOp.refusal (op : RowOp Row) (s : RowDb Row) : Option PyExc :=
  if op.onRelation ∈ s.tables then
    if op.fits then none else some dataError
  else some undefinedTable

def rowSyncWorld : World (RowSyncOp Row) RowSyncOp.Ans PyExc (RowDb Row)
  | .ensureTable tableName, s => (.ok (), { s with tables := relation tableName :: s.tables })
  | .row op, s =>
    match op.refusal s with
    | none => ((rowWorld op s.rows).1, { s with rows := (rowWorld op s.rows).2 })
    | some e => (.error e, s)

theorem RowOp.refusal_of_fits {op : RowOp Row} {s : RowDb Row} (h : op.onRelation ∈ s.tables)
    (hfits : op.fits = true) : op.refusal s = none := by
  rw [refusal, if_pos h, if_pos hfits]

theorem rowSyncWorld_of_taken {op : RowOp Row} {s : RowDb Row} (h : op.refusal s = none) :
    rowSyncWorld (.row op) s =
      ((rowWorld op s.rows).1, { s with rows := (rowWorld op s.rows).2 }) := by
  simp only [rowSyncWorld, h]

theorem rowSyncWorld_of_refused {op : RowOp Row} {s : RowDb Row} {e : PyExc}
    (h : op.refusal s = some e) : rowSyncWorld (.row op) s = (.error e, s) := by
  simp only [rowSyncWorld, h]

theorem mem_tables_rowSyncWorld {u : String} (op : RowSyncOp Row) (s : RowDb Row)
    (h : u ∈ s.tables) : u ∈ (rowSyncWorld op s).2.tables := by
  cases op with
  | ensureTable tableName => exact List.mem_cons_of_mem _ h
  | row op =>
    cases hrefusal : op.refusal s with
    | none => rwa [rowSyncWorld_of_taken hrefusal]
    | some e => rwa [rowSyncWorld_of_refused hrefusal]

def RowOp.write : RowOp Row → Option (String × Row)
  | fetchUpdatedAt .. => none
  | executeUpsert row tableName => some (tableName, row)

def rowSyncService {Req : Type} (table : Req → String) (rows : Req → List Row) :
    Requests.Service (RowSyncOp Row) RowSyncOp.Ans PyExc (List RowSyncResult) (RowDb Row)
      (String × Row) Req where
  world := rowSyncWorld
  write
    | .ensureTable _ => none
    | .row op => op.write
  program r := syncRows (table r) (rows r)

/-- The rows once these were written on top of others. -/
def RowStore.written (base : RowStore Row) (L : List (String × Row)) : RowStore Row :=
  L.foldl (fun db w => db.upsertRow w.1 w.2) base

theorem RowStore.written_append (base : RowStore Row) (L M : List (String × Row)) :
    base.written (L ++ M) = (base.written L).written M := List.foldl_append

theorem RowStore.upsertRow_eq (db : RowStore Row) (tableName : String) (row : Row) (u : String)
    (i : ℤ) : db.upsertRow tableName row u i =
      if u = relation tableName ∧ i = Timestamped.key row then
        LastWriter.write rowStamp (db u i) row else db u i := by
  by_cases h : u = relation tableName ∧ i = Timestamped.key row
  · obtain ⟨rfl, rfl⟩ := h
    rw [if_pos ⟨rfl, rfl⟩]
    exact db.upsertRow_key tableName row
  · rw [if_neg h]
    exact if_neg h

theorem RowStore.notOlder_written (base : RowStore Row) (L : List (String × Row)) (u : String)
    (i : ℤ) : LastWriter.NotOlder rowStamp (base u i) (base.written L u i) := by
  induction L generalizing base with
  | nil => exact LastWriter.notOlder_refl _
  | cons w L ih =>
    have hfirst : LastWriter.NotOlder rowStamp (base u i) (base.upsertRow w.1 w.2 u i) := by
      rw [RowStore.upsertRow_eq]
      split_ifs
      · exact LastWriter.notOlder_write _ _
      · exact LastWriter.notOlder_refl _
    exact hfirst.trans (ih (base.upsertRow w.1 w.2))

theorem RowStore.covers_written (base : RowStore Row) {L M : List (String × Row)}
    {tableName : String} {row : Row} (h : L ++ [(tableName, row)] <+: M) :
    LastWriter.Covers rowStamp (base.written M (relation tableName) (Timestamped.key row)) row := by
  obtain ⟨rest, rfl⟩ := h
  rw [RowStore.written_append, RowStore.written_append]
  refine LastWriter.Covers.mono ?_ (RowStore.notOlder_written _ rest _ _)
  show LastWriter.Covers rowStamp ((base.written L).upsertRow tableName row _ _) row
  rw [RowStore.upsertRow_key]
  exact LastWriter.covers_write _ _

theorem RowStore.eq_or_mem_of_written (base : RowStore Row) (L : List (String × Row)) {u : String}
    {i : ℤ} {row : Row} (h : base.written L u i = some row) :
    base u i = some row ∨ ∃ w ∈ L, w.2 = row ∧ relation w.1 = u ∧ Timestamped.key row = i := by
  induction L using List.reverseRec with
  | nil => exact .inl h
  | append_singleton L w ih =>
    rw [RowStore.written_append] at h
    have hlast : (base.written L).upsertRow w.1 w.2 u i = some row := h
    have hold : base.written L u i = some row → base u i = some row ∨
        ∃ w' ∈ L ++ [w], w'.2 = row ∧ relation w'.1 = u ∧ Timestamped.key row = i := by
      intro hL
      obtain hbase | ⟨w', hw', hrow⟩ := ih hL
      · exact .inl hbase
      · exact .inr ⟨w', List.mem_append_left _ hw', hrow⟩
    rw [RowStore.upsertRow_eq] at hlast
    split_ifs at hlast with hkey
    · by_cases hnew : LastWriter.Newer rowStamp (base.written L u i) w.2
      · rw [LastWriter.write_of_newer hnew] at hlast
        obtain rfl := Option.some.inj hlast
        exact .inr ⟨w, List.mem_append_right _ (List.mem_singleton_self w), rfl, hkey.1.symm,
          hkey.2.symm⟩
      · rw [LastWriter.write_of_covers (LastWriter.not_newer_iff.mp hnew)] at hlast
        exact hold hlast
    · exact hold hlast

variable {base : RowStore Row} {tableName : String} {row : Row} {seen : List (String × Row)}
  {c d : Requests.Record (String × Row)}

theorem RowStore.covers_mono (hcd : c ≤ d) {u : String} {i : ℤ}
    (h : LastWriter.Covers rowStamp (base.written c.writes u i) row) :
    LastWriter.Covers rowStamp (base.written d.writes u i) row := by
  obtain ⟨rest, hrest⟩ := hcd
  rw [← hrest, RowStore.written_append]
  exact h.mono (RowStore.notOlder_written _ rest u i)

def RowAnswered (base : RowStore Row) (seen : List (String × Row))
    (c : Unit × Requests.Record (String × Row)) : (op : RowSyncOp Row) → op.Ans → Prop
  | .row (.fetchUpdatedAt key tableName), a =>
    a = (base.written c.2.writes (relation tableName) key).map Timestamped.updatedAt
  | .row (.executeUpsert row tableName), _ => Requests.WrittenSince seen c.2 (tableName, row)
  | .ensureTable _, _ => True

structure RowResultTrue (base : RowStore Row) (tableName : String) (seen : List (String × Row))
    (c : Requests.Record (String × Row)) (row : Row) (result : RowSyncResult) : Prop where
  rowId : result.rowId = Timestamped.key row
  success : result.success = true ↔ result.status ≠ .error
  covered : result.success = true →
    LastWriter.Covers rowStamp
      (base.written c.writes (relation tableName) (Timestamped.key row)) row
  written : result.success = true → result.status ≠ .skipped →
    Requests.WrittenSince seen c (asciiLower tableName, row)

theorem RowResultTrue.mono {result : RowSyncResult} (hcd : c ≤ d)
    (h : RowResultTrue base tableName seen c row result) :
    RowResultTrue base tableName seen d row result :=
  ⟨h.rowId, h.success, fun hs => RowStore.covers_mono hcd (h.covered hs),
    fun hs hw => (h.written hs hw).mono hcd⟩

theorem promises_freshUpsert (base : RowStore Row) (seen : List (String × Row)) (row : Row)
    (tableName : String) (c : Unit × Requests.Record (String × Row)) :
    Promises (fun c op => RowAnswered base seen c (.row op)) (fun _ _ => True)
      (fun c r => r.1 ≠ .error ∧
        LastWriter.Covers rowStamp
          (base.written c.2.writes (relation tableName) (Timestamped.key row)) row ∧
        (r.1 ≠ .skipped → Requests.WrittenSince seen c.2 (asciiLower tableName, row)))
      (freshUpsert row tableName) c := by
  refine promises_call_bind (fun _ _ => trivial) fun d hd existing hexisting => ?_
  have hseen : existing = (base.written d.2.writes (relation tableName)
      (Timestamped.key row)).map Timestamped.updatedAt := by
    rw [← relation_asciiLower]
    exact hexisting
  cases hcheck : rowAtLeastAsFresh existing row with
  | error e => exact promises_raise e
  | ok fresh =>
    cases fresh with
    | true =>
      refine promises_ret fun e he => ⟨SyncStatus.noConfusion, ?_, fun h => absurd rfl h⟩
      apply RowStore.covers_mono he.2
      cases hrow : base.written d.2.writes (relation tableName) (Timestamped.key row) with
      | none =>
        rw [hseen, hrow] at hcheck
        cases hcheck
      | some old =>
        rw [hseen, hrow] at hcheck
        exact ⟨old, rfl, DateTime.le_of_ge hcheck⟩
    | false =>
      refine promises_call_bind (fun _ _ => trivial) fun e he _ hwritten => ?_
      have hstored : Requests.WrittenSince seen e.2 (asciiLower tableName, row) := hwritten
      refine promises_ret fun e' he' => ⟨?_, ?_, fun _ => hstored.mono he'.2⟩
      · dsimp only
        split_ifs <;> decide
      · obtain ⟨before, -, hbefore⟩ := hstored.mono he'.2
        have hcovers := RowStore.covers_written base hbefore
        rwa [relation_asciiLower] at hcovers

theorem promises_syncRow (base : RowStore Row) (seen : List (String × Row)) (tableName : String)
    (row : Row) (c : Unit × Requests.Record (String × Row)) :
    Promises (RowAnswered base seen) (fun _ _ => True)
      (fun c result => RowResultTrue base tableName seen c.2 row result)
      (syncRow tableName row) c := by
  refine Promises.attempt ?_ fun d hd e => promises_ret fun _ _ => ?_
  · have hupsert := Promises.embed (f := RowSyncOp.row) (A := RowAnswered base seen)
      (G := fun _ _ => True) (promises_freshUpsert base seen row tableName c)
    refine hupsert.bind fun d hd r hr => promises_ret fun e he => ?_
    obtain ⟨hstatus, hcovers, hwritten⟩ := hr
    exact ⟨rfl, iff_of_true rfl hstatus, fun _ => RowStore.covers_mono he.2 hcovers,
      fun _ hs => (hwritten hs).mono he.2⟩
  · exact ⟨rfl, by simp, fun h => (Bool.false_ne_true h).elim,
      fun h => (Bool.false_ne_true h).elim⟩

theorem promises_syncEachRow (base : RowStore Row) (seen : List (String × Row)) (tableName : String)
    (rows : List Row) (c : Unit × Requests.Record (String × Row)) :
    Promises (RowAnswered base seen) (fun _ _ => True)
      (fun c results => List.Forall₂ (RowResultTrue base tableName seen c.2) rows results)
      (syncEachRow tableName rows) c := by
  induction rows generalizing c with
  | nil => exact promises_ret fun _ _ => .nil
  | cons row rest ih =>
    refine (promises_syncRow base seen tableName row c).bind fun d hd result hresult => ?_
    refine (ih d).bind fun e he results hresults => promises_ret fun f hf => ?_
    exact .cons (hresult.mono (he.trans hf).2) (hresults.imp fun _ _ h => h.mono hf.2)

theorem spends_freshUpsert (row : Row) (tableName : String) :
    Requests.Spends RowOp.write (freshUpsert row tableName) {(asciiLower tableName, row)} := by
  have hlook : Requests.Spends RowOp.write (awaitRow (.fetchUpdatedAt (Timestamped.key row)
      (asciiLower tableName))) (0 : Multiset (String × Row)) := Requests.spends_call _
  have hwrite : Requests.Spends RowOp.write (awaitRow (.executeUpsert row (asciiLower tableName)))
      {(asciiLower tableName, row)} := Requests.spends_call _
  rw [← Multiset.zero_add {(asciiLower tableName, row)}]
  refine Requests.spends_bind hlook fun existing => ?_
  cases hcheck : rowAtLeastAsFresh existing row with
  | error e => trivial
  | ok fresh =>
    cases fresh with
    | true => trivial
    | false =>
      rw [← Multiset.add_zero {(asciiLower tableName, row)}]
      show Requests.Spends _ (awaitRow (.executeUpsert row (asciiLower tableName)) >>= _) _
      exact Requests.spends_bind hwrite fun _ => trivial

/-- What a batch asks to be written. -/
def rowWrites (tableName : String) (rows : List Row) : Multiset (String × Row) :=
  (rows.map fun row => (asciiLower tableName, row) : List (String × Row))

omit [Columned Row] in
theorem rowWrites_cons (tableName : String) (row : Row) (rows : List Row) :
    rowWrites tableName (row :: rows) =
      {(asciiLower tableName, row)} + rowWrites tableName rows := rfl

theorem spends_syncEachRow {Req : Type} (table : Req → String) (rowsOf : Req → List Row)
    (tableName : String) (rows : List Row) :
    Requests.Spends (rowSyncService table rowsOf).write (syncEachRow tableName rows)
      (rowWrites tableName rows) := by
  induction rows with
  | nil => trivial
  | cons row rest ih =>
    have hupsert : Requests.Spends (rowSyncService table rowsOf).write
        (embed RowSyncOp.row (freshUpsert row tableName) : RowSyncCoro Row _)
        {(asciiLower tableName, row)} :=
      Requests.spends_embed (f := RowSyncOp.row) (spends_freshUpsert row tableName)
    have hrow : Requests.Spends (rowSyncService table rowsOf).write (syncRow tableName row)
        {(asciiLower tableName, row)} := by
      apply Requests.spends_attempt
      · rw [← Multiset.add_zero {(asciiLower tableName, row)}]
        exact Requests.spends_bind hupsert fun _ => trivial
      · exact fun _ => trivial
    rw [rowWrites_cons]
    refine Requests.spends_bind hrow fun result => ?_
    rw [← Multiset.add_zero (rowWrites tableName rest)]
    exact Requests.spends_bind ih fun _ => trivial

theorem explained_rowSync {Req : Type} (table : Req → String) (rows : Req → List Row)
    (base : RowStore Row) : (rowSyncService table rows).Explained
      (fun s L => s.rows = base.written L) (fun _ => ()) (fun _ _ => True)
      (RowAnswered base) := by
  constructor
  · intro op x L hx _
    cases op with
    | ensureTable t => exact hx.trans (congrArg base.written (List.append_nil L).symm)
    | row op =>
      cases hrefusal : op.refusal x with
      | none =>
        show (rowSyncWorld (.row op) x).2.rows = _
        cases op with
        | fetchUpdatedAt key t =>
          rw [Requests.Service.written_of_none _ rfl, List.append_nil,
            rowSyncWorld_of_taken hrefusal]
          exact hx
        | executeUpsert row t =>
          rw [Requests.Service.written_of_some _ rfl]
          show _ = base.written (L ++ if (rowSyncWorld _ x).1.isOk then _ else _)
          rw [rowSyncWorld_of_taken hrefusal, RowStore.written_append, ← hx]
          rfl
      | some e =>
        show (rowSyncWorld (.row op) x).2.rows =
          base.written (L ++ Requests.Service.written _ _ (rowSyncWorld (.row op) x).1)
        rw [rowSyncWorld_of_refused hrefusal]
        exact hx.trans (congrArg base.written (List.append_nil L).symm)
  · exact fun _ _ _ _ _ => le_rfl
  · intro op x L seen a hx _ hseen ha
    cases op with
    | ensureTable t => trivial
    | row op =>
      replace ha : (rowSyncWorld (.row op) x).1 = .ok a := ha
      cases hrefusal : op.refusal x with
      | none =>
        rw [rowSyncWorld_of_taken hrefusal] at ha
        cases op with
        | fetchUpdatedAt key t =>
          obtain rfl := Except.ok.inj ha
          show _ = (base.written (L ++ []) _ _).map _
          rw [List.append_nil, ← hx]
        | executeUpsert row t => exact Requests.writtenSince_last hseen (t, row)
      | some e =>
        rw [rowSyncWorld_of_refused hrefusal] at ha
        cases ha

theorem rowAtLeastAsFresh_ok (haware : ∀ row : Row, (Timestamped.updatedAt row).aware = true)
    (old : Option Row) (row : Row) :
    ∃ fresh, rowAtLeastAsFresh (old.map Timestamped.updatedAt) row = .ok fresh := by
  cases old with
  | none => exact ⟨false, rfl⟩
  | some old => exact ⟨_, if_pos ((haware old).trans (haware row).symm)⟩

theorem run_freshUpsert_returns (haware : ∀ row : Row, (Timestamped.updatedAt row).aware = true)
    {row : Row} (hfits : Columned.fits row = true) {s : RowDb Row}
    (h : relation tableName ∈ s.tables) :
    ∃ r t, run (fun op => rowSyncWorld (.row op)) (freshUpsert row tableName) s = (.ok r, t) := by
  have hlower : relation (asciiLower tableName) ∈ s.tables := by rwa [relation_asciiLower]
  have hlook : (RowOp.fetchUpdatedAt (Timestamped.key row) (asciiLower tableName)).refusal s =
      none := RowOp.refusal_of_fits hlower (Columned.isInteger_key row hfits)
  apply run_bind_returns
  · exact run_call_returns _ ⟨_, _, rowSyncWorld_of_taken hlook⟩
  · intro existing s' hseen
    rw [run_call, rowSyncWorld_of_taken hlook] at hseen
    cases hseen
    obtain ⟨fresh, hfresh⟩ := rowAtLeastAsFresh_ok haware
      (s.rows (relation (asciiLower tableName)) (Timestamped.key row)) row
    rw [hfresh]
    cases fresh with
    | true => exact ⟨_, _, rfl⟩
    | false =>
      show ∃ r t, run _ (awaitRow (.executeUpsert row (asciiLower tableName)) >>= _) _ = _
      apply run_bind_returns
      · exact run_call_returns _
          ⟨_, _, rowSyncWorld_of_taken (RowOp.refusal_of_fits hlower hfits)⟩
      · intro stored s'' _
        exact ⟨_, _, rfl⟩

/-- An exception is no reason not to answer. -/
theorem run_syncRow_returns (haware : ∀ row : Row, (Timestamped.updatedAt row).aware = true)
    (row : Row) {s : RowDb Row} (h : relation tableName ∈ s.tables) :
    ∃ result t, run rowSyncWorld (syncRow tableName row) s = (.ok result, t) ∧
      (Columned.fits row = true → result.success = true) := by
  rw [syncRow, run_attempt, run_bind, run_embed]
  cases hupsert : run (fun op => rowSyncWorld (.row op)) (freshUpsert row tableName) s with
  | mk outcome t =>
    cases outcome with
    | ok r => exact ⟨_, t, rfl, fun _ => rfl⟩
    | error e =>
      refine ⟨_, t, rfl, fun hfits => ?_⟩
      obtain ⟨r, t', hreturns⟩ := run_freshUpsert_returns haware hfits h
      rw [hupsert] at hreturns
      cases hreturns

theorem run_syncEachRow_returns (haware : ∀ row : Row, (Timestamped.updatedAt row).aware = true)
    (rows : List Row) {s : RowDb Row} (h : relation tableName ∈ s.tables) :
    ∃ results t, run rowSyncWorld (syncEachRow tableName rows) s = (.ok results, t) ∧
      List.Forall₂ (fun row result => Columned.fits row = true → result.success = true)
        rows results := by
  induction rows generalizing s with
  | nil => exact ⟨[], s, rfl, .nil⟩
  | cons row rest ih =>
    obtain ⟨result, t, hrow, hsuccess⟩ := run_syncRow_returns haware row h
    have htables : relation tableName ∈ t.tables := by
      have hkept := run_invariant rowSyncWorld (mem_tables_rowSyncWorld (u := relation tableName))
        (syncRow tableName row) h
      rwa [hrow] at hkept
    obtain ⟨results, u, hrest, hall⟩ := ih htables
    refine ⟨result :: results, u, ?_, .cons hsuccess hall⟩
    rw [syncEachRow, run_bind, hrow]
    dsimp only
    rw [run_bind, hrest]
    rfl

theorem run_syncRows_returns (haware : ∀ row : Row, (Timestamped.updatedAt row).aware = true)
    (tableName : String) (rows : List Row) (s : RowDb Row) :
    ∃ results t, run rowSyncWorld (syncRows tableName rows) s = (.ok results, t) ∧
      List.Forall₂ (fun row result => Columned.fits row = true → result.success = true)
        rows results := by
  have htable : relation tableName ∈ relation (asciiLower tableName) :: s.tables := by
    rw [relation_asciiLower]
    exact List.mem_cons_self
  exact run_syncEachRow_returns haware rows htable

end Tables

abbrev folderSyncService := rowSyncService (fun r : FolderSyncRequest => folderTable r.libraryId)
  FolderSyncRequest.folders

abbrev highlightSyncService :=
  rowSyncService (fun r : HighlightSyncRequest => highlightTable r.libraryId)
    HighlightSyncRequest.highlights

example (req : FolderSyncRequest) : folderSyncService.program req = syncFolders req := rfl

example (req : HighlightSyncRequest) : highlightSyncService.program req = syncHighlights req := rfl

def later : Folder := ⟨4, "later", none, ⟨0, true⟩, ⟨9, true⟩, false, rfl, rfl⟩

/-- A folder whose id is no `INTEGER`. -/
def tooLarge : Folder := ⟨2147483648, "large", none, ⟨0, true⟩, ⟨9, true⟩, false, rfl, rfl⟩

def readLater : FolderSyncRequest where
  folders := [tooLarge, later]
  libraryId := "reading"
  valid := by decide

end RagPipeline
