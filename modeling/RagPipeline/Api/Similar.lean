import RagPipeline.Api.Search
import RagPipeline.Handlers.Rechunk
import RagPipeline.Lib.Listing
import RagPipeline.Lib.MapM
import Mathlib.Algebra.BigOperators.Group.List.Basic
import Mathlib.Algebra.Order.Ring.Rat
import Mathlib.Data.List.GetD

namespace RagPipeline
open Coro

structure SimilarRequest where
  postId : ℤ
  chunkType : String
  k : ℤ
  libraryId : String
  chunkType_valid : chunkType ∈ embedConfigs.keys
  k_bounds : 0 < k ∧ k ≤ 999
  libraryId_valid : validateLibraryId libraryId = .ok libraryId

structure SimilarResponse where
  postId : ℤ
  chunkType : String
  chunksAveraged : ℕ
  results : List SearchResult
deriving DecidableEq

inductive SimilarOp where
  | getPostEmbeddings (postId : ℤ) (tableName : String)
  | searchNearest (tableName : String) (queryVector : Vec) (k : ℤ) (excludePostId : Option ℤ)

abbrev SimilarOp.Ans : SimilarOp → Type
  | getPostEmbeddings .. => List Vec
  | searchNearest .. => List ScoredChunk

/-- What `find_similar` raises: its HTTP errors, or what its dependencies raise. -/
inductive SimilarExc where
  | noChunkTable (libraryId chunkType : String)
  | noBodyChunks (postId : ℤ) (libraryId : String)
  | noChunk (chunkType : String) (postId : ℤ) (libraryId : String)
  | exc (e : PyExc)
deriving DecidableEq

namespace SimilarExc

def statusCode : SimilarExc → ℕ
  | noChunkTable .. | noBodyChunks .. | noChunk .. => 404
  | exc _ => 500

/-- `repr` of a validated string: a line break is all that it may have to escape. -/
def quoted (s : String) : String :=
  "'" ++ String.ofList (s.toList.flatMap fun c => if c = '\n' then ['\\', 'n'] else [c]) ++ "'"

def detail : SimilarExc → String
  | noChunkTable libraryId chunkType =>
    "No chunk table found for library " ++ quoted libraryId ++ " and chunk_type " ++
      quoted chunkType ++ " — has this library been synced yet?"
  | noBodyChunks postId libraryId =>
    "No embedded 'body' chunks found for post " ++ toString postId ++ " in library " ++
      quoted libraryId
  | noChunk chunkType postId libraryId =>
    "No embedded " ++ quoted chunkType ++ " chunk found for post " ++ toString postId ++
      " in library " ++ quoted libraryId
  | exc e => e.str

end SimilarExc

abbrev SimilarCoro := Coro SimilarOp SimilarOp.Ans SimilarExc

abbrev awaitSimilar (op : SimilarOp) : SimilarCoro op.Ans := call op

/-- `[sum(e[i] for e in embeddings) / n for i in range(dim)]`, unless an index is out of range. -/
def averaged (embeddings : List Vec) (dim : ℕ) : Option Vec :=
  (List.range dim).mapM fun i =>
    (embeddings.mapM fun e => e[i]?).map fun column => column.sum / embeddings.length

/-- How many chunks are averaged, and the vector that is searched with. -/
def queryVector (req : SimilarRequest) (embeddings : List Vec) : Except SimilarExc (ℕ × Vec) :=
  if req.chunkType = "body" then
    match embeddings with
    | [] => .error (.noBodyChunks req.postId req.libraryId)
    | e :: es =>
      match averaged (e :: es) e.length with
      | some query => .ok ((e :: es).length, query)
      | none => .error (.exc (.other "list index out of range"))
  else
    match embeddings with
    | [] => .error (.noChunk req.chunkType req.postId req.libraryId)
    | e :: _ => .ok (1, e)

def ScoredChunk.toSearchResult (r : ScoredChunk) : SearchResult :=
  ⟨r.id, r.postId, r.text, r.metadata, r.score⟩

def SimilarRequest.chunksTable (req : SimilarRequest) (cfg : EmbedConfig) : String :=
  buildChunkTableName ("posts_" ++ req.libraryId) req.chunkType cfg.primary

def findSimilar (req : SimilarRequest) : SimilarCoro SimilarResponse :=
  match embedConfigs.get? req.chunkType with
  | none => raise (.exc (.other req.chunkType))
  | some cfg => do
    let embeddings ← (awaitSimilar (.getPostEmbeddings req.postId (req.chunksTable cfg))).attempt
      fun
        | .exc (.chunkTableNotFound _) => raise (.noChunkTable req.libraryId req.chunkType)
        | e => raise e
    let query ← ofExcept (queryVector req embeddings)
    let rawResults ← awaitSimilar
      (.searchNearest (req.chunksTable cfg) query.2 req.k (some req.postId))
    ret {
      postId := req.postId
      chunkType := req.chunkType
      chunksAveraged := query.1
      results := rawResults.map ScoredChunk.toSearchResult }

def ChunkRepository.postEmbeddings (rows : List StoredChunk) (postId : ℤ) : List Vec :=
  (rows.filter fun r => r.postId = postId).filterMap StoredChunk.embedding

/-- What `search_nearest` returns or raises. -/
abbrev NearestSearch := String → Vec → ℤ → Option ℤ → Except PyExc (List ScoredChunk)

/-- The state is the vectors that were searched with; `get_post_embeddings` has no `ORDER BY`. -/
def similarWorld (tables : ChunkTables) (nearest : NearestSearch) (order : Listing Vec) :
    World SimilarOp SimilarOp.Ans SimilarExc (List Vec)
  | .getPostEmbeddings postId t, searched =>
    match tables (relation t) with
    | some table => (.ok (order.list (ChunkRepository.postEmbeddings table.rows postId)), searched)
    | none => (.error (.exc (.chunkTableNotFound (asciiLower t))), searched)
  | .searchNearest t query k excludePostId, searched =>
    ((nearest t query k excludePostId).mapError .exc, searched ++ [query])

/-- In whatever order the embeddings come, the same vector is searched with and the same response
is returned. -/
def OrderFreeSearch (tables : ChunkTables) (req : SimilarRequest) : Prop :=
  ∀ (nearest : NearestSearch) (order order' : Listing Vec),
    run (similarWorld tables nearest order) (findSimilar req) [] =
      run (similarWorld tables nearest order') (findSimilar req) []

theorem averaged_of_length {embeddings : List Vec} {dim : ℕ}
    (h : ∀ e ∈ embeddings, e.length = dim) :
    averaged embeddings dim = some ((List.range dim).map fun i =>
      (embeddings.map fun e => e.getD i 0).sum / embeddings.length) := by
  apply MapM.mapM_of_forall
  intro i hi
  have hcolumn : embeddings.mapM (fun e => e[i]?) = some (embeddings.map fun e => e.getD i 0) := by
    apply MapM.mapM_of_forall
    intro e he
    have hlt : i < e.length := by
      rw [h e he]
      exact List.mem_range.mp hi
    rw [List.getElem?_eq_getElem hlt, List.getD_eq_getElem e 0 hlt]
  rw [hcolumn]
  rfl

variable {req : SimilarRequest}

/-- A sum does not depend on the order of its terms. -/
theorem queryVector_of_body (hbody : req.chunkType = "body") {dim : ℕ} {l l' : List Vec}
    (hperm : l.Perm l') (hdim : ∀ e ∈ l, e.length = dim) :
    queryVector req l = queryVector req l' := by
  have hdim' : ∀ e ∈ l', e.length = dim := by
    intro e he
    exact hdim e (hperm.mem_iff.mpr he)
  have hlength : l.length = l'.length := hperm.length_eq
  have haveraged : averaged l dim = averaged l' dim := by
    rw [averaged_of_length hdim, averaged_of_length hdim', hlength]
    congr 2
    funext i
    rw [(hperm.map fun e => e.getD i 0).sum_eq]
  unfold queryVector
  rw [if_pos hbody, if_pos hbody]
  cases l with
  | nil => rw [List.eq_nil_of_length_eq_zero hlength.symm]
  | cons e es =>
    cases l' with
    | nil => exact absurd hlength (Nat.succ_ne_zero _)
    | cons e' es' =>
      simp only
      rw [hdim e List.mem_cons_self, hdim' e' List.mem_cons_self, haveraged, hlength]

theorem queryVector_of_not_body (h : req.chunkType ≠ "body") (l : List Vec) :
    queryVector req l = match l.head? with
      | none => .error (.noChunk req.chunkType req.postId req.libraryId)
      | some e => .ok (1, e) := by
  unfold queryVector
  rw [if_neg h]
  cases l <;> rfl

/-- The search after the embeddings are read, and the vectors that it is made with. -/
def searchWith (nearest : NearestSearch) (req : SimilarRequest) (table : String)
    (embeddings : List Vec) : Except SimilarExc SimilarResponse × List Vec :=
  match queryVector req embeddings with
  | .error e => (.error e, [])
  | .ok query =>
    (((nearest table query.2 req.k (some req.postId)).mapError SimilarExc.exc).map fun rows =>
      ⟨req.postId, req.chunkType, query.1, rows.map ScoredChunk.toSearchResult⟩, [query.2])

section Run

variable {tables : ChunkTables} {nearest : NearestSearch} {order : Listing Vec} {cfg : EmbedConfig}

theorem run_findSimilar_none (hcfg : embedConfigs.get? req.chunkType = some cfg)
    (h : tables (relation (req.chunksTable cfg)) = none) :
    run (similarWorld tables nearest order) (findSimilar req) [] =
      (.error (.noChunkTable req.libraryId req.chunkType), []) := by
  unfold findSimilar
  simp only [hcfg]
  rw [run_bind, run_attempt, run_call]
  simp only [similarWorld, h, run_raise]

theorem run_findSimilar_some {table : ChunkTable}
    (hcfg : embedConfigs.get? req.chunkType = some cfg)
    (h : tables (relation (req.chunksTable cfg)) = some table) :
    run (similarWorld tables nearest order) (findSimilar req) [] =
      searchWith nearest req (req.chunksTable cfg)
        (order.list (ChunkRepository.postEmbeddings table.rows req.postId)) := by
  unfold findSimilar searchWith
  simp only [hcfg]
  rw [run_bind, run_attempt, run_call]
  simp only [similarWorld, h]
  rw [run_bind, run_ofExcept]
  cases queryVector req (order.list (ChunkRepository.postEmbeddings table.rows req.postId)) with
  | error e => rfl
  | ok query =>
    simp only
    rw [run_bind, run_call]
    simp only [similarWorld]
    cases nearest (req.chunksTable cfg) query.2 req.k (some req.postId) <;> rfl

end Run

/-- With a missing table nothing is read, and otherwise the order of what is read matters. -/
theorem orderFreeSearch_iff {tables : ChunkTables} {cfg : EmbedConfig}
    (hcfg : embedConfigs.get? req.chunkType = some cfg) :
    OrderFreeSearch tables req ↔ ∀ table ∈ tables (relation (req.chunksTable cfg)), ∀ nearest,
      Listing.OrderFree (searchWith nearest req (req.chunksTable cfg))
        (ChunkRepository.postEmbeddings table.rows req.postId) := by
  unfold OrderFreeSearch
  cases h : tables (relation (req.chunksTable cfg)) with
  | none => simp [run_findSimilar_none hcfg h]
  | some table =>
    simp only [run_findSimilar_some hcfg h, Option.mem_some_iff, forall_eq']
    rfl

theorem orderFree_searchWith_of_body (hbody : req.chunkType = "body") {dim : ℕ} {l : List Vec}
    (hdim : ∀ e ∈ l, e.length = dim) (nearest : NearestSearch) (t : String) :
    Listing.OrderFree (searchWith nearest req t) l := by
  apply Listing.orderFree_of_perm
  intro l₁ l₂ h₁ h₂
  have hquery : queryVector req l₁ = queryVector req l₂ := by
    apply queryVector_of_body hbody (h₁.trans h₂.symm)
    intro e he
    exact hdim e (h₁.mem_iff.mp he)
  unfold searchWith
  rw [hquery]

theorem searchWith_of_not_body (h : req.chunkType ≠ "body") (nearest : NearestSearch) (t : String)
    (l : List Vec) : (searchWith nearest req t l).2 = l.head?.toList := by
  unfold searchWith
  rw [queryVector_of_not_body h]
  cases l <;> rfl

theorem orderFree_searchWith_iff (h : req.chunkType ≠ "body") (t : String) (l : List Vec) :
    (∀ nearest, Listing.OrderFree (searchWith nearest req t) l) ↔ ∀ v ∈ l, ∀ w ∈ l, v = w := by
  rw [← Listing.orderFree_head?_iff]
  constructor
  · intro hfree o o'
    have hsearched := congrArg Prod.snd (hfree (fun _ _ _ _ => .ok []) o o')
    rw [searchWith_of_not_body h, searchWith_of_not_body h] at hsearched
    have hhead := congrArg List.head? hsearched
    rwa [Option.head?_toList, Option.head?_toList] at hhead
  · intro hfree nearest o o'
    have hquery : queryVector req (o.list l) = queryVector req (o'.list l) := by
      rw [queryVector_of_not_body h, queryVector_of_not_body h]
      have hhead : (o.list l).head? = (o'.list l).head? := hfree o o'
      rw [hhead]
    unfold searchWith
    rw [hquery]

structure SimilarRequest.Targets (req : SimilarRequest) (task : ChunkTask) : Prop where
  postId : task.postId = req.postId
  chunkType : task.taskType.key = req.chunkType
  postTable : task.postTable = "posts_" ++ req.libraryId
  embedModel : ∀ cfg ∈ embedConfigs.get? req.chunkType, task.embedModel = cfg.primary

theorem SimilarRequest.Targets.chunkTableName {task : ChunkTask} {cfg : EmbedConfig}
    (h : req.Targets task) (hcfg : embedConfigs.get? req.chunkType = some cfg) :
    task.chunkTableName = req.chunksTable cfg := by
  rw [ChunkTask.chunkTableName, SimilarRequest.chunksTable, h.chunkType, h.postTable,
    h.embedModel cfg hcfg]

namespace Rechunk

variable {C : Chunking} {task : ChunkTask} {s : ChunkDb} {steps : List RechunkStep} {dim : ℕ}

/-- The column has the type `vector(dim)`. -/
def Column (dim : ℕ) (task : ChunkTask) (s : ChunkDb) : Prop :=
  ∀ r ∈ s.tables.rows task.chunkTableName, ∀ v ∈ r.embedding, v.length = dim

/-- What is written to the column has its type. -/
def WritesColumn (dim : ℕ) (steps : List RechunkStep) : Prop :=
  ∀ f, .embedded f ∈ steps → ∀ r, ∀ v ∈ f r, v.length = dim

def storedEmbeddings (task : ChunkTask) (s : ChunkDb) : List Vec :=
  ChunkRepository.postEmbeddings (s.tables.rows task.chunkTableName) task.postId

theorem Column.step {i : RechunkStep} (h : Column dim task s)
    (hi : ∀ f, i = .embedded f → ∀ r, ∀ v ∈ f r, v.length = dim) :
    Column dim task (step C task s i) := by
  intro r hr v hv
  cases i with
  | revise post => exact h r hr v hv
  | process x =>
    -- new rows have no embedding yet
    have hafter : r ∈ s.tables.rows task.chunkTableName ∨ Reaches x.delivery.stop 4 ∧
        ∃ c ∈ x.delivery.pending C (x.task task) s, r = ⟨c, none⟩ := row_after hr
    obtain hr | ⟨-, c, -, rfl⟩ := hafter
    · exact h r hr v hv
    · cases hv
  | embedded f =>
    obtain ⟨q, -, rfl⟩ := ChunkTables.mem_rows_reembed.mp hr
    exact hi f rfl q v hv

theorem Column.history (h : Column dim task s) (hwrites : WritesColumn dim steps) :
    Column dim task (history C task s steps) := by
  induction steps generalizing s with
  | nil => exact h
  | cons i steps ih =>
    have hstep : Column dim task (Rechunk.step C task s i) := by
      apply h.step
      intro f hf
      exact hwrites f (hf ▸ List.mem_cons_self)
    apply ih hstep
    intro f hf
    exact hwrites f (List.mem_cons_of_mem i hf)

theorem Column.length_of_mem (h : Column dim task s) {v : Vec} (hv : v ∈ storedEmbeddings task s) :
    v.length = dim := by
  obtain ⟨r, hr, hrv⟩ := List.mem_filterMap.mp hv
  exact h r (List.mem_filter.mp hr).1 v hrv

end Rechunk

open Rechunk in
theorem orderFreeSearch_iff_of_column {task : ChunkTask} {s : ChunkDb} {dim : ℕ}
    (hreq : req.Targets task) (hcolumn : Column dim task s) :
    OrderFreeSearch s.tables req ↔ req.chunkType = "body" ∨
      ∀ v ∈ storedEmbeddings task s, ∀ w ∈ storedEmbeddings task s, v = w := by
  obtain ⟨cfg, hcfg⟩ : ∃ cfg, embedConfigs.get? req.chunkType = some cfg := by
    rw [← hreq.chunkType]
    exact exists_embedConfig task.taskType
  have hname : req.chunksTable cfg = task.chunkTableName := (hreq.chunkTableName hcfg).symm
  rw [orderFreeSearch_iff hcfg, hname]
  cases h : s.tables (relation task.chunkTableName) with
  | none =>
    have hnone : storedEmbeddings task s = [] := by
      rw [storedEmbeddings, ChunkTables.rows, h]
      rfl
    simp [hnone]
  | some table =>
    have hsome :
        ChunkRepository.postEmbeddings table.rows req.postId = storedEmbeddings task s := by
      rw [storedEmbeddings, ChunkTables.rows_of_eq h, hreq.postId]
    simp only [Option.mem_some_iff, forall_eq', hsome]
    by_cases hbody : req.chunkType = "body"
    · refine iff_of_true (fun nearest => ?_) (.inl hbody)
      apply orderFree_searchWith_of_body hbody
      intro v hv
      exact hcolumn.length_of_mem hv
    · rw [orderFree_searchWith_iff hbody, or_iff_right hbody]

namespace Rechunk

variable {C : Chunking} {task : ChunkTask} {s : ChunkDb} {steps : List RechunkStep}
  {window : String}

def postRows (task : ChunkTask) (s : ChunkDb) : List StoredChunk :=
  (s.tables.rows task.chunkTableName).filter fun r => r.postId = task.postId

structure SingleRow (task : ChunkTask) (hash : String) (s : ChunkDb) : Prop where
  length : (postRows task s).length ≤ 1
  hash : ∀ r ∈ postRows task s, r.textHash = hash

/-- Every text that is read in the history has one window, and always the same. -/
def ReadsWindow (C : Chunking) (task : ChunkTask) (window : String) (s : ChunkDb)
    (steps : List RechunkStep) : Prop :=
  ∀ pre x, pre ++ [.process x] <+: steps → ∀ text,
    readText task (history C task s pre) x = some text →
      C.chunkText task.taskType text = [window]

theorem length_pending_le {x : ChunkAttempt}
    (hread : ∀ text, readText task s x = some text → C.chunkText task.taskType text = [window]) :
    (x.delivery.pending C (x.task task) s).length ≤ 1 := by
  cases htext : readText task s x with
  | none =>
    rw [pending_of_none htext]
    exact Nat.zero_le 1
  | some text =>
    obtain ⟨post, hp⟩ := exists_pending (C := C) htext
    rw [hp]
    apply (List.length_filter_le _ _).trans
    rw [ChunkPostHandler.buildChunks, List.length_mapIdx]
    exact (congrArg List.length (hread text htext)).le

theorem postRows_insertRow (rows : List StoredChunk) (c : Chunk) (postId : ℤ) :
    List.Sublist ((ChunkRepository.insertRow rows c).filter fun r => r.postId = postId)
      (rows.filter (fun r => r.postId = postId) ++ [⟨c, none⟩]) := by
  unfold ChunkRepository.insertRow
  split
  · exact List.sublist_append_left _ _
  · rw [List.filter_append]
    exact List.filter_sublist.append_left _

theorem SingleRow.process {x : ChunkAttempt} (h : SingleRow task (C.sha256 window) s)
    (hsha : C.sha256 window ≠ "")
    (hread : ∀ text, readText task s x = some text → C.chunkText task.taskType text = [window]) :
    SingleRow task (C.sha256 window) (step C task s (.process x)) := by
  have hrows : postRows task (step C task s (.process x)) =
      (ChunkRepository.bulkInsert (s.tables.rows task.chunkTableName)
        (x.delivery.pending C (x.task task) s)).filter fun r => r.postId = task.postId :=
    congrArg (List.filter fun r : StoredChunk => r.postId = task.postId) rows_step_process
  have hlength := length_pending_le hread
  cases hp : x.delivery.pending C (x.task task) s with
  | nil =>
    have hsame : postRows task (step C task s (.process x)) = postRows task s := by
      rw [hrows, hp]
      rfl
    exact ⟨hsame ▸ h.length, hsame ▸ h.hash⟩
  | cons c cs =>
    have hcs : cs = [] := by
      rw [hp, List.length_cons] at hlength
      exact List.eq_nil_of_length_eq_zero (by omega)
    have hc : c ∈ x.delivery.pending C (x.task task) s := hp ▸ List.mem_cons_self
    obtain ⟨text, htext, ⟨w, hw, hhash⟩, hkey⟩ := read_of_mem_pending hc
    rw [hread text htext, List.mem_singleton] at hw
    -- the hash is not looked up, so the post has no row
    have hempty : postRows task s = [] := by
      apply List.eq_nil_iff_forall_not_mem.mpr
      intro r hr
      obtain ⟨hmem, hpost⟩ := List.mem_filter.mp hr
      apply hkey
      rw [ChunkRepository.mem_keys_textHashes, ← hhash, hw]
      exact ⟨hsha, r, hmem, of_decide_eq_true hpost, h.hash r hr⟩
    have hone : (postRows task (step C task s (.process x))).Sublist [⟨c, none⟩] := by
      have hsub := postRows_insertRow (s.tables.rows task.chunkTableName) c task.postId
      rw [hrows, hp, hcs]
      rwa [show (s.tables.rows task.chunkTableName).filter (fun r => r.postId = task.postId) = []
        from hempty, List.nil_append] at hsub
    refine ⟨hone.length_le, fun r hr => ?_⟩
    rw [List.mem_singleton.mp (hone.subset hr), ← hw]
    exact hhash.symm

theorem SingleRow.embedded {hash : String} (h : SingleRow task hash s)
    (f : StoredChunk → Option Vec) : SingleRow task hash (step C task s (.embedded f)) := by
  have hrows : postRows task (step C task s (.embedded f)) =
      (postRows task s).map fun r => { r with embedding := f r } := by
    have hreembed := ChunkTables.rows_reembed s.tables task.chunkTableName f
    rw [postRows, step, hreembed, List.filter_map]
    rfl
  constructor
  · rw [hrows, List.length_map]
    exact h.length
  · rw [hrows]
    intro r hr
    obtain ⟨q, hq, rfl⟩ := List.mem_map.mp hr
    exact h.hash q hq

theorem SingleRow.history (h : SingleRow task (C.sha256 window) s) (hsha : C.sha256 window ≠ "")
    (hreads : ReadsWindow C task window s steps) :
    SingleRow task (C.sha256 window) (history C task s steps) := by
  rw [ReadsWindow] at hreads
  induction steps generalizing s with
  | nil => exact h
  | cons i steps ih =>
    have hrest : ReadsWindow C task window (step C task s i) steps := by
      intro pre x hp text htext
      exact hreads (i :: pre) x (List.cons_prefix_cons.mpr ⟨rfl, hp⟩) text htext
    apply ih _ hrest
    cases i with
    | revise post => exact ⟨h.length, h.hash⟩
    | embedded f => exact h.embedded f
    | process x =>
      apply h.process hsha
      intro text htext
      exact hreads [] x (List.prefix_append [_] steps) text htext

theorem SingleRow.storedEmbeddings_eq {hash : String} (h : SingleRow task hash s) :
    ∀ v ∈ storedEmbeddings task s, ∀ w ∈ storedEmbeddings task s, v = w := by
  have hlength : (storedEmbeddings task s).length ≤ 1 :=
    (List.length_filterMap_le _ _).trans h.length
  intro v hv w hw
  obtain ⟨u, hu⟩ := List.length_eq_one_iff.mp
    (hlength.antisymm (List.length_pos_of_mem hv))
  rw [hu, List.mem_singleton] at hv hw
  rw [hv, hw]

/-- As long as every text that is read has the same single window, the order does not matter. -/
theorem orderFreeSearch_of_single_window {dim : ℕ} (hreq : req.Targets task)
    (hcolumn : Column dim task s) (hwrites : WritesColumn dim steps)
    (hnone : ∀ r ∈ s.tables.rows task.chunkTableName, r.postId ≠ task.postId)
    (hsha : C.sha256 window ≠ "") (hreads : ReadsWindow C task window s steps) :
    OrderFreeSearch (history C task s steps).tables req := by
  have hstart : postRows task s = [] := by
    apply List.filter_eq_nil_iff.mpr
    intro r hr
    simpa using hnone r hr
  have hsingle : SingleRow task (C.sha256 window) s := by
    constructor <;> simp [hstart]
  rw [orderFreeSearch_iff_of_column hreq (hcolumn.history hwrites)]
  right
  exact (hsingle.history hsha hreads).storedEmbeddings_eq

end Rechunk

open Rechunk in
/-- After any history of versions, chunk tasks and embeddings, a search for the posts that are
similar does not depend on the order of the rows if and only if it is one for bodies or all
embeddings of the post in that table are equal. -/
theorem orderFreeSearch_history_iff (C : Chunking) (task : ChunkTask) (s : ChunkDb)
    (steps : List RechunkStep) (dim : ℕ) (req : SimilarRequest) (hreq : req.Targets task)
    (hcolumn : Column dim task s) (hwrites : WritesColumn dim steps) :
    OrderFreeSearch (history C task s steps).tables req ↔
      req.chunkType = "body" ∨ ∀ v ∈ storedEmbeddings task (history C task s steps),
        ∀ w ∈ storedEmbeddings task (history C task s steps), v = w := by
  have hend : Column dim task (history C task s steps) := hcolumn.history hwrites
  exact orderFreeSearch_iff_of_column hreq hend

/-- The embeddings of two texts, as that model's vectors. -/
def titleEmbedding (r : StoredChunk) : Option Vec :=
  some ((if r.text = "text" then 1 else -1) :: List.replicate 383 0)

def titleReembedded : List RechunkStep :=
  [.process (attemptOf 'a'), .embedded titleEmbedding,
    .revise { titledPost with title := "revised", updatedAt := ⟨2, true⟩ },
    .process (attemptOf 'b'), .embedded titleEmbedding]

def titleRequest : SimilarRequest where
  postId := 50
  chunkType := "title"
  k := 5
  libraryId := "main"
  chunkType_valid := by decide
  k_bounds := by decide
  libraryId_valid := validateLibraryId_main

theorem targets_titleRequest : titleRequest.Targets titleTask where
  postId := rfl
  chunkType := rfl
  postTable := rfl
  embedModel := by decide

theorem column_unchunkedDb (dim : ℕ) : Rechunk.Column dim titleTask unchunkedDb :=
  fun _ hr => nomatch hr

theorem writesColumn_titleReembedded : Rechunk.WritesColumn 384 titleReembedded := by
  intro f hf r v hv
  have hf' : f = titleEmbedding := by simpa [titleReembedded] using hf
  rw [hf', titleEmbedding, Option.mem_some_iff] at hv
  rw [← hv, List.length_cons, List.length_replicate]

open Rechunk in
theorem orderFreeSearch_history_iff_title_reembedded :
    OrderFreeSearch (history wordChunking titleTask unchunkedDb titleReembedded).tables
        titleRequest ↔
      titleRequest.chunkType = "body" ∨
        ∀ v ∈ storedEmbeddings titleTask
            (history wordChunking titleTask unchunkedDb titleReembedded),
          ∀ w ∈ storedEmbeddings titleTask
            (history wordChunking titleTask unchunkedDb titleReembedded), v = w :=
  orderFreeSearch_history_iff wordChunking titleTask unchunkedDb titleReembedded 384 titleRequest
    targets_titleRequest (column_unchunkedDb 384) writesColumn_titleReembedded

open Rechunk in
/-- The embedding of the old title is there next to that of the new one, and either can come
first. -/
theorem not_orderFree_title_reembedded :
    ¬ OrderFreeSearch (history wordChunking titleTask unchunkedDb titleReembedded).tables
      titleRequest := by
  have hend : Column 384 titleTask (history wordChunking titleTask unchunkedDb titleReembedded) :=
    (column_unchunkedDb 384).history writesColumn_titleReembedded
  have hheads : (storedEmbeddings titleTask
      (history wordChunking titleTask unchunkedDb titleReembedded)).map List.head? =
        [some 1, some (-1)] := by
    decide +kernel
  rw [orderFreeSearch_iff_of_column targets_titleRequest hend]
  rintro (hbody | hequal)
  · revert hbody
    decide
  · obtain ⟨v, hv, hvhead⟩ := List.exists_of_mem_map (hheads ▸ List.mem_cons_self)
    obtain ⟨w, hw, hwhead⟩ := List.exists_of_mem_map
      (hheads ▸ List.mem_cons_of_mem (some 1) (List.mem_singleton_self (some (-1))))
    rw [hequal v hv w hw, hwhead] at hvhead
    revert hvhead
    decide

end RagPipeline
