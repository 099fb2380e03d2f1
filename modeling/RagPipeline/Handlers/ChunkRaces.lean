import RagPipeline.Handlers.Rechunk
import RagPipeline.Lib.Interleave

namespace RagPipeline
open Coro Interleave

def AtInsert {α : Type} : ChunkCoro α → Prop
  | .await (.bulkInsert _ _) _ => True
  | _ => False

namespace ChunkAttempt

variable (C : Chunking) (task : ChunkTask)

def program (x : ChunkAttempt) : ChunkCoro (List String) :=
  ChunkPostHandler.handle C x.ids x.eventId x.span (x.task task)

abbrev fetchOp : ChunkOp := .fetch task.postId task.postTable

abbrev ensureOp (dim : ℕ) : ChunkOp := .ensureTable task.chunkTableName dim

abbrev lookOp : ChunkOp := .getTextHashes task.postId task.chunkTableName

abbrev rows (s : ChunkDb) : List StoredChunk := s.tables.rows task.chunkTableName

def hashes (text : String) : List String := (C.chunkText task.taskType text).map C.sha256

def unstored (s : ChunkDb) (text : String) : List String :=
  (hashes C task text).filter fun h =>
    ∀ r ∈ rows task s, r.postId = task.postId → r.textHash ≠ h

def OneRowPerHash (s : ChunkDb) : Prop := ((rows task s).map fun r => (r.postId, r.textHash)).Nodup

/-- What a run does with the hashes that its lookup found. -/
def storeFound (x : ChunkAttempt) (post : Post) (text : String)
    (existing : OrderedDict String String) : ChunkCoro (List String) :=
  match ChunkPostHandler.newChunks existing
      (ChunkPostHandler.buildChunks C x.ids post (x.task task) text) with
  | [] => ret []
  | c :: cs => ChunkPostHandler.store x.eventId x.span (x.task task) (c :: cs)

/-- Where a run stands. -/
inductive Stage (x : ChunkAttempt) :
    ChunkCoro (List String) → List (ChunkOp × ChunkDb) → ChunkDb → Prop
  | fetching {s : ChunkDb} : Stage x (x.program C task) [] s
  | ensuring {s : ChunkDb} (db : ChunkDb) (post : Post) (text : String) (dim : ℕ)
      (hread : Rechunk.readText task s x = some text) :
      Stage x (awaitChunk (ensureOp task dim) >>= fun _ =>
          awaitChunk (lookOp task) >>= x.storeFound C task post text) [(fetchOp task, db)] s
  | looking {s : ChunkDb} (db db₁ : ChunkDb) (post : Post) (text : String) (dim : ℕ)
      (hread : Rechunk.readText task s x = some text)
      (htable : s.tables (relation task.chunkTableName) ≠ none) :
      Stage x (awaitChunk (lookOp task) >>= x.storeFound C task post text)
        [(fetchOp task, db), (ensureOp task dim, db₁)] s
  | inserting {s : ChunkDb} (db db₁ db₂ : ChunkDb) (post : Post) (text : String) (dim : ℕ)
      (c : Chunk) (cs : List Chunk) (hread : Rechunk.readText task s x = some text)
      (htable : s.tables (relation task.chunkTableName) ≠ none)
      (hnew : ChunkPostHandler.newChunks
        (ChunkRepository.textHashes (rows task db₂) task.postId)
        (ChunkPostHandler.buildChunks C x.ids post (x.task task) text) = c :: cs) :
      Stage x (ChunkPostHandler.store x.eventId x.span (x.task task) (c :: cs))
        [(fetchOp task, db), (ensureOp task dim, db₁), (lookOp task, db₂)] s
  | publishing {s : ChunkDb} (past : List (ChunkOp × ChunkDb)) (e : Event) (ids : List String) :
      Stage x (awaitChunk (.publish e) >>= fun _ => ret ids) past s
  | returned {s : ChunkDb} (past : List (ChunkOp × ChunkDb)) (ids : List String) :
      Stage x (ret ids) past s

variable {C task} {x : ChunkAttempt} {p : ChunkCoro (List String)}
  {past : List (ChunkOp × ChunkDb)} {s t : ChunkDb}

theorem awaited_awaitChunk_bind {β : Type} (op : ChunkOp) (f : op.Ans → ChunkCoro β)
    (s : ChunkDb) : awaited (awaitChunk op >>= f) s = [(op, s)] := rfl

theorem storeNew_eq (post : Post) (text : String) (dim : ℕ) :
    ChunkPostHandler.storeNew C x.ids x.eventId x.span (x.task task) post text dim =
      awaitChunk (ensureOp task dim) >>= fun _ =>
        awaitChunk (lookOp task) >>= x.storeFound C task post text := rfl

theorem Stage.next (h : Stage C task x p past s) :
    Stage C task x (Coro.next chunkWorld (p, s)).1 (past ++ awaited p s)
      (Coro.next chunkWorld (p, s)).2 := by
  cases h with
  | fetching =>
    unfold program ChunkPostHandler.handle
    rw [next_call_bind, awaited_awaitChunk_bind]
    simp only [chunkWorld]
    cases hpost : s.posts (relation (x.task task).postTable) (x.task task).postId with
    | none => exact .returned _ _
    | some post =>
      simp only
      cases htext : truthy (ChunkPostHandler.resolveText (x.task task) post) with
      | none => exact .returned _ _
      | some text =>
        obtain ⟨cfg, hcfg⟩ := exists_embedConfig (x.task task).taskType
        simp only [hcfg, storeNew_eq]
        have hpost' : s.posts (relation task.postTable) task.postId = some post := hpost
        refine .ensuring s post text cfg.dim ?_
        rw [Rechunk.readText, hpost', Option.bind_some, htext]
  | ensuring db post text dim hread =>
    rw [next_call_bind, awaited_awaitChunk_bind]
    obtain ⟨table, htable, -⟩ := s.tables.exists_ensure task.chunkTableName
    refine .looking db s post text dim hread ?_
    show s.tables.ensure task.chunkTableName _ ≠ none
    rw [htable]
    exact Option.some_ne_none table
  | looking db db₁ post text dim hread htable =>
    rw [next_call_bind, awaited_awaitChunk_bind]
    obtain ⟨table, hT⟩ := Option.ne_none_iff_exists'.mp htable
    have hrows : table.rows = rows task s := (ChunkTables.rows_of_eq hT).symm
    simp only [chunkWorld, hT, hrows]
    unfold storeFound
    cases hnew : ChunkPostHandler.newChunks
        (ChunkRepository.textHashes (rows task s) task.postId)
        (ChunkPostHandler.buildChunks C x.ids post (x.task task) text) with
    | nil => exact .returned _ _
    | cons c cs => exact .inserting db db₁ s post text dim c cs hread htable hnew
  | inserting db db₁ db₂ post text dim c cs hread htable hnew =>
    obtain ⟨table, hT⟩ := Option.ne_none_iff_exists'.mp htable
    rw [ChunkPostHandler.store, next_call_bind, awaited_awaitChunk_bind]
    simp only [chunkWorld, chunkTableName_task, hT]
    exact .publishing _ _ _
  | publishing past e ids => exact .returned _ _
  | returned past ids => exact .returned _ _

theorem mem_unstored {text h : String} : h ∈ unstored C task s text ↔
    h ∈ hashes C task text ∧ h ∉ Rechunk.storedHashes task s := by
  simp [unstored, Rechunk.storedHashes, rows]

theorem hashes_newChunks (hsha : ∀ window, C.sha256 window ≠ "") (ids : ℕ → String) (post : Post)
    (text : String) :
    (ChunkPostHandler.newChunks (ChunkRepository.textHashes (rows task s) task.postId)
      (ChunkPostHandler.buildChunks C ids post (x.task task) text)).map Chunk.textHash =
        unstored C task s text := by
  have hall : (ChunkPostHandler.buildChunks C ids post (x.task task) text).map Chunk.textHash =
      hashes C task text := by
    apply List.ext_getElem
    · simp [ChunkPostHandler.buildChunks, hashes, ChunkAttempt.task]
    · intro i hi hi'
      simp [ChunkPostHandler.buildChunks, hashes, ChunkAttempt.task]
  have hkeys : ∀ h ∈ hashes C task text,
      h ∉ (ChunkRepository.textHashes (rows task s) task.postId).keys ↔
        ∀ r ∈ rows task s, r.postId = task.postId → r.textHash ≠ h := by
    intro h hh
    obtain ⟨window, -, rfl⟩ := List.mem_map.mp hh
    rw [ChunkRepository.mem_keys_textHashes]
    simp [hsha window]
  rw [unstored, ← hall]
  unfold ChunkPostHandler.newChunks
  rw [List.filter_map]
  congr 1
  apply List.filter_congr
  intro c hc
  have hh : c.textHash ∈ hashes C task text := hall ▸ List.mem_map_of_mem hc
  exact decide_eq_decide.mpr (hkeys c.textHash hh)

def HasInserted (past : List (ChunkOp × ChunkDb)) : Prop :=
  ∃ chunks table s, (.bulkInsert chunks table, s) ∈ past

variable (C task x) in
/-- A run that is about to insert, what it looked up, and the rows it leaves. -/
structure Inserting (p : ChunkCoro (List String)) (past : List (ChunkOp × ChunkDb)) (s db : ChunkDb)
    (text : String) (chunks : List Chunk) : Prop where
  atInsert : AtInsert p
  fresh : ¬ HasInserted past
  looked : ∀ db', (lookOp task, db') ∈ past ↔ db' = db
  read : Rechunk.readText task s x = some text
  new : ∃ post, chunks =
    ChunkPostHandler.newChunks (ChunkRepository.textHashes (rows task db) task.postId)
      (ChunkPostHandler.buildChunks C x.ids post (x.task task) text)
  inserted : HasInserted (past ++ awaited p s)
  rows_next : rows task (Coro.next chunkWorld (p, s)).2 =
    ChunkRepository.bulkInsert (rows task s) chunks

theorem Stage.inserting_or_rows_eq (h : Stage C task x p past s) :
    (∃ db text chunks, Inserting C task x p past s db text chunks) ∨
      ¬ AtInsert p ∧ rows task (Coro.next chunkWorld (p, s)).2 = rows task s := by
  cases h with
  | fetching => exact .inr ⟨id, rfl⟩
  | ensuring => exact .inr ⟨id, s.tables.rows_ensure _ _⟩
  | looking db db₁ post text dim hread htable =>
    obtain ⟨table, hT⟩ := Option.ne_none_iff_exists'.mp htable
    refine .inr ⟨id, ?_⟩
    rw [next_call_bind]
    simp only [chunkWorld, hT]
  | inserting db db₁ db₂ post text dim c cs hread htable hnew =>
    obtain ⟨table, hT⟩ := Option.ne_none_iff_exists'.mp htable
    refine .inl ⟨db₂, text, c :: cs, trivial, ?_, ?_, hread, ⟨post, hnew.symm⟩, ?_, ?_⟩
    · simp [HasInserted]
    · simp
    · refine ⟨c :: cs, task.chunkTableName, s, ?_⟩
      rw [ChunkPostHandler.store, awaited_awaitChunk_bind]
      exact List.mem_append_right _ (List.mem_singleton_self _)
    · rw [ChunkPostHandler.store, next_call_bind]
      simp only [chunkWorld, chunkTableName_task, hT]
      rw [rows, ChunkTables.rows_modify hT, if_pos rfl, rows, ChunkTables.rows_of_eq hT]
      rfl
  | publishing => exact .inr ⟨id, rfl⟩
  | returned => exact .inr ⟨id, rfl⟩

variable (task) in
/-- Steps leave the posts, and the table once it is there. -/
def Moves (s t : ChunkDb) : Prop :=
  t.posts = s.posts ∧
    (s.tables (relation task.chunkTableName) ≠ none →
      t.tables (relation task.chunkTableName) ≠ none)

theorem Stage.moves (h : Stage C task x p past s) :
    Moves task s (Coro.next chunkWorld (p, s)).2 := by
  cases h with
  | fetching => exact ⟨rfl, id⟩
  | ensuring =>
    refine ⟨rfl, fun _ => ?_⟩
    obtain ⟨table, htable, -⟩ := s.tables.exists_ensure task.chunkTableName
    show s.tables.ensure task.chunkTableName _ ≠ none
    rw [htable]
    exact Option.some_ne_none table
  | looking db db₁ post text dim hread htable =>
    obtain ⟨table, hT⟩ := Option.ne_none_iff_exists'.mp htable
    rw [next_call_bind]
    simp only [chunkWorld, hT]
    exact ⟨rfl, id⟩
  | inserting db db₁ db₂ post text dim c cs hread htable hnew =>
    obtain ⟨table, hT⟩ := Option.ne_none_iff_exists'.mp htable
    rw [ChunkPostHandler.store, next_call_bind]
    simp only [chunkWorld, chunkTableName_task, hT]
    refine ⟨rfl, fun _ => ?_⟩
    simp [ChunkTables.modify, hT]
  | publishing => exact ⟨rfl, id⟩
  | returned => exact ⟨rfl, id⟩

theorem Stage.stable (h : Stage C task x p past s) (hm : Moves task s t) :
    Stage C task x p past t := by
  obtain ⟨hposts, htables⟩ := hm
  have hreads : Rechunk.readText task t x = Rechunk.readText task s x := by
    rw [Rechunk.readText, Rechunk.readText, hposts]
  cases h with
  | fetching => exact .fetching
  | ensuring db post text dim hread => exact .ensuring db post text dim (hreads.trans hread)
  | looking db db₁ post text dim hread htable =>
    exact .looking db db₁ post text dim (hreads.trans hread) (htables htable)
  | inserting db db₁ db₂ post text dim c cs hread htable hnew =>
    exact .inserting db db₁ db₂ post text dim c cs (hreads.trans hread) (htables htable) hnew
  | publishing => exact .publishing _ _ _
  | returned => exact .returned _ _

theorem protocol_stage {ι : Type} [DecidableEq ι] (C : Chunking) (task : ChunkTask)
    (x : ι → ChunkAttempt) :
    Protocol chunkWorld (fun i => Stage C task (x i)) (Moves task) where
  step := Stage.next
  moves := Stage.moves
  stable := Stage.stable

theorem Inserting.nodup_ids {db : ChunkDb} {text : String} {chunks : List Chunk}
    (h : Inserting C task x p past s db text chunks) (hinj : Function.Injective x.ids) :
    (chunks.map Chunk.id).Nodup := by
  obtain ⟨post, rfl⟩ := h.new
  exact ChunkPostHandler.nodup_ids_newChunks hinj

theorem Inserting.of_mem {db : ChunkDb} {text : String} {chunks : List Chunk}
    (h : Inserting C task x p past s db text chunks) {c : Chunk} (hc : c ∈ chunks) :
    c.postId = task.postId ∧ ∃ i, c.id = x.ids i := by
  obtain ⟨post, rfl⟩ := h.new
  exact of_mem_newChunks hc

/-- An insert with new ids keeps the hashes unique exactly when the lookup left no repeats and
nothing that it left is stored by now. -/
theorem Inserting.unique_iff (hsha : ∀ window, C.sha256 window ≠ "") {db : ChunkDb} {text : String}
    {chunks : List Chunk} (h : Inserting C task x p past s db text chunks)
    (hinj : Function.Injective x.ids) (hunused : ∀ k, ∀ r ∈ rows task s, r.id ≠ x.ids k) :
    OneRowPerHash task (Coro.next chunkWorld (p, s)).2 ↔ OneRowPerHash task s ∧
      (unstored C task db text).Nodup ∧
        ∀ h ∈ unstored C task db text, h ∉ Rechunk.storedHashes task s := by
  have hhashes : chunks.map Chunk.textHash = unstored C task db text := by
    obtain ⟨post, rfl⟩ := h.new
    exact hashes_newChunks hsha x.ids post text
  have hrows : rows task (Coro.next chunkWorld (p, s)).2 =
      rows task s ++ chunks.map fun c => ⟨c, none⟩ := by
    rw [h.rows_next]
    apply ChunkRepository.bulkInsert_of_fresh (h.nodup_ids hinj)
    intro c hc r hr
    obtain ⟨-, k, hk⟩ := h.of_mem hc
    rw [hk]
    exact hunused k r hr
  have hpairs : (chunks.map fun c => (⟨c, none⟩ : StoredChunk)).map
      (fun r => (r.postId, r.textHash)) = (unstored C task db text).map (Prod.mk task.postId) := by
    rw [← hhashes, List.map_map, List.map_map]
    apply List.map_congr_left
    intro c hc
    have hpost : c.postId = task.postId := (h.of_mem hc).1
    show (c.postId, c.textHash) = _
    rw [hpost]
    rfl
  have hstored : ∀ h, (task.postId, h) ∈ (rows task s).map (fun r => (r.postId, r.textHash)) ↔
      h ∈ Rechunk.storedHashes task s := by
    intro h
    simp [Rechunk.storedHashes, rows]
  rw [OneRowPerHash, hrows, List.map_append, hpairs, List.nodup_append,
    List.nodup_map_iff (Prod.mk_right_injective task.postId)]
  apply and_congr_right'
  apply and_congr_right'
  constructor
  · intro hne h hh hin
    exact hne _ ((hstored h).mpr hin) _ (List.mem_map_of_mem hh) rfl
  · rintro hnew pair hpair _ hmem rfl
    obtain ⟨h, hh, rfl⟩ := List.mem_map.mp hmem
    exact hnew h hh ((hstored h).mp hpair)

end ChunkAttempt

section Races
open ChunkAttempt

variable {ι : Type} (C : Chunking) (task : ChunkTask) (x : ι → ChunkAttempt)

abbrev ChunkRuns (ι : Type) := Pool ι ChunkOp ChunkOp.Ans PyExc (List String) ChunkDb

def startRuns (s : ChunkDb) : ChunkRuns ι := start (fun i => (x i).program C task) s

/-- If the run is at its insert, then of the hashes of its text those that were not stored at its
lookup are distinct, and none was stored since. -/
def InsertsAlone (P : ChunkRuns ι) (i : ι) : Prop :=
  AtInsert (P.progs i) → ∀ db text, (lookOp task, db) ∈ P.past i →
    Rechunk.readText task P.world (x i) = some text →
      (unstored C task db text).Nodup ∧
        ∀ h ∈ hashes C task text,
          h ∈ Rechunk.storedHashes task P.world → h ∈ Rechunk.storedHashes task db

/-- `uuid4` draws ids that no row of the table and no other draw has. -/
structure FreshRuns (s : ChunkDb) : Prop where
  injective : ∀ i, Function.Injective (x i).ids
  unused : ∀ i k, ∀ r ∈ rows task s, r.id ≠ (x i).ids k
  distinct : ∀ {i j}, i ≠ j → ∀ k l, (x i).ids k ≠ (x j).ids l

/-- A row was there before, or a run that has come to its insert drew its id. -/
def Drawn (s : ChunkDb) (P : ChunkRuns ι) : Prop :=
  ∀ r ∈ rows task P.world, r ∈ rows task s ∨
    ∃ i k, r.id = (x i).ids k ∧ HasInserted (P.past i)

variable {C task x} {s : ChunkDb} {P : ChunkRuns ι} {i : ι}

theorem Drawn.unused (h : Drawn task x s P) (hfresh : FreshRuns task x s)
    (hi : ¬ HasInserted (P.past i)) (k : ℕ) : ∀ r ∈ rows task P.world, r.id ≠ (x i).ids k := by
  intro r hr
  obtain hr | ⟨j, l, hl, hj⟩ := h r hr
  · exact hfresh.unused i k r hr
  · have hne : j ≠ i := by
      rintro rfl
      exact hi hj
    rw [hl]
    exact hfresh.distinct hne l k

variable [DecidableEq ι]

theorem drawn_step (hstages : Holds (fun i => Stage C task (x i)) P) (h : Drawn task x s P)
    (i : ι) : Drawn task x s (step chunkWorld P i) := by
  have hpast : ∀ j, HasInserted (P.past j) → HasInserted ((step chunkWorld P i).past j) := by
    rintro j ⟨chunks, table, db, hmem⟩
    refine ⟨chunks, table, db, ?_⟩
    by_cases hj : j = i
    · subst hj
      simpa [Interleave.step] using .inl hmem
    · simpa [Interleave.step, Function.update_of_ne hj] using hmem
  have hold : ∀ r ∈ rows task P.world, r ∈ rows task s ∨
      ∃ j k, r.id = (x j).ids k ∧ HasInserted ((step chunkWorld P i).past j) := by
    intro r hr
    obtain hr | ⟨j, k, hk, hj⟩ := h r hr
    · exact .inl hr
    · exact .inr ⟨j, k, hk, hpast j hj⟩
  intro r hr
  obtain ⟨db, text, chunks, hins⟩ | ⟨-, hrows⟩ := (hstages i).inserting_or_rows_eq
  · have hrows : r ∈ ChunkRepository.bulkInsert (rows task P.world) chunks := hins.rows_next ▸ hr
    obtain hr | ⟨c, hc, rfl⟩ := ChunkRepository.mem_bulkInsert hrows
    · exact hold r hr
    · obtain ⟨-, k, hk⟩ := hins.of_mem hc
      refine .inr ⟨i, k, hk, ?_⟩
      simpa only [Interleave.step, Function.update_self] using hins.inserted
  · exact hold r (hrows ▸ hr)

/-- A step keeps the hashes unique exactly when it is no insert, or an insert on its own. -/
theorem unique_step_iff (hsha : ∀ window, C.sha256 window ≠ "") (hfresh : FreshRuns task x s)
    (hstages : Holds (fun i => Stage C task (x i)) P) (hdrawn : Drawn task x s P) (i : ι) :
    OneRowPerHash task (step chunkWorld P i).world ↔
      OneRowPerHash task P.world ∧ InsertsAlone C task x P i := by
  obtain ⟨db, text, chunks, hins⟩ | ⟨hat, hrows⟩ := (hstages i).inserting_or_rows_eq
  · have hunused := hdrawn.unused hfresh hins.fresh
    refine (hins.unique_iff hsha (hfresh.injective i) hunused).trans ?_
    apply and_congr_right'
    constructor
    · rintro ⟨hnodup, hnew⟩ - db' text' hlook hread
      obtain rfl : db' = db := (hins.looked db').mp hlook
      obtain rfl : text' = text := Option.some.inj (hread.symm.trans hins.read)
      refine ⟨hnodup, fun h hh hnow => ?_⟩
      by_contra hbefore
      exact hnew h (mem_unstored.mpr ⟨hh, hbefore⟩) hnow
    · intro halone
      obtain ⟨hnodup, hsince⟩ :=
        halone hins.atInsert db text ((hins.looked db).mpr rfl) hins.read
      refine ⟨hnodup, fun h hh hnow => ?_⟩
      obtain ⟨hin, hbefore⟩ := mem_unstored.mp hh
      exact hbefore (hsince h hin hnow)
  · have hnext : OneRowPerHash task (step chunkWorld P i).world ↔ OneRowPerHash task P.world := by
      show OneRowPerHash task (Coro.next chunkWorld (P.progs i, P.world)).2 ↔ _
      rw [OneRowPerHash, OneRowPerHash, hrows]
    have halone : InsertsAlone C task x P i := fun h => absurd h hat
    rw [hnext, and_iff_left halone]

/-- However any number of tasks for the post take turns, its rows end with one row per hash exactly
when they began so and every insert was on its own: what its lookup did not find is distinct, and
was not stored before the insert. -/
theorem unique_iff_insertsAlone (C : Chunking) (task : ChunkTask) (x : ι → ChunkAttempt)
    (s : ChunkDb) (schedule : List ι) (hsha : ∀ window, C.sha256 window ≠ "")
    (hfresh : FreshRuns task x s) :
    OneRowPerHash task (Interleave.run chunkWorld (startRuns C task x s) schedule).world ↔
      OneRowPerHash task s ∧ ∀ pre i, pre ++ [i] <+: schedule →
        InsertsAlone C task x (Interleave.run chunkWorld (startRuns C task x s) pre) i := by
  let Alone (P : ChunkRuns ι) (i : ι) (_ : ChunkRuns ι) : Prop := InsertsAlone C task x P i
  have hruns : ∀ (P : ChunkRuns ι), Holds (fun i => Stage C task (x i)) P → Drawn task x s P →
      (OneRowPerHash task (Interleave.run chunkWorld P schedule).world ↔
        OneRowPerHash task P.world ∧
          Runs.Each Alone P (Runs.trace (step chunkWorld) P schedule)) := by
    induction schedule with
    | nil => exact fun P _ _ => (and_iff_left trivial).symm
    | cons i schedule ih =>
      intro P hstages hdrawn
      have hrest := ih (step chunkWorld P i) ((protocol_stage C task x).holds_step hstages i)
        (drawn_step hstages hdrawn i)
      refine hrest.trans ?_
      rw [unique_step_iff hsha hfresh hstages hdrawn i, and_assoc]
      exact Iff.rfl
  have hstart := hruns (startRuns C task x s) (fun i => .fetching) fun r hr => .inl hr
  rwa [Runs.each_trace_prefix] at hstart

end Races

/-- Two deliveries of one task look the stored hashes up before either inserts. -/
def bothLookFirst : List Bool := [false, false, false, true, true, true, false, true]

def twoAttempts (second : Bool) : ChunkAttempt := attemptOf (if second then 'b' else 'a')

theorem injective_ids_attemptOf (c : Char) : Function.Injective (attemptOf c).ids := by
  intro i j h
  have hchars : c :: List.replicate i '0' = c :: List.replicate j '0' :=
    String.ofList_injective h
  simpa using congrArg List.length hchars

theorem freshRuns_twoAttempts : FreshRuns titleTask twoAttempts unchunkedDb where
  injective i := injective_ids_attemptOf _
  unused i k r hr := nomatch hr
  distinct := by
    intro i j hij
    refine ids_deliveryOf_ne ?_ none none
    revert i j
    decide

theorem unique_iff_insertsAlone_both_look_first :
    ChunkAttempt.OneRowPerHash titleTask (Interleave.run chunkWorld
        (startRuns wordChunking titleTask twoAttempts unchunkedDb) bothLookFirst).world ↔
      ChunkAttempt.OneRowPerHash titleTask unchunkedDb ∧ ∀ pre i, pre ++ [i] <+: bothLookFirst →
        InsertsAlone wordChunking titleTask twoAttempts
          (Interleave.run chunkWorld
            (startRuns wordChunking titleTask twoAttempts unchunkedDb) pre) i :=
  unique_iff_insertsAlone wordChunking titleTask twoAttempts unchunkedDb bothLookFirst
    sha256_wordChunking freshRuns_twoAttempts

/-- Both insert the one window of the title. -/
theorem two_attempts_store_twice :
    ChunkAttempt.OneRowPerHash titleTask unchunkedDb ∧
      ¬ ChunkAttempt.OneRowPerHash titleTask (Interleave.run chunkWorld
        (startRuns wordChunking titleTask twoAttempts unchunkedDb) bothLookFirst).world := by
  refine ⟨List.nodup_nil, ?_⟩
  have hrows : (ChunkAttempt.rows titleTask (Interleave.run chunkWorld
      (startRuns wordChunking titleTask twoAttempts unchunkedDb) bothLookFirst).world).map
        (fun r => (r.postId, r.textHash)) =
      [(50, wordChunking.sha256 "text"), (50, wordChunking.sha256 "text")] := by
    decide +kernel
  rw [ChunkAttempt.OneRowPerHash, hrows]
  simp

end RagPipeline
