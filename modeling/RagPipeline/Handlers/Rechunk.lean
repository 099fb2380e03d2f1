import Mathlib.Data.Set.Lattice
import RagPipeline.Handlers.ChunkDelivery

namespace RagPipeline
open Coro

/-- A chunk task of the post, processed to its end, with the ids it draws. -/
structure ChunkAttempt where
  base : BaseTask
  analysisText : Option String
  ids : ℕ → String
  eventId : String
  span : Option SpanIds

inductive RechunkStep where
  /-- A version of the post is stored. -/
  | revise (post : Post)
  | process (x : ChunkAttempt)
  /-- Embeddings are written. -/
  | embedded (f : StoredChunk → Option Vec)

namespace ChunkAttempt

/-- The tasks share the post, the type and the model of `task`. -/
def task (x : ChunkAttempt) (task : ChunkTask) : ChunkTask :=
  { task with toBaseTask := x.base, analysisText := x.analysisText }

def delivery (x : ChunkAttempt) : ChunkDelivery := ⟨x.ids, x.eventId, x.span, none⟩

@[simp] theorem chunkTableName_task (x : ChunkAttempt) (task : ChunkTask) :
    (x.task task).chunkTableName = task.chunkTableName := rfl

@[simp] theorem postId_task (x : ChunkAttempt) (task : ChunkTask) :
    (x.task task).postId = task.postId := rfl

end ChunkAttempt

namespace Rechunk

variable (C : Chunking) (task : ChunkTask)

def step (s : ChunkDb) : RechunkStep → ChunkDb
  | .revise post =>
    { s with
      posts := fun t i =>
        if t = relation task.postTable ∧ i = task.postId then some post else s.posts t i }
  | .process x => x.delivery.after C (x.task task) s
  | .embedded f => { s with tables := s.tables.modify task.chunkTableName (·.reembed f) }

def history (s : ChunkDb) (steps : List RechunkStep) : ChunkDb := steps.foldl (step C task) s

def readText (s : ChunkDb) (x : ChunkAttempt) : Option String :=
  (s.posts (relation task.postTable) task.postId).bind fun post =>
    truthy (ChunkPostHandler.resolveText (x.task task) post)

def storedHashes (s : ChunkDb) : Set String :=
  {h | ∃ r ∈ s.tables.rows task.chunkTableName, r.postId = task.postId ∧ r.textHash = h}

def windowHashes (text : String) : Set String :=
  {h | ∃ window ∈ C.chunkText task.taskType text, C.sha256 window = h}

/-- From `s` to `t`, a task that read `text` left the hashes of its windows and no others, and of
the rows whose hash was stored before exactly those that were there. -/
structure Current (text : String) (s t : ChunkDb) : Prop where
  hashes : storedHashes task t = windowHashes C task text
  kept : ∀ r : StoredChunk, r.postId = task.postId → r.textHash ∈ storedHashes task s →
    (r ∈ t.tables.rows task.chunkTableName ↔ r ∈ s.tables.rows task.chunkTableName)

/-- The attempts of a history, in their order. -/
def attempts (steps : List RechunkStep) : List ChunkAttempt :=
  steps.filterMap fun
    | .process x => some x
    | _ => none

/-- `uuid4` draws ids that no row of the table and no other draw has. -/
structure FreshDraws (s : ChunkDb) (xs : List ChunkAttempt) : Prop where
  injective : ∀ x ∈ xs, Function.Injective x.ids
  unused : ∀ x ∈ xs, ∀ i, ∀ r ∈ s.tables.rows task.chunkTableName, r.id ≠ x.ids i
  distinct : xs.Pairwise fun x y => ∀ i j, x.ids i ≠ y.ids j

end Rechunk

theorem ChunkRepository.bulkInsert_of_fresh {chunks : List Chunk}
    (hnodup : (chunks.map Chunk.id).Nodup) {rows : List StoredChunk}
    (hfresh : ∀ c ∈ chunks, ∀ r ∈ rows, r.id ≠ c.id) :
    ChunkRepository.bulkInsert rows chunks = rows ++ chunks.map fun c => ⟨c, none⟩ := by
  induction chunks generalizing rows with
  | nil => exact (List.append_nil rows).symm
  | cons c cs ih =>
    obtain ⟨hc, hcs⟩ := List.nodup_cons.mp hnodup
    have hinsert : ChunkRepository.insertRow rows c = rows ++ [⟨c, none⟩] := by
      rw [ChunkRepository.insertRow, if_neg (by simpa using hfresh c List.mem_cons_self)]
    have hrest : ∀ d ∈ cs, ∀ r ∈ rows ++ [(⟨c, none⟩ : StoredChunk)], r.id ≠ d.id := by
      intro d hd r hr
      rw [List.mem_append, List.mem_singleton] at hr
      obtain hr | rfl := hr
      · exact hfresh d (List.mem_cons_of_mem c hd) r hr
      · intro he
        exact hc (List.mem_map.mpr ⟨d, hd, he.symm⟩)
    show ChunkRepository.bulkInsert (ChunkRepository.insertRow rows c) cs = _
    rw [hinsert, ih hcs hrest, List.append_assoc, List.map_cons, List.singleton_append]

theorem ChunkPostHandler.nodup_ids_newChunks {C : Chunking} {ids : ℕ → String}
    (hinj : Function.Injective ids) {post : Post} {task : ChunkTask} {text : String}
    {existing : OrderedDict String String} :
    ((newChunks existing (buildChunks C ids post task text)).map Chunk.id).Nodup := by
  have hids : (buildChunks C ids post task text).map Chunk.id =
      (List.range (C.chunkText task.taskType text).length).map ids := by
    apply List.ext_getElem
    · simp [buildChunks]
    · intro i hi hi'
      simp [buildChunks]
  have hall : ((buildChunks C ids post task text).map Chunk.id).Nodup := by
    rw [hids]
    exact List.nodup_range.map hinj
  exact (List.filter_sublist.map Chunk.id).nodup hall

theorem ChunkRepository.mem_keys_textHashes {rows : List StoredChunk} {postId : ℤ} {h : String} :
    h ∈ (ChunkRepository.textHashes rows postId).keys ↔
      h ≠ "" ∧ ∃ r ∈ rows, r.postId = postId ∧ r.textHash = h := by
  rw [ChunkRepository.textHashes, OrderedDict.mem_keys_ofList]
  simp only [List.mem_map, List.mem_filter, Bool.and_eq_true, decide_eq_true_eq]
  constructor
  · rintro ⟨id, r, ⟨hr, hpost, hne⟩, he⟩
    obtain ⟨rfl, -⟩ := Prod.mk.inj he
    exact ⟨hne, r, hr, hpost, rfl⟩
  · rintro ⟨hne, r, hr, hpost, rfl⟩
    exact ⟨r.id, r, ⟨hr, hpost, hne⟩, rfl⟩

theorem ChunkTables.rows_reembed (T : ChunkTables) (t : String) (f : StoredChunk → Option Vec) :
    (T.modify t (·.reembed f)).rows t = (T.rows t).map fun r => { r with embedding := f r } := by
  cases hT : T (relation t) with
  | none => simp [ChunkTables.rows, ChunkTables.modify, hT]
  | some table =>
    rw [ChunkTables.rows_modify hT, if_pos rfl, ChunkTables.rows_of_eq hT]
    rfl

theorem ChunkTables.mem_rows_reembed {T : ChunkTables} {t : String} {f : StoredChunk → Option Vec}
    {r : StoredChunk} :
    r ∈ (T.modify t (·.reembed f)).rows t ↔ ∃ q ∈ T.rows t, r = { q with embedding := f q } := by
  rw [ChunkTables.rows_reembed]
  simp only [List.mem_map, eq_comm]

namespace Rechunk

variable {C : Chunking} {task : ChunkTask} {s : ChunkDb} {x : ChunkAttempt} {text : String}

theorem pending_of_none (h : readText task s x = none) :
    x.delivery.pending C (x.task task) s = [] := by
  unfold readText at h
  cases hpost : s.posts (relation task.postTable) task.postId with
  | none =>
    have hpost' : s.posts (relation (x.task task).postTable) (x.task task).postId = none := hpost
    simp only [ChunkDelivery.pending, hpost']
  | some post =>
    have hpost' : s.posts (relation (x.task task).postTable) (x.task task).postId = some post :=
      hpost
    rw [hpost, Option.bind_some] at h
    simp only [ChunkDelivery.pending, hpost', h]

theorem exists_pending (h : readText task s x = some text) : ∃ post,
    x.delivery.pending C (x.task task) s = ChunkPostHandler.newChunks
      (ChunkRepository.textHashes (s.tables.rows task.chunkTableName) task.postId)
      (ChunkPostHandler.buildChunks C x.ids post (x.task task) text) := by
  unfold readText at h
  cases hpost : s.posts (relation task.postTable) task.postId with
  | none =>
    rw [hpost] at h
    cases h
  | some post =>
    have hpost' : s.posts (relation (x.task task).postTable) (x.task task).postId = some post :=
      hpost
    rw [hpost, Option.bind_some] at h
    refine ⟨post, ?_⟩
    simp only [ChunkDelivery.pending, hpost', h]
    rfl

theorem mem_pending_hash (h : readText task s x = some text) {hash : String} :
    (∃ c ∈ x.delivery.pending C (x.task task) s, c.textHash = hash) ↔
      hash ∈ windowHashes C task text ∧
        hash ∉
          (ChunkRepository.textHashes (s.tables.rows task.chunkTableName) task.postId).keys := by
  obtain ⟨post, hp⟩ := exists_pending (C := C) h
  rw [hp]
  simp only [ChunkPostHandler.newChunks, List.mem_filter, decide_eq_true_eq]
  constructor
  · rintro ⟨c, ⟨hc, hnew⟩, rfl⟩
    obtain ⟨i, hi, rfl⟩ := List.mem_mapIdx.mp hc
    exact ⟨⟨_, List.getElem_mem hi, rfl⟩, hnew⟩
  · rintro ⟨⟨window, hw, rfl⟩, hnew⟩
    obtain ⟨i, hi, rfl⟩ := List.mem_iff_getElem.mp hw
    exact ⟨_, ⟨List.mem_mapIdx.mpr ⟨i, hi, rfl⟩, hnew⟩, rfl⟩

theorem read_of_mem_pending {c : Chunk} (hc : c ∈ x.delivery.pending C (x.task task) s) :
    ∃ text, readText task s x = some text ∧ c.textHash ∈ windowHashes C task text ∧
      c.textHash ∉
        (ChunkRepository.textHashes (s.tables.rows task.chunkTableName) task.postId).keys := by
  cases h : readText task s x with
  | none =>
    rw [pending_of_none h] at hc
    cases hc
  | some text => exact ⟨text, rfl, (mem_pending_hash h).mp ⟨c, hc, rfl⟩⟩

theorem nodup_pending (hinj : Function.Injective x.ids) :
    ((x.delivery.pending C (x.task task) s).map Chunk.id).Nodup := by
  cases h : readText task s x with
  | none =>
    rw [pending_of_none h]
    exact List.nodup_nil
  | some text =>
    obtain ⟨post, hp⟩ := exists_pending (C := C) h
    rw [hp]
    exact ChunkPostHandler.nodup_ids_newChunks hinj

theorem rows_step_process : (step C task s (.process x)).tables.rows task.chunkTableName =
    ChunkRepository.bulkInsert (s.tables.rows task.chunkTableName)
      (x.delivery.pending C (x.task task) s) := by
  have hwrote := (wrote_after C (x.task task) s x.delivery).rows task.chunkTableName
  have hreach : Reaches x.delivery.stop 4 := fun k hk => nomatch hk
  rwa [ChunkAttempt.chunkTableName_task, if_pos rfl, if_pos hreach] at hwrote

theorem rows_process (hinj : Function.Injective x.ids)
    (hunused : ∀ i, ∀ r ∈ s.tables.rows task.chunkTableName, r.id ≠ x.ids i) :
    (step C task s (.process x)).tables.rows task.chunkTableName =
      s.tables.rows task.chunkTableName ++
        (x.delivery.pending C (x.task task) s).map fun c => ⟨c, none⟩ := by
  rw [rows_step_process]
  apply ChunkRepository.bulkInsert_of_fresh (nodup_pending hinj)
  intro c hc r hr
  obtain ⟨-, i, hi⟩ := of_mem_pending hc
  rw [hi]
  exact hunused i r hr

def addedHashes (C : Chunking) (task : ChunkTask) (s : ChunkDb) (x : ChunkAttempt) : Set String :=
  {h | ∃ text, readText task s x = some text ∧ h ∈ windowHashes C task text}

theorem addedHashes_of_some (h : readText task s x = some text) :
    addedHashes C task s x = windowHashes C task text := by
  ext hash
  simp [addedHashes, h]

theorem storedHashes_process (hinj : Function.Injective x.ids)
    (hunused : ∀ i, ∀ r ∈ s.tables.rows task.chunkTableName, r.id ≠ x.ids i) :
    storedHashes task (step C task s (.process x)) =
      storedHashes task s ∪ addedHashes C task s x := by
  ext hash
  unfold storedHashes
  rw [Set.mem_union, rows_process hinj hunused]
  constructor
  · rintro ⟨r, hr, hpost, rfl⟩
    rw [List.mem_append] at hr
    obtain hr | hr := hr
    · exact .inl ⟨r, hr, hpost, rfl⟩
    · obtain ⟨c, hc, rfl⟩ := List.mem_map.mp hr
      obtain ⟨text, h, hw, -⟩ := read_of_mem_pending hc
      exact .inr ⟨text, h, hw⟩
  · rintro (⟨r, hr, hpost, rfl⟩ | ⟨text, h, hw⟩)
    · exact ⟨r, List.mem_append_left _ hr, hpost, rfl⟩
    -- a window that is stored already is not stored again
    · by_cases hkey : hash ∈
          (ChunkRepository.textHashes (s.tables.rows task.chunkTableName) task.postId).keys
      · obtain ⟨-, r, hr, hpost, rfl⟩ := ChunkRepository.mem_keys_textHashes.mp hkey
        exact ⟨r, List.mem_append_left _ hr, hpost, rfl⟩
      · obtain ⟨c, hc, rfl⟩ := (mem_pending_hash h).mpr ⟨hw, hkey⟩
        exact ⟨⟨c, none⟩, List.mem_append_right _ (List.mem_map_of_mem hc), (of_mem_pending hc).1,
          rfl⟩

theorem kept_process (hsha : ∀ window, C.sha256 window ≠ "") (hinj : Function.Injective x.ids)
    (hunused : ∀ i, ∀ r ∈ s.tables.rows task.chunkTableName, r.id ≠ x.ids i) {r : StoredChunk}
    (hstored : r.textHash ∈ storedHashes task s) :
    r ∈ (step C task s (.process x)).tables.rows task.chunkTableName ↔
      r ∈ s.tables.rows task.chunkTableName := by
  rw [rows_process hinj hunused, List.mem_append, or_iff_left]
  intro hnew
  obtain ⟨c, hc, rfl⟩ := List.mem_map.mp hnew
  -- a hash that is stored is looked up, so its chunk is not pending
  obtain ⟨text, -, ⟨window, -, hwindow⟩, hkey⟩ := read_of_mem_pending hc
  obtain ⟨q, hq, hpost, hhash⟩ := hstored
  apply hkey
  rw [ChunkRepository.mem_keys_textHashes]
  exact ⟨hwindow ▸ hsha window, q, hq, hpost, hhash⟩

theorem rows_step_other {i : RechunkStep} (hi : ∀ x, i ≠ .process x) {r : StoredChunk}
    (hr : r ∈ (step C task s i).tables.rows task.chunkTableName) :
    ∃ q ∈ s.tables.rows task.chunkTableName, r.toChunk = q.toChunk := by
  cases i with
  | revise post => exact ⟨r, hr, rfl⟩
  | process x => exact absurd rfl (hi x)
  | embedded f =>
    obtain ⟨q, hq, rfl⟩ := ChunkTables.mem_rows_reembed.mp hr
    exact ⟨q, hq, rfl⟩

theorem storedHashes_revise (post : Post) :
    storedHashes task (step C task s (.revise post)) = storedHashes task s := rfl

theorem storedHashes_embedded (f : StoredChunk → Option Vec) :
    storedHashes task (step C task s (.embedded f)) = storedHashes task s := by
  ext hash
  constructor
  · rintro ⟨r, hr, hpost, hhash⟩
    obtain ⟨q, hq, rfl⟩ := ChunkTables.mem_rows_reembed.mp hr
    exact ⟨q, hq, hpost, hhash⟩
  · rintro ⟨q, hq, hpost, hhash⟩
    exact ⟨_, ChunkTables.mem_rows_reembed.mpr ⟨q, hq, rfl⟩, hpost, hhash⟩

theorem FreshDraws.of_other {xs : List ChunkAttempt} {i : RechunkStep}
    (h : FreshDraws task s xs) (hi : ∀ x, i ≠ .process x) :
    FreshDraws task (step C task s i) xs where
  injective := h.injective
  unused := by
    intro x hx j r hr
    obtain ⟨q, hq, he⟩ := rows_step_other hi hr
    rw [he]
    exact h.unused x hx j q hq
  distinct := h.distinct

theorem FreshDraws.process {xs : List ChunkAttempt} (h : FreshDraws task s (x :: xs)) :
    FreshDraws task (step C task s (.process x)) xs := by
  obtain ⟨hx, hdistinct⟩ := List.pairwise_cons.mp h.distinct
  refine ⟨fun y hy => h.injective y (List.mem_cons_of_mem x hy), ?_, hdistinct⟩
  intro y hy j r hr
  rw [rows_process (h.injective x List.mem_cons_self) (h.unused x List.mem_cons_self),
    List.mem_append] at hr
  obtain hr | hr := hr
  · exact h.unused y (List.mem_cons_of_mem x hy) j r hr
  · obtain ⟨c, hc, rfl⟩ := List.mem_map.mp hr
    obtain ⟨-, i, hi⟩ := of_mem_pending hc
    rw [hi]
    exact hx y hy i j

/-- After a history and before more attempts, the draws are fresh, and the hashes that are stored
are those from before it and those of the texts that were read in it. -/
theorem history_spec (steps : List RechunkStep) {xs : List ChunkAttempt}
    (h : FreshDraws task s (attempts steps ++ xs)) :
    FreshDraws task (history C task s steps) xs ∧
      ∀ W : Set String, storedHashes task (history C task s steps) ⊆ W ↔
        storedHashes task s ⊆ W ∧ Runs.Each (fun s i _ => ∀ x, i = .process x →
          addedHashes C task s x ⊆ W) s (Runs.trace (step C task) s steps) := by
  -- only an attempt adds hashes; the draws of the attempts to come stay fresh
  induction steps generalizing s with
  | nil => exact ⟨h, fun W => (and_iff_left trivial).symm⟩
  | cons i steps ih =>
    show FreshDraws task (history C task (step C task s i) steps) xs ∧ ∀ W,
      storedHashes task (history C task (step C task s i) steps) ⊆ W ↔ _ ∧ (_ ∧ _)
    cases i with
    | process x =>
      obtain ⟨hfresh, hstored⟩ := ih h.process
      have hhead : FreshDraws task s (x :: (attempts steps ++ xs)) := h
      refine ⟨hfresh, fun W => ?_⟩
      rw [hstored, storedHashes_process (hhead.injective x List.mem_cons_self)
        (hhead.unused x List.mem_cons_self), Set.union_subset_iff, and_assoc]
      simp only [RechunkStep.process.injEq, forall_eq']
    | revise post =>
      obtain ⟨hfresh, hstored⟩ := ih (FreshDraws.of_other (i := .revise post) h (by simp))
      refine ⟨hfresh, fun W => ?_⟩
      rw [hstored, storedHashes_revise]
      simp only [reduceCtorEq, false_implies, implies_true, true_and]
    | embedded f =>
      obtain ⟨hfresh, hstored⟩ := ih (FreshDraws.of_other (i := .embedded f) h (by simp))
      refine ⟨hfresh, fun W => ?_⟩
      rw [hstored, storedHashes_embedded]
      simp only [reduceCtorEq, false_implies, implies_true, true_and]

end Rechunk

open Rechunk in
/-- After any history of versions, attempts and embeddings, an attempt that reads the text of the
latest version leaves exactly the hashes of its windows, and every row that they cover as it was,
if and only if nothing stored before the history and no text read in it has another window. -/
theorem current_iff_not_superseded (C : Chunking) (task : ChunkTask) (s : ChunkDb)
    (steps : List RechunkStep) (x : ChunkAttempt) (text : String)
    (hsha : ∀ window, C.sha256 window ≠ "") (hfresh : FreshDraws task s (attempts steps ++ [x]))
    (hread : readText task (history C task s steps) x = some text) :
    Current C task text (history C task s steps) (history C task s (steps ++ [.process x])) ↔
      storedHashes task s ⊆ windowHashes C task text ∧ ∀ pre y, pre ++ [.process y] <+: steps →
        ∀ earlier, readText task (history C task s pre) y = some earlier →
          windowHashes C task earlier ⊆ windowHashes C task text := by
  obtain ⟨hlast, hstored⟩ := history_spec (C := C) steps hfresh
  have hinj := hlast.injective x (List.mem_singleton_self x)
  have hunused := hlast.unused x (List.mem_singleton_self x)
  have hend : history C task s (steps ++ [.process x]) =
      step C task (history C task s steps) (.process x) :=
    List.foldl_concat _ _ _ _
  have hsuperseded : storedHashes task (history C task s steps) ⊆ windowHashes C task text ↔
      storedHashes task s ⊆ windowHashes C task text ∧ ∀ pre y, pre ++ [.process y] <+: steps →
        ∀ earlier, readText task (history C task s pre) y = some earlier →
          windowHashes C task earlier ⊆ windowHashes C task text := by
    rw [hstored, Runs.each_trace_prefix]
    apply and_congr_right'
    constructor
    · intro h pre y hp earlier hearlier
      rw [← addedHashes_of_some hearlier]
      exact h pre _ hp y rfl
    · rintro h pre _ hp y rfl hash ⟨earlier, hearlier, hhash⟩
      exact h pre y hp earlier hearlier hhash
  rw [← hsuperseded, hend]
  -- the last attempt adds its windows and deletes nothing
  constructor
  · intro hcurrent
    rw [← hcurrent.hashes, storedHashes_process hinj hunused]
    exact Set.subset_union_left
  · intro hsub
    refine ⟨?_, fun r _ hr => kept_process hsha hinj hunused hr⟩
    rw [storedHashes_process hinj hunused, addedHashes_of_some hread]
    exact Set.union_eq_right.mpr hsub

def wordChunking : Chunking where
  chunkText _ text := [text]
  estimateTokens _ := 1
  sha256 window :=
    if window = "text" then "982d9e3eb996f559e633f4d194def3761d909f5a3b647d1a851fead67c32c9d1"
    else "1e4de31f94535968f4e4ca8fd577a4598e984bc5c89dae095924e944c121c7a3"

/-- An attempt whose ids start with that character. -/
def attemptOf (c : Char) : ChunkAttempt where
  base := titleTask.toBaseTask
  analysisText := none
  ids i := String.ofList (c :: List.replicate i '0')
  eventId := String.ofList [c]
  span := none

def titleRevised : List RechunkStep :=
  [.process (attemptOf 'a'), .embedded fun _ => some [1],
    .revise { titledPost with title := "revised", updatedAt := ⟨2, true⟩ }]

theorem sha256_wordChunking (window : String) : wordChunking.sha256 window ≠ "" := by
  unfold wordChunking
  show (if window = "text" then _ else _) ≠ ""
  split <;> decide

theorem freshDraws_titleRevised : Rechunk.FreshDraws titleTask unchunkedDb
    (Rechunk.attempts titleRevised ++ [attemptOf 'b']) where
  injective := by
    have hinj : ∀ c, Function.Injective (attemptOf c).ids := by
      intro c i j h
      have hchars : c :: List.replicate i '0' = c :: List.replicate j '0' :=
        String.ofList_injective h
      simpa using congrArg List.length hchars
    intro x hx
    obtain rfl | rfl : x = attemptOf 'a' ∨ x = attemptOf 'b' := by
      simpa [Rechunk.attempts, titleRevised] using hx
    · exact hinj 'a'
    · exact hinj 'b'
  unused x _ i r hr := nomatch hr
  distinct := List.pairwise_pair.mpr (ids_deliveryOf_ne (by decide) none none)

theorem readText_titleRevised :
    Rechunk.readText titleTask (Rechunk.history wordChunking titleTask unchunkedDb titleRevised)
      (attemptOf 'b') = some "revised" := by
  decide +kernel

theorem current_iff_not_superseded_title_revised :
    Rechunk.Current wordChunking titleTask "revised"
        (Rechunk.history wordChunking titleTask unchunkedDb titleRevised)
        (Rechunk.history wordChunking titleTask unchunkedDb
          (titleRevised ++ [.process (attemptOf 'b')])) ↔
      Rechunk.storedHashes titleTask unchunkedDb ⊆
          Rechunk.windowHashes wordChunking titleTask "revised" ∧
        ∀ pre y, pre ++ [.process y] <+: titleRevised → ∀ earlier,
          Rechunk.readText titleTask (Rechunk.history wordChunking titleTask unchunkedDb pre) y =
              some earlier →
            Rechunk.windowHashes wordChunking titleTask earlier ⊆
              Rechunk.windowHashes wordChunking titleTask "revised" :=
  current_iff_not_superseded wordChunking titleTask unchunkedDb titleRevised (attemptOf 'b')
    "revised" sha256_wordChunking freshDraws_titleRevised readText_titleRevised

/-- The window of the old title is still there. -/
theorem superseded_window_stays :
    Rechunk.readText titleTask (Rechunk.history wordChunking titleTask unchunkedDb titleRevised)
        (attemptOf 'b') = some "revised" ∧
      ¬ Rechunk.Current wordChunking titleTask "revised"
        (Rechunk.history wordChunking titleTask unchunkedDb titleRevised)
        (Rechunk.history wordChunking titleTask unchunkedDb
          (titleRevised ++ [.process (attemptOf 'b')])) := by
  refine ⟨readText_titleRevised, fun h => ?_⟩
  have hrows : ((Rechunk.history wordChunking titleTask unchunkedDb
      (titleRevised ++ [.process (attemptOf 'b')])).tables.rows titleTask.chunkTableName).map
        (fun r => (r.postId, r.textHash)) =
      [(50, wordChunking.sha256 "text"), (50, wordChunking.sha256 "revised")] := by
    decide +kernel
  obtain ⟨r, hr, he⟩ := List.exists_of_mem_map (hrows ▸ List.mem_cons_self)
  have hstored : wordChunking.sha256 "text" ∈
      Rechunk.windowHashes wordChunking titleTask "revised" := by
    rw [← h.hashes]
    exact ⟨r, hr, (Prod.mk.inj he).1, (Prod.mk.inj he).2⟩
  obtain ⟨window, hw, hsha⟩ := hstored
  obtain rfl : window = "revised" := List.mem_singleton.mp hw
  revert hsha
  decide

end RagPipeline
