import RagPipeline.Handlers.ChunkText
import RagPipeline.Handlers.Rechunk
import RagPipeline.Lib.Crash

namespace RagPipeline
open Coro

/-- There is a letter in the text; and a text of whitespace and escape sequences only is short, or
has whitespace alone in no window of the fallback. -/
structure Chunkable (text : Text) : Prop where
  hasText : HasText text
  fallback : Escapes ['n', 'r'] text →
    text.length ≤ charTarget ∨ ∀ window ∈ splitTextFallback text, HasText window

theorem Chunkable.of_not_escapes {text : Text} (htext : HasText text)
    (h : ¬ Escapes ['n', 'r'] text) : Chunkable text := ⟨htext, fun hesc => absurd hesc h⟩

section Windows

variable {taskType : ChunkTaskType} {text : Text} {fuel : ℕ} {windows : List Text}

theorem tolerance_selectStrategy (taskType : String) :
    (selectStrategy taskType).chunkSizeTolerance ≤ 1 :=
  (tolerance_le _).trans (by norm_num)

theorem chunkText_of_escapes (h : Escapes ['n', 'r'] text) :
    chunkText (fuel + 1) taskType text = some (splitTextFallback text) := by
  have hempty : (selectStrategy taskType.key).chunkAtBoundaries text (fuel + 1) = some [] :=
    (ChunkAtBoundaryStrategy.chunkAtBoundaries_eq_nil_iff
      (tolerance_selectStrategy taskType.key) rfl).mpr
        ⟨Nat.succ_ne_zero fuel, (hasText_normalise_iff text).mpr h⟩
  rw [chunkText, hempty]
  rfl

theorem hasText_of_chunkText (htext : ¬ Escapes ['n', 'r'] text)
    (h : chunkText fuel taskType text = some windows) : ∀ window ∈ windows, HasText window := by
  obtain ⟨chunks, hchunks, hwindows⟩ := Option.map_eq_some_iff.mp h
  have hne : chunks ≠ [] := by
    intro hnil
    rw [hnil, ChunkAtBoundaryStrategy.chunkAtBoundaries_eq_nil_iff
      (tolerance_selectStrategy taskType.key) rfl] at hchunks
    exact htext ((hasText_normalise_iff text).mp hchunks.2)
  rw [if_neg hne] at hwindows
  rw [← hwindows]
  exact ChunkAtBoundaryStrategy.chunkAtBoundaries_hasText hchunks

theorem Chunkable.fallback_hasText (h : Chunkable text) (hesc : Escapes ['n', 'r'] text) :
    ∀ window ∈ splitTextFallback text, HasText window := by
  apply (h.fallback hesc).elim
  · intro hshort
    rw [splitTextFallback_of_short hshort, List.forall_mem_singleton]
    exact h.hasText
  · exact id

theorem exists_blank_window (h : ¬ HasText text) :
    ∃ window ∈ splitTextFallback text, ¬ HasText window := by
  obtain ⟨window, windows, hwindows⟩ := List.exists_cons_of_ne_nil (splitTextFallback_ne_nil text)
  have hmem : window ∈ splitTextFallback text := by
    rw [hwindows]
    exact List.mem_cons_self
  refine ⟨window, hmem, not_hasText_iff.mpr fun c hc => ?_⟩
  exact not_hasText_iff.mp h c (splitTextFallback_subset text window hmem hc)

/-- A long text of tabs before an escape sequence begins with a blank window. -/
example : ∃ window ∈ splitTextFallback (List.replicate 2048 '\t' ++ ['\\', 'n']),
    ¬ HasText window := by decide +kernel

/-- The windows have letters, however long the boundary strategy takes. -/
theorem chunkText_hasText_iff (taskType : ChunkTaskType) (text : Text) :
    (∀ fuel windows, chunkText fuel taskType text = some windows →
      ∀ window ∈ windows, HasText window) ↔ Chunkable text := by
  constructor
  · intro h
    have hfallback : Escapes ['n', 'r'] text → ∀ window ∈ splitTextFallback text, HasText window :=
      fun hesc => h 1 _ (chunkText_of_escapes hesc)
    refine ⟨?_, fun hesc => .inr (hfallback hesc)⟩
    by_contra hblank
    have hesc : Escapes ['n', 'r'] text := by
      rw [← hasText_normalise_iff, normalise_of_notMem]
      · exact hblank
      · intro hmem
        exact hblank ⟨_, hmem, isSpace_backslash⟩
    obtain ⟨window, hwindow, hnone⟩ := exists_blank_window hblank
    exact hnone (hfallback hesc window hwindow)
  · intro h fuel windows hwindows
    by_cases hesc : Escapes ['n', 'r'] text
    · cases fuel with
      | zero => cases hwindows
      | succ fuel =>
        rw [chunkText_of_escapes hesc, Option.some_inj] at hwindows
        rw [← hwindows]
        exact h.fallback_hasText hesc
    · exact hasText_of_chunkText hesc hwindows

end Windows

/-- The chunking of the handler, with fuel for the boundary strategies; where a strategy does not
return, nothing comes after it. -/
def chunking (fuel : ℕ) (estimateTokens : String → ℕ) (sha256 : String → String) : Chunking where
  chunkText taskType text := ((chunkText fuel taskType text.toList).getD []).map String.ofList
  estimateTokens := estimateTokens
  sha256 := sha256

def ChunkOp.inserted : ChunkOp → Option (List Chunk)
  | bulkInsert chunks _ => some chunks
  | _ => none

def Chunk.NotBlank (c : Chunk) : Prop := HasText c.text.toList

section Handle

variable {C : Chunking} {ids : ℕ → String} {eventId : String} {span : Option SpanIds}
  {task : ChunkTask} {post : Post} {text : String} {chunks : List Chunk}

theorem text_of_mem_buildChunks {c : Chunk}
    (h : c ∈ ChunkPostHandler.buildChunks C ids post task text) :
    c.text ∈ C.chunkText task.taskType text := by
  obtain ⟨i, hi, hc⟩ := List.mem_mapIdx.mp h
  rw [← hc]
  exact List.getElem_mem hi

theorem only_storeNew (dim : ℕ) :
    (ChunkPostHandler.storeNew C ids eventId span task post text dim).Only fun op =>
      ∀ chunks ∈ op.inserted, ∀ c ∈ chunks, c.text ∈ C.chunkText task.taskType text := by
  unfold ChunkPostHandler.storeNew
  apply Only.bind
  · apply only_call
    intro chunks hchunks
    cases hchunks
  · intro _
    apply Only.bind
    · apply only_call
      intro chunks hchunks
      cases hchunks
    · intro existing
      cases hnew : ChunkPostHandler.newChunks existing
          (ChunkPostHandler.buildChunks C ids post task text) with
      | nil => trivial
      | cons c cs =>
        simp only
        unfold ChunkPostHandler.store
        apply Only.bind
        · apply only_call
          intro chunks hchunks d hd
          obtain rfl := Option.some.inj hchunks
          rw [← hnew] at hd
          exact text_of_mem_buildChunks (List.mem_filter.mp hd).1
        · intro _
          apply Only.bind
          · apply only_call
            intro chunks hchunks
            cases hchunks
          · intro _
            trivial

theorem notBlank_of_inserted {ω : (op : ChunkOp) → Except PyExc (ChunkOp.Ans op)}
    (hfetch : ω (.fetch task.postId task.postTable) = .ok (some post))
    (h : ∀ text ∈ truthy (ChunkPostHandler.resolveText task post),
      ∀ window ∈ C.chunkText task.taskType text, HasText window.toList) :
    ∀ chunks ∈ (run (noting ω ChunkOp.inserted)
      (ChunkPostHandler.handle C ids eventId span task) []).2, ∀ c ∈ chunks, c.NotBlank := by
  have hnote : noting ω ChunkOp.inserted (.fetch task.postId task.postTable) [] =
      (.ok (some post), []) := by
    unfold noting
    rw [hfetch]
    rfl
  unfold ChunkPostHandler.handle
  rw [run_bind, run_call, hnote]
  simp only
  cases htext : truthy (ChunkPostHandler.resolveText task post) with
  | none => simp
  | some text =>
    obtain ⟨cfg, hcfg⟩ := exists_embedConfig task.taskType
    simp only [hcfg]
    intro chunks hchunks c hc
    have hread : c.text ∈ C.chunkText task.taskType text :=
      (only_storeNew cfg.dim).noted (by simp) chunks hchunks c hc
    exact h text htext c.text hread

def freshStore (post : Post) : (op : ChunkOp) → Except PyExc (ChunkOp.Ans op)
  | .fetch .. => .ok (some post)
  | .ensureTable .. => .ok ()
  | .getTextHashes .. => .ok OrderedDict.empty
  | .bulkInsert .. => .ok ()
  | .publish _ => .ok ()

theorem newChunks_empty (chunks : List Chunk) :
    ChunkPostHandler.newChunks OrderedDict.empty chunks = chunks := by
  apply List.filter_eq_self.mpr
  intro c _
  rfl

theorem run_freshStore (htext : truthy (ChunkPostHandler.resolveText task post) = some text)
    (hwindows : C.chunkText task.taskType text ≠ []) :
    (run (noting (freshStore post) ChunkOp.inserted)
      (ChunkPostHandler.handle C ids eventId span task) []).2 =
        [ChunkPostHandler.buildChunks C ids post task text] := by
  obtain ⟨cfg, hcfg⟩ := exists_embedConfig task.taskType
  have hne : ChunkPostHandler.buildChunks C ids post task text ≠ [] := by
    unfold ChunkPostHandler.buildChunks
    rwa [ne_eq, List.mapIdx_eq_nil_iff]
  obtain ⟨c, cs, hchunks⟩ := List.exists_cons_of_ne_nil hne
  simp only [ChunkPostHandler.handle, run_bind, run_call, noting, freshStore, htext, hcfg,
    ChunkPostHandler.storeNew, newChunks_empty, hchunks, ChunkPostHandler.store, ChunkOp.inserted]
  simp

theorem exists_mem_buildChunks {window : String} (h : window ∈ C.chunkText task.taskType text) :
    ∃ c ∈ ChunkPostHandler.buildChunks C ids post task text, c.text = window := by
  obtain ⟨i, hi, hwindow⟩ := List.mem_iff_getElem.mp h
  exact ⟨_, List.mem_mapIdx.mpr ⟨i, hi, rfl⟩, hwindow⟩

end Handle

section Chunkable

variable {fuel : ℕ} {estimateTokens : String → ℕ} {sha256 : String → String}
  {taskType : ChunkTaskType} {text : String}

theorem chunkText_chunking {windows : List Text}
    (h : chunkText fuel taskType text.toList = some windows) :
    (chunking fuel estimateTokens sha256).chunkText taskType text =
      windows.map String.ofList := by
  show ((chunkText fuel taskType text.toList).getD []).map String.ofList = _
  rw [h, Option.getD_some]

theorem Chunkable.windows (h : Chunkable text.toList) :
    ∀ window ∈ (chunking fuel estimateTokens sha256).chunkText taskType text,
      HasText window.toList := by
  intro window hmem
  cases hwindows : chunkText fuel taskType text.toList with
  | none =>
    have hnil : (chunking fuel estimateTokens sha256).chunkText taskType text = [] := by
      show ((chunkText fuel taskType text.toList).getD []).map String.ofList = []
      rw [hwindows]
      rfl
    rw [hnil] at hmem
    cases hmem
  | some windows =>
    rw [chunkText_chunking hwindows] at hmem
    obtain ⟨w, hw, hwindow⟩ := List.mem_map.mp hmem
    rw [← hwindow, String.toList_ofList]
    exact (chunkText_hasText_iff taskType text.toList).mpr h fuel windows hwindows w hw

end Chunkable

theorem chunkable_of_head {text : Text} {c : Char} (h : text.head? = some c)
    (hspace : isSpace c = false) (hc : c ≠ '\\') : Chunkable text := by
  obtain ⟨cs, hcs⟩ := List.head?_eq_some_iff.mp h
  rw [hcs]
  apply Chunkable.of_not_escapes
  · exact ⟨c, List.mem_cons_self, hspace⟩
  · exact not_escapes_cons (by simp [hspace]) hc

theorem head?_titleAndSummary {post : Post} (h : ChunkPostHandler.titleAndSummary post ≠ "") :
    (ChunkPostHandler.titleAndSummary post).toList.head? = some 'T' ∨
      (ChunkPostHandler.titleAndSummary post).toList.head? = some 'S' := by
  unfold ChunkPostHandler.titleAndSummary at h ⊢
  dsimp only at h ⊢
  split_ifs at h ⊢
  · exact absurd rfl h
  · right
    simp
  · left
    simp
  · left
    simp

theorem truthy_eq_some {s : Option String} {t : String} :
    truthy s = some t ↔ s = some t ∧ t ≠ "" := by
  rw [truthy, Option.filter_eq_some_iff]
  simp

theorem chunkable_summaryTitle {task : ChunkTask} {post : Post}
    (htype : task.taskType = .summaryTitle) :
    ∀ text ∈ truthy (ChunkPostHandler.resolveText task post), Chunkable text.toList := by
  intro text htext
  have hresolve : ChunkPostHandler.resolveText task post =
      truthy (some (ChunkPostHandler.titleAndSummary post)) := by
    rw [ChunkPostHandler.resolveText, htype]
  rw [hresolve, Option.mem_def, truthy_eq_some, truthy_eq_some, Option.some_inj] at htext
  obtain ⟨⟨hsummary, -⟩, hne⟩ := htext
  rw [← hsummary] at hne ⊢
  apply (head?_titleAndSummary hne).elim
  · intro hT
    exact chunkable_of_head hT (by decide) (by decide)
  · intro hS
    exact chunkable_of_head hS (by decide) (by decide)

section History

variable {C : Chunking} {task : ChunkTask} {s : ChunkDb} {x : ChunkAttempt}

theorem notBlank_of_mem_pending {c : Chunk}
    (h : ∀ text ∈ Rechunk.readText task s x, ∀ window ∈ C.chunkText task.taskType text,
      HasText window.toList) (hc : c ∈ x.delivery.pending C (x.task task) s) : c.NotBlank := by
  cases htext : Rechunk.readText task s x with
  | none =>
    rw [Rechunk.pending_of_none htext] at hc
    cases hc
  | some text =>
    obtain ⟨post, hpost⟩ := Rechunk.exists_pending htext
    rw [hpost] at hc
    have hread := text_of_mem_buildChunks (List.mem_filter.mp hc).1
    exact h text htext c.text hread

theorem notBlank_step {i : RechunkStep}
    (hrows : ∀ r ∈ s.tables.rows task.chunkTableName, r.toChunk.NotBlank)
    (h : ∀ x, i = .process x → ∀ text ∈ Rechunk.readText task s x,
      ∀ window ∈ C.chunkText task.taskType text, HasText window.toList) :
    ∀ r ∈ (Rechunk.step C task s i).tables.rows task.chunkTableName, r.toChunk.NotBlank := by
  intro r hr
  by_cases hi : ∃ x, i = .process x
  · obtain ⟨x, hx⟩ := hi
    rw [hx, Rechunk.rows_step_process] at hr
    apply (ChunkRepository.mem_bulkInsert hr).elim
    · exact hrows r
    · intro hnew
      obtain ⟨c, hc, hrow⟩ := hnew
      rw [hrow]
      exact notBlank_of_mem_pending (h x hx) hc
  · obtain ⟨q, hq, hchunk⟩ := Rechunk.rows_step_other (fun x hx => hi ⟨x, hx⟩) hr
    rw [hchunk]
    exact hrows q hq

theorem notBlank_history {fuel : ℕ} {estimateTokens : String → ℕ} {sha256 : String → String}
    (steps : List RechunkStep)
    (hrows : ∀ r ∈ s.tables.rows task.chunkTableName, r.toChunk.NotBlank)
    (h : ∀ pre x, pre ++ [.process x] <+: steps → ∀ text ∈ Rechunk.readText task
      (Rechunk.history (chunking fuel estimateTokens sha256) task s pre) x,
        Chunkable text.toList) :
    ∀ r ∈ (Rechunk.history (chunking fuel estimateTokens sha256) task s steps).tables.rows
      task.chunkTableName, r.toChunk.NotBlank := by
  induction steps generalizing s with
  | nil => exact hrows
  | cons i steps ih =>
    apply ih
    · apply notBlank_step hrows
      intro x hx text htext
      apply Chunkable.windows
      apply h [] x _ text htext
      rw [hx]
      exact List.prefix_append [_] steps
    · intro pre x hpre text htext
      exact h (i :: pre) x ((List.prefix_cons_inj i).mpr hpre) text htext

end History

/-- The chunks that are inserted for a post have letters exactly if its text, when there is one, is
chunkable. -/
theorem inserts_no_blank_iff (estimateTokens : String → ℕ) (sha256 : String → String)
    (ids : ℕ → String) (eventId : String) (span : Option SpanIds) (task : ChunkTask)
    (post : Post) :
    (∀ (fuel : ℕ) (ω : (op : ChunkOp) → Except PyExc (ChunkOp.Ans op)),
      ω (.fetch task.postId task.postTable) = .ok (some post) →
        ∀ chunks ∈ (run (noting ω ChunkOp.inserted) (ChunkPostHandler.handle
          (chunking fuel estimateTokens sha256) ids eventId span task) []).2,
            ∀ c ∈ chunks, c.NotBlank) ↔
      ∀ text ∈ truthy (ChunkPostHandler.resolveText task post), Chunkable text.toList := by
  constructor
  · intro h text htext
    apply (chunkText_hasText_iff task.taskType text.toList).mp
    intro fuel windows hwindows window hmem
    have hwindow : String.ofList window ∈
        (chunking fuel estimateTokens sha256).chunkText task.taskType text := by
      rw [chunkText_chunking hwindows]
      exact List.mem_map_of_mem hmem
    have hbuilt : ∃ c ∈ ChunkPostHandler.buildChunks (chunking fuel estimateTokens sha256) ids
        post task text, c.text = String.ofList window := exists_mem_buildChunks hwindow
    obtain ⟨c, hc, hctext⟩ := hbuilt
    have hnot : c.NotBlank := by
      apply h fuel (freshStore post) rfl _ _ c hc
      rw [run_freshStore htext (List.ne_nil_of_mem hwindow)]
      exact List.mem_singleton_self _
    rwa [Chunk.NotBlank, hctext, String.toList_ofList] at hnot
  · intro h fuel ω hfetch
    apply notBlank_of_inserted hfetch
    intro text htext
    exact (h text htext).windows

/-- A title of three spaces is chunked to itself. -/
def blankTitlePost : Post := { titledPost with title := "   " }

theorem blank_title_inserted :
    (run (noting (freshStore blankTitlePost) ChunkOp.inserted) (ChunkPostHandler.handle
      (chunking 1 (fun _ => 1) id) (deliveryOf 'a' none).ids "event" none titleTask) []).2.map
        (List.map Chunk.text) = [["   "]] ∧ ¬ HasText "   ".toList := by
  decide +kernel

end RagPipeline
