import RagPipeline.Api.SyncEvents
import RagPipeline.Dispatchers
import RagPipeline.Handlers.Chunk

namespace RagPipeline
open Coro

def Dispatch.chunkTask (d : Dispatch) : Option ChunkTask :=
  match d.task with
  | .chunk task => some task
  | _ => none

/-- A chunk task of the type for the post is among the dispatches. -/
def ChunkTaskPublished (ds : List Dispatch) (taskType : ChunkTaskType) (postTable : String)
    (postId : ℤ) : Prop :=
  ∃ task ∈ ds.filterMap Dispatch.chunkTask,
    task.taskType = taskType ∧ task.postTable = postTable ∧ task.postId = postId

instance (ds : List Dispatch) (taskType : ChunkTaskType) (postTable : String) (postId : ℤ) :
    Decidable (ChunkTaskPublished ds taskType postTable postId) :=
  inferInstanceAs (Decidable (∃ task ∈ ds.filterMap Dispatch.chunkTask, _))

/-- Two versions differ in a text, a missing one being the same as an empty one. -/
def Differs (text : Post → Option String) (old post : Post) : Prop :=
  (text old).getD "" ≠ (text post).getD ""

instance (text : Post → Option String) (old post : Post) : Decidable (Differs text old post) :=
  inferInstanceAs (Decidable (_ ≠ _))

def ChunkTaskType.watched : ChunkTaskType → List (Post → Option String)
  | body => [Post.bodyText, Post.customBody]
  | title => [fun post => some post.title, Post.customTitle]
  | summaryTitle => [Post.summary, fun post => some post.title, Post.customTitle]
  | analysis => []

def textFields : List (Post → Option String) :=
  [Post.bodyText, Post.customBody, Post.summary, fun post => some post.title, Post.customTitle]

variable {old post : Post} {t : ChunkTaskType}

theorem truthy_eq_iff {a b : Option String} : truthy a = truthy b ↔ a.getD "" = b.getD "" := by
  unfold truthy
  cases a <;> cases b <;> grind

theorem truthy_or (a b : Option String) :
    truthy (truthy a <|> b) = (truthy a <|> truthy b) := by
  unfold truthy
  cases a <;> cases b <;> grind

theorem resolveText_eq_of_same {task : ChunkTask} (h : task.taskType ≠ .analysis)
    (hsame : ∀ text ∈ task.taskType.watched, ¬ Differs text old post) :
    truthy (ChunkPostHandler.resolveText task post) =
      truthy (ChunkPostHandler.resolveText task old) := by
  unfold ChunkPostHandler.resolveText
  cases ht : task.taskType with
  | analysis => exact absurd ht h
  | body =>
    simp only [ht, ChunkTaskType.watched, List.forall_mem_cons, Differs, ne_eq, not_not] at hsame
    obtain ⟨hbody, hcustom, -⟩ := hsame
    simp only [truthy_or]
    rw [truthy_eq_iff.mpr hbody, truthy_eq_iff.mpr hcustom]
  | title =>
    simp only [ht, ChunkTaskType.watched, List.forall_mem_cons, Differs, ne_eq, not_not] at hsame
    obtain ⟨htitle, hcustom, -⟩ := hsame
    simp only [truthy_or]
    rw [truthy_eq_iff.mpr htitle, truthy_eq_iff.mpr hcustom]
  | summaryTitle =>
    simp only [ht, ChunkTaskType.watched, List.forall_mem_cons, Differs, ne_eq, not_not,
      Option.getD_some] at hsame
    obtain ⟨hsummary, htitle, -⟩ := hsame
    unfold ChunkPostHandler.titleAndSummary
    rw [hsummary, htitle]

theorem evaluateChangedFields_eq_nil_iff : evaluateChangedFields post (some old) = [] ↔
    ∀ text ∈ textFields, ¬ Differs text old post := by
  simp [evaluateChangedFields, textFields, Differs]

theorem anyChanged_of_ne_nil {fieldsChanged : List String} (h : fieldsChanged ≠ [])
    (watched : List String) : PostDispatcher.anyChanged fieldsChanged watched = true ↔
      ∃ f ∈ watched, f ∈ fieldsChanged := by
  simp [PostDispatcher.anyChanged, h]

/-- Whether `_dispatch_chunk_tasks` wants a task of the type. -/
def PostDispatcher.wanted (event : PostSyncedEvent) : ChunkTaskType → Bool
  | .body => bodyChanged event
  | .title => titleChanged event
  | .summaryTitle => summaryChanged event
  | .analysis => false

theorem chunkTaskPublished_routeTasks (d : PostDispatcher) (event : PostSyncedEvent)
    (l : List (ChunkTaskType × Bool)) :
    ChunkTaskPublished (d.routeTasks event l) t event.postTable event.postId ↔ (t, true) ∈ l := by
  induction l with
  | nil => simp [ChunkTaskPublished, PostDispatcher.routeTasks]
  | cons p rest ih =>
    obtain ⟨taskType, wanted⟩ := p
    cases wanted with
    | false => simp [PostDispatcher.routeTasks, ih]
    | true =>
      have hcfg : ∃ cfg, embedConfigs.get? taskType.key = some cfg := by
        cases taskType <;> exact ⟨_, rfl⟩
      obtain ⟨cfg, hcfg⟩ := hcfg
      rw [PostDispatcher.routeTasks, hcfg, List.mem_cons, ← ih]
      simp [ChunkTaskPublished, Dispatch.chunkTask, eq_comm]

theorem chunkTaskPublished_dispatch (d : PostDispatcher) (event : PostSyncedEvent) :
    ChunkTaskPublished (d.dispatchChunkTasks event) t event.postTable event.postId ↔
      PostDispatcher.wanted event t = true := by
  unfold PostDispatcher.dispatchChunkTasks
  rw [chunkTaskPublished_routeTasks]
  cases t <;> simp [PostDispatcher.wanted]

theorem mem_evaluateChangedFields_iff (f : String) : f ∈ evaluateChangedFields post (some old) ↔
    (f = "body_text" ∧ Differs Post.bodyText old post) ∨
    (f = "custom_body" ∧ Differs Post.customBody old post) ∨
    (f = "summary" ∧ Differs Post.summary old post) ∨
    (f = "title" ∧ Differs (fun post => some post.title) old post) ∨
    (f = "custom_title" ∧ Differs Post.customTitle old post) := by
  simp only [evaluateChangedFields, Differs, List.mem_filterMap, List.exists_mem_cons_iff]
  simp [and_comm, eq_comm]

theorem wanted_event_iff (x : SyncStep) (old : Post) (t : ChunkTaskType) :
    PostDispatcher.wanted (x.event (some old)) t = true ↔
      (t ≠ .analysis ∧ (t = .summaryTitle → (truthy x.post.summary).isSome)) ∧
        ((∀ text ∈ textFields, ¬ Differs text old x.post) ∨
          ∃ text ∈ t.watched, Differs text old x.post) := by
  have hsummary : (x.event (some old)).hasSummary = (truthy x.post.summary).isSome := rfl
  -- an empty list of changed fields stands for all of them in `any_changed`
  by_cases hsame : ∀ text ∈ textFields, ¬ Differs text old x.post
  · have hnil : (x.event (some old)).fieldsChanged = [] :=
      evaluateChangedFields_eq_nil_iff.mpr hsame
    rw [and_iff_left (Or.inl hsame)]
    cases t <;> simp [PostDispatcher.wanted, PostDispatcher.bodyChanged,
      PostDispatcher.titleChanged, PostDispatcher.summaryChanged, PostDispatcher.anyChanged, hnil,
      hsummary]
  · have hne : (x.event (some old)).fieldsChanged ≠ [] :=
      fun h => hsame (evaluateChangedFields_eq_nil_iff.mp h)
    have hmem : ∀ f, f ∈ (x.event (some old)).fieldsChanged ↔ _ := mem_evaluateChangedFields_iff
    rw [or_iff_right hsame]
    cases t with
    | body =>
      rw [PostDispatcher.wanted, PostDispatcher.bodyChanged, anyChanged_of_ne_nil hne]
      simp [hmem, ChunkTaskType.watched]
    | title =>
      rw [PostDispatcher.wanted, PostDispatcher.titleChanged, anyChanged_of_ne_nil hne]
      simp [hmem, ChunkTaskType.watched]
    | summaryTitle =>
      rw [PostDispatcher.wanted, PostDispatcher.summaryChanged, Bool.and_eq_true,
        anyChanged_of_ne_nil hne]
      simp [hmem, ChunkTaskType.watched, hsummary]
    | analysis => simp [PostDispatcher.wanted]

/-- The route with a database and an event bus that work. -/
abbrev SyncCall.afterOk (c : SyncCall) (db : PostStore) : PostStore := c.after (fun _ => true) db

/-- The state that the route is in when it comes to the post. -/
def SyncCall.before (c : SyncCall) (db : PostStore) (i : ℕ) : PostStore :=
  (c.upTo i).afterOk db

/-- What the dispatcher publishes for the post: it reads what the route appends to the log. -/
def SyncCall.chunkTasks (c : SyncCall) (d : PostDispatcher) (db : PostStore) (i : ℕ) :
    List Dispatch :=
  d.handleEvents ((c.before db (i + 1)).events.drop (c.before db i).events.length)

structure SyncCall.Overwrites (c : SyncCall) (db : PostStore) (i : ℕ) (old post : Post) :
    Prop where
  sent : c.req.posts[i]? = some post
  row : (c.before db i).row (postTable c.req.libraryId) post.postId = some old
  fresher : old.updatedAt.ge post.updatedAt = .ok false

theorem SyncCall.before_succ (c : SyncCall) (db : PostStore) {i : ℕ}
    (h : c.req.posts[i]? = some post) :
    c.before db (i + 1) = afterStep (fun _ => true) (c.before db i) (c.step (post, i)) := by
  have hstep : c.steps[i]? = some (c.step (post, i)) := by simp [SyncCall.steps, h]
  unfold SyncCall.before SyncCall.afterOk
  rw [SyncCall.after_eq, SyncCall.after_eq, SyncCall.steps_upTo, SyncCall.steps_upTo,
    List.take_add_one, hstep, Option.toList_some, List.foldl_append]
  rfl

theorem DateTime.lt_of_ge_false {a b : DateTime} (h : a.ge b = .ok false) :
    a.aware = b.aware ∧ a.instant < b.instant := by
  unfold DateTime.ge at h
  split at h
  next ha => exact ⟨ha, by simpa using Except.ok.inj h⟩
  next => cases h

theorem SyncCall.chunkTasks_of_overwrites {c : SyncCall} {db : PostStore} {i : ℕ}
    (h : c.Overwrites db i old post) (d : PostDispatcher) :
    c.chunkTasks d db i = d.dispatchChunkTasks ((c.step (post, i)).event (some old)) := by
  obtain ⟨haware, hlt⟩ := DateTime.lt_of_ge_false h.fresher
  have hrow : (c.before db i).row (c.step (post, i)).tableName (c.step (post, i)).post.postId =
      some old := h.row
  obtain ⟨r, -, hsynced⟩ := synced_stepResult (fun _ => true) (c.before db i) (c.step (post, i))
  rw [SyncCall.chunkTasks, c.before_succ db h.sent]
  -- a fresher version is neither refused nor skipped, and the bus takes its event
  generalize afterStep (fun _ => true) (c.before db i) (c.step (post, i)) = db' at hsynced ⊢
  cases hsynced with
  | refused _ hrow' hne =>
    obtain rfl := Option.some.inj (hrow.symm.trans hrow')
    exact absurd haware hne
  | skipped hrow' hle =>
    obtain rfl := Option.some.inj (hrow.symm.trans hrow')
    exact absurd hlt (not_lt.mpr hle)
  | lost _ _ hp => cases hp
  | published _ _ =>
    rw [hrow]
    simp [PostDispatcher.handleEvents]

theorem SyncCall.chunkTaskPublished_iff {c : SyncCall} {db : PostStore} {i : ℕ}
    (h : c.Overwrites db i old post) (d : PostDispatcher) (t : ChunkTaskType) :
    ChunkTaskPublished (c.chunkTasks d db i) t (postTable c.req.libraryId) post.postId ↔
      (t ≠ .analysis ∧ (t = .summaryTitle → (truthy post.summary).isSome)) ∧
        ((∀ text ∈ textFields, ¬ Differs text old post) ∨
          ∃ text ∈ t.watched, Differs text old post) := by
  rw [c.chunkTasks_of_overwrites h]
  exact (chunkTaskPublished_dispatch d ((c.step (post, i)).event (some old))).trans
    (wanted_event_iff (c.step (post, i)) old t)

/-- Whatever a fresher version changes in the text of a task type, the type's task is published;
that of a summary only while the version has one. -/
theorem text_change_chunked {c : SyncCall} {db : PostStore} {i : ℕ}
    (h : c.Overwrites db i old post) (d : PostDispatcher) (task : ChunkTask)
    (htype : task.taskType ≠ .analysis)
    (hsummary : task.taskType = .summaryTitle → (truthy post.summary).isSome) (text : String)
    (hne : text ≠ "") (hpost : ChunkPostHandler.resolveText task post = some text)
    (hold : ChunkPostHandler.resolveText task old ≠ some text) :
    ChunkTaskPublished (c.chunkTasks d db i) task.taskType (postTable c.req.libraryId)
      post.postId := by
  rw [c.chunkTaskPublished_iff h]
  refine ⟨⟨htype, hsummary⟩, .inr ?_⟩
  by_contra hsame
  have htruthy : truthy (ChunkPostHandler.resolveText task post) =
      truthy (ChunkPostHandler.resolveText task old) :=
    resolveText_eq_of_same htype fun text hw hd => hsame ⟨text, hw, hd⟩
  rw [hpost, truthy_some hne] at htruthy
  exact hold (Option.filter_eq_some_iff.mp htruthy.symm).1

def versionRequest (post : Post) : SyncCall :=
  ⟨none, fun _ => "e", ⟨[post], "main", validateLibraryId_main⟩⟩

def untracedDispatcher : PostDispatcher := ⟨fun _ => none, fun _ => ChunkTaskType.key⟩

def firstVersion (summary : Bool) : Post :=
  { resentPost with summary := if summary then some "short" else none }

def laterVersion (revised summary : Bool) : Post :=
  { firstVersion summary with
    title := if revised then "revised" else "title"
    updatedAt := ⟨2, true⟩ }

def firstStored (summary : Bool) : PostStore :=
  (versionRequest (firstVersion summary)).afterOk .empty

theorem overwrites_laterVersion (summary revised summary' : Bool) :
    (versionRequest (laterVersion revised summary')).Overwrites (firstStored summary) 0
      (PostStore.stored (firstVersion summary)) (laterVersion revised summary') where
  sent := rfl
  row := by
    revert summary revised summary'
    decide +kernel
  fresher := by
    revert summary revised summary'
    decide +kernel

def summaryTask : ChunkTask where
  taskId := "task"
  traceId := none
  parentSpanId := none
  sourceEventId := none
  taskType := .summaryTitle
  postId := 50
  postTable := "posts_main"
  embedModel := qwen34bEmbedCfg.primary
  analysisText := none

theorem text_change_chunked_title_revised :
    ChunkTaskPublished ((versionRequest (laterVersion true true)).chunkTasks untracedDispatcher
      (firstStored true) 0) .summaryTitle "posts_main" 50 :=
  text_change_chunked (overwrites_laterVersion true true true) untracedDispatcher summaryTask
    (by decide) (fun _ => by decide) "Title: revised\n\nSummary: short" (by decide)
    (by decide +kernel) (by decide +kernel)

/-- The summary is taken away. Its task read both texts, they differ, and none is published. -/
theorem removed_summary_not_chunked :
    (versionRequest (laterVersion false false)).Overwrites (firstStored true) 0
        (PostStore.stored (firstVersion true)) (laterVersion false false) ∧
      ChunkTaskPublished
        ((versionRequest (firstVersion true)).chunkTasks untracedDispatcher .empty 0)
        .summaryTitle "posts_main" 50 ∧
      ChunkPostHandler.resolveText summaryTask (PostStore.stored (firstVersion true)) =
        some "Title: title\n\nSummary: short" ∧
      ChunkPostHandler.resolveText summaryTask (laterVersion false false) = some "Title: title" ∧
      ¬ ChunkTaskPublished ((versionRequest (laterVersion false false)).chunkTasks
        untracedDispatcher (firstStored true) 0) .summaryTitle "posts_main" 50 :=
  ⟨overwrites_laterVersion true false false, by decide +kernel⟩

/-- No task is published in vain exactly when one of the five texts has changed: if none has, the
empty list of changed fields reads as all of them. -/
theorem routing_minimal_iff {c : SyncCall} {db : PostStore} {i : ℕ}
    (h : c.Overwrites db i old post) (d : PostDispatcher) :
    (∀ t, ChunkTaskPublished (c.chunkTasks d db i) t (postTable c.req.libraryId) post.postId →
      ∃ text ∈ t.watched, Differs text old post) ↔ ∃ text ∈ textFields, Differs text old post := by
  simp only [c.chunkTaskPublished_iff h]
  constructor
  · intro hminimal
    by_contra hsame
    have hnone : ∀ text ∈ textFields, ¬ Differs text old post :=
      fun text hmem hd => hsame ⟨text, hmem, hd⟩
    obtain ⟨text, hw, hd⟩ := hminimal .body ⟨⟨nofun, nofun⟩, .inl hnone⟩
    refine hnone text ?_ hd
    simp only [ChunkTaskType.watched, List.mem_cons, List.not_mem_nil, or_false] at hw
    obtain rfl | rfl := hw <;> simp [textFields]
  · rintro ⟨text, hmem, hd⟩ t ⟨-, hsame | hwatched⟩
    · exact absurd hd (hsame text hmem)
    · exact hwatched

theorem routing_minimal_iff_title_revised :
    (∀ t, ChunkTaskPublished ((versionRequest (laterVersion true true)).chunkTasks
        untracedDispatcher (firstStored true) 0) t "posts_main" 50 →
      ∃ text ∈ t.watched, Differs text (PostStore.stored (firstVersion true))
        (laterVersion true true)) ↔
    ∃ text ∈ textFields, Differs text (PostStore.stored (firstVersion true))
      (laterVersion true true) :=
  routing_minimal_iff (overwrites_laterVersion true true true) untracedDispatcher

/-- Only the timestamp has moved on, and the body is chunked again. -/
theorem unchanged_version_chunked :
    (versionRequest (laterVersion false true)).Overwrites (firstStored true) 0
        (PostStore.stored (firstVersion true)) (laterVersion false true) ∧
      ¬ ∀ t, ChunkTaskPublished ((versionRequest (laterVersion false true)).chunkTasks
          untracedDispatcher (firstStored true) 0) t "posts_main" 50 →
        ∃ text ∈ t.watched, Differs text (PostStore.stored (firstVersion true))
          (laterVersion false true) := by
  refine ⟨overwrites_laterVersion true false true, fun hminimal => ?_⟩
  obtain ⟨text, hw, hd⟩ := hminimal .body (by decide +kernel)
  simp only [ChunkTaskType.watched, List.mem_cons, List.not_mem_nil, or_false] at hw
  obtain rfl | rfl := hw
  · exact absurd hd (by decide)
  · exact absurd hd (by decide)

end RagPipeline
