import RagPipeline.Ingestion.Messages

namespace RagPipeline
open Coro ChunkTables

/-! What is still to do is waited for by some message, or its message is lost. -/

def Notice.OfRow (u id : String) : Notice → Prop
  | event (.chunksCreated e) => u = relation e.chunkTable ∧ id ∈ e.chunkIds
  | task (.embed t) => t.names u id = true
  | _ => False

structure ChunkTask.About (task : ChunkTask) (u : String) (i : ℤ) (t : ChunkTaskType) : Prop where
  table : relation task.postTable = u
  post : task.postId = i
  type : task.taskType = t

/-- The message is about that text of that post, or the version may have brought it unannounced. -/
def Notice.OfText (u : String) (i : ℤ) (t : ChunkTaskType) : Notice → Prop
  | event (.postSynced e) =>
    relation e.postTable = u ∧ e.postId = i ∧ PostDispatcher.wanted e t = true
  | task (.chunk c) => c.About u i t
  | version x => relation x.tableName = u ∧ x.post.postId = i
  | _ => False

/-- The request is about to announce that text of that post. -/
def Sends (p : SyncCoro PostSyncResult) (u : String) (i : ℤ) (t : ChunkTaskType) : Prop :=
  ∃ e, unsent p = some e ∧ (Notice.event e).OfText u i t

/-- The texts of a post that are chunked: a summary is, with the title, while there is one. -/
def ChunkTaskType.Wanted (t : ChunkTaskType) (post : Post) : Prop :=
  t ≠ .analysis ∧ (t = .summaryTitle → (truthy post.summary).isSome)

namespace Ingestion

/-- A message about the row is on its way or was lost, or a worker is about to send it. -/
def RowAwaited (n : ℕ) (s : Ingestion) (u id : String) : Prop :=
  (∃ x ∈ s.waiting n .chunk, x.OfRow u id) ∨ ∃ j ∈ s.jobs, Announces j.program u id

/-- The row has its vector, or is waited for. -/
def RowCovered (n : ℕ) (s : Ingestion) (u id : String) : Prop :=
  ∀ r, s.store.tables.Has u r → r.id = id → r.embedding = none → RowAwaited n s u id

variable (env : IngestionEnv)

/-- A worker on the text has not read the post, or has read the text that it has now. -/
structure WorkedOn (s : Ingestion) (u : String) (i : ℤ) (t : ChunkTaskType) (j : ChunkJob) :
    Prop where
  mem : j ∈ s.jobs
  configured : AnyTask.Configured (.chunk j.task)
  about : j.task.About u i t
  stands : Standing env (fun _ => True) j.tag j.task s.store.tables j.seen j.program
  current : ∀ text, j.seen = some text → text = j.task.textIn s.store

/-- A message about the text is on its way or was lost, or a request is about to send it, or a
worker is on the text. -/
def TextAwaited (n : ℕ) (s : Ingestion) (u : String) (i : ℤ) (t : ChunkTaskType) : Prop :=
  (∃ x ∈ s.waiting n .post, x.OfText u i t) ∨ (∃ j ∈ s.syncs, Sends j.program u i t) ∨
    ∃ j, WorkedOn env s u i t j

/-- A task for the text has stored the windows that it has now. -/
def TextStored (s : Ingestion) (u : String) (i : ℤ) (t : ChunkTaskType) : Prop :=
  ∃ task, AnyTask.Configured (.chunk task) ∧ task.About u i t ∧
    ∀ text, task.textIn s.store = some text →
      WindowsStored env.chunking task s.store.tables text

def TextCovered (n : ℕ) (s : Ingestion) (u : String) (i : ℤ) (t : ChunkTaskType) : Prop :=
  ∀ post, s.store.posts u i = some post → t.Wanted post →
    TextStored env s u i t ∨ TextAwaited env n s u i t

end Ingestion

variable {env : IngestionEnv} {V : List SyncStep}

section Messages

variable {u id : String} {i : ℤ} {type : ChunkTaskType}

theorem announces_iff {p : ChunkCoro (List String)} :
    Announces p u id ↔ ∃ e, unpublished p = some e ∧ Notice.OfRow u id (.event e) := by
  constructor
  · rintro ⟨e, he, h⟩
    exact ⟨.chunksCreated e, he, h⟩
  · rintro ⟨e, he, h⟩
    cases e with
    | chunksCreated e => exact ⟨e, he, h⟩
    | _ => exact h.elim

theorem buildChunkTableName_ne_empty (p t m : String) : buildChunkTableName p t m ≠ "" := by
  intro h
  have hlist := congrArg String.toList h
  rw [buildChunkTableName, toList_chunkTable] at hlist
  have hlen := congrArg List.length hlist
  simp [toList_chunksMarker] at hlen

theorem ofRow_dispatched {e : Event} (he : e.Configured) (h : Notice.OfRow u id (.event e)) :
    ∃ t ∈ env.dispatched .chunk e, Notice.OfRow u id (.task t) := by
  cases e with
  | chunksCreated e =>
    obtain ⟨postTable, type, cfg, hcfg, htype, htable⟩ := he
    obtain ⟨hu, hid⟩ := h
    have hbody : embedConfigs.get? "body" = some bgeBaseEmbedCfg := rfl
    unfold IngestionEnv.dispatched ChunkDispatcher.dispatchEmbedding
    simp only [hbody, Option.map_some, Option.toList_some, List.mem_singleton,
      exists_eq_left]
    refine EmbedTask.names_iff.mpr ⟨e.chunkTable, ?_, hu, hid⟩
    unfold fetchTable
    rw [if_neg (List.ne_nil_of_mem hid)]
    apply truthy_some
    rw [htable]
    exact buildChunkTableName_ne_empty _ _ _
  | _ => exact h.elim

theorem ofText_dispatched {e : Event} (h : Notice.OfText u i type (.event e)) :
    ∃ x ∈ env.dispatched .post e, Notice.OfText u i type (.task x) := by
  cases e with
  | postSynced e =>
    obtain ⟨hu, hi, hwanted⟩ := h
    obtain ⟨task, htask, htype, htable, hpost⟩ :=
      (chunkTaskPublished_dispatch env.postDispatcher e).mpr hwanted
    obtain ⟨d, hd, hdtask⟩ := List.mem_filterMap.mp htask
    refine ⟨d.task, List.mem_map_of_mem hd, ?_⟩
    unfold Dispatch.chunkTask at hdtask
    split at hdtask
    next task' heq =>
      obtain rfl := Option.some.inj hdtask
      rw [heq]
      exact ⟨htable ▸ hu, hpost.trans hi, htype⟩
    · cases hdtask
  | _ => exact h.elim

end Messages

namespace Ingestion

variable {s t : Ingestion} {n : ℕ} {u id : String} {i : ℤ} {type : ChunkTaskType}

/-- What a step does to the rows: those that are new are announced next. -/
structure RowsStep (s t : Ingestion) : Prop where
  keeps : KeepsRows s.store.tables t.store.tables
  rows : ∀ u r, t.store.tables.Has u r →
    (∃ r₀, s.store.tables.Has u r₀ ∧ r₀.id = r.id ∧ (r.embedding = none → r₀.embedding = none)) ∨
      ∃ j ∈ t.jobs, Announces j.program u r.id

theorem rowsStep_of_eq (h : t.store.tables = s.store.tables) : RowsStep s t where
  keeps := by
    rw [h]
    exact .refl _
  rows u r hr := .inl ⟨r, h ▸ hr, rfl, fun hnone => hnone⟩

theorem rowsStep_of_left {E : String → Vec} {b : EmbedBatch E} {db : EmbedDb}
    (h : b.Left s.store.embedDb db) (ht : t.store.tables = db.tables) : RowsStep s t := by
  obtain heq | heq := h.tables
  · exact rowsStep_of_eq (ht.trans heq)
  · refine ⟨?_, fun u r hr => ?_⟩
    · rw [ht, heq]
      exact keeps_embedRows _ _ _
    · rw [ht, heq] at hr
      obtain ⟨r₀, hr₀, rfl⟩ := has_embedRows.mp hr
      refine .inl ⟨r₀, hr₀, rfl, fun hnone => ?_⟩
      simp only [ChunkTables.embedded] at hnone
      split_ifs at hnone
      exact hnone

theorem Step.rowsStep {a : IngestionAction} (hS : Sound env V s) (h : Step env s a t) :
    RowsStep s t := by
  cases h with
  | turn j before after hsyncs hreads => exact rowsStep_of_eq (j.tables_after s.store)
  | overlook j before after hsyncs hreads => exact rowsStep_of_eq (j.tables_after s.store)
  | await j before after hjobs hgoes =>
    have hj : j ∈ s.jobs := by
      rw [hjobs]
      exact List.mem_append_right _ List.mem_cons_self
    obtain ⟨hstep, -⟩ := hS.jobStep hj
    refine ⟨hstep.keeps, fun u r hr => ?_⟩
    obtain hr | ⟨-, -, -, hannounces⟩ := hstep.rows u r hr
    · exact .inl ⟨r, hr, rfl, fun hnone => hnone⟩
    · exact .inr ⟨_, List.mem_append_right _ List.mem_cons_self, hannounces⟩
  | embed modelName b rest hready hname hmodel => exact rowsStep_of_left (left_after b _) rfl
  | embedStopped modelName b stop rest again gone hready hsettled hname hmodel =>
    exact rowsStep_of_left (left_leaves b _ stop) rfl
  | _ => exact rowsStep_of_eq rfl

theorem awaited_of_announces {a : IngestionAction} (hS : Sound env V s) (h : Step env s a t)
    (hn : n ≤ s.lost.length) {j : ChunkJob} (hj : j ∈ s.jobs) (hann : Announces j.program u id) :
    RowAwaited n t u id := by
  obtain ⟨e, he, hrow⟩ := announces_iff.mp hann
  cases h.jobMoved hS hn j hj with
  | stays hmem _ => exact .inr ⟨j, hmem, hann⟩
  | awaited hstore hreaders hmem =>
    have hevents : t.store.events = s.store.events ++ [e] := by
      rw [hstore, (hS.jobStep hj).1.events, he]
      rfl
    refine .inl ⟨.event e, waiting_of_ahead ?_, hrow⟩
    rw [hreaders, hevents, LogReader.mem_ahead_append (hS.within .chunk)]
    exact .inr (List.mem_singleton_self e)
  | returned ids hret _ =>
    rw [hret] at he
    cases he
  | stopped _ hevent => exact .inl ⟨.event e, hevent _ e he, hrow⟩

/-- A row that is waited for has its vector after the step, or is still waited for. -/
theorem RowCovered.step {a : IngestionAction} (hS : Sound env V s) (hstep : Step env s a t)
    (hn : n ≤ s.lost.length) (h : RowCovered n s u id) : RowCovered n t u id := by
  intro r hr hid hnone
  obtain ⟨r₀, hr₀, hid₀, hnone₀⟩ | ⟨j, hj, hann⟩ := (hstep.rowsStep hS).rows u r hr
  · obtain ⟨x, hx, hrow⟩ | ⟨j, hj, hann⟩ := h r₀ hr₀ (hid₀.trans hid) (hnone₀ hnone)
    · cases hstep.moved hS hn x hx with
      | kept _ hx => exact .inl ⟨x, hx, hrow⟩
      | dispatched e he hdispatched =>
        obtain ⟨y, hy, hrow⟩ := ofRow_dispatched (hS.events e he) hrow
        exact .inl ⟨_, hdispatched y hy, hrow⟩
      | delivered task _ _ => exact hrow.elim
      | embedded task E named hnamed htables =>
        -- its vector is written
        rw [htables] at hr
        obtain ⟨r₁, -, rfl⟩ := has_embedRows.mp hr
        have hid₁ : r₁.id = id := hid
        simp [ChunkTables.embedded, hid₁, hnamed u id hrow] at hnone
    · exact awaited_of_announces hS hstep hn hj hann
  · exact .inr ⟨j, hj, hid ▸ hann⟩

/-- A new version of a post whose text is not chunked again has the text that the one before it
had. -/
theorem textIn_stored {x : SyncStep} {existing : Option Post} {old : Post} {task : ChunkTask}
    (htype : task.taskType ≠ .analysis)
    (hsame : ∀ text ∈ task.taskType.watched, ¬ Differs text old x.post) :
    truthy (ChunkPostHandler.resolveText task (PostStore.storedOver existing x.post)) =
      truthy (ChunkPostHandler.resolveText task old) := by
  rw [← resolveText_eq_of_same htype hsame]
  unfold ChunkPostHandler.resolveText
  cases ht : task.taskType with
  | analysis => exact absurd ht htype
  | _ => rfl

theorem wanted_event_none {x : SyncStep} (h : type.Wanted x.post) :
    PostDispatcher.wanted (x.event none) type = true := by
  obtain ⟨htype, hsummary⟩ := h
  have hnil : (x.event none).fieldsChanged = [] := rfl
  have hhas : (x.event none).hasSummary = (truthy x.post.summary).isSome := rfl
  cases type with
  | analysis => exact absurd rfl htype
  | summaryTitle =>
    simp [PostDispatcher.wanted, PostDispatcher.summaryChanged, PostDispatcher.anyChanged, hnil,
      hhas, hsummary]
  | _ =>
    simp [PostDispatcher.wanted, PostDispatcher.bodyChanged, PostDispatcher.titleChanged,
      PostDispatcher.anyChanged, hnil]

/-- What a step does to the text: it is announced next, or lost, or it is the text of before. -/
inductive TextStep (n : ℕ) (s t : Ingestion) (u : String) (i : ℤ) (type : ChunkTaskType) : Prop
  | announced (j : SyncJob) (hj : j ∈ t.syncs) (h : Sends j.program u i type)
  | unread (x : Notice) (hx : x ∈ t.waiting n .post) (h : x.OfText u i type)
  | same (old : Post) (hold : s.store.posts u i = some old) (hwanted : type.Wanted old)
      (h : ∀ task : ChunkTask, task.About u i type → task.textIn t.store = task.textIn s.store)

/-- The version is announced by the event that compares it with the row that it is written over, or
the text is the one of that row. -/
theorem write_cases {x : SyncStep} {store : ChunkDb} {post : Post}
    (hpost : (store.write x).posts (relation x.tableName) x.post.postId = some post)
    (hwanted : type.Wanted post) :
    (Notice.event (.postSynced (x.event (store.existing x)))).OfText (relation x.tableName)
        x.post.postId type ∨
      ∃ old, store.existing x = some old ∧ type.Wanted old ∧
        ∀ task : ChunkTask, task.About (relation x.tableName) x.post.postId type →
          task.textIn (store.write x) = task.textIn store := by
  have hpost' : PostStore.storedOver (store.existing x) x.post = post := by
    simpa [ChunkDb.write] using hpost
  have hwanted' : type.Wanted x.post := by
    rw [← hpost'] at hwanted
    exact hwanted
  cases hold : store.existing x with
  | none => exact .inl ⟨rfl, rfl, wanted_event_none hwanted'⟩
  | some old =>
    by_cases hw : PostDispatcher.wanted (x.event (some old)) type = true
    · exact .inl ⟨rfl, rfl, hw⟩
    · have hsame : ∀ text ∈ type.watched, ¬ Differs text old x.post := by
        intro text htext hdiffers
        exact hw ((wanted_event_iff x old type).mpr ⟨hwanted', .inr ⟨text, htext, hdiffers⟩⟩)
      refine .inr ⟨old, rfl, ⟨hwanted'.1, fun htype => ?_⟩, fun task habout => ?_⟩
      · have hsummary : truthy old.summary = truthy x.post.summary :=
          truthy_eq_iff.mpr (not_not.mp (hsame Post.summary (by simp [htype,
            ChunkTaskType.watched])))
        rw [hsummary]
        exact hwanted'.2 htype
      · obtain ⟨htable, hid, htype⟩ := habout
        have hold' : store.posts (relation x.tableName) x.post.postId = some old := hold
        rw [← htype] at hsame
        unfold ChunkTask.textIn
        rw [htable, hid, hpost, ← hpost', hold', Option.bind_some, Option.bind_some]
        exact textIn_stored (htype ▸ hwanted'.1) hsame

theorem textStep_write {x : SyncStep} {post : Post} (hstore : t.store = s.store.write x)
    (hsent : (∃ j ∈ t.syncs, unsent j.program = some (.postSynced (x.event (s.store.existing x)))) ∨
      .version x ∈ t.waiting n .post)
    (hpost : t.store.posts u i = some post) (hwanted : type.Wanted post) :
    TextStep n s t u i type := by
  by_cases hk : u = relation x.tableName ∧ i = x.post.postId
  · obtain ⟨rfl, rfl⟩ := hk
    obtain ⟨j, hj, he⟩ | hlost := hsent
    · rw [hstore] at hpost
      obtain hof | ⟨old, hold, hwanted', hsame⟩ := write_cases hpost hwanted
      · exact .announced j hj ⟨_, he, hof⟩
      · exact .same old hold hwanted' fun task habout => hstore ▸ hsame task habout
    · exact .unread _ hlost ⟨rfl, rfl⟩
  · have hsame : t.store.posts u i = s.store.posts u i := by
      rw [hstore]
      exact if_neg hk
    refine .same post (hsame ▸ hpost) hwanted fun task habout => ?_
    unfold ChunkTask.textIn
    rw [habout.table, habout.post, hsame]

theorem textStep_of_posts {post : Post} (hposts : t.store.posts = s.store.posts)
    (hpost : t.store.posts u i = some post) (hwanted : type.Wanted post) :
    TextStep n s t u i type := by
  rw [hposts] at hpost
  refine .same post hpost hwanted fun task _ => ?_
  unfold ChunkTask.textIn
  rw [hposts]

/-- An await of a request leaves the posts as they are, or what it writes is announced or lost. -/
theorem textStep_turn (hS : Sound env V s) {j : SyncJob} {before after : List SyncJob}
    (hsyncs : s.syncs = before ++ j :: after) (hstore : t.store = j.after s.store)
    (hsent : (j.after s.store).posts ≠ s.store.posts →
      (∃ j' ∈ t.syncs, unsent j'.program =
        some (.postSynced (j.step.event (s.store.existing j.step)))) ∨
          .version j.step ∈ t.waiting n .post)
    {post : Post} (hpost : t.store.posts u i = some post) (hwanted : type.Wanted post) :
    TextStep n s t u i type := by
  obtain ⟨-, hown⟩ := hS.syncs j (by
    rw [hsyncs]
    exact List.mem_append_right _ List.mem_cons_self)
  by_cases hposts : (j.after s.store).posts = s.store.posts
  · exact textStep_of_posts (by rw [hstore, hposts]) hpost hwanted
  · obtain heq | ⟨-, heq⟩ := j.after_cases hown s.store
    · exact absurd (congrArg ChunkDb.posts heq) hposts
    · exact textStep_write (hstore.trans heq) (hsent hposts) hpost hwanted

theorem Step.textStep {a : IngestionAction} (hS : Sound env V s) (h : Step env s a t)
    (hn : n ≤ s.lost.length) {post : Post} (hpost : t.store.posts u i = some post)
    (hwanted : type.Wanted post) : TextStep n s t u i type := by
  cases h with
  | turn j before after hsyncs hreads =>
    refine textStep_turn hS hsyncs rfl (fun hposts => .inl ⟨j.next s.store, ?_, ?_⟩) hpost hwanted
    · exact List.mem_append_right _ List.mem_cons_self
    · exact j.announces_of_write hreads hposts
  | overlook j before after hsyncs hreads =>
    refine textStep_turn hS hsyncs rfl (fun _ => .inr ?_) hpost hwanted
    exact waiting_of_lost hn rfl (List.mem_singleton_self _)
  | await j before after hjobs hgoes =>
    have hj : j ∈ s.jobs := by
      rw [hjobs]
      exact List.mem_append_right _ List.mem_cons_self
    exact textStep_of_posts (hS.jobStep hj).1.posts hpost hwanted
  | _ => exact textStep_of_posts rfl hpost hwanted

theorem WorkedOn.step {a : IngestionAction} (hS : Sound env V s) (hstep : Step env s a t)
    (hn : n ≤ s.lost.length) {j : ChunkJob}
    (h : WorkedOn env s u i type j)
    (hsame : j.task.textIn t.store = j.task.textIn s.store) :
    TextStored env t u i type ∨ TextAwaited env n t u i type := by
  obtain ⟨hj, hconfigured, habout, hstands, hseen⟩ := h
  cases hstep.jobMoved hS hn j hj with
  | stays hmem hunused =>
    have hstands' := hstands.stable (hstep.rowsStep hS).keeps hunused
    refine .inr (.inr (.inr ⟨j, hmem, hconfigured, habout, hstands', fun text htext => ?_⟩))
    rw [hsame]
    exact hseen text htext
  | awaited hstore hreaders hmem =>
    obtain ⟨-, hnext⟩ := hstands.next fun _ _ => trivial
    refine .inr (.inr (.inr ⟨_, hmem, hconfigured, habout, hstore ▸ hnext, fun text htext => ?_⟩))
    show text = j.task.textIn t.store
    rw [hsame]
    obtain rfl := Option.some.inj htext
    cases hread : j.seen with
    | none => rfl
    | some text' => exact hseen text' hread
  | returned ids hret hstore =>
    rw [hret] at hstands
    refine .inl ⟨j.task, hconfigured, habout, fun text htext => ?_⟩
    rw [hstore] at htext ⊢
    generalize hp : (ret ids : ChunkCoro (List String)) = p at hstands
    generalize j.seen = seen at hstands hseen
    cases hstands with
    | returned seen ids hstored => exact hstored text ((hseen seen rfl).trans htext)
    | _ => cases hp
  | stopped htask _ => exact .inr (.inl ⟨_, htask .post, habout⟩)

/-- A text whose windows are stored or waited for stays so, with every version that comes. -/
theorem TextCovered.step {a : IngestionAction} (hS : Sound env V s) (hstep : Step env s a t)
    (hn : n ≤ s.lost.length) (h : TextCovered env n s u i type) : TextCovered env n t u i type := by
  intro post hpost hwanted
  have hT : Sound env (V ++ a.sent) t := hS.step hstep
  cases hstep.textStep hS hn hpost hwanted with
  | announced j hj hsends => exact .inr (.inr (.inl ⟨j, hj, hsends⟩))
  | unread x hx hof => exact .inr (.inl ⟨x, hx, hof⟩)
  | same old hold hwanted' hsame =>
    obtain ⟨task, hconfigured, habout, hstored⟩ | ⟨x, hx, hof⟩ | ⟨j, hj, e, he, hof⟩ |
      ⟨j, hworked⟩ := h old hold hwanted'
    · refine .inl ⟨task, hconfigured, habout, fun text htext => ?_⟩
      rw [hsame task habout] at htext
      exact (hstored text htext).mono (hstep.rowsStep hS).keeps
    · cases hstep.moved hS hn x hx with
      | kept _ hx => exact .inr (.inl ⟨x, hx, hof⟩)
      | dispatched e he hdispatched =>
        obtain ⟨y, hy, hof⟩ := ofText_dispatched hof
        exact .inr (.inl ⟨_, hdispatched y hy, hof⟩)
      | delivered task hjob hunused =>
        obtain ⟨-, hconfigured, -⟩ := hT.jobs _ hjob
        refine .inr (.inr (.inr ⟨_, hjob, hconfigured, hof, .fetching hunused, ?_⟩))
        intro text htext
        cases htext
      | embedded task E named hnamed htables => exact hof.elim
    · cases hstep.syncMoved hS hn j hj with
      | stays hmem => exact .inr (.inr (.inl ⟨j, hmem, e, he, hof⟩))
      | sent hwaits => exact .inr (.inl ⟨_, hwaits .post e he, hof⟩)
    · exact hworked.step hS hstep hn (hsame j.task hworked.about)

/-- Every row and every text is accounted for, but for what was lost among the first `n`. -/
structure Accounted (env : IngestionEnv) (n : ℕ) (s : Ingestion) : Prop where
  le : n ≤ s.lost.length
  rows : ∀ u id, RowCovered n s u id
  texts : ∀ u i type, TextCovered env n s u i type

theorem accounted_empty (env : IngestionEnv) : Accounted env 0 .empty where
  le := Nat.le_refl 0
  rows u id r hr := by
    obtain ⟨table, hT, -⟩ := hr
    cases hT
  texts u i type post hpost := by cases hpost

theorem Accounted.step {a : IngestionAction} (hS : Sound env V s) (hstep : Step env s a t)
    (h : Accounted env n s) : Accounted env n t where
  le := by
    obtain ⟨more, hlost⟩ := (hstep.grows hS).lost
    rw [hlost, List.length_append]
    exact h.le.trans (Nat.le_add_right _ _)
  rows u id := (h.rows u id).step hS hstep h.le
  texts u i type := (h.texts u i type).step hS hstep h.le

theorem Accounted.run {run : Run} (hS : Sound env V s) (h : Accounted env n s)
    (hrun : Runs.Each (Step env) s run) : Accounted env n (Runs.last s run) := by
  induction run generalizing s V with
  | nil => exact h
  | cons p run ih => exact ih (hS.step hrun.1) (h.step hS hrun.1) hrun.2

end Ingestion
end RagPipeline
