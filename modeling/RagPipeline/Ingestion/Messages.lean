import RagPipeline.Ingestion.Sound

namespace RagPipeline
open Coro ChunkTables

/-! What becomes of the messages and of the workers in one step of the system. -/

namespace Ingestion

/-- The messages that a dispatcher, or a worker after it, will come to, with those that were lost
after the first `n`. -/
def waiting (n : ℕ) (d : Dispatcher) (s : Ingestion) : List Notice :=
  (((s.readers d).ahead s.store.events).map .event ++ (s.readers d).outbox.map .task) ++
    (s.ready.map .task ++ s.lost.drop n)

/-- A message stays, or is dispatched, or is taken by a worker. -/
inductive Moved (env : IngestionEnv) (n : ℕ) (d : Dispatcher) (s t : Ingestion) : Notice → Prop
  | kept (x : Notice) (h : x ∈ t.waiting n d) : Moved env n d s t x
  | dispatched (e : Event) (he : e ∈ s.store.events)
      (h : ∀ y ∈ env.dispatched d e, .task y ∈ t.waiting n d) : Moved env n d s t (.event e)
  | delivered (task : ChunkTask) (h : ChunkJob.start env s.deliveries task ∈ t.jobs)
      (hunused : t.store.tables.Unused (env.draws s.deliveries).ids) :
      Moved env n d s t (.task (.chunk task))
  | embedded (task : EmbedTask) (E : String → Vec) (named : String → String → Bool)
      (hnamed : ∀ u id, task.names u id = true → named u id = true)
      (h : t.store.tables = s.store.tables.embedRows E named) :
      Moved env n d s t (.task (.embed task))

/-- A worker goes on, or returns, or its task and what it was about to publish are left. -/
inductive JobMoved (env : IngestionEnv) (n : ℕ) (s t : Ingestion) (j : ChunkJob) : Prop
  | stays (h : j ∈ t.jobs) (hunused : s.store.tables.Unused (env.draws j.tag).ids →
      t.store.tables.Unused (env.draws j.tag).ids)
  | awaited (hstore : t.store = (Coro.next chunkWorld (j.program, s.store)).2)
      (hreaders : t.readers = s.readers) (h : j.next s.store ∈ t.jobs)
  | returned (ids : List String) (hret : j.program = ret ids) (hstore : t.store = s.store)
  | stopped (htask : ∀ d, .task (.chunk j.task) ∈ t.waiting n d)
      (hevent : ∀ d, ∀ e ∈ unpublished j.program, .event e ∈ t.waiting n d)

/-- A request goes on, or the event that it was about to publish waits to be read, or is lost. -/
inductive SyncMoved (n : ℕ) (s t : Ingestion) (j : SyncJob) : Prop
  | stays (h : j ∈ t.syncs)
  | sent (h : ∀ d, ∀ e ∈ unsent j.program, .event e ∈ t.waiting n d)

/-- The events and the losses of before are still there. -/
structure Grows (s t : Ingestion) : Prop where
  events : ∃ more, t.store.events = s.store.events ++ more
  lost : ∃ more, t.lost = s.lost ++ more

variable {env : IngestionEnv} {V : List SyncStep} {s t : Ingestion} {n : ℕ} {d : Dispatcher}

theorem mem_waiting {x : Notice} : x ∈ s.waiting n d ↔
    ((∃ e ∈ (s.readers d).ahead s.store.events, x = .event e) ∨
      ∃ y ∈ (s.readers d).outbox, x = .task y) ∨
    (∃ y ∈ s.ready, x = .task y) ∨ x ∈ s.lost.drop n := by
  simp only [waiting, List.mem_append, List.mem_map, eq_comm]

theorem waiting_of_ready {y : AnyTask} (h : y ∈ s.ready) : .task y ∈ s.waiting n d :=
  mem_waiting.mpr (.inr (.inl ⟨y, h, rfl⟩))

/-- What is lost in a step is lost after the first `n`. -/
theorem waiting_of_lost {lost : List Notice} {x : Notice} (hn : n ≤ s.lost.length)
    (ht : t.lost = s.lost ++ lost) (h : x ∈ lost) : x ∈ t.waiting n d := by
  refine mem_waiting.mpr (.inr (.inr ?_))
  rw [ht, List.drop_append_of_le_length hn]
  exact List.mem_append_right _ h

theorem waiting_of_ahead {e : Event} (h : e ∈ (s.readers d).ahead s.store.events) :
    .event e ∈ s.waiting n d := mem_waiting.mpr (.inl (.inl ⟨e, h, rfl⟩))

theorem waiting_of_outbox {y : AnyTask} (h : y ∈ (s.readers d).outbox) : .task y ∈ s.waiting n d :=
  mem_waiting.mpr (.inl (.inr ⟨y, h, rfl⟩))

theorem moved_of_parts (hn : n ≤ s.lost.length) (hgrows : Grows s t)
    (hahead : ∀ e ∈ (s.readers d).ahead s.store.events, Moved env n d s t (.event e))
    (houtbox : ∀ y ∈ (s.readers d).outbox, Moved env n d s t (.task y))
    (hready : ∀ y ∈ s.ready, Moved env n d s t (.task y)) :
    ∀ x ∈ s.waiting n d, Moved env n d s t x := by
  intro x hx
  obtain (⟨e, he, rfl⟩ | ⟨y, hy, rfl⟩) | ⟨y, hy, rfl⟩ | hx := mem_waiting.mp hx
  · exact hahead e he
  · exact houtbox y hy
  · exact hready y hy
  · obtain ⟨lost, hlost⟩ := hgrows.lost
    refine .kept x (mem_waiting.mpr (.inr (.inr ?_)))
    rw [hlost, List.drop_append_of_le_length hn]
    exact List.mem_append_left _ hx

theorem kept_ahead (hs : (s.readers d).Within s.store.events) (hgrows : Grows s t)
    (hreader : t.readers d = s.readers d) :
    ∀ e ∈ (s.readers d).ahead s.store.events, Moved env n d s t (.event e) := by
  intro e he
  obtain ⟨events, hevents⟩ := hgrows.events
  apply Moved.kept
  apply waiting_of_ahead
  rw [hreader, hevents, LogReader.mem_ahead_append hs]
  exact .inl he

theorem kept_outbox (hreader : t.readers d = s.readers d) :
    ∀ y ∈ (s.readers d).outbox, Moved env n d s t (.task y) :=
  fun _ hy => .kept _ (waiting_of_outbox (hreader ▸ hy))

theorem kept_ready (hready : s.ready ⊆ t.ready) :
    ∀ y ∈ s.ready, Moved env n d s t (.task y) :=
  fun _ hy => .kept _ (waiting_of_ready (hready hy))

/-- A step that does not touch the reader of the dispatcher. -/
theorem moved_of_reader (hs : (s.readers d).Within s.store.events)
    (hn : n ≤ s.lost.length) (hgrows : Grows s t) (hreader : t.readers d = s.readers d)
    (hready : ∀ y ∈ s.ready, Moved env n d s t (.task y)) :
    ∀ x ∈ s.waiting n d, Moved env n d s t x :=
  moved_of_parts hn hgrows (kept_ahead hs hgrows hreader) (kept_outbox hreader) hready

theorem exists_events_of_left {E : String → Vec} {b : EmbedBatch E} {s t : EmbedDb}
    (h : b.Left s t) : ∃ more, t.events = s.events ++ more := by
  obtain ⟨events, hevents⟩ := h.events
  exact ⟨_, hevents⟩

theorem Sound.events_turn (hS : Sound env V s) {j : SyncJob} {before after : List SyncJob}
    (hsyncs : s.syncs = before ++ j :: after) :
    (j.after s.store).events = s.store.events ++ (unsent j.program).toList := by
  obtain ⟨-, hown⟩ := hS.syncs j (by
    rw [hsyncs]
    exact List.mem_append_right _ List.mem_cons_self)
  exact j.events_after hown s.store

/-- Nothing that is in the log, or in the list of what is lost, goes away. -/
theorem Step.grows {a : IngestionAction} (hS : Sound env V s) (h : Step env s a t) : Grows s t := by
  have hsame : ∃ more, s.store.events = s.store.events ++ more := ⟨[], (List.append_nil _).symm⟩
  have hkeep : ∃ more, s.lost = s.lost ++ more := ⟨[], (List.append_nil _).symm⟩
  cases h with
  | sync x => exact ⟨hsame, hkeep⟩
  | turn j before after hsyncs hreads => exact ⟨⟨_, hS.events_turn hsyncs⟩, hkeep⟩
  | overlook j before after hsyncs hreads => exact ⟨⟨_, hS.events_turn hsyncs⟩, _, rfl⟩
  | leave j before after hsyncs => exact ⟨hsame, _, rfl⟩
  | take d k e hdone hk he => exact ⟨hsame, hkeep⟩
  | skip d k e hk he => exact ⟨hsame, _, rfl⟩
  | publish d y ys houtbox => exact ⟨hsame, hkeep⟩
  | drop d => exact ⟨hsame, _, rfl⟩
  | deliver task before after hready => exact ⟨hsame, hkeep⟩
  | await j before after hjobs hgoes =>
    have hj : j ∈ s.jobs := by
      rw [hjobs]
      exact List.mem_append_right _ List.mem_cons_self
    exact ⟨⟨_, (hS.jobStep hj).1.events⟩, hkeep⟩
  | ack j before after ids hjobs hret => exact ⟨hsame, hkeep⟩
  | kill j before after hjobs => exact ⟨hsame, _, rfl⟩
  | reject j before after hjobs => exact ⟨hsame, _, rfl⟩
  | embed modelName b rest hready hname hmodel =>
    exact ⟨exists_events_of_left (left_after b _), hkeep⟩
  | embedStopped modelName b stop rest again gone hready hsettled hname hmodel =>
    exact ⟨exists_events_of_left (left_leaves b _ stop), _, rfl⟩
  | requeue y hy => exact ⟨hsame, hkeep⟩

theorem withReader_ne {d' : Dispatcher} (hd : d ≠ d') (r : LogReader AnyTask) :
    (s.withReader d' r).readers d = s.readers d := Function.update_of_ne hd _ _

theorem withReader_self (r : LogReader AnyTask) : (s.withReader d r).readers d = r :=
  Function.update_self ..

theorem Step.moved {a : IngestionAction} (hS : Sound env V s) (h : Step env s a t)
    (hn : n ≤ s.lost.length) : ∀ x ∈ s.waiting n d, Moved env n d s t x := by
  have hwithin : (s.readers d).Within s.store.events := hS.within d
  have hgrows : Grows s t := h.grows hS
  cases h with
  | sync x =>
    exact moved_of_reader hwithin hn hgrows rfl (kept_ready (List.Subset.refl _))
  | turn j before after hsyncs hreads =>
    exact moved_of_reader hwithin hn hgrows rfl (kept_ready (List.Subset.refl _))
  | overlook j before after hsyncs hreads =>
    exact moved_of_reader hwithin hn hgrows rfl (kept_ready (List.Subset.refl _))
  | leave j before after hsyncs =>
    exact moved_of_reader hwithin hn hgrows rfl (kept_ready (List.Subset.refl _))
  | take d' k e hdone hk he =>
    by_cases hd : d = d'
    · subst hd
      refine moved_of_parts hn hgrows (fun e' he' => ?_) (fun y hy => ?_)
        (kept_ready (List.Subset.refl _))
      · rw [(LogReader.ahead_take hk he (env.dispatched d e)).mem_iff, List.mem_cons] at he'
        obtain rfl | he' := he'
        · refine .dispatched e' (List.mem_of_getElem? he) fun y hy => waiting_of_outbox ?_
          rw [withReader_self]
          exact hy
        · refine .kept _ (waiting_of_ahead ?_)
          rw [withReader_self]
          exact he'
      · rw [hdone] at hy
        cases hy
    · exact moved_of_reader hwithin hn hgrows (withReader_ne hd _) (kept_ready (List.Subset.refl _))
  | skip d' k e hk he =>
    by_cases hd : d = d'
    · subst hd
      refine moved_of_parts hn hgrows (fun e' he' => ?_)
        (fun y hy => .kept _ (waiting_of_outbox ?_)) (kept_ready (List.Subset.refl _))
      · rw [(LogReader.ahead_skip hk he).mem_iff, List.mem_cons] at he'
        obtain rfl | he' := he'
        · exact .kept _ (waiting_of_lost hn rfl (List.mem_singleton_self _))
        · refine .kept _ (waiting_of_ahead ?_)
          show e' ∈ ((s.withReader d _).readers d).ahead s.store.events
          rw [withReader_self]
          exact he'
      · show y ∈ ((s.withReader d _).readers d).outbox
        rw [withReader_self]
        exact hy
    · exact moved_of_reader hwithin hn hgrows (withReader_ne hd _) (kept_ready (List.Subset.refl _))
  | publish d' y ys houtbox =>
    have hready : s.ready ⊆ s.ready ++ [y] := List.subset_append_left _ _
    by_cases hd : d = d'
    · subst hd
      refine moved_of_parts hn hgrows (fun e he => ?_) (fun y' hy' => ?_) (kept_ready hready)
      · refine .kept _ (waiting_of_ahead ?_)
        show e ∈ ((s.withReader d _).readers d).ahead s.store.events
        rw [withReader_self]
        exact he
      · rw [houtbox, List.mem_cons] at hy'
        obtain rfl | hy' := hy'
        · exact .kept _ (waiting_of_ready (List.mem_append_right _ (List.mem_singleton_self _)))
        · refine .kept _ (waiting_of_outbox ?_)
          show y' ∈ ((s.withReader d _).readers d).outbox
          rw [withReader_self]
          exact hy'
    · exact moved_of_reader hwithin hn hgrows (withReader_ne hd _) (kept_ready hready)
  | drop d' =>
    by_cases hd : d = d'
    · subst hd
      refine moved_of_parts hn hgrows (fun e he => ?_) (fun y hy => ?_)
        (kept_ready (List.Subset.refl _))
      · refine .kept _ (waiting_of_ahead ?_)
        show e ∈ ((s.withReader d _).readers d).ahead s.store.events
        rw [withReader_self]
        exact he
      · exact .kept _ (waiting_of_lost hn rfl (List.mem_map_of_mem hy))
    · exact moved_of_reader hwithin hn hgrows (withReader_ne hd _) (kept_ready (List.Subset.refl _))
  | deliver task before after hready =>
    refine moved_of_reader hwithin hn hgrows rfl fun y hy => ?_
    rw [hready, List.mem_append, List.mem_cons, or_left_comm, ← List.mem_append] at hy
    obtain rfl | hy := hy
    · exact .delivered task (List.mem_append_right _ (List.mem_singleton_self _)) hS.unused
    · exact .kept _ (waiting_of_ready hy)
  | await j before after hjobs hgoes =>
    exact moved_of_reader hwithin hn hgrows rfl (kept_ready (List.Subset.refl _))
  | ack j before after ids hjobs hret =>
    exact moved_of_reader hwithin hn hgrows rfl (kept_ready (List.Subset.refl _))
  | kill j before after hjobs =>
    exact moved_of_reader hwithin hn hgrows rfl (kept_ready (List.subset_append_left _ _))
  | reject j before after hjobs =>
    exact moved_of_reader hwithin hn hgrows rfl (kept_ready (List.Subset.refl _))
  | embed modelName b rest hready hname hmodel =>
    refine moved_of_reader hwithin hn hgrows rfl fun y hy => ?_
    rw [hready.mem_iff, List.mem_append] at hy
    obtain hy | hy := hy
    · obtain ⟨task, htask, rfl⟩ := List.mem_map.mp hy
      refine .embedded task.val (env.encoder modelName) (namedBy b.tasks) (fun u id hnames => ?_) ?_
      · exact List.any_eq_true.mpr ⟨task, htask, hnames⟩
      · exact tables_after b s.store.embedDb
    · exact .kept _ (waiting_of_ready hy)
  | embedStopped modelName b stop rest again gone hready hsettled hname hmodel =>
    refine moved_of_reader hwithin hn hgrows rfl fun y hy => ?_
    rw [hready.mem_iff, List.mem_append, hsettled.mem_iff, List.mem_append] at hy
    obtain (hy | hy) | hy := hy
    · exact .kept _ (waiting_of_ready (List.mem_append_right _ hy))
    · exact .kept _ (waiting_of_lost hn rfl (List.mem_map_of_mem hy))
    · exact .kept _ (waiting_of_ready (List.mem_append_left _ hy))
  | requeue y hy =>
    exact moved_of_reader hwithin hn hgrows rfl (kept_ready (List.subset_append_left _ _))

/-- A step in which no worker goes on or ends leaves the workers as they are. -/
theorem jobMoved_of_mem {j : ChunkJob} (hjobs : j ∈ t.jobs)
    (hsame : SameRows s.store.tables t.store.tables) : JobMoved env n s t j :=
  .stays hjobs hsame.unused

theorem sameRows_of_left {E : String → Vec} {b : EmbedBatch E} {s t : EmbedDb} (h : b.Left s t) :
    SameRows s.tables t.tables := by
  obtain heq | heq := h.tables
  · rw [heq]
    exact sameRows_refl _
  · rw [heq]
    exact sameRows_embedRows _ _ _

theorem Step.jobMoved {a : IngestionAction} (hS : Sound env V s) (h : Step env s a t)
    (hn : n ≤ s.lost.length) : ∀ j ∈ s.jobs, JobMoved env n s t j := by
  intro j hj
  have hsame : SameRows s.store.tables s.store.tables := sameRows_refl _
  -- the worker that ends is this one, or this one stays
  have hother : ∀ {j' : ChunkJob} {before after : List ChunkJob}, s.jobs = before ++ j' :: after →
      j = j' ∨ j ∈ before ++ after := by
    intro j' before after hjobs
    rw [hjobs, List.mem_append, List.mem_cons, or_left_comm, ← List.mem_append] at hj
    exact hj
  cases h with
  | sync x => exact jobMoved_of_mem hj hsame
  | turn j' before after hsyncs hreads => exact jobMoved_of_mem hj hsame
  | overlook j' before after hsyncs hreads => exact jobMoved_of_mem hj hsame
  | leave j' before after hsyncs => exact jobMoved_of_mem hj hsame
  | take d k e hdone hk he => exact jobMoved_of_mem hj hsame
  | skip d k e hk he => exact jobMoved_of_mem hj hsame
  | publish d y ys houtbox => exact jobMoved_of_mem hj hsame
  | drop d => exact jobMoved_of_mem hj hsame
  | deliver task before after hready =>
    exact jobMoved_of_mem (List.mem_append_left _ hj) hsame
  | await j' before after hjobs hgoes =>
    obtain rfl | hj' := hother hjobs
    · exact .awaited rfl rfl (List.mem_append_right _ List.mem_cons_self)
    · have hin : j' ∈ s.jobs := by
        rw [hjobs]
        exact List.mem_append_right _ List.mem_cons_self
      refine .stays ?_ (hS.others hjobs (hS.jobStep hin).1 j hj')
      rw [List.mem_append] at hj' ⊢
      exact hj'.imp_right (List.mem_cons_of_mem _)
  | ack j' before after ids hjobs hret =>
    obtain rfl | hj' := hother hjobs
    · exact .returned ids hret rfl
    · exact jobMoved_of_mem hj' hsame
  | kill j' before after hjobs =>
    obtain rfl | hj' := hother hjobs
    · refine .stopped (fun d => ?_) fun d e he => waiting_of_lost hn rfl ?_
      · exact waiting_of_ready (List.mem_append_right _ (List.mem_singleton_self _))
      · exact List.mem_map_of_mem (Option.mem_toList.mpr he)
    · exact jobMoved_of_mem hj' hsame
  | reject j' before after hjobs =>
    obtain rfl | hj' := hother hjobs
    · refine .stopped (fun d => waiting_of_lost hn rfl List.mem_cons_self) fun d e he =>
        waiting_of_lost hn rfl (List.mem_cons_of_mem _ ?_)
      exact List.mem_map_of_mem (Option.mem_toList.mpr he)
    · exact jobMoved_of_mem hj' hsame
  | embed modelName b rest hready hname hmodel =>
    exact jobMoved_of_mem hj (sameRows_of_left (left_after b s.store.embedDb))
  | embedStopped modelName b stop rest again gone hready hsettled hname hmodel =>
    exact jobMoved_of_mem hj (sameRows_of_left (left_leaves b s.store.embedDb stop))
  | requeue y hy => exact jobMoved_of_mem hj hsame

theorem Step.syncMoved {a : IngestionAction} (hS : Sound env V s) (h : Step env s a t)
    (hn : n ≤ s.lost.length) : ∀ j ∈ s.syncs, SyncMoved n s t j := by
  intro j hj
  have hother : ∀ {j' : SyncJob} {before after : List SyncJob}, s.syncs = before ++ j' :: after →
      j = j' ∨ j ∈ before ++ after := by
    intro j' before after hsyncs
    rw [hsyncs, List.mem_append, List.mem_cons, or_left_comm, ← List.mem_append] at hj
    exact hj
  -- what it was about to publish is in the log once it has gone on
  have hturn : ∀ {before after : List SyncJob}, s.syncs = before ++ j :: after →
      t.store.events = (j.after s.store).events → t.readers = s.readers →
        ∀ d, ∀ e ∈ unsent j.program, .event e ∈ t.waiting n d := by
    intro before after hsyncs hevents hreaders d e he
    apply waiting_of_ahead
    rw [hreaders, hevents, hS.events_turn hsyncs, LogReader.mem_ahead_append (hS.within d)]
    exact .inr (Option.mem_toList.mpr he)
  have hstays : ∀ {j' : SyncJob} {before after : List SyncJob}, j ∈ before ++ after →
      j ∈ before ++ j' :: after := by
    intro j' before after hj
    rw [List.mem_append] at hj ⊢
    exact hj.imp_right (List.mem_cons_of_mem _)
  cases h with
  | sync x => exact .stays (List.mem_append_left _ hj)
  | turn j' before after hsyncs hreads =>
    obtain rfl | hj' := hother hsyncs
    · exact .sent (hturn hsyncs rfl rfl)
    · exact .stays (hstays hj')
  | overlook j' before after hsyncs hreads =>
    obtain rfl | hj' := hother hsyncs
    · exact .sent (hturn hsyncs rfl rfl)
    · exact .stays (hstays hj')
  | leave j' before after hsyncs =>
    obtain rfl | hj' := hother hsyncs
    · refine .sent fun d e he => waiting_of_lost hn rfl ?_
      exact List.mem_map_of_mem (Option.mem_toList.mpr he)
    · exact .stays hj'
  | _ => exact .stays hj

end Ingestion
end RagPipeline
