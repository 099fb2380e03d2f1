import Mathlib.Data.List.Sort
import RagPipeline.Lib.Runs

namespace RagPipeline
namespace PostgresEventBus

/-- A row of `event_log`. -/
structure LogRow where
  id : ℕ
  topic : String
  payload : String
deriving DecidableEq

/-- Where the loop of `subscribe` stands. -/
inductive Subscriber where
  /-- In the `for` loop over the rows left; with none left, at the head of the `while` loop. -/
  | inBatch (rows : List LogRow)
  /-- The offset is read, the rows are not fetched yet. -/
  | atFetch (lastId : ℕ)
  /-- The offset is moved to the row, which is the next thing to be yielded. -/
  | holding (row : LogRow) (rows : List LogRow)
deriving DecidableEq

structure Bus where
  /-- The next value of the identity column. -/
  nextId : ℕ
  /-- The rows of transactions that are still open. -/
  inserted : List LogRow
  /-- The committed rows. -/
  eventLog : List LogRow
  /-- `consumer_offsets.last_id`, once the row is there. -/
  offset : Option ℕ
  subscriber : Subscriber
  yielded : List LogRow
deriving DecidableEq

namespace Bus

def start : Bus := ⟨1, [], [], none, .inBatch [], []⟩

def lastId (s : Bus) : ℕ := s.offset.getD 0

def fetched (s : Bus) : List LogRow :=
  match s.subscriber with
  | .inBatch rows => rows
  | .atFetch _ => []
  | .holding row rows => row :: rows

end Bus

def batchSize : ℕ := 100

/-- `SELECT ... WHERE topic = $1 AND id > $2 ORDER BY id ASC LIMIT $3`. -/
def selectRows (eventLog : List LogRow) (topic : String) (lastId limit : ℕ) : List LogRow :=
  ((eventLog.filter fun r => r.topic = topic ∧ lastId < r.id).insertionSort
    fun a b => a.id ≤ b.id).take limit

/-- The steps of the publishers and of the one subscriber, in any order. -/
inductive BusStep where
  /-- `publish` runs its INSERT, which allocates the id. -/
  | insert (topic payload : String)
  | commit (id : ℕ)
  | abort (id : ℕ)
  | readOffset
  | fetch
  | advance
  | yield
deriving DecidableEq

/-- A step that is not enabled changes nothing. -/
def step (topic : String) (s : Bus) : BusStep → Bus
  | .insert t payload =>
    { s with nextId := s.nextId + 1, inserted := s.inserted ++ [⟨s.nextId, t, payload⟩] }
  | .commit id =>
    { s with
      inserted := s.inserted.filter fun r => r.id ≠ id
      eventLog := s.eventLog ++ s.inserted.filter fun r => r.id = id }
  | .abort id => { s with inserted := s.inserted.filter fun r => r.id ≠ id }
  | .readOffset =>
    match s.subscriber with
    | .inBatch [] => { s with offset := some s.lastId, subscriber := .atFetch s.lastId }
    | _ => s
  | .fetch =>
    match s.subscriber with
    | .atFetch lastId =>
      { s with subscriber := .inBatch (selectRows s.eventLog topic lastId batchSize) }
    | _ => s
  | .advance =>
    match s.subscriber with
    | .inBatch (row :: rows) =>
      { s with offset := some row.id, subscriber := .holding row rows }
    | _ => s
  | .yield =>
    match s.subscriber with
    | .holding row rows =>
      { s with yielded := s.yielded ++ [row], subscriber := .inBatch rows }
    | _ => s

def after (topic : String) (steps : List BusStep) : Bus := steps.foldl (step topic) .start

/-- A committed event of the topic that the offset has passed was yielded, or is the row that
the subscriber is about to yield. -/
def NothingSkipped (topic : String) (s : Bus) : Prop :=
  ∀ e ∈ s.eventLog, e.topic = topic → e.id ≤ s.lastId →
    e ∈ s.yielded ∨ ∃ rows, s.subscriber = .holding e rows

def BusStep.isPoll : BusStep → Bool
  | readOffset | fetch | advance | yield => true
  | _ => false

/-- A row of the topic commits above the offset and above every row in the subscriber's batch. -/
def InOrder (topic : String) (s : Bus) : BusStep → Prop
  | .commit id => ∀ row ∈ s.inserted, row.id = id → row.topic = topic →
      s.lastId < id ∧ ∀ r ∈ s.fetched, r.id < id
  | _ => True

variable {topic : String} {s : Bus} {e r : LogRow} {lastId limit : ℕ} {eventLog : List LogRow}

theorem mem_of_mem_selectRows (h : e ∈ selectRows eventLog topic lastId limit) :
    e ∈ eventLog ∧ e.topic = topic ∧ lastId < e.id := by
  have hm := List.mem_of_mem_take h
  rw [List.mem_insertionSort, List.mem_filter] at hm
  simpa using hm

theorem sorted_rows (hids : (eventLog.map LogRow.id).Nodup) (topic : String) (lastId : ℕ) :
    ((eventLog.filter fun r => r.topic = topic ∧ lastId < r.id).insertionSort
      fun a b => a.id ≤ b.id).Pairwise fun a b => a.id < b.id := by
  have : Std.Total fun a b : LogRow => a.id ≤ b.id := ⟨fun a b => Nat.le_total a.id b.id⟩
  have : IsTrans LogRow fun a b => a.id ≤ b.id := ⟨fun _ _ _ => Nat.le_trans⟩
  let rows := eventLog.filter fun r => r.topic = topic ∧ lastId < r.id
  have hle := List.pairwise_insertionSort (fun a b : LogRow => a.id ≤ b.id) rows
  have hne : (rows.insertionSort fun a b => a.id ≤ b.id).Pairwise fun a b => a.id ≠ b.id := by
    have hnd : (rows.map LogRow.id).Nodup := (List.filter_sublist.map _).nodup hids
    have hperm := (List.perm_insertionSort (fun a b : LogRow => a.id ≤ b.id) rows).map LogRow.id
    exact List.pairwise_map.mp (hperm.nodup_iff.mpr hnd)
  exact hle.imp₂ (fun _ _ h h' => lt_of_le_of_ne h h') hne

theorem mem_selectRows_of_le (hids : (eventLog.map LogRow.id).Nodup) (he : e ∈ eventLog)
    (ht : e.topic = topic) (hlt : lastId < e.id)
    (hr : r ∈ selectRows eventLog topic lastId limit) (hle : e.id ≤ r.id) :
    e ∈ selectRows eventLog topic lastId limit := by
  have hs := sorted_rows hids topic lastId
  have hm : e ∈ (eventLog.filter fun r => r.topic = topic ∧ lastId < r.id).insertionSort
      fun a b => a.id ≤ b.id := by
    rw [List.mem_insertionSort, List.mem_filter]
    exact ⟨he, by simp [ht, hlt]⟩
  rw [selectRows] at hr ⊢
  rw [← List.take_append_drop limit (List.insertionSort _ _)] at hs hm
  rcases List.mem_append.mp hm with hm | hm
  · exact hm
  · -- beyond the limit every id is higher
    have hlt' := (List.pairwise_append.mp hs).2.2 r hr e hm
    omega

/-- The stored offset is where the loop takes it to be. -/
def Positioned (s : Bus) : Prop :=
  match s.subscriber with
  | .inBatch rows => ∀ r ∈ rows, s.lastId < r.id
  | .atFetch lastId => lastId = s.lastId
  | .holding row _ => row.id = s.lastId

structure Inv (topic : String) (s : Bus) : Prop where
  below : ∀ r ∈ s.inserted ++ s.eventLog, r.id < s.nextId
  ids : ((s.inserted ++ s.eventLog).map LogRow.id).Nodup
  positioned : Positioned s
  sorted : s.fetched.Pairwise fun a b => a.id < b.id
  logged : s.yielded ++ s.fetched ⊆ s.eventLog
  /-- What the offset or the batch has passed was fetched. -/
  covered : ∀ e ∈ s.eventLog, e.topic = topic →
    (e.id ≤ s.lastId ∨ ∃ r ∈ s.fetched, e.id ≤ r.id) → e ∈ s.yielded ++ s.fetched

theorem inv_start : Inv topic .start where
  below := by simp [Bus.start]
  ids := by simp [Bus.start]
  positioned := by simp [Positioned, Bus.start]
  sorted := by simp [Bus.fetched, Bus.start]
  logged := by simp [Bus.fetched, Bus.start]
  covered := by simp [Bus.start]

theorem Inv.nothingSkipped (h : Inv topic s) : NothingSkipped topic s := by
  intro e he ht hle
  rcases List.mem_append.mp (h.covered e he ht (.inl hle)) with hy | hf
  · exact .inl hy
  · -- a fetched row that the offset has reached is the one in hand
    have hpos := h.positioned
    have hsorted := h.sorted
    unfold Positioned at hpos
    unfold Bus.fetched at hf hsorted
    cases hsub : s.subscriber with
    | inBatch rows =>
      simp only [hsub] at hpos hf
      exact absurd (hpos e hf) (Nat.not_lt_of_le hle)
    | atFetch lastId => simp [hsub] at hf
    | holding row rows =>
      simp only [hsub, List.pairwise_cons, List.mem_cons] at hpos hf hsorted
      rcases hf with rfl | hf
      · exact .inr ⟨rows, rfl⟩
      · have hlt := hsorted.1 e hf
        omega

/-- The parts of the invariant that speak of the subscriber only depend on its own fields. -/
theorem Inv.publisher {s' : Bus} (h : Inv topic s)
    (below : ∀ r ∈ s'.inserted ++ s'.eventLog, r.id < s'.nextId)
    (ids : ((s'.inserted ++ s'.eventLog).map LogRow.id).Nodup)
    (hoffset : s'.offset = s.offset) (hsub : s'.subscriber = s.subscriber)
    (hyielded : s'.yielded = s.yielded) (hlog : s.eventLog ⊆ s'.eventLog)
    (hnew : ∀ e ∈ s'.eventLog, e ∉ s.eventLog → e.topic = topic →
      s.lastId < e.id ∧ ∀ r ∈ s.fetched, r.id < e.id) : Inv topic s' := by
  have hlast : s'.lastId = s.lastId := by rw [Bus.lastId, hoffset, Bus.lastId]
  have hfetched : s'.fetched = s.fetched := by rw [Bus.fetched, hsub, Bus.fetched]
  refine ⟨below, ids, ?_, ?_, ?_, ?_⟩
  · have hpos := h.positioned
    unfold Positioned at hpos ⊢
    rwa [hsub, hlast]
  · rw [hfetched]
    exact h.sorted
  · rw [hyielded, hfetched]
    exact List.Subset.trans h.logged hlog
  · intro e he ht hpassed
    rw [hlast, hfetched] at hpassed
    rw [hyielded, hfetched]
    by_cases hold : e ∈ s.eventLog
    · exact h.covered e hold ht hpassed
    · obtain ⟨hlt, hall⟩ := hnew e he hold ht
      rcases hpassed with hle | ⟨r, hr, hle⟩
      · omega
      · have := hall r hr
        omega

theorem Inv.insert (h : Inv topic s) (t payload : String) :
    Inv topic (step topic s (.insert t payload)) := by
  let row : LogRow := ⟨s.nextId, t, payload⟩
  have hperm : ((s.inserted ++ [row]) ++ s.eventLog).Perm
      (row :: (s.inserted ++ s.eventLog)) := by
    rw [List.append_assoc]
    exact List.perm_middle
  refine h.publisher ?_ ?_ rfl rfl rfl (List.Subset.refl _) fun e he hn => absurd he hn
  · intro r hr
    rcases List.mem_cons.mp (hperm.subset hr) with rfl | hr
    · exact Nat.lt_succ_self _
    · exact Nat.lt_succ_of_lt (h.below r hr)
  · refine (hperm.map LogRow.id).nodup_iff.mpr (List.nodup_cons.mpr ⟨?_, h.ids⟩)
    intro hmem
    obtain ⟨r, hr, hid⟩ := List.mem_map.mp hmem
    exact absurd hid (h.below r hr).ne

theorem Inv.commit (h : Inv topic s) (id : ℕ) (ho : InOrder topic s (.commit id)) :
    Inv topic (step topic s (.commit id)) := by
  have hperm : ((s.inserted.filter fun r => r.id ≠ id) ++
      (s.eventLog ++ s.inserted.filter fun r => r.id = id)).Perm (s.inserted ++ s.eventLog) := by
    have hsplit := List.filter_append_perm (fun r : LogRow => decide (r.id = id)) s.inserted
    simp only [← decide_not] at hsplit
    calc _ = ((s.inserted.filter fun r => r.id ≠ id) ++ s.eventLog) ++
          s.inserted.filter fun r => r.id = id := (List.append_assoc ..).symm
      _ |>.Perm ((s.inserted.filter fun r => r.id = id) ++
          ((s.inserted.filter fun r => r.id ≠ id) ++ s.eventLog)) := List.perm_append_comm
      _ |>.Perm (s.inserted ++ s.eventLog) := by
        rw [← List.append_assoc]
        exact hsplit.append_right _
  refine h.publisher (fun r hr => h.below r (hperm.subset hr))
    ((hperm.map LogRow.id).nodup_iff.mpr h.ids) rfl rfl rfl (List.subset_append_left ..) ?_
  intro e he hn ht
  obtain ⟨hins, hid⟩ := List.mem_filter.mp ((List.mem_append.mp he).resolve_left hn)
  obtain rfl : e.id = id := by simpa using hid
  exact ho e hins rfl ht

theorem Inv.abort (h : Inv topic s) (id : ℕ) : Inv topic (step topic s (.abort id)) := by
  have hsub : ((s.inserted.filter fun r => r.id ≠ id) ++ s.eventLog).Sublist
      (s.inserted ++ s.eventLog) := List.filter_sublist.append_right _
  exact h.publisher (fun r hr => h.below r (hsub.subset hr)) ((hsub.map _).nodup h.ids) rfl rfl
    rfl (List.Subset.refl _) fun e he hn => absurd he hn

theorem Inv.readOffset (h : Inv topic s) : Inv topic (step topic s .readOffset) := by
  obtain ⟨nextId, inserted, eventLog, offset, subscriber, yielded⟩ := s
  cases subscriber with
  | atFetch _ => exact h
  | holding _ _ => exact h
  | inBatch rows =>
    cases rows with
    | cons _ _ => exact h
    | nil => exact ⟨h.below, h.ids, rfl, List.Pairwise.nil, h.logged, h.covered⟩

theorem Inv.fetch (h : Inv topic s) : Inv topic (step topic s .fetch) := by
  obtain ⟨nextId, inserted, eventLog, offset, subscriber, yielded⟩ := s
  cases subscriber with
  | inBatch _ => exact h
  | holding _ _ => exact h
  | atFetch lastId =>
    obtain rfl : lastId = offset.getD 0 := h.positioned
    have hids : (eventLog.map LogRow.id).Nodup :=
      ((List.sublist_append_right _ _).map _).nodup h.ids
    refine ⟨h.below, h.ids, ?_, ?_, ?_, ?_⟩
    · exact fun r hr => (mem_of_mem_selectRows hr).2.2
    · exact (sorted_rows hids topic _).sublist (List.take_sublist ..)
    · intro e he
      rcases List.mem_append.mp he with hy | hr
      · exact h.logged (List.mem_append_left _ hy)
      · exact (mem_of_mem_selectRows hr).1
    · intro e he ht hpassed
      -- passed before this fetch, or fetched by it
      by_cases hle : e.id ≤ offset.getD 0
      · have hy := h.covered e he ht (.inl hle)
        rw [show Bus.fetched _ = [] from rfl, List.append_nil] at hy
        exact List.mem_append_left _ hy
      · obtain ⟨r, hr, hle'⟩ := hpassed.resolve_left hle
        exact List.mem_append_right _
          (mem_selectRows_of_le hids he ht (Nat.lt_of_not_le hle) hr hle')

theorem Inv.advance (h : Inv topic s) : Inv topic (step topic s .advance) := by
  obtain ⟨nextId, inserted, eventLog, offset, subscriber, yielded⟩ := s
  cases subscriber with
  | atFetch _ => exact h
  | holding _ _ => exact h
  | inBatch rows =>
    cases rows with
    | nil => exact h
    | cons row rows =>
      refine ⟨h.below, h.ids, rfl, h.sorted, h.logged, fun e he ht hpassed => ?_⟩
      refine h.covered e he ht (.inr ?_)
      rcases hpassed with hle | hr
      · exact ⟨row, List.mem_cons_self .., hle⟩
      · exact hr

theorem Inv.yield (h : Inv topic s) : Inv topic (step topic s .yield) := by
  obtain ⟨nextId, inserted, eventLog, offset, subscriber, yielded⟩ := s
  cases subscriber with
  | atFetch _ => exact h
  | inBatch _ => exact h
  | holding row rows =>
    have hassoc : (yielded ++ [row]) ++ rows = yielded ++ (row :: rows) := by simp
    have hrow : row.id = offset.getD 0 := h.positioned
    obtain ⟨hfirst, hsorted⟩ := List.pairwise_cons.mp h.sorted
    refine ⟨h.below, h.ids, ?_, hsorted, ?_, ?_⟩
    · intro r hr
      have hlt := hfirst r hr
      rwa [hrow] at hlt
    · show (yielded ++ [row]) ++ rows ⊆ eventLog
      rw [hassoc]
      exact h.logged
    · intro e he ht hpassed
      show e ∈ (yielded ++ [row]) ++ rows
      rw [hassoc]
      refine h.covered e he ht (hpassed.imp_right ?_)
      rintro ⟨r, hr, hle⟩
      exact ⟨r, List.mem_cons_of_mem _ hr, hle⟩

theorem Inv.step (h : Inv topic s) (i : BusStep) (ho : InOrder topic s i) :
    Inv topic (step topic s i) := by
  cases i with
  | insert t payload => exact h.insert t payload
  | commit id => exact h.commit id ho
  | abort id => exact h.abort id
  | readOffset => exact h.readOffset
  | fetch => exact h.fetch
  | advance => exact h.advance
  | yield => exact h.yield

theorem Inv.polls (h : Inv topic s) (polls : List BusStep) (hp : ∀ i ∈ polls, i.isPoll) :
    Inv topic (polls.foldl (PostgresEventBus.step topic) s) := by
  induction polls generalizing s with
  | nil => exact h
  | cons i polls ih =>
    rw [List.forall_mem_cons] at hp
    refine ih (h.step i ?_) hp.2
    cases i with
    | commit id => cases hp.1
    | _ => trivial

/-- The state in which the subscriber, polling on from `s`, has the row in hand. -/
def Reaches (topic : String) (s : Bus) (r : LogRow) : Prop :=
  ∃ polls : List BusStep, (∀ i ∈ polls, i.isPoll) ∧
    ∃ s', polls.foldl (step topic) s = s' ∧ s'.eventLog = s.eventLog ∧ s'.lastId = r.id ∧
      (∃ rest, s'.subscriber = .holding r rest) ∧ s'.yielded ⊆ s.yielded ++ s.fetched

theorem Reaches.of_poll {i : BusStep} (hi : i.isPoll) (h : Reaches topic (step topic s i) r)
    (hlog : (step topic s i).eventLog = s.eventLog)
    (hsub : (step topic s i).yielded ++ (step topic s i).fetched ⊆ s.yielded ++ s.fetched) :
    Reaches topic s r := by
  obtain ⟨polls, hp, s', hs', hlog', hlast, hhold, hy⟩ := h
  exact ⟨i :: polls, List.forall_mem_cons.mpr ⟨hi, hp⟩, s', hs', hlog'.trans hlog, hlast, hhold,
    List.Subset.trans hy hsub⟩

theorem reaches_of_inBatch (rows : List LogRow) (hr : r ∈ rows)
    (hs : s.subscriber = .inBatch rows) : Reaches topic s r := by
  -- the subscriber advances and yields row by row until it has `r` in hand
  induction rows generalizing s with
  | nil => cases hr
  | cons row rows ih =>
    have hadvance : step topic s .advance =
        { s with offset := some row.id, subscriber := .holding row rows } := by
      simp only [step, hs]
    have hfetched : s.fetched = row :: rows := by rw [Bus.fetched, hs]
    have hnext : (step topic s .advance).fetched = row :: rows := by rw [hadvance]; rfl
    have hyielded : (step topic s .advance).yielded = s.yielded := by rw [hadvance]
    refine .of_poll (i := .advance) rfl ?_ (by rw [hadvance]) ?_
    · rw [hadvance]
      rcases List.mem_cons.mp hr with rfl | hr
      · exact ⟨[], by simp, _, rfl, rfl, rfl, ⟨rows, rfl⟩, List.subset_append_left ..⟩
      · refine .of_poll (i := .yield) rfl (ih hr rfl) rfl ?_
        simp [step, Bus.fetched]
    · rw [hnext, hfetched, hyielded]
      exact List.Subset.refl _

theorem reaches_fetched (hpos : Positioned s) (hr : r ∈ s.fetched) : Reaches topic s r := by
  unfold Positioned at hpos
  unfold Bus.fetched at hr
  cases hs : s.subscriber with
  | inBatch rows =>
    rw [hs] at hr
    exact reaches_of_inBatch rows hr hs
  | atFetch lastId => simp [hs] at hr
  | holding row rows =>
    simp only [hs, List.mem_cons] at hpos hr
    rcases hr with rfl | hr
    · exact ⟨[], by simp, s, rfl, rfl, hpos.symm, ⟨rows, hs⟩, List.subset_append_left ..⟩
    · have hyield : step topic s .yield =
          { s with yielded := s.yielded ++ [row], subscriber := .inBatch rows } := by
        simp only [step, hs]
      have hfetched : s.fetched = row :: rows := by rw [Bus.fetched, hs]
      refine .of_poll (i := .yield) rfl (reaches_of_inBatch rows hr (by rw [hyield]))
        (by rw [hyield]) ?_
      have hnext : (step topic s .yield).fetched = rows := by rw [hyield]; rfl
      rw [hnext, hfetched, hyield]
      simp

/-- The subscriber goes on by itself and skips nothing. -/
def Safe (topic : String) (s : Bus) : Prop :=
  ∀ polls : List BusStep, (∀ i ∈ polls, i.isPoll) →
    NothingSkipped topic (polls.foldl (step topic) s)

theorem Inv.safe (h : Inv topic s) : Safe topic s :=
  fun polls hp => (h.polls polls hp).nothingSkipped

theorem Inv.not_safe (h : Inv topic s) {i : BusStep} (ho : ¬ InOrder topic s i) :
    ¬ Safe topic (PostgresEventBus.step topic s i) := by
  cases i with
  | commit id =>
    simp only [InOrder, not_forall] at ho
    obtain ⟨e, he, rfl, ht, hpassed⟩ := ho
    intro hsafe
    set t := PostgresEventBus.step topic s (.commit e.id) with htdef
    have hin : e ∈ t.eventLog :=
      List.mem_append_right _ (List.mem_filter.mpr ⟨he, by simp⟩)
    -- what was fetched was in the log, and this row is not yet
    have hout : e ∉ s.yielded ++ s.fetched := by
      intro hm
      have hids := h.ids
      rw [List.map_append] at hids
      exact (List.nodup_append.mp hids).2.2 _ (List.mem_map_of_mem he) _
        (List.mem_map_of_mem (h.logged hm)) rfl
    -- wherever the offset is past it, the row was neither yielded nor is it in hand
    by_cases hlt : s.lastId < e.id
    · obtain ⟨r, hr, hle⟩ : ∃ r ∈ s.fetched, e.id ≤ r.id := by
        by_contra hno
        push Not at hno
        exact hpassed ⟨hlt, hno⟩
      have hreach : Reaches topic t r := reaches_fetched h.positioned hr
      obtain ⟨polls, hp, t', rfl, hlog, hlast, ⟨rest, hhold⟩, hy⟩ := hreach
      rcases hsafe polls hp e (by rwa [hlog]) ht (by rwa [hlast]) with hm | ⟨rows, hm⟩
      · exact hout (hy hm)
      · obtain ⟨rfl, -⟩ := Subscriber.holding.inj (hhold.symm.trans hm)
        exact hout (List.mem_append_right _ hr)
    · rcases hsafe [] (by simp) e hin ht (Nat.le_of_not_lt hlt) with hm | ⟨rows, hm⟩
      · exact hout (List.mem_append_left _ hm)
      · have hm' : s.subscriber = .holding e rows := hm
        exact hout (List.mem_append_right _ (by rw [Bus.fetched, hm']; exact List.mem_cons_self ..))
  | _ => exact absurd trivial ho

/-- The run and what the subscriber makes of it skip nothing exactly when the rows of the topic
commit in order. -/
theorem nothingSkipped_iff (topic : String) (steps : List BusStep) :
    (∀ pre polls : List BusStep, pre <+: steps → (∀ i ∈ polls, i.isPoll) →
      NothingSkipped topic (after topic (pre ++ polls))) ↔
    ∀ pre i, pre ++ [i] <+: steps → InOrder topic (after topic pre) i := by
  have hruns : Runs.Each (fun _ _ t => Safe topic t) .start (Runs.trace (step topic) .start steps) ↔
      Runs.Each (fun s i _ => InOrder topic s i) .start (Runs.trace (step topic) .start steps) := by
    refine Runs.each_trace_congr (fun s i hs => ?_) (fun s i hs ho => hs.step i ho) inv_start steps
    refine ⟨fun hsafe => ?_, fun ho => (hs.step i ho).safe⟩
    by_contra ho
    exact hs.not_safe ho hsafe
  have hstates : (∀ pre, pre <+: steps → Safe topic (after topic pre)) ↔
      Safe topic .start ∧ Runs.Each (fun _ _ t => Safe topic t) .start
        (Runs.trace (step topic) .start steps) := Runs.forall_prefix_iff
  rw [and_iff_right inv_start.safe, hruns, Runs.each_trace_prefix] at hstates
  refine Iff.trans ?_ hstates
  simp only [after, List.foldl_append]
  constructor
  · exact fun h pre hp polls hpoll => h pre polls hp hpoll
  · exact fun h pre polls hp hpoll => h pre hp polls hpoll

def lateCommit : List BusStep :=
  [.insert "post.synced" "first", .insert "post.synced" "second", .commit 2, .readOffset, .fetch,
    .advance, .yield, .commit 1]

theorem late_commit_skipped : ¬ NothingSkipped "post.synced" (after "post.synced" lateCommit) := by
  intro h
  have hin : (⟨1, "post.synced", "first"⟩ : LogRow) ∈
      (after "post.synced" lateCommit).eventLog := by
    decide
  rcases h _ hin rfl (by decide) with hm | ⟨rows, hm⟩
  · revert hm
    decide
  · have hsub : (after "post.synced" lateCommit).subscriber = .inBatch [] := by decide
    rw [hsub] at hm
    cases hm

end PostgresEventBus
end RagPipeline
