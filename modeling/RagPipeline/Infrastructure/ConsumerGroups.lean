import Mathlib.Data.List.Induction
import RagPipeline.Infrastructure.EventBus

namespace RagPipeline
namespace PostgresEventBus

/-- The arguments of `subscribe`, which are the key of `consumer_offsets`. -/
structure OffsetKey where
  topic : String
  consumerGroup : String
deriving DecidableEq

namespace Subscriber

/-- The row whose offset is committed and which is not yielded yet. -/
def held : Subscriber → List LogRow
  | holding row _ => [row]
  | _ => []

def ahead : Subscriber → List LogRow
  | inBatch rows => rows
  | atFetch _ => []
  | holding _ rows => rows

/-- The generator has read the offset and not worked through what it fetches at it. -/
def Busy (sub : Subscriber) : Prop := (∃ lastId, sub = atFetch lastId) ∨ sub.ahead ≠ []

end Subscriber

/-- The log, the offsets and the generators. What a generator has yielded in all its lives and what
its crashes took with them is kept by no variable of the code. -/
structure GroupBus (ι : Type) where
  nextId : ℕ
  eventLog : List LogRow
  offsets : OffsetKey → Option ℕ
  subscribers : ι → Subscriber
  yielded : ι → List LogRow
  lost : ι → List LogRow

inductive GroupStep (ι : Type) where
  /-- An event becomes visible; the ids skipped before it belong to inserts that never do. -/
  | publish (skipped : ℕ) (topic payload : String)
  | readOffset (i : ι)
  | fetch (i : ι)
  | advance (i : ι)
  | yield (i : ι)
  /-- The process of the generator dies, and a new one calls `subscribe` again. -/
  | crash (i : ι)

namespace GroupStep

variable {ι : Type}

def subscriber : GroupStep ι → Option ι
  | publish _ _ _ => none
  | readOffset i | fetch i | advance i | yield i | crash i => some i

def isRead : GroupStep ι → Bool
  | readOffset _ => true
  | _ => false

/-- The step ends a life of the generator. -/
def crashes [DecidableEq ι] (i : ι) : GroupStep ι → Bool
  | crash a => a = i
  | _ => false

end GroupStep

namespace GroupBus

variable {ι : Type}

def start : GroupBus ι := ⟨1, [], fun _ => none, fun _ => .inBatch [], fun _ => [], fun _ => []⟩

def lastId (s : GroupBus ι) (k : OffsetKey) : ℕ := (s.offsets k).getD 0

end GroupBus

variable {ι : Type} (key : ι → OffsetKey)

/-- A step that is not enabled changes nothing. -/
def groupStep [DecidableEq ι] (s : GroupBus ι) : GroupStep ι → GroupBus ι
  | .publish skipped topic payload =>
    { s with
      nextId := s.nextId + skipped + 1
      eventLog := s.eventLog ++ [⟨s.nextId + skipped, topic, payload⟩] }
  | .readOffset i =>
    match s.subscribers i with
    | .inBatch [] =>
      { s with
        offsets := Function.update s.offsets (key i) (some (s.lastId (key i)))
        subscribers := Function.update s.subscribers i (.atFetch (s.lastId (key i))) }
    | _ => s
  | .fetch i =>
    match s.subscribers i with
    | .atFetch lastId =>
      let rows := selectRows s.eventLog (key i).topic lastId batchSize
      { s with subscribers := Function.update s.subscribers i (.inBatch rows) }
    | _ => s
  | .advance i =>
    match s.subscribers i with
    | .inBatch (row :: rows) =>
      { s with
        offsets := Function.update s.offsets (key i) (some row.id)
        subscribers := Function.update s.subscribers i (.holding row rows) }
    | _ => s
  | .yield i =>
    match s.subscribers i with
    | .holding row rows =>
      { s with
        yielded := Function.update s.yielded i (s.yielded i ++ [row])
        subscribers := Function.update s.subscribers i (.inBatch rows) }
    | _ => s
  | .crash i =>
    { s with
      lost := Function.update s.lost i (s.lost i ++ (s.subscribers i).held)
      subscribers := Function.update s.subscribers i (.inBatch []) }

def groupAfter [DecidableEq ι] (steps : List (GroupStep ι)) : GroupBus ι :=
  steps.foldl (groupStep key) .start

/-- A generator of the topic, at an offset that it has its batch above. -/
structure Own (topic : String) (eventLog : List LogRow) (lastId : ℕ) (sub : Subscriber)
    (yielded : List LogRow) : Prop where
  atFetch : ∀ n, sub = .atFetch n → n = lastId
  passed : ∀ r ∈ yielded ++ sub.held, r.id ≤ lastId
  ahead : ∀ r ∈ sub.ahead, lastId < r.id
  sorted : (yielded ++ (sub.held ++ sub.ahead)).Pairwise fun a b => a.id < b.id
  logged : ∀ r ∈ yielded ++ (sub.held ++ sub.ahead), r ∈ eventLog ∧ r.topic = topic
  /-- The batch leaves out nothing above the offset. -/
  contiguous : ∀ r ∈ sub.ahead, ∀ e ∈ eventLog, e.topic = topic → lastId < e.id → e.id ≤ r.id →
    e ∈ sub.ahead

section Own

variable {topic : String} {eventLog : List LogRow} {lastId lastId' : ℕ} {sub : Subscriber}
  {yielded rows : List LogRow} {row e : LogRow}

theorem Own.publish (h : Own topic eventLog lastId sub yielded)
    (hnew : ∀ r ∈ eventLog, r.id < e.id) : Own topic (eventLog ++ [e]) lastId sub yielded := by
  refine ⟨h.atFetch, h.passed, h.ahead, h.sorted, ?_, ?_⟩
  · intro r hr
    exact ⟨List.mem_append_left _ (h.logged r hr).1, (h.logged r hr).2⟩
  · intro r hr a ha ht hlt hle
    rcases List.mem_append.mp ha with ha | ha
    · exact h.contiguous r hr a ha ht hlt hle
    · -- the new row is above the whole batch
      obtain rfl := List.mem_singleton.mp ha
      have hmem : r ∈ yielded ++ (sub.held ++ sub.ahead) := by simp [hr]
      have hbelow := hnew r (h.logged r hmem).1
      omega

/-- A generator that is not busy does not mind that another one moves the offset on. -/
theorem Own.raise (h : Own topic eventLog lastId sub yielded) (hbusy : ¬ sub.Busy)
    (hle : lastId ≤ lastId') : Own topic eventLog lastId' sub yielded := by
  have hahead : sub.ahead = [] := by
    by_contra hne
    exact hbusy (.inr hne)
  refine ⟨?_, ?_, ?_, h.sorted, h.logged, ?_⟩
  · exact fun n hn => absurd (.inl ⟨n, hn⟩) hbusy
  · exact fun r hr => Nat.le_trans (h.passed r hr) hle
  · simp [hahead]
  · simp [hahead]

theorem Own.readOffset (h : Own topic eventLog lastId (.inBatch []) yielded) :
    Own topic eventLog lastId (.atFetch lastId) yielded :=
  ⟨fun _ hn => (Subscriber.atFetch.inj hn).symm, h.passed, nofun, h.sorted, h.logged, nofun⟩

theorem Own.fetch (h : Own topic eventLog lastId (.atFetch lastId) yielded)
    (hids : (eventLog.map LogRow.id).Nodup) (limit : ℕ) :
    Own topic eventLog lastId (.inBatch (selectRows eventLog topic lastId limit)) yielded := by
  have hpassed : ∀ r ∈ yielded, r.id ≤ lastId := fun r hr => h.passed r (by simp [hr])
  have habove : ∀ r ∈ selectRows eventLog topic lastId limit, lastId < r.id :=
    fun r hr => (mem_of_mem_selectRows hr).2.2
  have hyielded : yielded.Pairwise fun a b => a.id < b.id :=
    (List.pairwise_append.mp h.sorted).1
  refine ⟨nofun, by simpa [Subscriber.held] using hpassed, habove, ?_, ?_, ?_⟩
  · refine List.pairwise_append.mpr ⟨hyielded, ?_, fun a ha b hb => ?_⟩
    · exact (sorted_rows hids topic lastId).sublist (List.take_sublist ..)
    · have hle := hpassed a ha
      have hlt := habove b hb
      omega
  · intro r hr
    rcases List.mem_append.mp hr with hr | hr
    · exact h.logged r (by simp [hr])
    · exact ⟨(mem_of_mem_selectRows hr).1, (mem_of_mem_selectRows hr).2.1⟩
  · exact fun r hr e he ht hlt hle => mem_selectRows_of_le hids he ht hlt hr hle

theorem Own.advance (h : Own topic eventLog lastId (.inBatch (row :: rows)) yielded) :
    Own topic eventLog row.id (.holding row rows) yielded := by
  have hrow : lastId < row.id := h.ahead row (by simp [Subscriber.ahead])
  have hbatch : (row :: rows).Pairwise fun a b => a.id < b.id :=
    (List.pairwise_append.mp h.sorted).2.1
  obtain ⟨hfirst, -⟩ := List.pairwise_cons.mp hbatch
  refine ⟨nofun, ?_, hfirst, h.sorted, h.logged, ?_⟩
  · intro r hr
    rcases List.mem_append.mp hr with hr | hr
    · have hle := h.passed r (by simp [hr])
      omega
    · obtain rfl := List.mem_singleton.mp hr
      exact Nat.le_refl _
  · intro r hr e he ht hlt hle
    have hmem := h.contiguous r (by simp [Subscriber.ahead] at hr ⊢; exact .inr hr) e he ht
      (by omega) hle
    rcases List.mem_cons.mp hmem with rfl | hmem
    · exact absurd hlt (Nat.lt_irrefl _)
    · exact hmem

theorem Own.yield (h : Own topic eventLog lastId (.holding row rows) yielded) :
    Own topic eventLog lastId (.inBatch rows) (yielded ++ [row]) := by
  have hassoc : (yielded ++ [row]) ++ ([] ++ rows) = yielded ++ ([row] ++ rows) := by simp
  refine ⟨nofun, ?_, h.ahead, ?_, ?_, h.contiguous⟩
  · simpa [Subscriber.held] using h.passed
  · exact hassoc ▸ h.sorted
  · exact hassoc ▸ h.logged

theorem Own.crash (h : Own topic eventLog lastId sub yielded) :
    Own topic eventLog lastId (.inBatch []) yielded := by
  have hyielded : yielded.Pairwise fun a b => a.id < b.id :=
    (List.pairwise_append.mp h.sorted).1
  refine ⟨nofun, ?_, nofun, by simpa [Subscriber.held, Subscriber.ahead] using hyielded, ?_, nofun⟩
  · intro r hr
    exact h.passed r (by simp [Subscriber.held] at hr; simp [hr])
  · intro r hr
    exact h.logged r (by simp [Subscriber.held, Subscriber.ahead] at hr; simp [hr])

end Own

namespace GroupBus

def passed (s : GroupBus ι) (i : ι) : List LogRow := s.yielded i ++ (s.subscribers i).held

end GroupBus

/-- The generators of one key share its offset, and at most one of them is working at it. -/
structure GroupInv (k : OffsetKey) (s : GroupBus ι) : Prop where
  below : ∀ r ∈ s.eventLog, r.id < s.nextId
  log : s.eventLog.Pairwise fun a b => a.id < b.id
  bound : s.lastId k < s.nextId
  own : ∀ i, key i = k →
    Own k.topic s.eventLog (s.lastId k) (s.subscribers i) (s.yielded i)
  alone : ∀ i j, key i = k → key j = k → (s.subscribers i).Busy → (s.subscribers j).Busy → i = j
  disjoint : ∀ i j, key i = k → key j = k → i ≠ j → ∀ r ∈ s.passed i, r ∉ s.passed j
  /-- What the offset has passed was yielded, is in hand or was taken by a crash. -/
  covered : ∀ e ∈ s.eventLog, e.topic = k.topic → e.id ≤ s.lastId k →
    ∃ i, key i = k ∧ e ∈ s.passed i ++ s.lost i

/-- No generator of the group is at work when another one reads the offset. -/
def ReadsAlone (k : OffsetKey) (s : GroupBus ι) (x : GroupStep ι) : Prop :=
  ∀ i, x = .readOffset i → key i = k → s.subscribers i = .inBatch [] →
    ∀ j, key j = k → ¬ (s.subscribers j).Busy

section Group

variable {key} {k : OffsetKey} {s t : GroupBus ι} {i : ι}

theorem groupInv_start : GroupInv key k .start where
  below := nofun
  log := List.Pairwise.nil
  bound := Nat.one_pos
  own _ _ := ⟨nofun, nofun, nofun, List.Pairwise.nil, nofun, nofun⟩
  alone _ _ _ _ h := by
    rcases h with ⟨n, h⟩ | h
    · cases h
    · exact absurd rfl h
  disjoint _ _ _ _ _ := nofun
  covered := nofun

theorem GroupBus.passed_congr {j : ι} (hsub : t.subscribers j = s.subscribers j)
    (hyielded : t.yielded j = s.yielded j) : t.passed j = s.passed j := by
  rw [GroupBus.passed, hyielded, hsub, GroupBus.passed]

theorem GroupInv.ids (h : GroupInv key k s) : (s.eventLog.map LogRow.id).Nodup :=
  List.pairwise_map.mpr (h.log.imp fun hlt => Nat.ne_of_lt hlt)

theorem GroupInv.congr (h : GroupInv key k s) (hnext : t.nextId = s.nextId)
    (hlog : t.eventLog = s.eventLog) (hoffset : t.offsets k = s.offsets k)
    (hsubs : ∀ j, key j = k → t.subscribers j = s.subscribers j)
    (hyielded : ∀ j, key j = k → t.yielded j = s.yielded j)
    (hlost : ∀ j, key j = k → t.lost j = s.lost j) : GroupInv key k t := by
  have hlast : t.lastId k = s.lastId k := by rw [GroupBus.lastId, hoffset, GroupBus.lastId]
  have hpassed : ∀ j, key j = k → t.passed j = s.passed j := by
    intro j hj
    exact GroupBus.passed_congr (hsubs j hj) (hyielded j hj)
  refine ⟨?_, ?_, ?_, ?_, ?_, ?_, ?_⟩
  · rw [hlog, hnext]
    exact h.below
  · rw [hlog]
    exact h.log
  · rw [hlast, hnext]
    exact h.bound
  · intro j hj
    rw [hlog, hlast, hsubs j hj, hyielded j hj]
    exact h.own j hj
  · intro a b ha hb
    rw [hsubs a ha, hsubs b hb]
    exact h.alone a b ha hb
  · intro a b ha hb
    rw [hpassed a ha, hpassed b hb]
    exact h.disjoint a b ha hb
  · intro e he ht hle
    rw [hlog] at he
    rw [hlast] at hle
    obtain ⟨j, hj, hmem⟩ := h.covered e he ht hle
    refine ⟨j, hj, ?_⟩
    rwa [hpassed j hj, hlost j hj]

theorem GroupInv.update (h : GroupInv key k s) (hi : key i = k) (hnext : t.nextId = s.nextId)
    (hlog : t.eventLog = s.eventLog) (hbound : t.lastId k < s.nextId)
    (hsubs : ∀ j, j ≠ i → t.subscribers j = s.subscribers j)
    (hyielded : ∀ j, j ≠ i → t.yielded j = s.yielded j)
    (hself : Own k.topic s.eventLog (t.lastId k) (t.subscribers i) (t.yielded i))
    (hothers : ∀ j, key j = k → j ≠ i →
      Own k.topic s.eventLog (t.lastId k) (s.subscribers j) (s.yielded j))
    (halone : (t.subscribers i).Busy → ∀ j, key j = k → j ≠ i → ¬ (s.subscribers j).Busy)
    (hdisjoint : ∀ j, key j = k → j ≠ i → ∀ r ∈ t.passed i, r ∉ s.passed j)
    (hcovered : ∀ e ∈ s.eventLog, e.topic = k.topic → e.id ≤ t.lastId k →
      ∃ j, key j = k ∧ e ∈ t.passed j ++ t.lost j) : GroupInv key k t := by
  have hpassed : ∀ j, j ≠ i → t.passed j = s.passed j := by
    intro j hj
    exact GroupBus.passed_congr (hsubs j hj) (hyielded j hj)
  refine ⟨?_, ?_, ?_, ?_, ?_, ?_, ?_⟩
  · rw [hlog, hnext]
    exact h.below
  · rw [hlog]
    exact h.log
  · rwa [hnext]
  · intro j hj
    rw [hlog]
    by_cases hji : j = i
    · rwa [hji]
    · rw [hsubs j hji, hyielded j hji]
      exact hothers j hj hji
  · intro a b ha hb hbusya hbusyb
    by_contra hab
    by_cases hai : a = i
    · subst hai
      have hba : b ≠ a := Ne.symm hab
      rw [hsubs b hba] at hbusyb
      exact halone hbusya b hb hba hbusyb
    · rw [hsubs a hai] at hbusya
      by_cases hbi : b = i
      · subst hbi
        exact halone hbusyb a ha hai hbusya
      · rw [hsubs b hbi] at hbusyb
        exact hab (h.alone a b ha hb hbusya hbusyb)
  · intro a b ha hb hab r hra
    by_cases hai : a = i
    · subst hai
      rw [hpassed b (Ne.symm hab)]
      exact hdisjoint b hb (Ne.symm hab) r hra
    · rw [hpassed a hai] at hra
      by_cases hbi : b = i
      · subst hbi
        exact fun hrb => hdisjoint a ha hai r hrb hra
      · rw [hpassed b hbi]
        exact h.disjoint a b ha hb hab r hra
  · rw [hlog]
    exact hcovered

variable [DecidableEq ι]

theorem GroupInv.publish (h : GroupInv key k s) (skipped : ℕ) (topic payload : String) :
    GroupInv key k (groupStep key s (.publish skipped topic payload)) := by
  have hnew : ∀ r ∈ s.eventLog, r.id < s.nextId + skipped :=
    fun r hr => Nat.lt_of_lt_of_le (h.below r hr) (Nat.le_add_right ..)
  have hlast := h.bound
  refine ⟨?_, ?_, ?_, fun i hi => (h.own i hi).publish hnew, h.alone, h.disjoint, ?_⟩
  · intro r hr
    show r.id < s.nextId + skipped + 1
    rcases List.mem_append.mp hr with hr | hr
    · have hlt := hnew r hr
      omega
    · obtain rfl := List.mem_singleton.mp hr
      exact Nat.lt_succ_self _
  · refine List.pairwise_append.mpr ⟨h.log, List.pairwise_singleton .., fun a ha b hb => ?_⟩
    obtain rfl := List.mem_singleton.mp hb
    exact hnew a ha
  · show s.lastId k < s.nextId + skipped + 1
    omega
  · intro e he ht hle
    rcases List.mem_append.mp he with he | he
    · exact h.covered e he ht hle
    · obtain rfl := List.mem_singleton.mp he
      have hle' : s.nextId + skipped ≤ s.lastId k := hle
      omega

/-- What a step of a generator does, if it does anything. -/
inductive Takes (key : ι → OffsetKey) (i : ι) (s : GroupBus ι) : GroupStep ι → GroupBus ι → Prop
  | stay (x : GroupStep ι) : Takes key i s x s
  | readOffset (h : s.subscribers i = .inBatch []) : Takes key i s (.readOffset i)
      { s with
        offsets := Function.update s.offsets (key i) (some (s.lastId (key i)))
        subscribers := Function.update s.subscribers i (.atFetch (s.lastId (key i))) }
  | fetch (lastId : ℕ) (h : s.subscribers i = .atFetch lastId) : Takes key i s (.fetch i)
      { s with
        subscribers := Function.update s.subscribers i
          (.inBatch (selectRows s.eventLog (key i).topic lastId batchSize)) }
  | advance (row : LogRow) (rows : List LogRow) (h : s.subscribers i = .inBatch (row :: rows)) :
      Takes key i s (.advance i)
      { s with
        offsets := Function.update s.offsets (key i) (some row.id)
        subscribers := Function.update s.subscribers i (.holding row rows) }
  | yield (row : LogRow) (rows : List LogRow) (h : s.subscribers i = .holding row rows) :
      Takes key i s (.yield i)
      { s with
        yielded := Function.update s.yielded i (s.yielded i ++ [row])
        subscribers := Function.update s.subscribers i (.inBatch rows) }
  | crash : Takes key i s (.crash i)
      { s with
        lost := Function.update s.lost i (s.lost i ++ (s.subscribers i).held)
        subscribers := Function.update s.subscribers i (.inBatch []) }

variable (key s) in
theorem takes_groupStep {x : GroupStep ι} (hx : x.subscriber = some i) :
    Takes key i s x (groupStep key s x) := by
  cases x with
  | publish _ _ _ => cases hx
  | crash a =>
    obtain rfl := Option.some.inj hx
    exact .crash
  | readOffset a =>
    obtain rfl := Option.some.inj hx
    rcases hsub : s.subscribers a with (_ | ⟨row, rows⟩) | n | ⟨row, rows⟩
    · simpa only [groupStep, hsub] using
        (Takes.readOffset hsub : Takes key a s _ _)
    all_goals simpa only [groupStep, hsub] using Takes.stay _
  | fetch a =>
    obtain rfl := Option.some.inj hx
    rcases hsub : s.subscribers a with rows | n | ⟨row, rows⟩
    case atFetch => simpa only [groupStep, hsub] using (Takes.fetch n hsub : Takes key a s _ _)
    all_goals simpa only [groupStep, hsub] using Takes.stay _
  | advance a =>
    obtain rfl := Option.some.inj hx
    rcases hsub : s.subscribers a with (_ | ⟨row, rows⟩) | n | ⟨row, rows⟩
    case inBatch.cons =>
      simpa only [groupStep, hsub] using (Takes.advance row rows hsub : Takes key a s _ _)
    all_goals simpa only [groupStep, hsub] using Takes.stay _
  | yield a =>
    obtain rfl := Option.some.inj hx
    rcases hsub : s.subscribers a with rows | n | ⟨row, rows⟩
    case holding =>
      simpa only [groupStep, hsub] using (Takes.yield row rows hsub : Takes key a s _ _)
    all_goals simpa only [groupStep, hsub] using Takes.stay _

theorem GroupInv.other (h : GroupInv key k s) {x : GroupStep ι} (hx : x.subscriber = some i)
    (hi : key i ≠ k) : GroupInv key k (groupStep key s x) := by
  have hne : ∀ j, key j = k → j ≠ i := by
    rintro j hj rfl
    exact hi hj
  have htakes := takes_groupStep key s hx
  generalize groupStep key s x = t at htakes ⊢
  cases htakes with
  | stay => exact h
  | readOffset hsub =>
    exact h.congr rfl rfl (Function.update_of_ne (Ne.symm hi) ..)
      (fun j hj => Function.update_of_ne (hne j hj) ..) (fun _ _ => rfl) fun _ _ => rfl
  | fetch n hsub =>
    exact h.congr rfl rfl rfl (fun j hj => Function.update_of_ne (hne j hj) ..)
      (fun _ _ => rfl) fun _ _ => rfl
  | advance row rows hsub =>
    exact h.congr rfl rfl (Function.update_of_ne (Ne.symm hi) ..)
      (fun j hj => Function.update_of_ne (hne j hj) ..) (fun _ _ => rfl) fun _ _ => rfl
  | yield row rows hsub =>
    exact h.congr rfl rfl rfl (fun j hj => Function.update_of_ne (hne j hj) ..)
      (fun j hj => Function.update_of_ne (hne j hj) ..) fun _ _ => rfl
  | crash =>
    exact h.congr rfl rfl rfl (fun j hj => Function.update_of_ne (hne j hj) ..)
      (fun _ _ => rfl) fun j hj => Function.update_of_ne (hne j hj) ..

theorem not_busy_inBatch_nil : ¬ (Subscriber.inBatch []).Busy := by
  rintro (⟨n, h⟩ | h)
  · cases h
  · exact h rfl

section Own

omit [DecidableEq ι]

theorem GroupInv.ownOf (h : GroupInv key k s) (hi : key i = k) {sub : Subscriber}
    (hsub : s.subscribers i = sub) :
    Own k.topic s.eventLog (s.lastId k) sub (s.yielded i) := hsub ▸ h.own i hi

theorem GroupInv.not_busy (h : GroupInv key k s) (hi : key i = k) (hbusy : (s.subscribers i).Busy)
    {j : ι} (hj : key j = k) (hji : j ≠ i) : ¬ (s.subscribers j).Busy := fun hb =>
  hji (h.alone j i hj hi hb hbusy)

/-- A step of one generator of the group that moves neither the offset nor what it has passed. -/
theorem GroupInv.keep (h : GroupInv key k s) (hi : key i = k) (hnext : t.nextId = s.nextId)
    (hlog : t.eventLog = s.eventLog) (hlast : t.lastId k = s.lastId k)
    (hsubs : ∀ j, j ≠ i → t.subscribers j = s.subscribers j)
    (hyielded : ∀ j, j ≠ i → t.yielded j = s.yielded j) (hpassed : t.passed i = s.passed i)
    (hlost : t.lost = s.lost)
    (hself : Own k.topic s.eventLog (s.lastId k) (t.subscribers i) (t.yielded i))
    (halone : (t.subscribers i).Busy → ∀ j, key j = k → j ≠ i → ¬ (s.subscribers j).Busy) :
    GroupInv key k t := by
  have hall : ∀ j, t.passed j = s.passed j := by
    intro j
    by_cases hji : j = i
    · rwa [hji]
    · exact GroupBus.passed_congr (hsubs j hji) (hyielded j hji)
  refine h.update hi hnext hlog (hlast ▸ h.bound) hsubs hyielded (hlast ▸ hself) ?_ halone ?_ ?_
  · rw [hlast]
    exact fun j hj _ => h.own j hj
  · rw [hpassed]
    exact fun j hj hji => h.disjoint i j hi hj (Ne.symm hji)
  · rw [hlast, hlost]
    intro e he htopic hle
    obtain ⟨j, hj, hmem⟩ := h.covered e he htopic hle
    refine ⟨j, hj, ?_⟩
    rwa [hall]

end Own

theorem GroupInv.readOffset (h : GroupInv key (key i) s) (hsub : s.subscribers i = .inBatch [])
    (halone : ∀ j, key j = key i → ¬ (s.subscribers j).Busy) :
    GroupInv key (key i)
      { s with
        offsets := Function.update s.offsets (key i) (some (s.lastId (key i)))
        subscribers := Function.update s.subscribers i (.atFetch (s.lastId (key i))) } := by
  refine h.keep (i := i) rfl rfl rfl (by simp [GroupBus.lastId])
    (fun j hj => Function.update_of_ne hj ..) (fun _ _ => rfl) ?_ rfl ?_ fun _ j hj _ => halone j hj
  · simp [GroupBus.passed, hsub, Subscriber.held]
  · simp only [Function.update_self]
    exact (h.ownOf rfl hsub).readOffset

theorem GroupInv.fetch (h : GroupInv key (key i) s) {n : ℕ} (hsub : s.subscribers i = .atFetch n) :
    GroupInv key (key i)
      { s with
        subscribers := Function.update s.subscribers i
          (.inBatch (selectRows s.eventLog (key i).topic n batchSize)) } := by
  have hbusy : (s.subscribers i).Busy := .inl ⟨n, hsub⟩
  have hn : n = s.lastId (key i) := (h.ownOf rfl hsub).atFetch n rfl
  subst hn
  refine h.keep (i := i) rfl rfl rfl rfl (fun j hj => Function.update_of_ne hj ..)
    (fun _ _ => rfl) ?_ rfl ?_ fun _ j hj hji => h.not_busy rfl hbusy hj hji
  · simp [GroupBus.passed, hsub, Subscriber.held]
  · simp only [Function.update_self]
    exact (h.ownOf rfl hsub).fetch h.ids batchSize

theorem GroupInv.yield (h : GroupInv key (key i) s) {row : LogRow} {rows : List LogRow}
    (hsub : s.subscribers i = .holding row rows) :
    GroupInv key (key i)
      { s with
        yielded := Function.update s.yielded i (s.yielded i ++ [row])
        subscribers := Function.update s.subscribers i (.inBatch rows) } := by
  refine h.keep (i := i) rfl rfl rfl rfl (fun j hj => Function.update_of_ne hj ..)
    (fun j hj => Function.update_of_ne hj ..) ?_ rfl ?_ ?_
  · simp [GroupBus.passed, hsub, Subscriber.held]
  · simp only [Function.update_self]
    exact (h.ownOf rfl hsub).yield
  · intro hbusy j hj hji
    -- rows that are still ahead were ahead before
    have hahead : (s.subscribers i).Busy := by
      rw [hsub]
      simp only [Function.update_self] at hbusy
      rcases hbusy with ⟨n, hn⟩ | hne
      · cases hn
      · exact .inr hne
    exact h.not_busy rfl hahead hj hji

theorem GroupInv.advance (h : GroupInv key (key i) s) {row : LogRow} {rows : List LogRow}
    (hsub : s.subscribers i = .inBatch (row :: rows)) :
    GroupInv key (key i)
      { s with
        offsets := Function.update s.offsets (key i) (some row.id)
        subscribers := Function.update s.subscribers i (.holding row rows) } := by
  have hown := h.ownOf rfl hsub
  have hbusy : (s.subscribers i).Busy := by
    rw [hsub]
    exact .inr (List.cons_ne_nil row rows)
  have hrow : s.lastId (key i) < row.id := hown.ahead row (by simp [Subscriber.ahead])
  have hmem : row ∈ s.eventLog := (hown.logged row (by simp [Subscriber.ahead])).1
  set t : GroupBus ι :=
    { s with
      offsets := Function.update s.offsets (key i) (some row.id)
      subscribers := Function.update s.subscribers i (.holding row rows) } with ht
  have hlast : t.lastId (key i) = row.id := by simp [ht, GroupBus.lastId]
  have hself : t.subscribers i = .holding row rows := Function.update_self ..
  have hpassed : t.passed i = s.passed i ++ [row] := by
    simp [GroupBus.passed, hsub, Subscriber.held, ht]
  refine h.update (i := i) rfl rfl rfl ?_ (fun j hj => Function.update_of_ne hj ..)
    (fun _ _ => rfl) ?_ ?_ (fun _ j hj hji => h.not_busy rfl hbusy hj hji) ?_ ?_
  · rw [hlast]
    exact h.below row hmem
  · rw [hlast, hself]
    exact hown.advance
  · rw [hlast]
    exact fun j hj hji => (h.own j hj).raise (h.not_busy rfl hbusy hj hji) (Nat.le_of_lt hrow)
  · intro j hj hji r hr hrj
    rw [hpassed] at hr
    rcases List.mem_append.mp hr with hr | hr
    · exact h.disjoint i j rfl hj (Ne.symm hji) r hr hrj
    · -- the new row is above what the others have passed
      obtain rfl := List.mem_singleton.mp hr
      have hle : r.id ≤ s.lastId (key i) := (h.own j hj).passed r hrj
      omega
  · rw [hlast]
    intro e he htopic hle
    by_cases hold : e.id ≤ s.lastId (key i)
    · obtain ⟨j, hj, hmem⟩ := h.covered e he htopic hold
      refine ⟨j, hj, ?_⟩
      by_cases hji : j = i
      · subst hji
        rw [hpassed]
        show e ∈ s.passed j ++ [row] ++ s.lost j
        rcases List.mem_append.mp hmem with hp | hl
        · simp [hp]
        · simp [hl]
      · have hsame : t.passed j = s.passed j := by
          simp [GroupBus.passed, ht, hji]
        rw [hsame]
        exact hmem
    · -- what the offset has just passed is the row in hand
      have hin := hown.contiguous row (by simp [Subscriber.ahead]) e he htopic (by omega) hle
      have hbatch : (row :: rows).Pairwise fun a b => a.id < b.id :=
        (List.pairwise_append.mp hown.sorted).2.1
      obtain ⟨hfirst, -⟩ := List.pairwise_cons.mp hbatch
      rcases List.mem_cons.mp hin with rfl | hin
      · exact ⟨i, rfl, by simp [hpassed]⟩
      · have hlt := hfirst e hin
        omega

theorem GroupInv.crash (h : GroupInv key (key i) s) :
    GroupInv key (key i)
      { s with
        lost := Function.update s.lost i (s.lost i ++ (s.subscribers i).held)
        subscribers := Function.update s.subscribers i (.inBatch []) } := by
  set t : GroupBus ι :=
    { s with
      lost := Function.update s.lost i (s.lost i ++ (s.subscribers i).held)
      subscribers := Function.update s.subscribers i (.inBatch []) } with ht
  have hself : t.subscribers i = .inBatch [] := Function.update_self ..
  have hpassed : t.passed i = s.yielded i := by
    simp [GroupBus.passed, Subscriber.held, ht]
  refine h.update (i := i) rfl rfl rfl h.bound (fun j hj => Function.update_of_ne hj ..)
    (fun _ _ => rfl) ?_ (fun j hj _ => h.own j hj) ?_ ?_ ?_
  · rw [hself]
    exact (h.own i rfl).crash
  · rw [hself]
    exact fun hbusy => absurd hbusy not_busy_inBatch_nil
  · rw [hpassed]
    intro j hj hji r hr
    exact h.disjoint i j rfl hj (Ne.symm hji) r (List.mem_append_left _ hr)
  · intro e he htopic hle
    obtain ⟨j, hj, hmem⟩ := h.covered e he htopic hle
    refine ⟨j, hj, ?_⟩
    by_cases hji : j = i
    · subst hji
      -- the row in hand is what the crash takes
      have hlost : t.lost j = s.lost j ++ (s.subscribers j).held := Function.update_self ..
      rw [hpassed, hlost]
      simp only [GroupBus.passed, List.mem_append] at hmem ⊢
      rcases hmem with (hy | hh) | hl
      · exact .inl hy
      · exact .inr (.inr hh)
      · exact .inr (.inl hl)
    · have hsame : t.passed j = s.passed j := by
        simp [GroupBus.passed, ht, hji]
      have hlost : t.lost j = s.lost j := Function.update_of_ne hji ..
      rw [hsame, hlost]
      exact hmem

theorem GroupInv.step (h : GroupInv key k s) {x : GroupStep ι} (halone : ReadsAlone key k s x) :
    GroupInv key k (groupStep key s x) := by
  cases hx : x.subscriber with
  | none =>
    cases x with
    | publish skipped topic payload => exact h.publish skipped topic payload
    | _ => cases hx
  | some i =>
    by_cases hi : key i = k
    · subst hi
      have htakes := takes_groupStep key s hx
      generalize groupStep key s x = t at htakes ⊢
      cases htakes with
      | stay => exact h
      | readOffset hsub => exact h.readOffset hsub (halone i rfl rfl hsub)
      | fetch n hsub => exact h.fetch hsub
      | advance row rows hsub => exact h.advance hsub
      | yield row rows hsub => exact h.yield hsub
      | crash => exact h.crash
    · exact h.other hx hi

/-- The offset only moves on. -/
theorem GroupInv.lastId_le (h : GroupInv key k s) (x : GroupStep ι) :
    s.lastId k ≤ (groupStep key s x).lastId k := by
  cases hx : x.subscriber with
  | none =>
    cases x with
    | publish skipped topic payload => exact Nat.le_refl _
    | _ => cases hx
  | some i =>
    have htakes := takes_groupStep key s hx
    generalize groupStep key s x = t at htakes ⊢
    cases htakes with
    | readOffset hsub =>
      by_cases hi : key i = k
      · subst hi
        simp [GroupBus.lastId]
      · simp [GroupBus.lastId, Function.update_of_ne (Ne.symm hi)]
    | advance row rows hsub =>
      by_cases hi : key i = k
      · subst hi
        have hrow := (h.ownOf rfl hsub).ahead row (by simp [Subscriber.ahead])
        simpa [GroupBus.lastId] using Nat.le_of_lt hrow
      · simp [GroupBus.lastId, Function.update_of_ne (Ne.symm hi)]
    | _ => exact Nat.le_refl _

variable (key s) in
/-- What a generator does is not seen by the other ones. -/
theorem groupStep_other {x : GroupStep ι} (hx : x.subscriber = some i) {j : ι} (hj : j ≠ i) :
    (groupStep key s x).subscribers j = s.subscribers j ∧
      (groupStep key s x).yielded j = s.yielded j ∧ (groupStep key s x).lost j = s.lost j := by
  have htakes := takes_groupStep key s hx
  generalize groupStep key s x = t at htakes ⊢
  cases htakes with
  | _ => simp [hj]

end Group

section Runs

variable [DecidableEq ι] {key} {k : OffsetKey} {steps : List (GroupStep ι)} {i : ι}

def AllReadAlone (key : ι → OffsetKey) (k : OffsetKey) (steps : List (GroupStep ι)) : Prop :=
  ∀ pre x, pre ++ [x] <+: steps → ReadsAlone key k (groupAfter key pre) x

theorem groupInv_after (h : AllReadAlone key k steps) :
    GroupInv key k (groupAfter key steps) := by
  have heach : Runs.Each (fun s x _ => ReadsAlone key k s x) .start
      (Runs.trace (groupStep key) .start steps) := Runs.each_trace_prefix.mpr h
  exact heach.invariant_foldl (fun s x hs hx => hs.step hx) groupInv_start

theorem AllReadAlone.of_isPrefix (h : AllReadAlone key k steps) {pre : List (GroupStep ι)}
    (hp : pre <+: steps) : AllReadAlone key k pre :=
  fun pre' x hx => h pre' x (hx.trans hp)

theorem groupAfter_concat (pre : List (GroupStep ι)) (x : GroupStep ι) :
    groupAfter key (pre ++ [x]) = groupStep key (groupAfter key pre) x := by
  simp [groupAfter]

theorem lastId_mono (h : AllReadAlone key k steps) {pre : List (GroupStep ι)}
    (hp : pre <+: steps) : (groupAfter key pre).lastId k ≤ (groupAfter key steps).lastId k := by
  obtain ⟨rest, rfl⟩ := hp
  induction rest generalizing pre with
  | nil => rw [List.append_nil]
  | cons x rest ih =>
    have hsplit : pre ++ x :: rest = (pre ++ [x]) ++ rest := by simp
    have hpre : pre <+: pre ++ x :: rest := List.prefix_append ..
    have hstep := (groupInv_after (h.of_isPrefix hpre)).lastId_le x
    rw [← groupAfter_concat] at hstep
    rw [hsplit] at h ⊢
    exact Nat.le_trans hstep (ih h)

/-- The state without what is the generator's own. -/
def GroupBus.without (key : ι → OffsetKey) (i : ι) (s : GroupBus ι) : GroupBus ι :=
  { s with
    offsets := Function.update s.offsets (key i) none
    subscribers := Function.update s.subscribers i (.inBatch [])
    yielded := Function.update s.yielded i []
    lost := Function.update s.lost i [] }

theorem without_start : GroupBus.start.without key i = .start := by
  simp [GroupBus.without, GroupBus.start]

/-- What a generator does to the state is its own. -/
theorem without_own {x : GroupStep ι} (hx : x.subscriber = some i) (s : GroupBus ι) :
    (groupStep key s x).without key i = s.without key i := by
  have htakes := takes_groupStep key s hx
  generalize groupStep key s x = t at htakes ⊢
  cases htakes with
  | _ => simp [GroupBus.without]

theorem without_other (hsingle : ∀ j, key j = key i → j = i) {x : GroupStep ι}
    (hx : x.subscriber ≠ some i) (s : GroupBus ι) :
    (groupStep key s x).without key i = groupStep key (s.without key i) x := by
  have hne : ∀ a, some a ≠ some i → a ≠ i ∧ key a ≠ key i := by
    intro a ha
    have hai : a ≠ i := fun h => ha (congrArg some h)
    exact ⟨hai, fun h => hai (hsingle a h)⟩
  cases x with
  | publish skipped topic payload => rfl
  | readOffset a =>
    obtain ⟨hai, hkey⟩ := hne a hx
    rcases hsub : s.subscribers a with (_ | ⟨row, rows⟩) | n | ⟨row, rows⟩
    all_goals simp [groupStep, GroupBus.without, GroupBus.lastId, hsub, hai, hkey,
      Function.update_comm hai, Function.update_comm hkey]
  | fetch a =>
    obtain ⟨hai, -⟩ := hne a hx
    rcases hsub : s.subscribers a with rows | n | ⟨row, rows⟩
    all_goals simp [groupStep, GroupBus.without, hsub, hai, Function.update_comm hai]
  | advance a =>
    obtain ⟨hai, hkey⟩ := hne a hx
    rcases hsub : s.subscribers a with (_ | ⟨row, rows⟩) | n | ⟨row, rows⟩
    all_goals simp [groupStep, GroupBus.without, hsub, hai, Function.update_comm hai,
      Function.update_comm hkey]
  | yield a =>
    obtain ⟨hai, -⟩ := hne a hx
    rcases hsub : s.subscribers a with rows | n | ⟨row, rows⟩
    all_goals simp [groupStep, GroupBus.without, hsub, hai, Function.update_comm hai]
  | crash a =>
    obtain ⟨hai, -⟩ := hne a hx
    simp [groupStep, GroupBus.without, hai, Function.update_comm hai]

theorem groupAfter_filter (hsingle : ∀ j, key j = key i → j = i) (steps : List (GroupStep ι))
    (s : GroupBus ι) :
    (steps.filter fun x => x.subscriber ≠ some i).foldl (groupStep key) (s.without key i) =
      (steps.foldl (groupStep key) s).without key i := by
  induction steps generalizing s with
  | nil => rfl
  | cons x steps ih =>
    by_cases hx : x.subscriber = some i
    · rw [List.filter_cons_of_neg (by simp [hx]), ← without_own hx s, ih]
      rfl
    · rw [List.filter_cons_of_pos (by simp [hx]), List.foldl_cons, ← without_other hsingle hx s, ih]
      rfl

theorem lost_groupStep (s : GroupBus ι) (x : GroupStep ι) :
    (groupStep key s x).lost i = s.lost i ++
      (if x.crashes i then (s.subscribers i).held else []) := by
  cases x with
  | crash a =>
    by_cases hai : a = i
    · subst hai
      simp [groupStep, GroupStep.crashes]
    · simp [groupStep, GroupStep.crashes, hai, Ne.symm hai]
  | publish _ _ _ => simp [groupStep, GroupStep.crashes]
  | readOffset a =>
    rcases hsub : s.subscribers a with (_ | ⟨row, rows⟩) | n | ⟨row, rows⟩
    all_goals simp [groupStep, hsub, GroupStep.crashes]
  | fetch a =>
    rcases hsub : s.subscribers a with rows | n | ⟨row, rows⟩
    all_goals simp [groupStep, hsub, GroupStep.crashes]
  | advance a =>
    rcases hsub : s.subscribers a with (_ | ⟨row, rows⟩) | n | ⟨row, rows⟩
    all_goals simp [groupStep, hsub, GroupStep.crashes]
  | yield a =>
    rcases hsub : s.subscribers a with rows | n | ⟨row, rows⟩
    all_goals simp [groupStep, hsub, GroupStep.crashes]

theorem mem_held {sub : Subscriber} {e : LogRow} (h : e ∈ sub.held) :
    ∃ rows, sub = .holding e rows := by
  cases sub with
  | inBatch rows => cases h
  | atFetch n => cases h
  | holding row rows =>
    obtain rfl := List.mem_singleton.mp h
    exact ⟨rows, rfl⟩

theorem length_held_le (sub : Subscriber) : sub.held.length ≤ 1 := by
  cases sub <;> simp [Subscriber.held]

variable (key i) in
theorem losses_after (steps : List (GroupStep ι)) :
    ((groupAfter key steps).lost i).length ≤ steps.countP (GroupStep.crashes i) ∧
      ∀ e ∈ (groupAfter key steps).lost i, ∃ pre, pre ++ [.crash i] <+: steps ∧
        ∃ rows, (groupAfter key pre).subscribers i = .holding e rows := by
  induction steps using List.reverseRecOn with
  | nil => simp [groupAfter, GroupBus.start]
  | append_singleton steps x ih =>
    obtain ⟨hcount, hlost⟩ := ih
    rw [groupAfter_concat, lost_groupStep, List.countP_append, List.length_append]
    have hold : ∀ e ∈ (groupAfter key steps).lost i, ∃ pre, pre ++ [.crash i] <+: steps ++ [x] ∧
        ∃ rows, (groupAfter key pre).subscribers i = .holding e rows := by
      intro e he
      obtain ⟨pre, hpre, hrows⟩ := hlost e he
      exact ⟨pre, hpre.trans (List.prefix_append ..), hrows⟩
    by_cases hx : x.crashes i
    · have hcrash : x = .crash i := by
        cases x with
        | crash a => simpa [GroupStep.crashes] using hx
        | _ => cases hx
      have hone := length_held_le ((groupAfter key steps).subscribers i)
      rw [if_pos hx, List.countP_singleton, if_pos hx]
      refine ⟨by omega, fun e he => ?_⟩
      rcases List.mem_append.mp he with he | he
      · exact hold e he
      · exact ⟨steps, hcrash ▸ List.prefix_rfl, mem_held he⟩
    · rw [if_neg hx]
      refine ⟨?_, ?_⟩
      · rw [List.length_nil]
        omega
      · simpa using hold

/-- What the only subscriber of its topic and group is promised over all its lives. -/
structure SeesLogInOrder (key : ι → OffsetKey) (i : ι) (steps : List (GroupStep ι)) : Prop where
  increasing : ((groupAfter key steps).yielded i).Pairwise fun a b => a.id < b.id
  monotone : ∀ pre, pre <+: steps →
    (groupAfter key pre).lastId (key i) ≤ (groupAfter key steps).lastId (key i)
  /-- The log, the other offsets and the other subscribers are as they are without it. -/
  isolated : groupAfter key (steps.filter fun x => x.subscriber ≠ some i) =
    (groupAfter key steps).without key i
  /-- A visible event that the offset has passed was yielded, is in hand or was lost. -/
  accounted : ∀ e ∈ (groupAfter key steps).eventLog, e.topic = (key i).topic →
    e.id ≤ (groupAfter key steps).lastId (key i) →
    e ∈ (groupAfter key steps).yielded i ∨
      (∃ rows, (groupAfter key steps).subscribers i = .holding e rows) ∨
      e ∈ (groupAfter key steps).lost i
  /-- A crash loses at most one event, the one in hand. -/
  losses : ((groupAfter key steps).lost i).length ≤ steps.countP (GroupStep.crashes i) ∧
    ∀ e ∈ (groupAfter key steps).lost i, ∃ pre, pre ++ [.crash i] <+: steps ∧
      ∃ rows, (groupAfter key pre).subscribers i = .holding e rows
  nothingSkipped : (∀ x ∈ steps, ¬ x.crashes i) → ∀ e ∈ (groupAfter key steps).eventLog,
    e.topic = (key i).topic → e.id ≤ (groupAfter key steps).lastId (key i) →
    e ∈ (groupAfter key steps).yielded i ∨
      ∃ rows, (groupAfter key steps).subscribers i = .holding e rows

/-- One subscriber sees the log in order and once, over all its lives. -/
theorem single_subscriber_sees_log (hsingle : ∀ j, key j = key i → j = i)
    (steps : List (GroupStep ι)) : SeesLogInOrder key i steps := by
  have halone : AllReadAlone key (key i) steps := by
    intro pre x _ a _ ha hsub j hj
    rw [hsingle j hj]
    rw [hsingle a ha] at hsub
    rw [hsub]
    exact not_busy_inBatch_nil
  have hinv := groupInv_after halone
  have haccounted : ∀ e ∈ (groupAfter key steps).eventLog, e.topic = (key i).topic →
      e.id ≤ (groupAfter key steps).lastId (key i) →
      e ∈ (groupAfter key steps).yielded i ∨
        (∃ rows, (groupAfter key steps).subscribers i = .holding e rows) ∨
        e ∈ (groupAfter key steps).lost i := by
    intro e he htopic hle
    obtain ⟨j, hj, hmem⟩ := hinv.covered e he htopic hle
    rw [hsingle j hj] at hmem
    simp only [GroupBus.passed, List.mem_append] at hmem
    rcases hmem with (hy | hh) | hl
    · exact .inl hy
    · exact .inr (.inl (mem_held hh))
    · exact .inr (.inr hl)
  refine ⟨?_, fun pre hpre => lastId_mono halone hpre, ?_, haccounted, losses_after key i steps, ?_⟩
  · exact (List.pairwise_append.mp (hinv.own i rfl).sorted).1
  · have hfilter := groupAfter_filter hsingle steps .start
    rwa [without_start] at hfilter
  · intro hcrash e he htopic hle
    have hcount : steps.countP (GroupStep.crashes i) = 0 := List.countP_eq_zero.mpr hcrash
    have hnone : (groupAfter key steps).lost i = [] :=
      List.eq_nil_of_length_eq_zero (by have := (losses_after key i steps).1; omega)
    rcases haccounted e he htopic hle with hy | hh | hl
    · exact .inl hy
    · exact .inr hh
    · rw [hnone] at hl
      cases hl

/-- One subscriber that crashes with the first of two events in hand. -/
theorem single_subscriber_sees_log_once :
    SeesLogInOrder (fun _ : Unit => ⟨"post.synced", "post-dispatcher-synced"⟩) ()
      [.publish 0 "post.synced" "a", .publish 0 "post.synced" "b", .readOffset (), .fetch (),
        .advance (), .crash (), .readOffset (), .fetch (), .advance (), .yield ()] :=
  single_subscriber_sees_log (fun _ _ => rfl) _

def Disjoint (key : ι → OffsetKey) (k : OffsetKey) (s : GroupBus ι) : Prop :=
  ∀ i j, key i = k → key j = k → i ≠ j → ∀ e ∈ s.yielded i, e ∉ s.yielded j

def SharesWork (key : ι → OffsetKey) (k : OffsetKey) (steps : List (GroupStep ι)) : Prop :=
  Disjoint key k (groupAfter key steps) ∧
    ∀ pre, pre <+: steps → (groupAfter key pre).lastId k ≤ (groupAfter key steps).lastId k

variable {s : GroupBus ι} {j : ι}

omit [DecidableEq ι] in
theorem GroupInv.yielded_disjoint (h : GroupInv key k s) : Disjoint key k s :=
  fun i j hi hj hij e he hej =>
    h.disjoint i j hi hj hij e (List.mem_append_left _ he) (List.mem_append_left _ hej)

theorem mem_yielded_deliver {row : LogRow} {rows : List LogRow}
    (hsub : s.subscribers i = .inBatch (row :: rows)) :
    row ∈ (([.advance i, .yield i] : List (GroupStep ι)).foldl (groupStep key) s).yielded i := by
  simp [groupStep, hsub]

variable (key s) in
theorem foldl_other {xs : List (GroupStep ι)} (hxs : ∀ x ∈ xs, x.subscriber = some i)
    (hji : j ≠ i) : (xs.foldl (groupStep key) s).subscribers j = s.subscribers j ∧
      (xs.foldl (groupStep key) s).yielded j = s.yielded j := by
  induction xs generalizing s with
  | nil => exact ⟨rfl, rfl⟩
  | cons x xs ih =>
    rw [List.forall_mem_cons] at hxs
    have hstep := groupStep_other key s hxs.1 hji
    rw [List.foldl_cons, (ih _ hxs.2).1, (ih _ hxs.2).2]
    exact ⟨hstep.1, hstep.2.1⟩

theorem not_disjoint_deliver (hi : key i = k) (hj : key j = k) (hij : i ≠ j) {row : LogRow}
    {rows rows' : List LogRow} (hsubi : s.subscribers i = .inBatch (row :: rows))
    (hsubj : s.subscribers j = .inBatch (row :: rows')) :
    ¬ Disjoint key k (([.advance i, .yield i, .advance j, .yield j] : List (GroupStep ι)).foldl
      (groupStep key) s) := by
  intro hdisjoint
  set t := ([.advance i, .yield i] : List (GroupStep ι)).foldl (groupStep key) s with ht
  have hrowi : row ∈ t.yielded i := mem_yielded_deliver hsubi
  have hmine : ∀ a : ι, ∀ x ∈ ([.advance a, .yield a] : List (GroupStep ι)),
      x.subscriber = some a := by
    simp [GroupStep.subscriber]
  have hkeep := foldl_other key s (hmine i) (Ne.symm hij)
  rw [← ht, hsubj] at hkeep
  have hrowj : row ∈ (([.advance j, .yield j] : List (GroupStep ι)).foldl (groupStep key) t).yielded
      j := mem_yielded_deliver hkeep.1
  have hkeep' := foldl_other key t (hmine j) hij
  rw [← hkeep'.2] at hrowi
  exact hdisjoint i j hi hj hij row hrowi hrowj

/-- What is selected starts with the lowest row above the offset. -/
theorem selectRows_eq_cons {eventLog : List LogRow} {topic : String} {lastId limit : ℕ}
    {row : LogRow} {rows : List LogRow} (hids : (eventLog.map LogRow.id).Nodup)
    (hlimit : 0 < limit) (hrow : row ∈ eventLog) (htopic : row.topic = topic)
    (hlt : lastId < row.id) (hsorted : (row :: rows).Pairwise fun a b => a.id < b.id)
    (hfirst : ∀ e ∈ eventLog, e.topic = topic → lastId < e.id → e.id ≤ row.id →
      e ∈ row :: rows) : ∃ rest, selectRows eventLog topic lastId limit = row :: rest := by
  have hs := sorted_rows hids topic lastId
  have hmem : row ∈ (eventLog.filter fun r => r.topic = topic ∧ lastId < r.id).insertionSort
      fun a b => a.id ≤ b.id := by
    rw [List.mem_insertionSort, List.mem_filter]
    exact ⟨hrow, by simp [htopic, hlt]⟩
  unfold selectRows
  rcases hl : (eventLog.filter fun r => r.topic = topic ∧ lastId < r.id).insertionSort
      fun a b => a.id ≤ b.id with _ | ⟨a, l⟩
  · rw [hl] at hmem
    cases hmem
  · have ha : a ∈ eventLog ∧ a.topic = topic ∧ lastId < a.id := by
      have hin : a ∈ (eventLog.filter fun r => r.topic = topic ∧ lastId < r.id).insertionSort
          fun a b => a.id ≤ b.id := by
        rw [hl]
        exact List.mem_cons_self
      rw [List.mem_insertionSort, List.mem_filter] at hin
      simpa using hin
    rw [hl] at hs hmem
    have hle : a.id ≤ row.id := by
      rcases List.mem_cons.mp hmem with rfl | hin
      · exact Nat.le_refl _
      · exact Nat.le_of_lt ((List.pairwise_cons.mp hs).1 row hin)
    -- the lowest row is in the batch, where `row` is the lowest
    have heq : a = row := by
      rcases List.mem_cons.mp (hfirst a ha.1 ha.2.1 ha.2.2 hle) with heq | hin
      · exact heq
      · have hlt' := (List.pairwise_cons.mp hsorted).1 a hin
        omega
    obtain ⟨m, rfl⟩ : ∃ m, limit = m + 1 := ⟨limit - 1, by omega⟩
    exact ⟨l.take m, by rw [hl, heq, List.take_succ_cons]⟩

/-- The generators go on without another read, and share the work. -/
def SharesOn (key : ι → OffsetKey) (k : OffsetKey) (s : GroupBus ι) : Prop :=
  ∀ rest : List (GroupStep ι), (∀ x ∈ rest, x.isRead = false) →
    Disjoint key k (rest.foldl (groupStep key) s) ∧
      s.lastId k ≤ (rest.foldl (groupStep key) s).lastId k

theorem GroupInv.sharesOn (h : GroupInv key k s) : SharesOn key k s := by
  intro rest hrest
  induction rest generalizing s with
  | nil => exact ⟨h.yielded_disjoint, Nat.le_refl _⟩
  | cons x rest ih =>
    rw [List.forall_mem_cons] at hrest
    have halone : ReadsAlone key k s x := by
      rintro i rfl
      cases hrest.1
    have hrun := ih (h.step halone) hrest.2
    exact ⟨hrun.1, Nat.le_trans (h.lastId_le x) hrun.2⟩

theorem SharesOn.not_same_next (h : SharesOn key k s) (hi : key i = k) (hj : key j = k)
    (hij : i ≠ j) {xs : List (GroupStep ι)} (hxs : ∀ x ∈ xs, x.isRead = false) (row : LogRow)
    (rows rows' : List LogRow)
    (hsubi : (xs.foldl (groupStep key) s).subscribers i = .inBatch (row :: rows)) :
    (xs.foldl (groupStep key) s).subscribers j ≠ .inBatch (row :: rows') := by
  intro hsubj
  have hrun := (h (xs ++ [.advance i, .yield i, .advance j, .yield j]) ?_).1
  · rw [List.foldl_append] at hrun
    exact not_disjoint_deliver hi hj hij hsubi hsubj hrun
  · intro x hx
    rcases List.mem_append.mp hx with hx | hx
    · exact hxs x hx
    · simp only [List.mem_cons, List.not_mem_nil, or_false] at hx
      rcases hx with rfl | rfl | rfl | rfl <;> rfl

theorem selectRows_ne_nil {eventLog : List LogRow} {topic : String} {lastId limit : ℕ}
    {e : LogRow} (hlimit : 0 < limit) (he : e ∈ eventLog) (htopic : e.topic = topic)
    (hlt : lastId < e.id) : selectRows eventLog topic lastId limit ≠ [] := by
  have hmem : e ∈ (eventLog.filter fun r => r.topic = topic ∧ lastId < r.id).insertionSort
      fun a b => a.id ≤ b.id := by
    rw [List.mem_insertionSort, List.mem_filter]
    exact ⟨he, by simp [htopic, hlt]⟩
  unfold selectRows
  rw [Ne, List.take_eq_nil_iff]
  rintro (h | h)
  · omega
  · rw [h] at hmem
    cases hmem

/-- A read that is not made alone lets both generators yield the same row. -/
theorem GroupInv.not_sharesOn (h : GroupInv key k s) {x : GroupStep ι}
    (hread : ¬ ReadsAlone key k s x) : ¬ SharesOn key k (groupStep key s x) := by
  simp only [ReadsAlone, not_forall, not_not] at hread
  obtain ⟨i, rfl, rfl, hsubi, j, hj, hbusy⟩ := hread
  have hij : i ≠ j := by
    rintro rfl
    rw [hsubi] at hbusy
    exact not_busy_inBatch_nil hbusy
  have hown := h.own j hj
  intro hshares
  -- the reader is at its fetch, and nothing else has changed
  set t := groupStep key s (.readOffset i) with ht
  have hfetchi : t.subscribers i = .atFetch (s.lastId (key i)) := by
    simp [ht, groupStep, hsubi]
  have hlog : t.eventLog = s.eventLog := by
    simp [ht, groupStep, hsubi]
  have hnext : t.nextId = s.nextId := by
    simp [ht, groupStep, hsubi]
  have hsubj : t.subscribers j = s.subscribers j :=
    (groupStep_other key s (i := i) rfl (Ne.symm hij)).1
  rcases hbusy with ⟨n, hn⟩ | hne
  · -- both fetch at the same offset, once there is something to fetch
    have hn' : n = s.lastId (key i) := hown.atFetch n hn
    have hbound := h.bound
    set e : LogRow := ⟨s.nextId + 0, (key i).topic, ""⟩ with he
    have hrows : selectRows (s.eventLog ++ [e]) (key i).topic (s.lastId (key i)) batchSize ≠ [] :=
      selectRows_ne_nil (by decide) (List.mem_append_right _ (List.mem_singleton_self e)) rfl hbound
    obtain ⟨row, rows, hrow⟩ := List.exists_cons_of_ne_nil hrows
    have hxs : ∀ x ∈ ([.publish 0 (key i).topic "", .fetch i, .fetch j] : List (GroupStep ι)),
        x.isRead = false := by simp [GroupStep.isRead]
    refine hshares.not_same_next rfl hj hij hxs row rows rows ?_ ?_
    · simp [groupStep, hfetchi, hsubj, hn, hij, Ne.symm hij, hlog, hnext, ← hrow, he]
    · simp [groupStep, hfetchi, hsubj, hn, hn', Ne.symm hij, hlog, hnext, ← hrow, he, hj]
  · -- the reader fetches the rest of the other's batch
    obtain ⟨row, rows, hahead⟩ := List.exists_cons_of_ne_nil hne
    have hmem : row ∈ (s.subscribers j).ahead := by simp [hahead]
    have hlogged := hown.logged row (by simp [hmem])
    have hsorted : (row :: rows).Pairwise fun a b => a.id < b.id := by
      rw [← hahead]
      exact (List.pairwise_append.mp (List.pairwise_append.mp hown.sorted).2.1).2.1
    obtain ⟨rest, hrest⟩ := selectRows_eq_cons h.ids (by decide : 0 < batchSize) hlogged.1
      hlogged.2 (hown.ahead row hmem) hsorted (hahead ▸ hown.contiguous row hmem)
    cases hsub : s.subscribers j with
    | atFetch n => simp [hsub, Subscriber.ahead] at hahead
    | inBatch rows' =>
      obtain rfl : rows' = row :: rows := by simpa [hsub, Subscriber.ahead] using hahead
      have hxs : ∀ x ∈ ([.fetch i] : List (GroupStep ι)), x.isRead = false := by
        simp [GroupStep.isRead]
      refine hshares.not_same_next rfl hj hij hxs row rest rows ?_ ?_
      · simp [groupStep, hfetchi, hlog, hrest]
      · simp [groupStep, hfetchi, hsubj, hsub, Ne.symm hij]
    | holding r rows' =>
      obtain rfl : rows' = row :: rows := by simpa [hsub, Subscriber.ahead] using hahead
      have hxs : ∀ x ∈ ([.yield j, .fetch i] : List (GroupStep ι)), x.isRead = false := by
        simp [GroupStep.isRead]
      refine hshares.not_same_next rfl hj hij hxs row rest rows ?_ ?_
      · simp [groupStep, hfetchi, hsubj, hsub, hij, hlog, hrest]
      · simp [groupStep, hfetchi, hsubj, hsub, hij, Ne.symm hij]

omit [DecidableEq ι] in
theorem readsAlone_of_not_read {x : GroupStep ι} (hx : x.isRead = false) :
    ReadsAlone key k s x := by
  rintro i rfl
  cases hx

theorem AllReadAlone.append (h : AllReadAlone key k steps) {rest : List (GroupStep ι)}
    (hrest : ∀ x ∈ rest, x.isRead = false) : AllReadAlone key k (steps ++ rest) := by
  induction rest using List.reverseRecOn with
  | nil => rwa [List.append_nil]
  | append_singleton rest x ih =>
    have hbefore := ih fun y hy => hrest y (List.mem_append_left _ hy)
    intro pre y hpre
    rw [← List.append_assoc, List.prefix_concat_iff] at hpre
    rcases hpre with heq | hpre
    · -- the last step of all is no read
      have hlast : [y] = [x] := (List.append_inj' heq rfl).2
      rw [List.singleton_inj.mp hlast]
      exact readsAlone_of_not_read (hrest x (List.mem_append_right _ (List.mem_singleton_self x)))
    · exact hbefore pre y hpre

/-- The generators of a group share its work, in a run and however they go on from it until the
next read, exactly when each reads the offset while no other one is at work. -/
theorem sharesWork_iff (key : ι → OffsetKey) (k : OffsetKey) (steps : List (GroupStep ι)) :
    (∀ pre rest, pre <+: steps → (∀ x ∈ rest, x.isRead = false) →
      SharesWork key k (pre ++ rest)) ↔ AllReadAlone key k steps := by
  have hruns : Runs.Each (fun _ _ t => SharesOn key k t) .start
        (Runs.trace (groupStep key) .start steps) ↔
      Runs.Each (fun s x _ => ReadsAlone key k s x) .start
        (Runs.trace (groupStep key) .start steps) := by
    refine Runs.each_trace_congr (fun s x hs => ?_) (fun s x hs hx => hs.step hx) groupInv_start
      steps
    refine ⟨fun hshares => ?_, fun hread => (hs.step hread).sharesOn⟩
    by_contra hread
    exact hs.not_sharesOn hread hshares
  rw [Runs.each_trace_prefix, Runs.each_trace_prefix] at hruns
  constructor
  · intro h
    apply hruns.mp
    intro pre x hpre rest hrest
    have hrun := h (pre ++ [x]) rest hpre hrest
    have hafter : rest.foldl (groupStep key) (groupAfter key (pre ++ [x])) =
        groupAfter key (pre ++ [x] ++ rest) := by simp [groupAfter]
    show Disjoint key k (rest.foldl (groupStep key) (groupStep key (groupAfter key pre) x)) ∧
      (groupStep key (groupAfter key pre) x).lastId k ≤
        (rest.foldl (groupStep key) (groupStep key (groupAfter key pre) x)).lastId k
    rw [← groupAfter_concat, hafter]
    exact ⟨hrun.1, hrun.2 _ (List.prefix_append ..)⟩
  · intro h pre rest hpre hrest
    have hall := (h.of_isPrefix hpre).append hrest
    exact ⟨(groupInv_after hall).yielded_disjoint, fun pre' hpre' => lastId_mono hall hpre'⟩

def twoInstances : List (GroupStep (Fin 2)) :=
  [.publish 0 "post.synced" "a", .readOffset 0, .readOffset 1, .fetch 0, .fetch 1, .advance 0,
    .yield 0, .advance 1, .yield 1]

theorem two_instances_share_nothing :
    ¬ SharesWork (fun _ => ⟨"post.synced", "post-dispatcher-synced"⟩)
      ⟨"post.synced", "post-dispatcher-synced"⟩ twoInstances := by
  intro h
  exact h.1 0 1 rfl rfl (by decide) ⟨1, "post.synced", "a"⟩ (by decide) (by decide)

end Runs

end PostgresEventBus
end RagPipeline
