import Mathlib.Data.Finset.Basic
import RagPipeline.Basics
import RagPipeline.Config.Models
import RagPipeline.Lib.Crash

namespace RagPipeline
open Coro

/-- The files of the guard's directory, once it exists, and the models that this process is running.
The code keeps no `mine`: it is the markers that this process has created and not removed. -/
structure GuardState where
  dir : Option (Finset String)
  active : Finset String
  mine : Finset String

inductive GuardOp where
  | isActive (model : String)
  | fileExists (path : String)
  | replace (path target : String)
  | mkdir
  | writeText (path : String)
  | add (model : String)
  | discard (model : String)
  | unlink (path : String)
deriving DecidableEq

abbrev GuardAns : GuardOp → Type
  | .isActive _ | .fileExists _ => Bool
  | _ => Unit

abbrev GuardCoro (α : Type) := Coro GuardOp GuardAns PyExc α

abbrev awaitGuard (op : GuardOp) : GuardCoro (GuardAns op) := call op

namespace GuardState

def files (s : GuardState) : Finset String := s.dir.getD ∅

/-- The process dies: the directory is all that is left. -/
def die (s : GuardState) : GuardState := { s with active := ∅, mine := ∅ }

end GuardState

def guardWorld : World GuardOp GuardAns PyExc GuardState
  | .isActive model, s => (.ok (model ∈ s.active), s)
  | .fileExists path, s => (.ok (path ∈ s.files), s)
  | .replace path target, s =>
    if path ∈ s.files then
      (.ok (), { s with dir := some (insert target (s.files.erase path)) })
    else (.error (.other "FileNotFoundError"), s)
  | .mkdir, s => (.ok (), { s with dir := some s.files })
  | .writeText path, s =>
    match s.dir with
    | some files => (.ok (), { s with dir := some (insert path files), mine := insert path s.mine })
    | none => (.error (.other "FileNotFoundError"), s)
  | .add model, s => (.ok (), { s with active := insert model s.active })
  | .discard model, s => (.ok (), { s with active := s.active.erase model })
  -- `missing_ok=True`
  | .unlink path, s =>
    (.ok (), { s with dir := s.dir.map (·.erase path), mine := s.mine.erase path })

namespace LocalRunGuard

/-- `re.sub(r'[^A-Za-z0-9._-]', '_', model)`. -/
def sanitise (model : String) : String :=
  String.ofList (model.toList.map fun c =>
    if c.isAlphanum || c = '.' || c = '_' || c = '-' then c else '_')

/-- The name of a file in the guard's directory. -/
def path (model suffix : String) : String := sanitise model ++ "." ++ suffix

def running (model : String) : String := path model "running"

def blocked (model : String) : String := path model "blocked"

def unavailable (directory model : String) : PyExc :=
  .embeddingUnavailable ("Local embedding of '" ++ model ++ "' is blocked: a previous local run " ++
    "was killed. Skipping so the chunks wait for the remote embedder. Remove " ++ directory ++
    "/" ++ blocked model ++ " or recreate the container to try local again.")

variable (directory : String)

def check (model : String) : GuardCoro Unit := do
  let active ← awaitGuard (.isActive model)
  -- `model not in self._active and running.exists()`
  let stale ← if active then ret false else awaitGuard (.fileExists (running model))
  if stale then awaitGuard (.replace (running model) (blocked model)) else ret ()
  let isBlocked ← awaitGuard (.fileExists (blocked model))
  if isBlocked then raise (unavailable directory model) else ret ()

/-- `run` up to its `yield`. -/
def enter (model : String) : GuardCoro Unit := do
  check directory model
  awaitGuard .mkdir
  awaitGuard (.writeText (running model))
  awaitGuard (.add model)

/-- The `finally` clause of `run`. -/
def leave (model : String) : GuardCoro Unit := do
  awaitGuard (.discard model)
  awaitGuard (.unlink (running model))

/-- The process that has the directory now, and the model whose `run` it is in. -/
structure Process where
  guard : GuardState
  inside : Option String

/-- What a process does, and after how many of its awaits it is killed there, if it is. -/
inductive Step where
  | check (model : String) (stop : Option ℕ)
  | enter (model : String) (stop : Option ℕ)
  | leave (stop : Option ℕ)
  /-- The process dies, or ends, between two calls or in the body of a `run`. -/
  | restart

def Step.stop : Step → Option ℕ
  | .check _ stop | .enter _ stop | .leave stop => stop
  | .restart => some 0

def Step.model : Step → Option String
  | .check model _ | .enter model _ => some model
  | .leave _ | .restart => none

/-- One guarded run at a time: a `run` is entered outside of every other. -/
def Process.program (s : Process) : Step → GuardCoro Unit
  | .check model _ => LocalRunGuard.check directory model
  | .enter model _ => if s.inside = none then LocalRunGuard.enter directory model else ret ()
  | .leave _ =>
    match s.inside with
    | some model => LocalRunGuard.leave model
    | none => ret ()
  | .restart => ret ()

/-- The guard's state at the end of the step or at the death of the process. -/
def Process.left (s : Process) (i : Step) : GuardState :=
  leaves guardWorld i.stop (s.program directory i) s.guard

/-- The body that the process is in after a step that it survives. -/
def Process.insideAfter (s : Process) : Step → Option String
  | .check _ _ => s.inside
  | .enter model _ =>
    if s.inside = none then
      match (run guardWorld (LocalRunGuard.enter directory model) s.guard).1 with
      | .ok _ => some model
      | .error _ => none
    else s.inside
  | .leave _ | .restart => none

def step (s : Process) (i : Step) : Process :=
  match i.stop with
  | none => ⟨s.left directory i, s.insideAfter directory i⟩
  | some _ => ⟨(s.left directory i).die, none⟩

def fresh : Process := ⟨⟨none, ∅, ∅⟩, none⟩

/-- The process is killed between the creation and the removal of the model's marker. -/
def Process.killedIn (s : Process) (model : String) (i : Step) : Bool :=
  i.stop.isSome && running model ∈ (s.left directory i).mine

/-- How many processes of a history are killed inside `run(model)`. -/
def kills (model : String) : Process → List Step → ℕ
  | _, [] => 0
  | s, i :: is => (s.killedIn directory model i).toNat + kills model (step directory s i) is

/-- The state after the first half of `check`: a marker that no run of this process owns has become
a block. -/
def checked (model : String) (s : GuardState) : GuardState :=
  if model ∉ s.active ∧ running model ∈ s.files then
    { s with dir := some (insert (blocked model) (s.files.erase (running model))) }
  else s

def created (s : GuardState) : GuardState := { s with dir := some s.files }

def marked (model : String) (s : GuardState) : GuardState :=
  { s with
    dir := some (insert (running model) s.files)
    mine := insert (running model) s.mine }

def entered (model : String) (s : GuardState) : GuardState :=
  { marked model s with active := insert model s.active }

def left (model : String) (s : GuardState) : GuardState where
  dir := s.dir.map (·.erase (running model))
  active := s.active.erase model
  mine := s.mine.erase (running model)

section Calls

variable {model : String} {s : GuardState} {C : GuardState → Prop}
  {Q : Except PyExc Unit → GuardState → Prop}

@[simp] theorem files_some (files active mine : Finset String) :
    (GuardState.mk (some files) active mine).files = files := rfl

@[simp] theorem files_map_erase (s : GuardState) (p : String) (active mine : Finset String) :
    (GuardState.mk (s.dir.map (·.erase p)) active mine).files = s.files.erase p := by
  rcases s with ⟨_ | files, a, mi⟩
  · simp [GuardState.files]
  · rfl

@[simp] theorem files_die (s : GuardState) : s.die.files = s.files := rfl

theorem covers_check (hs : C s) (hchecked : C (checked model s))
    (hQ : Q (if blocked model ∈ (checked model s).files then .error (unavailable directory model)
      else .ok ()) (checked model s)) :
    Covers guardWorld (fun _ => C) Q (check directory model) s := by
  unfold check
  rw [covers_call_bind]
  refine ⟨hs, ?_⟩
  have hlast : Covers guardWorld (fun _ => C) Q
      (awaitGuard (.fileExists (blocked model)) >>= fun b =>
        if b then raise (unavailable directory model) else ret ()) (checked model s) := by
    rw [covers_call_bind]
    refine ⟨hchecked, ?_⟩
    simp only [guardWorld]
    by_cases hb : blocked model ∈ (checked model s).files
    · simpa [hb] using hQ
    · simpa [hb] using hQ
  simp only [guardWorld]
  by_cases ha : model ∈ s.active
  · have hsame : checked model s = s := if_neg fun h => h.1 ha
    rw [hsame] at hlast
    simpa [ha] using hlast
  · simp only [ha, decide_false, Bool.false_eq_true, if_false]
    rw [covers_call_bind]
    refine ⟨hs, ?_⟩
    simp only [guardWorld]
    by_cases hr : running model ∈ s.files
    · have hmoved : checked model s =
          { s with dir := some (insert (blocked model) (s.files.erase (running model))) } :=
        if_pos ⟨ha, hr⟩
      simp only [hr, decide_true, if_true]
      rw [covers_call_bind]
      refine ⟨hs, ?_⟩
      simp only [guardWorld, hr, if_true]
      rwa [hmoved] at hlast
    · have hsame : checked model s = s := if_neg fun h => hr h.2
      rw [hsame] at hlast
      simpa [hr] using hlast

theorem covers_enter (hs : C s) (hchecked : C (checked model s))
    (hblocked : blocked model ∈ (checked model s).files →
      Q (.error (unavailable directory model)) (checked model s))
    (hfree : blocked model ∉ (checked model s).files → C (created (checked model s)) ∧
      C (marked model (checked model s)) ∧ Q (.ok ()) (entered model (checked model s))) :
    Covers guardWorld (fun _ => C) Q (enter directory model) s := by
  unfold enter
  rw [covers_bind]
  refine covers_check directory hs hchecked ?_
  by_cases hb : blocked model ∈ (checked model s).files
  · simpa [hb] using hblocked hb
  · obtain ⟨hcreated, hmarked, hentered⟩ := hfree hb
    simp only [hb, if_false]
    rw [covers_call_bind]
    refine ⟨hchecked, ?_⟩
    show Covers _ _ _ _ (created (checked model s))
    rw [covers_call_bind]
    refine ⟨hcreated, ?_⟩
    show Covers _ _ _ _ (marked model (checked model s))
    exact ⟨hmarked, hentered⟩

theorem covers_leave (hs : C s) (hdiscard : C { s with active := s.active.erase model })
    (hQ : Q (.ok ()) (left model s)) :
    Covers guardWorld (fun _ => C) Q (leave model) s := by
  unfold leave
  rw [covers_call_bind]
  refine ⟨hs, ?_⟩
  show Covers _ _ _ _ { s with active := s.active.erase model }
  exact ⟨hdiscard, hQ⟩

end Calls

section Paths

variable {model other : String}

theorem running_ne_blocked (model other : String) : running model ≠ blocked other := by
  intro h
  have hlast := congrArg (fun s : String => s.toList.getLast?) h
  simp [running, blocked, path] at hlast

theorem running_injOn {models : Set String} (h : models.InjOn sanitise) : models.InjOn running := by
  intro model hmodel other hother heq
  have hlist := congrArg String.toList heq
  simp only [running, path, String.toList_append, List.append_assoc,
    List.append_cancel_right_eq] at hlist
  exact h hmodel hother (String.toList_injective hlist)

theorem blocked_injOn {models : Set String} (h : models.InjOn sanitise) : models.InjOn blocked := by
  intro model hmodel other hother heq
  have hlist := congrArg String.toList heq
  simp only [blocked, path, String.toList_append, List.append_assoc,
    List.append_cancel_right_eq] at hlist
  exact h hmodel hother (String.toList_injective hlist)

end Paths

/-- No run of the model was killed: there is no block, and the only marker is this process's. -/
def Clear (model : String) (s : GuardState) : Prop :=
  blocked model ∉ s.files ∧ (running model ∈ s.files ↔ running model ∈ s.mine)

/-- A run of the model was killed, and its marker or the block that it became is there. -/
def Dead (model : String) (s : GuardState) : Prop :=
  running model ∉ s.mine ∧ (running model ∈ s.files ∨ blocked model ∈ s.files)

/-- Between two calls the process knows that it is in the model's body, and has its marker. -/
def Sync (model : String) (inside : Prop) (s : GuardState) : Prop :=
  (model ∈ s.active ↔ inside) ∧ (running model ∈ s.mine ↔ inside)

def Same (model : String) (s t : GuardState) : Prop :=
  (model ∈ t.active ↔ model ∈ s.active) ∧ (running model ∈ t.mine ↔ running model ∈ s.mine) ∧
    (running model ∈ t.files ↔ running model ∈ s.files) ∧
    (blocked model ∈ t.files ↔ blocked model ∈ s.files)

section Files

variable {model other : String} {s t : GuardState} {inside : Prop}

theorem Same.clear (h : Same model s t) : Clear model t ↔ Clear model s := by
  unfold Clear
  rw [h.2.1, h.2.2.1, h.2.2.2]

theorem Same.dead (h : Same model s t) : Dead model t ↔ Dead model s := by
  unfold Dead
  rw [h.2.1, h.2.2.1, h.2.2.2]

theorem Same.sync (h : Same model s t) : Sync model inside t ↔ Sync model inside s := by
  unfold Sync
  rw [h.1, h.2.1]

theorem Clear.die (h : Clear model s) (hmine : running model ∉ s.mine) : Clear model s.die := by
  have hrunning : running model ∉ s.files := fun hr => hmine (h.2.mp hr)
  refine ⟨h.1, ?_⟩
  rw [files_die]
  exact iff_of_false hrunning (Finset.notMem_empty _)

theorem checked_clear (h : Clear model s) (hsync : Sync model inside s) : checked model s = s := by
  refine if_neg fun hstale => ?_
  have hmine : running model ∈ s.mine := h.2.mp hstale.2
  exact hstale.1 (hsync.1.mpr (hsync.2.mp hmine))

theorem check_clear (h : Clear model s) (hsync : Sync model inside s) :
    Covers guardWorld (fun _ t => t = s) (fun r t => r = .ok () ∧ t = s)
      (check directory model) s := by
  have hsame := checked_clear h hsync
  refine covers_check (C := fun t => t = s) directory rfl hsame ?_
  rw [hsame]
  exact ⟨if_neg h.1, rfl⟩

theorem blocked_mem_checked (h : Dead model s) (hactive : model ∉ s.active) :
    blocked model ∈ (checked model s).files := by
  unfold checked
  split_ifs with hstale
  · simp
  · have hrunning : running model ∉ s.files := fun hr => hstale ⟨hactive, hr⟩
    exact h.2.resolve_left hrunning

theorem checked_dead (h : Dead model s) (hactive : model ∉ s.active) :
    Dead model (checked model s) ∧ model ∉ (checked model s).active := by
  refine ⟨⟨?_, .inr (blocked_mem_checked h hactive)⟩, ?_⟩
  · unfold checked
    split_ifs
    · exact h.1
    · exact h.1
  · unfold checked
    split_ifs
    · exact hactive
    · exact hactive

theorem check_dead (h : Dead model s) (hactive : model ∉ s.active) :
    Covers guardWorld (fun _ => Dead model)
      (fun r t => r = .error (unavailable directory model) ∧ Dead model t ∧ model ∉ t.active)
      (check directory model) s := by
  have hchecked := checked_dead h hactive
  apply covers_check directory h hchecked.1
  exact ⟨if_pos (blocked_mem_checked h hactive), hchecked⟩

theorem enter_dead (h : Dead model s) (hactive : model ∉ s.active) :
    Covers guardWorld (fun _ => Dead model)
      (fun r t => r = .error (unavailable directory model) ∧ Dead model t ∧ model ∉ t.active)
      (enter directory model) s := by
  have hchecked := checked_dead h hactive
  apply covers_enter directory h hchecked.1
  · exact fun _ => ⟨rfl, hchecked⟩
  · exact fun hfree => absurd (blocked_mem_checked h hactive) hfree

theorem enter_clear (h : Clear model s) (hsync : Sync model False s) :
    Covers guardWorld (fun _ => Clear model)
      (fun r t => r = .ok () ∧ Clear model t ∧ Sync model True t) (enter directory model) s := by
  have hsame := checked_clear h hsync
  apply covers_enter directory h (by rwa [hsame])
  · rw [hsame]
    exact fun hb => absurd hb h.1
  · rw [hsame]
    intro _
    have hne : blocked model ≠ running model := (running_ne_blocked model model).symm
    have hmarked : Clear model (marked model s) := by
      simp [Clear, marked, hne, h.1]
    refine ⟨h, hmarked, rfl, hmarked, ?_⟩
    simp [Sync, entered, marked]

theorem leave_clear (h : Clear model s) :
    Covers guardWorld (fun _ => Clear model)
      (fun r t => r = .ok () ∧ Clear model t ∧ Sync model False t) (leave model) s := by
  apply covers_leave h h
  refine ⟨rfl, ?_, ?_⟩
  · simp [Clear, left, h.1]
  · simp [Sync, left]

section Others

variable (hrunning : running model ≠ running other) (hblocked : blocked model ≠ blocked other)
  (hne : model ≠ other)

include hrunning hblocked

theorem same_checked : Same model s (checked other s) := by
  unfold checked
  split_ifs
  · have h₁ := running_ne_blocked model other
    have h₂ := (running_ne_blocked other model).symm
    simp [Same, hrunning, hblocked, h₁, h₂]
  · simp [Same]

theorem check_other :
    Covers guardWorld (fun _ => Same model s) (fun _ => Same model s) (check directory other) s :=
  covers_check directory (by simp [Same]) (same_checked hrunning hblocked)
    (same_checked hrunning hblocked)

include hne

theorem enter_other : Covers guardWorld (fun _ => Same model s) (fun _ => Same model s)
    (enter directory other) s := by
  have hchecked := same_checked (s := s) hrunning hblocked
  have hb := (running_ne_blocked other model).symm
  apply covers_enter directory (by simp [Same]) hchecked
  · exact fun _ => hchecked
  · intro _
    generalize checked other s = t at hchecked ⊢
    obtain ⟨h₁, h₂, h₃, h₄⟩ := hchecked
    refine ⟨⟨h₁, h₂, h₃, h₄⟩, ?_, ?_⟩
    · simp [Same, marked, h₁, h₂, h₃, h₄, hrunning, hb]
    · simp [Same, entered, marked, h₁, h₂, h₃, h₄, hrunning, hb, hne]

omit hblocked in
theorem leave_other :
    Covers guardWorld (fun _ => Same model s) (fun _ => Same model s) (leave other) s := by
  have hb := (running_ne_blocked other model).symm
  apply covers_leave (by simp [Same])
  · simp [Same, hne, GuardState.files]
  · simp [Same, left, hne, hrunning, hb]

end Others

end Files

/-- The invariant of one model over a history: whether one of its runs was killed decides between
the two standings of its files. -/
structure Inv (model : String) (killed : Bool) (s : Process) : Prop where
  sync : Sync model (s.inside = some model) s.guard
  files : if killed then Dead model s.guard else Clear model s.guard

section Step

variable {directory} {models : Set String} {model : String} {killed : Bool} {s : Process} {i : Step}

theorem inv_fresh (model : String) : Inv model false fresh where
  sync := by simp [Sync, fresh]
  files := by simp [Clear, fresh, GuardState.files]

theorem Inv.clear (h : Inv model false s) : Clear model s.guard := h.files

theorem Inv.dead (h : Inv model true s) : Dead model s.guard := h.files

theorem Inv.not_inside (h : Inv model true s) : s.inside ≠ some model := fun hin =>
  h.dead.1 (h.sync.2.mpr hin)

theorem Inv.not_active (h : Inv model true s) : model ∉ s.guard.active := fun ha =>
  h.not_inside (h.sync.1.mp ha)

theorem inv_die {t : GuardState} (hkilled : killed = true → Dead model t)
    (hclear : killed = false → Clear model t) :
    Inv model (killed || decide (running model ∈ t.mine)) ⟨t.die, none⟩ := by
  refine ⟨by simp [Sync, GuardState.die], ?_⟩
  cases killed with
  | true =>
    have hdead := hkilled rfl
    exact ⟨Finset.notMem_empty _, hdead.2⟩
  | false =>
    by_cases hmine : running model ∈ t.mine
    · -- the marker outlives the process
      have hrunning : running model ∈ t.files := (hclear rfl).2.mpr hmine
      have hdead : Dead model t.die := ⟨Finset.notMem_empty _, .inl hrunning⟩
      simpa [hmine] using hdead
    · simpa [hmine] using (hclear rfl).die hmine

/-- The programs of a step keep the standing of the model's files, wherever they are killed, and
leave the process knowing where it is. -/
def Keeps (model : String) (killed : Bool) (inside : Except PyExc Unit → Prop)
    (p : GuardCoro Unit) (s : GuardState) : Prop :=
  Covers guardWorld (fun _ t => if killed then Dead model t else Clear model t)
    (fun r t => (if killed then Dead model t else Clear model t) ∧ Sync model (inside r) t) p s

theorem keeps_of_same {p : GuardCoro Unit} {inside : Prop} (hinv : Inv model killed s)
    (hp : Covers guardWorld (fun _ => Same model s.guard) (fun _ => Same model s.guard) p s.guard)
    (hinside : s.inside = some model ↔ inside) :
    Keeps model killed (fun _ => inside) p s.guard := by
  have hfiles : ∀ t, Same model s.guard t → if killed then Dead model t else Clear model t := by
    intro t ht
    rw [ht.clear, ht.dead]
    exact hinv.files
  refine hp.mono (fun _ => hfiles) fun r t ht => ⟨hfiles t ht, ?_⟩
  rw [ht.sync, ← hinside]
  exact hinv.sync

theorem keeps_check (hinj : models.InjOn sanitise) (hmodel : model ∈ models)
    (hinv : Inv model killed s) {other : String} (hother : other ∈ models) :
    Keeps model killed (fun _ => s.inside = some model) (check directory other) s.guard := by
  by_cases hne : model = other
  · subst hne
    cases killed with
    | true =>
      refine (check_dead directory hinv.dead hinv.not_active).mono (fun _ _ h => h) ?_
      rintro r t ⟨-, hdead, hactive⟩
      have hout : ¬ s.inside = some model := hinv.not_inside
      exact ⟨hdead, iff_of_false hactive hout, iff_of_false hdead.1 hout⟩
    | false =>
      refine (check_clear directory hinv.clear hinv.sync).mono ?_ ?_
      · rintro _ t rfl
        exact hinv.clear
      · rintro r t ⟨-, rfl⟩
        exact ⟨hinv.clear, hinv.sync⟩
  · have hr : running model ≠ running other := (running_injOn hinj).ne hmodel hother hne
    have hb : blocked model ≠ blocked other := (blocked_injOn hinj).ne hmodel hother hne
    exact keeps_of_same hinv (check_other directory hr hb) Iff.rfl

variable (directory) in
theorem keeps_enter (hinj : models.InjOn sanitise) (hmodel : model ∈ models)
    (hinv : Inv model killed s) (hout : s.inside = none) {other : String}
    (hother : other ∈ models) :
    Keeps model killed (fun r => r = .ok () ∧ other = model) (enter directory other) s.guard := by
  have hmodelOut : ¬ s.inside = some model := by simp [hout]
  by_cases hne : model = other
  · subst hne
    cases killed with
    | true =>
      refine (enter_dead directory hinv.dead hinv.not_active).mono (fun _ _ h => h) ?_
      rintro r t ⟨rfl, hdead, hactive⟩
      exact ⟨hdead, by simpa [Sync] using ⟨hactive, hdead.1⟩⟩
    | false =>
      have hsync : Sync model False s.guard := by simpa [hout] using hinv.sync
      refine (enter_clear directory hinv.clear hsync).mono (fun _ _ h => h) ?_
      rintro r t ⟨rfl, hclear, hsync⟩
      exact ⟨hclear, by simpa using hsync⟩
  · have hr : running model ≠ running other := (running_injOn hinj).ne hmodel hother hne
    have hb : blocked model ≠ blocked other := (blocked_injOn hinj).ne hmodel hother hne
    have hsame := keeps_of_same hinv (enter_other directory hr hb hne)
      (iff_of_false hmodelOut not_false)
    have hfalse : ∀ r : Except PyExc Unit, (r = .ok () ∧ other = model) ↔ False :=
      fun r => iff_of_false (fun h => hne h.2.symm) not_false
    exact hsame.mono (fun _ _ h => h) fun r t h => ⟨h.1, by simpa only [hfalse] using h.2⟩

theorem keeps_leave (hinj : models.InjOn sanitise) (hmodel : model ∈ models)
    (hinv : Inv model killed s) {other : String} (hother : other ∈ models)
    (hin : s.inside = some other) :
    Keeps model killed (fun _ => False) (leave other) s.guard := by
  by_cases hne : model = other
  · subst hne
    cases killed with
    | true => exact absurd hin hinv.not_inside
    | false => exact (leave_clear hinv.clear).mono (fun _ _ h => h) fun _ _ h => h.2
  · have hr : running model ≠ running other := (running_injOn hinj).ne hmodel hother hne
    have hout : ¬ s.inside = some model := by
      rw [hin]
      exact fun h => hne (Option.some.inj h).symm
    exact keeps_of_same hinv (leave_other hr hne) (iff_of_false hout not_false)

variable (directory) in
theorem keeps_program (hinj : models.InjOn sanitise) (hmodel : model ∈ models)
    (hinv : Inv model killed s) (hinside : ∀ other ∈ s.inside, other ∈ models)
    (hi : ∀ other ∈ i.model, other ∈ models) :
    ∃ inside, Keeps model killed inside (s.program directory i) s.guard ∧
      (i.stop = none → (inside (run guardWorld (s.program directory i) s.guard).1 ↔
        s.insideAfter directory i = some model)) := by
  -- a step that awaits nothing leaves everything as it is
  have hskip : Keeps model killed (fun _ => s.inside = some model) (ret ()) s.guard :=
    ⟨hinv.files, hinv.sync⟩
  cases i with
  | check other stop =>
    have hother : other ∈ models := hi other rfl
    exact ⟨_, keeps_check hinj hmodel hinv hother, fun _ => Iff.rfl⟩
  | enter other stop =>
    have hother : other ∈ models := hi other rfl
    by_cases hout : s.inside = none
    · have hkeeps := keeps_enter directory hinj hmodel hinv hout hother
      refine ⟨_, by simpa only [Process.program, if_pos hout] using hkeeps, fun _ => ?_⟩
      simp only [Process.program, Process.insideAfter, if_pos hout]
      rcases (run guardWorld (enter directory other) s.guard).1 with e | u
      · simp
      · simp
    · refine ⟨_, by simpa only [Process.program, if_neg hout] using hskip, fun _ => ?_⟩
      simp only [Process.insideAfter, if_neg hout]
  | leave stop =>
    cases hin : s.inside with
    | none =>
      refine ⟨_, by simpa only [Process.program, hin] using hskip, fun _ => ?_⟩
      simp [Process.insideAfter]
    | some other =>
      have hkeeps := keeps_leave hinj hmodel hinv (hinside other hin) hin
      refine ⟨_, by simpa only [Process.program, hin] using hkeeps, fun _ => ?_⟩
      simp [Process.insideAfter]
  | restart => exact ⟨_, hskip, nofun⟩

variable (directory) in
theorem inv_step (hinj : models.InjOn sanitise) (hmodel : model ∈ models)
    (hinv : Inv model killed s) (hinside : ∀ other ∈ s.inside, other ∈ models)
    (hi : ∀ other ∈ i.model, other ∈ models) :
    Inv model (killed || s.killedIn directory model i) (step directory s i) := by
  obtain ⟨inside, hkeeps, hafter⟩ :=
    keeps_program directory hinj hmodel hinv hinside hi
  cases hstop : i.stop with
  | none =>
    have hend := hkeeps.run
    have hleft : s.left directory i = (run guardWorld (s.program directory i) s.guard).2 := by
      simp [Process.left, leaves, hstop]
    rw [← hleft] at hend
    have hsync : Sync model (s.insideAfter directory i = some model) (s.left directory i) := by
      simpa only [hafter hstop] using hend.2
    have hinv' : Inv model killed ⟨s.left directory i, s.insideAfter directory i⟩ := ⟨hsync, hend.1⟩
    simpa [Process.killedIn, step, hstop] using hinv'
  | some n =>
    have hleft : if killed then Dead model (s.left directory i)
        else Clear model (s.left directory i) :=
      (hkeeps.mono (fun _ _ h => h) fun _ _ h => h.1).leaves i.stop
    have hdead : killed = true → Dead model (s.left directory i) :=
      fun hk => by simpa [hk] using hleft
    have hclear : killed = false → Clear model (s.left directory i) :=
      fun hk => by simpa [hk] using hleft
    have hdie := inv_die hdead hclear
    simpa [Process.killedIn, step, hstop] using hdie

theorem inside_step (hinside : ∀ other ∈ s.inside, other ∈ models)
    (hi : ∀ other ∈ i.model, other ∈ models) :
    ∀ other ∈ (step directory s i).inside, other ∈ models := by
  intro other hother
  unfold step at hother
  cases hstop : i.stop with
  | some n => simp [hstop] at hother
  | none =>
    simp only [hstop] at hother
    cases i with
    | check m stop => exact hinside other hother
    | enter m stop =>
      simp only [Process.insideAfter] at hother
      split at hother
      · split at hother
        · obtain rfl := Option.some.inj hother
          exact hi m rfl
        · cases hother
      · exact hinside other hother
    | leave stop => cases hother
    | restart => cases hother

variable (directory) in
/-- A `run` that is entered outside of every other gets to its body or raises. -/
theorem inside_enter (hout : s.inside = none) (other : String) :
    ((∃ u, (run guardWorld (enter directory other) s.guard).1 = .ok u) ∧
        (step directory s (.enter other none)).inside = some other) ∨
      ((∃ e, (run guardWorld (enter directory other) s.guard).1 = .error e) ∧
        (step directory s (.enter other none)).inside = none) := by
  simp only [step, Step.stop, Process.insideAfter, hout, if_true]
  rcases (run guardWorld (enter directory other) s.guard).1 with e | u
  · exact .inr ⟨⟨e, rfl⟩, rfl⟩
  · exact .inl ⟨⟨u, rfl⟩, rfl⟩

/-- A model with a killed run is never entered again, so no second run of it can be killed. -/
theorem Inv.not_killedIn (hinj : models.InjOn sanitise) (hmodel : model ∈ models)
    (hinv : Inv model true s) (hinside : ∀ other ∈ s.inside, other ∈ models)
    (hi : ∀ other ∈ i.model, other ∈ models) : s.killedIn directory model i = false := by
  obtain ⟨inside, hkeeps, -⟩ := keeps_program directory hinj hmodel hinv hinside hi
  have hleft : Dead model (s.left directory i) :=
    (hkeeps.mono (fun _ _ h => h) fun _ _ h => h.1).leaves i.stop
  simp [Process.killedIn, hleft.1]

end Step

section Histories

variable {models : Set String} {model : String}

theorem inv_history (hinj : models.InjOn sanitise) (hmodel : model ∈ models) {history : List Step}
    (hmodels : ∀ i ∈ history, ∀ other ∈ i.model, other ∈ models) {killed : Bool} {s : Process}
    (hinv : Inv model killed s) (hinside : ∀ other ∈ s.inside, other ∈ models) :
    Inv model (killed || decide (0 < kills directory model s history))
        (history.foldl (step directory) s) ∧
      killed.toNat + kills directory model s history ≤ 1 := by
  induction history generalizing killed s with
  | nil => simpa [kills, Bool.toNat_le] using hinv
  | cons i history ih =>
    have hi := hmodels i List.mem_cons_self
    have hrest := ih (fun j hj => hmodels j (List.mem_cons_of_mem i hj))
      (inv_step directory hinj hmodel hinv hinside hi)
      (inside_step hinside hi)
    have hone : killed = true → s.killedIn directory model i = false := by
      rintro rfl
      exact hinv.not_killedIn hinj hmodel hinside hi
    simp only [List.foldl_cons, kills]
    cases killed with
    | true => simpa [hone rfl] using hrest
    | false =>
      by_cases hnow : s.killedIn directory model i
      · have hpos : 0 < 1 + kills directory model (step directory s i) history := by omega
        simpa [hnow, hpos] using hrest
      · simpa [hnow] using hrest

/-- One killed run blocks its model, and nothing else does. -/
theorem killed_run_blocks (hinj : models.InjOn sanitise) (history : List Step)
    (hmodels : ∀ i ∈ history, ∀ other ∈ i.model, other ∈ models) (hmodel : model ∈ models) :
    (0 < kills directory model fresh history →
      (history.foldl (step directory) fresh).inside ≠ some model ∧
      (run guardWorld (enter directory model) (history.foldl (step directory) fresh).guard).1 =
        .error (unavailable directory model)) ∧
    (kills directory model fresh history = 0 →
      (run guardWorld (check directory model) (history.foldl (step directory) fresh).guard).1 =
        .ok () ∧
      ((history.foldl (step directory) fresh).inside ≠ some model →
        (run guardWorld (enter directory model) (history.foldl (step directory) fresh).guard).1 =
          .ok ())) ∧
    kills directory model fresh history ≤ 1 := by
  obtain ⟨hinv, hone⟩ := inv_history directory hinj hmodel hmodels (inv_fresh model)
    (by simp [fresh])
  simp only [Bool.false_or, Bool.toNat_false, Nat.zero_add] at hinv hone
  refine ⟨fun hkilled => ?_, fun hnone => ?_, hone⟩
  · simp only [hkilled, decide_true] at hinv
    exact ⟨hinv.not_inside, (enter_dead directory hinv.dead hinv.not_active).run.1⟩
  · simp only [hnone, Nat.lt_irrefl, decide_false] at hinv
    refine ⟨(check_clear directory hinv.clear hinv.sync).run.1, fun hout => ?_⟩
    have hsync : Sync model False (history.foldl (step directory) fresh).guard := by
      simpa [hout] using hinv.sync
    exact (enter_clear directory hinv.clear hsync).run.1

/-- The model names of `EMBED_CONFIGS`. -/
def embedModels : Set String := {model | model ∈ embedConfigs.values.map EmbedConfig.primary}

theorem sanitise_injOn_embedModels : embedModels.InjOn sanitise := by
  have hinj : ∀ model ∈ embedConfigs.values.map EmbedConfig.primary,
      ∀ other ∈ embedConfigs.values.map EmbedConfig.primary,
        sanitise model = sanitise other → model = other := by
    decide
  exact fun model hmodel other hother => hinj model hmodel other hother

/-- A process is killed in the body of a run, and another model goes on. -/
theorem killed_run_blocks_qwen :
    (run guardWorld (enter "/tmp/rag-local-guard" "Qwen/Qwen3-Embedding-4B")
      ([.enter "Qwen/Qwen3-Embedding-4B" none, .restart, .enter "BAAI/bge-base-en-v1.5" none,
        .leave none].foldl (step "/tmp/rag-local-guard") fresh).guard).1 =
      .error (unavailable "/tmp/rag-local-guard" "Qwen/Qwen3-Embedding-4B") := by
  have hmem : ∀ model ∈ ["Qwen/Qwen3-Embedding-4B", "BAAI/bge-base-en-v1.5"],
      model ∈ embedConfigs.values.map EmbedConfig.primary := by decide
  have hqwen : "Qwen/Qwen3-Embedding-4B" ∈ embedModels := hmem _ (by simp)
  refine ((killed_run_blocks "/tmp/rag-local-guard" sanitise_injOn_embedModels _ ?_ hqwen).1
    (by decide)).2
  · intro i hi other hother
    simp only [List.mem_cons, List.not_mem_nil, or_false] at hi
    apply hmem
    rcases hi with rfl | rfl | rfl | rfl <;> simp_all [Step.model]

end Histories

end LocalRunGuard
end RagPipeline
