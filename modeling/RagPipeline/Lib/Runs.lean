import Mathlib.Logic.Basic

/-! Runs of a transition system, as the list of the steps taken. -/

namespace Runs

variable {σ ι : Type}

/-- Every step of the run is one of `P`: with the transition relation for `P`, a run at all. -/
def Each (P : σ → ι → σ → Prop) : σ → List (ι × σ) → Prop
  | _, [] => True
  | s, (i, t) :: rest => P s i t ∧ Each P t rest

/-- The state a run ends in. -/
def last : σ → List (ι × σ) → σ
  | s, [] => s
  | _, (_, t) :: rest => last t rest

/-- The run of a step function on a list of inputs. -/
def trace (step : σ → ι → σ) : σ → List ι → List (ι × σ)
  | _, [] => []
  | s, i :: is => (i, step s i) :: trace step (step s i) is

/-- The second state is reached from the first in steps that are allowed. -/
def Leads (P : σ → ι → σ → Prop) (A : ι → Prop) (s t : σ) : Prop :=
  ∃ r, Each P s r ∧ (∀ p ∈ r, A p.1) ∧ last s r = t

variable {P Q : σ → ι → σ → Prop} {s : σ}

theorem Each.append {r r' : List (ι × σ)} :
    Each P s (r ++ r') ↔ Each P s r ∧ Each P (last s r) r' := by
  induction r generalizing s with
  | nil => simp [Each, last]
  | cons it r ih => simp [Each, last, ih, and_assoc]

theorem last_trace (f : σ → ι → σ) (is : List ι) : last s (trace f s is) = is.foldl f s := by
  induction is generalizing s with
  | nil => rfl
  | cons i is ih => exact ih

theorem trace_append (f : σ → ι → σ) (is js : List ι) :
    trace f s (is ++ js) = trace f s is ++ trace f (is.foldl f s) js := by
  induction is generalizing s with
  | nil => rfl
  | cons i is ih => exact congrArg (List.cons _) ih

/-- The states of a deterministic run are the results of the beginnings of its input. -/
theorem each_trace_iff {f : σ → ι → σ} {T : σ → Prop} {is : List ι} :
    T s ∧ Each (fun _ _ t => T t) s (trace f s is) ↔
      (∀ j < is.length, T ((is.take j).foldl f s)) ∧ T (is.foldl f s) := by
  induction is generalizing s with
  | nil => simp [trace, Each]
  | cons i is ih =>
    show T s ∧ T (f s i) ∧ Each _ (f s i) (trace f (f s i) is) ↔ _
    rw [ih, ← and_assoc]
    refine and_congr_left' ?_
    rw [List.length_cons, Nat.forall_lt_succ_left]
    exact Iff.rfl

theorem forall_prefix_iff {f : σ → ι → σ} {T : σ → Prop} {is : List ι} :
    (∀ pre, pre <+: is → T (pre.foldl f s)) ↔
      T s ∧ Each (fun _ _ t => T t) s (trace f s is) := by
  induction is generalizing s with
  | nil => simp [trace, Each]
  | cons i is ih =>
    show _ ↔ T s ∧ T (f s i) ∧ Each _ (f s i) (trace f (f s i) is)
    rw [← ih]
    simp only [List.prefix_cons_iff]
    constructor
    · exact fun h => ⟨h [] (.inl rfl), fun pre hp => h (i :: pre) (.inr ⟨pre, rfl, hp⟩)⟩
    · rintro ⟨hs, hrest⟩ pre (rfl | ⟨pre, rfl, hp⟩)
      · exact hs
      · exact hrest pre hp

/-- The steps of a deterministic run, each after the inputs before it. -/
theorem each_trace_prefix {f : σ → ι → σ} {is : List ι} :
    Each P s (trace f s is) ↔
      ∀ pre i, pre ++ [i] <+: is → P (pre.foldl f s) i (f (pre.foldl f s) i) := by
  induction is generalizing s with
  | nil => simp [trace, Each]
  | cons j is ih =>
    show P s j (f s j) ∧ Each P (f s j) (trace f (f s j) is) ↔ _
    rw [ih]
    constructor
    · rintro ⟨hj, hrest⟩ pre i hp
      cases pre with
      | nil =>
        obtain ⟨rfl, -⟩ := List.cons_prefix_cons.mp hp
        exact hj
      | cons k pre =>
        obtain ⟨rfl, hrestp⟩ := List.cons_prefix_cons.mp hp
        exact hrest pre i hrestp
    · intro h
      refine ⟨h [] j (List.cons_prefix_cons.mpr ⟨rfl, List.nil_prefix⟩), fun pre i hp => ?_⟩
      exact h (j :: pre) i (List.cons_prefix_cons.mpr ⟨rfl, hp⟩)

/-- The end of a deterministic run keeps what each of its steps keeps. -/
theorem Each.invariant_foldl {Inv : σ → Prop} {f : σ → ι → σ}
    (hI : ∀ s i, Inv s → P s i (f s i) → Inv (f s i)) {is : List ι} (hr : Each P s (trace f s is))
    (hs : Inv s) : Inv (is.foldl f s) := by
  induction is generalizing s with
  | nil => exact hs
  | cons i is ih => exact ih hr.2 (hI s i hs hr.1)

/-- When a condition on the steps is exactly what each step needs, and meeting it keeps the
invariant that this equivalence rests on, it is exactly what the whole run needs. -/
theorem each_trace_congr {Inv : σ → Prop} {f : σ → ι → σ}
    (hP : ∀ s i, Inv s → (P s i (f s i) ↔ Q s i (f s i)))
    (hI : ∀ s i, Inv s → Q s i (f s i) → Inv (f s i)) (hs : Inv s) (is : List ι) :
    Each P s (trace f s is) ↔ Each Q s (trace f s is) := by
  induction is generalizing s with
  | nil => exact Iff.rfl
  | cons i is ih =>
    -- the rest of the run only matters once the first step met the condition
    have htail : Q s i (f s i) →
        (Each P (f s i) (trace f (f s i) is) ↔ Each Q (f s i) (trace f (f s i) is)) :=
      fun hq => ih (hI s i hs hq)
    show P s i (f s i) ∧ _ ↔ Q s i (f s i) ∧ _
    rw [hP s i hs]
    exact and_congr_right htail

variable {A : ι → Prop} {t u : σ}

theorem last_append {r r' : List (ι × σ)} : last s (r ++ r') = last (last s r) r' := by
  induction r generalizing s with
  | nil => rfl
  | cons it r ih => exact ih

theorem Leads.refl (P : σ → ι → σ → Prop) (A : ι → Prop) (s : σ) : Leads P A s s :=
  ⟨[], trivial, by simp, rfl⟩

theorem Leads.single {i : ι} (h : P s i t) (hA : A i) : Leads P A s t :=
  ⟨[(i, t)], ⟨h, trivial⟩, by simpa using hA, rfl⟩

theorem Leads.trans (h : Leads P A s t) (h' : Leads P A t u) : Leads P A s u := by
  obtain ⟨r, hr, hA, rfl⟩ := h
  obtain ⟨r', hr', hA', rfl⟩ := h'
  refine ⟨r ++ r', Each.append.mpr ⟨hr, hr'⟩, fun p hp => ?_, last_append⟩
  rw [List.mem_append] at hp
  exact hp.elim (hA p) (hA' p)

theorem Leads.head {i : ι} (h : P s i t) (hA : A i) (h' : Leads P A t u) : Leads P A s u :=
  (Leads.single h hA).trans h'

end Runs
