import Mathlib.Data.List.Induction
import Mathlib.Logic.Function.Basic
import RagPipeline.Lib.Coroutine

/-! Programs that take turns on one world, one await at a time. -/

namespace Interleave
open Coro

variable {ι Op : Type} {Ans : Op → Type} {ε α σ : Type}

/-- The programs as they stand, what each has awaited so far with the world that it found, and the
world now. -/
structure Pool (ι Op : Type) (Ans : Op → Type) (ε α σ : Type) where
  progs : ι → Coro Op Ans ε α
  past : ι → List (Op × σ)
  world : σ

/-- The operation a program is at; a finished one is at none. -/
def awaited (p : Coro Op Ans ε α) (s : σ) : List (Op × σ) :=
  match p with
  | await op _ => [(op, s)]
  | _ => []

theorem awaited_attempt_call_bind (op : Op) (f : Ans op → Coro Op Ans ε α)
    (h : ε → Coro Op Ans ε α) (s : σ) : awaited ((call op >>= f).attempt h) s = [(op, s)] := by
  rw [attempt_call_bind]
  rfl

def start (progs : ι → Coro Op Ans ε α) (s : σ) : Pool ι Op Ans ε α σ := ⟨progs, fun _ => [], s⟩

variable [DecidableEq ι] (w : World Op Ans ε σ)

def step (P : Pool ι Op Ans ε α σ) (i : ι) : Pool ι Op Ans ε α σ where
  progs := Function.update P.progs i (next w (P.progs i, P.world)).1
  past := Function.update P.past i (P.past i ++ awaited (P.progs i) P.world)
  world := (next w (P.progs i, P.world)).2

def run (P : Pool ι Op Ans ε α σ) (schedule : List ι) : Pool ι Op Ans ε α σ :=
  schedule.foldl (step w) P

def AllReturned (P : Pool ι Op Ans ε α σ) : Prop := ∀ i, ∃ a, P.progs i = ret a

/-- What a program has returned. -/
def result : Coro Op Ans ε α → Option α
  | ret a => some a
  | _ => none

theorem eq_ret_of_result {p : Coro Op Ans ε α} {a : α} (h : result p = some a) : p = ret a := by
  cases p with
  | ret b => rw [Option.some.inj h]
  | raise e => cases h
  | await op k => cases h

/-- An assertion about each program, its past and the world that the program's own steps keep, and
that the steps of the others leave alone since all steps move the world only as `R` allows. -/
structure Protocol (A : ι → Coro Op Ans ε α → List (Op × σ) → σ → Prop) (R : σ → σ → Prop) :
    Prop where
  step : ∀ {i p past s}, A i p past s →
    A i (next w (p, s)).1 (past ++ awaited p s) (next w (p, s)).2
  moves : ∀ {i p past s}, A i p past s → R s (next w (p, s)).2
  stable : ∀ {i p past s t}, A i p past s → R s t → A i p past t

variable {w} {A : ι → Coro Op Ans ε α → List (Op × σ) → σ → Prop} {R : σ → σ → Prop}
  {P : Pool ι Op Ans ε α σ}

/-- The assertions about all programs of a pool. -/
def Holds (A : ι → Coro Op Ans ε α → List (Op × σ) → σ → Prop) (P : Pool ι Op Ans ε α σ) : Prop :=
  ∀ i, A i (P.progs i) (P.past i) P.world

theorem run_append (schedule rest : List ι) :
    run w P (schedule ++ rest) = run w (run w P schedule) rest := List.foldl_append

theorem run_concat (schedule : List ι) (i : ι) :
    run w P (schedule ++ [i]) = step w (run w P schedule) i := run_append schedule [i]

theorem Protocol.holds_step (h : Protocol w A R) (hP : Holds A P) (i : ι) :
    Holds A (Interleave.step w P i) := by
  intro j
  by_cases hj : j = i
  · subst hj
    simpa only [Interleave.step, Function.update_self] using h.step (hP j)
  · simp only [Interleave.step, Function.update_of_ne hj]
    -- another program's step only moves the world
    exact h.stable (hP j) (h.moves (hP i))

theorem Protocol.holds_run (h : Protocol w A R) (hP : Holds A P) (schedule : List ι) :
    Holds A (run w P schedule) := by
  induction schedule generalizing P with
  | nil => exact hP
  | cons i schedule ih => exact ih (h.holds_step hP i)

theorem Protocol.moves_run (h : Protocol w A R) (hrefl : ∀ s, R s s)
    (htrans : ∀ {s t u}, R s t → R t u → R s u) (hP : Holds A P) (schedule : List ι) :
    R P.world (run w P schedule).world := by
  induction schedule generalizing P with
  | nil => exact hrefl _
  | cons i schedule ih => exact htrans (h.moves (hP i)) (ih (h.holds_step hP i))

section Noting

variable {ν : Type} {ω : (op : Op) → Except ε (Ans op)} {note : Op → Option ν}

/-- A world that answers from the operation alone lets each program go on as if it ran by itself,
and has a note of all that the program did. -/
theorem run_noting (progs : ι → Coro Op Ans ε α) (s : List ν) (schedule : List ι) (i : ι) :
    (run (noting ω note) (start progs s) schedule).progs i =
        (cut (noting ω note) (schedule.count i) (progs i) []).1 ∧
      (cut (noting ω note) (schedule.count i) (progs i) []).2 ⊆
        (run (noting ω note) (start progs s) schedule).world := by
  induction schedule using List.reverseRecOn with
  | nil => exact ⟨rfl, List.nil_subset _⟩
  | append_singleton schedule j ih =>
    obtain ⟨hprog, hnotes⟩ := ih
    rw [run_concat]
    generalize run (noting ω note) (start progs s) schedule = P at hprog hnotes
    by_cases hj : j = i
    · subst hj
      rw [List.count_append, List.count_singleton_self, cut_succ]
      generalize cut (noting ω note) (schedule.count j) (progs j) [] = c at hprog hnotes
      obtain ⟨p, t⟩ := c
      obtain rfl : P.progs j = p := hprog
      simp only [step, Function.update_self]
      cases hp : P.progs j with
      | ret a => exact ⟨rfl, hnotes⟩
      | raise e => exact ⟨rfl, hnotes⟩
      | await op k =>
        refine ⟨rfl, ?_⟩
        show (noting ω note op t).2 ⊆ (noting ω note op P.world).2
        rw [noting_eq op t, noting_eq op P.world]
        exact List.append_subset.mpr ⟨fun x hx => List.mem_append_left _ (hnotes hx),
          List.subset_append_right _ _⟩
    · have hcount : (schedule ++ [j]).count i = schedule.count i := by
        rw [List.count_append, List.count_singleton, if_neg (by simpa using hj), Nat.add_zero]
      rw [hcount]
      refine ⟨?_, fun x hx => ?_⟩
      · simp only [step, Function.update_of_ne (Ne.symm hj)]
        exact hprog
      · -- the other program only adds notes
        have hworld : P.world ⊆ (step (noting ω note) P j).world := by
          show P.world ⊆ (next (noting ω note) (P.progs j, P.world)).2
          cases P.progs j with
          | ret a => exact List.Subset.refl _
          | raise e => exact List.Subset.refl _
          | await op k =>
            show P.world ⊆ (noting ω note op P.world).2
            rw [noting_eq op P.world]
            exact List.subset_append_left _ _
        exact hworld (hnotes hx)

end Noting

end Interleave
