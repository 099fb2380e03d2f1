import Mathlib.Logic.Function.Iterate

/-- A program with awaits: it returns, raises, or awaits an operation of the outside world and
goes on from what that operation returned or raised. -/
inductive Coro (Op : Type) (Ans : Op → Type) (ε α : Type) where
  | ret (a : α)
  | raise (e : ε)
  | await (op : Op) (k : Except ε (Ans op) → Coro Op Ans ε α)

namespace Coro

variable {Op : Type} {Ans : Op → Type} {ε α β σ : Type}

def bind : Coro Op Ans ε α → (α → Coro Op Ans ε β) → Coro Op Ans ε β
  | ret a, f => f a
  | raise e, _ => raise e
  | await op k, f => await op fun r => (k r).bind f

/-- `try: p` with one `except` clause that sees every exception. -/
def attempt : Coro Op Ans ε α → (ε → Coro Op Ans ε α) → Coro Op Ans ε α
  | ret a, _ => ret a
  | raise e, h => h e
  | await op k, h => await op fun r => (k r).attempt h

/-- The bare await: its exception leaves the program. -/
def call (op : Op) : Coro Op Ans ε (Ans op) :=
  await op fun
    | .ok a => ret a
    | .error e => raise e

def ofExcept : Except ε α → Coro Op Ans ε α
  | .ok a => ret a
  | .error e => raise e

instance : Monad (Coro Op Ans ε) where
  pure := ret
  bind := bind

/-- `try: x = p` whose `except` clauses return early: the code after it branches on the result. -/
def capture (p : Coro Op Ans ε α) : Coro Op Ans ε (Except ε α) :=
  (p >>= fun a => ret (.ok a)).attempt fun e => ret (.error e)

/-- The same program over the operations of a larger world. -/
def embed {Op' : Type} {Ans' : Op' → Type} (f : Op → Op') :
    Coro Op (fun op => Ans' (f op)) ε α → Coro Op' Ans' ε α
  | ret a => ret a
  | raise e => raise e
  | await op k => await (f op) fun r => embed f (k r)

/-- How the outside world answers an operation: with a value or an exception, and a new state. -/
abbrev World (Op : Type) (Ans : Op → Type) (ε σ : Type) :=
  (op : Op) → σ → Except ε (Ans op) × σ

/-- A program together with the state of the world it runs in. -/
abbrev Config (Op : Type) (Ans : Op → Type) (ε α σ : Type) := Coro Op Ans ε α × σ

def run (w : World Op Ans ε σ) : Coro Op Ans ε α → σ → Except ε α × σ
  | ret a, s => (.ok a, s)
  | raise e, s => (.error e, s)
  | await op k, s => run w (k (w op s).1) (w op s).2

/-- One await; a finished program stays where it is. -/
def next (w : World Op Ans ε σ) : Config Op Ans ε α σ → Config Op Ans ε α σ
  | (await op k, s) => (k (w op s).1, (w op s).2)
  | c => c

/-- The program as it stands after `n` awaits: what a process killed there leaves behind. -/
def cut (w : World Op Ans ε σ) (n : ℕ) (p : Coro Op Ans ε α) (s : σ) : Config Op Ans ε α σ :=
  (next w)^[n] (p, s)

/-- How many awaits a program runs through. -/
def awaits (w : World Op Ans ε σ) : Coro Op Ans ε α → σ → ℕ
  | ret _, _ => 0
  | raise _, _ => 0
  | await op k, s => awaits w (k (w op s).1) (w op s).2 + 1

/-- Every await of the program moves the world as `R` allows. -/
def Moves (w : World Op Ans ε σ) (R : σ → σ → Prop) : Coro Op Ans ε α → σ → Prop
  | ret _, _ => True
  | raise _, _ => True
  | await op k, s => R s (w op s).2 ∧ Moves w R (k (w op s).1) (w op s).2

def answers (w : World Op Ans ε σ) (s : σ) (op : Op) : Except ε (Ans op) := (w op s).1

/-- The world whose answers depend on the operation alone. -/
def steady (ω : (op : Op) → Except ε (Ans op)) : World Op Ans ε Unit := fun op _ => (ω op, ())

/-- The steady world that keeps a note of what was awaited without an exception. -/
def noting {ν : Type} (ω : (op : Op) → Except ε (Ans op)) (note : Op → Option ν) :
    World Op Ans ε (List ν) := fun op s =>
  (ω op, match ω op with
    | .ok _ => s ++ (note op).toList
    | .error _ => s)

/-- The result of a program in a steady world. -/
def eval (ω : (op : Op) → Except ε (Ans op)) (p : Coro Op Ans ε α) : Except ε α :=
  (run (steady ω) p ()).1

variable (w : World Op Ans ε σ) (ω : (op : Op) → Except ε (Ans op))

@[simp] theorem ok_bind (a : α) (f : α → Except ε β) : Except.ok a >>= f = f a := rfl

@[simp] theorem error_bind (e : ε) (f : α → Except ε β) : Except.error e >>= f = .error e := rfl

theorem exists_of_bind_eq_ok {x : Except ε α} {f : α → Except ε β} {b : β}
    (h : x >>= f = .ok b) : ∃ a, x = .ok a ∧ f a = .ok b := by
  cases x with
  | error e => cases h
  | ok a => exact ⟨a, rfl, h⟩

@[simp] theorem isOk_ok (a : α) : (Except.ok a : Except ε α).isOk = true := rfl

@[simp] theorem isOk_error (e : ε) : (Except.error e : Except ε α).isOk = false := rfl

@[simp] theorem pure_eq (a : α) : (pure a : Coro Op Ans ε α) = ret a := rfl

@[simp] theorem ret_bind (a : α) (f : α → Coro Op Ans ε β) : ret a >>= f = f a := rfl

@[simp] theorem raise_bind (e : ε) (f : α → Coro Op Ans ε β) : raise e >>= f = raise e := rfl

@[simp] theorem ofExcept_ok (a : α) :
    (ofExcept (.ok a) : Coro Op Ans ε α) = ret a := rfl

@[simp] theorem ofExcept_error (e : ε) :
    (ofExcept (.error e) : Coro Op Ans ε α) = raise e := rfl

@[simp] theorem await_bind (op : Op) (k : Except ε (Ans op) → Coro Op Ans ε α)
    (f : α → Coro Op Ans ε β) : await op k >>= f = await op fun r => k r >>= f := rfl

theorem bind_assoc {γ : Type} (p : Coro Op Ans ε α) (f : α → Coro Op Ans ε β)
    (g : β → Coro Op Ans ε γ) : p >>= f >>= g = p >>= fun a => f a >>= g := by
  induction p with
  | ret a => rfl
  | raise e => rfl
  | await op k ih =>
    show (await op fun r => k r >>= f >>= g) = await op fun r => k r >>= fun a => f a >>= g
    congr 1
    funext r
    exact ih r

theorem attempt_call_bind (op : Op) (f : Ans op → Coro Op Ans ε α) (h : ε → Coro Op Ans ε α) :
    (call op >>= f).attempt h = await op fun
      | .ok a => (f a).attempt h
      | .error e => h e := by
  show (await op fun r => _) = _
  congr 1
  funext r
  cases r <;> rfl

theorem attempt_call_bind_ne_ret (op : Op) (f : Ans op → Coro Op Ans ε α)
    (h : ε → Coro Op Ans ε α) (a : α) : (call op >>= f).attempt h ≠ ret a := by
  rw [attempt_call_bind]
  exact nofun

@[simp] theorem run_ret (a : α) (s : σ) : run w (ret a : Coro Op Ans ε α) s = (.ok a, s) := rfl

@[simp] theorem run_raise (e : ε) (s : σ) :
    run w (raise e : Coro Op Ans ε α) s = (.error e, s) := rfl

@[simp] theorem run_call (op : Op) (s : σ) : run w (call op) s = w op s := by
  rcases h : w op s with ⟨r, t⟩
  cases r <;> simp [call, run, h]

/-- An await does not change what the program comes to. -/
theorem run_next (p : Coro Op Ans ε α) (s : σ) :
    run w (next w (p, s)).1 (next w (p, s)).2 = run w p s := by
  cases p <;> rfl

theorem next_call_bind (op : Op) (f : Ans op → Coro Op Ans ε α) (s : σ) :
    next w (call op >>= f, s) = match w op s with
      | (.ok a, t) => (f a, t)
      | (.error e, t) => (raise e, t) := by
  rcases hw : w op s with ⟨r, t⟩
  cases r <;> simp [call, next, hw]

/-- An await inside a `try` block. -/
theorem next_attempt_call_bind (op : Op) (f : Ans op → Coro Op Ans ε α) (h : ε → Coro Op Ans ε α)
    (s : σ) : next w ((call op >>= f).attempt h, s) = match w op s with
      | (.ok a, t) => ((f a).attempt h, t)
      | (.error e, t) => (h e, t) := by
  rcases hw : w op s with ⟨r, t⟩
  cases r <;> simp [call, next, hw, attempt]

/-- Sequencing: an exception of the first part is the exception of the whole. -/
theorem run_bind (p : Coro Op Ans ε α) (f : α → Coro Op Ans ε β) (s : σ) :
    run w (p >>= f) s = match run w p s with
      | (.ok a, s') => run w (f a) s'
      | (.error e, s') => (.error e, s') := by
  induction p generalizing s with
  | ret a => rfl
  | raise e => rfl
  | await op k ih => exact ih _ _

/-- A program that returns has got through its first part. -/
theorem run_bind_ok {p : Coro Op Ans ε α} {f : α → Coro Op Ans ε β} {s t : σ} {b : β}
    (h : run w (p >>= f) s = (.ok b, t)) :
    ∃ a s', run w p s = (.ok a, s') ∧ run w (f a) s' = (.ok b, t) := by
  rw [run_bind] at h
  rcases hp : run w p s with ⟨_ | a, s'⟩
  · rw [hp] at h
    cases h
  · rw [hp] at h
    exact ⟨a, s', rfl, h⟩

/-- A program whose first part returns goes on, and returns if the rest does. -/
theorem run_bind_returns {p : Coro Op Ans ε α} {f : α → Coro Op Ans ε β} {s : σ}
    (hp : ∃ a t, run w p s = (.ok a, t))
    (hf : ∀ a s', run w p s = (.ok a, s') → ∃ b t, run w (f a) s' = (.ok b, t)) :
    ∃ b t, run w (p >>= f) s = (.ok b, t) := by
  obtain ⟨a, s', hrun⟩ := hp
  obtain ⟨b, t, hrest⟩ := hf a s' hrun
  refine ⟨b, t, ?_⟩
  rw [run_bind, hrun]
  exact hrest

theorem run_call_returns {op : Op} {s : σ} (h : ∃ a t, w op s = (.ok a, t)) :
    ∃ a t, run w (call op) s = (.ok a, t) := by
  obtain ⟨a, t, h⟩ := h
  exact ⟨a, t, by rw [run_call, h]⟩

/-- The `except` clause runs in the state the exception left. -/
theorem run_attempt (p : Coro Op Ans ε α) (h : ε → Coro Op Ans ε α) (s : σ) :
    run w (p.attempt h) s = match run w p s with
      | (.ok a, s') => (.ok a, s')
      | (.error e, s') => run w (h e) s' := by
  induction p generalizing s with
  | ret a => rfl
  | raise e => rfl
  | await op k ih => exact ih _ _

theorem run_call_noting {ν : Type} {ω : (op : Op) → Except ε (Ans op)} {note : Op → Option ν}
    {op : Op} {s t : List ν} {a : Ans op} (h : run (noting ω note) (call op) s = (.ok a, t)) :
    ω op = .ok a ∧ t = s ++ (note op).toList := by
  rw [run_call, noting] at h
  obtain ⟨hanswer, hnotes⟩ := Prod.mk.inj h
  rw [hanswer] at hnotes
  exact ⟨hanswer, hnotes.symm⟩

@[simp] theorem answers_steady (ω : (op : Op) → Except ε (Ans op)) :
    answers (steady ω) () = ω := rfl

@[simp] theorem run_ofExcept (x : Except ε α) (s : σ) :
    run w (ofExcept x : Coro Op Ans ε α) s = (x, s) := by
  cases x <;> rfl

/-- What a captured program raised is the value the rest of the code branches on. -/
@[simp] theorem run_capture (p : Coro Op Ans ε α) (s : σ) :
    run w p.capture s = (.ok (run w p s).1, (run w p s).2) := by
  rw [capture, run_attempt, run_bind]
  rcases run w p s with ⟨r, t⟩
  cases r <;> rfl

@[simp] theorem eval_ret (a : α) : eval ω (ret a : Coro Op Ans ε α) = .ok a := rfl

@[simp] theorem eval_raise (e : ε) : eval ω (raise e : Coro Op Ans ε α) = .error e := rfl

@[simp] theorem eval_call (op : Op) : eval ω (call op) = ω op := by
  rw [eval, run_call]
  rfl

@[simp] theorem eval_ofExcept (x : Except ε α) :
    eval ω (ofExcept x : Coro Op Ans ε α) = x := by
  rw [eval, run_ofExcept]

@[simp] theorem eval_capture (p : Coro Op Ans ε α) : eval ω p.capture = .ok (eval ω p) := by
  rw [eval, run_capture]
  rfl

theorem eval_bind (p : Coro Op Ans ε α) (f : α → Coro Op Ans ε β) :
    eval ω (p >>= f) = match eval ω p with
      | .ok a => eval ω (f a)
      | .error e => .error e := by
  simp only [eval, run_bind]
  rcases run (steady ω) p () with ⟨r, u⟩
  cases r <;> rfl

theorem eval_attempt (p : Coro Op Ans ε α) (h : ε → Coro Op Ans ε α) :
    eval ω (p.attempt h) = match eval ω p with
      | .ok a => .ok a
      | .error e => eval ω (h e) := by
  simp only [eval, run_attempt]
  rcases run (steady ω) p () with ⟨r, u⟩
  cases r <;> rfl

theorem run_embed {Op' : Type} {Ans' : Op' → Type} (f : Op → Op') (w : World Op' Ans' ε σ)
    (p : Coro Op (fun op => Ans' (f op)) ε α) (s : σ) :
    run w (embed f p) s = run (fun op => w (f op)) p s := by
  induction p generalizing s with
  | ret a => rfl
  | raise e => rfl
  | await op k ih => exact ih _ _

section Noting

variable {ν : Type} {ω : (op : Op) → Except ε (Ans op)} {note : Op → Option ν}

theorem noting_eq (op : Op) (s : List ν) :
    noting ω note op s = (ω op, s ++ (noting ω note op []).2) := by
  unfold noting
  cases ω op <;> simp

theorem run_noting (p : Coro Op Ans ε α) (s : List ν) :
    run (noting ω note) p s =
      ((run (noting ω note) p []).1, s ++ (run (noting ω note) p []).2) := by
  induction p generalizing s with
  | ret a => simp
  | raise e => simp
  | await op k ih =>
    show run _ (k (noting ω note op s).1) _ = ((run _ (k (noting ω note op []).1) _).1,
      s ++ (run _ (k (noting ω note op []).1) _).2)
    rw [noting_eq op s, ih (ω op) (s ++ _), ih (noting ω note op []).1 (noting ω note op []).2,
      List.append_assoc]
    rfl

end Noting

/-- What every operation keeps, a program keeps. -/
theorem run_invariant {I : σ → Prop} (hI : ∀ op s, I s → I (w op s).2) (p : Coro Op Ans ε α)
    {s : σ} (hs : I s) : I (run w p s).2 := by
  induction p generalizing s with
  | ret a => exact hs
  | raise e => exact hs
  | await op k ih => exact ih _ (hI op s hs)

section Moves

variable {w} {R : σ → σ → Prop} {s : σ}

@[simp] theorem moves_ret (a : α) : Moves w R (ret a : Coro Op Ans ε α) s := trivial

@[simp] theorem moves_raise (e : ε) : Moves w R (raise e : Coro Op Ans ε α) s := trivial

@[simp] theorem moves_call (op : Op) : Moves w R (call op) s ↔ R s (w op s).2 := by
  rcases h : w op s with ⟨r, t⟩
  cases r <;> simp [call, Moves, h]

theorem moves_bind (p : Coro Op Ans ε α) (f : α → Coro Op Ans ε β) :
    Moves w R (p >>= f) s ↔ Moves w R p s ∧
      match run w p s with
      | (.ok a, t) => Moves w R (f a) t
      | (.error _, _) => True := by
  induction p generalizing s with
  | ret a => simp [Moves]
  | raise e => simp [Moves]
  | await op k ih =>
    show R s _ ∧ Moves w R (k _ >>= f) _ ↔ (R s _ ∧ Moves w R (k _) _) ∧ _
    rw [ih, and_assoc]
    rfl

theorem moves_attempt (p : Coro Op Ans ε α) (h : ε → Coro Op Ans ε α) :
    Moves w R (p.attempt h) s ↔ Moves w R p s ∧
      match run w p s with
      | (.ok _, _) => True
      | (.error e, t) => Moves w R (h e) t := by
  induction p generalizing s with
  | ret a => simp [attempt]
  | raise e => simp [attempt]
  | await op k ih =>
    show R s _ ∧ Moves w R ((k _).attempt h) _ ↔ (R s _ ∧ Moves w R (k _) _) ∧ _
    rw [ih, and_assoc]
    rfl

/-- A `try` block runs up to the first exception, and its `except` clause from there. -/
theorem moves_attempt_bind (p : Coro Op Ans ε β) (f : β → Coro Op Ans ε α)
    (h : ε → Coro Op Ans ε α) :
    Moves w R ((p >>= f).attempt h) s ↔ Moves w R p s ∧
      match run w p s with
      | (.ok a, t) => Moves w R ((f a).attempt h) t
      | (.error e, t) => Moves w R (h e) t := by
  induction p generalizing s with
  | ret a => simp
  | raise e => simp [attempt]
  | await op k ih =>
    show R s _ ∧ Moves w R ((k _ >>= f).attempt h) _ ↔ (R s _ ∧ Moves w R (k _) _) ∧ _
    rw [ih, and_assoc]
    rfl

/-- What the allowed moves keep holds at the end. -/
theorem Moves.invariant {I : σ → Prop} (hI : ∀ op s, I s → R s (w op s).2 → I (w op s).2)
    {p : Coro Op Ans ε α} (h : Moves w R p s) (hs : I s) : I (run w p s).2 := by
  induction p generalizing s with
  | ret a => exact hs
  | raise e => exact hs
  | await op k ih => exact ih _ h.2 (hI op s hs h.1)

end Moves

@[simp] theorem cut_zero (p : Coro Op Ans ε α) (s : σ) : cut w 0 p s = (p, s) := rfl

@[simp] theorem cut_ret (n : ℕ) (a : α) (s : σ) :
    cut w n (ret a : Coro Op Ans ε α) s = (ret a, s) :=
  Function.iterate_fixed rfl n

@[simp] theorem cut_raise (n : ℕ) (e : ε) (s : σ) :
    cut w n (raise e : Coro Op Ans ε α) s = (raise e, s) :=
  Function.iterate_fixed rfl n

/-- The first await uses up one step, and the rest of the program the others. -/
theorem cut_call_bind (n : ℕ) (op : Op) (f : Ans op → Coro Op Ans ε α) (s : σ) :
    cut w (n + 1) (call op >>= f) s = match w op s with
      | (.ok a, t) => cut w n (f a) t
      | (.error e, t) => (raise e, t) := by
  have hnext : cut w (n + 1) (call op >>= f) s =
      cut w n (next w (call op >>= f, s)).1 (next w (call op >>= f, s)).2 :=
    Function.iterate_succ_apply _ n _
  rw [hnext, next_call_bind]
  rcases w op s with ⟨r, t⟩
  cases r with
  | error e => exact cut_raise w n e t
  | ok a => rfl

theorem cut_succ (n : ℕ) (p : Coro Op Ans ε α) (s : σ) :
    cut w (n + 1) p s = next w (cut w n p s) := Function.iterate_succ_apply' _ n _

theorem run_cut (n : ℕ) (p : Coro Op Ans ε α) (s : σ) :
    run w (cut w n p s).1 (cut w n p s).2 = run w p s := by
  induction n with
  | zero => rfl
  | succ n ih => rw [cut_succ, run_next, ih]

theorem cut_of_awaits_le {n : ℕ} {p : Coro Op Ans ε α} {s : σ} (h : awaits w p s ≤ n) :
    cut w n p s = (ofExcept (run w p s).1, (run w p s).2) := by
  induction p generalizing n s with
  | ret a => exact cut_ret w n a s
  | raise e => exact cut_raise w n e s
  | await op k ih =>
    cases n with
    | zero => exact absurd h (Nat.not_succ_le_zero _)
    | succ n =>
      have hnext : cut w (n + 1) (await op k) s = cut w n (k (w op s).1) (w op s).2 :=
        Function.iterate_succ_apply _ n _
      rw [hnext]
      exact ih _ (Nat.le_of_succ_le_succ h)

/-- What a program leaves that stops after some awaits, or runs to its end. -/
def leaves (stop : Option ℕ) (p : Coro Op Ans ε α) (s : σ) : σ :=
  match stop with
  | some n => (cut w n p s).2
  | none => (run w p s).2

/-- A program that stops there gets past its first `n` awaits. -/
def Reaches (stop : Option ℕ) (n : ℕ) : Prop := ∀ k ∈ stop, n ≤ k

instance (stop : Option ℕ) (n : ℕ) : Decidable (Reaches stop n) :=
  inferInstanceAs (Decidable (∀ k ∈ stop, n ≤ k))

@[simp] theorem reaches_zero (stop : Option ℕ) : Reaches stop 0 := fun _ _ => Nat.zero_le _

theorem not_reaches_of_zero {stop : Option ℕ} (h : stop = some 0) (n : ℕ) :
    ¬ Reaches stop (n + 1) := by
  simp [Reaches, h]

theorem reaches_pred {stop : Option ℕ} (h : stop ≠ some 0) (n : ℕ) :
    Reaches (stop.map Nat.pred) n ↔ Reaches stop (n + 1) := by
  rcases stop with _ | _ | k
  · simp [Reaches]
  · exact absurd rfl h
  · simp [Reaches]

@[simp] theorem leaves_ret (stop : Option ℕ) (a : α) (s : σ) :
    leaves w stop (ret a : Coro Op Ans ε α) s = s := by
  cases stop <;> simp [leaves]

theorem leaves_of_zero {stop : Option ℕ} (h : stop = some 0) (p : Coro Op Ans ε α) (s : σ) :
    leaves w stop p s = s := by
  subst h
  rfl

theorem leaves_call_bind {stop : Option ℕ} (h : stop ≠ some 0) (op : Op)
    (f : Ans op → Coro Op Ans ε α) (s : σ) :
    leaves w stop (call op >>= f) s = match w op s with
      | (.ok a, t) => leaves w (stop.map Nat.pred) (f a) t
      | (.error _, t) => t := by
  rcases hw : w op s with ⟨r, t⟩
  rcases stop with _ | _ | n
  · cases r <;> simp [leaves, run_bind, hw]
  · exact absurd rfl h
  · cases r <;> simp [leaves, cut_call_bind, hw]

end Coro
