import RagPipeline.Lib.Coroutine

/-! Programs that may be killed at any await. -/

namespace Coro

variable {Op : Type} {Ans : Op → Type} {ε α β σ : Type}

/-- At every await `C` holds of the operation and the world, and at the end `Q` holds of the result
and the world. -/
def Covers (w : World Op Ans ε σ) (C : Op → σ → Prop) (Q : Except ε α → σ → Prop) :
    Coro Op Ans ε α → σ → Prop
  | ret a, s => Q (.ok a) s
  | raise e, s => Q (.error e) s
  | await op k, s => C op s ∧ Covers w C Q (k (w op s).1) (w op s).2

/-- The program awaits nothing but such operations, whatever it is answered. -/
def Only (P : Op → Prop) : Coro Op Ans ε α → Prop
  | ret _ => True
  | raise _ => True
  | await op k => P op ∧ ∀ r, Only P (k r)

/-- The program does not raise, whatever it is answered. -/
def Returns : Coro Op Ans ε α → Prop
  | ret _ => True
  | raise _ => False
  | await _ k => ∀ r, Returns (k r)

/-- The operation that a program is at. -/
def awaiting : Coro Op Ans ε α → Option Op
  | await op _ => some op
  | _ => none

variable {w : World Op Ans ε σ} {C C' : Op → σ → Prop} {s : σ}

section Rules

variable {Q Q' : Except ε α → σ → Prop} {p : Coro Op Ans ε α}

@[simp] theorem covers_ret (a : α) :
    Covers w C Q (ret a : Coro Op Ans ε α) s ↔ Q (.ok a) s := Iff.rfl

@[simp] theorem covers_raise (e : ε) :
    Covers w C Q (raise e : Coro Op Ans ε α) s ↔ Q (.error e) s := Iff.rfl

@[simp] theorem covers_call (op : Op) (Q : Except ε (Ans op) → σ → Prop) :
    Covers w C Q (call op) s ↔ C op s ∧ Q (w op s).1 (w op s).2 := by
  rcases h : w op s with ⟨r, t⟩
  cases r <;> simp [call, Covers, h]

theorem Covers.mono (h : Covers w C Q p s) (hC : ∀ op t, C op t → C' op t)
    (hQ : ∀ r t, Q r t → Q' r t) : Covers w C' Q' p s := by
  induction p generalizing s with
  | ret a => exact hQ _ _ h
  | raise e => exact hQ _ _ h
  | await op k ih => exact ⟨hC _ _ h.1, ih _ h.2⟩

/-- What the awaits and the end of a program say about the program that goes on from it. -/
theorem covers_bind (p : Coro Op Ans ε β) (f : β → Coro Op Ans ε α) :
    Covers w C Q (p >>= f) s ↔ Covers w C
      (fun r t => match r with
        | .ok a => Covers w C Q (f a) t
        | .error e => Q (.error e) t) p s := by
  induction p generalizing s with
  | ret a => exact Iff.rfl
  | raise e => exact Iff.rfl
  | await op k ih => exact and_congr_right fun _ => ih _

theorem covers_call_bind (op : Op) (f : Ans op → Coro Op Ans ε α) :
    Covers w C Q (call op >>= f) s ↔ C op s ∧
      match w op s with
      | (.ok a, t) => Covers w C Q (f a) t
      | (.error e, t) => Q (.error e) t := by
  rw [covers_bind, covers_call]
  rcases w op s with ⟨r, t⟩
  cases r <;> exact Iff.rfl

theorem covers_attempt (p : Coro Op Ans ε α) (h : ε → Coro Op Ans ε α) :
    Covers w C Q (p.attempt h) s ↔ Covers w C
      (fun r t => match r with
        | .ok a => Q (.ok a) t
        | .error e => Covers w C Q (h e) t) p s := by
  induction p generalizing s with
  | ret a => exact Iff.rfl
  | raise e => exact Iff.rfl
  | await op k ih => exact and_congr_right fun _ => ih _

theorem covers_capture (p : Coro Op Ans ε β) {Q : Except ε (Except ε β) → σ → Prop} :
    Covers w C Q p.capture s ↔ Covers w C (fun r t => Q (.ok r) t) p s := by
  rw [capture, covers_attempt, covers_bind]
  have hmatch : (fun (r : Except ε β) t => Q (.ok r) t) = fun r t => match r with
      | .ok a => Q (.ok (.ok a)) t
      | .error e => Q (.ok (.error e)) t := by
    funext r t
    cases r <;> rfl
  rw [hmatch]
  exact Iff.rfl

theorem Covers.bind {R : Except ε β → σ → Prop} {q : Coro Op Ans ε β} {f : β → Coro Op Ans ε α}
    (h : Covers w C R q s) (hok : ∀ a t, R (.ok a) t → Covers w C Q (f a) t)
    (herror : ∀ e t, R (.error e) t → Q (.error e) t) : Covers w C Q (q >>= f) s := by
  rw [covers_bind]
  refine h.mono (fun _ _ hC => hC) fun r t hR => ?_
  cases r with
  | ok a => exact hok a t hR
  | error e => exact herror e t hR

theorem Covers.captureBind {R : Except ε β → σ → Prop} {q : Coro Op Ans ε β}
    {f : Except ε β → Coro Op Ans ε α} (h : Covers w C R q s)
    (hf : ∀ r t, R r t → Covers w C Q (f r) t) : Covers w C Q (q.capture >>= f) s := by
  rw [covers_bind, covers_capture]
  exact h.mono (fun _ _ hC => hC) hf

/-- What a program that runs to its end comes to. -/
theorem Covers.run (h : Covers w C Q p s) : Q (Coro.run w p s).1 (Coro.run w p s).2 := by
  induction p generalizing s with
  | ret a => exact h
  | raise e => exact h
  | await op k ih => exact ih _ h.2

theorem Covers.and (h : Covers w C Q p s) (h' : Covers w C' Q' p s) :
    Covers w (fun op t => C op t ∧ C' op t) (fun r t => Q r t ∧ Q' r t) p s := by
  induction p generalizing s with
  | ret a => exact ⟨h, h'⟩
  | raise e => exact ⟨h, h'⟩
  | await op k ih => exact ⟨⟨h.1, h'.1⟩, ih _ h.2 h'.2⟩

theorem Covers.cut (h : Covers w C Q p s) (n : ℕ) :
    Covers w C Q (cut w n p s).1 (cut w n p s).2 := by
  induction n generalizing p s with
  | zero => exact h
  | succ n ih =>
    cases p with
    | ret a => simpa using h
    | raise e => simpa using h
    | await op k => exact ih h.2

/-- What is true at every await and at the end is true wherever the program is killed. -/
theorem Covers.leaves {I : σ → Prop} (h : Covers w (fun _ => I) (fun _ => I) p s)
    (stop : Option ℕ) : I (leaves w stop p s) := by
  cases stop with
  | none => exact h.run
  | some n =>
    have hcut := h.cut n
    show I (Coro.cut w n p s).2
    generalize Coro.cut w n p s = c at hcut ⊢
    rcases c with ⟨_ | _ | _, t⟩
    · exact hcut
    · exact hcut
    · exact hcut.1

/-- The operation at which a program is killed. -/
theorem Covers.awaiting (h : Covers w C Q p s) {n : ℕ} {op : Op}
    (hop : (Coro.cut w n p s).1.awaiting = some op) : C op (Coro.cut w n p s).2 := by
  have hcut := h.cut n
  generalize Coro.cut w n p s = c at hcut hop ⊢
  rcases c with ⟨_ | _ | _, t⟩
  · cases hop
  · cases hop
  · obtain rfl := Option.some.inj hop
    exact hcut.1

end Rules

section Returns

theorem Returns.bind {p : Coro Op Ans ε β} {f : β → Coro Op Ans ε α} (hp : Returns p)
    (hf : ∀ b, Returns (f b)) : Returns (p >>= f) := by
  induction p with
  | ret b => exact hf b
  | raise e => exact hp.elim
  | await op k ih => exact fun r => ih r (hp r)

theorem returns_capture (p : Coro Op Ans ε α) : Returns p.capture := by
  induction p with
  | ret a => trivial
  | raise e => trivial
  | await op k ih => exact fun r => ih r

theorem Returns.covers {p : Coro Op Ans ε α} (hp : Returns p) :
    Covers w (fun _ _ => True) (fun r _ => ∃ a, r = .ok a) p s := by
  induction p generalizing s with
  | ret a => exact ⟨a, rfl⟩
  | raise e => exact hp.elim
  | await op k ih => exact ⟨trivial, ih _ (hp _)⟩

end Returns

section Only

variable {P : Op → Prop}

@[simp] theorem only_ret (a : α) : Only P (ret a : Coro Op Ans ε α) := trivial

@[simp] theorem only_raise (e : ε) : Only P (raise e : Coro Op Ans ε α) := trivial

theorem only_call {op : Op} (h : P op) : Only P (call op : Coro Op Ans ε (Ans op)) := by
  refine ⟨h, fun r => ?_⟩
  cases r <;> trivial

@[simp] theorem only_ofExcept (x : Except ε α) : Only P (ofExcept x : Coro Op Ans ε α) := by
  cases x <;> trivial

theorem Only.bind {p : Coro Op Ans ε β} {f : β → Coro Op Ans ε α} (hp : Only P p)
    (hf : ∀ b, Only P (f b)) : Only P (p >>= f) := by
  induction p with
  | ret b => exact hf b
  | raise e => trivial
  | await op k ih => exact ⟨hp.1, fun r => ih r (hp.2 r)⟩

theorem Only.attempt {p : Coro Op Ans ε α} {h : ε → Coro Op Ans ε α} (hp : Only P p)
    (hh : ∀ e, Only P (h e)) : Only P (p.attempt h) := by
  induction p with
  | ret a => trivial
  | raise e => exact hh e
  | await op k ih => exact ⟨hp.1, fun r => ih r (hp.2 r)⟩

theorem Only.next {p : Coro Op Ans ε α} (hp : Only P p) (s : σ) : Only P (next w (p, s)).1 := by
  cases p with
  | await op k => exact hp.2 _
  | _ => trivial

/-- What such operations keep is true all along. -/
theorem Only.covers {I : σ → Prop} (hI : ∀ op s, P op → I s → I (w op s).2)
    {p : Coro Op Ans ε α} (hp : Only P p) (hs : I s) :
    Covers w (fun op t => P op ∧ I t) (fun _ => I) p s := by
  induction p generalizing s with
  | ret a => exact hs
  | raise e => exact hs
  | await op k ih => exact ⟨⟨hp.1, hs⟩, ih _ (hp.2 _) (hI op s hp.1 hs)⟩

/-- A program of reads ends where it began, with the result that it has there. -/
theorem Only.covers_reads {p : Coro Op Ans ε α} (hp : Only P p)
    (hread : ∀ op, P op → (w op s).2 = s) :
    Covers w (fun _ t => t = s) (fun r t => r = (run w p s).1 ∧ t = s) p s := by
  induction p with
  | ret a => exact ⟨rfl, rfl⟩
  | raise e => exact ⟨rfl, rfl⟩
  | await op k ih =>
    have hs : (w op s).2 = s := hread op hp.1
    show s = s ∧ Covers w _ (fun r t => r = (run w (k (w op s).1) (w op s).2).1 ∧ t = s)
      (k (w op s).1) (w op s).2
    rw [hs]
    exact ⟨rfl, ih _ (hp.2 _)⟩

theorem mem_noting {ν : Type} {ω : (op : Op) → Except ε (Ans op)} {note : Op → Option ν} {op : Op}
    {s : List ν} {v : ν} (h : v ∈ (noting ω note op s).2) : v ∈ s ∨ v ∈ note op := by
  unfold noting at h
  cases hω : ω op with
  | ok a =>
    simp only [hω, List.mem_append, Option.mem_toList] at h
    exact h
  | error e =>
    simp only [hω] at h
    exact .inl h

theorem Only.noted {ν : Type} {Q : ν → Prop} {ω : (op : Op) → Except ε (Ans op)}
    {note : Op → Option ν} {p : Coro Op Ans ε α} (hp : Only (fun op => ∀ v ∈ note op, Q v) p)
    {s : List ν} (hs : ∀ v ∈ s, Q v) : ∀ v ∈ (run (noting ω note) p s).2, Q v := by
  induction p generalizing s with
  | ret a => exact hs
  | raise e => exact hs
  | await op k ih =>
    apply ih _ (hp.2 _)
    intro v hv
    exact (mem_noting hv).elim (hs v) (hp.1 v)

end Only

end Coro
