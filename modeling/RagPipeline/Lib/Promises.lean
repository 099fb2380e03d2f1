import Mathlib.Order.Basic
import RagPipeline.Lib.Coroutine

/-! Programs among others: which answers a program may get, and which operations it may await,
depends on what is known by then, and what is known only grows. -/

namespace Coro

variable {Op : Type} {Ans : Op → Type} {ε α β κ : Type} [Preorder κ]

/-- As long as the answers are as `A` tells, every operation is as `G` asks and every value
returned as `Q` does. -/
def Promises (A : κ → (op : Op) → Ans op → Prop) (G : κ → Op → Prop) (Q : κ → α → Prop) :
    Coro Op Ans ε α → κ → Prop
  | ret a, c => ∀ d, c ≤ d → Q d a
  | raise _, _ => True
  | await op k, c => ∀ d, c ≤ d → G d op ∧ (∀ a, A d op a → Promises A G Q (k (.ok a)) d) ∧
      ∀ e, Promises A G Q (k (.error e)) d

/-- One await among others: its operation is answered, or it raises. An operation that raised may
still have been carried out. -/
inductive Awaited (A : (op : Op) → Ans op → Prop) :
    Coro Op Ans ε α → Op → Bool → Coro Op Ans ε α → Prop
  | answered {op : Op} {k : Except ε (Ans op) → Coro Op Ans ε α} {a : Ans op} (h : A op a) :
      Awaited A (await op k) op true (k (.ok a))
  | raised {op : Op} {k : Except ε (Ans op) → Coro Op Ans ε α} (e : ε) (done : Bool) :
      Awaited A (await op k) op done (k (.error e))

variable {A : κ → (op : Op) → Ans op → Prop} {G : κ → Op → Prop} {Q : κ → α → Prop} {c d : κ}

theorem Promises.stable {p : Coro Op Ans ε α} (h : Promises A G Q p c) (hcd : c ≤ d) :
    Promises A G Q p d := by
  cases p with
  | ret a => exact fun e hde => h e (hcd.trans hde)
  | raise e => trivial
  | await op k => exact fun e hde => h e (hcd.trans hde)

theorem promises_ret {a : α} (h : ∀ d, c ≤ d → Q d a) :
    Promises A G Q (ret a : Coro Op Ans ε α) c := h

theorem promises_raise (e : ε) : Promises A G Q (raise e : Coro Op Ans ε α) c := trivial

theorem promises_call {op : Op} {Q : κ → Ans op → Prop} (hG : ∀ d, c ≤ d → G d op)
    (hQ : ∀ d, c ≤ d → ∀ a, A d op a → ∀ e, d ≤ e → Q e a) :
    Promises A G Q (call op : Coro Op Ans ε (Ans op)) c :=
  fun d hd => ⟨hG d hd, fun a ha => hQ d hd a ha, fun _ => trivial⟩

theorem Promises.bind {R : κ → β → Prop} {p : Coro Op Ans ε β} {f : β → Coro Op Ans ε α}
    (hp : Promises A G R p c) (hf : ∀ d, c ≤ d → ∀ b, R d b → Promises A G Q (f b) d) :
    Promises A G Q (p >>= f) c := by
  induction p generalizing c with
  | ret b => exact hf c le_rfl b (hp c le_rfl)
  | raise e => trivial
  | await op k ih =>
    intro d hd
    obtain ⟨hG, hok, herror⟩ := hp d hd
    have hlater : ∀ e, d ≤ e → ∀ b, R e b → Promises A G Q (f b) e :=
      fun e he => hf e (hd.trans he)
    exact ⟨hG, fun a ha => ih _ (hok a ha) hlater, fun e => ih _ (herror e) hlater⟩

/-- Nothing is known of the exception that an `except` clause gets. -/
theorem Promises.attempt {p : Coro Op Ans ε α} {h : ε → Coro Op Ans ε α}
    (hp : Promises A G Q p c) (hh : ∀ d, c ≤ d → ∀ e, Promises A G Q (h e) d) :
    Promises A G Q (p.attempt h) c := by
  induction p generalizing c with
  | ret a => exact hp
  | raise e => exact hh c le_rfl e
  | await op k ih =>
    intro d hd
    obtain ⟨hG, hok, herror⟩ := hp d hd
    have hlater : ∀ d', d ≤ d' → ∀ e, Promises A G Q (h e) d' := fun d' hd' => hh d' (hd.trans hd')
    exact ⟨hG, fun a ha => ih _ (hok a ha) hlater, fun e => ih _ (herror e) hlater⟩

/-- A part keeps its promises in what it is a part of. -/
theorem Promises.embed {Op' : Type} {Ans' : Op' → Type} {f : Op → Op'}
    {A : κ → (op : Op') → Ans' op → Prop} {G : κ → Op' → Prop}
    {p : Coro Op (fun op => Ans' (f op)) ε α}
    (h : Promises (fun c op => A c (f op)) (fun c op => G c (f op)) Q p c) :
    Promises A G Q (p.embed f) c := by
  induction p generalizing c with
  | ret a => exact h
  | raise e => trivial
  | await op k ih =>
    intro d hd
    obtain ⟨hG, hok, herror⟩ := h d hd
    exact ⟨hG, fun a ha => ih _ (hok a ha), fun e => ih _ (herror e)⟩

/-- A program that awaits `op` first. -/
theorem promises_call_bind {op : Op} {f : Ans op → Coro Op Ans ε α} (hG : ∀ d, c ≤ d → G d op)
    (hf : ∀ d, c ≤ d → ∀ a, A d op a → Promises A G Q (f a) d) :
    Promises A G Q (call op >>= f) c :=
  fun d hd => ⟨hG d hd, fun a ha => hf d hd a ha, fun _ => trivial⟩

theorem Promises.asks {B : (op : Op) → Ans op → Prop} {p p' : Coro Op Ans ε α} {op : Op}
    {done : Bool} (h : Promises A G Q p c) (hstep : Awaited B p op done p') : G c op := by
  cases hstep with
  | answered ha => exact (h c le_rfl).1
  | raised e done => exact (h c le_rfl).1

/-- What is left of a program after an await keeps to what is known by then. -/
theorem Promises.awaited {B : (op : Op) → Ans op → Prop} {p p' : Coro Op Ans ε α} {op : Op}
    {done : Bool} (h : Promises A G Q p c) (hstep : Awaited B p op done p') (hcd : c ≤ d)
    (hA : done = true → ∀ a, B op a → A d op a) : Promises A G Q p' d := by
  cases hstep with
  | answered ha => exact (h d hcd).2.1 _ (hA rfl _ ha)
  | raised e done => exact (h d hcd).2.2 e

section Obeys

variable {A : (op : Op) → Except ε (Ans op) → Prop} {G : Op → Prop} {E : ε → Prop}

/-- As long as the answers are as `A` tells, every operation is as `G` asks and every exception
raised as `E` does. -/
def Obeys (A : (op : Op) → Except ε (Ans op) → Prop) (G : Op → Prop) (E : ε → Prop) :
    Coro Op Ans ε α → Prop
  | ret _ => True
  | raise e => E e
  | await op k => G op ∧ ∀ r, A op r → Obeys A G E (k r)

theorem obeys_call {op : Op} (hG : G op) (hE : ∀ e, A op (.error e) → E e) :
    Obeys A G E (call op : Coro Op Ans ε (Ans op)) := by
  refine ⟨hG, fun r hr => ?_⟩
  cases r with
  | ok a => trivial
  | error e => exact hE e hr

theorem Obeys.mono {A' : (op : Op) → Except ε (Ans op) → Prop} {G' : Op → Prop} {E' : ε → Prop}
    {p : Coro Op Ans ε α} (h : Obeys A G E p) (hA : ∀ op r, A' op r → A op r)
    (hG : ∀ op, G op → G' op) (hE : ∀ e, E e → E' e) : Obeys A' G' E' p := by
  induction p with
  | ret a => trivial
  | raise e => exact hE e h
  | await op k ih => exact ⟨hG op h.1, fun r hr => ih r (h.2 r (hA op r hr))⟩

theorem Obeys.bind {p : Coro Op Ans ε β} {f : β → Coro Op Ans ε α} (hp : Obeys A G E p)
    (hf : ∀ b, Obeys A G E (f b)) : Obeys A G E (p >>= f) := by
  induction p with
  | ret b => exact hf b
  | raise e => exact hp
  | await op k ih => exact ⟨hp.1, fun r hr => ih r (hp.2 r hr)⟩

/-- The `except` clause gets what the `try` block raised. -/
theorem Obeys.attempt {E' : ε → Prop} {p : Coro Op Ans ε α} {h : ε → Coro Op Ans ε α}
    (hp : Obeys A G E' p) (hh : ∀ e, E' e → Obeys A G E (h e)) : Obeys A G E (p.attempt h) := by
  induction p with
  | ret a => trivial
  | raise e => exact hh e hp
  | await op k ih => exact ⟨hp.1, fun r hr => ih r (hp.2 r hr)⟩

theorem obeys_forM {l : List β} {f : β → Coro Op Ans ε PUnit} (h : ∀ b ∈ l, Obeys A G E (f b)) :
    Obeys A G E (l.forM f) := by
  induction l with
  | nil => trivial
  | cons b l ih =>
    obtain ⟨hb, hl⟩ := List.forall_mem_cons.mp h
    exact hb.bind fun _ => ih hl

end Obeys

end Coro
