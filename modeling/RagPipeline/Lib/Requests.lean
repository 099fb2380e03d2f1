import Mathlib.Algebra.BigOperators.Group.Multiset.Basic
import RagPipeline.Lib.Promises

/-! Requests to one object, next to each other: their programs await operations of the object, some
of which write to it, and the writes are on record in the order in which they were carried out. -/

namespace Requests
open Coro

/-- What was written; a longer record goes on from a shorter one. -/
structure Record (W : Type) where
  writes : List W

instance {W : Type} : Preorder (Record W) where
  le c d := c.writes <+: d.writes
  le_refl c := List.prefix_refl c.writes
  le_trans _ _ _ h h' := h.trans h'

/-- The object, which of its operations write what, and what the requests do. -/
structure Service (Op : Type) (Ans : Op → Type) (ε α σ W Req : Type) where
  world : World Op Ans ε σ
  write : Op → Option W
  program : Req → Coro Op Ans ε α

/-- A request that is worked on, with the record as it was when it was sent. -/
structure Job (Op : Type) (Ans : Op → Type) (ε α W Req : Type) where
  request : Req
  seen : List W
  program : Coro Op Ans ε α

/-- A request that was answered, with the record as it was then. -/
structure Reply (α W Req : Type) where
  request : Req
  seen : List W
  done : List W
  result : α

structure State (Op : Type) (Ans : Op → Type) (ε α σ W Req : Type) where
  object : σ
  log : List W
  jobs : List (Job Op Ans ε α W Req)
  replies : List (Reply α W Req)
  sent : List Req

variable {Op : Type} {Ans : Op → Type} {ε α β σ W Req : Type}

def start (object : σ) : State Op Ans ε α σ W Req := ⟨object, [], [], [], []⟩

variable (S : Service Op Ans ε α σ W Req)

/-- What an operation that was answered so has written. -/
def Service.written (op : Op) : Except ε (Ans op) → List W
  | .ok _ => (S.write op).toList
  | .error _ => []

theorem Service.written_of_none {op : Op} (h : S.write op = none) (r : Except ε (Ans op)) :
    S.written op r = [] := by
  cases r with
  | ok a => simp [written, h]
  | error e => rfl

theorem Service.written_of_some {op : Op} {w : W} (h : S.write op = some w)
    (r : Except ε (Ans op)) : S.written op r = if r.isOk then [w] else [] := by
  cases r with
  | ok a => simp [written, h]
  | error e => rfl

/-- One await of a program: it gets its answer, or an exception although the operation was carried
out, or an exception instead of it. -/
inductive Turn : Coro Op Ans ε α → σ → List W → Coro Op Ans ε α → σ → List W → Prop
  | answered (op : Op) (k : Except ε (Ans op) → Coro Op Ans ε α) {s : σ} {L : List W} :
      Turn (await op k) s L (k (S.world op s).1) (S.world op s).2
        (L ++ S.written op (S.world op s).1)
  | lost (op : Op) (k : Except ε (Ans op) → Coro Op Ans ε α) {s : σ} {L : List W} (e : ε) :
      Turn (await op k) s L (k (.error e)) (S.world op s).2 (L ++ S.written op (S.world op s).1)
  | raised (op : Op) (k : Except ε (Ans op) → Coro Op Ans ε α) {s : σ} {L : List W} (e : ε) :
      Turn (await op k) s L (k (.error e)) s L

variable {S}

inductive Step (S : Service Op Ans ε α σ W Req) :
    State Op Ans ε α σ W Req → State Op Ans ε α σ W Req → Prop
  | send (s : State Op Ans ε α σ W Req) (r : Req) :
      Step S s { s with jobs := ⟨r, s.log, S.program r⟩ :: s.jobs, sent := r :: s.sent }
  | turn {s : State Op Ans ε α σ W Req} {before after : List (Job Op Ans ε α W Req)}
      {j : Job Op Ans ε α W Req} {p : Coro Op Ans ε α} {t : σ} {L : List W}
      (hjobs : s.jobs = before ++ j :: after) (h : Turn S j.program s.object s.log p t L) :
      Step S s { s with
        object := t, log := L, jobs := before ++ { j with program := p } :: after }
  | reply {s : State Op Ans ε α σ W Req} {before after : List (Job Op Ans ε α W Req)}
      {j : Job Op Ans ε α W Req} {a : α} (hjobs : s.jobs = before ++ j :: after)
      (h : j.program = ret a) :
      Step S s { s with
        jobs := before ++ after, replies := ⟨j.request, j.seen, s.log, a⟩ :: s.replies }
  /-- Its process is killed, its client is gone, or it ended in an exception. -/
  | drop {s : State Op Ans ε α σ W Req} {before after : List (Job Op Ans ε α W Req)}
      {j : Job Op Ans ε α W Req} (hjobs : s.jobs = before ++ j :: after) :
      Step S s { s with jobs := before ++ after }

abbrev Run (S : Service Op Ans ε α σ W Req) :
    State Op Ans ε α σ W Req → State Op Ans ε α σ W Req → Prop := Relation.ReflTransGen (Step S)

variable {Φ : Type} [Preorder Φ]

abbrev Known (facts : σ → Φ) (x : σ) (L : List W) : Φ × Record W := (facts x, ⟨L⟩)

/-- Operations that are asked for as `G` tells leave the object as `I` explains it from the record,
with no fact lost, and have answers as `A` tells whoever saw the record start so. -/
structure Service.Explained (S : Service Op Ans ε α σ W Req) (I : σ → List W → Prop)
    (facts : σ → Φ) (G : Φ × Record W → Op → Prop)
    (A : List W → Φ × Record W → (op : Op) → Ans op → Prop) : Prop where
  keeps : ∀ op x L, I x L → G (Known facts x L) op →
    I (S.world op x).2 (L ++ S.written op (S.world op x).1)
  grows : ∀ op x L, I x L → G (Known facts x L) op → facts x ≤ facts (S.world op x).2
  answers : ∀ op x L seen a, I x L → G (Known facts x L) op → seen <+: L →
    (S.world op x).1 = .ok a →
      A seen (Known facts (S.world op x).2 (L ++ (S.write op).toList)) op a

structure Sound (I : σ → List W → Prop) (facts : σ → Φ) (G : Φ × Record W → Op → Prop)
    (A : List W → Φ × Record W → (op : Op) → Ans op → Prop)
    (Q : Req → List W → Record W → α → Prop) (s : State Op Ans ε α σ W Req) : Prop where
  object : I s.object s.log
  jobs : ∀ j ∈ s.jobs, j.seen <+: s.log ∧
    Promises (A j.seen) G (fun c => Q j.request j.seen c.2) j.program
      (Known facts s.object s.log)
  replies : ∀ r ∈ s.replies, r.seen <+: r.done ∧ r.done <+: s.log ∧
    Q r.request r.seen ⟨r.done⟩ r.result

variable {I : σ → List W → Prop} {facts : σ → Φ} {G : Φ × Record W → Op → Prop}
  {A : List W → Φ × Record W → (op : Op) → Ans op → Prop}
  {Q : Req → List W → Record W → α → Prop} {p q : Coro Op Ans ε α} {x y : σ} {L M : List W}
  {s t : State Op Ans ε α σ W Req}

theorem Turn.kept (hS : S.Explained I facts G A) (h : Turn S p x L q y M) (hx : I x L)
    {seen : List W} (hseen : seen <+: L) {P : Φ × Record W → α → Prop}
    (hp : Promises (A seen) G P p (Known facts x L)) :
    I y M ∧ L <+: M ∧ facts x ≤ facts y ∧ Promises (A seen) G P q (Known facts y M) := by
  cases h with
  | answered op k =>
    have hG : G (Known facts x L) op := (hp _ le_rfl).1
    have hfacts : facts x ≤ facts (S.world op x).2 := hS.grows op x L hx hG
    have hL : L <+: L ++ S.written op (S.world op x).1 := List.prefix_append _ _
    refine ⟨hS.keeps op x L hx hG, hL, hfacts, ?_⟩
    have hk := (hp (Known facts (S.world op x).2 (L ++ S.written op (S.world op x).1))
      ⟨hfacts, hL⟩).2
    cases hr : (S.world op x).1 with
    | error e =>
      rw [hr] at hk
      exact hk.2 e
    | ok a =>
      rw [hr] at hk
      exact hk.1 a (hS.answers op x L seen a hx hG hseen hr)
  | lost op k e =>
    have hG : G (Known facts x L) op := (hp _ le_rfl).1
    have hfacts : facts x ≤ facts (S.world op x).2 := hS.grows op x L hx hG
    have hL : L <+: L ++ S.written op (S.world op x).1 := List.prefix_append _ _
    exact ⟨hS.keeps op x L hx hG, hL, hfacts, (hp _ ⟨hfacts, hL⟩).2.2 e⟩
  | raised op k e => exact ⟨hx, List.prefix_refl _, le_rfl, (hp _ le_rfl).2.2 e⟩

theorem sound_start {x : σ} (hx : I x []) :
    Sound I facts G A Q (start x : State Op Ans ε α σ W Req) :=
  ⟨hx, fun _ h => absurd h List.not_mem_nil, fun _ h => absurd h List.not_mem_nil⟩

theorem Sound.step (hS : S.Explained I facts G A)
    (hQ : ∀ r L c, c.2 = ⟨L⟩ → Promises (A L) G (fun c => Q r L c.2) (S.program r) c)
    (hs : Sound I facts G A Q s) (h : Step S s t) : Sound I facts G A Q t := by
  cases h with
  | send r =>
    refine ⟨hs.object, fun j hj => ?_, hs.replies⟩
    obtain rfl | hj := List.mem_cons.mp hj
    · exact ⟨List.prefix_refl _, hQ r s.log _ rfl⟩
    · exact hs.jobs j hj
  | @turn before after j p x L hjobs h =>
    have hj : j ∈ s.jobs := hjobs ▸ List.mem_append_right _ List.mem_cons_self
    obtain ⟨hseen, hp⟩ := hs.jobs j hj
    obtain ⟨hI, hgrown, hfacts, hleft⟩ := h.kept hS hs.object hseen hp
    refine ⟨hI, fun i hi => ?_, fun r hr => ?_⟩
    · obtain rfl | hi := List.mem_cons.mp (List.perm_middle.mem_iff.mp hi)
      · exact ⟨hseen.trans hgrown, hleft⟩
      · have hold : i ∈ s.jobs := by
          rw [hjobs]
          exact List.perm_middle.mem_iff.mpr (List.mem_cons_of_mem j hi)
        obtain ⟨hseen, hp⟩ := hs.jobs i hold
        exact ⟨hseen.trans hgrown, hp.stable ⟨hfacts, hgrown⟩⟩
    · obtain ⟨hseen, hdone, hresult⟩ := hs.replies r hr
      exact ⟨hseen, hdone.trans hgrown, hresult⟩
  | @reply before after j a hjobs h =>
    have hj : j ∈ s.jobs := hjobs ▸ List.mem_append_right _ List.mem_cons_self
    refine ⟨hs.object, fun i hi => hs.jobs i ?_, fun r hr => ?_⟩
    · rw [hjobs]
      exact List.perm_middle.mem_iff.mpr (List.mem_cons_of_mem j hi)
    · obtain rfl | hr := List.mem_cons.mp hr
      · obtain ⟨hseen, hp⟩ := hs.jobs j hj
        rw [h] at hp
        exact ⟨hseen, List.prefix_refl _, hp _ le_rfl⟩
      · exact hs.replies r hr
  | @drop before after j hjobs =>
    refine ⟨hs.object, fun i hi => hs.jobs i ?_, hs.replies⟩
    rw [hjobs]
    exact List.perm_middle.mem_iff.mpr (List.mem_cons_of_mem j hi)

theorem Sound.run (hS : S.Explained I facts G A)
    (hQ : ∀ r L c, c.2 = ⟨L⟩ → Promises (A L) G (fun c => Q r L c.2) (S.program r) c)
    (hs : Sound I facts G A Q s) (h : Run S s t) : Sound I facts G A Q t := by
  induction h with
  | refl => exact hs
  | tail _ hstep ih => exact ih.step hS hQ hstep

def WrittenSince (seen : List W) (c : Record W) (w : W) : Prop :=
  ∃ before, seen <+: before ∧ before ++ [w] <+: c.writes

theorem WrittenSince.mono {seen : List W} {c d : Record W} {w : W} (h : WrittenSince seen c w)
    (hcd : c ≤ d) : WrittenSince seen d w := by
  obtain ⟨before, hseen, hbefore⟩ := h
  exact ⟨before, hseen, hbefore.trans hcd⟩

theorem writtenSince_last {seen L : List W} (hseen : seen <+: L) (w : W) :
    WrittenSince seen ⟨L ++ [w]⟩ w := ⟨L, hseen, List.prefix_refl _⟩

/-- The program carries out no more than these writes. -/
def Spends (write : Op → Option W) : Coro Op Ans ε α → Multiset W → Prop
  | ret _, _ => True
  | raise _, _ => True
  | await op k, m => match write op with
    | none => ∀ r, Spends write (k r) m
    | some w => ∃ rest, m = w ::ₘ rest ∧ ∀ r, Spends write (k r) rest

inductive Owed (write : Op → Option W) : List (Job Op Ans ε α W Req) → Multiset W → Prop
  | nil : Owed write [] 0
  | cons {j : Job Op Ans ε α W Req} {jobs : List (Job Op Ans ε α W Req)} {m n : Multiset W}
      (h : Spends write j.program m) (hjobs : Owed write jobs n) : Owed write (j :: jobs) (m + n)

variable {write : Op → Option W} {m n : Multiset W}

theorem spends_await {op : Op} {k : Except ε (Ans op) → Coro Op Ans ε α}
    (h : Spends write (await op k) m) :
    (write op = none ∧ ∀ r, Spends write (k r) m) ∨
      ∃ w rest, write op = some w ∧ m = w ::ₘ rest ∧ ∀ r, Spends write (k r) rest := by
  unfold Spends at h
  split at h
  · rename_i hw
    exact .inl ⟨hw, h⟩
  · rename_i w hw
    obtain ⟨rest, hm, hrest⟩ := h
    exact .inr ⟨w, rest, hw, hm, hrest⟩

theorem Spends.mono (h : Spends write p m) (hmn : m ≤ n) : Spends write p n := by
  induction p generalizing m n with
  | ret a => trivial
  | raise e => trivial
  | await op k ih =>
    unfold Spends at h ⊢
    split at h
    · exact fun r => ih r (h r) hmn
    · rename_i w hw
      obtain ⟨rest, rfl, hrest⟩ := h
      obtain ⟨more, rfl⟩ := Multiset.le_iff_exists_add.mp hmn
      refine ⟨rest + more, Multiset.cons_add w rest more, fun r => ?_⟩
      exact ih r (hrest r) (Multiset.le_add_right rest more)

theorem spends_bind {p : Coro Op Ans ε β} {f : β → Coro Op Ans ε α} (hp : Spends write p m)
    (hf : ∀ b, Spends write (f b) n) : Spends write (p >>= f) (m + n) := by
  induction p generalizing m with
  | ret b => exact (hf b).mono (Multiset.le_add_left n m)
  | raise e => trivial
  | await op k ih =>
    rw [await_bind]
    unfold Spends at hp ⊢
    split at hp
    · exact fun r => ih r (hp r)
    · rename_i w hw
      obtain ⟨rest, rfl, hrest⟩ := hp
      exact ⟨rest + n, Multiset.cons_add w rest n, fun r => ih r (hrest r)⟩

theorem spends_attempt {p : Coro Op Ans ε α} {h : ε → Coro Op Ans ε α} (hp : Spends write p m)
    (hh : ∀ e, Spends write (h e) 0) : Spends write (p.attempt h) m := by
  induction p generalizing m with
  | ret a => trivial
  | raise e => exact (hh e).mono (Multiset.zero_le m)
  | await op k ih =>
    unfold Spends at hp
    unfold attempt Spends
    split at hp
    · exact fun r => ih r (hp r)
    · rename_i w hw
      obtain ⟨rest, rfl, hrest⟩ := hp
      exact ⟨rest, rfl, fun r => ih r (hrest r)⟩

theorem spends_embed {Op' : Type} {Ans' : Op' → Type} {f : Op → Op'} {write : Op' → Option W}
    {p : Coro Op (fun op => Ans' (f op)) ε α} (h : Spends (fun op => write (f op)) p m) :
    Spends write (p.embed f) m := by
  induction p generalizing m with
  | ret a => trivial
  | raise e => trivial
  | await op k ih =>
    unfold Spends at h
    unfold embed Spends
    split at h
    · exact fun r => ih r (h r)
    · rename_i w hw
      obtain ⟨rest, rfl, hrest⟩ := h
      exact ⟨rest, rfl, fun r => ih r (hrest r)⟩

/-- A program that awaits `op` and nothing else. -/
theorem spends_call (op : Op) :
    Spends write (call op : Coro Op Ans ε (Ans op)) ↑(write op).toList := by
  have hrest : ∀ r : Except ε (Ans op), Spends write
      (match r with
        | .ok a => (ret a : Coro Op Ans ε (Ans op))
        | .error e => raise e) 0 := by
    intro r
    cases r <;> trivial
  unfold call Spends
  cases hw : write op with
  | none => exact hrest
  | some w => exact ⟨0, rfl, hrest⟩

theorem Turn.spends (h : Turn S p x L q y M) (hp : Spends S.write p m) :
    ∃ n, Spends S.write q n ∧ (M : Multiset W) + n ≤ L + m := by
  -- what is carried out moves from what the program may write to the record
  have hcarried : ∀ {op : Op} {k : Except ε (Ans op) → Coro Op Ans ε α},
      Spends S.write (await op k) m → ∀ r r' : Except ε (Ans op),
        ∃ n, Spends S.write (k r) n ∧
          ((L ++ S.written op r' : List W) : Multiset W) + n ≤ L + m := by
    intro op k hp r r'
    simp only [← Multiset.coe_add, add_assoc]
    obtain ⟨hw, hrest⟩ | ⟨w, rest, hw, rfl, hrest⟩ := spends_await hp
    · refine ⟨m, hrest r, add_le_add le_rfl ?_⟩
      cases r' <;> simp [Service.written, hw]
    · refine ⟨rest, hrest r, add_le_add le_rfl ?_⟩
      cases r' with
      | ok a => simp [Service.written, hw]
      | error e => exact (Multiset.zero_add rest).trans_le (Multiset.le_cons_self rest w)
  cases h with
  | answered op k => exact hcarried hp _ _
  | lost op k e => exact hcarried hp _ _
  | raised op k e =>
    obtain ⟨-, hrest⟩ | ⟨w, rest, -, rfl, hrest⟩ := spends_await hp
    · exact ⟨m, hrest _, le_refl _⟩
    · exact ⟨rest, hrest _, add_le_add le_rfl (Multiset.le_cons_self rest w)⟩

theorem Owed.split {before after : List (Job Op Ans ε α W Req)} {j : Job Op Ans ε α W Req}
    (h : Owed write (before ++ j :: after) m) :
    ∃ own others, Spends write j.program own ∧ m = own + others ∧
      Owed write (before ++ after) others ∧
      ∀ i : Job Op Ans ε α W Req, ∀ n, Spends write i.program n →
        Owed write (before ++ i :: after) (n + others) := by
  induction before generalizing m with
  | nil =>
    cases h with
    | cons hj hafter => exact ⟨_, _, hj, rfl, hafter, fun i n hi => .cons hi hafter⟩
  | cons b before ih =>
    cases h with
    | @cons _ _ first _ hb hrest =>
    obtain ⟨own, others, hj, rfl, hothers, hput⟩ := ih hrest
    refine ⟨own, first + others, hj, add_left_comm first own others, .cons hb hothers, ?_⟩
    intro i n hi
    rw [add_left_comm]
    exact .cons hb (hput i n hi)

/-- What was written and what may still be is no more than what was asked for. -/
def Accounted (write : Op → Option W) (asks : Req → Multiset W) (s : State Op Ans ε α σ W Req) :
    Prop :=
  ∃ m, Owed write s.jobs m ∧ (s.log : Multiset W) + m ≤ (s.sent.map asks).sum

theorem Accounted.step {asks : Req → Multiset W}
    (hasks : ∀ r, Spends S.write (S.program r) (asks r)) (hs : Accounted S.write asks s)
    (h : Step S s t) : Accounted S.write asks t := by
  obtain ⟨m, howed, hle⟩ := hs
  cases h with
  | send r =>
    refine ⟨asks r + m, .cons (hasks r) howed, ?_⟩
    rw [List.map_cons, List.sum_cons, add_left_comm]
    exact add_le_add le_rfl hle
  | @turn before after j p x L hjobs h =>
    rw [hjobs] at howed
    obtain ⟨own, others, hj, rfl, -, hput⟩ := howed.split
    obtain ⟨n, hn, hmoved⟩ := h.spends hj
    refine ⟨n + others, hput { j with program := p } n hn, ?_⟩
    rw [← add_assoc] at hle ⊢
    exact (add_le_add hmoved le_rfl).trans hle
  | @reply before after j a hjobs h =>
    rw [hjobs] at howed
    obtain ⟨own, others, -, rfl, hothers, -⟩ := howed.split
    exact ⟨others, hothers,
      (add_le_add le_rfl (Multiset.le_add_left others own)).trans hle⟩
  | @drop before after j hjobs =>
    rw [hjobs] at howed
    obtain ⟨own, others, -, rfl, hothers, -⟩ := howed.split
    exact ⟨others, hothers,
      (add_le_add le_rfl (Multiset.le_add_left others own)).trans hle⟩

/-- Nothing is written that was not asked for, and nothing more often. -/
theorem log_le_asked {asks : Req → Multiset W}
    (hasks : ∀ r, Spends S.write (S.program r) (asks r)) {x : σ}
    (h : Run S (start x) s) : (s.log : Multiset W) ≤ (s.sent.map asks).sum := by
  have haccounted : Accounted S.write asks s := by
    induction h with
    | refl => exact ⟨0, .nil, le_rfl⟩
    | tail _ hstep ih => exact ih.step hasks hstep
  obtain ⟨m, -, hle⟩ := haccounted
  exact (Multiset.le_add_right _ m).trans hle

theorem run_alone {r : Req} {seen : List W} {jobs : List (Job Op Ans ε α W Req)}
    {replies : List (Reply α W Req)} {sent : List Req} {a : α}
    (h : Coro.run S.world p x = (.ok a, y)) :
    ∃ M, Run S ⟨x, L, ⟨r, seen, p⟩ :: jobs, replies, sent⟩
      ⟨y, M, jobs, ⟨r, seen, M, a⟩ :: replies, sent⟩ := by
  have hjobs : ∀ p : Coro Op Ans ε α,
      (⟨r, seen, p⟩ :: jobs : List (Job Op Ans ε α W Req)) = [] ++ ⟨r, seen, p⟩ :: jobs :=
    fun _ => rfl
  induction p generalizing x L with
  | ret b =>
    cases h
    have hstep := Step.reply (S := S) (s := ⟨y, L, ⟨r, seen, ret a⟩ :: jobs, replies, sent⟩)
      (hjobs (ret a)) rfl
    exact ⟨L, .single hstep⟩
  | raise e => cases h
  | await op k ih =>
    obtain ⟨M, hrun⟩ := ih _ h
    have hstep := Step.turn (S := S) (s := ⟨x, L, ⟨r, seen, await op k⟩ :: jobs, replies, sent⟩)
      (hjobs (await op k)) (Turn.answered op k)
    exact ⟨M, .head hstep hrun⟩

/-- Whatever else is under way, it is answered. -/
theorem run_request {r : Req} {a : α} (h : Coro.run S.world (S.program r) s.object = (.ok a, y)) :
    ∃ M, Run S s { s with
      object := y, log := M, replies := ⟨r, s.log, M, a⟩ :: s.replies, sent := r :: s.sent } := by
  obtain ⟨M, hrun⟩ := run_alone h
  exact ⟨M, .head (.send s r) hrun⟩

end Requests
