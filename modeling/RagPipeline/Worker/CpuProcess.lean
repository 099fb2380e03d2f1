import Mathlib.Logic.Function.Basic
import RagPipeline.Handlers.ChunkDelivery
import RagPipeline.Search.Lifecycle
import RagPipeline.Worker.Gpu

namespace RagPipeline
open Coro

/-- What the handlers of the process await. -/
inductive CpuOp where
  | chunk (op : ChunkOp)
  | job (op : JobOp)

abbrev CpuOp.Ans : CpuOp → Type
  | chunk op => op.Ans
  | job op => op.Ans

abbrev CpuCoro := Coro CpuOp CpuOp.Ans PyExc

/-- The three workers, each on a thread of its own. -/
inductive Consumer where
  | chunk | search | finalize
deriving DecidableEq

/-- A message, with the ids that its handler will draw. Its body may be no task at all. -/
structure CpuMessage where
  body : Option AnyTask
  ids : ℕ → String
  eventId : String
  span : Option SpanIds

/-- A handler on the event loop, and the delivery it is for. -/
structure Running where
  consumer : Consumer
  deliveryTag : ℕ
  coro : CpuCoro Unit

structure CpuProcess (σ : Type) where
  /-- Delivered and not begun. -/
  queues : Consumer → List CpuMessage
  /-- The delivery tag of the last message begun. -/
  begun : Consumer → ℕ
  /-- The one loop that all workers share. -/
  loop : Option Running
  settled : List (Consumer × Settlement)
  world : σ

inductive CpuStep where
  | arrive (c : Consumer) (msg : CpuMessage)
  | start (c : Consumer)
  | turn

namespace CpuProcess

variable {σ : Type}

/-- `model_validate`, and the call of the handler that makes its coroutine. -/
def coroutine (C : Chunking) (c : Consumer) (msg : CpuMessage) : Except PyExc (CpuCoro Unit) :=
  match c, msg.body with
  | .chunk, some (.chunk task) =>
    .ok (embed CpuOp.chunk (ChunkPostHandler.handle C msg.ids msg.eventId msg.span task) >>=
      fun _ => ret ())
  | .search, some (.searchRun task) => .ok (embed CpuOp.job (SearchHandler.handle task))
  | .finalize, some (.searchFinalize task) =>
    .ok (embed CpuOp.job (SearchFinalizeHandler.handle task))
  | _, _ => .error (.other "ValidationError")

/-- `loop.run_until_complete` takes the loop, unless it is running. -/
def runUntilComplete (loop : Option Running) (r : Running) : Except PyExc Running :=
  match loop with
  | none => .ok r
  | some _ => .error (.other "This event loop is already running")

/-- `process`, up to where the handler is on the loop. -/
def process (C : Chunking) (loop : Option Running) (c : Consumer) (deliveryTag : ℕ)
    (msg : CpuMessage) : Except PyExc Running := do
  let coro ← coroutine C c msg
  runUntilComplete loop ⟨c, deliveryTag, coro⟩

/-- `_on_message`: whatever `process` raises sends the message to the DLQ. -/
def onMessage (C : Chunking) (s : CpuProcess σ) (c : Consumer) (msg : CpuMessage) :
    CpuProcess σ :=
  match process C s.loop c (s.begun c) msg with
  | .ok r => { s with loop := some r }
  | .error _ => { s with settled := s.settled ++ [(c, .nack (s.begun c) false)] }

/-- The message the consumer's thread takes next; its last one may still be on the loop. -/
def nextMessage (s : CpuProcess σ) (c : Consumer) : Option CpuMessage :=
  if s.loop.any fun r => r.consumer = c then none else (s.queues c).head?

def take (s : CpuProcess σ) (c : Consumer) : CpuProcess σ :=
  { s with
    queues := Function.update s.queues c (s.queues c).tail
    begun := Function.update s.begun c (s.begun c + 1) }

variable (C : Chunking) (w : World CpuOp CpuOp.Ans PyExc σ)

def turn (s : CpuProcess σ) : CpuProcess σ :=
  match s.loop with
  | none => s
  | some r =>
    match r.coro with
    | .ret _ =>
      { s with loop := none, settled := s.settled ++ [(r.consumer, .ack r.deliveryTag)] }
    | .raise _ =>
      { s with loop := none, settled := s.settled ++ [(r.consumer, .nack r.deliveryTag false)] }
    | .await op k =>
      let c := next w (.await op k, s.world)
      { s with loop := some { r with coro := c.1 }, world := c.2 }

def step (s : CpuProcess σ) : CpuStep → CpuProcess σ
  | .arrive c msg => { s with queues := Function.update s.queues c (s.queues c ++ [msg]) }
  | .start c =>
    match s.nextMessage c with
    | none => s
    | some msg => onMessage C (s.take c) c msg
  | .turn => s.turn w

def started (world : σ) : CpuProcess σ :=
  { queues := fun _ => [], begun := fun _ => 0, loop := none, settled := [], world := world }

def after (world : σ) (steps : List CpuStep) : CpuProcess σ :=
  steps.foldl (step C w) (started world)

/-- The thread takes that message, whose handler would return from here. -/
def Takes (s : CpuProcess σ) (c : Consumer) (msg : CpuMessage) : Prop :=
  s.nextMessage c = some msg ∧
    ∃ coro, coroutine C c msg = .ok coro ∧ (run w coro s.world).1.isOk = true

/-- Once the loop has come to the end of what is on it, the delivery is acked and not nacked. -/
def Acked (s : CpuProcess σ) (c : Consumer) (deliveryTag : ℕ) : Prop :=
  ∃ n, (c, .ack deliveryTag) ∈ ((turn w)^[n] s).settled ∧
    (c, .nack deliveryTag false) ∉ ((turn w)^[n] s).settled

/-- A step leaves all as it is, begins a message, nacks one that it could not begin, or moves the
handler on the loop on. -/
inductive Moved (s t : CpuProcess σ) : Prop
  | same (hbegun : t.begun = s.begun) (hloop : t.loop = s.loop) (hsettled : t.settled = s.settled)
      (hworld : t.world = s.world)
  | begins (c : Consumer) (coro : CpuCoro Unit) (hfree : s.loop = none)
      (hbegun : t.begun = Function.update s.begun c (s.begun c + 1))
      (hloop : t.loop = some ⟨c, s.begun c + 1, coro⟩) (hsettled : t.settled = s.settled)
      (hworld : t.world = s.world)
  | rejects (c : Consumer) (hbegun : t.begun = Function.update s.begun c (s.begun c + 1))
      (hloop : t.loop = s.loop)
      (hsettled : t.settled = s.settled ++ [(c, .nack (s.begun c + 1) false)])
      (hworld : t.world = s.world)
  | awaits (r : Running) (coro : CpuCoro Unit) (hon : s.loop = some r) (hbegun : t.begun = s.begun)
      (hloop : t.loop = some { r with coro }) (hsettled : t.settled = s.settled)
      (hrun : run w coro t.world = run w r.coro s.world)
  | ends (r : Running) (x : Settlement) (hon : s.loop = some r) (hbegun : t.begun = s.begun)
      (hloop : t.loop = none) (hsettled : t.settled = s.settled ++ [(r.consumer, x)])
      (hx : x = if (run w r.coro s.world).1.isOk then .ack r.deliveryTag
        else .nack r.deliveryTag false)

variable {C w} {s t : CpuProcess σ} {c : Consumer} {msg : CpuMessage} {deliveryTag : ℕ}

theorem moved_turn (s : CpuProcess σ) : Moved w s (s.turn w) := by
  cases hl : s.loop with
  | none =>
    have hturn : s.turn w = s := by simp only [turn, hl]
    rw [hturn]
    exact .same rfl rfl rfl rfl
  | some r =>
    obtain ⟨c, tag, coro⟩ := r
    cases coro with
    | ret u =>
      have hturn : s.turn w = { s with loop := none, settled := s.settled ++ [(c, .ack tag)] } := by
        simp only [turn, hl]
      rw [hturn]
      exact .ends _ _ hl rfl rfl rfl rfl
    | raise e =>
      have hturn : s.turn w =
          { s with loop := none, settled := s.settled ++ [(c, .nack tag false)] } := by
        simp only [turn, hl]
      rw [hturn]
      exact .ends _ _ hl rfl rfl rfl rfl
    | await op k =>
      have hturn : s.turn w = { s with
          loop := some ⟨c, tag, (next w (.await op k, s.world)).1⟩
          world := (next w (.await op k, s.world)).2 } := by
        simp only [turn, hl]
      rw [hturn]
      exact .awaits _ _ hl rfl rfl rfl (run_next w (.await op k) s.world)

theorem onMessage_of_ok {r : Running} (h : process C s.loop c (s.begun c) msg = .ok r) :
    onMessage C s c msg = { s with loop := some r } := by
  rw [onMessage, h]

theorem onMessage_of_error {e : PyExc} (h : process C s.loop c (s.begun c) msg = .error e) :
    onMessage C s c msg =
      { s with settled := s.settled ++ [(c, .nack (s.begun c) false)] } := by
  rw [onMessage, h]

theorem step_start (h : s.nextMessage c = some msg) :
    step C w s (.start c) = onMessage C (s.take c) c msg := by
  simp only [step, h]

theorem moved_onMessage (s : CpuProcess σ) (c : Consumer) (msg : CpuMessage) :
    Moved w s (onMessage C (s.take c) c msg) := by
  have htag : (s.take c).begun c = s.begun c + 1 := Function.update_self ..
  cases hc : coroutine C c msg with
  | error e =>
    rw [onMessage_of_error (e := e) (by simp [process, hc]), htag]
    exact .rejects c rfl rfl rfl rfl
  | ok coro =>
    -- only a loop that is not running takes the handler
    cases hl : s.loop with
    | none =>
      rw [onMessage_of_ok (r := ⟨c, s.begun c + 1, coro⟩)
        (by simp [process, hc, take, hl, runUntilComplete])]
      exact .begins c coro hl rfl rfl rfl rfl
    | some r =>
      rw [onMessage_of_error (e := .other "This event loop is already running")
        (by simp [process, hc, take, hl, runUntilComplete]), htag]
      exact .rejects c rfl rfl rfl rfl

theorem moved_step (s : CpuProcess σ) (i : CpuStep) : Moved w s (step C w s i) := by
  cases i with
  | arrive c msg => exact .same rfl rfl rfl rfl
  | turn => exact moved_turn s
  | start c =>
    cases hn : s.nextMessage c with
    | none =>
      have hstep : step C w s (.start c) = s := by simp only [step, hn]
      rw [hstep]
      exact .same rfl rfl rfl rfl
    | some msg =>
      rw [step_start hn]
      exact moved_onMessage s c msg

theorem Moved.settled_kept (h : Moved w s t) : s.settled <+: t.settled := by
  cases h with
  | same _ _ hs _ => rw [hs]
  | begins _ _ _ _ _ hs _ => rw [hs]
  | rejects _ _ _ hs _ => exact ⟨_, hs.symm⟩
  | awaits _ _ _ _ _ hs _ => rw [hs]
  | ends _ _ _ _ _ hs _ => exact ⟨_, hs.symm⟩

/-- Only begun deliveries are on the loop or settled, and none is both. -/
structure Tagged (s : CpuProcess σ) : Prop where
  settled : ∀ p ∈ s.settled, p.2.deliveryTag ≤ s.begun p.1
  onLoop : ∀ r ∈ s.loop, r.deliveryTag ≤ s.begun r.consumer
  unsettled : ∀ r ∈ s.loop, ∀ p ∈ s.settled, p.1 = r.consumer → p.2.deliveryTag ≠ r.deliveryTag

theorem le_update (f : Consumer → ℕ) (c d : Consumer) :
    f d ≤ Function.update f c (f c + 1) d := by
  by_cases hd : d = c
  · subst hd
    rw [Function.update_self]
    omega
  · rw [Function.update_of_ne hd]

theorem Moved.begun_le (h : Moved w s t) (d : Consumer) : s.begun d ≤ t.begun d := by
  cases h with
  | same hb _ _ _ => rw [hb]
  | begins c _ _ hb _ _ _ =>
    rw [hb]
    exact le_update s.begun c d
  | rejects c hb _ _ _ =>
    rw [hb]
    exact le_update s.begun c d
  | awaits _ _ _ hb _ _ _ => rw [hb]
  | ends _ _ _ hb _ _ _ => rw [hb]

theorem Tagged.step (ht : Tagged s) (h : Moved w s t) : Tagged t := by
  have hsettled : ∀ p ∈ s.settled, p.2.deliveryTag ≤ t.begun p.1 :=
    fun p hp => (ht.settled p hp).trans (h.begun_le p.1)
  have honLoop : ∀ r ∈ s.loop, r.deliveryTag ≤ t.begun r.consumer :=
    fun r hr => (ht.onLoop r hr).trans (h.begun_le r.consumer)
  cases h with
  | same _ hl hs _ =>
    refine ⟨?_, ?_, ?_⟩
    · rwa [hs]
    · rwa [hl]
    · rw [hl, hs]
      exact ht.unsettled
  | begins c coro hfree hb hl hs _ =>
    have hmem : ∀ r ∈ t.loop, r = ⟨c, s.begun c + 1, coro⟩ := by
      intro r hr
      rw [hl] at hr
      exact (Option.mem_some_iff.mp hr).symm
    refine ⟨by rwa [hs], fun r hr => ?_, fun r hr p hp hc => ?_⟩
    · rw [hmem r hr, hb, Function.update_self]
    · -- the tag is new
      rw [hmem r hr] at hc ⊢
      rw [hs] at hp
      have hcons : p.1 = c := hc
      have hle : p.2.deliveryTag ≤ s.begun p.1 := ht.settled p hp
      rw [hcons] at hle
      show p.2.deliveryTag ≠ s.begun c + 1
      omega
  | rejects c hb hl hs _ =>
    refine ⟨fun p hp => ?_, by rwa [hl], fun r hr p hp hc => ?_⟩
    · rw [hs, List.mem_append, List.mem_singleton] at hp
      obtain hp | rfl := hp
      · exact hsettled p hp
      · rw [hb, Function.update_self]
        exact Nat.le_refl _
    · rw [hl] at hr
      rw [hs, List.mem_append, List.mem_singleton] at hp
      obtain hp | rfl := hp
      · exact ht.unsettled r hr p hp hc
      · have hcons : c = r.consumer := hc
        have hle : r.deliveryTag ≤ s.begun r.consumer := ht.onLoop r hr
        rw [← hcons] at hle
        show s.begun c + 1 ≠ r.deliveryTag
        omega
  | awaits r coro hon _ hl hs _ =>
    have hmem : ∀ r' ∈ t.loop, r' = { r with coro } := by
      intro r' hr
      rw [hl] at hr
      exact (Option.mem_some_iff.mp hr).symm
    refine ⟨by rwa [hs], fun r' hr => ?_, fun r' hr => ?_⟩
    · rw [hmem r' hr]
      exact honLoop r hon
    · rw [hmem r' hr, hs]
      exact ht.unsettled r hon
  | ends r x hon _ hl hs hx =>
    have htag : x.deliveryTag = r.deliveryTag := by
      rw [hx]
      split <;> rfl
    refine ⟨fun p hp => ?_, by simp [hl], by simp [hl]⟩
    rw [hs, List.mem_append, List.mem_singleton] at hp
    obtain hp | rfl := hp
    · exact hsettled p hp
    · rw [htag]
      exact honLoop r hon

/-- The delivery is acked, or its handler is on the loop and will return. -/
structure Pledged (w : World CpuOp CpuOp.Ans PyExc σ) (s : CpuProcess σ) (c : Consumer)
    (deliveryTag : ℕ) : Prop where
  begun : deliveryTag ≤ s.begun c
  notNacked : (c, .nack deliveryTag false) ∉ s.settled
  kept : (c, .ack deliveryTag) ∈ s.settled ∨
    ∃ coro, s.loop = some ⟨c, deliveryTag, coro⟩ ∧ (run w coro s.world).1.isOk = true

theorem Pledged.step (hp : Pledged w s c deliveryTag) (ht : Tagged s) (h : Moved w s t) :
    Pledged w t c deliveryTag := by
  have hbegun : deliveryTag ≤ t.begun c := hp.begun.trans (h.begun_le c)
  cases h with
  | same _ hl hs hw =>
    refine ⟨hbegun, ?_, ?_⟩
    · rw [hs]
      exact hp.notNacked
    · rw [hs, hl, hw]
      exact hp.kept
  | begins d coro hfree _ hl hs _ =>
    refine ⟨hbegun, by rw [hs]; exact hp.notNacked, ?_⟩
    obtain hack | ⟨coro', hon, -⟩ := hp.kept
    · exact .inl (hs ▸ hack)
    · rw [hfree] at hon
      cases hon
  | rejects d _ hl hs hw =>
    refine ⟨hbegun, fun hn => ?_, ?_⟩
    · rw [hs, List.mem_append, List.mem_singleton] at hn
      obtain hn | hn := hn
      · exact hp.notNacked hn
      · -- the delivery that is nacked has begun only now
        obtain ⟨rfl, htag⟩ := Prod.mk.inj hn
        have hle : deliveryTag ≤ s.begun c := hp.begun
        have heq : deliveryTag = s.begun c + 1 := (Settlement.nack.inj htag).1
        omega
    · rw [hs, hl, hw]
      exact hp.kept.imp_left fun hack => List.mem_append_left _ hack
  | awaits r coro hon _ hl hs hrun =>
    refine ⟨hbegun, by rw [hs]; exact hp.notNacked, ?_⟩
    obtain hack | ⟨coro', hon', hok⟩ := hp.kept
    · exact .inl (hs ▸ hack)
    · obtain rfl := Option.some.inj (hon.symm.trans hon')
      exact .inr ⟨coro, hl, by rw [hrun]; exact hok⟩
  | ends r x hon _ hl hs hx =>
    obtain hack | ⟨coro, hon', hok⟩ := hp.kept
    · refine ⟨hbegun, fun hn => ?_, .inl ?_⟩
      · rw [hs, List.mem_append, List.mem_singleton] at hn
        obtain hn | hn := hn
        · exact hp.notNacked hn
        · -- what is on the loop is another delivery
          obtain ⟨rfl, rfl⟩ := Prod.mk.inj hn
          have htag : r.deliveryTag = deliveryTag := by
            split at hx
            · cases hx
            · exact (Settlement.nack.inj hx).1.symm
          exact ht.unsettled r hon _ hack rfl htag.symm
      · rw [hs]
        exact List.mem_append_left _ hack
    · obtain rfl := Option.some.inj (hon.symm.trans hon')
      have hx' : x = .ack deliveryTag := by rw [hx, if_pos hok]
      refine ⟨hbegun, fun hn => ?_, .inl ?_⟩
      · rw [hs, hx', List.mem_append, List.mem_singleton] at hn
        obtain hn | hn := hn
        · exact hp.notNacked hn
        · cases hn
      · rw [hs, hx']
        exact List.mem_append_right _ (List.mem_singleton_self _)

theorem Tagged.foldl (ht : Tagged s) (steps : List CpuStep) :
    Tagged (steps.foldl (CpuProcess.step C w) s) := by
  induction steps generalizing s with
  | nil => exact ht
  | cons i steps ih => exact ih (ht.step (moved_step s i))

theorem tagged_after (world : σ) (steps : List CpuStep) : Tagged (after C w world steps) :=
  Tagged.foldl ⟨by simp [started], by simp [started], by simp [started]⟩ steps

theorem settled_kept_foldl (s : CpuProcess σ) (steps : List CpuStep) :
    s.settled <+: (steps.foldl (step C w) s).settled := by
  induction steps generalizing s with
  | nil => exact List.prefix_refl _
  | cons i steps ih => exact (moved_step s i).settled_kept.trans (ih _)

theorem settled_kept_iterate (s : CpuProcess σ) (n : ℕ) :
    s.settled <+: ((turn w)^[n] s).settled := by
  induction n generalizing s with
  | zero => exact List.prefix_refl _
  | succ n ih => exact (moved_turn s).settled_kept.trans (ih _)

theorem Pledged.foldl (hp : Pledged w s c deliveryTag) (ht : Tagged s) (steps : List CpuStep) :
    Pledged w (steps.foldl (CpuProcess.step C w) s) c deliveryTag := by
  induction steps generalizing s with
  | nil => exact hp
  | cons i steps ih => exact ih (hp.step ht (moved_step s i)) (ht.step (moved_step s i))

theorem Pledged.iterate (hp : Pledged w s c deliveryTag) (ht : Tagged s) (n : ℕ) :
    Pledged w ((turn w)^[n] s) c deliveryTag := by
  induction n generalizing s with
  | zero => exact hp
  | succ n ih => exact ih (hp.step ht (moved_turn s)) (ht.step (moved_turn s))

theorem exists_loop_free (s : CpuProcess σ) : ∃ n, ((turn w)^[n] s).loop = none := by
  cases hl : s.loop with
  | none => exact ⟨0, hl⟩
  | some r =>
    -- by induction on the handler: each turn takes one await off it
    obtain ⟨c, tag, coro⟩ := r
    induction coro generalizing s with
    | ret u => exact ⟨1, by simp [turn, hl]⟩
    | raise e => exact ⟨1, by simp [turn, hl]⟩
    | await op k ih =>
      have hturn : (s.turn w).loop = some ⟨c, tag, k (w op s.world).1⟩ := by
        simp only [turn, hl, next]
      obtain ⟨n, hn⟩ := ih (w op s.world).1 (s.turn w) hturn
      exact ⟨n + 1, hn⟩

theorem Pledged.acked (hp : Pledged w s c deliveryTag) (ht : Tagged s) :
    Acked w s c deliveryTag := by
  obtain ⟨n, hfree⟩ := exists_loop_free (w := w) s
  have hend := hp.iterate ht n
  refine ⟨n, hend.kept.resolve_right ?_, hend.notNacked⟩
  rintro ⟨coro, hon, -⟩
  rw [hfree] at hon
  cases hon

/-- A message that begins on a free loop, and whose handler would return, is pledged. -/
theorem pledged_start (ht : Tagged s) (hm : Takes C w s c msg) (hfree : s.loop = none) :
    Pledged w (step C w s (.start c)) c (s.begun c + 1) := by
  obtain ⟨hn, coro, hc, hok⟩ := hm
  have htag : (s.take c).begun c = s.begun c + 1 := Function.update_self ..
  rw [step_start hn, onMessage_of_ok (r := ⟨c, s.begun c + 1, coro⟩)
    (by simp [process, hc, take, hfree, runUntilComplete])]
  refine ⟨htag.ge, fun hnack => ?_, .inr ⟨coro, rfl, hok⟩⟩
  have hle : s.begun c + 1 ≤ s.begun c := ht.settled _ hnack
  omega

theorem nacked_start (hm : Takes C w s c msg) (hbusy : s.loop ≠ none) :
    (c, .nack (s.begun c + 1) false) ∈ (step C w s (.start c)).settled := by
  obtain ⟨hn, coro, hc, -⟩ := hm
  obtain ⟨r, hl⟩ := Option.ne_none_iff_exists'.mp hbusy
  have htag : (s.take c).begun c = s.begun c + 1 := Function.update_self ..
  rw [step_start hn, onMessage_of_error (e := .other "This event loop is already running")
    (by simp [process, hc, take, hl, runUntilComplete]), htag]
  exact List.mem_append_right _ (List.mem_singleton_self _)

theorem not_acked_of_nacked (h : (c, .nack deliveryTag false) ∈ s.settled) :
    ¬ Acked w s c deliveryTag := by
  rintro ⟨n, -, hn⟩
  exact hn ((settled_kept_iterate s n).subset h)

end CpuProcess

open CpuProcess in
/-- In every run of the process, all messages whose handlers would return are acked exactly when
none of them begins while the loop is running the handler of another one. -/
theorem returning_acked_iff {σ : Type} (C : Chunking) (w : World CpuOp CpuOp.Ans PyExc σ)
    (world : σ) (steps : List CpuStep) :
    (∀ pre c msg, pre ++ [.start c] <+: steps → Takes C w (after C w world pre) c msg →
        Acked w (after C w world steps) c ((after C w world pre).begun c + 1)) ↔
      ∀ pre c msg, pre ++ [.start c] <+: steps → Takes C w (after C w world pre) c msg →
        (after C w world pre).loop = none := by
  have hafter : ∀ pre rest c, after C w world (pre ++ [.start c] ++ rest) =
      rest.foldl (step C w) (step C w (after C w world pre) (.start c)) := by
    intro pre rest c
    simp [after, List.foldl_append]
  apply forall₃_congr
  intro pre c msg
  apply forall₂_congr
  rintro ⟨rest, rfl⟩ hm
  have ht : Tagged (after C w world pre) := tagged_after world pre
  rw [hafter]
  constructor
  · intro hack
    by_contra hbusy
    exact not_acked_of_nacked
      ((settled_kept_foldl _ rest).subset (nacked_start hm hbusy)) hack
  · intro hfree
    have ht' := ht.step (moved_step (C := C) (w := w) _ (.start c))
    exact ((pledged_start ht hm hfree).foldl ht' rest).acked
      (ht'.foldl rest)

/-- The pool of the process, with the tables of the posts, the chunks and the jobs. -/
def cpuWorld (ω : JobOracle) : World CpuOp CpuOp.Ans PyExc (ChunkDb × JobStore)
  | .chunk op, s => ((chunkWorld op s.1).1, ((chunkWorld op s.1).2, s.2))
  | .job op, s => ((jobWorld ω op s.2).1, (s.1, (jobWorld ω op s.2).2))

/-- A title to chunk, and a search to run. -/
def overlapWorld : ChunkDb × JobStore :=
  (unchunkedDb, ⟨fun i => if i = "job" then some plainJob else none, []⟩)

def chunkMessage : CpuMessage where
  body := some (.chunk titleTask)
  ids i := String.ofList (List.replicate i 'a')
  eventId := "event"
  span := none

def searchMessage : CpuMessage where
  body := some (.searchRun ⟨⟨"task", none, none, none⟩, "job"⟩)
  ids i := String.ofList (List.replicate i 'b')
  eventId := "event"
  span := none

/-- The search is taken while the chunk handler awaits the database. -/
def overlap : List CpuStep :=
  [.arrive .chunk chunkMessage, .arrive .search searchMessage, .start .chunk, .turn,
    .start .search]

open CpuProcess in
theorem overlapping_search_nacked :
    ¬ ∀ pre c msg, pre ++ [.start c] <+: overlap →
      Takes shortChunking (cpuWorld emptyAnswers)
        (after shortChunking (cpuWorld emptyAnswers) overlapWorld pre) c msg →
      Acked (cpuWorld emptyAnswers)
        (after shortChunking (cpuWorld emptyAnswers) overlapWorld overlap) c
        ((after shortChunking (cpuWorld emptyAnswers) overlapWorld pre).begun c + 1) := by
  intro h
  have htakes : Takes shortChunking (cpuWorld emptyAnswers)
      (after shortChunking (cpuWorld emptyAnswers) overlapWorld (overlap.take 4)) .search
      searchMessage := ⟨rfl, _, rfl, rfl⟩
  have hnack : (Consumer.search, Settlement.nack 1 false) ∈
      (after shortChunking (cpuWorld emptyAnswers) overlapWorld overlap).settled :=
    List.mem_singleton_self _
  exact not_acked_of_nacked hnack (h (overlap.take 4) .search _ (List.prefix_refl overlap) htakes)

end RagPipeline
