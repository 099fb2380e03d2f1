import Mathlib.Data.List.Count
import Mathlib.Data.List.Dedup
import Mathlib.Data.List.Nodup
import Mathlib.Logic.Function.Basic
import Mathlib.Tactic.SplitIfs
import RagPipeline.Lib.Coroutine

/-! A message broker: exchanges route messages to queues, and a message that is rejected goes on to
the dead-letter exchange of its queue. -/

namespace Broker

inductive ExchangeKind where
  | direct
  | topic
  | fanout
deriving DecidableEq

structure ExchangeDef where
  kind : ExchangeKind
  durable : Bool
deriving DecidableEq

structure QueueDef where
  durable : Bool
  deadLetterExchange : Option String
  deadLetterRoutingKey : Option String
  /-- All further arguments. -/
  others : List (String × String)
deriving DecidableEq

structure Binding where
  exchange : String
  routingKey : String
  queue : String
deriving DecidableEq

structure Message (B : Type) where
  routingKey : String
  body : B

structure Delivery (B : Type) where
  queue : String
  message : Message B

structure State (B : Type) where
  exchanges : String → Option ExchangeDef
  queues : String → Option QueueDef
  bindings : List Binding
  ready : String → List (Message B)
  unacked : List (Delivery B)

inductive Op where
  | declareExchange (name : String) (e : ExchangeDef)
  | declareQueue (name : String) (q : QueueDef)
  /-- A passive declaration. -/
  | checkQueue (name : String)
  | bindQueue (queue exchange routingKey : String)
  | deleteQueue (name : String)
deriving DecidableEq

inductive Exc where
  | preconditionFailed
  | notFound
  | connection
  | other (message : String)
deriving DecidableEq

abbrev Prog := Coro Op (fun _ => Unit) Exc

def ask (op : Op) : Prog Unit := Coro.call op

variable {B : Type}

def State.delete (s : State B) (name : String) : State B where
  exchanges := s.exchanges
  queues := Function.update s.queues name none
  bindings := s.bindings.filter fun b => b.queue ≠ name
  ready := Function.update s.ready name []
  unacked := s.unacked.filter fun d => d.queue ≠ name

abbrev Answer (B : Type) := Except Exc Unit × State B

/-- A second declaration must be like the first. -/
def State.declareExchange (s : State B) (name : String) (e : ExchangeDef) : Answer B :=
  match s.exchanges name with
  | none => (.ok (), { s with exchanges := Function.update s.exchanges name (some e) })
  | some e' => if e' = e then (.ok (), s) else (.error .preconditionFailed, s)

def State.declareQueue (s : State B) (name : String) (d : QueueDef) : Answer B :=
  match s.queues name with
  | none => (.ok (), { s with queues := Function.update s.queues name (some d) })
  | some d' => if d' = d then (.ok (), s) else (.error .preconditionFailed, s)

def State.checkQueue (s : State B) (name : String) : Answer B :=
  if s.queues name = none then (.error .notFound, s) else (.ok (), s)

def State.bindQueue (s : State B) (queue exchange routingKey : String) : Answer B :=
  if s.exchanges exchange = none ∨ s.queues queue = none then (.error .notFound, s)
  else (.ok (), { s with bindings := s.bindings.insert ⟨exchange, routingKey, queue⟩ })

def respond : Coro.World Op (fun _ => Unit) Exc (State B)
  | .declareExchange name e, s => s.declareExchange name e
  | .declareQueue name d, s => s.declareQueue name d
  | .checkQueue name, s => s.checkQueue name
  | .bindQueue queue exchange routingKey, s => s.bindQueue queue exchange routingKey
  | .deleteQueue name, s => (.ok (), s.delete name)

/-- `fits` tells whether the pattern of a topic binding fits a routing key. -/
def ExchangeKind.matches (fits : String → String → Bool) : ExchangeKind → String → String → Bool
  | .direct, pattern, key => pattern = key
  | .topic, pattern, key => fits pattern key
  | .fanout, _, _ => true

section Routing

variable (fits : String → String → Bool)

/-- The queues that get a message, each of them once. -/
def State.routes (s : State B) (exchange routingKey : String) : List String :=
  match s.exchanges exchange with
  | none => []
  | some e => ((s.bindings.filter fun b =>
      b.exchange = exchange ∧ e.kind.matches fits b.routingKey routingKey ∧
        (s.queues b.queue).isSome).map Binding.queue).dedup

def State.publish (s : State B) (exchange : String) (m : Message B) : State B :=
  let queues := s.routes fits exchange m.routingKey
  { s with ready := fun q => if q ∈ queues then s.ready q ++ [m] else s.ready q }

@[simp] theorem State.unacked_publish (s : State B) (exchange : String) (m : Message B) :
    (s.publish fits exchange m).unacked = s.unacked := rfl

def State.deadLetter (s : State B) (queue : String) (m : Message B) :
    Option (String × Message B) :=
  (s.queues queue).bind fun q => q.deadLetterExchange.map fun exchange =>
    (exchange, { m with routingKey := q.deadLetterRoutingKey.getD m.routingKey })

end Routing

/-- The queue `q` stays as it is declared and bound. -/
structure KeepsLayout (q : String) (s t : State B) : Prop where
  exchanges : ∀ x e, s.exchanges x = some e → t.exchanges x = some e
  queue : ∀ d, s.queues q = some d → t.queues q = some d
  bindings : ∀ b ∈ s.bindings, b.queue = q → b ∈ t.bindings

/-- Its messages stay as they are, too. -/
structure Keeps (q : String) (s t : State B) : Prop extends KeepsLayout q s t where
  ready : t.ready q = s.ready q
  unacked : (t.unacked.filter fun d => d.queue = q) = s.unacked.filter fun d => d.queue = q

variable {q : String} {s t u : State B}

theorem KeepsLayout.refl (q : String) (s : State B) : KeepsLayout q s s :=
  ⟨fun _ _ h => h, fun _ h => h, fun _ h _ => h⟩

theorem Keeps.refl (q : String) (s : State B) : Keeps q s s := ⟨KeepsLayout.refl q s, rfl, rfl⟩

theorem KeepsLayout.trans (h : KeepsLayout q s t) (h' : KeepsLayout q t u) :
    KeepsLayout q s u where
  exchanges x e hx := h'.exchanges x e (h.exchanges x e hx)
  queue d hd := h'.queue d (h.queue d hd)
  bindings b hb hq := h'.bindings b (h.bindings b hb hq) hq

theorem Keeps.trans (h : Keeps q s t) (h' : Keeps q t u) : Keeps q s u where
  toKeepsLayout := h.toKeepsLayout.trans h'.toKeepsLayout
  ready := h'.ready.trans h.ready
  unacked := h'.unacked.trans h.unacked

theorem update_of_none {α : Type} {f : String → Option α} {x y : String} {a b : α}
    (hnone : f x = none) (hy : f y = some a) : Function.update f x (some b) y = some a := by
  have hne : y ≠ x := fun h => by
    rw [h, hnone] at hy
    cases hy
  rw [Function.update_of_ne hne, hy]

theorem keeps_delete {name : String} (h : q ≠ name) : Keeps q s (s.delete name) where
  exchanges _ _ hx := hx
  queue d hd := by
    simp only [State.delete, Function.update_of_ne h]
    exact hd
  bindings b hb hq := by
    rw [State.delete, List.mem_filter, decide_eq_true_eq]
    exact ⟨hb, hq ▸ h⟩
  ready := by simp only [State.delete, Function.update_of_ne h]
  unacked := by
    rw [State.delete, List.filter_filter]
    apply List.filter_congr
    intro d _
    rw [Bool.eq_iff_iff, Bool.and_eq_true, decide_eq_true_eq, decide_eq_true_eq]
    exact ⟨fun hd => hd.1, fun hd => ⟨hd, hd ▸ h⟩⟩

theorem keeps_declareExchange {name : String} {e : ExchangeDef} :
    Keeps q s (s.declareExchange name e).2 := by
  unfold State.declareExchange
  split
  next hnone => exact { Keeps.refl q s with exchanges := fun x e' hx => update_of_none hnone hx }
  next e' _ => split_ifs <;> exact Keeps.refl q s

theorem keeps_declareQueue {name : String} {d : QueueDef} :
    Keeps q s (s.declareQueue name d).2 := by
  unfold State.declareQueue
  split
  next hnone => exact { Keeps.refl q s with queue := fun d' hd => update_of_none hnone hd }
  next d' _ => split_ifs <;> exact Keeps.refl q s

theorem checkQueue_snd (name : String) : (s.checkQueue name).2 = s := by
  unfold State.checkQueue
  split_ifs <;> rfl

theorem keeps_bindQueue {queue exchange routingKey : String} :
    Keeps q s (s.bindQueue queue exchange routingKey).2 := by
  unfold State.bindQueue
  split_ifs
  · exact Keeps.refl q s
  · exact { Keeps.refl q s with bindings := fun b hb _ => List.mem_insert_of_mem hb }

theorem keeps_respond {op : Op} (h : op ≠ .deleteQueue q) : Keeps q s (respond op s).2 := by
  cases op with
  | declareExchange name e => exact keeps_declareExchange
  | declareQueue name d => exact keeps_declareQueue
  | checkQueue name =>
    rw [respond, checkQueue_snd]
    exact Keeps.refl q s
  | bindQueue queue exchange routingKey => exact keeps_bindQueue
  | deleteQueue name => exact keeps_delete fun hname => h (congrArg Op.deleteQueue hname.symm)

theorem exchanges_respond {op : Op} {x : String} {e : ExchangeDef} (h : s.exchanges x = some e) :
    (respond op s).2.exchanges x = some e := by
  by_cases hop : op = .deleteQueue ""
  · rw [hop]
    exact h
  · exact (keeps_respond hop).exchanges x e h

theorem exchanges_respond_of_ne {op : Op} {x : String} (h : ∀ e, op ≠ .declareExchange x e) :
    (respond op s).2.exchanges x = s.exchanges x := by
  cases op with
  | declareExchange name e =>
    have hne : x ≠ name := fun hx => h e (congrArg (Op.declareExchange · e) hx.symm)
    simp only [respond, State.declareExchange]
    split
    · exact Function.update_of_ne hne _ _
    · split_ifs <;> rfl
  | declareQueue name d =>
    simp only [respond, State.declareQueue]
    split
    · rfl
    · split_ifs <;> rfl
  | checkQueue name => rw [respond, checkQueue_snd]
  | bindQueue queue exchange routingKey =>
    simp only [respond, State.bindQueue]
    split_ifs <;> rfl
  | deleteQueue name => rfl

theorem queues_respond_of_ne {op : Op} (h : ∀ d, op ≠ .declareQueue q d)
    (hdelete : op ≠ .deleteQueue q) : (respond op s).2.queues q = s.queues q := by
  cases op with
  | declareExchange name e =>
    simp only [respond, State.declareExchange]
    split
    · rfl
    · split_ifs <;> rfl
  | declareQueue name d =>
    have hne : q ≠ name := fun hq => h d (congrArg (Op.declareQueue · d) hq.symm)
    simp only [respond, State.declareQueue]
    split
    · exact Function.update_of_ne hne _ _
    · split_ifs <;> rfl
  | checkQueue name => rw [respond, checkQueue_snd]
  | bindQueue queue exchange routingKey =>
    simp only [respond, State.bindQueue]
    split_ifs <;> rfl
  | deleteQueue name =>
    have hne : q ≠ name := fun hq => hdelete (congrArg Op.deleteQueue hq.symm)
    exact Function.update_of_ne hne _ _

theorem respond_declareExchange {name : String} {e : ExchangeDef}
    (h : s.exchanges name = none ∨ s.exchanges name = some e) :
    (respond (.declareExchange name e) s).1 = .ok () ∧
      (respond (.declareExchange name e) s).2.exchanges name = some e := by
  obtain h | h := h <;> simp [respond, State.declareExchange, h]

theorem respond_declareQueue {d : QueueDef} (h : s.queues q = none ∨ s.queues q = some d) :
    (respond (.declareQueue q d) s).1 = .ok () ∧
      (respond (.declareQueue q d) s).2.queues q = some d := by
  obtain h | h := h <;> simp [respond, State.declareQueue, h]

theorem respond_declareQueue_stale {d d' : QueueDef} (h : s.queues q = some d') (hne : d' ≠ d) :
    respond (.declareQueue q d) s = (.error .preconditionFailed, s) := by
  simp [respond, State.declareQueue, h, hne]

theorem respond_checkQueue {d : QueueDef} (h : s.queues q = some d) :
    respond (.checkQueue q) s = (.ok (), s) := by
  simp [respond, State.checkQueue, h]

theorem respond_bindQueue {exchange routingKey : String} {e : ExchangeDef} {d : QueueDef}
    (hx : s.exchanges exchange = some e) (hq : s.queues q = some d) :
    (respond (.bindQueue q exchange routingKey) s).1 = .ok () ∧
      ⟨exchange, routingKey, q⟩ ∈ (respond (.bindQueue q exchange routingKey) s).2.bindings := by
  simp [respond, State.bindQueue, hx, hq]

/-- What is declared and bound already is left as it is. -/
theorem respond_declareExchange_same {name : String} {e : ExchangeDef}
    (h : s.exchanges name = some e) : respond (.declareExchange name e) s = (.ok (), s) := by
  simp [respond, State.declareExchange, h]

theorem respond_declareQueue_same {d : QueueDef} (h : s.queues q = some d) :
    respond (.declareQueue q d) s = (.ok (), s) := by
  simp [respond, State.declareQueue, h]

theorem respond_bindQueue_same {exchange routingKey : String} {e : ExchangeDef} {d : QueueDef}
    (hx : s.exchanges exchange = some e) (hq : s.queues q = some d)
    (hb : ⟨exchange, routingKey, q⟩ ∈ s.bindings) :
    respond (.bindQueue q exchange routingKey) s = (.ok (), s) := by
  simp [respond, State.bindQueue, hx, hq, List.insert_of_mem hb]

section Routing

variable {fits : String → String → Bool} {exchange routingKey : String}

theorem nodup_routes (fits : String → String → Bool) (s : State B) (exchange routingKey : String) :
    (s.routes fits exchange routingKey).Nodup := by
  unfold State.routes
  split
  · exact List.nodup_nil
  · exact List.nodup_dedup _

theorem mem_routes {pattern : String} {e : ExchangeDef} {d : QueueDef}
    (hx : s.exchanges exchange = some e) (hq : s.queues q = some d)
    (hb : ⟨exchange, pattern, q⟩ ∈ s.bindings)
    (hmatch : e.kind.matches fits pattern routingKey) :
    q ∈ s.routes fits exchange routingKey := by
  rw [State.routes, hx]
  apply List.mem_dedup.mpr
  apply List.mem_map.mpr
  exact ⟨_, List.mem_filter.mpr ⟨hb, by simp [hmatch, hq]⟩, rfl⟩

end Routing

/-- The broker with an account of what became of the messages, by queue. -/
structure Ledger (B : Type) extends State B where
  arrived : List (String × B)
  acked : List (String × B)
  rejected : List (String × B)

section Moves

variable (fits : String → String → Bool)

def Ledger.publish (s : Ledger B) (exchange : String) (m : Message B) : Ledger B :=
  { s with
    toState := s.toState.publish fits exchange m
    arrived := s.arrived ++ (s.routes fits exchange m.routingKey).map fun q => (q, m.body) }

def Ledger.reject (s : Ledger B) (d : Delivery B) (others : List (Delivery B)) : Ledger B :=
  let s' := { s with
    unacked := others
    rejected := s.rejected ++ [(d.queue, d.message.body)] }
  match s.deadLetter d.queue d.message with
  | none => s'
  | some (exchange, m) => s'.publish fits exchange m

/-- What may happen to the messages, if none is taken from the queues in `dead`. -/
inductive Moves (dead : List String) (s : Ledger B) : Ledger B → Prop
  | published (exchange : String) (m : Message B) : Moves dead s (s.publish fits exchange m)
  | delivered {q : String} {m : Message B} {rest : List (Message B)} (hq : q ∉ dead)
      (h : s.ready q = m :: rest) : Moves dead s
        { s with
          ready := Function.update s.ready q rest
          unacked := s.unacked ++ [⟨q, m⟩] }
  | acked {before after : List (Delivery B)} {d : Delivery B}
      (h : s.unacked = before ++ d :: after) : Moves dead s
        { s with
          unacked := before ++ after
          acked := s.acked ++ [(d.queue, d.message.body)] }
  | requeued {before after : List (Delivery B)} {d : Delivery B}
      (h : s.unacked = before ++ d :: after) : Moves dead s
        { s with
          unacked := before ++ after
          ready := Function.update s.ready d.queue (d.message :: s.ready d.queue) }
  | rejected {before after : List (Delivery B)} {d : Delivery B}
      (h : s.unacked = before ++ d :: after) : Moves dead s (s.reject fits d (before ++ after))

end Moves

variable [DecidableEq B]

/-- How often `x` is ready in a queue. -/
def State.waiting (s : State B) (q : String) (x : B) : ℕ :=
  (s.ready q).countP fun m => m.body = x

/-- How often `x` is in a queue, or with one of its readers. -/
def State.held (s : State B) (q : String) (x : B) : ℕ :=
  s.waiting q x + s.unacked.countP fun d => d.queue = q ∧ d.message.body = x

/-- From `s` to `t` no message of the queue got lost, or came to be there twice. -/
def Accounted (q : String) (x : B) (s t : Ledger B) : Prop :=
  t.held q x + t.acked.count (q, x) + t.rejected.count (q, x) + s.arrived.count (q, x) =
    s.held q x + s.acked.count (q, x) + s.rejected.count (q, x) + t.arrived.count (q, x)

/-- From `s` to `t` what was rejected from `q` came to be in `dlq`. -/
def DeadLettered (q dlq : String) (x : B) (s t : Ledger B) : Prop :=
  s.waiting dlq x + t.rejected.count (q, x) ≤ t.waiting dlq x + s.rejected.count (q, x)

section Accounts

variable {x : B} {dlq : String} {s t u : Ledger B}

theorem Accounted.refl (q : String) (x : B) (s : Ledger B) : Accounted q x s s := rfl

theorem Accounted.trans (h : Accounted q x s t) (h' : Accounted q x t u) : Accounted q x s u := by
  unfold Accounted at h h' ⊢
  omega

theorem DeadLettered.refl (q dlq : String) (x : B) (s : Ledger B) : DeadLettered q dlq x s s :=
  Nat.le_refl _

theorem DeadLettered.trans (h : DeadLettered q dlq x s t) (h' : DeadLettered q dlq x t u) :
    DeadLettered q dlq x s u := by
  unfold DeadLettered at h h' ⊢
  omega

theorem Keeps.waiting {s t : State B} (h : Keeps q s t) (x : B) :
    t.waiting q x = s.waiting q x := by
  rw [State.waiting, State.waiting, h.ready]

theorem Keeps.held {s t : State B} (h : Keeps q s t) (x : B) : t.held q x = s.held q x := by
  have hcount : ∀ l : List (Delivery B), (l.countP fun d => d.queue = q ∧ d.message.body = x) =
      (l.filter fun d => d.queue = q).countP fun d => d.message.body = x := by
    intro l
    rw [List.countP_filter]
    apply List.countP_congr
    intro d _
    simp [and_comm]
  rw [State.held, State.held, h.waiting, hcount, hcount, h.unacked]

variable {fits : String → String → Bool}

theorem count_arrivals (x : B) (b : B) {l : List String} (h : l.Nodup) :
    (l.map fun q => (q, b)).count (q, x) = if q ∈ l ∧ b = x then 1 else 0 := by
  by_cases hb : b = x
  · subst hb
    have hinj : Function.Injective fun q : String => (q, b) := fun _ _ h => (Prod.mk.inj h).1
    rw [List.count_map_of_injective _ _ hinj]
    simp only [and_true]
    split_ifs with hq
    · exact List.count_eq_one_of_mem h hq
    · exact List.count_eq_zero_of_not_mem hq
  · rw [if_neg fun hq => hb hq.2]
    apply List.count_eq_zero_of_not_mem
    intro hmem
    obtain ⟨q', -, heq⟩ := List.mem_map.mp hmem
    exact hb (Prod.mk.inj heq).2

variable (fits) in
theorem waiting_publish (s : State B) (exchange : String) (m : Message B) (q : String) (x : B) :
    (s.publish fits exchange m).waiting q x =
      s.waiting q x +
        if q ∈ s.routes fits exchange m.routingKey ∧ m.body = x then 1 else 0 := by
  unfold State.publish State.waiting
  by_cases hq : q ∈ s.routes fits exchange m.routingKey
  · by_cases hx : m.body = x <;> simp [hq, hx]
  · simp [hq]

theorem balanced_publish (s : Ledger B) (exchange : String) (m : Message B) (q : String) (x : B) :
    Accounted q x s (s.publish fits exchange m) := by
  have hwaiting := waiting_publish fits s.toState exchange m q x
  have harrived := count_arrivals x m.body (nodup_routes fits s.toState exchange m.routingKey)
    (q := q)
  simp only [Accounted, State.held, Ledger.publish, List.count_append, harrived, hwaiting,
    State.unacked_publish]
  omega

theorem balanced_settled {before after : List (Delivery B)} {d : Delivery B}
    (h : s.unacked = before ++ d :: after) (q : String) (x : B) :
    Accounted q x s { s with
      unacked := before ++ after
      rejected := s.rejected ++ [(d.queue, d.message.body)] } := by
  by_cases hd : d.queue = q ∧ d.message.body = x
  · simp [Accounted, State.held, State.waiting, h, hd]
    omega
  · have hne : ¬(d.queue, d.message.body) = (q, x) := fun heq => hd (Prod.mk.inj heq)
    simp [Accounted, State.held, State.waiting, h, hd, hne]

theorem accounted_moves {dead : List String} (h : Moves fits dead s t) (q : String) (x : B) :
    Accounted q x s t := by
  cases h with
  | published exchange m => exact balanced_publish s exchange m q x
  | @delivered q' m rest hq h =>
    by_cases hq' : q = q'
    · subst hq'
      by_cases hx : m.body = x
      · simp [Accounted, State.held, State.waiting, h, hx]
        omega
      · simp [Accounted, State.held, State.waiting, h, hx]
    · simp [Accounted, State.held, State.waiting, hq', Ne.symm hq']
  | @acked before after d h =>
    by_cases hd : d.queue = q ∧ d.message.body = x
    · simp [Accounted, State.held, State.waiting, h, hd]
      omega
    · have hne : ¬(d.queue, d.message.body) = (q, x) := fun heq => hd (Prod.mk.inj heq)
      simp [Accounted, State.held, State.waiting, h, hd, hne]
  | @requeued before after d h =>
    by_cases hq' : d.queue = q
    · subst hq'
      by_cases hx : d.message.body = x
      · simp [Accounted, State.held, State.waiting, h, hx]
        omega
      · simp [Accounted, State.held, State.waiting, h, hx]
    · simp [Accounted, State.held, State.waiting, h, hq', Ne.symm hq']
  | @rejected before after d h =>
    have hsettled := balanced_settled h q x
    unfold Ledger.reject
    split
    · exact hsettled
    · exact hsettled.trans (balanced_publish _ _ _ q x)

/-- The dead-letter exchange of `q` has the queue `dlq` for all that is rejected. -/
def State.DeadLettersTo (fits : String → String → Bool) (s : State B) (q dlq : String) : Prop :=
  ∀ m : Message B, ∃ exchange m', s.deadLetter q m = some (exchange, m') ∧ m'.body = m.body ∧
    dlq ∈ s.routes fits exchange m'.routingKey

theorem deadLettered_publish (s : Ledger B) (exchange : String) (m : Message B) (q dlq : String)
    (x : B) : DeadLettered q dlq x s (s.publish fits exchange m) := by
  have hwaiting := waiting_publish fits s.toState exchange m dlq x
  simp only [DeadLettered, Ledger.publish, hwaiting]
  omega

omit [DecidableEq B] in
theorem rejected_reject (s : Ledger B) (d : Delivery B) (others : List (Delivery B)) :
    (s.reject fits d others).rejected = s.rejected ++ [(d.queue, d.message.body)] := by
  unfold Ledger.reject
  split <;> rfl

variable (fits) in
theorem waiting_reject_some {d : Delivery B} (others : List (Delivery B)) {exchange : String}
    {m : Message B} (h : s.deadLetter d.queue d.message = some (exchange, m)) (q : String) (x : B) :
    (s.reject fits d others).waiting q x =
      s.waiting q x +
        if q ∈ s.routes fits exchange m.routingKey ∧ m.body = x then 1 else 0 := by
  rw [← waiting_publish, Ledger.reject, h]
  rfl

variable (fits) in
theorem waiting_le_reject (s : Ledger B) (d : Delivery B) (others : List (Delivery B)) (q : String)
    (x : B) : s.waiting q x ≤ (s.reject fits d others).waiting q x := by
  cases h : s.deadLetter d.queue d.message with
  | none =>
    rw [Ledger.reject, h]
    exact Nat.le_refl _
  | some p =>
    have hwaiting := waiting_reject_some fits others h q x
    omega

theorem deadLettered_moves {dead : List String} (hdead : dlq ∈ dead)
    (hto : s.DeadLettersTo fits q dlq) (h : Moves fits dead s t) (x : B) :
    DeadLettered q dlq x s t := by
  cases h with
  | published exchange m => exact deadLettered_publish s exchange m q dlq x
  | @delivered q' m rest hq h =>
    have hne : dlq ≠ q' := fun heq => hq (heq ▸ hdead)
    simp [DeadLettered, State.waiting, hne]
  | acked h => exact DeadLettered.refl q dlq x s
  | @requeued before after d h =>
    by_cases hq : dlq = d.queue
    · subst hq
      simp only [DeadLettered, State.waiting, Function.update_self, List.countP_cons]
      omega
    · simp [DeadLettered, State.waiting, hq]
  | @rejected before after d h =>
    rw [DeadLettered, rejected_reject, List.count_append, List.count_singleton]
    by_cases hd : d.queue = q
    · subst hd
      obtain ⟨exchange, m, hm, hbody, hroute⟩ := hto d.message
      have hwaiting := waiting_reject_some fits (before ++ after) hm dlq x
      simp only [hroute, hbody, true_and] at hwaiting
      rw [hwaiting]
      by_cases hx : d.message.body = x
      · simp [hx]
        omega
      · simp [hx]
    · have hne : ¬(d.queue, d.message.body) = (q, x) := fun heq => hd (Prod.mk.inj heq).1
      have hle := waiting_le_reject fits s d (before ++ after) dlq x
      simp only [beq_iff_eq, hne, if_false]
      omega

omit [DecidableEq B] in
/-- Messages that come and go leave the queues as they are declared. -/
theorem layout_moves {dead : List String} (h : Moves fits dead s t) :
    t.exchanges = s.exchanges ∧ t.queues = s.queues ∧ t.bindings = s.bindings := by
  cases h with
  | rejected h =>
    unfold Ledger.reject
    split
    · exact ⟨rfl, rfl, rfl⟩
    · exact ⟨rfl, rfl, rfl⟩
  | _ => exact ⟨rfl, rfl, rfl⟩

omit [DecidableEq B] in
theorem keepsLayout_moves {dead : List String} (h : Moves fits dead s t) (q : String) :
    KeepsLayout q s.toState t.toState := by
  obtain ⟨hexchanges, hqueues, hbindings⟩ := layout_moves h
  constructor
  · exact fun x e hx => hexchanges ▸ hx
  · exact fun d hd => hqueues ▸ hd
  · exact fun b hb _ => hbindings ▸ hb

end Accounts

end Broker
