import Mathlib.Data.List.Infix
import Mathlib.Logic.Relation
import RagPipeline.Infrastructure.TaskQueue

namespace RagPipeline
open Coro Broker

/-- The broker, and the API processes that are starting up. -/
structure TaskSystem (B : Type) where
  ledger : Ledger B
  starts : List (Prog Unit)

def routingKeyFits (pattern key : String) : Bool :=
  topicMatch (routingWords pattern) (routingWords key)

namespace TaskSystem

variable {B : Type}

def idle (L : Ledger B) : TaskSystem B := ⟨L, []⟩

/-- What a declaration leaves. -/
def after (s : TaskSystem B) (op : Op) : Ledger B :=
  { s.ledger with toState := (respond op s.ledger.toState).2 }

/-- One step of the dispatchers, the workers, the broker or the starting processes. -/
inductive Step (T : Topology) (s : TaskSystem B) : TaskSystem B → Prop
  /-- A task is published, read or settled. Nothing reads the dead-letter queues. -/
  | task {L : Ledger B} (h : Moves routingKeyFits T.dlqQueues s.ledger L) :
      Step T s { s with ledger := L }
  | start : Step T s { s with starts := setupTopology T :: s.starts }
  | answered {before rest : List (Prog Unit)} {op : Op} {k : Except Exc Unit → Prog Unit}
      (h : s.starts = before ++ await op k :: rest) :
      Step T s ⟨s.after op, before ++ k (respond op s.ledger.toState).1 :: rest⟩
  /-- The connection is lost, before or after the broker did what it was asked. -/
  | disconnected {before rest : List (Prog Unit)} {op : Op} {k : Except Exc Unit → Prog Unit}
      (h : s.starts = before ++ await op k :: rest) (done : Bool) :
      Step T s ⟨if done then s.after op else s.ledger,
        before ++ k (.error .connection) :: rest⟩
  | killed {before rest : List (Prog Unit)} {p : Prog Unit} (h : s.starts = before ++ p :: rest) :
      Step T s { s with starts := before ++ rest }

abbrev Run (T : Topology) (s t : TaskSystem B) : Prop := Relation.ReflTransGen (Step T) s t

end TaskSystem

namespace Topology

variable {B : Type} {T : Topology} {s t : State B} {q : String} {op : Op}

section Programs

variable {A : Op → Except Exc Unit → Prop} {G : Op → Prop} {E : Exc → Prop}

theorem obeys_declareAndBind {b : Binding} {d : QueueDef} (hdeclare : G (.declareQueue b.queue d))
    (hbind : G (.bindQueue b.queue b.exchange b.routingKey))
    (hE : ∀ op e, op = .declareQueue b.queue d ∨
      op = .bindQueue b.queue b.exchange b.routingKey → A op (.error e) → E e) :
    Obeys A G E (ask (.declareQueue b.queue d) >>= fun _ =>
      ask (.bindQueue b.queue b.exchange b.routingKey)) := by
  apply Obeys.bind
  · exact obeys_call hdeclare fun e he => hE _ e (.inl rfl) he
  · exact fun _ => obeys_call hbind fun e he => hE _ e (.inr rfl) he

def NotRefused (A : Op → Except Exc Unit → Prop) (b : Binding) : Prop :=
  ∀ op, op = .declareQueue b.queue (workQueueDef b.queue) ∨
    op = .bindQueue b.queue b.exchange b.routingKey → ¬A op (.error .preconditionFailed)

/-- The `except` clause is reached only when the broker refuses. -/
theorem obeys_ensureWorkQueue {b : Binding} (hb : b ∈ T.workBindings)
    (hG : ∀ op, T.Asks op → (∀ q, op ≠ .deleteQueue q) → G op)
    (hdelete : G (.deleteQueue b.queue) ∨ NotRefused A b) :
    Obeys A G (fun _ => True) (ensureWorkQueue b) := by
  have hdeclare : G (.declareQueue b.queue (workQueueDef b.queue)) :=
    hG _ (.workQueue (List.mem_map_of_mem hb)) fun _ h => Op.noConfusion h
  have hbind : G (.bindQueue b.queue b.exchange b.routingKey) :=
    hG _ (.bind _ _ _) fun _ h => Op.noConfusion h
  have hbody : Obeys A G (fun e => e = .preconditionFailed → G (.deleteQueue b.queue))
      (ask (.declareQueue b.queue (workQueueDef b.queue)) >>= fun _ =>
        ask (.bindQueue b.queue b.exchange b.routingKey)) := by
    apply obeys_declareAndBind hdeclare hbind
    rintro op e hop he rfl
    exact hdelete.resolve_right fun h => h op hop he
  apply hbody.attempt
  intro e he
  cases e with
  | preconditionFailed =>
    have hcheck : G (.checkQueue b.queue) := hG _ (.check _) fun _ h => Op.noConfusion h
    apply Obeys.bind
    · exact obeys_call hcheck fun _ _ => trivial
    intro _
    apply Obeys.bind
    · exact obeys_call (he rfl) fun _ _ => trivial
    intro _
    exact obeys_declareAndBind hdeclare hbind fun _ _ _ _ => trivial
  | notFound => trivial
  | connection => trivial
  | other message => trivial

theorem obeys_setupTopology (hG : ∀ op, T.Asks op → (∀ q, op ≠ .deleteQueue q) → G op)
    (hdelete : ∀ b ∈ T.workBindings, G (.deleteQueue b.queue) ∨ NotRefused A b) :
    Obeys A G (fun _ => True) (setupTopology T) := by
  apply Obeys.bind
  · cases verifyEmbeddingTopology T.deployment <;> trivial
  intro _
  apply Obeys.bind
  · apply obeys_forM
    intro p hp
    exact obeys_call (hG _ (.exchange hp) fun _ h => Op.noConfusion h) fun _ _ => trivial
  intro _
  apply Obeys.bind
  · apply obeys_forM
    intro dlq hdlq
    have hdeclare : G (.declareQueue dlq dlqDef) :=
      hG _ (.dlq hdlq) fun _ h => Op.noConfusion h
    have hbind : G (.bindQueue dlq "dlx" dlq) := hG _ (.bind _ _ _) fun _ h => Op.noConfusion h
    exact obeys_declareAndBind (b := ⟨"dlx", dlq, dlq⟩) hdeclare hbind fun _ _ _ _ => trivial
  intro _
  apply obeys_forM
  exact fun b hb => obeys_ensureWorkQueue hb hG (hdelete b hb)

end Programs

/-- A declaration that the broker may refuse although the queue `q` is as it should be. -/
def MayRefuse (q : String) : Op → Prop
  | .declareExchange .. => True
  | .declareQueue name _ => name ≠ q
  | _ => False

theorem mayRefuse_of_respond (h : (respond op s).1 = .error .preconditionFailed)
    (hq : ∀ d, op = .declareQueue q d → s.queues q = some d) : MayRefuse q op := by
  cases op with
  | declareExchange name e => trivial
  | declareQueue name d =>
    rintro rfl
    rw [respond_declareQueue_same (hq d rfl)] at h
    cases h
  | checkQueue name =>
    simp only [respond, State.checkQueue] at h
    split_ifs at h
    cases h
  | bindQueue queue exchange routingKey =>
    simp only [respond, State.bindQueue] at h
    split_ifs at h
    cases h
  | deleteQueue name => cases h

/-- The program leaves the queue `q` alone as long as it is as it should be. -/
def Spares (T : Topology) (q : String) (p : Prog Unit) : Prop :=
  Obeys (fun op r => r = .error .preconditionFailed → MayRefuse q op)
    (fun op => T.Asks op ∧ op ≠ .deleteQueue q) (fun _ => True) p

theorem spares_setupTopology (T : Topology) (q : String) : T.Spares q (setupTopology T) := by
  apply obeys_setupTopology
  · exact fun op h hne => ⟨h, hne q⟩
  · intro b hb
    by_cases hq : b.queue = q
    · right
      rintro op (rfl | rfl) h
      · exact h rfl hq
      · exact h rfl
    · left
      exact ⟨.delete (List.mem_map_of_mem hb), fun h => hq (Op.deleteQueue.inj h)⟩

theorem asks_setupTopology (T : Topology) :
    Obeys (fun _ _ => True) T.Asks (fun _ => True) (setupTopology T) :=
  obeys_setupTopology (fun _ h _ => h) fun _ hb => .inl (.delete (List.mem_map_of_mem hb))

def AsDeclared (T : Topology) (q : String) (s : State B) : Prop :=
  ∀ d, T.Asks (.declareQueue q d) → s.queues q = some d

theorem Spares.answered {k : Except Exc Unit → Prog Unit} (h : T.Spares q (await op k))
    (hq : T.AsDeclared q s) : T.Spares q (k (respond op s).1) := by
  apply h.2
  intro hrefused
  apply mayRefuse_of_respond hrefused
  rintro d rfl
  exact hq d h.1.1

theorem Spares.disconnected {k : Except Exc Unit → Prog Unit} (h : T.Spares q (await op k)) :
    T.Spares q (k (.error .connection)) := h.2 _ fun hrefused => Exc.noConfusion
      (Except.error.inj hrefused)

theorem Spares.keeps {k : Except Exc Unit → Prog Unit} (h : T.Spares q (await op k))
    (s : State B) : Keeps q s (respond op s).2 := keeps_respond h.1.2

/-- A work queue takes the tasks with its routing key, and has a dead-letter queue. -/
structure Served (b : Binding) (s : State B) : Prop where
  exchange : ∃ e, s.exchanges b.exchange = some e
  queue : Declared (workQueueDef b.queue) b s
  dlx : s.exchanges "dlx" = some (exchangeDef .direct)
  dlq : Declared dlqDef ⟨"dlx", dlqName b.queue, dlqName b.queue⟩ s

theorem Complete.served (hT : T.WellNamed) (hs : T.Complete s) {b : Binding}
    (hb : b ∈ T.workBindings) : Served b s where
  exchange := exchange_of_mem hT hb hs.exchanges
  queue := hs.workQueues b hb
  dlx := hs.exchanges _ hT.dlx
  dlq := hs.dlqs _ (List.mem_map_of_mem (List.mem_map_of_mem hb))

theorem Served.keeps {b : Binding} (h : Served b s) (hq : KeepsLayout b.queue s t)
    (hdlq : KeepsLayout (dlqName b.queue) s t) : Served b t where
  exchange := h.exchange.imp fun _ he => hq.exchanges _ _ he
  queue := ⟨hq.queue _ h.queue.1, hq.bindings _ h.queue.2 rfl⟩
  dlx := hq.exchanges _ _ h.dlx
  dlq := ⟨hdlq.queue _ h.dlq.1, hdlq.bindings _ h.dlq.2 rfl⟩

theorem Served.asDeclared (hT : T.WellNamed) {b : Binding} (hb : b ∈ T.workBindings)
    (h : Served b s) :
    T.AsDeclared b.queue s ∧ T.AsDeclared (dlqName b.queue) s := by
  have hwork : b.queue ∈ T.workQueues := List.mem_map_of_mem hb
  constructor
  · intro d hd
    rw [hd.declareWorkQueue hT hwork]
    exact h.queue.1
  · intro d hd
    rw [hd.declareDlq hT (List.mem_map_of_mem hwork)]
    exact h.dlq.1

theorem Served.deadLettersTo {b : Binding} (h : Served b s) :
    s.DeadLettersTo routingKeyFits b.queue (dlqName b.queue) := by
  intro m
  refine ⟨"dlx", { m with routingKey := dlqName b.queue }, ?_, rfl, ?_⟩
  · rw [State.deadLetter, h.queue.1]
    rfl
  · exact mem_routes h.dlx h.dlq.1 h.dlq.2 (decide_eq_true rfl)

theorem topicMatch_self (words : List (List Char)) : topicMatch words words = true := by
  induction words with
  | nil => rfl
  | cons w words ih =>
    rw [topicMatch]
    split_ifs
    · apply List.any_eq_true.mpr
      exact ⟨words, (List.mem_tails _ _).mpr (List.suffix_cons w words), ih⟩
    · simp [ih]

theorem Served.routed {b : Binding} (h : Served b s) :
    b.queue ∈ s.routes routingKeyFits b.exchange b.routingKey := by
  obtain ⟨e, he⟩ := h.exchange
  apply mem_routes he h.queue.1 h.queue.2
  cases e.kind with
  | direct => exact decide_eq_true rfl
  | topic => exact topicMatch_self _
  | fanout => rfl

end Topology

namespace TaskSystem
open RagPipeline.Topology

variable {B : Type} {T : Topology} {s t : TaskSystem B} {q : String}

/-- What holds of a new program, and of what is left of it, holds of all that run. -/
theorem starts_step {P : Prog Unit → Prop} (h : Step T s t) (hnew : P (setupTopology T))
    (hnext : ∀ op k r, r = (respond op s.ledger.toState).1 ∨ r = .error .connection →
      P (await op k) → P (k r))
    (hs : ∀ p ∈ s.starts, P p) : ∀ p ∈ t.starts, P p := by
  cases h with
  | task h => exact hs
  | start => exact List.forall_mem_cons.mpr ⟨hnew, hs⟩
  | @answered before rest op k h =>
    rw [h, List.forall_mem_append, List.forall_mem_cons] at hs
    rw [List.forall_mem_append, List.forall_mem_cons]
    exact ⟨hs.1, hnext op k _ (.inl rfl) hs.2.1, hs.2.2⟩
  | @disconnected before rest op k h done =>
    rw [h, List.forall_mem_append, List.forall_mem_cons] at hs
    rw [List.forall_mem_append, List.forall_mem_cons]
    exact ⟨hs.1, hnext op k _ (.inr rfl) hs.2.1, hs.2.2⟩
  | @killed before rest p h =>
    rw [h, List.forall_mem_append, List.forall_mem_cons] at hs
    rw [List.forall_mem_append]
    exact ⟨hs.1, hs.2.2⟩

/-- What every declaration and every task keeps, a step keeps. -/
theorem ledger_step {R : Ledger B → Ledger B → Prop} (h : Step T s t) (hrefl : ∀ L, R L L)
    (htask : ∀ L, Moves routingKeyFits T.dlqQueues s.ledger L → R s.ledger L)
    (hafter : ∀ op k, await op k ∈ s.starts → R s.ledger (s.after op)) : R s.ledger t.ledger := by
  cases h with
  | task h => exact htask _ h
  | start => exact hrefl _
  | @answered before rest op k h =>
    exact hafter op k (h ▸ List.mem_append_right _ List.mem_cons_self)
  | @disconnected before rest op k h done =>
    cases done with
    | false => exact hrefl _
    | true => exact hafter op k (h ▸ List.mem_append_right _ List.mem_cons_self)
  | killed h => exact hrefl _

/-- The queue is as it should be, and no starting process is about to delete it. -/
structure Safe (T : Topology) (q : String) (s : TaskSystem B) : Prop where
  declared : T.AsDeclared q s.ledger.toState
  spared : ∀ p ∈ s.starts, T.Spares q p

theorem Safe.keeps_after (h : Safe T q s) {op : Op} {k : Except Exc Unit → Prog Unit}
    (hp : await op k ∈ s.starts) : Keeps q s.ledger.toState (s.after op).toState :=
  (h.spared _ hp).keeps s.ledger.toState

theorem Safe.keepsLayout (hs : Safe T q s) (h : Step T s t) :
    KeepsLayout q s.ledger.toState t.ledger.toState :=
  ledger_step (R := fun L M => KeepsLayout q L.toState M.toState) h
    (fun L => KeepsLayout.refl q L.toState) (fun _ hmove => keepsLayout_moves hmove q)
    fun _ _ hp => (hs.keeps_after hp).toKeepsLayout

theorem Safe.step (hs : Safe T q s) (h : Step T s t) : Safe T q t where
  declared d hd := (hs.keepsLayout h).queue d (hs.declared d hd)
  spared := by
    apply starts_step h (spares_setupTopology T q) _ hs.spared
    rintro op k r (rfl | rfl) hp
    · exact hp.answered hs.declared
    · exact hp.disconnected

theorem compatible_run (hT : T.WellNamed) {L : Ledger B} (hL : T.Compatible L.toState)
    (h : Run T (idle L) t) :
    T.Compatible t.ledger.toState ∧
      ∀ p ∈ t.starts, Obeys (fun _ _ => True) T.Asks (fun _ => True) p := by
  induction h with
  | refl => exact ⟨hL, fun p hp => absurd hp List.not_mem_nil⟩
  | tail _ hstep ih =>
    obtain ⟨hcompatible, hasks⟩ := ih
    constructor
    · apply ledger_step (R := fun L M => T.Compatible L.toState → T.Compatible M.toState) hstep
        (fun _ h => h) _ _ hcompatible
      · intro M hmove hM
        obtain ⟨hexchanges, hqueues, -⟩ := layout_moves hmove
        exact ⟨hexchanges ▸ hM.exchanges, hqueues ▸ hM.dlqs⟩
      · exact fun op k hp => Compatible.respond hT (hasks _ hp).1
    · exact starts_step hstep (asks_setupTopology T) (fun _ _ r _ hp => hp.2 r trivial) hasks

/-- No start ever deletes a dead-letter queue. -/
theorem spares_dlq (hT : T.WellNamed) (hq : q ∈ T.dlqQueues) {p : Prog Unit}
    (h : Obeys (fun _ _ => True) T.Asks (fun _ => True) p) : T.Spares q p := by
  refine h.mono (fun _ _ _ => trivial) (fun op hop => ⟨hop, ?_⟩) fun _ h => h
  rintro rfl
  exact hT.apart q hop.deleteQueue hq

/-- Whatever starts were cut short before, the next one that is left alone returns with all that is
declared and bound as it should be. It empties only the work queues that were declared otherwise,
and one more changes nothing. -/
theorem setup_converges (hT : T.WellNamed)
    (hverify : verifyEmbeddingTopology T.deployment = .ok ()) {L : Ledger B}
    (hL : T.Compatible L.toState) (h : Run T (idle L) t) :
    ∃ u, Coro.run respond (setupTopology T) t.ledger.toState = (.ok (), u) ∧ T.Complete u ∧
      (∀ q, (q ∈ T.workQueues → t.ledger.queues q = some (workQueueDef q)) →
        Keeps q t.ledger.toState u) ∧
      Coro.run respond (setupTopology T) u = (.ok (), u) := by
  obtain ⟨hcompatible, -⟩ := compatible_run hT hL h
  obtain ⟨u, hrun, hadvances, hcomplete⟩ := achieves_setupTopology hT hverify hcompatible
  exact ⟨u, hrun, hcomplete, hadvances.keeps, run_setupTopology_same hT hverify hcomplete⟩

/-- A broker of before there were dead-letter queues, with a task in its only queue. -/
def staleBroker : Ledger ℕ where
  exchanges := fun _ => none
  queues := fun q => if q = "cpu.chunk.post" then some ⟨true, none, none, []⟩ else none
  bindings := []
  ready := fun q => if q = "cpu.chunk.post" then [⟨"cpu.chunk.post", 7⟩] else []
  unacked := []
  arrived := []
  acked := []
  rejected := []

theorem compatible_staleBroker : topology.Compatible staleBroker.toState :=
  ⟨fun _ _ => .inl rfl, by decide⟩

theorem verified_topology : verifyEmbeddingTopology topology.deployment = .ok () := by
  decide +kernel

theorem setup_converges_stale :
    ∃ u, Coro.run respond (setupTopology topology) staleBroker.toState = (.ok (), u) ∧
      topology.Complete u ∧
      (∀ q, (q ∈ topology.workQueues → staleBroker.queues q = some (workQueueDef q)) →
        Keeps q staleBroker.toState u) ∧
      Coro.run respond (setupTopology topology) u = (.ok (), u) :=
  setup_converges wellNamed_topology verified_topology compatible_staleBroker
    (t := ⟨staleBroker, [setupTopology topology]⟩) (.single .start)

variable [DecidableEq B] {b : Binding} {x : B}

theorem Safe.accounted (hs : Safe T q s) (h : Step T s t) (x : B) :
    Accounted q x s.ledger t.ledger := by
  apply ledger_step h (Accounted.refl q x) fun _ hmove => accounted_moves hmove q x
  intro op k hp
  have hheld : (s.after op).held q x = s.ledger.held q x := (hs.keeps_after hp).held x
  rw [Accounted, hheld]
  rfl

theorem Safe.deadLettered {dlq : String} (hs : Safe T dlq s) (hdlq : dlq ∈ T.dlqQueues)
    (hto : s.ledger.DeadLettersTo routingKeyFits q dlq) (h : Step T s t) (x : B) :
    DeadLettered q dlq x s.ledger t.ledger := by
  apply ledger_step h (DeadLettered.refl q dlq x) fun _ hmove =>
    deadLettered_moves hdlq hto hmove x
  intro op k hp
  have hwaiting : (s.after op).waiting dlq x = s.ledger.waiting dlq x :=
    (hs.keeps_after hp).waiting x
  rw [DeadLettered, hwaiting]
  exact Nat.le_refl _

/-- What is kept of a queue that is served, from `L` on. -/
structure Conserved (T : Topology) (b : Binding) (L : Ledger B) (x : B) (t : TaskSystem B) :
    Prop where
  served : Served b t.ledger.toState
  safe : Safe T b.queue t
  dlqSafe : Safe T (dlqName b.queue) t
  accounted : Accounted b.queue x L t.ledger
  deadLettered : DeadLettered b.queue (dlqName b.queue) x L t.ledger

theorem Conserved.step {L : Ledger B} (hb : b ∈ T.workBindings) (hs : Conserved T b L x s)
    (h : Step T s t) : Conserved T b L x t where
  served := hs.served.keeps (hs.safe.keepsLayout h) (hs.dlqSafe.keepsLayout h)
  safe := hs.safe.step h
  dlqSafe := hs.dlqSafe.step h
  accounted := hs.accounted.trans (hs.safe.accounted h x)
  deadLettered := by
    have hdlq : dlqName b.queue ∈ T.dlqQueues :=
      List.mem_map_of_mem (List.mem_map_of_mem hb)
    exact hs.deadLettered.trans (hs.dlqSafe.deadLettered hdlq hs.served.deadLettersTo h x)

/-- The broker after the first start of the API. -/
def readyBroker : Ledger ℕ :=
  ⟨(Coro.run respond (setupTopology topology) staleBroker.toState).2, [], [], []⟩

def chunkBinding : Binding := ⟨"ingestion", "cpu.chunk.post", "cpu.chunk.post"⟩

theorem mem_chunkBinding : chunkBinding ∈ topology.workBindings := by
  decide

theorem served_readyBroker : Served chunkBinding readyBroker.toState := by
  obtain ⟨t, hrun, -, hcomplete⟩ := achieves_setupTopology wellNamed_topology verified_topology
    compatible_staleBroker
  have hstate : readyBroker.toState = t := congrArg Prod.snd hrun
  rw [hstate]
  exact hcomplete.served wellNamed_topology mem_chunkBinding

theorem compatible_readyBroker : topology.Compatible readyBroker.toState := by
  obtain ⟨t, hrun, hadvances, -⟩ := achieves_setupTopology wellNamed_topology verified_topology
    compatible_staleBroker
  have hstate : readyBroker.toState = t := congrArg Prod.snd hrun
  rw [hstate]
  exact hadvances.compatible compatible_staleBroker

/-- The API starts again, and a task is published meanwhile. -/
def restarting : TaskSystem ℕ := ⟨readyBroker, [setupTopology topology]⟩

def restarted : TaskSystem ℕ :=
  { restarting with
    ledger := readyBroker.publish routingKeyFits "ingestion" ⟨"cpu.chunk.post", 7⟩ }

end TaskSystem
end RagPipeline
