import RagPipeline.Config.Topology
import RagPipeline.Lib.Broker
import RagPipeline.Lib.Promises

namespace RagPipeline
open Coro Broker

/-- The tables of `task_queue`. -/
structure Topology where
  embedConfigs : EmbedConfigs
  rerankConfigs : RerankConfigs
  exchanges : OrderedDict String ExchangeKind
  bindings : OrderedDict String Bindings

def Topology.deployment (T : Topology) : Deployment where
  embedConfigs := T.embedConfigs
  rerankConfigs := T.rerankConfigs
  embedding := (T.bindings.get? "embedding").getD []

/-- `EXCHANGES`. -/
def exchanges : OrderedDict String ExchangeKind where
  entries := [("ingestion", .topic), ("embedding", .topic), ("inference", .topic),
    ("search", .topic), ("dlx", .direct)]
  nodup := by decide

/-- The repository's own. -/
def topology : Topology := ⟨embedConfigs, rerankConfigs, exchanges, bindings⟩

def exchangeDef (kind : ExchangeKind) : ExchangeDef := ⟨kind, true⟩

def dlqName (queue : String) : String := "dlq." ++ queue

def dlqDef : QueueDef := ⟨true, none, none, []⟩

def workQueueDef (queue : String) : QueueDef := ⟨true, some "dlx", some (dlqName queue), []⟩

namespace Topology

/-- The pairs of `BINDINGS`, with their exchanges. -/
def workBindings (T : Topology) : List Binding :=
  T.bindings.entries.flatMap fun p => p.2.map fun b => ⟨p.1, b.1, b.2⟩

/-- `_WORK_QUEUES`. -/
def workQueues (T : Topology) : List String := T.workBindings.map Binding.queue

/-- `DLQ_QUEUES`. -/
def dlqQueues (T : Topology) : List String := T.workQueues.map dlqName

end Topology

/-- A queue with other arguments is deleted, with all that is in it, and declared again. -/
def ensureWorkQueue (b : Binding) : Prog Unit :=
  (do
    ask (.declareQueue b.queue (workQueueDef b.queue))
    ask (.bindQueue b.queue b.exchange b.routingKey)).attempt fun
  | .preconditionFailed => do
    ask (.checkQueue b.queue)
    ask (.deleteQueue b.queue)
    ask (.declareQueue b.queue (workQueueDef b.queue))
    ask (.bindQueue b.queue b.exchange b.routingKey)
  | e => raise e

def declareExchange (p : String × ExchangeKind) : Prog Unit :=
  ask (.declareExchange p.1 (exchangeDef p.2))

def declareDlq (dlq : String) : Prog Unit := do
  ask (.declareQueue dlq dlqDef)
  ask (.bindQueue dlq "dlx" dlq)

def setupTopology (T : Topology) : Prog Unit := do
  ofExcept ((verifyEmbeddingTopology T.deployment).mapError .other)
  T.exchanges.entries.forM declareExchange
  T.dlqQueues.forM declareDlq
  T.workBindings.forM ensureWorkQueue

namespace Topology

variable {B : Type} {T : Topology} {s t u : State B} {op : Op}

/-- The names go together: every binding has its exchange, there is a dead-letter exchange, and no
dead-letter queue is a work queue. -/
structure WellNamed (T : Topology) : Prop where
  exchange : ∀ b ∈ T.workBindings, b.exchange ∈ T.exchanges.keys
  dlx : ("dlx", .direct) ∈ T.exchanges.entries
  apart : ∀ q ∈ T.workQueues, q ∉ T.dlqQueues

theorem wellNamed_topology : topology.WellNamed where
  exchange := by decide
  dlx := by decide
  apart := by decide

/-- What `setup_topology` may ask of the broker. -/
inductive Asks (T : Topology) : Op → Prop
  | exchange {name : String} {kind : ExchangeKind} (h : (name, kind) ∈ T.exchanges.entries) :
      Asks T (.declareExchange name (exchangeDef kind))
  | dlq {dlq : String} (h : dlq ∈ T.dlqQueues) : Asks T (.declareQueue dlq dlqDef)
  | workQueue {q : String} (h : q ∈ T.workQueues) : Asks T (.declareQueue q (workQueueDef q))
  | check (q : String) : Asks T (.checkQueue q)
  | bind (q exchange routingKey : String) : Asks T (.bindQueue q exchange routingKey)
  | delete {q : String} (h : q ∈ T.workQueues) : Asks T (.deleteQueue q)

/-- The exchanges and the dead-letter queues are not declared yet, or as they should be. -/
structure Compatible (T : Topology) (s : State B) : Prop where
  exchanges : ∀ p ∈ T.exchanges.entries,
    s.exchanges p.1 = none ∨ s.exchanges p.1 = some (exchangeDef p.2)
  dlqs : ∀ q ∈ T.dlqQueues, s.queues q = none ∨ s.queues q = some dlqDef

theorem Asks.declareExchange {name : String} {e : ExchangeDef}
    (h : T.Asks (.declareExchange name e)) {kind : ExchangeKind}
    (hname : (name, kind) ∈ T.exchanges.entries) : e = exchangeDef kind := by
  cases h with
  | exchange h =>
    have hkind := OrderedDict.get?_eq_some.mpr h
    rw [OrderedDict.get?_eq_some.mpr hname] at hkind
    rw [Option.some.inj hkind]

theorem Asks.declareDlq {dlq : String} {d : QueueDef} (hT : T.WellNamed)
    (h : T.Asks (.declareQueue dlq d)) (hdlq : dlq ∈ T.dlqQueues) : d = dlqDef := by
  cases h with
  | dlq h => rfl
  | workQueue h => exact absurd hdlq (hT.apart _ h)

theorem Asks.declareWorkQueue {q : String} {d : QueueDef} (hT : T.WellNamed)
    (h : T.Asks (.declareQueue q d)) (hq : q ∈ T.workQueues) : d = workQueueDef q := by
  cases h with
  | dlq h => exact absurd h (hT.apart _ hq)
  | workQueue h => rfl

theorem Asks.deleteQueue {q : String} (h : T.Asks (.deleteQueue q)) : q ∈ T.workQueues := by
  cases h with
  | delete h => exact h

theorem Compatible.respond (hT : T.WellNamed) (h : T.Asks op) (hs : T.Compatible s) :
    T.Compatible (respond op s).2 where
  exchanges p hp := by
    by_cases hop : ∃ e, op = .declareExchange p.1 e
    · obtain ⟨e, rfl⟩ := hop
      obtain rfl := h.declareExchange hp
      exact .inr (respond_declareExchange (hs.exchanges p hp)).2
    · rw [exchanges_respond_of_ne fun e he => hop ⟨e, he⟩]
      exact hs.exchanges p hp
  dlqs q hq := by
    by_cases hop : ∃ d, op = .declareQueue q d
    · obtain ⟨d, rfl⟩ := hop
      obtain rfl := h.declareDlq hT hq
      exact .inr (respond_declareQueue (hs.dlqs q hq)).2
    · have hdelete : op ≠ .deleteQueue q := by
        rintro rfl
        exact hT.apart q h.deleteQueue hq
      rw [queues_respond_of_ne (fun d hd => hop ⟨d, hd⟩) hdelete]
      exact hs.dlqs q hq

/-- Nothing is taken from a queue but from a work queue with other arguments. -/
structure Advances (T : Topology) (s t : State B) : Prop where
  exchanges : ∀ x e, s.exchanges x = some e → t.exchanges x = some e
  keeps : ∀ q, (q ∈ T.workQueues → s.queues q = some (workQueueDef q)) → Keeps q s t
  compatible : T.Compatible s → T.Compatible t

theorem Advances.refl (T : Topology) (s : State B) : T.Advances s s :=
  ⟨fun _ _ h => h, fun q _ => Keeps.refl q s, fun h => h⟩

theorem Advances.trans (h : T.Advances s t) (h' : T.Advances t u) : T.Advances s u where
  exchanges x e hx := h'.exchanges x e (h.exchanges x e hx)
  keeps q hq := by
    have hst : Keeps q s t := h.keeps q hq
    exact hst.trans (h'.keeps q fun hwork => hst.queue _ (hq hwork))
  compatible hs := h'.compatible (h.compatible hs)

theorem advances_respond (hT : T.WellNamed) (h : T.Asks op)
    (hstale : ∀ q, op = .deleteQueue q → s.queues q ≠ some (workQueueDef q)) :
    T.Advances s (respond op s).2 where
  exchanges _ _ hx := exchanges_respond hx
  keeps q hq := by
    apply keeps_respond
    rintro rfl
    exact hstale q rfl (hq h.deleteQueue)
  compatible := Compatible.respond hT h

/-- The program returns, and `Q` holds by then. -/
def Achieves (T : Topology) (p : Prog Unit) (s : State B) (Q : State B → Prop) : Prop :=
  ∃ t, run respond p s = (.ok (), t) ∧ T.Advances s t ∧ Q t

theorem achieves_bind {p q : Prog Unit} {Q R : State B → Prop} (hp : T.Achieves p s Q)
    (hq : ∀ t, T.Advances s t → Q t → T.Achieves q t R) : T.Achieves (p >>= fun _ => q) s R := by
  obtain ⟨t, hrun, hst, hQ⟩ := hp
  obtain ⟨u, hrun', htu, hR⟩ := hq t hst hQ
  refine ⟨u, ?_, hst.trans htu, hR⟩
  rw [run_bind, hrun]
  exact hrun'

theorem achieves_forM {α : Type} {l : List α} {f : α → Prog Unit} {Q : α → State B → Prop}
    (hf : ∀ a ∈ l, ∀ t, T.Advances s t → T.Achieves (f a) t (Q a))
    (hstable : ∀ a ∈ l, ∀ t u, T.Advances t u → Q a t → Q a u) :
    T.Achieves (l.forM f) s fun t => ∀ a ∈ l, Q a t := by
  induction l generalizing s with
  | nil => exact ⟨s, rfl, Advances.refl T s, fun _ h => absurd h List.not_mem_nil⟩
  | cons a l ih =>
    obtain ⟨t, hrun, hst, hQ⟩ := hf a List.mem_cons_self s (Advances.refl T s)
    obtain ⟨u, hrun', htu, hQs⟩ := ih
      (fun b hb t' ht' => hf b (List.mem_cons_of_mem a hb) t' (hst.trans ht'))
      (fun b hb => hstable b (List.mem_cons_of_mem a hb))
    refine ⟨u, ?_, hst.trans htu, List.forall_mem_cons.mpr
      ⟨hstable a List.mem_cons_self t u htu hQ, hQs⟩⟩
    show run respond (f a >>= fun _ => l.forM f) s = _
    rw [run_bind, hrun]
    exact hrun'

theorem achieves_ask {Q : State B → Prop} (hT : T.WellNamed) (h : T.Asks op)
    (hstale : ∀ q, op = .deleteQueue q → s.queues q ≠ some (workQueueDef q))
    (hok : (respond op s).1 = .ok ()) (hQ : Q (respond op s).2) : T.Achieves (ask op) s Q :=
  ⟨(respond op s).2, by rw [ask, run_call, ← hok], advances_respond hT h hstale, hQ⟩

theorem achieves_declareExchange (hT : T.WellNamed) {p : String × ExchangeKind}
    (hp : p ∈ T.exchanges.entries) (hs : T.Compatible s) :
    T.Achieves (declareExchange p) s fun t => t.exchanges p.1 = some (exchangeDef p.2) := by
  obtain ⟨hok, hdef⟩ := respond_declareExchange (hs.exchanges p hp)
  exact achieves_ask hT (.exchange hp) (fun _ h => Op.noConfusion h) hok hdef

def Declared (d : QueueDef) (b : Binding) (s : State B) : Prop :=
  s.queues b.queue = some d ∧ b ∈ s.bindings

theorem declared_stable {d : QueueDef} {b : Binding}
    (hwork : b.queue ∈ T.workQueues → d = workQueueDef b.queue) (h : T.Advances s t)
    (hs : Declared d b s) : Declared d b t := by
  have hkeeps : Keeps b.queue s t := h.keeps b.queue fun hq => hwork hq ▸ hs.1
  exact ⟨hkeeps.queue d hs.1, hkeeps.bindings b hs.2 rfl⟩

theorem achieves_bindQueue (hT : T.WellNamed) {b : Binding} {e : ExchangeDef} {d : QueueDef}
    (hx : s.exchanges b.exchange = some e) (hq : s.queues b.queue = some d) :
    T.Achieves (ask (.bindQueue b.queue b.exchange b.routingKey)) s (Declared d b) := by
  have hbind : (respond (.bindQueue b.queue b.exchange b.routingKey) s).1 = .ok () ∧
      b ∈ (respond (.bindQueue b.queue b.exchange b.routingKey) s).2.bindings :=
    respond_bindQueue hx hq
  have hkeeps : Keeps b.queue s (respond (.bindQueue b.queue b.exchange b.routingKey) s).2 :=
    keeps_respond fun h => Op.noConfusion h
  exact achieves_ask hT (.bind _ _ _) (fun _ h => Op.noConfusion h) hbind.1
    ⟨hkeeps.queue d hq, hbind.2⟩

theorem achieves_declareDlq (hT : T.WellNamed) {dlq : String} (hdlq : dlq ∈ T.dlqQueues)
    (hx : s.exchanges "dlx" = some (exchangeDef .direct)) (hs : T.Compatible s) :
    T.Achieves (declareDlq dlq) s (Declared dlqDef ⟨"dlx", dlq, dlq⟩) := by
  obtain ⟨hok, hdef⟩ := respond_declareQueue (hs.dlqs dlq hdlq)
  apply achieves_bind (Q := fun t => t.queues dlq = some dlqDef)
  · exact achieves_ask hT (.dlq hdlq) (fun _ h => Op.noConfusion h) hok hdef
  · intro t hst ht
    exact achieves_bindQueue (b := ⟨"dlx", dlq, dlq⟩) hT (hst.exchanges _ _ hx) ht

theorem achieves_declareAndBind (hT : T.WellNamed) {b : Binding} {e : ExchangeDef}
    (hb : b ∈ T.workBindings) (hx : s.exchanges b.exchange = some e)
    (hq : s.queues b.queue = none ∨ s.queues b.queue = some (workQueueDef b.queue)) :
    T.Achieves (ask (.declareQueue b.queue (workQueueDef b.queue)) >>= fun _ =>
      ask (.bindQueue b.queue b.exchange b.routingKey)) s
      (Declared (workQueueDef b.queue) b) := by
  obtain ⟨hok, hdef⟩ := respond_declareQueue hq
  apply achieves_bind (Q := fun t => t.queues b.queue = some (workQueueDef b.queue))
  · exact achieves_ask hT (.workQueue (List.mem_map_of_mem hb)) (fun _ h => Op.noConfusion h) hok
      hdef
  · intro t hst ht
    exact achieves_bindQueue hT (hst.exchanges _ _ hx) ht

theorem achieves_ensureWorkQueue (hT : T.WellNamed) {b : Binding} {e : ExchangeDef}
    (hb : b ∈ T.workBindings) (hx : s.exchanges b.exchange = some e) :
    T.Achieves (ensureWorkQueue b) s (Declared (workQueueDef b.queue) b) := by
  by_cases hq : s.queues b.queue = none ∨ s.queues b.queue = some (workQueueDef b.queue)
  · obtain ⟨t, hrun, hst, ht⟩ := achieves_declareAndBind hT hb hx hq
    refine ⟨t, ?_, hst, ht⟩
    rw [ensureWorkQueue, run_attempt, hrun]
  · obtain ⟨hnone, hother⟩ := not_or.mp hq
    obtain ⟨d, hd⟩ := Option.ne_none_iff_exists'.mp hnone
    have hne : d ≠ workQueueDef b.queue := fun h => hother (h ▸ hd)
    have hrefused := respond_declareQueue_stale hd hne
    have hchecked := respond_checkQueue hd
    have hdeleted : respond (.deleteQueue b.queue) s = (.ok (), s.delete b.queue) := rfl
    have hadvances : T.Advances s (s.delete b.queue) := by
      apply advances_respond hT (.delete (List.mem_map_of_mem hb))
      intro q hq
      rw [← Op.deleteQueue.inj hq]
      exact hother
    have hgone : (s.delete b.queue).queues b.queue = none := Function.update_self ..
    obtain ⟨t, hrun, hst, ht⟩ := achieves_declareAndBind hT hb
      (hadvances.exchanges _ _ hx) (.inl hgone)
    refine ⟨t, ?_, hadvances.trans hst, ht⟩
    rw [ensureWorkQueue, run_attempt, run_bind]
    simp only [ask, run_call, hrefused, run_bind, hchecked, hdeleted]
    simpa only [ask, run_bind, run_call] using hrun

structure Complete (T : Topology) (s : State B) : Prop where
  exchanges : ∀ p ∈ T.exchanges.entries, s.exchanges p.1 = some (exchangeDef p.2)
  dlqs : ∀ dlq ∈ T.dlqQueues, Declared dlqDef ⟨"dlx", dlq, dlq⟩ s
  workQueues : ∀ b ∈ T.workBindings, Declared (workQueueDef b.queue) b s

theorem exchange_of_mem (hT : T.WellNamed) {b : Binding} (hb : b ∈ T.workBindings)
    (hs : ∀ p ∈ T.exchanges.entries, s.exchanges p.1 = some (exchangeDef p.2)) :
    ∃ e, s.exchanges b.exchange = some e := by
  obtain ⟨p, hp, hname⟩ := List.mem_map.mp (hT.exchange b hb)
  exact ⟨exchangeDef p.2, hname ▸ hs p hp⟩

theorem achieves_setupTopology (hT : T.WellNamed)
    (hverify : verifyEmbeddingTopology T.deployment = .ok ()) (hs : T.Compatible s) :
    T.Achieves (setupTopology T) s T.Complete := by
  have hverified : setupTopology T = T.exchanges.entries.forM declareExchange >>= fun _ =>
      T.dlqQueues.forM declareDlq >>= fun _ => T.workBindings.forM ensureWorkQueue := by
    rw [setupTopology, hverify]
    rfl
  rw [hverified]
  have hexchanges : T.Achieves (T.exchanges.entries.forM declareExchange) s fun t =>
      ∀ p ∈ T.exchanges.entries, t.exchanges p.1 = some (exchangeDef p.2) := by
    apply achieves_forM
    · exact fun p hp t hst => achieves_declareExchange hT hp (hst.compatible hs)
    · exact fun p _ t u htu hp => htu.exchanges _ _ hp
  apply achieves_bind hexchanges
  intro t hst ht
  have hdlqs : T.Achieves (T.dlqQueues.forM declareDlq) t fun u =>
      ∀ dlq ∈ T.dlqQueues, Declared dlqDef ⟨"dlx", dlq, dlq⟩ u := by
    apply achieves_forM
    · intro dlq hdlq u htu
      exact achieves_declareDlq hT hdlq (htu.exchanges _ _ (ht _ hT.dlx))
        (htu.compatible (hst.compatible hs))
    · exact fun dlq hdlq u v huv =>
        declared_stable (fun hq => absurd hdlq (hT.apart dlq hq)) huv
  apply achieves_bind hdlqs
  intro u htu hu
  have hwork : T.Achieves (T.workBindings.forM ensureWorkQueue) u fun v =>
      ∀ b ∈ T.workBindings, Declared (workQueueDef b.queue) b v := by
    apply achieves_forM
    · intro b hb v huv
      obtain ⟨e, he⟩ := exchange_of_mem hT hb ht
      exact achieves_ensureWorkQueue hT hb (huv.exchanges _ _ (htu.exchanges _ _ he))
    · exact fun b _ v w hvw => declared_stable (fun _ => rfl) hvw
  obtain ⟨v, hrun, huv, hv⟩ := hwork
  refine ⟨v, hrun, huv, ?_, ?_, hv⟩
  · exact fun p hp => huv.exchanges _ _ (htu.exchanges _ _ (ht p hp))
  · exact fun dlq hdlq =>
      declared_stable (fun hq => absurd hdlq (hT.apart dlq hq)) huv (hu dlq hdlq)

theorem run_forM_same {α : Type} {l : List α} {f : α → Prog Unit}
    (h : ∀ a ∈ l, run respond (f a) s = (.ok (), s)) : run respond (l.forM f) s = (.ok (), s) := by
  induction l with
  | nil => rfl
  | cons a l ih =>
    obtain ⟨ha, hl⟩ := List.forall_mem_cons.mp h
    show run respond (f a >>= fun _ => l.forM f) s = _
    rw [run_bind, ha]
    exact ih hl

theorem run_declareAndBind_same {b : Binding} {e : ExchangeDef} {d : QueueDef}
    (hx : s.exchanges b.exchange = some e) (h : Declared d b s) :
    run respond (ask (.declareQueue b.queue d) >>= fun _ =>
      ask (.bindQueue b.queue b.exchange b.routingKey)) s = (.ok (), s) := by
  have hbind := respond_bindQueue_same hx h.1 h.2
  simp only [ask, run_bind, run_call, respond_declareQueue_same h.1, hbind]

theorem run_setupTopology_same (hT : T.WellNamed)
    (hverify : verifyEmbeddingTopology T.deployment = .ok ()) (hs : T.Complete s) :
    run respond (setupTopology T) s = (.ok (), s) := by
  have hexchanges : run respond (T.exchanges.entries.forM declareExchange) s = (.ok (), s) := by
    apply run_forM_same
    intro p hp
    rw [declareExchange, ask, run_call, respond_declareExchange_same (hs.exchanges p hp)]
  have hdlqs : run respond (T.dlqQueues.forM declareDlq) s = (.ok (), s) := by
    apply run_forM_same
    intro dlq hdlq
    exact run_declareAndBind_same (hs.exchanges _ hT.dlx) (hs.dlqs dlq hdlq)
  have hwork : run respond (T.workBindings.forM ensureWorkQueue) s = (.ok (), s) := by
    apply run_forM_same
    intro b hb
    obtain ⟨e, he⟩ := exchange_of_mem hT hb hs.exchanges
    rw [ensureWorkQueue, run_attempt, run_declareAndBind_same he (hs.workQueues b hb)]
  simp only [setupTopology, hverify, Except.mapError, ofExcept_ok, ret_bind, run_bind, hexchanges,
    hdlqs, hwork]

end Topology
end RagPipeline
