import SentinelHub.Broker.Pipeline

/-!
# What goes in and out of the broker

Beside its own events, the messages that the broker's handlers read from their
clients are noted, and every call of `write` that a fan-out makes on the writer
of a subscriber, also one that raises.  A handler takes one message after the
other: what it has read is what it has enqueued, and what it still holds.
-/

namespace SentinelHub.Broker

open SentinelHub.Support

/-- What can be noted about the broker and its clients. -/
inductive Observation
  | sent (client : ClientId) (msg : Message)
  | called (seq : ℕ) (client : ClientId) (frame : Bytes)
  | broker (event : BrokerEvent)
  deriving DecidableEq, Repr

/-- The call of `write` that a step of the worker makes. -/
def PriorityRouter.call (r : PriorityRouter) :
    WorkerAction → List (ℕ × ClientId × Bytes)
  | .write _ =>
      match r.worker with
      | .writing seq frame client _ _ => [(seq, client, frame)]
      | _ => []
  | _ => []

/-- What a step takes from a client or hands to one. -/
def BrokerServer.notes (s : BrokerServer) : BrokerAction → List Observation
  | .receive c msg => [.sent c msg]
  | .worker action =>
      (s.router.call action).map fun (seq, client, frame) =>
        .called seq client frame
  | _ => []

/-- The broker, its clients and its calls to their writers. -/
def observed : System BrokerServer BrokerAction Observation :=
  broker.observe .broker BrokerServer.notes

def Observation.ofBroker : Observation → Option BrokerEvent
  | .broker event => some event
  | _ => none

/-- The broker's own events. -/
def brokerPart (obs : List Observation) : List BrokerEvent :=
  obs.filterMap Observation.ofBroker

variable {s s' : BrokerServer} {a : BrokerAction} {c p : ClientId}
  {obs obs' : List Observation} {evs tr : List BrokerEvent} {msg : Message}
  {log : Option Bytes}

theorem brokerPart_append (obs obs' : List Observation) :
    brokerPart (obs ++ obs') = brokerPart obs ++ brokerPart obs' :=
  List.filterMap_append

theorem brokerPart_notes (s : BrokerServer) (a : BrokerAction) :
    brokerPart (s.notes a) = [] := by
  rw [brokerPart, List.filterMap_eq_nil_iff]
  intro e he
  cases a with
  | receive c msg =>
      cases List.mem_singleton.mp he
      rfl
  | worker action =>
      obtain ⟨_, -, rfl⟩ := List.mem_map.mp he
      rfl
  | _ => cases he

theorem brokerPart_map (evs : List BrokerEvent) :
    brokerPart (evs.map .broker) = evs := by
  have hcomp : Observation.ofBroker ∘ .broker = some := rfl
  rw [brokerPart, List.filterMap_map, hcomp, List.filterMap_some]

theorem observed_step_iff :
    observed.step s a = some (s', obs) ↔
      ∃ evs, broker.step s a = some (s', evs) ∧
        obs = s.notes a ++ evs.map .broker :=
  System.observe_step_iff

/-- The runs of the broker are the observed runs without the notes. -/
theorem observed_run_iff :
    broker.Reaches s tr s' ↔
      ∃ obs, observed.Reaches s obs s' ∧ brokerPart obs = tr :=
  System.observe_run_iff (fun _ => rfl) brokerPart_notes

theorem broker_run (h : observed.Reaches s obs s') :
    broker.Reaches s (brokerPart obs) s' :=
  observed_run_iff.mpr ⟨obs, h, rfl⟩

/-! ## The publishes of one client -/

/-- The publishes that the handler of a client has read. -/
def sentBy (p : ClientId) (obs : List Observation) : List Message :=
  obs.filterMap fun
    | .sent client msg =>
        if client = p ∧ msg.command = cmdPublish then some msg else none
    | _ => none

/-- The publishes that the handler of a client has enqueued, with their
sequence numbers and the positions of their frames in the log. -/
def publishedBy (p : ClientId) (tr : List BrokerEvent) :
    List (ℕ × Message × ℕ) :=
  tr.filterMap fun
    | .published client seq msg start =>
        if client = p then some (seq, msg, start) else none
    | _ => none

/-- The publishes of a client whose frames have been written to the log, with
the positions of the frames. -/
def appendedBy (p : ClientId) (tr : List BrokerEvent) : List (Message × ℕ) :=
  tr.filterMap fun
    | .appended client msg _ start =>
        if client = p then some (msg, start) else none
    | _ => none

theorem sentBy_append (p : ClientId) (obs obs' : List Observation) :
    sentBy p (obs ++ obs') = sentBy p obs ++ sentBy p obs' :=
  List.filterMap_append

theorem publishedBy_append (p : ClientId) (tr tr' : List BrokerEvent) :
    publishedBy p (tr ++ tr') = publishedBy p tr ++ publishedBy p tr' :=
  List.filterMap_append

theorem appendedBy_append (p : ClientId) (tr tr' : List BrokerEvent) :
    appendedBy p (tr ++ tr') = appendedBy p tr ++ appendedBy p tr' :=
  List.filterMap_append

theorem mem_sentBy (h : msg ∈ sentBy p obs) : .sent p msg ∈ obs := by
  obtain ⟨o, ho, heq⟩ := List.mem_filterMap.mp h
  cases o with
  | sent client m =>
      simp only [Option.ite_none_right_eq_some, Option.some.injEq] at heq
      obtain ⟨⟨rfl, -⟩, rfl⟩ := heq
      exact ho
  | _ => cases heq

theorem mem_publishedBy {seq start : ℕ} :
    (seq, msg, start) ∈ publishedBy p tr ↔
      .published p seq msg start ∈ tr := by
  rw [publishedBy, List.mem_filterMap]
  constructor
  · rintro ⟨e, he, heq⟩
    cases e with
    | published client =>
        simp only [Option.ite_none_right_eq_some, Option.some.injEq] at heq
        obtain ⟨rfl, heq⟩ := heq
        cases heq
        exact he
    | _ => cases heq
  · intro he
    exact ⟨_, he, if_pos rfl⟩

/-- The publish that a handler has read and not enqueued yet. -/
def Handler.inHand : Handler → List Message
  | .appending msg _ => [msg]
  | .appended msg _ _ _ => [msg]
  | _ => []

/-- The publish in the hand of a client's handler. -/
def BrokerServer.inHand (s : BrokerServer) (c : ClientId) : List Message :=
  match s.handlers[c]? with
  | some handler => handler.inHand
  | none => []

/-- What the handler of a client holds between append and enqueue. -/
def BrokerServer.heldBy (s : BrokerServer) (c : ClientId) :
    List (Message × ℕ) :=
  match s.handlers[c]? with
  | some handler => handler.held
  | none => []

theorem inHand_of {handler : Handler} (h : s.handlers[c]? = some handler) :
    s.inHand c = handler.inHand := by
  rw [BrokerServer.inHand, h]

theorem heldBy_of {handler : Handler} (h : s.handlers[c]? = some handler) :
    s.heldBy c = handler.held := by
  rw [BrokerServer.heldBy, h]

/-- The handler of a client has moved. -/
theorem inHand_set {handler handler' : Handler}
    (hp : s.handlers[p]? = some handler)
    (hset : s'.handlers = s.handlers.set p handler') :
    s'.inHand p = handler'.inHand ∧ s'.heldBy p = handler'.held ∧
      s'.handlers[p]? = some handler' := by
  have hp' : s'.handlers[p]? = some handler' := by
    rw [hset]
    exact List.getElem?_set_self (List.getElem?_eq_some_iff.mp hp).1
  exact ⟨inHand_of hp', heldBy_of hp', hp'⟩

/-- The steps of others leave the publish of a client where it is. -/
theorem inHand_of_ne (hstep : BrokerStep s a s' evs)
    (hne : a.client ≠ some p) :
    s'.inHand p = s.inHand p ∧ s'.heldBy p = s.heldBy p := by
  simp only [BrokerServer.inHand, BrokerServer.heldBy]
  rcases hstep.handler_of_ne hne with heq | ⟨hnone, hreading⟩
  · rw [heq]
    exact ⟨rfl, rfl⟩
  · rw [hnone, hreading]
    exact ⟨rfl, rfl⟩

/-- A step of one client, of the worker or of the metrics task publishes
nothing for another client. -/
theorem published_of_ne (hstep : BrokerStep s a s' evs)
    (hne : a.client ≠ some p) :
    publishedBy p evs = [] ∧ appendedBy p evs = [] := by
  have hcp : ∀ {d : ClientId}, some d ≠ some p → d ≠ p :=
    fun hd heq => hd (congrArg some heq)
  cases hstep with
  | write d msg frame offset =>
      refine ⟨rfl, ?_⟩
      simp [appendedBy, hcp hne]
  | resume d msg frame offset start =>
      refine ⟨?_, rfl⟩
      simp [publishedBy, hcp hne]
  | worker action router revs =>
      simp [publishedBy, appendedBy, List.filterMap_map]
  | _ => exact ⟨rfl, rfl⟩

theorem sentBy_step (p : ClientId) (s : BrokerServer) (a : BrokerAction)
    (evs : List BrokerEvent) :
    sentBy p (s.notes a ++ evs.map .broker) = sentBy p (s.notes a) := by
  have hnone : sentBy p (evs.map .broker) = [] := by
    simp [sentBy, List.filterMap_map]
  rw [sentBy_append, hnone, List.append_nil]

theorem sentBy_notes_of_ne (s : BrokerServer) (hne : a.client ≠ some p) :
    sentBy p (s.notes a) = [] := by
  cases a with
  | receive d msg =>
      have hdp : d ≠ p := fun heq => hne (congrArg some heq)
      simp [BrokerServer.notes, sentBy, hdp]
  | worker action => simp [BrokerServer.notes, sentBy, List.filterMap_map]
  | _ => rfl

/-- What a handler has in its hand and what it reads goes to the router, stays
in its hand, or is lost with the handler. -/
theorem sent_step (hstep : BrokerStep s a s' evs) (p : ClientId) :
    ∃ lost, s.inHand p ++ sentBy p (s.notes a) =
        (publishedBy p evs).map (fun e => e.2.1) ++ s'.inHand p ++ lost ∧
      (lost = [] ∨ s'.handlers[p]? = some .closed) := by
  by_cases hne : a.client = some p
  swap
  · rw [(inHand_of_ne hstep hne).1, (published_of_ne hstep hne).1,
      sentBy_notes_of_ne s hne]
    exact ⟨[], by simp, Or.inl rfl⟩
  cases hstep with
  | connect => cases hne
  | worker => cases hne
  | metricsTick => cases hne
  | stop => cases hne
  | stopRouter => cases hne
  | tooLarge d msg hhandler =>
      cases hne
      obtain ⟨hhand, -, hclosed⟩ : (s.close p).inHand p = _ ∧ _ ∧
          (s.close p).handlers[p]? = some .closed :=
        inHand_set hhandler rfl
      rw [inHand_of hhandler, hhand]
      exact ⟨_, rfl, Or.inr hclosed⟩
  | appendRaise d n msg call log hhandler =>
      cases hne
      obtain ⟨hhand, -, hclosed⟩ :
          BrokerServer.inHand { s.close p with log } p = _ ∧ _ ∧
            (s.close p).handlers[p]? = some .closed :=
        inHand_set hhandler rfl
      rw [inHand_of hhandler, hhand]
      exact ⟨[msg], rfl, Or.inr hclosed⟩
  | subscribe d msg hhandler hcommand =>
      cases hne
      refine ⟨[], ?_, Or.inl rfl⟩
      simp [BrokerServer.notes, sentBy, hcommand, cmdSubscribe, cmdPublish,
        publishedBy, BrokerServer.inHand]
  | publish d msg hhandler hwire hcommand =>
      cases hne
      refine ⟨[], ?_, Or.inl rfl⟩
      rw [inHand_of hhandler, (inHand_set hhandler rfl).1]
      simp [BrokerServer.notes, sentBy, hcommand, publishedBy,
        Handler.inHand]
  | timeTravel d msg offset hhandler hcommand =>
      cases hne
      refine ⟨[], ?_, Or.inl rfl⟩
      rw [inHand_of hhandler, (inHand_set hhandler rfl).1]
      simp [BrokerServer.notes, sentBy, hcommand, cmdTimeTravel, cmdPublish,
        publishedBy, Handler.inHand]
  | ignore d msg hhandler hsubscribe htravel hpublish =>
      cases hne
      refine ⟨[], ?_, Or.inl rfl⟩
      simp [BrokerServer.notes, sentBy, hpublish, publishedBy]
  | resume d msg frame offset start hhandler =>
      cases hne
      refine ⟨[], ?_, Or.inl rfl⟩
      rw [inHand_of hhandler, (inHand_set hhandler rfl).1]
      simp [BrokerServer.notes, sentBy, publishedBy, Handler.inHand]
  | _ =>
      cases hne
      refine ⟨[], ?_, Or.inl rfl⟩
      rw [inHand_of (by assumption), (inHand_set (by assumption) rfl).1]
      rfl

/-- What a handler holds and what it writes goes to the router or stays. -/
theorem appendedBy_step (hstep : BrokerStep s a s' evs) (p : ClientId) :
    s.heldBy p ++ appendedBy p evs =
      (publishedBy p evs).map Prod.snd ++ s'.heldBy p := by
  by_cases hne : a.client = some p
  swap
  · rw [(inHand_of_ne hstep hne).2, (published_of_ne hstep hne).1,
      (published_of_ne hstep hne).2]
    exact List.append_nil _
  cases hstep with
  | connect => cases hne
  | worker => cases hne
  | metricsTick => cases hne
  | stop => cases hne
  | stopRouter => cases hne
  | subscribe => exact List.append_nil _
  | ignore => exact List.append_nil _
  | write d msg frame offset hhandler =>
      cases hne
      rw [heldBy_of hhandler, (inHand_set hhandler rfl).2.1]
      simp [publishedBy, appendedBy, Handler.held]
  | resume d msg frame offset start hhandler =>
      cases hne
      rw [heldBy_of hhandler, (inHand_set hhandler rfl).2.1]
      simp [publishedBy, appendedBy, Handler.held]
  | _ =>
      cases hne
      rw [heldBy_of (by assumption), (inHand_set (by assumption) rfl).2.1]
      rfl

/-- A handler that has ended reads and enqueues nothing any more. -/
theorem ended_step (hstep : BrokerStep s a s' evs)
    (hclosed : s.handlers[p]? = some .closed) :
    s'.handlers[p]? = some .closed ∧ s.inHand p = [] ∧
      sentBy p (s.notes a) = [] ∧ publishedBy p evs = [] := by
  have hne : a.client ≠ some p :=
    fun hclient => hstep.handler_ne_closed hclient hclosed
  refine ⟨?_, inHand_of hclosed, sentBy_notes_of_ne s hne,
    (published_of_ne hstep hne).1⟩
  rcases hstep.handler_of_ne hne with heq | ⟨hnone, -⟩
  · rw [heq, hclosed]
  · rw [hclosed] at hnone
    cases hnone

/-! ## One message after the other -/

/-- The handler of a client takes one message after the other: what it has read
it has enqueued in this order, up to the publish in its hand and to one that
has been lost when the handler ended, and what it has written to the log is
what it has enqueued and what it holds. -/
structure Sequential (p : ClientId) (obs : List Observation)
    (s : BrokerServer) : Prop where
  sent : ∃ lost, sentBy p obs =
      (publishedBy p (brokerPart obs)).map (fun e => e.2.1) ++
        s.inHand p ++ lost ∧
    (lost = [] ∨ s.handlers[p]? = some .closed)
  appended : appendedBy p (brokerPart obs) =
    (publishedBy p (brokerPart obs)).map Prod.snd ++ s.heldBy p

theorem sequential_init (p : ClientId) (log : Option Bytes) :
    Sequential p [] (.init log) where
  sent := ⟨[], rfl, Or.inl rfl⟩
  appended := rfl

theorem Sequential.step (h : Sequential p obs s)
    (hstep : observed.step s a = some (s', obs')) :
    Sequential p (obs ++ obs') s' := by
  obtain ⟨evs, hbroker, rfl⟩ := observed_step_iff.mp hstep
  have hcases := BrokerServer.step_of_eq hbroker
  have hpart : brokerPart (s.notes a ++ evs.map .broker) = evs := by
    rw [brokerPart_append, brokerPart_notes, brokerPart_map, List.nil_append]
  refine ⟨?_, ?_⟩
  · obtain ⟨lost, hsent, hlost⟩ := h.sent
    rw [sentBy_append, sentBy_step, brokerPart_append, hpart,
      publishedBy_append, List.map_append, hsent]
    rcases hlost with rfl | hclosed
    · obtain ⟨lost', hsent', hlost'⟩ := sent_step hcases p
      refine ⟨lost', ?_, hlost'⟩
      rw [List.append_nil, List.append_assoc, hsent']
      simp only [List.append_assoc]
    · obtain ⟨hclosed', hhand, hnone, hnone'⟩ := ended_step hcases hclosed
      refine ⟨lost, ?_, Or.inr hclosed'⟩
      rw [hhand, hnone, hnone', inHand_of hclosed']
      simp [Handler.inHand]
  · rw [brokerPart_append, hpart, appendedBy_append, publishedBy_append,
      List.map_append, h.appended, List.append_assoc, appendedBy_step hcases p,
      List.append_assoc]

theorem sequential_run (p : ClientId)
    (h : observed.Reaches (.init log) obs s) : Sequential p obs s :=
  h.invariant (sequential_init p log) fun _ _ _ _ _ ht _ hstep =>
    ht.step hstep

/-- The publishes that a client's handler has enqueued are the first of those
it has read, in the same order. -/
theorem published_isPrefix_sent (p : ClientId)
    (h : observed.Reaches (.init log) obs s) :
    (publishedBy p (brokerPart obs)).map (fun e => e.2.1) <+:
      sentBy p obs := by
  obtain ⟨lost, hsent, -⟩ := (sequential_run p h).sent
  rw [hsent, List.append_assoc]
  exact List.prefix_append _ _

end SentinelHub.Broker
