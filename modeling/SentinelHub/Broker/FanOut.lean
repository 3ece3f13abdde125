import SentinelHub.Broker.Observed
import SentinelHub.Broker.Registry

/-!
# One fan-out

A fan-out takes a snapshot of the subscribers of its topic, calls `write` on
the writer of each of them, one after the other, and then unregisters those
whose write or drain has failed.  While it is suspended in a drain anything
else may happen to the broker, also to the clients in the snapshot.
-/

namespace SentinelHub.Broker

open SentinelHub.Support

/-! ## What happens during a fan-out -/

/-- The calls of `write`, with the clients and the frames. -/
def calls (obs : List Observation) : List (ClientId × Bytes) :=
  obs.filterMap fun
    | .called _ client frame => some (client, frame)
    | _ => none

/-- The frames passed to the writer of one client. -/
def callsTo (c : ClientId) (obs : List Observation) : List Bytes :=
  ((calls obs).filter fun call => call.1 = c).map Prod.snd

/-- The clients whose write or drain has failed. -/
def unreachableIn (tr : List RouterEvent) : List ClientId :=
  tr.filterMap fun
    | .unreachable client => some client
    | _ => none

/-- The clients that the router has unregistered. -/
def unregisteredIn (tr : List RouterEvent) : List ClientId :=
  tr.filterMap fun
    | .unregistered client => some client
    | _ => none

/-- Where a fan-out stands that has looked up `subscribers`, has made the calls
`called`, has found the clients `failed` unreachable, and has unregistered
`gone`.  A worker that is beyond its fan-out, or has left it, says nothing. -/
def Worker.Serving (frame : Bytes) (subscribers : List ClientId)
    (called : List (ClientId × Bytes)) (failed gone : List ClientId) :
    Worker → Prop
  | .fanout .. => False
  | .writing _ frame' client remaining dead =>
      frame' = frame ∧
        subscribers.map (·, frame) =
          called ++ (client :: remaining).map (·, frame) ∧
        failed = gone ++ dead
  | .flushing _ frame' _ remaining dead =>
      frame' = frame ∧
        subscribers.map (·, frame) = called ++ remaining.map (·, frame) ∧
        failed = gone ++ dead
  | .unregistering client dead =>
      called = subscribers.map (·, frame) ∧ failed = gone ++ client :: dead
  | .pausing => called = subscribers.map (·, frame) ∧ failed = gone
  | _ => True

section Steps

variable {frame : Bytes} {subscribers : List ClientId}
  {called : List (ClientId × Bytes)} {failed gone : List ClientId}

theorem calls_append (obs obs' : List Observation) :
    calls (obs ++ obs') = calls obs ++ calls obs' :=
  List.filterMap_append

theorem unreachableIn_append (tr tr' : List RouterEvent) :
    unreachableIn (tr ++ tr') = unreachableIn tr ++ unreachableIn tr' :=
  List.filterMap_append

theorem unregisteredIn_append (tr tr' : List RouterEvent) :
    unregisteredIn (tr ++ tr') = unregisteredIn tr ++ unregisteredIn tr' :=
  List.filterMap_append

theorem Worker.serving_afterUnregister {dead : List ClientId}
    (hcalled : called = subscribers.map (·, frame))
    (hfailed : failed = gone ++ dead) :
    (afterUnregister dead).Serving frame subscribers called failed gone := by
  cases dead with
  | nil => exact ⟨hcalled, by rw [hfailed, List.append_nil]⟩
  | cons client dead => exact ⟨hcalled, hfailed⟩

theorem Worker.serving_afterSubscriber {remaining dead : List ClientId}
    (seq : ℕ)
    (hcalled : subscribers.map (·, frame) =
      called ++ remaining.map (·, frame))
    (hfailed : failed = gone ++ dead) :
    (afterSubscriber seq frame remaining dead).Serving frame subscribers
      called failed gone := by
  cases remaining with
  | nil =>
      refine serving_afterUnregister ?_ hfailed
      rw [hcalled, List.map_nil, List.append_nil]
  | cons client remaining => exact ⟨rfl, hcalled, hfailed⟩

theorem PriorityRouter.serving_nextRound (r : PriorityRouter) :
    r.nextRound.Serving frame subscribers called failed gone := by
  rw [nextRound]
  split <;> trivial

/-- A step of the worker inside the fan-out. -/
theorem Worker.Serving.workerStep {r r' : PriorityRouter}
    {action : WorkerAction} {revs : List RouterEvent}
    (h : r.worker.Serving frame subscribers called failed gone)
    (hstep : PriorityRouter.WorkerStep r action r' revs)
    (halone : ∀ seq msg, .handedOver seq msg ∉ revs) :
    r'.worker.Serving frame subscribers
      (called ++ (r.call action).map Prod.snd)
      (failed ++ unreachableIn revs) (gone ++ unregisteredIn revs) := by
  cases hstep with
  | wake => trivial
  | drained => exact r.serving_nextRound
  | pop => exact absurd (List.mem_singleton_self _) (halone _ _)
  | noSubscribers seq msg hworker =>
      rw [hworker] at h
      exact h.elim
  | notEncoded seq msg error client remaining hworker =>
      rw [hworker] at h
      exact h.elim
  | lookup seq msg frame client remaining hworker =>
      rw [hworker] at h
      exact h.elim
  | write seq frame' client remaining dead hworker =>
      rw [hworker] at h
      obtain ⟨rfl, hcalled, hfailed⟩ := h
      simp only [PriorityRouter.call, hworker]
      refine ⟨rfl, ?_, ?_⟩
      · rw [hcalled, List.append_assoc]
        rfl
      · rw [hfailed]
        simp [unreachableIn, unregisteredIn]
  | writeFailed seq frame' client remaining dead hworker =>
      rw [hworker] at h
      obtain ⟨rfl, hcalled, hfailed⟩ := h
      simp only [PriorityRouter.call, hworker]
      refine serving_afterSubscriber seq ?_ ?_
      · rw [hcalled, List.append_assoc]
        rfl
      · rw [hfailed]
        simp [unreachableIn, unregisteredIn]
  | drain seq frame' client remaining dead hworker =>
      rw [hworker] at h
      obtain ⟨rfl, hcalled, hfailed⟩ := h
      refine serving_afterSubscriber seq ?_ ?_
      · rw [hcalled]
        simp [PriorityRouter.call]
      · rw [hfailed]
        simp [unreachableIn, unregisteredIn]
  | drainFailed seq frame' client remaining dead hworker =>
      rw [hworker] at h
      obtain ⟨rfl, hcalled, hfailed⟩ := h
      refine serving_afterSubscriber seq ?_ ?_
      · rw [hcalled]
        simp [PriorityRouter.call]
      · rw [hfailed]
        simp [unreachableIn, unregisteredIn]
  | unregister client dead hworker =>
      rw [hworker] at h
      obtain ⟨hcalled, hfailed⟩ := h
      refine serving_afterUnregister ?_ ?_
      · rw [hcalled]
        simp [PriorityRouter.call]
      · rw [hfailed]
        simp [unreachableIn, unregisteredIn]
  | pauseOver => trivial
  | backoffOver => exact r.serving_nextRound
  | raised => trivial

variable {s s' t : BrokerServer} {a : BrokerAction} {obs : List Observation}

theorem calls_notes (s : BrokerServer) (action : WorkerAction)
    (evs : List BrokerEvent) :
    calls (s.notes (.worker action) ++ evs.map .broker) =
      (s.router.call action).map Prod.snd := by
  have hevents : calls (evs.map .broker) = [] := by
    simp [calls, List.filterMap_map]
  rw [calls_append, hevents, List.append_nil, calls, BrokerServer.notes,
    List.filterMap_map]
  change (s.router.call action).filterMap (some ∘ Prod.snd) = _
  rw [List.filterMap_eq_map]

theorem calls_of_ne (s : BrokerServer) (evs : List BrokerEvent)
    (hne : ∀ action, a ≠ .worker action) :
    calls (s.notes a ++ evs.map .broker) = [] := by
  have hevents : calls (evs.map .broker) = [] := by
    simp [calls, List.filterMap_map]
  rw [calls_append, hevents, List.append_nil]
  cases a with
  | worker action => exact absurd rfl (hne action)
  | _ => rfl

/-- The steps of everybody else leave a fan-out as it is. -/
theorem Worker.Serving.aside {evs : List BrokerEvent}
    (h : s.router.worker.Serving frame subscribers called failed gone)
    (hworker : s'.router.worker = s.router.worker)
    (hcalls : calls obs = [])
    (hfailed : unreachableIn (routerEvents evs) = [])
    (hgone : unregisteredIn (routerEvents evs) = []) :
    s'.router.worker.Serving frame subscribers (called ++ calls obs)
      (failed ++ unreachableIn (routerEvents evs))
      (gone ++ unregisteredIn (routerEvents evs)) := by
  rw [hworker, hcalls, hfailed, hgone, List.append_nil, List.append_nil,
    List.append_nil]
  exact h

theorem Worker.Serving.step
    (h : s.router.worker.Serving frame subscribers called failed gone)
    (hstep : observed.step s a = some (s', obs))
    (halone : ∀ seq msg, .broker (.router (.handedOver seq msg)) ∉ obs) :
    s'.router.worker.Serving frame subscribers (called ++ calls obs)
      (failed ++ unreachableIn (routerEvents (brokerPart obs)))
      (gone ++ unregisteredIn (routerEvents (brokerPart obs))) := by
  obtain ⟨evs, hbroker, rfl⟩ := observed_step_iff.mp hstep
  have hcases := BrokerServer.step_of_eq hbroker
  rw [brokerPart_append, brokerPart_notes, brokerPart_map, List.nil_append]
  cases hcases with
  | worker action router revs hlooksUp hrouter =>
      rw [calls_notes, routerEvents_map]
      refine h.workerStep (PriorityRouter.workerStep_of_eq hrouter) ?_
      intro seq msg hmem
      apply halone seq msg
      simp [hmem]
  | stopRouter =>
      exact PriorityRouter.worker_stop_cases
        (motive := Worker.Serving _ _ _ _ _) s.router trivial trivial
  | _ => exact h.aside rfl (calls_of_ne s _ (by simp)) rfl rfl

theorem Worker.Serving.run
    (h : s.router.worker.Serving frame subscribers [] [] [])
    (hrun : observed.Reaches s obs t)
    (halone : ∀ seq msg, .broker (.router (.handedOver seq msg)) ∉ obs) :
    t.router.worker.Serving frame subscribers (calls obs)
      (unreachableIn (routerEvents (brokerPart obs)))
      (unregisteredIn (routerEvents (brokerPart obs))) := by
  induction hrun with
  | nil => exact h
  | snoc _ _ hstep ih =>
      have hbefore := ih fun seq msg hmem =>
        halone seq msg (List.mem_append_left _ hmem)
      have hafter := hbefore.step hstep fun seq msg hmem =>
        halone seq msg (List.mem_append_right _ hmem)
      rw [calls_append, brokerPart_append, routerEvents_append,
        unreachableIn_append, unregisteredIn_append]
      exact hafter

/-- A fan-out begins with its look-up, in the registry as it stands then. -/
theorem serving_lookup {seq : ℕ} {msg : Message} {evs : List BrokerEvent}
    (hworker : s.router.worker = .fanout seq msg)
    (hstep : BrokerStep s (.worker (.lookup subscribers)) s' evs) :
    subscribers = s.registry.getSubscribers msg.topicId ∧
      s'.router.worker.Serving msg.frame subscribers [] [] [] := by
  cases hstep with
  | worker action router revs hlooksUp hrouter =>
      obtain ⟨seq', msg', hworker', hsubscribers⟩ :=
        lookup_eq hlooksUp hrouter
      rw [hworker] at hworker'
      cases hworker'
      refine ⟨hsubscribers, ?_⟩
      cases PriorityRouter.workerStep_of_eq hrouter with
      | noSubscribers => exact ⟨rfl, rfl⟩
      | notEncoded => trivial
      | lookup seq' msg' frame' client remaining hworker' hencoded =>
          rw [hworker] at hworker'
          cases hworker'
          exact ⟨(Message.encoded_eq_ok.mp hencoded).2, rfl, rfl⟩

end Steps

/-! ## Where the message comes from -/

variable {seq : ℕ} {msg : Message} {log : Option Bytes}
  {obs before during : List Observation} {s t : BrokerServer} {c : ClientId}

theorem Worker.afterUnregister_ne_fanout (dead : List ClientId) :
    afterUnregister dead ≠ .fanout seq msg := by
  cases dead <;> simp [afterUnregister]

theorem Worker.afterSubscriber_ne_fanout (seq' : ℕ) (frame : Bytes)
    (remaining dead : List ClientId) :
    afterSubscriber seq' frame remaining dead ≠ .fanout seq msg := by
  cases remaining with
  | nil => exact afterUnregister_ne_fanout dead
  | cons => simp [afterSubscriber]

theorem PriorityRouter.nextRound_ne_fanout (r : PriorityRouter) :
    r.nextRound ≠ .fanout seq msg := by
  rw [nextRound]
  split <;> simp

/-- The message that the worker is about to fan out has been handed over to
it. -/
theorem handedOver_of_fanout {r : PriorityRouter} {revs : List RouterEvent}
    (h : router.Reaches .init revs r) (hworker : r.worker = .fanout seq msg) :
    (seq, msg) ∈ handedIn revs := by
  induction h with
  | nil => cases hworker
  | @snoc r r' tr revs a _ _ hstep ih =>
      rw [handedIn_append, List.mem_append]
      cases a with
      | start =>
          cases hstep
          rw [PriorityRouter.start] at hworker
          split at hworker
          · exact Or.inl (ih hworker)
          · cases hworker
      | stop =>
          cases hstep
          exact absurd hworker (PriorityRouter.worker_stop_cases
            (motive := fun worker => worker ≠ .fanout seq msg) r
            (by simp) (by simp))
      | enqueue message =>
          cases hstep
          exact Or.inl (ih hworker)
      | worker action =>
          cases PriorityRouter.workerStep_of_eq hstep with
          | pop entry heap =>
              cases hworker
              exact Or.inr (List.mem_singleton_self _)
          | drained =>
              exact absurd hworker r.nextRound_ne_fanout
          | backoffOver =>
              exact absurd hworker r.nextRound_ne_fanout
          | writeFailed =>
              exact (Worker.afterSubscriber_ne_fanout _ _ _ _ hworker).elim
          | drain =>
              exact (Worker.afterSubscriber_ne_fanout _ _ _ _ hworker).elim
          | drainFailed =>
              exact (Worker.afterSubscriber_ne_fanout _ _ _ _ hworker).elim
          | unregister =>
              exact absurd hworker (Worker.afterUnregister_ne_fanout _)
          | _ => cases hworker

/-- A message that is about to be fanned out has been read from a client, or
is one of the broker's own reports. -/
theorem fanout_origin (h : observed.Reaches (.init log) obs s)
    (hworker : s.router.worker = .fanout seq msg) :
    (∃ p, .sent p msg ∈ obs) ∨
      ∃ throughput offset activeClients,
        msg = metricsMessage throughput offset activeClients := by
  have hbroker := broker_run h
  have hrouter := (router_run hbroker).reaches
  have hhanded := handedOver_of_fanout hrouter hworker
  have henqueued : (seq, msg) ∈ enqueuedIn (routerEvents (brokerPart obs)) :=
    (queued_run hrouter).mem_iff.mpr (List.mem_append_left _ hhanded)
  rcases enqueued_run hbroker henqueued with
    ⟨p, start, hpublished⟩ | ⟨throughput, offset, active, -, heq⟩
  · left
    refine ⟨p, mem_sentBy ?_⟩
    apply (published_isPrefix_sent p h).subset
    exact List.mem_map_of_mem (mem_publishedBy.mpr hpublished)
  · exact Or.inr ⟨throughput, offset, active, heq⟩

/-! ## A whole fan-out -/

/-- A fan-out of the message `msg`: `before` leads to its look-up, in which the
snapshot of the subscribers is taken, and `during` from there to the pause
behind it, with no other message being popped. -/
structure FanOut (log : Option Bytes) (seq : ℕ) (msg : Message)
    (before during : List Observation) (t : BrokerServer) : Prop where
  run : ∃ s s' subscribers,
    observed.Reaches (.init log) before s ∧
      s.router.worker = .fanout seq msg ∧
      observed.step s (.worker (.lookup subscribers)) = some (s', []) ∧
      observed.Reaches s' during t
  alone : ∀ seq msg, .broker (.router (.handedOver seq msg)) ∉ during
  paused : t.router.worker = .pausing

theorem callsTo_of_mem {subscribers : List ClientId} {frame : Bytes}
    (hcalls : calls obs = subscribers.map (·, frame))
    (hnodup : subscribers.Nodup) (hc : c ∈ subscribers) :
    callsTo c obs = [frame] := by
  have hone : subscribers.filter (fun d => d = c) = [c] := by
    rw [List.filter_eq, List.count_eq_one_of_mem hnodup hc]
    rfl
  rw [callsTo, hcalls, List.filter_map, List.map_map]
  change (subscribers.filter fun d => d = c).map _ = _
  rw [hone]
  rfl

theorem callsTo_of_not_mem {subscribers : List ClientId} {frame : Bytes}
    (hcalls : calls obs = subscribers.map (·, frame))
    (hc : c ∉ subscribers) : callsTo c obs = [] := by
  rw [callsTo, List.map_eq_nil_iff, List.filter_eq_nil_iff, hcalls]
  intro call hcall
  obtain ⟨d, hd, rfl⟩ := List.mem_map.mp hcall
  rw [decide_eq_true_eq]
  rintro rfl
  exact hc hd

/-- A fan-out calls the writer of every client in its snapshot once, with the
frame of its message, and unregisters those that it could not reach. -/
theorem FanOut.calls_eq (h : FanOut log seq msg before during t) :
    ∃ subscribers : List ClientId, subscribers.Nodup ∧
      (∀ c, c ∈ subscribers ↔
        Listens c msg.topicId (brokerPart before)) ∧
      calls during = subscribers.map (·, msg.frame) ∧
      unreachableIn (routerEvents (brokerPart during)) =
        unregisteredIn (routerEvents (brokerPart during)) := by
  obtain ⟨s, s', subscribers, hbefore, hworker, hlookup, hduring⟩ := h.run
  obtain ⟨evs, hstep, -⟩ := observed_step_iff.mp hlookup
  obtain ⟨rfl, hserving⟩ :=
    serving_lookup hworker (BrokerServer.step_of_eq hstep)
  have hdone := hserving.run hduring h.alone
  rw [h.paused] at hdone
  obtain ⟨hnodup, hlistens⟩ :=
    getSubscribers_run (broker_run hbefore) msg.topicId
  exact ⟨_, hnodup, hlistens, hdone.1, hdone.2⟩

/-- In every run, with any number of clients that subscribe, publish and
disconnect at any time.  Each fan-out calls `write` once, with the frame of its
message, on the writer of every client that is registered when it begins and
has had a request to subscribe to the topic processed since it came, and on no
other writer; whatever bytes the message was read from, they began with this
frame; and the clients it unregisters are those whose write or drain has
failed.  And a client that has been unregistered is never again among the
subscribers of a topic. -/
theorem fanOut_exact (log : Option Bytes) :
    (∀ seq msg before during t, FanOut log seq msg before during t →
      (∀ c, Listens c msg.topicId (brokerPart before) →
        callsTo c during = [msg.frame]) ∧
      (∀ c, ¬Listens c msg.topicId (brokerPart before) →
        callsTo c during = []) ∧
      ((∃ p, .sent p msg ∈ before) ∨
        ∃ throughput offset activeClients,
          msg = metricsMessage throughput offset activeClients) ∧
      (∀ stream rest, readMessage stream = .ok (msg, rest) →
        stream = msg.frame ++ rest) ∧
      unreachableIn (routerEvents (brokerPart during)) =
        unregisteredIn (routerEvents (brokerPart during))) ∧
    ∀ obs s, observed.Reaches (.init log) obs s → ∀ c e,
      e ∈ brokerPart obs → e.Drops c → ∀ topic,
        c ∉ s.registry.getSubscribers topic := by
  constructor
  · intro seq msg before during t h
    obtain ⟨subscribers, hnodup, hlistens, hcalls, hgone⟩ := h.calls_eq
    obtain ⟨s, s', -, hbefore, hworker, -⟩ := h.run
    refine ⟨?_, ?_, fanout_origin hbefore hworker, ?_, hgone⟩
    · intro c hc
      exact callsTo_of_mem hcalls hnodup ((hlistens c).mpr hc)
    · intro c hc
      exact callsTo_of_not_mem hcalls (mt (hlistens c).mp hc)
    · intro stream rest hread
      exact (readMessage_eq_ok.mp hread).2
  · intro obs s h c e hmem hdrops topic
    exact not_mem_getSubscribers_of_drops (broker_run h) hmem hdrops topic

/-- The drain behind the first of two subscribers fails: the second one gets
the frame, and the first one is unregistered. -/
theorem fanOut_exact_isolated :
    let msg : Message :=
      { command := cmdPublish, topicId := 1, priority := 0, payload := [65] }
    let during : List Observation :=
      [.called 0 0 msg.frame, .broker (.router (.wrote 0 0 msg.frame)),
        .broker (.router (.unreachable 0)), .called 0 1 msg.frame,
        .broker (.router (.wrote 0 1 msg.frame)),
        .broker (.router (.unregistered 0))]
    callsTo 1 during = [msg.frame] := by
  intro msg during
  let subscription : Message :=
    { command := cmdSubscribe, topicId := 1, priority := 0, payload := [] }
  let before : List Observation :=
    [.broker (.registered 0), .broker (.registered 1), .broker (.registered 2),
      .sent 0 subscription, .broker (.subscribed 0 1), .sent 1 subscription,
      .broker (.subscribed 1 1), .sent 2 msg, .broker (.told 2),
      .broker (.appended 2 msg 0 0), .broker (.published 2 0 msg 0),
      .broker (.router (.enqueued 0 msg)),
      .broker (.router (.handedOver 0 msg))]
  let s : BrokerServer :=
    { registry := { clients := [(0, [1]), (1, [1]), (2, [])] }
      log := msg.frame
      router :=
        { heap := []
          seq := 1
          event := false
          running := true
          worker := .fanout 0 msg }
      messagesProcessed := 1
      latestOffset := 11
      handlers := [.reading, .reading, .reading]
      shutdown := false }
  let worker : Worker := .writing 0 msg.frame 0 [1] []
  let t : BrokerServer :=
    { s with
      registry := { clients := [(1, [1]), (2, [])] }
      router := { s.router with worker := .pausing } }
  have hbefore : observed.Reaches (.init none) before s :=
    System.exec_run [.connect, .connect, .connect, .receive 0 subscription,
      .receive 1 subscription, .receive 2 msg, .tell 2, .write 2, .resume 2,
      .worker .wake, .worker .pop] (by decide)
  have hlookup : observed.step s (.worker (.lookup [0, 1])) =
      some ({ s with router := { s.router with worker } }, []) := by
    decide
  have hduring : observed.Reaches
      { s with router := { s.router with worker } } during t :=
    System.exec_run [.worker (.write true), .worker (.drain false),
      .worker (.write true), .worker (.drain true), .worker .unregister]
      (by decide)
  have hfanOut : FanOut none 0 msg before during t :=
    ⟨⟨s, _, _, hbefore, rfl, hlookup, hduring⟩, by simp [during], rfl⟩
  have hlistens : Listens 1 1 (brokerPart before) := by
    refine ⟨[.registered 0], [.registered 2, .subscribed 0 1, .subscribed 1 1,
      .told 2, .appended 2 msg 0 0, .published 2 0 msg 0,
      .router (.enqueued 0 msg), .router (.handedOver 0 msg)], rfl, ?_, ?_⟩
    · simp
    · simp [BrokerEvent.Drops]
  exact ((fanOut_exact none).1 0 msg before during t hfanOut).1 1 hlistens

end SentinelHub.Broker
