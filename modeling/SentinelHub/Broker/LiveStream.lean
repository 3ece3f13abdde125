import SentinelHub.Broker.FanOut
import SentinelHub.Broker.Handover
import SentinelHub.Broker.PublisherOrder

/-!
# The live stream of a subscriber

While a client stays subscribed, the router can reach it and no fan-out raises,
nothing is lost between the worker and the client: what is written to it and
what the fan-out under way has still to write are exactly what was to be written
before and what has been handed over since, in this order.  The predicate `K`
selects the messages of the topics to which the client is subscribed.
-/

namespace SentinelHub.Broker

open SentinelHub.Support

variable {s s' : BrokerServer} {a : BrokerAction} {c : ClientId}
  {tr tr' evs : List BrokerEvent} {log : Option Bytes}

/-- The client stays registered and is reached, and no fan-out comes to an end
before its time. -/
structure Reached (c : ClientId) (tr : List BrokerEvent) : Prop where
  kept : ∀ e ∈ tr, ¬e.Drops c
  reached : .router (.unreachable c) ∉ tr
  noCrash : .router .crashed ∉ tr
  notStopped : .stopped ∉ tr

theorem Reached.left (h : Reached c (tr ++ tr')) : Reached c tr where
  kept e he := h.kept e (List.mem_append_left tr' he)
  reached hmem := h.reached (List.mem_append_left tr' hmem)
  noCrash hmem := h.noCrash (List.mem_append_left tr' hmem)
  notStopped hmem := h.notStopped (List.mem_append_left tr' hmem)

theorem Reached.right (h : Reached c (tr ++ tr')) : Reached c tr' where
  kept e he := h.kept e (List.mem_append_right tr he)
  reached hmem := h.reached (List.mem_append_right tr hmem)
  noCrash hmem := h.noCrash (List.mem_append_right tr hmem)
  notStopped hmem := h.notStopped (List.mem_append_right tr hmem)

theorem Reached.append (h : Reached c tr) (h' : Reached c tr') :
    Reached c (tr ++ tr') where
  kept := List.forall_mem_append.mpr ⟨h.kept, h'.kept⟩
  reached hmem := (List.mem_append.mp hmem).elim h.reached h'.reached
  noCrash hmem := (List.mem_append.mp hmem).elim h.noCrash h'.noCrash
  notStopped hmem := (List.mem_append.mp hmem).elim h.notStopped h'.notStopped

theorem Subscribed.run_of_reached {topic : ℤ} (h : Subscribed c topic s)
    (hrun : broker.Reaches s tr s') (hreached : Reached c tr) :
    Subscribed c topic s' := by
  rw [subscribed_iff, registry_eq_run hrun]
  exact ConnectionRegistry.mem_getSubscribers_foldl (subscribed_iff.mp h)
    hreached.kept

theorem length_handlers_run (h : broker.Reaches s tr s') :
    s.handlers.length ≤ s'.handlers.length := by
  induction h with
  | nil => exact le_rfl
  | snoc _ _ hstep ih =>
      exact ih.trans (length_handlers_step (BrokerServer.step_of_eq hstep))

/-! ## One step of the worker -/

/-- The clients before the worker shrink by one that is not `c`. -/
theorem due_of_ne {client : ClientId} {remaining : List ClientId}
    (hne : c ≠ client) (seq : ℕ) (frame : Bytes) :
    (if c ∈ client :: remaining then [(seq, frame)] else []) =
      if c ∈ remaining then [(seq, frame)] else [] := by
  have hiff : c ∈ client :: remaining ↔ c ∈ remaining := by
    rw [List.mem_cons]
    exact or_iff_right hne
  simp only [hiff]

/-- What the worker writes to a client and what is due afterwards is what was
due and what has just been handed over, as far as the client is subscribed. -/
theorem passed_workerStep {r r' : PriorityRouter} {action : WorkerAction}
    {revs : List RouterEvent} {K : ℕ × Bytes → Bool}
    (hstep : PriorityRouter.WorkerStep r action r' revs)
    (hnodup : r.worker.targets.Nodup)
    (hlookup : ∀ subscribers seq msg, action = .lookup subscribers →
      r.worker = .fanout seq msg → K (seq, msg.frame) = true →
        c ∈ subscribers)
    (hcrash : .crashed ∉ revs) (hreached : .unreachable c ∉ revs) :
    (writtenTo c (revs.map .router) ++ r'.worker.due c).filter K =
      (r.worker.due c ++ (handedIn revs).map liveFrame).filter K := by
  cases hstep with
  | wake hworker =>
      rw [hworker]
      rfl
  | drained hworker =>
      change (r.nextRound.due c).filter K = _
      rw [r.due_nextRound, hworker]
      rfl
  | pop entry heap hworker =>
      rw [hworker]
      rfl
  | noSubscribers seq msg hworker =>
      have hnot : K (seq, msg.frame) = false := by
        rw [Bool.eq_false_iff]
        intro hK
        cases hlookup [] seq msg rfl hworker hK
      rw [hworker]
      exact (List.filter_cons_of_neg (by rw [hnot]; exact Bool.false_ne_true)
        (l := [])).symm
  | notEncoded => exact absurd (List.mem_singleton_self _) hcrash
  | raised => exact absurd (List.mem_singleton_self _) hcrash
  | lookup seq msg frame client remaining hworker hencoded =>
      obtain ⟨-, rfl⟩ := Message.encoded_eq_ok.mp hencoded
      rw [hworker]
      change (if c ∈ client :: remaining then [(seq, msg.frame)] else []).filter
        K = [(seq, msg.frame)].filter K
      by_cases hK : K (seq, msg.frame) = true
      · rw [if_pos (hlookup _ seq msg rfl hworker hK)]
      · rw [List.filter_cons_of_neg hK]
        split
        · rw [List.filter_cons_of_neg hK]
        · rfl
  | write seq frame client remaining dead hworker =>
      rw [hworker] at hnodup ⊢
      have hclient := (List.nodup_cons.mp hnodup).1
      by_cases hc : client = c
      · subst hc
        simp [writtenTo, Worker.due, hclient, handedIn]
      · have hne : c ≠ client := fun heq => hc heq.symm
        simp [writtenTo, Worker.due, hc, hne, handedIn]
  | writeFailed seq frame client remaining dead hworker =>
      have hne : c ≠ client := by
        rintro rfl
        exact hreached (List.mem_singleton_self _)
      change (Worker.due c (.afterSubscriber ..)).filter K = _
      rw [Worker.due_afterSubscriber, ← due_of_ne hne, hworker]
      exact congrArg (List.filter K) (List.append_nil _).symm
  | drain seq frame client remaining dead hworker =>
      change (Worker.due c (.afterSubscriber ..)).filter K = _
      rw [Worker.due_afterSubscriber, hworker]
      exact congrArg (List.filter K) (List.append_nil _).symm
  | drainFailed seq frame client remaining dead hworker =>
      change (Worker.due c (.afterSubscriber ..)).filter K = _
      rw [Worker.due_afterSubscriber, hworker]
      exact congrArg (List.filter K) (List.append_nil _).symm
  | unregister client dead hworker =>
      change (Worker.due c (.afterUnregister ..)).filter K = _
      rw [Worker.due_afterUnregister, hworker]
      rfl
  | pauseOver hworker =>
      rw [hworker]
      rfl
  | backoffOver hworker =>
      change (r.nextRound.due c).filter K = _
      rw [r.due_nextRound, hworker]
      rfl

/-! ## One step of the broker -/

theorem passed_step {K : ℕ × Bytes → Bool} (hstep : BrokerStep s a s' evs)
    (hnodup : s.router.worker.targets.Nodup)
    (hsubscribed : ∀ seq msg, s.router.worker = .fanout seq msg →
      K (seq, msg.frame) = true → Subscribed c msg.topicId s)
    (hreached : Reached c evs) :
    (writtenTo c evs ++ s'.router.worker.due c).filter K =
      (s.router.worker.due c ++
        (handedIn (routerEvents evs)).map liveFrame).filter K := by
  cases hstep with
  | worker action router revs hlooksUp hrouter =>
      rw [routerEvents_map]
      refine passed_workerStep (PriorityRouter.workerStep_of_eq hrouter) hnodup
        ?_ (fun hmem => hreached.noCrash (List.mem_map_of_mem hmem))
        fun hmem => hreached.reached (List.mem_map_of_mem hmem)
      rintro subscribers seq msg rfl hworker hK
      obtain ⟨seq', msg', hworker', rfl⟩ := lookup_eq hlooksUp hrouter
      rw [hworker] at hworker'
      cases hworker'
      exact subscribed_iff.mp (hsubscribed seq msg hworker hK)
  | stopRouter =>
      exact absurd (List.mem_singleton_self _) hreached.notStopped
  | _ => exact congrArg (List.filter K) (List.append_nil _).symm

/-! ## What is handed over -/

/-- What a handler has enqueued had come to it over the wire. -/
theorem published_onWire {p : ClientId} {seq start : ℕ} {msg : Message}
    (h : broker.Reaches (.init log) tr s)
    (hmem : .published p seq msg start ∈ tr) : msg.OnWire := by
  induction h with
  | nil => cases hmem
  | @snoc t u tr evs a hrun _ hstep ih =>
      rcases List.mem_append.mp hmem with hmem | hmem
      · exact ih hmem
      · cases BrokerServer.step_of_eq hstep with
        | resume c m frame offset start' hhandler =>
            have hok := (handlersOk_run hrun).get hhandler
            simp only [List.mem_cons, BrokerEvent.published.injEq,
              List.not_mem_nil, or_false, reduceCtorEq] at hmem
            obtain ⟨-, -, rfl, -⟩ := hmem
            exact hok.1
        | worker action router revs => simp at hmem
        | _ => simp at hmem

/-- The topic of a message that has been handed over fits its header. -/
theorem topicId_of_handed {e : ℕ × Message}
    (h : broker.Reaches (.init log) tr s)
    (he : e ∈ handedIn (routerEvents tr)) :
    0 ≤ e.2.topicId ∧ e.2.topicId < 2 ^ 32 := by
  have henqueued : e ∈ enqueuedIn (routerEvents tr) :=
    (queued_run (router_run h)).mem_iff.mpr (List.mem_append_left _ he)
  rcases enqueued_run h henqueued with ⟨p, start, hpublished⟩ |
    ⟨throughput, offset, active, -, heq⟩
  · exact (published_onWire h hpublished).topicId
  · rw [heq]
    exact topicHash_inRange "broker/metrics"

end SentinelHub.Broker
