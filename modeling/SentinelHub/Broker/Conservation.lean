import SentinelHub.Broker.Pipeline

/-!
# Write-ahead logging and conservation of publishes

What the router has been given is in the log, unless the metrics task has made
it; every frame is written as often as it is enqueued or still on its way; a
publish whose append raises leaves no trace behind the log; and the metrics
count every client message once.
-/

namespace SentinelHub.Broker

open SentinelHub.Support

/-! ## Counting publishes -/

/-- The throughput values that the metrics task has reported. -/
def reportedThroughputs (tr : List BrokerEvent) : List ℕ :=
  tr.filterMap fun
    | .reported _ throughput _ _ => some throughput
    | _ => none

variable {s s' : BrokerServer} {a : BrokerAction} {c : ClientId} {n : ℕ}
  {tr evs : List BrokerEvent} {log : Option Bytes}

theorem reportedThroughputs_append (tr tr' : List BrokerEvent) :
    reportedThroughputs (tr ++ tr') =
      reportedThroughputs tr ++ reportedThroughputs tr' :=
  List.filterMap_append

/-- The counter goes up with every publish, and what a report takes from it,
the report carries. -/
theorem messagesProcessed_step (hstep : BrokerStep s a s' evs) :
    (reportedThroughputs evs).sum + s'.messagesProcessed =
      s.messagesProcessed + (publishedIn evs).length := by
  cases hstep with
  | worker action router evs =>
      simp [reportedThroughputs, List.filterMap_map]
  | metricsTick => simp [reportedThroughputs, publishedIn]
  | resume => simp [reportedThroughputs, publishedIn]
  | _ =>
      simp [reportedThroughputs, publishedIn, BrokerServer.close,
        BrokerServer.setHandler]

theorem messagesProcessed_run (h : broker.Reaches (.init log) tr s) :
    (reportedThroughputs tr).sum + s.messagesProcessed =
      (publishedIn tr).length := by
  refine h.invariant (I := fun tr s => (reportedThroughputs tr).sum +
    s.messagesProcessed = (publishedIn tr).length) rfl ?_
  intro tr s a s' evs ih _ hstep
  have hmove := messagesProcessed_step (BrokerServer.step_of_eq hstep)
  rw [reportedThroughputs_append, publishedIn_append, List.sum_append,
    List.length_append]
  omega

/-! ## A publish whose append raises -/

/-- Only a suspended handler enqueues a message. -/
theorem published_step (hstep : BrokerStep s a s' evs) {seq start : ℕ}
    {msg : Message} (hmem : .published c seq msg start ∈ evs) :
    ∃ frame offset,
      s.handlers[c]? = some (.appended msg frame offset start) := by
  cases hstep with
  | resume d m frame offset p hhandler =>
      simp only [List.mem_cons, BrokerEvent.published.injEq, reduceCtorEq,
        List.not_mem_nil, or_false] at hmem
      obtain ⟨rfl, -, rfl, rfl⟩ := hmem
      exact ⟨frame, offset, hhandler⟩
  | worker => simp at hmem
  | _ => simp at hmem

/-- A handler that has ended does not come back. -/
theorem closed_step (hc : s.handlers[c]? = some .closed)
    (hstep : BrokerStep s a s' evs) :
    s'.handlers[c]? = some .closed ∧
      ∀ seq msg start, .published c seq msg start ∉ evs := by
  refine ⟨?_, ?_⟩
  · have hne : a.client ≠ some c := fun hclient =>
      hstep.handler_ne_closed hclient hc
    rcases hstep.handler_of_ne hne with hsame | ⟨hnone, -⟩
    · rw [hsame, hc]
    · rw [hc] at hnone
      cases hnone
  · intro seq msg start hmem
    obtain ⟨frame, offset, hhandler⟩ := published_step hstep hmem
    rw [hc] at hhandler
    cases hhandler

theorem closed_run (hc : s.handlers[c]? = some .closed)
    (h : broker.Reaches s tr s') :
    ∀ seq msg start, .published c seq msg start ∉ tr := by
  suffices s'.handlers[c]? = some .closed ∧
      ∀ seq msg start, .published c seq msg start ∉ tr from this.2
  refine h.invariant (I := fun tr s' => s'.handlers[c]? = some .closed ∧
    ∀ seq msg start, .published c seq msg start ∉ tr) ⟨hc, by simp⟩ ?_
  rintro tr s a s' evs ⟨hclosed, hnone⟩ _ hstep
  obtain ⟨hclosed', hnone'⟩ :=
    closed_step hclosed (BrokerServer.step_of_eq hstep)
  refine ⟨hclosed', ?_⟩
  intro seq msg start hmem
  rw [List.mem_append] at hmem
  exact hmem.elim (hnone seq msg start) (hnone' seq msg start)

/-- An append that raises ends its handler and changes nothing else that the
publish would have changed. -/
theorem appendRaise_step
    (hstep : broker.step s (.appendRaise c n) = some (s', evs)) :
    s'.router = s.router ∧ s'.messagesProcessed = s.messagesProcessed ∧
      s'.latestOffset = s.latestOffset ∧
      s'.handlers[c]? = some .closed := by
  cases BrokerServer.step_of_eq hstep with
  | appendRaise _ _ msg call log hhandler hfail =>
      have hlt := (List.getElem?_eq_some_iff.mp hhandler).1
      exact ⟨rfl, rfl, rfl, by simp [BrokerServer.close, hlt]⟩

/-! ## The log since the start -/

/-- The frames that the log holds behind what it held at the start. -/
def framesSince (log₀ content : Bytes) : List Bytes :=
  wire.parse (content.drop log₀.length)

/-- What waits in the heap or has been handed over is a metrics message, or
its frame has been logged. -/
theorem mem_framesSince (h : broker.Reaches (.init log) tr s)
    (htorn : NoTornAppend tr) {seq : ℕ} {msg : Message}
    (hmem : (seq, msg) ∈ handedIn (routerEvents tr) ++ s.router.queued) :
    (∃ throughput offset activeClients,
      .reported seq throughput offset activeClients ∈ tr ∧
        msg = metricsMessage throughput offset activeClients) ∨
      msg.frame ∈ framesSince (EventLog.init log) s.log := by
  have hwritten := written_run (handlersOk_init log) h htorn
  have henqueued :=
    (orderInv_run (router_run h)).conserved.mem_iff.mpr hmem
  rcases enqueued_run h henqueued with ⟨c, start, hpublished⟩ | hreported
  · right
    have hpub : (msg, start) ∈ publishedIn tr :=
      List.mem_filterMap.mpr ⟨_, hpublished, rfl⟩
    have hlogged : (msg, start) ∈ loggedIn tr :=
      (logged_run h).mem_iff.mpr (List.mem_append_left _ hpub)
    rw [framesSince]
    change _ ∈ wire.parse (s.log.drop (BrokerServer.init log).log.length)
    rw [hwritten.parse_drop]
    exact List.mem_map_of_mem hlogged
  · exact Or.inl hreported

/-- Every frame is in the log as often as it has been enqueued by a publish
handler or is held by a suspended one. -/
theorem count_framesSince (h : broker.Reaches (.init log) tr s)
    (htorn : NoTornAppend tr) (f : Bytes) :
    (framesSince (EventLog.init log) s.log).count f =
      (publishedIn tr).countP (fun e => e.1.frame = f) +
        s.suspended.countP (fun e => e.1.frame = f) := by
  have hwritten := written_run (handlersOk_init log) h htorn
  have hparse : framesSince (EventLog.init log) s.log =
      (loggedIn tr).map fun e => e.1.frame :=
    hwritten.parse_drop
  rw [hparse, List.count_eq_countP, List.countP_map, ← List.countP_append,
    ← (logged_run h).countP_eq]
  apply List.countP_congr
  intro e _
  simp

/-- Write-ahead logging and conservation of publishes, in every state that the
broker reaches on any log as long as an append either writes its whole frame
or raises having written nothing: the log is what it was at the start and then
complete frames; every message in the heap or handed to `_fanout` is one that
the metrics task has made or has its frame among them; every frame is among
them as often as it has been enqueued by a publish handler or is held by a
suspended one; a publish whose append raises is not counted, and never
enqueued; and the throughput values reported, together with
`messages_processed`, add up to the number of client messages enqueued. -/
theorem publishes_conserved (h : broker.Reaches (.init log) tr s)
    (htorn : NoTornAppend tr) :
    s.log = EventLog.init log ++
        (framesSince (EventLog.init log) s.log).flatten ∧
      (∀ seq msg,
        (seq, msg) ∈ handedIn (routerEvents tr) ++ s.router.queued →
        (∃ throughput offset activeClients,
          .reported seq throughput offset activeClients ∈ tr ∧
            msg = metricsMessage throughput offset activeClients) ∨
          msg.frame ∈ framesSince (EventLog.init log) s.log) ∧
      (∀ f, (framesSince (EventLog.init log) s.log).count f =
        (publishedIn tr).countP (fun e => e.1.frame = f) +
          s.suspended.countP (fun e => e.1.frame = f)) ∧
      (∀ c n s' evs, broker.step s (.appendRaise c n) = some (s', evs) →
        s'.router = s.router ∧
          s'.messagesProcessed = s.messagesProcessed ∧
          ∀ tr' s'', broker.Reaches s' tr' s'' →
            ∀ seq msg start, .published c seq msg start ∉ tr') ∧
      (reportedThroughputs tr).sum + s.messagesProcessed =
        (publishedIn tr).length := by
  refine ⟨?_, fun seq msg => mem_framesSince h htorn,
    count_framesSince h htorn, ?_, messagesProcessed_run h⟩
  · have hwritten := written_run (handlersOk_init log) h htorn
    have hparse : framesSince (EventLog.init log) s.log =
        (loggedIn tr).map fun e => e.1.frame :=
      hwritten.parse_drop
    rw [hparse]
    exact hwritten.log_eq
  · intro c n s' evs hstep
    obtain ⟨hrouter, hprocessed, -, hclosed⟩ := appendRaise_step hstep
    exact ⟨hrouter, hprocessed, fun tr' s'' h' => closed_run hclosed h'⟩

/-- Two publishers, one of them suspended between append and enqueue: its
frame is logged, and the message of the other one is in the heap. -/
theorem publishes_conserved_overlapping :
    let msg : Message :=
      { command := cmdPublish, topicId := 1, priority := 5, payload := [65] }
    (framesSince [] (msg.frame ++ msg.frame)).count msg.frame =
      [(msg, 0)].countP (fun e => e.1.frame = msg.frame) +
        [(msg, 11)].countP (fun e => e.1.frame = msg.frame) := by
  intro msg
  have hrun : broker.Reaches (.init none)
      [.registered 0, .registered 1, .told 0, .appended 0 msg 0 0, .told 1,
        .appended 1 msg 11 11, .published 0 0 msg 0,
        .router (.enqueued 0 msg)]
      { registry := { clients := [(0, []), (1, [])] }
        log := msg.frame ++ msg.frame
        router :=
          { heap := [{ negPriority := -5, seq := 0, message := msg }]
            seq := 1
            event := true
            running := true
            worker := .waiting }
        messagesProcessed := 1
        latestOffset := 11
        handlers := [.reading, .appended msg msg.frame 11 11]
        shutdown := false } :=
    System.exec_run [.connect, .connect, .receive 0 msg, .receive 1 msg,
      .tell 0, .write 0, .tell 1, .write 1, .resume 0] (by decide)
  have htorn : NoTornAppend [.registered 0, .registered 1, .told 0,
      .appended 0 msg 0 0, .told 1, .appended 1 msg 11 11, .published 0 0 msg 0,
      .router (.enqueued 0 msg)] := by
    intro c m n hmem
    simp at hmem
  exact (publishes_conserved hrun htorn).2.2.1 msg.frame

end SentinelHub.Broker
