import SentinelHub.Broker.Session

/-!
# A session is a run of the broker

The session of `SentinelHub.Broker.Session` reads and dispatches a whole stream
in one go.  Here it is taken apart into the steps of the broker: each message
it dispatches is received, and its append or its replay goes step by step until
the handler reads again; and where the session ends the handler closes.  So
what a session does is among the runs that the other results are about.
-/

namespace SentinelHub.Broker

open SentinelHub.Support

variable {s : BrokerServer} {c : ClientId} {msg : Message}
  {msgs : List Message} {stream : Bytes} {session : Session}

/-! ## Moving one handler -/

@[simp] theorem BrokerServer.setHandler_setHandler (s : BrokerServer)
    (c : ClientId) (handler handler' : Handler) :
    (s.setHandler c handler).setHandler c handler' =
      s.setHandler c handler' := by
  simp [setHandler, List.set_set]

@[simp] theorem BrokerServer.close_setHandler (s : BrokerServer)
    (c : ClientId) (handler : Handler) :
    (s.setHandler c handler).close c = s.close c := by
  simp [setHandler, close, List.set_set]

@[simp] theorem BrokerServer.setHandler_log (s : BrokerServer) (c : ClientId)
    (handler : Handler) : (s.setHandler c handler).log = s.log :=
  rfl

theorem set_reading_eq (hc : s.handlers[c]? = some .reading) :
    s.handlers.set c .reading = s.handlers := by
  obtain ⟨hlt, heq⟩ := List.getElem?_eq_some_iff.mp hc
  rw [← heq, List.set_getElem_self]

/-- Where the handler stands when its replay stands there. -/
def BrokerServer.settle (s : BrokerServer) (c : ClientId) :
    Replay → BrokerServer
  | .finished _ => s.setHandler c .reading
  | .raised _ => s.close c
  | replay => s.setHandler c (.replaying replay)

/-! ## A replay on a log at rest -/

/-- A replay that yields nothing goes on with what it reads in the log. -/
theorem advance_run (hlt : c < s.handlers.length) {replay replay' : Replay}
    (hsettle : s.settle c replay = s.setHandler c (.replaying replay))
    (hyield : replay.yieldFrame = none)
    (hadvance : replay.advance s.log = some replay') :
    ∃ tr, broker.Reaches (s.settle c replay) tr
        (s.settle c (replay.step s.log).2) ∧
      chunksTo c tr = (replay.step s.log).1 := by
  have hset : (s.setHandler c (.replaying replay)).handlers[c]? =
      some (.replaying replay) := List.getElem?_set_self hlt
  have hnext : replay.step s.log = ([], replay') := by
    rw [Replay.step, hyield, hadvance]
    rfl
  have hstep : ∃ evs, broker.step (s.setHandler c (.replaying replay))
      (.readLog c) = some (s.settle c replay', evs) ∧
        chunksTo c evs = [] := by
    simp only [broker, BrokerServer.readLog, hset,
      BrokerServer.setHandler_log, hadvance]
    cases replay' <;>
      simp [BrokerServer.settle, chunksTo, BrokerEvent.chunkTo]
  obtain ⟨evs, hstep, hchunks⟩ := hstep
  rw [hnext, hsettle]
  exact ⟨evs, System.Run.single trivial hstep, hchunks⟩

/-- A replay writes the frame that it yields, and awaits the drain. -/
theorem yield_run (hlt : c < s.handlers.length) (offset : ℕ) (frame : Bytes)
    (next : ℕ) (results : List (Bytes × ℕ)) :
    ∃ tr, broker.Reaches
        (s.setHandler c (.replaying (.yielding offset
          ((frame, next) :: results)))) tr
        (s.setHandler c (.replaying (.yielding next results))) ∧
      chunksTo c tr = [frame] := by
  have hset : ∀ handler, (s.setHandler c handler).handlers[c]? =
      some handler := fun handler => List.getElem?_set_self hlt
  have hwrite : broker.step
      (s.setHandler c (.replaying (.yielding offset
        ((frame, next) :: results)))) (.replayWrite c) =
      some (s.setHandler c (.flushing (.yielding next results)),
        [.replayed c frame offset]) := by
    simp only [broker, BrokerServer.replayWrite, hset]
    simp [Replay.yieldFrame, Replay.offset]
  have hdrain : broker.step
      (s.setHandler c (.flushing (.yielding next results)))
      (.replayDrain c true) =
      some (s.setHandler c (.replaying (.yielding next results)), []) := by
    simp only [broker, BrokerServer.replayDrain, hset]
    simp
  refine ⟨_, (System.Run.single trivial hwrite).trans
    (System.Run.single trivial hdrain), ?_⟩
  simp [chunksTo, BrokerEvent.chunkTo]

/-- One step of a replay, and the drain behind a frame that it yields. -/
theorem settle_step (hlt : c < s.handlers.length) (replay : Replay) :
    ∃ tr, broker.Reaches (s.settle c replay) tr
        (s.settle c (replay.step s.log).2) ∧
      chunksTo c tr = (replay.step s.log).1 := by
  cases replay with
  | batch offset =>
      have hsome : ∃ replay', (Replay.batch offset).advance s.log =
          some replay' := by
        rw [Replay.advance]
        split <;> exact ⟨_, rfl⟩
      obtain ⟨replay', hsome⟩ := hsome
      exact advance_run hlt rfl rfl hsome
  | reading offset read =>
      have hsome : ∃ replay', (Replay.reading offset read).advance s.log =
          some replay' := by
        rw [Replay.advance]
        split <;> exact ⟨_, rfl⟩
      obtain ⟨replay', hsome⟩ := hsome
      exact advance_run hlt rfl rfl hsome
  | yielding offset results =>
      cases results with
      | nil =>
          have hsome : (Replay.yielding offset []).advance s.log =
              some (.batch offset) := rfl
          exact advance_run hlt rfl rfl hsome
      | cons result results =>
          exact yield_run hlt offset result.1 result.2 results
  | finished offset => exact ⟨[], System.Run.nil _, rfl⟩
  | raised error => exact ⟨[], System.Run.nil _, rfl⟩

/-- Any number of steps of a replay. -/
theorem settle_run (hlt : c < s.handlers.length) (offset n : ℕ) :
    ∃ tr, broker.Reaches (s.settle c (.batch offset)) tr
        (s.settle c (replayRun (fun _ => s.log) offset n).2) ∧
      chunksTo c tr = (replayRun (fun _ => s.log) offset n).1 := by
  induction n with
  | zero => exact ⟨[], System.Run.nil _, rfl⟩
  | succ n ih =>
      obtain ⟨tr, hrun, hchunks⟩ := ih
      obtain ⟨tr', hrun', hchunks'⟩ := settle_step hlt
        (replayRun (fun _ => s.log) offset n).2
      refine ⟨tr ++ tr', hrun.trans hrun', ?_⟩
      rw [chunksTo_append, hchunks, hchunks']
      rfl

/-! ## One message -/

theorem step_receive_eq (hc : s.handlers[c]? = some .reading)
    (hwire : msg.OnWire) :
    broker.step s (.receive c msg) = some (s.dispatch c msg) :=
  if_pos ⟨hc, hwire⟩

/-- A time-travel request starts a replay. -/
theorem receive_travel (hc : s.handlers[c]? = some .reading)
    (hwire : msg.OnWire) (hsize : msg.payload.length ≤ maxPayloadBytes)
    (htravel : msg.command = cmdTimeTravel) {offset : ℕ}
    (hoffset : timeTravelOffset msg.payload = some offset) :
    broker.step s (.receive c msg) =
      some (s.settle c (.batch offset),
        [.timeTravel c msg.topicId offset]) := by
  obtain ⟨hsubscribe, hpublish⟩ := command_ne_of_timeTravel htravel
  rw [step_receive_eq hc hwire, BrokerServer.dispatch,
    if_neg (not_lt.mpr hsize), if_neg hsubscribe, if_neg hpublish,
    if_pos htravel]
  simp only [hoffset]
  rfl

/-- A publish is received, opens the log, writes, and goes on. -/
theorem publish_run (hc : s.handlers[c]? = some .reading)
    (hwire : msg.OnWire) (hsize : msg.payload.length ≤ maxPayloadBytes)
    (hpublish : msg.command = cmdPublish) :
    ∃ tr, broker.Reaches s tr (s.effect c msg) ∧ chunksTo c tr = [] := by
  have hsubscribe := (command_ne_of_publish hpublish).1
  have hlt := (List.getElem?_eq_some_iff.mp hc).1
  have hset : ∀ handler, (s.handlers.set c handler)[c]? = some handler :=
    fun handler => List.getElem?_set_self hlt
  have hreceive : broker.step s (.receive c msg) =
      some (s.setHandler c (.appending msg (.opening msg.frame)), []) := by
    rw [step_receive_eq hc hwire, BrokerServer.dispatch,
      if_neg (not_lt.mpr hsize), if_neg hsubscribe, if_pos hpublish,
      hwire.encoded]
  have htell : broker.step
      (s.setHandler c (.appending msg (.opening msg.frame))) (.tell c) =
      some (s.setHandler c (.appending msg (.opened msg.frame s.log.length)),
        [.told c]) := by
    simp only [broker, BrokerServer.tell, BrokerServer.setHandler, hset]
    simp [AppendCall.tell, List.set_set]
  let written : BrokerServer :=
    { s.setHandler c (.appended msg msg.frame s.log.length s.log.length) with
      log := s.log ++ msg.frame }
  have hwrite : broker.step
      (s.setHandler c (.appending msg (.opened msg.frame s.log.length)))
      (.write c) =
      some (written, [.appended c msg s.log.length s.log.length]) := by
    simp only [broker, BrokerServer.write, BrokerServer.setHandler, hset]
    simp [AppendCall.write, written, BrokerServer.setHandler, List.set_set]
  have hresume : broker.step written (.resume c) =
      some (s.effect c msg, [.published c s.router.seq msg s.log.length,
        .router (.enqueued s.router.seq msg)]) := by
    simp only [broker, BrokerServer.resume, written, BrokerServer.setHandler,
      hset, List.set_set]
    rw [BrokerServer.effect, if_neg hsubscribe, if_pos hpublish,
      set_reading_eq hc]
  have hbegin : broker.Reaches s [] _ := System.Run.single trivial hreceive
  have hrun := ((hbegin.snoc trivial htell).snoc trivial hwrite).snoc trivial
    hresume
  exact ⟨_, hrun, by simp [chunksTo, BrokerEvent.chunkTo]⟩

/-- Dispatching a message without an exception is a run of the broker. -/
theorem message_run (hc : s.handlers[c]? = some .reading)
    (hwire : msg.OnWire) (hsize : msg.payload.length ≤ maxPayloadBytes)
    (hseek : SeekAccepted s.log msg) :
    ∃ tr, broker.Reaches s tr (s.effect c msg) ∧
      chunksTo c tr = s.answer msg := by
  have hlarge : ¬maxPayloadBytes < msg.payload.length := not_lt.mpr hsize
  by_cases hpublish : msg.command = cmdPublish
  · have htravel := (command_ne_of_publish hpublish).2
    obtain ⟨tr, hrun, hchunks⟩ := publish_run hc hwire hsize hpublish
    exact ⟨tr, hrun, by rw [hchunks, BrokerServer.answer, if_neg htravel]⟩
  by_cases htravel : msg.command = cmdTimeTravel
  · have hsubscribe := (command_ne_of_timeTravel htravel).1
    rw [BrokerServer.answer, if_pos htravel, BrokerServer.effect,
      if_neg hsubscribe, if_neg hpublish]
    cases hoffset : timeTravelOffset msg.payload with
    | none =>
        have hreceive : broker.step s (.receive c msg) = some (s, []) := by
          rw [step_receive_eq hc hwire, BrokerServer.dispatch, if_neg hlarge,
            if_neg hsubscribe, if_neg hpublish, if_pos htravel]
          simp only [hoffset]
        exact ⟨_, System.Run.single trivial hreceive, rfl⟩
    | some offset =>
        have hlt := (List.getElem?_eq_some_iff.mp hc).1
        obtain ⟨n, stop, hfinish, hreplay⟩ :=
          replayRun_const (hseek htravel offset hoffset)
        rw [replayFrom_eq (hseek htravel offset hoffset)] at hreplay
        obtain ⟨hframes, -⟩ := Prod.mk.inj (Option.some.inj hreplay)
        obtain ⟨tr, hrun, hchunks⟩ := settle_run hlt offset n
        have hend : s.settle c (.finished stop) = s := by
          rw [BrokerServer.settle, BrokerServer.setHandler, set_reading_eq hc]
        rw [hfinish, hend] at hrun
        refine ⟨_, (System.Run.single trivial (receive_travel hc hwire hsize
          htravel hoffset)).trans hrun, ?_⟩
        rw [chunksTo_append, hchunks, ← hframes]
        rfl
  · rw [BrokerServer.answer, if_neg htravel, BrokerServer.effect]
    by_cases hsubscribe : msg.command = cmdSubscribe
    · have hreceive : broker.step s (.receive c msg) =
          some ({ s with registry := s.registry.subscribe c msg.topicId },
            [.subscribed c msg.topicId]) := by
        rw [step_receive_eq hc hwire, BrokerServer.dispatch, if_neg hlarge,
          if_pos hsubscribe]
      rw [if_pos hsubscribe]
      exact ⟨_, System.Run.single trivial hreceive, rfl⟩
    · have hreceive : broker.step s (.receive c msg) = some (s, []) := by
        rw [step_receive_eq hc hwire, BrokerServer.dispatch, if_neg hlarge,
          if_neg hsubscribe, if_neg hpublish, if_neg htravel]
      rw [if_neg hsubscribe, if_neg hpublish]
      exact ⟨_, System.Run.single trivial hreceive, rfl⟩

/-! ## The whole session -/

theorem effect_handlers (s : BrokerServer) (c : ClientId) (msg : Message) :
    (s.effect c msg).handlers = s.handlers := by
  rw [BrokerServer.effect]
  split
  · rfl
  split <;> rfl

theorem messages_run (hc : s.handlers[c]? = some .reading)
    (h : Passes s.log msgs) :
    ∃ tr, broker.Reaches s tr (s.effects c msgs) ∧
      chunksTo c tr = s.answers c msgs ∧
      (s.effects c msgs).handlers[c]? = some .reading := by
  induction msgs generalizing s with
  | nil => exact ⟨[], System.Run.nil s, rfl, hc⟩
  | cons msg msgs ih =>
      obtain ⟨⟨hwire, hsize, hseek⟩, htail⟩ := passes_cons.mp h
      rw [← effect_log s c] at htail
      obtain ⟨tr, hrun, hchunks⟩ := message_run hc hwire hsize hseek
      have hc' : (s.effect c msg).handlers[c]? = some .reading := by
        rw [effect_handlers, hc]
      obtain ⟨tr', hrun', hchunks', hc''⟩ := ih hc' htail
      refine ⟨tr ++ tr', hrun.trans hrun', ?_, hc''⟩
      rw [chunksTo_append, hchunks, hchunks']
      rfl

/-- The end of a session closes the handler. -/
theorem close_run (hc : s.handlers[c]? = some .reading) :
    ∃ tr, broker.Reaches s tr (s.close c) ∧ chunksTo c tr = [] := by
  have hstep : broker.step s (.disconnect c) =
      some (s.close c, [.unregistered c]) := if_pos hc
  exact ⟨_, System.Run.single trivial hstep, rfl⟩

/-- A refused seek closes the handler. -/
theorem refused_run (hc : s.handlers[c]? = some .reading)
    (hwire : msg.OnWire) (hsize : msg.payload.length ≤ maxPayloadBytes)
    (hseek : ¬SeekAccepted s.log msg) :
    ∃ tr, broker.Reaches s tr (s.close c) ∧ chunksTo c tr = [] := by
  rw [SeekAccepted] at hseek
  push Not at hseek
  obtain ⟨htravel, offset, hoffset, hrefused⟩ := hseek
  have hlt := (List.getElem?_eq_some_iff.mp hc).1
  obtain ⟨tr, hrun, hchunks⟩ := settle_run (c := c) hlt offset 1
  have hraised : ∃ e, replayRun (fun _ => s.log) offset 1 =
      ([], .raised e) := by
    simp only [replayRun, Replay.step, Replay.yieldFrame, Replay.advance,
      if_neg hrefused]
    exact ⟨_, rfl⟩
  obtain ⟨e, hraised⟩ := hraised
  rw [hraised] at hrun hchunks
  refine ⟨_, (System.Run.single trivial (receive_travel hc hwire hsize
    htravel hoffset)).trans hrun, ?_⟩
  rw [chunksTo_append, hchunks]
  rfl

/-- Whatever a client sends: its session ends, and it is a run of the broker,
with the same frames written to the client and the same broker at its end. -/
theorem handleClient_run (hup : s.shutdown = false) (stream : Bytes) :
    ∃ session tr, s.handleClient stream = some session ∧
      broker.Reaches s tr session.broker ∧
      chunksTo s.handlers.length tr = session.sent := by
  have hconnect : broker.step s .connect =
      some (s.accept, [.registered s.handlers.length]) :=
    if_neg (by simp [hup])
  have hc : s.accept.handlers[s.handlers.length]? = some .reading :=
    List.getElem?_concat_length
  have hstart : broker.Reaches s _ s.accept :=
    System.Run.single trivial hconnect
  by_cases hseeks : SeeksAccepted s.accept.log (admitted stream)
  · obtain ⟨rest, hpasses, -, hserve⟩ :=
      serve_accepted s.handlers.length hseeks
    obtain ⟨tr, hrun, hchunks, hc'⟩ := messages_run hc hpasses
    obtain ⟨tr', hclose, hchunks'⟩ := close_run hc'
    refine ⟨_, _, by rw [BrokerServer.handleClient, hserve]; rfl,
      (hstart.trans hrun).trans hclose, ?_⟩
    rw [chunksTo_append, chunksTo_append, hchunks, hchunks', List.append_nil]
    rfl
  · obtain ⟨msgs, msg, t, e, hpasses, hwire, hsize, hseek, -, hserve⟩ :=
      serve_refused s.handlers.length hseeks
    obtain ⟨tr, hrun, hchunks, hc'⟩ := messages_run hc hpasses
    obtain ⟨tr', hclose, hchunks'⟩ := refused_run hc' hwire hsize hseek
    refine ⟨_, _, by rw [BrokerServer.handleClient, hserve]; rfl,
      (hstart.trans hrun).trans hclose, ?_⟩
    rw [chunksTo_append, chunksTo_append, hchunks, hchunks', List.append_nil]
    rfl

end SentinelHub.Broker
