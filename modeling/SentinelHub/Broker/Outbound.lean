import SentinelHub.Broker.Stream
import SentinelHub.Broker.TimeTravel

/-!
# The stream sent to a client

Two tasks write to a client: its own handler, which copies the frames of a
replay out of the log, and the worker of the router.  A replay may start
anywhere in a log that holds anything, so that what it sends need not be what
was once published.  Yet each of its chunks is a header and as many bytes as
this header announces, and so is each chunk of the router.  The stream of a
client is therefore made of complete frames, whatever the log holds and
however the two tasks take turns.
-/

namespace SentinelHub.Broker

open SentinelHub.Support

/-! ## What is written to a client -/

/-- The bytes of the write to a client that an event stands for. -/
def BrokerEvent.chunkTo (c : ClientId) : BrokerEvent → Option Bytes
  | .replayed d frame _ => if d = c then some frame else none
  | .router (.wrote _ d frame) => if d = c then some frame else none
  | _ => none

/-- The calls of `writer.write` for a client, in their order. -/
def chunksTo (c : ClientId) (tr : List BrokerEvent) : List Bytes :=
  tr.filterMap (BrokerEvent.chunkTo c)

/-- All the bytes written to a client. -/
def streamTo (c : ClientId) (tr : List BrokerEvent) : Bytes :=
  (chunksTo c tr).flatten

variable {s s' : BrokerServer} {a : BrokerAction} {c : ClientId}
  {tr evs : List BrokerEvent} {log : Option Bytes} {content frame : Bytes}

theorem chunksTo_append (c : ClientId) (tr tr' : List BrokerEvent) :
    chunksTo c (tr ++ tr') = chunksTo c tr ++ chunksTo c tr' :=
  List.filterMap_append

theorem mem_chunksTo_iff :
    frame ∈ chunksTo c evs ↔
      (∃ start, .replayed c frame start ∈ evs) ∨
        ∃ seq, .router (.wrote seq c frame) ∈ evs := by
  rw [chunksTo, List.mem_filterMap]
  constructor
  · rintro ⟨ev, hmem, hchunk⟩
    cases ev with
    | replayed d f start =>
        simp only [BrokerEvent.chunkTo, Option.ite_none_right_eq_some,
          Option.some.injEq] at hchunk
        obtain ⟨rfl, rfl⟩ := hchunk
        exact Or.inl ⟨start, hmem⟩
    | router ev =>
        cases ev with
        | wrote seq d f =>
            simp only [BrokerEvent.chunkTo, Option.ite_none_right_eq_some,
              Option.some.injEq] at hchunk
            obtain ⟨rfl, rfl⟩ := hchunk
            exact Or.inr ⟨seq, hmem⟩
        | _ => cases hchunk
    | _ => cases hchunk
  · rintro (⟨start, hmem⟩ | ⟨seq, hmem⟩)
    · exact ⟨_, hmem, by simp [BrokerEvent.chunkTo]⟩
    · exact ⟨_, hmem, by simp [BrokerEvent.chunkTo]⟩

/-! ## The chunks of a replay -/

/-- A header and a payload of the announced length are a frame, wherever they
were read. -/
theorem isFrame_header_payload {headerData payload : Bytes}
    (hlen : headerData.length = headerSize)
    (hpayload : payload.length = (unpackHeader headerData).payloadLength) :
    wire.IsFrame (headerData ++ payload) := by
  have htake : (headerData ++ payload).take headerSize = headerData :=
    List.take_left' hlen
  constructor
  · rw [wire_headerSize, List.length_append, hlen]
    exact Nat.le_add_right _ _
  · rw [wire_frameLength, ← unpackHeader_take, htake, List.length_append,
      hlen, hpayload]

/-- The results of a batch are frames, and so will be its next one. -/
structure BatchRead.Framed (read : BatchRead) : Prop where
  results : ∀ result ∈ read.results, wire.IsFrame result.1
  header : ∀ headerData, read.headerData = some headerData →
    headerData.length = headerSize

/-- The frames that a replay has read and not yet yielded are frames. -/
def Replay.Framed : Replay → Prop
  | .reading _ read => read.Framed
  | .yielding _ results => ∀ result ∈ results, wire.IsFrame result.1
  | _ => True

/-- One read of a batch, of a file with any content at all. -/
theorem BatchRead.Framed.next (content : Bytes) {read : BatchRead}
    (h : read.Framed) :
    (∀ read', read.next content = .inl read' → read'.Framed) ∧
      ∀ results, read.next content = .inr results →
        ∀ result ∈ results, wire.IsFrame result.1 := by
  cases hheader : read.headerData with
  | none =>
      rw [BatchRead.next]
      simp only [hheader]
      split
      · refine ⟨by simp, ?_⟩
        rintro results hresults
        cases hresults
        exact h.results
      split
      · refine ⟨by simp, ?_⟩
        rintro results hresults
        cases hresults
        exact h.results
      next hlong =>
        refine ⟨?_, by simp⟩
        rintro read' hread'
        cases hread'
        refine ⟨h.results, ?_⟩
        rintro headerData hsome
        cases hsome
        exact le_antisymm (List.length_take_le _ _) (not_lt.mp hlong)
  | some headerData =>
      have hlen := h.header headerData hheader
      rw [BatchRead.next]
      simp only [hheader]
      split
      · refine ⟨by simp, ?_⟩
        rintro results hresults
        cases hresults
        exact h.results
      next hlong =>
        refine ⟨?_, by simp⟩
        rintro read' hread'
        cases hread'
        refine ⟨?_, by simp⟩
        intro result hmem
        rw [List.mem_append, List.mem_singleton] at hmem
        rcases hmem with hmem | rfl
        · exact h.results result hmem
        · apply isFrame_header_payload hlen
          exact le_antisymm (List.length_take_le _ _) (not_lt.mp hlong)

theorem Replay.Framed.advance {replay replay' : Replay} (h : replay.Framed)
    (hadvance : replay.advance content = some replay') : replay'.Framed := by
  cases replay with
  | batch offset =>
      rw [Replay.advance] at hadvance
      split at hadvance <;> cases hadvance
      · exact ⟨by simp, by simp⟩
      · trivial
  | reading offset read =>
      obtain ⟨hnext, hresults⟩ := BatchRead.Framed.next content h
      simp only [Replay.advance] at hadvance
      split at hadvance <;> cases hadvance
      next read' hread' => exact hnext read' hread'
      next results hread' =>
        rw [Replay.afterBatch]
        split
        · trivial
        · exact hresults results hread'
  | yielding offset results =>
      cases results with
      | nil =>
          cases hadvance
          trivial
      | cons => cases hadvance
  | finished => cases hadvance
  | raised => cases hadvance

theorem Replay.Framed.yieldFrame {replay replay' : Replay} (h : replay.Framed)
    (hyield : replay.yieldFrame = some (frame, replay')) :
    wire.IsFrame frame ∧ replay'.Framed := by
  cases replay with
  | yielding offset results =>
      cases results with
      | nil => cases hyield
      | cons result results =>
          cases hyield
          exact ⟨h result (List.mem_cons_self ..),
            fun result hmem => h result (List.mem_cons_of_mem _ hmem)⟩
  | _ => cases hyield

/-! ## The chunks of the router -/

/-- What the worker is writing is a frame. -/
def Worker.Framed : Worker → Prop
  | .writing _ frame _ _ _ => wire.IsFrame frame
  | .flushing _ frame _ _ _ => wire.IsFrame frame
  | _ => True

theorem Worker.framed_afterUnregister (dead : List ClientId) :
    (Worker.afterUnregister dead).Framed := by
  cases dead <;> trivial

theorem Worker.framed_afterSubscriber {frame : Bytes}
    (h : wire.IsFrame frame) (seq : ℕ) (remaining dead : List ClientId) :
    (Worker.afterSubscriber seq frame remaining dead).Framed := by
  cases remaining with
  | nil => exact framed_afterUnregister dead
  | cons => exact h

theorem PriorityRouter.framed_nextRound (r : PriorityRouter) :
    r.nextRound.Framed := by
  rw [nextRound]
  split <;> trivial

/-- The worker encodes the message it has popped, and writes nothing but
this. -/
theorem PriorityRouter.WorkerStep.framed {r r' : PriorityRouter}
    {action : WorkerAction} {evs : List RouterEvent}
    (h : r.worker.Framed) (hstep : WorkerStep r action r' evs) :
    r'.worker.Framed ∧
      ∀ seq d frame, .wrote seq d frame ∈ evs → wire.IsFrame frame := by
  cases hstep with
  | drained => exact ⟨framed_nextRound r, by simp⟩
  | lookup seq msg frame client remaining hworker hencoded =>
      obtain ⟨hwire, rfl⟩ := Message.encoded_eq_ok.mp hencoded
      exact ⟨hwire.isFrame, by simp⟩
  | write seq frame client remaining dead hworker =>
      rw [hworker] at h
      refine ⟨h, ?_⟩
      intro seq' d frame' hmem
      rw [List.mem_singleton] at hmem
      cases hmem
      exact h
  | writeFailed seq frame client remaining dead hworker =>
      rw [hworker] at h
      exact ⟨Worker.framed_afterSubscriber h _ _ _, by simp⟩
  | drain seq frame client remaining dead hworker =>
      rw [hworker] at h
      exact ⟨Worker.framed_afterSubscriber h _ _ _, by simp⟩
  | drainFailed seq frame client remaining dead hworker =>
      rw [hworker] at h
      exact ⟨Worker.framed_afterSubscriber h _ _ _, by simp⟩
  | unregister => exact ⟨Worker.framed_afterUnregister _, by simp⟩
  | backoffOver => exact ⟨framed_nextRound r, by simp⟩
  | _ => exact ⟨trivial, by simp⟩

/-! ## The stream -/

/-- The handler replays nothing but frames. -/
def Handler.Framed (handler : Handler) : Prop :=
  ∀ replay, handler.replay = some replay → replay.Framed

theorem Handler.framed_of_replay {handler : Handler}
    (h : handler.replay = none) : handler.Framed := by
  intro replay hreplay
  rw [h] at hreplay
  cases hreplay

/-- Everything that the broker is about to write to its clients is a frame. -/
structure Outbound (s : BrokerServer) : Prop where
  handlers : ∀ handler ∈ s.handlers, handler.Framed
  worker : s.router.worker.Framed

theorem outbound_init (log : Option Bytes) : Outbound (.init log) where
  handlers handler hmem := by cases hmem
  worker := trivial

theorem Outbound.replay {handler : Handler} {replay : Replay}
    (h : Outbound s) (hc : s.handlers[c]? = some handler)
    (hreplay : handler.replay = some replay) : replay.Framed :=
  h.handlers handler (List.mem_of_getElem? hc) replay hreplay

/-- A step writes only frames, and afterwards there are still only frames to
write. -/
theorem Outbound.step (h : Outbound s) (hstep : BrokerStep s a s' evs) :
    Outbound s' ∧ ∀ frame ∈ chunksTo c evs, wire.IsFrame frame := by
  cases hstep with
  | connect =>
      refine ⟨⟨?_, h.worker⟩, by simp [chunksTo, BrokerEvent.chunkTo]⟩
      exact forall_mem_concat h.handlers (Handler.framed_of_replay rfl)
  | timeTravel d msg offset hc =>
      refine ⟨⟨?_, h.worker⟩, by simp [chunksTo, BrokerEvent.chunkTo]⟩
      apply forall_mem_set h.handlers
      rintro replay ⟨⟩
      trivial
  | replayAdvance d replay replay' hc hadvance =>
      refine ⟨⟨?_, h.worker⟩, by simp [chunksTo]⟩
      apply forall_mem_set h.handlers
      rintro replay'' ⟨⟩
      exact (h.replay hc rfl).advance hadvance
  | replayWrite d replay replay' frame hc hyield =>
      obtain ⟨hframe, hreplay⟩ := (h.replay hc rfl).yieldFrame hyield
      refine ⟨⟨?_, h.worker⟩, ?_⟩
      · apply forall_mem_set h.handlers
        rintro replay'' ⟨⟩
        exact hreplay
      · intro f hf
        rw [mem_chunksTo_iff] at hf
        rcases hf with ⟨start, hmem⟩ | ⟨seq, hmem⟩
        · rw [List.mem_singleton] at hmem
          cases hmem
          exact hframe
        · simp at hmem
  | replayDrain d replay hc =>
      refine ⟨⟨?_, h.worker⟩, by simp [chunksTo]⟩
      apply forall_mem_set h.handlers
      rintro replay'' ⟨⟩
      exact h.replay hc rfl
  | worker action r evs hlooksUp hstep =>
      obtain ⟨hworker, hwrote⟩ :=
        (PriorityRouter.workerStep_of_eq hstep).framed h.worker
      refine ⟨⟨h.handlers, hworker⟩, ?_⟩
      intro f hf
      rw [mem_chunksTo_iff] at hf
      rcases hf with ⟨start, hmem⟩ | ⟨seq, hmem⟩
      · simp at hmem
      · simp only [List.mem_map, BrokerEvent.router.injEq,
          exists_eq_right] at hmem
        exact hwrote seq c f hmem
  | subscribe =>
      exact ⟨⟨h.handlers, h.worker⟩, by simp [chunksTo, BrokerEvent.chunkTo]⟩
  | ignore => exact ⟨h, by simp [chunksTo]⟩
  | metricsTick =>
      exact ⟨⟨h.handlers, h.worker⟩, by simp [chunksTo, BrokerEvent.chunkTo]⟩
  | stop =>
      exact ⟨⟨h.handlers, h.worker⟩, by simp [chunksTo, BrokerEvent.chunkTo]⟩
  | stopRouter =>
      refine ⟨⟨h.handlers, ?_⟩, by simp [chunksTo, BrokerEvent.chunkTo]⟩
      exact PriorityRouter.worker_stop_cases
        (motive := Worker.Framed) s.router trivial trivial
  | _ =>
      refine ⟨⟨?_, h.worker⟩, by simp [chunksTo, BrokerEvent.chunkTo]⟩
      exact forall_mem_set h.handlers (Handler.framed_of_replay rfl)

theorem outbound_run (h : broker.Reaches (.init log) tr s) (c : ClientId) :
    Outbound s ∧ ∀ frame ∈ chunksTo c tr, wire.IsFrame frame := by
  refine h.invariant (I := fun tr s =>
    Outbound s ∧ ∀ frame ∈ chunksTo c tr, wire.IsFrame frame)
    ⟨outbound_init log, by simp [chunksTo]⟩ ?_
  rintro tr t a u evs ⟨hout, hframes⟩ _ hstep
  obtain ⟨hout', hframes'⟩ :=
    hout.step (c := c) (BrokerServer.step_of_eq hstep)
  refine ⟨hout', ?_⟩
  intro frame hmem
  rw [chunksTo_append, List.mem_append] at hmem
  exact hmem.elim (hframes frame) (hframes' frame)

/-- In every state that the broker reaches on any log, each write to a client
was a complete frame, and who reads the client's stream with `read_message`
gets exactly these frames, in the order in which they were written, with
nothing left over. -/
theorem stream_framed (h : broker.Reaches (.init log) tr s) (c : ClientId) :
    (∀ frame ∈ chunksTo c tr, headerSize ≤ frame.length ∧
      frame.length = headerSize + (unpackHeader frame).payloadLength) ∧
    ∃ msgs, readMessages (streamTo c tr) =
        (msgs, .error .incompleteReadError) ∧
      msgs.mapM Message.encoded = .ok (chunksTo c tr) ∧
      wire.rest (streamTo c tr) = [] := by
  obtain ⟨-, hframes⟩ := outbound_run h c
  refine ⟨?_, (chunksTo c tr).map Message.ofFrame, ?_,
    encoded_map_ofFrame hframes, ?_⟩
  · intro frame hmem
    obtain ⟨hheader, hlen⟩ := hframes frame hmem
    rw [wire_frameLength] at hlen
    exact ⟨hheader, hlen⟩
  · rw [readMessages_eq, streamTo, Framing.parse_flatten hframes]
  · have hrest := Framing.rest_flatten_append hframes []
    rw [List.append_nil] at hrest
    rw [streamTo, hrest]
    exact Framing.rest_of_not_hasFrame Framing.not_hasFrame_nil

/-- A client replays a log that nobody has published while the router writes
to it: what it gets are the ten zero bytes that stand there like a frame, and
the frame of the router. -/
theorem stream_framed_corrupted :
    let msg : Message :=
      { command := cmdPublish, topicId := 1, priority := 5, payload := [65] }
    ∃ tr s, broker.Reaches (.init (some (List.replicate 10 0 ++ [1]))) tr s ∧
      chunksTo 0 tr = [List.replicate 10 0, msg.frame] ∧
      wire.rest (streamTo 0 tr) = [] := by
  intro msg
  have hrun : broker.Reaches (.init (some (List.replicate 10 0 ++ [1])))
      [.registered 0, .subscribed 0 1, .told 0, .appended 0 msg 11 11,
        .published 0 0 msg 11, .router (.enqueued 0 msg), .timeTravel 0 1 0,
        .replayed 0 (List.replicate 10 0) 0, .router (.handedOver 0 msg),
        .router (.wrote 0 0 msg.frame)]
      { registry := { clients := [(0, [1])] }
        log := List.replicate 10 0 ++ [1] ++ msg.frame
        router :=
          { heap := []
            seq := 1
            event := false
            running := true
            worker := .flushing 0 msg.frame 0 [] [] }
        messagesProcessed := 1
        latestOffset := 22
        handlers := [.flushing (.yielding 10 [])]
        shutdown := false } :=
    System.exec_run [.connect,
      .receive 0
        { command := cmdSubscribe, topicId := 1, priority := 0, payload := [] },
      .receive 0 msg, .tell 0, .write 0, .resume 0,
      .receive 0
        { command := cmdTimeTravel, topicId := 1, priority := 0
          payload := List.replicate 8 0 },
      .readLog 0, .readLog 0, .readLog 0, .readLog 0, .readLog 0,
      .replayWrite 0, .worker .wake, .worker .pop, .worker (.lookup [0]),
      .worker (.write true)] (by decide)
  obtain ⟨-, msgs, -, -, hrest⟩ := stream_framed hrun 0
  exact ⟨_, _, hrun, by decide, hrest⟩

end SentinelHub.Broker
