import Mathlib.Data.List.TakeWhile
import SentinelHub.Broker.Outbound

/-!
# A session from its first byte to its last

`_handle_client` on all the bytes that a client sends before it closes its
connection, run to the end while nothing else goes on: every append succeeds,
and so does every write to the client's socket.  The session keeps note of how
many bytes it takes from the stream for each frame, and of the exception that
leaves it, if one does.

The effect of a session is compared with dispatching, in order, the messages
before the first frame that is cut or too large, and its last part shows that
the session is one of the runs of the broker with all its other clients.
-/

namespace SentinelHub.Broker

open SentinelHub.Support

/-! ## Dispatching one message -/

/-- The broker behind a call of `_dispatch`, the frames written to the client,
and the exception that leaves the call, if any. -/
structure Dispatched where
  broker : BrokerServer
  sent : List Bytes
  outcome : Except PyError Unit

namespace BrokerServer

variable (s : BrokerServer) (c : ClientId) (msg : Message)

/-- `_handle_subscribe`. -/
def handleSubscribe : BrokerServer :=
  { s with registry := s.registry.subscribe c msg.topicId }

/-- `_handle_publish`. -/
def handlePublish : Except PyError BrokerServer :=
  match msg.encoded with
  | .error e => .error e
  | .ok frame =>
      let (log, offset) := EventLog.syncAppend s.log frame
      .ok { s with
        log
        latestOffset := offset + frame.length
        messagesProcessed := s.messagesProcessed + 1
        router := s.router.enqueue msg }

/-- `_handle_time_travel`: the frames written and the exception raised.  What
a seek can raise is none of the exceptions that are caught there.  `none`
stands for a replay that does not end. -/
def replayTo : Option (List Bytes × Except PyError Unit) :=
  match timeTravelOffset msg.payload with
  | none => some ([], .ok ())
  | some offset =>
      match replayFrom s.log offset with
      | none => none
      | some (frames, .finished _) => some (frames, .ok ())
      | some (frames, .raised e) => some (frames, .error e)

/-- `_dispatch`. -/
def runDispatch : Option Dispatched :=
  if msg.command = cmdSubscribe then
    some ⟨s.handleSubscribe c msg, [], .ok ()⟩
  else if msg.command = cmdPublish then
    match s.handlePublish msg with
    | .error e => some ⟨s, [], .error e⟩
    | .ok s' => some ⟨s', [], .ok ()⟩
  else if msg.command = cmdTimeTravel then
    match s.replayTo msg with
    | none => none
    | some (sent, outcome) => some ⟨s, sent, outcome⟩
  else some ⟨s, [], .ok ()⟩

end BrokerServer

/-! ## The session -/

/-- What one call of `read_message` finds and takes: the payload length that
the header announces, if there is a whole header, and the number of bytes
taken from the stream. -/
structure FrameRead where
  announced : Option ℕ
  taken : ℕ
  deriving DecidableEq, Repr

/-- A `readexactly` that raises has taken all that was left. -/
def frameRead (stream : Bytes) : FrameRead where
  announced :=
    if stream.length < headerSize then none
    else some (unpackHeader stream).payloadLength
  taken :=
    match readMessage stream with
    | .ok (_, rest) => stream.length - rest.length
    | .error _ => stream.length

/-- A session: the broker behind it, the frames written to the client, the
calls of `read_message`, and the exception that leaves the handler, if any. -/
structure Session where
  broker : BrokerServer
  sent : List Bytes
  reads : List FrameRead
  outcome : Except PyError Unit

/-- A session with what went before it. -/
def Session.behind (sent : List Bytes) (reads : List FrameRead)
    (session : Session) : Session :=
  { session with
    sent := sent ++ session.sent
    reads := reads ++ session.reads }

/-- The `while True` loop of `_handle_client`.  None of the exceptions of
decoding and seeking is caught around the loop. -/
def serve (c : ClientId) (s : BrokerServer) (stream : Bytes) :
    Option Session :=
  match h : readMessage stream with
  | .error .incompleteReadError =>
      some ⟨s, [], [frameRead stream], .ok ()⟩
  | .error e => some ⟨s, [], [frameRead stream], .error e⟩
  | .ok (msg, rest) =>
      have : rest.length < stream.length := by
        obtain ⟨-, rfl⟩ := readMessage_eq_ok.mp h
        rw [List.length_append, Message.length_frame, headerSize]
        omega
      if maxPayloadBytes < msg.payload.length then
        some ⟨s, [], [frameRead stream], .ok ()⟩
      else
        match s.runDispatch c msg with
        | none => none
        | some ⟨s', sent, .error e⟩ =>
            some ⟨s', sent, [frameRead stream], .error e⟩
        | some ⟨s', sent, .ok ()⟩ =>
            (serve c s' rest).map (.behind sent [frameRead stream])
termination_by stream.length

namespace BrokerServer

/-- The registration at the start of `_handle_client`. -/
def accept (s : BrokerServer) : BrokerServer :=
  { s with
    registry := s.registry.register s.handlers.length
    handlers := s.handlers ++ [.reading] }

/-- `_handle_client` of the next client, who sends `stream` and closes the
connection. -/
def handleClient (s : BrokerServer) (stream : Bytes) : Option Session :=
  (serve s.handlers.length s.accept stream).map fun session =>
    { session with broker := session.broker.close s.handlers.length }

end BrokerServer

/-! ## What a message does -/

/-- The messages that a session is to dispatch: those whose frames are complete
and come before the first one that is too large. -/
def admitted (stream : Bytes) : List Message :=
  (readMessages stream).1.takeWhile fun msg =>
    msg.payload.length ≤ maxPayloadBytes

/-- What a message does to the broker: a subscription goes to the registry, a
publish to the log and the router, and everything else does nothing. -/
def BrokerServer.effect (s : BrokerServer) (c : ClientId) (msg : Message) :
    BrokerServer :=
  if msg.command = cmdSubscribe then
    { s with registry := s.registry.subscribe c msg.topicId }
  else if msg.command = cmdPublish then
    { s with
      log := s.log ++ msg.frame
      latestOffset := s.log.length + msg.frame.length
      messagesProcessed := s.messagesProcessed + 1
      router := s.router.enqueue msg }
  else s

/-- What some messages do, one after the other. -/
def BrokerServer.effects (s : BrokerServer) (c : ClientId)
    (msgs : List Message) : BrokerServer :=
  msgs.foldl (fun s msg => s.effect c msg) s

/-- What a time-travel request is answered with. -/
def BrokerServer.answer (s : BrokerServer) (msg : Message) : List Bytes :=
  if msg.command = cmdTimeTravel then
    match timeTravelOffset msg.payload with
    | none => []
    | some offset => wire.parse (s.log.drop offset)
  else []

/-- What the time-travel requests among some messages are answered with. -/
def BrokerServer.answers (s : BrokerServer) (c : ClientId) :
    List Message → List Bytes
  | [] => []
  | msg :: msgs => s.answer msg ++ (s.effect c msg).answers c msgs

/-- The log behind some messages. -/
def logAfter (log : Bytes) (msgs : List Message) : Bytes :=
  log ++ ((msgs.filter fun msg => msg.command = cmdPublish).map
    Message.frame).flatten

/-- The log takes a seek to the offset that the message asks for, if it asks
for one. -/
def SeekAccepted (log : Bytes) (msg : Message) : Prop :=
  msg.command = cmdTimeTravel → ∀ offset,
    timeTravelOffset msg.payload = some offset →
      seekAccepts log offset = true

/-- Every offset asked for is below `2 ^ 63`, or not behind the end of the log
of that moment. -/
def SeeksAccepted (log : Bytes) (msgs : List Message) : Prop :=
  ∀ before msg after, msgs = before ++ msg :: after →
    SeekAccepted (logAfter log before) msg

/-- What a session is to come to: it ends without an exception, its client is
not registered any more, and what it has done to the log, the router and the
registry is what the admitted messages do. -/
def SessionSound (s : BrokerServer) (stream : Bytes) : Prop :=
  ∃ session, s.handleClient stream = some session ∧
    session.outcome = .ok () ∧
    (∀ entry ∈ session.broker.registry.clients,
      entry.1 ≠ s.handlers.length) ∧
    let t := s.accept.effects s.handlers.length (admitted stream)
    session.broker.log = t.log ∧ session.broker.router = t.router ∧
      session.broker.registry = t.registry.unregister s.handlers.length

variable {s : BrokerServer} {c : ClientId} {msg : Message}
  {msgs : List Message} {stream rest log : Bytes} {session : Session}

/-! ## Dispatching is the effect of the message -/

theorem command_ne_of_subscribe (h : msg.command = cmdSubscribe) :
    msg.command ≠ cmdPublish ∧ msg.command ≠ cmdTimeTravel := by
  rw [h]
  decide

theorem command_ne_of_publish (h : msg.command = cmdPublish) :
    msg.command ≠ cmdSubscribe ∧ msg.command ≠ cmdTimeTravel := by
  rw [h]
  decide

theorem command_ne_of_timeTravel (h : msg.command = cmdTimeTravel) :
    msg.command ≠ cmdSubscribe ∧ msg.command ≠ cmdPublish := by
  rw [h]
  decide

theorem effect_log (s : BrokerServer) (c : ClientId) (msg : Message) :
    (s.effect c msg).log = logAfter s.log [msg] := by
  rw [BrokerServer.effect, logAfter]
  by_cases hsubscribe : msg.command = cmdSubscribe
  · rw [if_pos hsubscribe]
    simp [(command_ne_of_subscribe hsubscribe).1]
  rw [if_neg hsubscribe]
  by_cases hpublish : msg.command = cmdPublish
  · rw [if_pos hpublish]
    simp [hpublish]
  · rw [if_neg hpublish]
    simp [hpublish]

theorem replayFrom_rejected {offset : ℕ}
    (h : seekAccepts log offset = false) :
    ∃ e, replayFrom log offset = some ([], .raised e) :=
  ⟨_, by rw [replayFrom, asyncReader, syncReadBatch, h]; rfl⟩

/-- A message whose seek is accepted is dispatched without an exception. -/
theorem runDispatch_eq (hwire : msg.OnWire) (hseek : SeekAccepted s.log msg) :
    s.runDispatch c msg = some ⟨s.effect c msg, s.answer msg, .ok ()⟩ := by
  rw [BrokerServer.runDispatch, BrokerServer.effect, BrokerServer.answer]
  by_cases hsubscribe : msg.command = cmdSubscribe
  · rw [if_pos hsubscribe, if_pos hsubscribe,
      if_neg (command_ne_of_subscribe hsubscribe).2]
    rfl
  rw [if_neg hsubscribe, if_neg hsubscribe]
  by_cases hpublish : msg.command = cmdPublish
  · rw [if_pos hpublish, if_pos hpublish,
      if_neg (command_ne_of_publish hpublish).2,
      BrokerServer.handlePublish, hwire.encoded]
    rfl
  rw [if_neg hpublish, if_neg hpublish]
  by_cases htravel : msg.command = cmdTimeTravel
  · rw [if_pos htravel, if_pos htravel, BrokerServer.replayTo]
    cases hoffset : timeTravelOffset msg.payload with
    | none => rfl
    | some offset =>
        simp only [replayFrom_eq (hseek htravel offset hoffset)]
  · rw [if_neg htravel, if_neg htravel]

/-- A seek that is refused leaves `_dispatch` as an exception. -/
theorem runDispatch_rejected (hseek : ¬SeekAccepted s.log msg) :
    ∃ e, s.runDispatch c msg = some ⟨s, [], .error e⟩ := by
  rw [SeekAccepted] at hseek
  push Not at hseek
  obtain ⟨htravel, offset, hoffset, hrejected⟩ := hseek
  obtain ⟨e, hreplay⟩ :=
    replayFrom_rejected (Bool.eq_false_of_not_eq_true hrejected)
  obtain ⟨hsubscribe, hpublish⟩ := command_ne_of_timeTravel htravel
  refine ⟨e, ?_⟩
  rw [BrokerServer.runDispatch, if_neg hsubscribe, if_neg hpublish,
    if_pos htravel, BrokerServer.replayTo]
  simp only [hoffset, hreplay]

/-! ## One frame of a session -/

/-- The call that reads the frame of a message. -/
def Message.frameRead (msg : Message) : FrameRead :=
  ⟨some msg.payload.length, msg.frame.length⟩

theorem frameRead_frame_append (hwire : msg.OnWire) (t : Bytes) :
    frameRead (msg.frame ++ t) = msg.frameRead := by
  have hread : readMessage (msg.frame ++ t) = .ok (msg, t) :=
    readMessage_eq_ok.mpr ⟨hwire, rfl⟩
  have hlong : ¬(msg.frame ++ t).length < headerSize := by
    rw [List.length_append, Message.length_frame]
    omega
  have htaken : (msg.frame ++ t).length - t.length = msg.frame.length := by
    rw [List.length_append, Nat.add_sub_cancel]
  rw [frameRead, hread, if_neg hlong, hwire.unpackHeader_frame_append]
  simp only [htaken]
  rfl

/-- At a frame that was cut the session ends. -/
theorem serve_cut (h : CutFrame stream) :
    serve c s stream = some ⟨s, [], [frameRead stream], .ok ()⟩ := by
  have hread :=
    readMessage_of_not_hasFrame (cutFrame_iff_not_hasFrame.mp h)
  rw [serve]
  split
  next => rfl
  next e hother herror =>
    rw [hread] at herror
    cases herror
    exact absurd rfl hother
  next hok =>
    rw [hread] at hok
    cases hok

/-- A message that has been read is dispatched, unless it is too large. -/
theorem serve_ok (hread : readMessage stream = .ok (msg, rest)) :
    serve c s stream =
      if maxPayloadBytes < msg.payload.length then
        some ⟨s, [], [frameRead stream], .ok ()⟩
      else
        match s.runDispatch c msg with
        | none => none
        | some ⟨s', sent, .error e⟩ =>
            some ⟨s', sent, [frameRead stream], .error e⟩
        | some ⟨s', sent, .ok ()⟩ =>
            (serve c s' rest).map (.behind sent [frameRead stream]) := by
  rw [serve]
  split
  next h =>
    rw [hread] at h
    cases h
  next h =>
    rw [hread] at h
    cases h
  next h =>
    rw [hread] at h
    cases h
    rfl

/-- At a frame that is too large the session ends. -/
theorem serve_tooLarge (hwire : msg.OnWire)
    (hsize : maxPayloadBytes < msg.payload.length) (t : Bytes) :
    serve c s (msg.frame ++ t) = some ⟨s, [], [msg.frameRead], .ok ()⟩ := by
  rw [serve_ok (readMessage_eq_ok.mpr ⟨hwire, rfl⟩), if_pos hsize,
    frameRead_frame_append hwire]

/-- At a seek that is refused the session ends with an exception. -/
theorem serve_rejected (hwire : msg.OnWire)
    (hsize : msg.payload.length ≤ maxPayloadBytes)
    (hseek : ¬SeekAccepted s.log msg) (t : Bytes) :
    ∃ e, serve c s (msg.frame ++ t) =
      some ⟨s, [], [msg.frameRead], .error e⟩ := by
  obtain ⟨e, hdispatch⟩ := runDispatch_rejected (c := c) hseek
  refine ⟨e, ?_⟩
  rw [serve_ok (readMessage_eq_ok.mpr ⟨hwire, rfl⟩),
    if_neg (not_lt.mpr hsize), hdispatch, frameRead_frame_append hwire]

/-- Every other message is dispatched, and the session goes on. -/
theorem serve_frame (hwire : msg.OnWire)
    (hsize : msg.payload.length ≤ maxPayloadBytes)
    (hseek : SeekAccepted s.log msg) (t : Bytes) :
    serve c s (msg.frame ++ t) =
      (serve c (s.effect c msg) t).map
        (.behind (s.answer msg) [msg.frameRead]) := by
  rw [serve_ok (readMessage_eq_ok.mpr ⟨hwire, rfl⟩),
    if_neg (not_lt.mpr hsize), runDispatch_eq hwire hseek,
    frameRead_frame_append hwire]

/-! ## The frames of a session, one after the other -/

theorem seeksAccepted_nil (log : Bytes) : SeeksAccepted log [] := by
  intro before msg after h
  simp at h

theorem logAfter_cons (log : Bytes) (msg : Message) (msgs : List Message) :
    logAfter log (msg :: msgs) = logAfter (logAfter log [msg]) msgs := by
  by_cases hpublish : msg.command = cmdPublish <;> simp [logAfter, hpublish]

theorem logAfter_nil (log : Bytes) : logAfter log [] = log := by
  simp [logAfter]

theorem seeksAccepted_cons :
    SeeksAccepted log (msg :: msgs) ↔
      SeekAccepted log msg ∧ SeeksAccepted (logAfter log [msg]) msgs := by
  constructor
  · intro h
    refine ⟨?_, ?_⟩
    · have hfirst := h [] msg msgs rfl
      rwa [logAfter_nil] at hfirst
    · intro before msg' after heq
      have hlater := h (msg :: before) msg' after (by rw [heq]; rfl)
      rwa [logAfter_cons] at hlater
  · rintro ⟨hfirst, hrest⟩ before msg' after heq
    cases before with
    | nil =>
        obtain ⟨rfl, -⟩ := List.cons.inj heq
        rwa [logAfter_nil]
    | cons m before =>
        obtain ⟨rfl, rfl⟩ := List.cons.inj heq
        rw [logAfter_cons]
        exact hrest before msg' after rfl

/-- Where not all seeks are accepted there is a first one that is not. -/
theorem exists_rejected (h : ¬SeeksAccepted log msgs) :
    ∃ before msg after, msgs = before ++ msg :: after ∧
      SeeksAccepted log before ∧ ¬SeekAccepted (logAfter log before) msg := by
  induction msgs generalizing log with
  | nil => exact absurd (seeksAccepted_nil log) h
  | cons m msgs ih =>
      by_cases hfirst : SeekAccepted log m
      · have hrest : ¬SeeksAccepted (logAfter log [m]) msgs :=
          fun hrest => h (seeksAccepted_cons.mpr ⟨hfirst, hrest⟩)
        obtain ⟨before, msg, after, rfl, hbefore, hmsg⟩ := ih hrest
        refine ⟨m :: before, msg, after, rfl,
          seeksAccepted_cons.mpr ⟨hfirst, hbefore⟩, ?_⟩
        rwa [logAfter_cons]
      · refine ⟨[], m, msgs, rfl, seeksAccepted_nil log, ?_⟩
        rwa [logAfter_nil]

theorem effects_log (s : BrokerServer) (c : ClientId) (msgs : List Message) :
    (s.effects c msgs).log = logAfter s.log msgs := by
  induction msgs generalizing s with
  | nil => exact (logAfter_nil s.log).symm
  | cons msg msgs ih =>
      rw [logAfter_cons, ← effect_log s c]
      exact ih (s.effect c msg)

/-- The messages that a session may go through without coming to its end. -/
structure Passes (log : Bytes) (msgs : List Message) : Prop where
  onWire : ∀ msg ∈ msgs, msg.OnWire
  size : ∀ msg ∈ msgs, msg.payload.length ≤ maxPayloadBytes
  seeks : SeeksAccepted log msgs

theorem passes_cons :
    Passes log (msg :: msgs) ↔
      (msg.OnWire ∧ msg.payload.length ≤ maxPayloadBytes ∧
        SeekAccepted log msg) ∧ Passes (logAfter log [msg]) msgs := by
  constructor
  · rintro ⟨hwire, hsize, hseeks⟩
    obtain ⟨hfirst, hrest⟩ := seeksAccepted_cons.mp hseeks
    rw [List.forall_mem_cons] at hwire hsize
    exact ⟨⟨hwire.1, hsize.1, hfirst⟩, hwire.2, hsize.2, hrest⟩
  · rintro ⟨⟨hwire, hsize, hfirst⟩, hwires, hsizes, hrest⟩
    exact ⟨List.forall_mem_cons.mpr ⟨hwire, hwires⟩,
      List.forall_mem_cons.mpr ⟨hsize, hsizes⟩,
      seeksAccepted_cons.mpr ⟨hfirst, hrest⟩⟩

/-- A session goes through such messages with their effect. -/
theorem serve_frames (h : Passes s.log msgs) (rest : Bytes) :
    serve c s ((msgs.map Message.frame).flatten ++ rest) =
      (serve c (s.effects c msgs) rest).map
        (.behind (s.answers c msgs) (msgs.map Message.frameRead)) := by
  induction msgs generalizing s with
  | nil =>
      have hbehind : Session.behind [] [] = id := rfl
      simp only [List.map_nil, List.flatten_nil, List.nil_append,
        BrokerServer.answers, hbehind, Option.map_id]
      rfl
  | cons msg msgs ih =>
      obtain ⟨⟨hwire, hsize, hseek⟩, htail⟩ := passes_cons.mp h
      rw [← effect_log s c] at htail
      have hbehind : ∀ session : Session,
          Session.behind (s.answer msg) [msg.frameRead]
              (Session.behind ((s.effect c msg).answers c msgs)
                (msgs.map Message.frameRead) session) =
            Session.behind (s.answers c (msg :: msgs))
              ((msg :: msgs).map Message.frameRead) session := by
        intro session
        simp [Session.behind, BrokerServer.answers]
      rw [List.map_cons, List.flatten_cons, List.append_assoc,
        serve_frame hwire hsize hseek, ih htail, Option.map_map]
      congr 1
      funext session
      exact hbehind session

/-! ## Where a session ends -/

/-- Behind the admitted messages stands a frame that was cut, or one that is
too large. -/
theorem admitted_rest (stream : Bytes) :
    ∃ rest, stream = ((admitted stream).map Message.frame).flatten ++ rest ∧
      (∀ msg ∈ admitted stream,
        msg.OnWire ∧ msg.payload.length ≤ maxPayloadBytes) ∧
      (CutFrame rest ∨ ∃ (msg : Message) (t : Bytes), msg.OnWire ∧
        maxPayloadBytes < msg.payload.length ∧ rest = msg.frame ++ t) := by
  let fits : Message → Bool := fun msg => msg.payload.length ≤ maxPayloadBytes
  let all := (readMessages stream).1
  have hall : all = (wire.parse stream).map Message.ofFrame := by
    rw [show all = (readMessages stream).1 from rfl, readMessages_eq]
  obtain ⟨hwire, hframes⟩ := mapM_encoded_eq_ok.mp
    (encoded_map_ofFrame (Framing.isFrame_of_mem_parse (F := wire)
      (s := stream)))
  rw [← hall] at hwire hframes
  have hstream : stream =
      (all.map Message.frame).flatten ++ wire.rest stream := by
    rw [← hframes, Framing.flatten_parse_append_rest]
  have hsplit : admitted stream ++ all.dropWhile fits = all :=
    List.takeWhile_append_dropWhile
  have hadmitted : ∀ msg ∈ admitted stream,
      msg.OnWire ∧ msg.payload.length ≤ maxPayloadBytes := by
    intro msg hmem
    have hfits : fits msg = true := List.mem_takeWhile_imp hmem
    refine ⟨hwire msg ?_, of_decide_eq_true hfits⟩
    rw [← hsplit]
    exact List.mem_append_left _ hmem
  rw [← hsplit, List.map_append, List.flatten_append,
    List.append_assoc] at hstream
  refine ⟨_, hstream, hadmitted, ?_⟩
  cases hlater : all.dropWhile fits with
  | nil =>
      left
      rw [List.map_nil, List.flatten_nil, List.nil_append,
        cutFrame_iff_not_hasFrame]
      exact Framing.not_hasFrame_rest stream
  | cons msg later =>
      right
      have hmem : msg ∈ all := by
        rw [← hsplit, hlater]
        exact List.mem_append_right _ (List.mem_cons_self ..)
      have hlarge : fits msg = false := by
        have hhead := List.head?_dropWhile_not fits all
        rwa [hlater] at hhead
      refine ⟨msg, (later.map Message.frame).flatten ++ wire.rest stream,
        hwire msg hmem, not_le.mp (of_decide_eq_false hlarge), ?_⟩
      rw [List.map_cons, List.flatten_cons, List.append_assoc]

/-- A session that has no seek refused goes through all admitted messages. -/
theorem serve_accepted (c : ClientId)
    (h : SeeksAccepted s.log (admitted stream)) :
    ∃ rest, Passes s.log (admitted stream) ∧
      stream = ((admitted stream).map Message.frame).flatten ++ rest ∧
      serve c s stream = some
        { broker := s.effects c (admitted stream)
          sent := s.answers c (admitted stream)
          reads := (admitted stream).map Message.frameRead ++ [frameRead rest]
          outcome := .ok () } := by
  obtain ⟨rest, hstream, hadmitted, hend⟩ := admitted_rest stream
  have hpasses : Passes s.log (admitted stream) :=
    ⟨fun msg hm => (hadmitted msg hm).1, fun msg hm => (hadmitted msg hm).2, h⟩
  refine ⟨rest, hpasses, hstream, ?_⟩
  have hlast : ∀ t : BrokerServer,
      serve c t rest = some ⟨t, [], [frameRead rest], .ok ()⟩ := by
    intro t
    rcases hend with hcut | ⟨msg, tail, hwire, hsize, rfl⟩
    · exact serve_cut hcut
    · rw [serve_tooLarge hwire hsize, frameRead_frame_append hwire]
  conv_lhs => rw [hstream]
  rw [serve_frames hpasses, hlast]
  simp [Session.behind]

/-- A session that has a seek refused ends there, with an exception. -/
theorem serve_refused (c : ClientId)
    (h : ¬SeeksAccepted s.log (admitted stream)) :
    ∃ (msgs : List Message) (msg : Message) (t : Bytes) (e : PyError),
      Passes s.log msgs ∧ msg.OnWire ∧
      msg.payload.length ≤ maxPayloadBytes ∧
      ¬SeekAccepted (s.effects c msgs).log msg ∧
      stream = (msgs.map Message.frame).flatten ++ (msg.frame ++ t) ∧
      serve c s stream = some
        { broker := s.effects c msgs
          sent := s.answers c msgs
          reads := msgs.map Message.frameRead ++ [frameRead (msg.frame ++ t)]
          outcome := .error e } := by
  obtain ⟨rest, hstream, hadmitted, -⟩ := admitted_rest stream
  obtain ⟨before, msg, after, heq, hbefore, hmsg⟩ := exists_rejected h
  rw [heq] at hadmitted
  have hpasses : Passes s.log before :=
    ⟨fun m hm => (hadmitted m (List.mem_append_left _ hm)).1,
      fun m hm => (hadmitted m (List.mem_append_left _ hm)).2, hbefore⟩
  obtain ⟨hwire, hsize⟩ := hadmitted msg (by simp)
  rw [heq, List.map_append, List.map_cons, List.flatten_append,
    List.flatten_cons, List.append_assoc, List.append_assoc] at hstream
  rw [← effects_log s c before] at hmsg
  obtain ⟨e, hserve⟩ := serve_rejected (c := c) hwire hsize hmsg
    ((after.map Message.frame).flatten ++ rest)
  refine ⟨before, msg, _, e, hpasses, hwire, hsize, hmsg, hstream, ?_⟩
  conv_lhs => rw [hstream]
  rw [serve_frames hpasses, hserve, frameRead_frame_append hwire]
  simp [Session.behind]

/-! ## No client input can break its handler -/

/-- A session does what it is to do exactly when the log takes every seek that
it is asked for: whatever the bytes of the client, it ends, its client is not
registered any more, and it has done what the admitted messages do, without an
exception that leaves the handler. -/
theorem sessionSound_iff (s : BrokerServer) (stream : Bytes) :
    SessionSound s stream ↔ SeeksAccepted s.log (admitted stream) := by
  have hlog : s.accept.log = s.log := rfl
  constructor
  · rintro ⟨session, hsession, hok, -⟩
    by_contra hseeks
    rw [← hlog] at hseeks
    obtain ⟨msgs, msg, t, e, -, -, -, -, -, hserve⟩ :=
      serve_refused s.handlers.length hseeks
    rw [BrokerServer.handleClient, hserve] at hsession
    cases hsession
    cases hok
  · intro hseeks
    rw [← hlog] at hseeks
    obtain ⟨rest, -, -, hserve⟩ := serve_accepted s.handlers.length hseeks
    refine ⟨_, by rw [BrokerServer.handleClient, hserve]; rfl, rfl, ?_,
      rfl, rfl, rfl⟩
    intro entry hentry
    exact of_decide_eq_true (List.mem_filter.mp hentry).2

/-- On a log that stays below `2 ^ 63` bytes, all seeks are accepted exactly
when all offsets asked for are below `2 ^ 63`. -/
theorem seeksAccepted_iff (hlog : (logAfter log msgs).length < 2 ^ 63) :
    SeeksAccepted log msgs ↔
      ∀ msg ∈ msgs, msg.command = cmdTimeTravel → ∀ offset,
        timeTravelOffset msg.payload = some offset → offset < 2 ^ 63 := by
  have hlength : ∀ before msg after, msgs = before ++ msg :: after →
      (logAfter log before).length ≤ (logAfter log msgs).length := by
    rintro before msg after rfl
    simp only [logAfter, List.filter_append, List.map_append,
      List.flatten_append, List.length_append]
    omega
  constructor
  · intro h msg hmem htravel offset hoffset
    obtain ⟨before, after, heq⟩ := List.append_of_mem hmem
    have hseek := h before msg after heq htravel offset hoffset
    have hle := hlength before msg after heq
    rw [seekAccepts, Bool.or_eq_true, decide_eq_true_eq,
      decide_eq_true_eq] at hseek
    omega
  · intro h before msg after heq htravel offset hoffset
    have hmem : msg ∈ msgs := by
      rw [heq]
      simp
    have hlt := h msg hmem htravel offset hoffset
    rw [seekAccepts, decide_eq_true hlt, Bool.true_or]

/-- A time-travel request with the offset `2 ^ 64 - 1`, and a subscription
behind it: the seek raises, the exception leaves the handler, and the
subscription is not dispatched. -/
theorem session_broken_by_offset :
    let travel : Message :=
      { command := cmdTimeTravel, topicId := 1, priority := 0
        payload := List.replicate 8 255 }
    let subscription : Message :=
      { command := cmdSubscribe, topicId := 1, priority := 0, payload := [] }
    ¬SessionSound (.init none) (travel.frame ++ subscription.frame) := by
  intro travel subscription
  have hseek : ¬SeekAccepted (BrokerServer.init none).accept.log travel := by
    intro h
    have haccepted := h rfl (2 ^ 64 - 1) (by decide)
    exact absurd haccepted (by decide)
  have hwire : travel.OnWire := by decide
  obtain ⟨e, hserve⟩ := serve_rejected (c := 0) hwire (by decide) hseek
    subscription.frame
  rintro ⟨session, hsession, hok, -⟩
  rw [BrokerServer.handleClient] at hsession
  change Option.map _ (serve 0 _ _) = _ at hsession
  rw [hserve] at hsession
  cases hsession
  cases hok

/-! ## The payload limit -/

/-- For no frame does the session take more than a header and a payload of the
largest admitted size, and a header that announces more is the last thing that
it takes. -/
def LimitEnforced (s : BrokerServer) (stream : Bytes) : Prop :=
  ∃ session, s.handleClient stream = some session ∧
    ∀ before read after, session.reads = before ++ read :: after →
      read.taken ≤ headerSize + maxPayloadBytes ∧
      ∀ n, read.announced = some n → maxPayloadBytes < n →
        read.taken = headerSize ∧ after = []

/-- A call of `read_message` that finds a whole header takes the payload that
it announces, or as much as there is of it. -/
theorem frameRead_header {header : Bytes} (hlen : header.length = headerSize)
    (tail : Bytes) :
    frameRead (header ++ tail) =
      { announced := some (unpackHeader header).payloadLength
        taken := headerSize +
          min (unpackHeader header).payloadLength tail.length } := by
  have hlong : ¬(header ++ tail).length < headerSize := by
    rw [List.length_append, hlen]
    omega
  have htake : (header ++ tail).take headerSize = header :=
    List.take_left' hlen
  rw [frameRead, if_neg hlong, ← unpackHeader_take, htake,
    readMessage_header hlen, List.length_append, hlen]
  by_cases hshort : tail.length < (unpackHeader header).payloadLength
  · rw [if_pos hshort, Nat.min_eq_right hshort.le]
  · rw [if_neg hshort, Nat.min_eq_left (not_lt.mp hshort)]
    simp only [List.length_drop, FrameRead.mk.injEq, true_and]
    omega

theorem frameRead_short (h : rest.length < headerSize) :
    frameRead rest = { announced := none, taken := rest.length } := by
  have hcut : CutFrame rest := Or.inl h
  rw [frameRead, if_pos h,
    readMessage_of_not_hasFrame (cutFrame_iff_not_hasFrame.mp hcut)]

/-- At a header that announces too much the session ends, when it has taken
what it could get of the payload. -/
theorem serve_header_tooLarge {header : Bytes}
    (hlen : header.length = headerSize)
    (hlarge : maxPayloadBytes < (unpackHeader header).payloadLength)
    (tail : Bytes) :
    serve c s (header ++ tail) =
      some ⟨s, [], [frameRead (header ++ tail)], .ok ()⟩ := by
  by_cases hshort : tail.length < (unpackHeader header).payloadLength
  · apply serve_cut
    rw [cutFrame_iff_not_hasFrame, hasFrame_header_iff hlen]
    exact not_le.mpr hshort
  · have hread := readMessage_header hlen tail
    rw [if_neg hshort] at hread
    rw [serve_ok hread, if_pos]
    rwa [List.length_take_of_le (not_lt.mp hshort)]

/-- Every session goes through some messages and ends at what comes then. -/
theorem serve_reads (s : BrokerServer) (c : ClientId) (stream : Bytes) :
    ∃ (msgs : List Message) (rest : Bytes) (session : Session),
      Passes s.log msgs ∧
      stream = (msgs.map Message.frame).flatten ++ rest ∧
      serve c s stream = some session ∧
      session.reads = msgs.map Message.frameRead ++ [frameRead rest] := by
  by_cases hseeks : SeeksAccepted s.log (admitted stream)
  · obtain ⟨rest, hpasses, hstream, hserve⟩ := serve_accepted c hseeks
    exact ⟨_, rest, _, hpasses, hstream, hserve, rfl⟩
  · obtain ⟨msgs, msg, t, e, hpasses, -, -, -, hstream, hserve⟩ :=
      serve_refused c hseeks
    exact ⟨msgs, _, _, hpasses, hstream, hserve, rfl⟩

/-- An element of a list with one more at its end. -/
theorem mem_or_last {α : Type*} {l before after : List α} {x y : α}
    (h : l ++ [x] = before ++ y :: after) : y ∈ l ∨ (y = x ∧ after = []) := by
  rcases List.eq_nil_or_concat after with rfl | ⟨after, z, rfl⟩
  · obtain ⟨-, heq⟩ := List.append_inj' h rfl
    exact Or.inr ⟨(List.singleton_inj.mp heq).symm, rfl⟩
  · left
    rw [List.concat_eq_append, ← List.cons_append, ← List.append_assoc] at h
    obtain ⟨rfl, -⟩ := List.append_inj' h rfl
    simp

/-- The limit is enforced exactly when nothing follows a header that announces
too much, as far as the session gets to it: behind messages within the limit
whose seeks are accepted. -/
theorem limitEnforced_iff (s : BrokerServer) (stream : Bytes) :
    LimitEnforced s stream ↔
      ∀ (msgs : List Message) (header tail : Bytes), Passes s.log msgs →
        stream = (msgs.map Message.frame).flatten ++ (header ++ tail) →
        header.length = headerSize →
        maxPayloadBytes < (unpackHeader header).payloadLength →
        tail = [] := by
  have hlog : s.accept.log = s.log := rfl
  constructor
  · rintro ⟨session, hsession, hreads⟩ msgs header tail hpasses hstream hlen
      hlarge
    rw [← hlog] at hpasses
    have hserve : serve s.handlers.length s.accept stream = some
        { broker := s.accept.effects s.handlers.length msgs
          sent := s.accept.answers s.handlers.length msgs
          reads := msgs.map Message.frameRead ++ [frameRead (header ++ tail)]
          outcome := .ok () } := by
      rw [hstream, serve_frames hpasses, serve_header_tooLarge hlen hlarge]
      simp [Session.behind]
    rw [BrokerServer.handleClient, hserve] at hsession
    cases hsession
    obtain ⟨-, hlimit⟩ := hreads _ _ [] rfl
    rw [frameRead_header hlen] at hlimit
    obtain ⟨htaken, -⟩ := hlimit _ rfl hlarge
    apply List.eq_nil_of_length_eq_zero
    simp only at htaken
    omega
  · intro h
    obtain ⟨msgs, rest, session, hpasses, hstream, hserve, hreads⟩ :=
      serve_reads s.accept s.handlers.length stream
    rw [hlog] at hpasses
    refine ⟨_, by rw [BrokerServer.handleClient, hserve]; rfl, ?_⟩
    intro before read after heq
    change session.reads = _ at heq
    rw [hreads] at heq
    rcases mem_or_last heq with hmem | ⟨rfl, hlast⟩
    · obtain ⟨msg, hmsg, rfl⟩ := List.mem_map.mp hmem
      have hsize := hpasses.size msg hmsg
      refine ⟨?_, ?_⟩
      · simp only [Message.frameRead, Message.length_frame]
        omega
      · intro n hn hlarge
        cases hn
        omega
    · by_cases hshort : rest.length < headerSize
      · rw [frameRead_short hshort]
        refine ⟨?_, by simp⟩
        simp only
        omega
      · obtain ⟨header, tail, rfl, hlen⟩ := exists_header (not_lt.mp hshort)
        rw [frameRead_header hlen]
        have hempty := h msgs header tail hpasses hstream hlen
        by_cases hlarge : maxPayloadBytes < (unpackHeader header).payloadLength
        · rw [hempty hlarge, List.length_nil, Nat.min_zero]
          exact ⟨Nat.le_add_right _ _, fun n _ _ => ⟨rfl, hlast⟩⟩
        · refine ⟨?_, ?_⟩
          · simp only
            omega
          · intro n hn hlt
            cases hn
            exact absurd hlt hlarge

/-- A header that announces one byte more than the limit, and that many bytes
behind it: the session takes them all before it looks at the limit. -/
theorem limit_exceeded :
    let header : Bytes := [2, 0, 0, 0, 1, 5, 0, 0x50, 0, 1]
    ¬LimitEnforced (.init none)
      (header ++ List.replicate (maxPayloadBytes + 1) 0) := by
  intro header
  rintro ⟨session, hsession, hreads⟩
  have hlen : header.length = headerSize := rfl
  have hlarge : maxPayloadBytes < (unpackHeader header).payloadLength := by
    decide
  rw [BrokerServer.handleClient, serve_header_tooLarge hlen hlarge] at hsession
  cases hsession
  obtain ⟨htaken, -⟩ := hreads [] _ [] rfl
  rw [frameRead_header hlen, List.length_replicate] at htaken
  simp only at htaken
  omega

end SentinelHub.Broker
