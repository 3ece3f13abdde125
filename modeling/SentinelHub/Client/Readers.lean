import SentinelHub.Broker.Digest
import SentinelHub.Broker.Stream

/-!
# The readers of the client and of the dashboard

`client/client.py` and `dashboard_server.py` each decode the stream that comes
from the broker with a `_read_one` of their own.  Both return `None` where the
stream ends, and they differ in which exceptions of a read they take for its
end: the client only that of the header, the dashboard also that of the
payload.  This module models the two readers, the loop of the client around its
reader and the modes that run this loop, and compares them with `read_message`.

The stream is finite: the broker closes the connection behind its last byte.
-/

namespace SentinelHub

open Support Broker

/-! ## The client -/

namespace Client

/-- `_read_one`: a single message, or `none` at the end of the stream. -/
def readOne (stream : Bytes) : Except PyError (Option (Message × Bytes)) :=
  match readExactly headerSize stream with
  | .error .incompleteReadError => .ok none
  | .error e => .error e
  | .ok (header, stream) => do
      let fields ← decodeHeader header
      let (payload, stream) ←
        if 0 < fields.payloadLength then
          readExactly fields.payloadLength stream
        else .ok ([], stream)
      return some ({ command := fields.command
                     topicId := fields.topicId
                     priority := fields.priority
                     payload }, stream)

/-- Behind a complete header, the client reads as `read_message` does. -/
theorem readOne_eq (stream : Bytes) :
    readOne stream =
      if stream.length < headerSize then .ok none
      else (readMessage stream).map some := by
  rw [readOne, readMessage]
  by_cases hshort : stream.length < headerSize
  · simp only [readExactly, if_pos hshort]
  · simp only [readExactly, if_neg hshort, bind, Except.bind, pure,
      Except.pure]
    generalize decodeHeader (stream.take headerSize) = fields
    cases fields with
    | error e => rfl
    | ok fields =>
        dsimp only
        split
        · split <;> rfl
        · rfl

def reader : Reader UInt8 Message PyError where
  read := readOne
  shortens := by
    intro stream msg rest h
    rw [readOne_eq] at h
    split at h
    · cases h
    · exact messageReader.shortens h

/-- How `_read_one` stops: quietly inside a header, with an exception behind
one. -/
theorem reader_reads :
    reader.Reads wire Message.ofFrame fun r =>
      if r.length < headerSize then .ok ()
      else .error .incompleteReadError where
  frame frame t h := by
    have hread := messageReader_reads.frame frame t h
    have hlong : headerSize ≤ (frame ++ t).length := by
      rw [List.length_append]
      exact h.1.trans (Nat.le_add_right _ _)
    exact (readOne_eq _).trans ((if_neg (not_lt.mpr hlong)).trans hread)
  stop r h := by
    have hread := messageReader_reads.stop r h
    refine (readOne_eq r).trans ?_
    split
    · rfl
    · exact hread

/-- `_listen`: the messages it prints, and the exception that leaves it, if
any. -/
def listen (stream : Bytes) : List Message × Except PyError Unit :=
  reader.readAll stream

/-- What a mode of the client does on its connection. -/
inductive Event
  | wrote (frame : Bytes)
  | received (msg : Message)
  | closed
  deriving DecidableEq, Repr

/-- Write the frames of a mode, if they could be built, then `_listen` and
`writer.close()`. -/
def listenAndClose (request : Except PyError (List Bytes)) (stream : Bytes) :
    List Event × Except PyError Unit :=
  match request with
  | .error e => ([], .error e)
  | .ok frames =>
      let (msgs, outcome) := listen stream
      let events := frames.map .wrote ++ msgs.map .received
      match outcome with
      | .error e => (events, .error e)
      | .ok () => (events ++ [.closed], .ok ())

/-- The characters that `str.strip()` takes off. -/
def isSpace (c : Char) : Bool :=
  (9 ≤ c.toNat && c.toNat ≤ 13) || (28 ≤ c.toNat && c.toNat ≤ 32) ||
    (8192 ≤ c.toNat && c.toNat ≤ 8202) ||
    [133, 160, 5760, 8232, 8233, 8239, 8287, 12288].contains c.toNat

def strip (text : List Char) : List Char :=
  ((text.dropWhile isSpace).reverse.dropWhile isSpace).reverse

/-- `[t.strip() for t in topic.split(",") if t.strip()]`. -/
def splitTopics (topic : String) : List String :=
  (((topic.toList.splitOn ',').map strip).filter fun t => !t.isEmpty).map
    String.ofList

example :
    splitTopics " home/fire,, home/door " = ["home/fire", "home/door"] := by
  decide +kernel

/-- The frames of `mode_subscribe`. -/
def subscribeRequest (topic : String) : Except PyError (List Bytes) :=
  (splitTopics topic).mapM fun t => encode cmdSubscribe (topicHash t) 0 []

/-- Subscribe to a topic (or multiple comma-separated topics) and listen. -/
def modeSubscribe (topic : String) (stream : Bytes) :
    List Event × Except PyError Unit :=
  listenAndClose (subscribeRequest topic) stream

/-- The frame of `mode_time_travel`, with `struct.pack("!Q", offset)` in it. -/
def timeTravelRequest (topic : String) (offset : ℤ) :
    Except PyError (List Bytes) := do
  let payload ← packUInt 8 offset
  let frame ← encode cmdTimeTravel (topicHash topic) 0 payload
  return [frame]

/-- Send a time-travel subscribe command and listen. -/
def modeTimeTravel (topic : String) (offset : ℤ) (stream : Bytes) :
    List Event × Except PyError Unit :=
  listenAndClose (timeTravelRequest topic offset) stream

/-- A mode reaches `writer.close()` exactly when `_listen` returns. -/
theorem listenAndClose_closed_iff {frames : List Bytes} {stream : Bytes} :
    .closed ∈ (listenAndClose (.ok frames) stream).1 ↔
      (listen stream).2 = .ok () := by
  rw [listenAndClose]
  rcases listen stream with ⟨msgs, e | ⟨⟩⟩ <;> simp

end Client

/-! ## The dashboard -/

namespace Dashboard

/-- `(cmd, topic_id, priority, payload, header_bytes)`. -/
structure BrokerFrame where
  cmd : ℕ
  tid : ℕ
  pri : ℕ
  payload : Bytes
  header : Bytes
  deriving DecidableEq, Repr

/-- The message that the first four components make up. -/
def BrokerFrame.message (frame : BrokerFrame) : Message where
  command := frame.cmd
  topicId := frame.tid
  priority := frame.pri
  payload := frame.payload

/-- `_read_one`: exactly one broker frame, or `none` on disconnect. -/
def readOne (stream : Bytes) : Except PyError (Option (BrokerFrame × Bytes)) :=
  match readExactly headerSize stream with
  | .error .incompleteReadError => .ok none
  | .error e => .error e
  | .ok (header, stream) =>
      match decodeHeader header with
      | .error e => .error e
      | .ok fields =>
          let frame (payload : Bytes) : BrokerFrame :=
            { cmd := fields.command
              tid := fields.topicId
              pri := fields.priority
              payload
              header }
          if 0 < fields.payloadLength then
            match readExactly fields.payloadLength stream with
            | .error .incompleteReadError => .ok none
            | .error e => .error e
            | .ok (payload, stream) => .ok (some (frame payload, stream))
          else .ok (some (frame [], stream))

/-- A frame on the wire in the components of `_read_one`. -/
def BrokerFrame.ofFrame (frame : Bytes) : BrokerFrame where
  cmd := (unpackHeader frame).command
  tid := (unpackHeader frame).topicId
  pri := (unpackHeader frame).priority
  payload := frame.drop headerSize
  header := frame.take headerSize

/-- Behind a complete header, the dashboard takes as many bytes as the header
announces, or none if there are too few. -/
theorem readOne_header {header : Bytes} (hlen : header.length = headerSize)
    (tail : Bytes) :
    readOne (header ++ tail) =
      if tail.length < (unpackHeader header).payloadLength then .ok none
      else
        .ok (some ({ cmd := (unpackHeader header).command
                     tid := (unpackHeader header).topicId
                     pri := (unpackHeader header).priority
                     payload := tail.take (unpackHeader header).payloadLength
                     header },
          tail.drop (unpackHeader header).payloadLength)) := by
  have hread : readExactly headerSize (header ++ tail) =
      .ok (header, tail) := by
    rw [readExactly, if_neg (by simp [hlen]), ← hlen, List.take_left,
      List.drop_left]
  have hheader : decodeHeader header = .ok (unpackHeader header) := by
    rw [decodeHeader, if_neg (by omega), unpackHeader_take]
  simp only [readOne, hread, hheader]
  by_cases hempty : 0 < (unpackHeader header).payloadLength
  · rw [if_pos hempty, readExactly]
    by_cases hshort : tail.length < (unpackHeader header).payloadLength
    · simp only [if_pos hshort]
    · simp only [if_neg hshort]
  · obtain hzero := Nat.eq_zero_of_not_pos hempty
    rw [if_neg hempty, hzero, if_neg (Nat.not_lt_zero _)]
    rfl

theorem readOne_of_not_hasFrame {stream : Bytes}
    (h : ¬wire.HasFrame stream) : readOne stream = .ok none := by
  by_cases hshort : stream.length < headerSize
  · simp only [readOne, readExactly, if_pos hshort]
  · obtain ⟨header, tail, rfl, hlen⟩ := exists_header (not_lt.mp hshort)
    rw [hasFrame_header_iff hlen, not_le] at h
    rw [readOne_header hlen, if_pos h]

theorem readOne_frame_append {frame : Bytes} (h : wire.IsFrame frame)
    (t : Bytes) :
    readOne (frame ++ t) = .ok (some (.ofFrame frame, t)) := by
  obtain ⟨header, payload, rfl, hlen⟩ := exists_header h.1
  have htake : (header ++ payload).take headerSize = header :=
    List.take_left' hlen
  have hdrop : (header ++ payload).drop headerSize = payload :=
    List.drop_left' hlen
  have hunpack : unpackHeader (header ++ payload) = unpackHeader header := by
    rw [← unpackHeader_take, htake]
  have hpayload : payload.length = (unpackHeader header).payloadLength := by
    have hframe := h.2
    rw [wire_frameLength, hunpack, List.length_append, hlen] at hframe
    omega
  rw [List.append_assoc, readOne_header hlen, ← hpayload,
    if_neg (by simp), List.take_left, List.drop_left, BrokerFrame.ofFrame,
    htake, hdrop, hunpack]

def reader : Reader UInt8 BrokerFrame PyError where
  read := readOne
  shortens := by
    intro stream frame rest h
    by_cases hframe : wire.HasFrame stream
    · have hsplit := List.take_append_drop (wire.frameLength stream) stream
      have hread := readOne_frame_append hframe.isFrame_take
        (stream.drop (wire.frameLength stream))
      rw [hsplit, h] at hread
      cases hread
      have hpos := wire.frameLength_pos stream
      have hle := hframe.2
      rw [List.length_drop]
      omega
    · rw [readOne_of_not_hasFrame hframe] at h
      cases h

/-- `_read_one` returns `None` wherever no complete frame follows. -/
theorem reader_reads :
    reader.Reads wire BrokerFrame.ofFrame fun _ => .ok () where
  frame _ t h := readOne_frame_append h t
  stop _ h := readOne_of_not_hasFrame h

end Dashboard

/-! ## The three readers -/

/-- The stream ends inside a payload: behind its complete messages there is a
header, and fewer bytes than this header announces. -/
def EndsInPayload (stream : Bytes) : Prop :=
  ∃ (msgs : List Message) (frames : List Bytes) (header payload : Bytes),
    msgs.mapM Message.encoded = .ok frames ∧
    stream = frames.flatten ++ (header ++ payload) ∧
    header.length = headerSize ∧
    payload.length < (unpackHeader header).payloadLength

theorem endsInPayload_iff {stream : Bytes} :
    EndsInPayload stream ↔ headerSize ≤ (wire.rest stream).length := by
  constructor
  · rintro ⟨msgs, frames, header, payload, hmsgs, hstream, hlen, hshort⟩
    have hcut : CutFrame (header ++ payload) := by
      rw [cutFrame_iff_not_hasFrame, hasFrame_header_iff hlen]
      exact not_le.mpr hshort
    obtain ⟨-, hrest⟩ := decomposition_unique hmsgs hstream hcut
    rw [← hrest, List.length_append, hlen]
    exact Nat.le_add_right _ _
  · intro hlong
    obtain ⟨header, payload, hrest, hlen⟩ := exists_header hlong
    have hshort := wire.not_hasFrame_rest stream
    rw [hrest, hasFrame_header_iff hlen, not_le] at hshort
    refine ⟨_, wire.parse stream, header, payload,
      encoded_map_ofFrame Framing.isFrame_of_mem_parse, ?_, hlen, hshort⟩
    rw [← hrest, Framing.flatten_parse_append_rest]

/-- The two `_read_one` deliver the messages of `read_message` and then return
`None`, so that `_listen` returns and the modes of the client close their
connection. -/
structure ReadersAgree (stream : Bytes) : Prop where
  client : Client.reader.readAll stream = ((readMessages stream).1, .ok ())
  dashboard : (Dashboard.reader.readAll stream).1.map
    Dashboard.BrokerFrame.message = (readMessages stream).1
  dashboardEnd : (Dashboard.reader.readAll stream).2 = .ok ()
  listen : Client.listen stream = ((readMessages stream).1, .ok ())
  modeSubscribe : ∀ topic, .closed ∈ (Client.modeSubscribe topic stream).1
  modeTimeTravel : ∀ topic (offset : ℤ), 0 ≤ offset → offset < 2 ^ 64 →
    .closed ∈ (Client.modeTimeTravel topic offset stream).1

theorem exists_encode (command : ℤ) (topic : String) {payload : Bytes}
    (hcommand : 0 ≤ command ∧ command < 2 ^ 8)
    (hpayload : payload.length < 2 ^ 32) :
    ∃ frame, encode command (topicHash topic) 0 payload = .ok frame := by
  have hwire : Message.OnWire ⟨command, topicHash topic, 0, payload⟩ :=
    ⟨hcommand, topicHash_inRange topic,
      show (0 : ℤ) ≤ 0 ∧ (0 : ℤ) < 2 ^ 8 by decide, hpayload⟩
  exact ⟨_, hwire.encoded⟩

namespace Client

theorem subscribeRequest_eq_ok (topic : String) :
    ∃ frames, subscribeRequest topic = .ok frames := by
  rw [subscribeRequest]
  induction splitTopics topic with
  | nil => exact ⟨[], rfl⟩
  | cons t topics ih =>
      have hempty : ([] : Bytes).length < 2 ^ 32 := by decide
      obtain ⟨frame, hframe⟩ :=
        exists_encode cmdSubscribe t (by decide) hempty
      obtain ⟨frames, hframes⟩ := ih
      refine ⟨frame :: frames, ?_⟩
      rw [List.mapM_cons, hframe, hframes]
      rfl

theorem ok_bind {α β : Type} (x : α) (f : α → Except PyError β) :
    (Except.ok x >>= f) = f x :=
  rfl

theorem packUInt_eight {offset : ℤ} (hnonneg : 0 ≤ offset)
    (hlt : offset < 2 ^ 64) :
    packUInt 8 offset = .ok (bigEndian 8 offset.toNat) := by
  have hpow : (256 : ℤ) ^ 8 = 2 ^ 64 := by
    rw [show (256 : ℤ) = 2 ^ 8 by rfl, ← pow_mul]
  rw [packUInt_eq_ok, hpow]
  exact ⟨⟨hnonneg, hlt⟩, rfl⟩

theorem timeTravelRequest_eq_ok (topic : String) {offset : ℤ}
    (hnonneg : 0 ≤ offset) (hlt : offset < 2 ^ 64) :
    ∃ frames, timeTravelRequest topic offset = .ok frames := by
  have hlen : (bigEndian 8 offset.toNat).length < 2 ^ 32 :=
    (length_bigEndian 8 _).trans_lt (by decide)
  obtain ⟨frame, hframe⟩ :=
    exists_encode cmdTimeTravel topic (by decide) hlen
  refine ⟨[frame], ?_⟩
  rw [timeTravelRequest, packUInt_eight hnonneg hlt, ok_bind, hframe, ok_bind]
  rfl

end Client

/-- The three readers agree and end cleanly exactly on the streams that do not
end inside a payload. -/
theorem readersAgree_iff (stream : Bytes) :
    ReadersAgree stream ↔ ¬EndsInPayload stream := by
  have hclient := Client.reader_reads.readAll_eq stream
  have hdashboard := Dashboard.reader_reads.readAll_eq stream
  have hmessages := readMessages_eq stream
  rw [endsInPayload_iff, not_le]
  constructor
  · intro h
    have hend := congrArg Prod.snd (hclient.symm.trans h.client)
    simp only at hend
    by_contra hlong
    rw [if_neg hlong] at hend
    cases hend
  · intro hshort
    have hlisten :
        Client.listen stream = ((readMessages stream).1, .ok ()) := by
      rw [Client.listen, hclient, hmessages, if_pos hshort]
    have hreturns := congrArg Prod.snd hlisten
    refine ⟨hlisten, ?_, ?_, hlisten, ?_, ?_⟩
    · rw [hdashboard, hmessages, List.map_map]
      rfl
    · rw [hdashboard]
    · intro topic
      obtain ⟨frames, heq⟩ := Client.subscribeRequest_eq_ok topic
      rw [Client.modeSubscribe, heq, Client.listenAndClose_closed_iff]
      exact hreturns
    · intro topic offset hnonneg hlt
      obtain ⟨frames, heq⟩ :=
        Client.timeTravelRequest_eq_ok topic hnonneg hlt
      rw [Client.modeTimeTravel, heq, Client.listenAndClose_closed_iff]
      exact hreturns

/-- A header that announces one byte, and nothing behind it: the dashboard
sees the end of the stream, and the client raises. -/
theorem client_raises_inside_payload :
    ¬ReadersAgree [2, 0, 0, 0, 0, 0, 0, 0, 0, 1] := by
  intro h
  have hraises : Client.readOne [2, 0, 0, 0, 0, 0, 0, 0, 0, 1] =
      .error .incompleteReadError := by
    rfl
  have hall : Client.reader.readAll [2, 0, 0, 0, 0, 0, 0, 0, 0, 1] =
      ([], .error .incompleteReadError) :=
    Reader.readAll_of_error hraises
  have hend := congrArg Prod.snd (hall.symm.trans h.client)
  cases hend

end SentinelHub
