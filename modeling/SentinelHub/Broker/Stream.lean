import SentinelHub.Broker.Storage
import SentinelHub.Support.Reader

/-!
# Streams of messages

`read_message` called again and again on one stream, until it raises.  It
takes the frames of the wire framing one by one, so what it returns on a whole
stream is a matter of that framing: every stream is, in one way only, the
encodings of some messages followed by a frame that was cut.

The log reader finds its frames by the same framing.  The last part of this
module compares the two readers.
-/

namespace SentinelHub.Broker

open SentinelHub.Support

/-! ## Messages and frames -/

/-- The message that a frame spells. -/
def Message.ofFrame (frame : Bytes) : Message where
  command := (unpackHeader frame).command
  topicId := (unpackHeader frame).topicId
  priority := (unpackHeader frame).priority
  payload := frame.drop headerSize

theorem Message.OnWire.ofFrame_frame {msg : Message} (h : msg.OnWire) :
    Message.ofFrame msg.frame = msg := by
  rw [Message.ofFrame, h.unpackHeader_frame, msg.drop_frame,
    Int.toNat_of_nonneg h.command.1, Int.toNat_of_nonneg h.topicId.1,
    Int.toNat_of_nonneg h.priority.1]

/-- A stream with a complete header is that header and the rest. -/
theorem exists_header {stream : Bytes} (h : headerSize ≤ stream.length) :
    ∃ headerData tail, stream = headerData ++ tail ∧
      headerData.length = headerSize :=
  ⟨_, _, (List.take_append_drop headerSize stream).symm,
    List.length_take_of_le h⟩

theorem hasFrame_header_iff {headerData tail : Bytes}
    (hlen : headerData.length = headerSize) :
    wire.HasFrame (headerData ++ tail) ↔
      (unpackHeader headerData).payloadLength ≤ tail.length := by
  have htake : (headerData ++ tail).take headerSize = headerData :=
    List.take_left' hlen
  rw [Framing.HasFrame, wire_frameLength, ← unpackHeader_take, htake,
    List.length_append, hlen, wire_headerSize, headerSize]
  omega

/-- Where no complete frame follows, `read_message` runs into the end of the
stream. -/
theorem readMessage_of_not_hasFrame {stream : Bytes}
    (h : ¬wire.HasFrame stream) :
    readMessage stream = .error .incompleteReadError := by
  by_cases hshort : stream.length < headerSize
  · simp only [readMessage, readExactly, if_pos hshort, bind, Except.bind]
  · obtain ⟨headerData, tail, rfl, hlen⟩ := exists_header (not_lt.mp hshort)
    rw [hasFrame_header_iff hlen, not_le] at h
    rw [readMessage_header hlen, if_pos h]

/-- The complete frames are the encodings of the messages that fit the
wire. -/
theorem isFrame_iff {frame : Bytes} :
    wire.IsFrame frame ↔ ∃ msg : Message, msg.OnWire ∧ msg.frame = frame := by
  constructor
  · intro h
    obtain ⟨headerData, tail, rfl, hlen⟩ := exists_header h.1
    have hfits := (hasFrame_header_iff hlen).mp h.hasFrame
    have hread := readMessage_header hlen tail
    rw [if_neg (not_lt.mpr hfits), readMessage_eq_ok] at hread
    obtain ⟨hwire, heq⟩ := hread
    refine ⟨_, hwire, ?_⟩
    exact hwire.isFrame.eq_of_isPrefix h (s := headerData ++ tail)
      ⟨_, heq.symm⟩ (List.prefix_refl _)
  · rintro ⟨msg, hwire, rfl⟩
    exact hwire.isFrame

theorem onWire_ofFrame {frame : Bytes} (h : wire.IsFrame frame) :
    (Message.ofFrame frame).OnWire ∧ (Message.ofFrame frame).frame = frame := by
  obtain ⟨msg, hwire, rfl⟩ := isFrame_iff.mp h
  rw [hwire.ofFrame_frame]
  exact ⟨hwire, rfl⟩

/-- Encoding the messages of some frames gives the frames back. -/
theorem mapM_encoded_eq_ok {msgs : List Message} {frames : List Bytes} :
    msgs.mapM Message.encoded = .ok frames ↔
      (∀ msg ∈ msgs, msg.OnWire) ∧ frames = msgs.map Message.frame := by
  induction msgs generalizing frames with
  | nil => simp [pure, Except.pure, eq_comm]
  | cons msg msgs ih =>
      rw [List.mapM_cons, List.forall_mem_cons]
      by_cases hwire : msg.OnWire
      · rw [hwire.encoded]
        cases hrest : msgs.mapM Message.encoded with
        | error e =>
            have hnone : ¬∀ msg ∈ msgs, msg.OnWire := by
              intro hall
              have hok := ih.mpr ⟨hall, rfl⟩
              rw [hrest] at hok
              cases hok
            simp [bind, Except.bind, hnone]
        | ok rest =>
            obtain ⟨hall, rfl⟩ := ih.mp hrest
            simp only [bind, Except.bind, pure, Except.pure, Except.ok.injEq,
              List.map_cons]
            constructor
            · rintro rfl
              exact ⟨⟨hwire, hall⟩, rfl⟩
            · rintro ⟨-, rfl⟩
              rfl
      · cases hencoded : msg.encoded with
        | error e => simp [bind, Except.bind, hwire]
        | ok frame => exact absurd (Message.encoded_eq_ok.mp hencoded).1 hwire

/-! ## Reading a whole stream -/

/-- A message takes bytes away from the stream. -/
theorem length_lt_of_readMessage {stream rest : Bytes} {msg : Message}
    (h : readMessage stream = .ok (msg, rest)) :
    rest.length < stream.length := by
  obtain ⟨-, rfl⟩ := readMessage_eq_ok.mp h
  rw [List.length_append, Message.length_frame, headerSize]
  omega

/-- `read_message` as a reader of streams.  It never returns `None`:
`readexactly` does not come back with fewer bytes than it was asked for. -/
def messageReader : Reader UInt8 Message PyError where
  read stream := (readMessage stream).map some
  shortens := by
    intro stream msg rest h
    cases hread : readMessage stream with
    | error e =>
        rw [hread] at h
        cases h
    | ok result =>
        rw [hread] at h
        cases h
        exact length_lt_of_readMessage hread

/-- Call `read_message` until it raises: the messages it returns, and how the
reading ends. -/
def readMessages (stream : Bytes) : List Message × Except PyError Unit :=
  messageReader.readAll stream

theorem messageReader_reads :
    messageReader.Reads wire Message.ofFrame
      fun _ => .error .incompleteReadError where
  frame frame t h := by
    obtain ⟨hwire, hframe⟩ := onWire_ofFrame h
    have hread : readMessage (frame ++ t) = .ok (.ofFrame frame, t) :=
      readMessage_eq_ok.mpr ⟨hwire, by rw [hframe]⟩
    exact congrArg (Except.map some) hread
  stop r h := congrArg (Except.map some) (readMessage_of_not_hasFrame h)

theorem readMessages_eq (stream : Bytes) :
    readMessages stream =
      ((wire.parse stream).map Message.ofFrame, .error .incompleteReadError) :=
  messageReader_reads.readAll_eq stream

/-- The messages read off a stream are those of its frames. -/
theorem encoded_map_ofFrame {frames : List Bytes}
    (hframes : ∀ f ∈ frames, wire.IsFrame f) :
    (frames.map Message.ofFrame).mapM Message.encoded = .ok frames := by
  rw [mapM_encoded_eq_ok, List.map_map]
  constructor
  · intro msg hmsg
    obtain ⟨f, hf, rfl⟩ := List.mem_map.mp hmsg
    exact (onWire_ofFrame (hframes f hf)).1
  · calc
      frames = frames.map id := (List.map_id frames).symm
      _ = frames.map (Message.frame ∘ Message.ofFrame) :=
        List.map_congr_left fun f hf => (onWire_ofFrame (hframes f hf)).2.symm

theorem map_ofFrame_map_frame {msgs : List Message}
    (hwire : ∀ msg ∈ msgs, msg.OnWire) :
    (msgs.map Message.frame).map Message.ofFrame = msgs := by
  rw [List.map_map]
  calc
    msgs.map (Message.ofFrame ∘ Message.frame) = msgs.map id :=
      List.map_congr_left fun msg hmsg => (hwire msg hmsg).ofFrame_frame
    _ = msgs := List.map_id msgs

theorem isFrame_of_mem_map_frame {msgs : List Message}
    (hwire : ∀ msg ∈ msgs, msg.OnWire) :
    ∀ f ∈ msgs.map Message.frame, wire.IsFrame f := by
  intro f hf
  obtain ⟨msg, hmsg, rfl⟩ := List.mem_map.mp hf
  exact (hwire msg hmsg).isFrame

/-! ## A frame that was cut -/

/-- Fewer bytes than a header, or than the header announces. -/
def CutFrame (r : Bytes) : Prop :=
  r.length < headerSize ∨
    r.length < headerSize + (unpackHeader r).payloadLength

theorem cutFrame_iff_not_hasFrame {r : Bytes} :
    CutFrame r ↔ ¬wire.HasFrame r := by
  rw [CutFrame, Framing.HasFrame, wire_frameLength, wire_headerSize,
    headerSize]
  omega

/-- What is cut is the beginning of some frame. -/
theorem cutFrame_iff_isPrefix {r : Bytes} :
    CutFrame r ↔
      ∃ msg : Message, msg.OnWire ∧ r <+: msg.frame ∧ r ≠ msg.frame := by
  constructor
  · intro hcut
    let headerData := (r ++ List.replicate headerSize 0).take headerSize
    have hlen : headerData.length = headerSize := by
      simp [headerData]
    let n := (unpackHeader headerData).payloadLength
    let full := r ++ List.replicate (headerSize + n) 0
    have hheader : full.take headerSize = headerData := by
      simp only [full, headerData, List.take_append, List.take_replicate]
      congr 2
      omega
    have hframeLength : wire.frameLength full = headerSize + n := by
      rw [wire_frameLength, ← unpackHeader_take, hheader]
    have hhas : wire.HasFrame full := by
      rw [Framing.HasFrame, hframeLength, wire_headerSize, headerSize,
        List.length_append, List.length_replicate, headerSize]
      omega
    obtain ⟨msg, hwire, hmsg⟩ := isFrame_iff.mp hhas.isFrame_take
    have hshort : r.length < headerSize + n := by
      rcases hcut with hcut | hcut
      · exact hcut.trans_le (Nat.le_add_right _ _)
      · by_cases hhead : r.length < headerSize
        · exact hhead.trans_le (Nat.le_add_right _ _)
        · have htake : headerData = r.take headerSize :=
            List.take_append_of_le_length (not_lt.mp hhead)
          rwa [← unpackHeader_take, ← htake] at hcut
    have hlength : msg.frame.length = headerSize + n := by
      rw [hmsg, List.length_take_of_le hhas.2, hframeLength]
    refine ⟨msg, hwire, ?_, ?_⟩
    · apply List.prefix_of_prefix_length_le (List.prefix_append r _)
        (hmsg ▸ List.take_prefix _ _)
      omega
    · intro heq
      have := congrArg List.length heq
      omega
  · rintro ⟨msg, hwire, hpre, hne⟩
    rw [cutFrame_iff_not_hasFrame]
    have htake := List.prefix_iff_eq_take.mp hpre
    rw [htake]
    apply hwire.isFrame.not_hasFrame_take
    apply lt_of_le_of_ne hpre.length_le
    intro hlen
    exact hne (hpre.eq_of_length hlen)

/-! ## The framing is lossless -/

theorem packUInt_error {width : ℕ} {value : ℤ} {e : PyError}
    (h : packUInt width value = .error e) : e = .structError := by
  rw [packUInt] at h
  split at h <;> cases h
  rfl

theorem packHeader_error {command topicId priority : ℤ} {length : ℕ}
    {e : PyError} (h : packHeader command topicId priority length = .error e) :
    e = .structError := by
  unfold packHeader at h
  generalize hc : packUInt 1 command = rc at h
  generalize ht : packUInt 4 topicId = rt at h
  generalize hp : packUInt 1 priority = rp at h
  generalize hl : packUInt 4 (length : ℤ) = rl at h
  cases rc with
  | error e' =>
      cases h
      exact packUInt_error hc
  | ok _ =>
      cases rt with
      | error e' =>
          cases h
          exact packUInt_error ht
      | ok _ =>
          cases rp with
          | error e' =>
              cases h
              exact packUInt_error hp
          | ok _ =>
              cases rl with
              | error e' =>
                  cases h
                  exact packUInt_error hl
              | ok _ => cases h

/-- `encode` raises `struct.error` on what does not fit the wire. -/
theorem Message.encoded_eq_error {msg : Message} (h : ¬msg.OnWire) :
    msg.encoded = .error .structError := by
  cases hencoded : msg.encoded with
  | ok frame => exact absurd (Message.encoded_eq_ok.mp hencoded).1 h
  | error e =>
      rw [Message.encoded, encode] at hencoded
      generalize hheader : packHeader msg.command msg.topicId msg.priority
        msg.payload.length = header at hencoded
      cases header with
      | error e' =>
          cases hencoded
          rw [packHeader_error hheader]
      | ok header => cases hencoded

/-- A stream has one decomposition into encoded messages and a cut frame. -/
theorem decomposition_unique {stream r : Bytes} {msgs : List Message}
    {frames : List Bytes} (hmsgs : msgs.mapM Message.encoded = .ok frames)
    (hstream : stream = frames.flatten ++ r) (hcut : CutFrame r) :
    msgs = (wire.parse stream).map Message.ofFrame ∧ r = wire.rest stream := by
  obtain ⟨hwire, rfl⟩ := mapM_encoded_eq_ok.mp hmsgs
  rw [cutFrame_iff_not_hasFrame] at hcut
  have hframes := isFrame_of_mem_map_frame hwire
  rw [hstream, Framing.parse_flatten_append hframes,
    Framing.parse_of_not_hasFrame hcut, List.append_nil,
    map_ofFrame_map_frame hwire, Framing.rest_flatten_append hframes,
    Framing.rest_of_not_hasFrame hcut]
  exact ⟨rfl, rfl⟩

/-- Reading takes every stream apart in the only possible way: into the
encodings of the messages read and a frame that was cut.  So messages that fit
the wire are read back from their encodings, wherever these are cut, and all
others are refused by `encode`. -/
theorem readMessages_lossless :
    (∀ stream, ∃ msgs frames r,
      readMessages stream = (msgs, .error .incompleteReadError) ∧
      msgs.mapM Message.encoded = .ok frames ∧
      stream = frames.flatten ++ r ∧ CutFrame r ∧
      (∃ msg : Message, msg.OnWire ∧ r <+: msg.frame ∧ r ≠ msg.frame) ∧
      ∀ msgs' frames' r', msgs'.mapM Message.encoded = .ok frames' →
        stream = frames'.flatten ++ r' → CutFrame r' →
          msgs' = msgs ∧ r' = r) ∧
    (∀ msgs : List Message, (∀ msg ∈ msgs, msg.OnWire) →
      ∃ frames, msgs.mapM Message.encoded = .ok frames ∧
        ∀ n, ∃ k, readMessages (frames.flatten.take n) =
            (msgs.take k, .error .incompleteReadError) ∧
          ∀ i < msgs.length,
            i < k ↔ (frames.take (i + 1)).flatten.length ≤ n) ∧
    ∀ msg : Message, ¬msg.OnWire → msg.encoded = .error .structError := by
  refine ⟨?_, ?_, fun msg => Message.encoded_eq_error⟩
  · intro stream
    have hcut : CutFrame (wire.rest stream) :=
      cutFrame_iff_not_hasFrame.mpr (Framing.not_hasFrame_rest stream)
    refine ⟨_, wire.parse stream, wire.rest stream, readMessages_eq stream,
      encoded_map_ofFrame Framing.isFrame_of_mem_parse,
      (Framing.flatten_parse_append_rest stream).symm, hcut,
      cutFrame_iff_isPrefix.mp hcut, ?_⟩
    intro msgs' frames' r' hmsgs hstream hr
    exact decomposition_unique hmsgs hstream hr
  · intro msgs hwire
    refine ⟨_, mapM_encoded_eq_ok.mpr ⟨hwire, rfl⟩, ?_⟩
    intro n
    obtain ⟨k, hparse, hk⟩ :=
      Framing.parse_take_flatten (isFrame_of_mem_map_frame hwire) n
    refine ⟨k, ?_, ?_⟩
    · rw [readMessages_eq, hparse, List.map_take, map_ofFrame_map_frame hwire]
    · rwa [List.length_map] at hk

/-! ## The log reader and the network reader -/

/-- On a file that does not change, a replay yields the encodings of the
messages that `read_message` reads behind its offset, for every batch size, and
ends behind the last of them. -/
theorem asyncReader_eq_readMessages {content : Bytes} {offset batchSize : ℕ}
    (hoffset : offset < 2 ^ 63) (hbatch : 1 ≤ batchSize) :
    ∃ msgs frames,
      readMessages (content.drop offset) =
        (msgs, .error .incompleteReadError) ∧
      msgs.mapM Message.encoded = .ok frames ∧
      ∀ fuel, content.length < fuel →
        asyncReader content batchSize fuel offset =
          some (frames, .finished (offset + frames.flatten.length)) := by
  refine ⟨_, _, readMessages_eq _,
    encoded_map_ofFrame Framing.isFrame_of_mem_parse, ?_⟩
  intro fuel hfuel
  have hseek : seekAccepts content offset = true := by
    rw [seekAccepts, decide_eq_true hoffset, Bool.true_or]
  have hle := length_le_length_flatten
    (Framing.isFrame_of_mem_parse (F := wire) (s := content.drop offset))
  have hpre := (Framing.flatten_parse_isPrefix (F := wire)
    (content.drop offset)).length_le
  rw [List.length_drop] at hpre
  exact asyncReader_eq hbatch hseek (by omega)

/-- The hypotheses at work: a torn log, read one frame at a time. -/
theorem asyncReader_torn_log :
    (7 : ℕ) < 2 ^ 63 ∧ 1 ≤ 1 ∧
      ∃ msgs frames,
        readMessages ((List.replicate 20 (0 : UInt8)).drop 7) =
          (msgs, .error .incompleteReadError) ∧
        msgs.mapM Message.encoded = .ok frames ∧
        ∀ fuel, (List.replicate 20 (0 : UInt8)).length < fuel →
          asyncReader (List.replicate 20 0) 1 fuel 7 =
            some (frames, .finished (7 + frames.flatten.length)) :=
  ⟨by decide, by decide,
    asyncReader_eq_readMessages (by decide) (by decide)⟩

end SentinelHub.Broker
