import SentinelHub.Support.BigEndian
import SentinelHub.Support.Framing

/-!
# The wire protocol

`broker/protocol.py`: a message is a ten byte header (command, topic, priority
and payload length, big-endian and without padding) followed by the payload.
The fields of a `Message` are Python integers, so `encode` can fail on them;
the four numbers in a decoded header are always in range.
-/

namespace SentinelHub.Broker

open SentinelHub.Support

abbrev Bytes := List UInt8

/-- The exceptions that the modelled code can raise, by Python class. -/
inductive PyError
  | structError
  | valueError (text : String)
  | overflowError
  | incompleteReadError
  deriving DecidableEq, Repr

def cmdSubscribe : ℤ := 0x01
def cmdPublish : ℤ := 0x02
def cmdTimeTravel : ℤ := 0x03

/-- `struct.calcsize("!BIBI")`. -/
def headerSize : ℕ := 10

/-- Decoded message container. -/
structure Message where
  command : ℤ
  topicId : ℤ
  priority : ℤ
  payload : Bytes
  deriving DecidableEq, Repr

/-! ## Encoding -/

/-- One unsigned field of `struct.pack`. -/
def packUInt (width : ℕ) (value : ℤ) : Except PyError Bytes :=
  if 0 ≤ value ∧ value < 256 ^ width then
    .ok (bigEndian width value.toNat)
  else
    .error .structError

/-- `struct.pack("!BIBI", ...)`. -/
def packHeader (command topicId priority : ℤ) (payloadLength : ℕ) :
    Except PyError Bytes := do
  let commandByte ← packUInt 1 command
  let topicBytes ← packUInt 4 topicId
  let priorityByte ← packUInt 1 priority
  let lengthBytes ← packUInt 4 payloadLength
  return commandByte ++ topicBytes ++ priorityByte ++ lengthBytes

/-- Pack a full message frame (header + payload) into bytes. -/
def encode (command topicId priority : ℤ) (payload : Bytes) :
    Except PyError Bytes := do
  let header ← packHeader command topicId priority payload.length
  return header ++ payload

/-- `encode(msg.command, msg.topic_id, msg.priority, msg.payload)`. -/
def Message.encoded (msg : Message) : Except PyError Bytes :=
  encode msg.command msg.topicId msg.priority msg.payload

/-! ## Decoding -/

/-- The four fields of a header. -/
structure Header where
  command : ℕ
  topicId : ℕ
  priority : ℕ
  payloadLength : ℕ
  deriving DecidableEq, Repr

/-- `struct.unpack("!BIBI", data)` on the first ten bytes of `data`. -/
def unpackHeader (data : Bytes) : Header where
  command := ofBigEndian (data.take 1)
  topicId := ofBigEndian ((data.drop 1).take 4)
  priority := ofBigEndian ((data.drop 5).take 1)
  payloadLength := ofBigEndian ((data.drop 6).take 4)

/-- Unpack a 10-byte header. -/
def decodeHeader (data : Bytes) : Except PyError Header :=
  if data.length < headerSize then
    .error (.valueError
      s!"Header too short: expected {headerSize} bytes, got {data.length}")
  else
    .ok (unpackHeader (data.take headerSize))

/-- `reader.readexactly(n)` on the bytes that are still to come before the end
of the stream: the bytes read and the bytes left. -/
def readExactly (n : ℕ) (stream : Bytes) : Except PyError (Bytes × Bytes) :=
  if stream.length < n then .error .incompleteReadError
  else .ok (stream.take n, stream.drop n)

/-- Read one complete message from a stream. -/
def readMessage (stream : Bytes) : Except PyError (Message × Bytes) := do
  let (headerData, stream) ← readExactly headerSize stream
  let header ← decodeHeader headerData
  let (payload, stream) ←
    if 0 < header.payloadLength then readExactly header.payloadLength stream
    else .ok ([], stream)
  return ({ command := header.command
            topicId := header.topicId
            priority := header.priority
            payload }, stream)

/-- The framing that headers and payloads follow on the wire and in the log. -/
def wire : Framing UInt8 where
  headerSize := headerSize
  headerSize_pos := by decide
  bodyLength header := (unpackHeader header).payloadLength

@[simp] theorem wire_headerSize : wire.headerSize = 10 := rfl

/-! ## Messages that fit the wire -/

/-- The fields are in the range of their header fields. -/
structure Message.OnWire (msg : Message) : Prop where
  command : 0 ≤ msg.command ∧ msg.command < 2 ^ 8
  topicId : 0 ≤ msg.topicId ∧ msg.topicId < 2 ^ 32
  priority : 0 ≤ msg.priority ∧ msg.priority < 2 ^ 8
  payload : msg.payload.length < 2 ^ 32

theorem Message.onWire_iff (msg : Message) :
    msg.OnWire ↔ (0 ≤ msg.command ∧ msg.command < 2 ^ 8) ∧
      (0 ≤ msg.topicId ∧ msg.topicId < 2 ^ 32) ∧
      (0 ≤ msg.priority ∧ msg.priority < 2 ^ 8) ∧
      msg.payload.length < 2 ^ 32 :=
  ⟨fun h => ⟨h.command, h.topicId, h.priority, h.payload⟩,
    fun ⟨hc, ht, hp, hl⟩ => ⟨hc, ht, hp, hl⟩⟩

instance (msg : Message) : Decidable msg.OnWire :=
  decidable_of_iff' _ msg.onWire_iff

/-- The bytes of a frame whose fields are in range. -/
def Message.frame (msg : Message) : Bytes :=
  bigEndian 1 msg.command.toNat ++ bigEndian 4 msg.topicId.toNat ++
    bigEndian 1 msg.priority.toNat ++ bigEndian 4 msg.payload.length ++
    msg.payload

theorem packUInt_eq_ok {width : ℕ} {value : ℤ} {bytes : Bytes} :
    packUInt width value = .ok bytes ↔
      (0 ≤ value ∧ value < 256 ^ width) ∧
        bytes = bigEndian width value.toNat := by
  unfold packUInt
  split
  next h => simp [h, eq_comm]
  next h => simp [h]

theorem packUInt_one_eq_ok {value : ℤ} {bytes : Bytes} :
    packUInt 1 value = .ok bytes ↔
      (0 ≤ value ∧ value < 2 ^ 8) ∧ bytes = bigEndian 1 value.toNat := by
  rw [packUInt_eq_ok, show (256 : ℤ) ^ 1 = 2 ^ 8 by norm_num]

theorem packUInt_four_eq_ok {value : ℤ} {bytes : Bytes} :
    packUInt 4 value = .ok bytes ↔
      (0 ≤ value ∧ value < 2 ^ 32) ∧ bytes = bigEndian 4 value.toNat := by
  rw [packUInt_eq_ok, show (256 : ℤ) ^ 4 = 2 ^ 32 by norm_num]

theorem packLength_eq_ok {length : ℕ} {bytes : Bytes} :
    packUInt 4 (length : ℤ) = .ok bytes ↔
      length < 2 ^ 32 ∧ bytes = bigEndian 4 length := by
  rw [packUInt_four_eq_ok, Int.toNat_natCast]
  constructor
  · rintro ⟨⟨-, hlt⟩, rfl⟩
    exact ⟨by exact_mod_cast hlt, rfl⟩
  · rintro ⟨hlt, rfl⟩
    exact ⟨⟨Int.natCast_nonneg _, by exact_mod_cast hlt⟩, rfl⟩

theorem packHeader_eq_ok {command topicId priority : ℤ} {length : ℕ}
    {header : Bytes} :
    packHeader command topicId priority length = .ok header ↔
      ∃ commandByte topicBytes priorityByte lengthBytes,
        packUInt 1 command = .ok commandByte ∧
        packUInt 4 topicId = .ok topicBytes ∧
        packUInt 1 priority = .ok priorityByte ∧
        packUInt 4 length = .ok lengthBytes ∧
        commandByte ++ topicBytes ++ priorityByte ++ lengthBytes = header := by
  unfold packHeader
  generalize packUInt 1 command = rc
  generalize packUInt 4 topicId = rt
  generalize packUInt 1 priority = rp
  generalize packUInt 4 (length : ℤ) = rl
  cases rc <;> cases rt <;> cases rp <;> cases rl <;>
    simp [bind, Except.bind, pure, Except.pure]

theorem encode_eq_ok {command topicId priority : ℤ} {payload frame : Bytes} :
    encode command topicId priority payload = .ok frame ↔
      ∃ header, packHeader command topicId priority payload.length =
        .ok header ∧ header ++ payload = frame := by
  unfold encode
  generalize packHeader command topicId priority payload.length = r
  cases r <;> simp [bind, Except.bind, pure, Except.pure]

/-- `encode` succeeds exactly on messages that fit the wire. -/
theorem Message.encoded_eq_ok {msg : Message} {frame : Bytes} :
    msg.encoded = .ok frame ↔ msg.OnWire ∧ frame = msg.frame := by
  rw [onWire_iff, Message.encoded, encode_eq_ok]
  simp only [packHeader_eq_ok, packUInt_one_eq_ok, packLength_eq_ok]
  simp only [packUInt_four_eq_ok]
  constructor
  · rintro ⟨_, ⟨_, _, _, _, ⟨hc, rfl⟩, ⟨ht, rfl⟩, ⟨hp, rfl⟩, ⟨hl, rfl⟩, rfl⟩,
      rfl⟩
    exact ⟨⟨hc, ht, hp, hl⟩, rfl⟩
  · rintro ⟨⟨hc, ht, hp, hl⟩, rfl⟩
    exact ⟨_, ⟨_, _, _, _, ⟨hc, rfl⟩, ⟨ht, rfl⟩, ⟨hp, rfl⟩, ⟨hl, rfl⟩, rfl⟩,
      rfl⟩

theorem Message.OnWire.encoded {msg : Message} (h : msg.OnWire) :
    msg.encoded = .ok msg.frame :=
  Message.encoded_eq_ok.mpr ⟨h, rfl⟩

theorem Message.length_frame (msg : Message) :
    msg.frame.length = headerSize + msg.payload.length := by
  simp only [frame, List.length_append, length_bigEndian]
  rfl

/-- Unpacking reads the four fields at their fixed places. -/
theorem unpackHeader_append {command topic priority length : Bytes}
    (hc : command.length = 1) (ht : topic.length = 4)
    (hp : priority.length = 1) (hl : length.length = 4) (t : Bytes) :
    unpackHeader (command ++ topic ++ priority ++ length ++ t) =
      { command := ofBigEndian command
        topicId := ofBigEndian topic
        priority := ofBigEndian priority
        payloadLength := ofBigEndian length } := by
  have hcommand : (command ++ topic ++ priority ++ length ++ t).take 1 =
      command := by
    simp only [List.append_assoc]
    exact List.take_left' hc
  have htopic : ((command ++ topic ++ priority ++ length ++ t).drop 1).take 4 =
      topic := by
    simp only [List.append_assoc]
    rw [List.drop_left' hc, List.take_left' ht]
  have hpriority :
      ((command ++ topic ++ priority ++ length ++ t).drop 5).take 1 =
        priority := by
    rw [List.append_assoc, List.append_assoc (command ++ topic)]
    rw [List.drop_left' (by simp [hc, ht]), List.take_left' hp]
  have hlength :
      ((command ++ topic ++ priority ++ length ++ t).drop 6).take 4 =
        length := by
    rw [List.append_assoc]
    rw [List.drop_left' (by simp [hc, ht, hp]), List.take_left' hl]
  rw [unpackHeader, hcommand, htopic, hpriority, hlength]

/-- The header of a frame spells the fields of its message, whatever stands
behind the frame. -/
theorem Message.OnWire.unpackHeader_frame_append {msg : Message}
    (h : msg.OnWire) (t : Bytes) :
    unpackHeader (msg.frame ++ t) =
      { command := msg.command.toNat
        topicId := msg.topicId.toNat
        priority := msg.priority.toNat
        payloadLength := msg.payload.length } := by
  have hcommand := h.command
  have htopic := h.topicId
  have hpriority := h.priority
  have hpayload := h.payload
  rw [frame, List.append_assoc _ msg.payload t,
    unpackHeader_append (length_bigEndian 1 _) (length_bigEndian 4 _)
      (length_bigEndian 1 _) (length_bigEndian 4 _),
    ofBigEndian_bigEndian_of_lt (by omega),
    ofBigEndian_bigEndian_of_lt (by omega),
    ofBigEndian_bigEndian_of_lt (by omega),
    ofBigEndian_bigEndian_of_lt (by omega)]

/-- The payload is what follows the header. -/
theorem Message.drop_frame (msg : Message) :
    msg.frame.drop headerSize = msg.payload := by
  rw [frame]
  exact List.drop_left'
    (by simp only [List.length_append, length_bigEndian]; rfl)

theorem Message.OnWire.unpackHeader_frame {msg : Message} (h : msg.OnWire) :
    unpackHeader msg.frame =
      { command := msg.command.toNat
        topicId := msg.topicId.toNat
        priority := msg.priority.toNat
        payloadLength := msg.payload.length } := by
  simpa using h.unpackHeader_frame_append []

/-- The header fields are those of the first ten bytes. -/
theorem unpackHeader_take (data : Bytes) :
    unpackHeader (data.take headerSize) = unpackHeader data := by
  simp [unpackHeader, headerSize, List.take_take, List.drop_take]

theorem wire_frameLength (data : Bytes) :
    wire.frameLength data =
      headerSize + (unpackHeader data).payloadLength := by
  rw [Framing.frameLength, wire_headerSize, ← unpackHeader_take data]
  rfl

/-- What `encode` produces is one complete frame. -/
theorem Message.OnWire.isFrame {msg : Message} (h : msg.OnWire) :
    wire.IsFrame msg.frame := by
  have hlen := msg.length_frame
  constructor
  · rw [wire_headerSize, hlen]
    exact Nat.le_add_right _ _
  · rw [wire_frameLength, h.unpackHeader_frame, hlen]

/-- Distinct messages have distinct frames. -/
theorem Message.OnWire.eq_of_frame_eq {msg msg' : Message} (h : msg.OnWire)
    (h' : msg'.OnWire) (heq : msg.frame = msg'.frame) : msg = msg' := by
  have hheader := congrArg unpackHeader heq
  rw [h.unpackHeader_frame, h'.unpackHeader_frame, Header.mk.injEq] at hheader
  obtain ⟨hcommand, htopic, hpriority, -⟩ := hheader
  have hpayload : msg.payload = msg'.payload := by
    rw [← msg.drop_frame, ← msg'.drop_frame, heq]
  have := h.command
  have := h'.command
  have := h.topicId
  have := h'.topicId
  have := h.priority
  have := h'.priority
  cases msg
  cases msg'
  simp only [Message.mk.injEq] at *
  exact ⟨by omega, by omega, by omega, hpayload⟩

/-! ## Reading what has been encoded -/

/-- The four numbers in a header are in range. -/
theorem unpackHeader_lt (data : Bytes) :
    (unpackHeader data).command < 2 ^ 8 ∧
      (unpackHeader data).topicId < 2 ^ 32 ∧
      (unpackHeader data).priority < 2 ^ 8 ∧
      (unpackHeader data).payloadLength < 2 ^ 32 := by
  have hfield : ∀ (bs : Bytes) (width : ℕ),
      ofBigEndian (bs.take width) < 256 ^ width := by
    intro bs width
    apply (ofBigEndian_lt _).trans_le
    exact Nat.pow_le_pow_right (by decide) (List.length_take_le width bs)
  exact ⟨hfield _ 1, hfield _ 4, hfield _ 1, hfield _ 4⟩

/-- Packing the fields of a header gives the header back. -/
theorem bigEndian_unpackHeader {headerData : Bytes}
    (hlen : headerData.length = headerSize) :
    bigEndian 1 (unpackHeader headerData).command ++
        bigEndian 4 (unpackHeader headerData).topicId ++
        bigEndian 1 (unpackHeader headerData).priority ++
        bigEndian 4 (unpackHeader headerData).payloadLength = headerData := by
  rw [headerSize] at hlen
  have hfield : ∀ (bs : Bytes) (width : ℕ), bs.length = width →
      bigEndian width (ofBigEndian bs) = bs := by
    rintro bs width rfl
    exact bigEndian_ofBigEndian bs
  have hcommand := hfield (headerData.take 1) 1 (by simp [hlen])
  have htopic := hfield ((headerData.drop 1).take 4) 4 (by simp [hlen])
  have hpriority := hfield ((headerData.drop 5).take 1) 1 (by simp [hlen])
  have hlength := hfield ((headerData.drop 6).take 4) 4 (by simp [hlen])
  have hsplit : ∀ n m : ℕ, headerData.take n ++ (headerData.drop n).take m =
      headerData.take (n + m) :=
    fun n m => (List.take_add).symm
  simp only [unpackHeader]
  rw [hcommand, htopic, hpriority, hlength, hsplit, hsplit, hsplit]
  exact List.take_of_length_le hlen.le

/-- Reading a message means reading a header and then the payload that it
announces. -/
theorem readMessage_header {headerData : Bytes}
    (hlen : headerData.length = headerSize) (tail : Bytes) :
    readMessage (headerData ++ tail) =
      if tail.length < (unpackHeader headerData).payloadLength then
        .error .incompleteReadError
      else
        .ok ({ command := (unpackHeader headerData).command
               topicId := (unpackHeader headerData).topicId
               priority := (unpackHeader headerData).priority
               payload := tail.take (unpackHeader headerData).payloadLength },
          tail.drop (unpackHeader headerData).payloadLength) := by
  have hread : readExactly headerSize (headerData ++ tail) =
      .ok (headerData, tail) := by
    rw [readExactly, if_neg (by simp [hlen]), ← hlen, List.take_left,
      List.drop_left]
  have hheader : decodeHeader headerData = .ok (unpackHeader headerData) := by
    rw [decodeHeader, if_neg (by omega), unpackHeader_take]
  simp only [readMessage, hread, hheader, bind, Except.bind, pure, Except.pure]
  by_cases hempty : 0 < (unpackHeader headerData).payloadLength
  · rw [if_pos hempty, readExactly]
    by_cases hshort : tail.length < (unpackHeader headerData).payloadLength
    · rw [if_pos hshort, if_pos hshort]
    · rw [if_neg hshort, if_neg hshort]
  · obtain hzero := Nat.eq_zero_of_not_pos hempty
    rw [if_neg hempty, hzero, if_neg (Nat.not_lt_zero _)]
    rfl

/-- `read_message` returns exactly the messages that fit the wire, and takes
their frames from the stream. -/
theorem readMessage_eq_ok {stream rest : Bytes} {msg : Message} :
    readMessage stream = .ok (msg, rest) ↔
      msg.OnWire ∧ stream = msg.frame ++ rest := by
  constructor
  · intro h
    by_cases hshort : stream.length < headerSize
    · simp only [readMessage, readExactly, if_pos hshort, bind,
        Except.bind] at h
      cases h
    · obtain ⟨headerData, tail, rfl, hlen⟩ : ∃ headerData tail,
          stream = headerData ++ tail ∧ headerData.length = headerSize :=
        ⟨_, _, (List.take_append_drop headerSize stream).symm,
          List.length_take_of_le (not_lt.mp hshort)⟩
      rw [readMessage_header hlen] at h
      split at h
      · cases h
      next hlong =>
        cases h
        have hpayload := List.length_take_of_le (not_lt.mp hlong)
        obtain ⟨hcommand, htopic, hpriority, hlength⟩ :=
          unpackHeader_lt headerData
        refine ⟨?_, ?_⟩
        · rw [Message.onWire_iff, hpayload]
          exact ⟨⟨Int.natCast_nonneg _, Int.ofNat_lt.mpr hcommand⟩,
            ⟨Int.natCast_nonneg _, Int.ofNat_lt.mpr htopic⟩,
            ⟨Int.natCast_nonneg _, Int.ofNat_lt.mpr hpriority⟩, hlength⟩
        · simp only [Message.frame, Int.toNat_natCast, hpayload]
          rw [bigEndian_unpackHeader hlen, List.append_assoc,
            List.take_append_drop]
  · rintro ⟨hwire, rfl⟩
    have hsplit : msg.frame = msg.frame.take headerSize ++ msg.payload := by
      rw [← msg.drop_frame, List.take_append_drop]
    have hlen : (msg.frame.take headerSize).length = headerSize := by
      apply List.length_take_of_le
      rw [msg.length_frame]
      exact Nat.le_add_right _ _
    rw [hsplit, List.append_assoc, readMessage_header hlen,
      unpackHeader_take, hwire.unpackHeader_frame, if_neg (by simp),
      List.take_left, List.drop_left, Int.toNat_of_nonneg hwire.command.1,
      Int.toNat_of_nonneg hwire.topicId.1,
      Int.toNat_of_nonneg hwire.priority.1]

end SentinelHub.Broker
