import SentinelHub.Dashboard.Events
import Mathlib.Tactic.FieldSimp

/-!
# The protocol inspector

`updateInspector` in `visualization/app.js` takes a frame apart once more, from
the hexadecimal digits and the decoded payload of its event.  A JavaScript
string is the list of its UTF-16 code units where a text can be in it, and a
list of characters where there are only digits.  The percentage in the last row
and the markup around the fields are left out.
-/

namespace SentinelHub.Dashboard

open Support Broker

/-! ## The inspector -/

/-- `text.substring(start, stop)`. -/
def substring {α : Type*} (text : List α) (start stop : ℕ) : List α :=
  (text.drop start).take (stop - start)

/-- `text.toUpperCase()`. -/
def toUpperCase (text : List Char) : List Char :=
  text.map Char.toUpper

/-- `hex.match(/.{1,2}/g)?.join(' ') || hex`. -/
def formatHex (hex : List Char) : List Char :=
  ([' '] : List Char).intercalate (hex.toChunks 2)

/-- `escapeHtml`. -/
def escapeHtml (text : List UInt16) : List UInt16 :=
  text.flatMap fun unit =>
    if unit = 0x26 then Utf8.utf16 "&amp;".toList
    else if unit = 0x3C then Utf8.utf16 "&lt;".toList
    else if unit = 0x3E then Utf8.utf16 "&gt;".toList
    else if unit = 0xA0 then Utf8.utf16 "&nbsp;".toList
    else [unit]

/-- `cmdNames[cmdByte] || '?'`. -/
def cmdName (cmdByte : List Char) : String :=
  if cmdByte = ['0', '1'] then "SUBSCRIBE"
  else if cmdByte = ['0', '2'] then "PUBLISH"
  else if cmdByte = ['0', '3'] then "TIME_TRAVEL"
  else "?"

/-- The values in the rows of `decodedFields`: those in hexadecimal digits, and
beside them the name of the command, the topic, the priority and the number of
bytes. -/
structure DecodedFields where
  cmdByte : List Char
  cmdName : String
  topicHex : List Char
  topic : String
  priByte : List Char
  priority : ℕ
  lenHex : List Char
  byteCount : ℕ
  payload : List UInt16
  total : ℚ
  jsonBytes : ℕ
  deriving DecidableEq, Repr

structure Inspector where
  lastHex : List Char
  hexDisplay : Option (List Char)
  decodedFields : Option DecodedFields
  deriving DecidableEq, Repr

def Inspector.init : Inspector where
  lastHex := []
  hexDisplay := none
  decodedFields := none

/-- What `updateInspector` shows of an event that differs from the last one. -/
def inspect (hex : List Char) (topic : String) (priority : ℕ)
    (payload : List UInt16) : Inspector where
  lastHex := hex
  hexDisplay := some (toUpperCase (formatHex hex))
  decodedFields :=
    let cmdByte := toUpperCase (substring hex 0 2)
    some
      { cmdByte
        cmdName := cmdName cmdByte
        topicHex := toUpperCase (substring hex 2 10)
        topic
        priByte := toUpperCase (substring hex 10 12)
        priority
        lenHex := toUpperCase (substring hex 12 20)
        byteCount := payload.length
        payload := escapeHtml (substring payload 0 40)
        total := (hex.length : ℚ) / 2
        jsonBytes := payload.length + 50 }

def updateInspector (s : Inspector) (hex : List Char) (topic : String)
    (priority : ℕ) (payload : List UInt16) : Inspector :=
  if hex = s.lastHex then s else inspect hex topic priority payload

/-- What `onmessage` does to the inspector. -/
def onMessage (s : Inspector) : Event → Inspector
  | .qos topic pri payload hex =>
      if hex.isEmpty then s
      else
        updateInspector s hex (if topic.isEmpty then "unknown" else topic) pri
          (Utf8.utf16 payload)
  | _ => s

/-- The inspector behind a number of events. -/
def inspectorAfter (events : List Event) : Inspector :=
  events.foldl onMessage .init

/-! ## Hexadecimal digits -/

/-- The number that an upper-case digit stands for. -/
def digitValue (c : Char) : ℕ :=
  "0123456789ABCDEF".toList.idxOf c

/-- The number that upper-case digits stand for. -/
def hexValue : List Char → ℕ
  | [] => 0
  | c :: text => digitValue c * 16 ^ text.length + hexValue text

theorem digitValue_hexDigit {n : ℕ} (hn : n < 16) :
    digitValue (hexDigit n).toUpper = n := by
  have hall : ∀ n < 16, digitValue (hexDigit n).toUpper = n := by decide
  exact hall n hn

theorem hexValue_hex (data : Bytes) :
    hexValue (toUpperCase (hex data)) = ofBigEndian data := by
  induction data with
  | nil => rfl
  | cons b data ih =>
      have hb := b.toNat_lt
      have hhigh := digitValue_hexDigit (n := b.toNat / 16) (by omega)
      have hlow := digitValue_hexDigit (n := b.toNat % 16) (by omega)
      have hlength : (toUpperCase (hex data)).length = 2 * data.length := by
        rw [toUpperCase, List.length_map, length_hex]
      have hsplit : toUpperCase (hex (b :: data)) =
          (hexDigit (b.toNat / 16)).toUpper ::
            (hexDigit (b.toNat % 16)).toUpper :: toUpperCase (hex data) :=
        rfl
      have hpow : 16 ^ (2 * data.length) = 256 ^ data.length := by
        rw [pow_mul, show 16 ^ 2 = 256 by rfl]
      have hdiv : b.toNat / 16 * 16 + b.toNat % 16 = b.toNat :=
        Nat.div_add_mod' _ _
      rw [hsplit, hexValue, hexValue, hhigh, hlow, List.length_cons, hlength,
        ih, pow_succ, hpow, ofBigEndian]
      calc
        b.toNat / 16 * (256 ^ data.length * 16) +
              (b.toNat % 16 * 256 ^ data.length + ofBigEndian data) =
            (b.toNat / 16 * 16 + b.toNat % 16) * 256 ^ data.length +
              ofBigEndian data := by ring
        _ = b.toNat * 256 ^ data.length + ofBigEndian data := by rw [hdiv]

theorem hex_injective {data data' : Bytes} (h : hex data = hex data') :
    data = data' := by
  have hlength : data.length = data'.length := by
    have hlengths := congrArg List.length h
    rw [length_hex, length_hex] at hlengths
    omega
  have hvalue : ofBigEndian data = ofBigEndian data' := by
    rw [← hexValue_hex, h, hexValue_hex]
  rw [← bigEndian_ofBigEndian data, hlength, hvalue, bigEndian_ofBigEndian]

theorem drop_hex (data : Bytes) (i : ℕ) :
    (hex data).drop (2 * i) = hex (data.drop i) := by
  induction i generalizing data with
  | zero => rfl
  | succ i ih =>
      cases data with
      | nil => simp
      | cons b data => exact ih data

theorem take_hex (data : Bytes) (n : ℕ) :
    (hex data).take (2 * n) = hex (data.take n) := by
  induction n generalizing data with
  | zero => rfl
  | succ n ih =>
      cases data with
      | nil => simp
      | cons b data =>
          have hsplit : ∀ tail : Bytes, hex (b :: tail) =
              hexDigit (b.toNat / 16) :: hexDigit (b.toNat % 16) :: hex tail :=
            fun _ => rfl
          rw [List.take_succ_cons, hsplit, hsplit, ← ih data]
          rfl

/-- A substring of the digits between two bytes is the digits of the bytes. -/
theorem substring_hex (data : Bytes) (i n : ℕ) :
    substring (hex data) (2 * i) (2 * i + 2 * n) =
      hex ((data.drop i).take n) := by
  rw [substring, Nat.add_sub_cancel_left, drop_hex, take_hex]

/-! ## What is shown of a frame -/

/-- The fields of `decode_header`, and the length of the frame, are the ones
that the inspector shows. -/
def HeaderShown (raw : Bytes) (s : Inspector) : Prop :=
  ∃ fields rows, decodeHeader raw = .ok fields ∧ s.decodedFields = some rows ∧
    hexValue rows.cmdByte = fields.command ∧
    hexValue rows.topicHex = fields.topicId ∧
    hexValue rows.priByte = fields.priority ∧
    rows.priority = fields.priority ∧
    rows.byteCount = fields.payloadLength ∧
    rows.total = raw.length

/-- What the inspector shows of the event of a frame. -/
def inspectFrame (raw : Bytes) (topic : String) : Inspector :=
  inspect (hex raw) topic (unpackHeader raw).priority
    (Utf8.utf16 (Utf8.decodeReplace (raw.drop headerSize)))

variable {loads : List Char → Option Json} {raw raw' : Bytes}
  {topic topic' : String} {s : Inspector} {event : Event} {events : List Event}

theorem length_drop_headerSize (h : wire.IsFrame raw) :
    (raw.drop headerSize).length = (unpackHeader raw).payloadLength := by
  have hlength := h.2
  rw [wire_frameLength] at hlength
  rw [List.length_drop]
  omega

theorem rawHex_ofFrame (raw : Bytes) :
    (BrokerFrame.ofFrame raw).rawHex = hex raw :=
  congrArg hex (List.take_append_drop headerSize raw)

theorem hexValue_substring (raw : Bytes) (i n : ℕ) :
    hexValue (toUpperCase (substring (hex raw) (2 * i) (2 * i + 2 * n))) =
      ofBigEndian ((raw.drop i).take n) := by
  rw [substring_hex, hexValue_hex]

/-- All is shown as it is but the number of bytes, which is the number of UTF-16
code units of the decoded payload. -/
theorem headerShown_inspectFrame_iff (h : wire.IsFrame raw) (topic : String) :
    HeaderShown raw (inspectFrame raw topic) ↔
      (raw.drop headerSize).IsChain fun b c => ¬Utf8.Continues b c := by
  have hlong : headerSize ≤ raw.length := h.1
  have hdecode : decodeHeader raw = .ok (unpackHeader raw) := by
    rw [decodeHeader, if_neg (not_lt.mpr hlong), unpackHeader_take]
  have htotal : ((hex raw).length : ℚ) / 2 = raw.length := by
    rw [length_hex]
    push_cast
    field_simp
  rw [← Utf8.length_utf16_decodeReplace_eq_iff, length_drop_headerSize h]
  constructor
  · rintro ⟨fields, rows, hfields, hrows, -, -, -, -, hcount, -⟩
    rw [hdecode] at hfields
    cases hfields
    cases hrows
    exact hcount
  · intro hcount
    exact ⟨_, _, hdecode, rfl, hexValue_substring raw 0 1,
      hexValue_substring raw 1 4, hexValue_substring raw 5 1, rfl, hcount,
      htotal⟩

/-! ## Runs of the inspector -/

theorem forward_eq_qos {frame : BrokerFrame} {pri : ℕ}
    {payload hex : List Char}
    (h : forward loads frame = some (.qos topic pri payload hex)) :
    topicName frame.tid = some topic ∧ topic ≠ "broker/metrics" ∧
      pri = frame.pri ∧ payload = Utf8.decodeReplace frame.payload ∧
        hex = frame.rawHex := by
  cases htopic : topicName frame.tid with
  | none =>
      rw [forward_of_unknown htopic] at h
      cases h
  | some topic' =>
      by_cases hmetrics : topic' = "broker/metrics"
      · rw [hmetrics] at htopic
        rw [forward_of_metrics htopic, metricsEvent] at h
        split at h
        · cases h
        · cases h
      · rw [forward_of_device loads frame htopic hmetrics] at h
        cases h
        exact ⟨rfl, hmetrics, rfl, rfl, rfl⟩

theorem isEmpty_topic {tid : ℤ} (h : topicName tid = some topic) :
    topic.isEmpty = false := by
  have hall : ∀ topic ∈ smartHomeTopics, topic.isEmpty = false := by decide
  exact hall topic (mem_smartHomeTopics_of_topicName h).1

theorem hex_ne_nil (h : wire.IsFrame raw) : hex raw ≠ [] := by
  intro hnil
  have hlength := congrArg List.length hnil
  have hlong : headerSize ≤ raw.length := h.1
  rw [length_hex, List.length_nil] at hlength
  simp only [headerSize] at hlong
  omega

/-- The event of a frame shows the frame, unless its digits are shown
already. -/
theorem onMessage_forward (s : Inspector) (h : wire.IsFrame raw)
    (htopic : topicName (unpackHeader raw).topicId = some topic)
    (hdevice : topic ≠ "broker/metrics")
    (hevent : forward loads (.ofFrame raw) = some event) :
    onMessage s event =
      if hex raw = s.lastHex then s else inspectFrame raw topic := by
  have hforward := forward_of_device loads (.ofFrame raw) htopic hdevice
  rw [hevent] at hforward
  cases hforward
  have hne : (hex raw).isEmpty = false :=
    List.isEmpty_eq_false_iff.mpr (hex_ne_nil h)
  simp only [onMessage, rawHex_ofFrame, hne, isEmpty_topic htopic,
    Bool.false_eq_true, if_false, updateInspector]
  rfl

/-- The inspector shows nothing, or a frame. -/
def Shows (s : Inspector) : Prop :=
  s.lastHex = [] ∨ ∃ raw topic, wire.IsFrame raw ∧
    topicName (unpackHeader raw).topicId = some topic ∧
      s = inspectFrame raw topic

/-- Whatever was shown, the event of a frame shows the frame. -/
theorem Shows.onMessage_forward (hs : Shows s) (h : wire.IsFrame raw)
    (htopic : topicName (unpackHeader raw).topicId = some topic)
    (hdevice : topic ≠ "broker/metrics")
    (hevent : forward loads (.ofFrame raw) = some event) :
    onMessage s event = inspectFrame raw topic := by
  rw [Dashboard.onMessage_forward s h htopic hdevice hevent]
  by_cases hsame : hex raw = s.lastHex
  · rw [if_pos hsame]
    rcases hs with hnil | ⟨raw', topic', -, htopic', rfl⟩
    · rw [hnil] at hsame
      exact absurd hsame (hex_ne_nil h)
    · cases hex_injective hsame
      rw [htopic] at htopic'
      cases htopic'
      rfl
  · rw [if_neg hsame]

/-- The browser gets its `qos` events from `proxy_broker_connection`. -/
def FromBroker (loads : List Char → Option Json) (events : List Event) : Prop :=
  ∀ topic pri payload hex, .qos topic pri payload hex ∈ events →
    ∃ raw, wire.IsFrame raw ∧
      forward loads (.ofFrame raw) = some (.qos topic pri payload hex)

theorem shows_inspectorAfter (h : FromBroker loads events) :
    Shows (inspectorAfter events) := by
  induction events using List.reverseRecOn with
  | nil => exact Or.inl rfl
  | append_singleton events event ih =>
      have hshows := ih fun topic pri payload hex he =>
        h topic pri payload hex (List.mem_append_left _ he)
      have hlast := fun topic pri payload hex heq =>
        h topic pri payload hex (List.mem_append_right _ heq)
      rw [inspectorAfter, List.foldl_append, ← inspectorAfter]
      change Shows (onMessage (inspectorAfter events) event)
      cases event with
      | qos topic pri payload hex =>
          obtain ⟨raw, hframe, hevent⟩ :=
            hlast topic pri payload hex (List.mem_singleton_self _)
          obtain ⟨htopic, hdevice, -⟩ := forward_eq_qos hevent
          rw [hshows.onMessage_forward hframe htopic hdevice hevent]
          exact Or.inr ⟨raw, topic, hframe, htopic, rfl⟩
      | connectionStatus connected => exact hshows
      | metrics data => exact hshows
      | timeTravelLog topic pri payload hex => exact hshows
      | timeTravelDone replayed => exact hshows

/-- Whatever the browser has received before, the inspector shows the fields of
`decode_header` for a forwarded frame exactly when no byte of its payload is
followed by one that goes on with its character. -/
theorem inspector_shows_header_iff (hevents : FromBroker loads events)
    (hframe : wire.IsFrame raw)
    (htopic : topicName (unpackHeader raw).topicId = some topic)
    (hdevice : topic ≠ "broker/metrics")
    (hevent : forward loads (.ofFrame raw) = some event) :
    HeaderShown raw (inspectorAfter (events ++ [event])) ↔
      (raw.drop headerSize).IsChain fun b c => ¬Utf8.Continues b c := by
  have hshown :
      inspectorAfter (events ++ [event]) = inspectFrame raw topic := by
    rw [inspectorAfter, List.foldl_append, ← inspectorAfter]
    exact (shows_inspectorAfter hevents).onMessage_forward hframe htopic hdevice
      hevent
  rw [hshown]
  exact headerShown_inspectFrame_iff hframe topic

/-- A message about `home/fire` with the payload `ok`. -/
theorem inspector_shows_header_iff_ok :
    let raw : Bytes :=
      [0x02, 0x4E, 0xEC, 0x8F, 0x19, 0xFF, 0, 0, 0, 2, 0x6F, 0x6B]
    ∃ event, forward (fun _ => none) (.ofFrame raw) = some event ∧
      HeaderShown raw (inspectorAfter ([] ++ [event])) := by
  intro raw
  have hframe : wire.IsFrame raw := by decide
  have htopic : topicName (unpackHeader raw).topicId = some "home/fire" := by
    decide +kernel
  have hdevice : "home/fire" ≠ "broker/metrics" := by decide
  have hnone : FromBroker (fun _ => none) [] := by
    intro topic pri payload hex he
    cases he
  have hevent := forward_of_device (fun _ => none) (.ofFrame raw) htopic
    hdevice
  refine ⟨_, hevent, ?_⟩
  exact (inspector_shows_header_iff hnone hframe htopic hdevice hevent).mpr
    (by decide)

/-- A message about `home/fire` whose payload is a flame, four bytes long: the
inspector shows two. -/
theorem inspector_miscounts_flame :
    let raw : Bytes :=
      [0x02, 0x4E, 0xEC, 0x8F, 0x19, 0xFF, 0, 0, 0, 4, 0xF0, 0x9F, 0x94, 0xA5]
    ∃ event, forward (fun _ => none) (.ofFrame raw) = some event ∧
      (inspectorAfter [event]).decodedFields.map (·.byteCount) = some 2 ∧
      ¬HeaderShown raw (inspectorAfter [event]) := by
  intro raw
  have hframe : wire.IsFrame raw := by decide
  have htopic : topicName (unpackHeader raw).topicId = some "home/fire" := by
    decide +kernel
  have hdevice : "home/fire" ≠ "broker/metrics" := by decide
  have hevent := forward_of_device (fun _ => none) (.ofFrame raw) htopic
    hdevice
  have hshows : Shows .init := Or.inl rfl
  have hshown := hshows.onMessage_forward hframe htopic hdevice hevent
  refine ⟨_, hevent, ?_, ?_⟩
  · rw [inspectorAfter, List.foldl_cons, List.foldl_nil, hshown]
    decide
  · rw [inspectorAfter, List.foldl_cons, List.foldl_nil, hshown,
      headerShown_inspectFrame_iff hframe]
    decide

end SentinelHub.Dashboard
