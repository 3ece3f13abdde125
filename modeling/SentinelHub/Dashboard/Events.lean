import SentinelHub.Client.Readers
import SentinelHub.Support.Utf8
import Mathlib.Data.Rat.Defs

/-!
# The events of the dashboard

The dictionaries that `dashboard_server.py` hands to `broadcast_sse`, and how a
frame of the broker becomes one.  The `timestamp` of an event is left out.
-/

namespace SentinelHub.Dashboard

open Support Broker

/-! ## Topics -/

/-- The names in `SMART_HOME_TOPICS`, whose keys are their hashes. -/
def smartHomeTopics : List String :=
  ["home/fire", "home/temperature", "home/door", "home/light", "home/battery",
    "broker/metrics"]

/-- `SMART_HOME_TOPICS.get(tid)`. -/
def topicName (tid : ℤ) : Option String :=
  smartHomeTopics.find? fun topic => topicHash topic = tid

theorem mem_smartHomeTopics_of_topicName {tid : ℤ} {topic : String}
    (h : topicName tid = some topic) :
    topic ∈ smartHomeTopics ∧ topicHash topic = tid :=
  ⟨List.mem_of_find?_eq_some h, by simpa using List.find?_some h⟩

/-! ## JSON -/

/-- A `float`. -/
inductive PyFloat
  | finite (value : ℚ)
  | infinity (negative : Bool)
  | nan
  deriving DecidableEq, Repr

/-- What `json.loads` returns. -/
inductive Json
  | null
  | bool (value : Bool)
  | int (value : ℤ)
  | float (value : PyFloat)
  | str (text : List Char)
  | list (items : List Json)
  | dict (items : List (List Char × Json))
  deriving Repr

/-- `d[key] = value`. -/
def setItem (key : List Char) (value : Json) :
    List (List Char × Json) → List (List Char × Json)
  | [] => [(key, value)]
  | (k, v) :: items =>
      if k = key then (k, value) :: items
      else (k, v) :: setItem key value items

/-! ## Hexadecimal digits -/

def hexDigit (n : ℕ) : Char :=
  "0123456789abcdef".toList.getD n '0'

/-- `data.hex()`. -/
def hex (data : Bytes) : List Char :=
  data.flatMap fun b => [hexDigit (b.toNat / 16), hexDigit (b.toNat % 16)]

@[simp] theorem hex_nil : hex [] = [] :=
  rfl

@[simp] theorem length_hex (data : Bytes) :
    (hex data).length = 2 * data.length := by
  induction data with
  | nil => rfl
  | cons b data ih =>
      rw [hex, List.flatMap_cons, List.length_append, ← hex, ih,
        List.length_cons, List.length_cons, List.length_cons, List.length_nil]
      omega

/-! ## Events -/

inductive Event
  | connectionStatus (connected : Bool)
  | metrics (data : List (List Char × Json))
  | qos (topic : String) (priority : ℕ) (payload hex : List Char)
  | timeTravelLog (topic : String) (priority : ℕ) (payload hex : List Char)
  | timeTravelDone (replayed : ℕ)
  deriving Repr

/-- What a `connection_status` event says. -/
def Event.status : Event → Option Bool
  | .connectionStatus connected => some connected
  | _ => none

/-- The events that `trigger_time_travel` broadcasts. -/
def Event.isReplay : Event → Bool
  | .timeTravelLog .. => true
  | .timeTravelDone _ => true
  | _ => false

/-- `(header_bytes + payload).hex()`. -/
def BrokerFrame.rawHex (frame : BrokerFrame) : List Char :=
  hex (frame.header ++ frame.payload)

section Forward

-- `json.loads`, with `none` where it raises.
variable (loads : List Char → Option Json)

/-- The event of a frame of the topic `broker/metrics`, or `none` where the
`try` block ends in an exception. -/
def metricsEvent (frame : BrokerFrame) : Option Event :=
  match (Utf8.decode frame.payload).bind loads with
  | some (.dict data) =>
      some (.metrics (setItem "hex".toList (.str frame.rawHex)
        (setItem "type".toList (.str "metrics".toList) data)))
  | _ => none

/-- The event that `proxy_broker_connection` broadcasts for a frame, if any. -/
def forward (frame : BrokerFrame) : Option Event := do
  let topic ← topicName frame.tid
  if topic = "broker/metrics" then metricsEvent loads frame
  else
    some (.qos topic frame.pri (Utf8.decodeReplace frame.payload) frame.rawHex)

variable {loads} {frame : BrokerFrame} {event : Event}

theorem forward_of_unknown (h : topicName frame.tid = none) :
    forward loads frame = none := by
  rw [forward, h]
  rfl

/-- A frame of a topic other than `broker/metrics`. -/
theorem forward_of_device (loads : List Char → Option Json)
    (frame : BrokerFrame) {topic : String}
    (htopic : topicName frame.tid = some topic)
    (hne : topic ≠ "broker/metrics") :
    forward loads frame =
      some (.qos topic frame.pri (Utf8.decodeReplace frame.payload)
        frame.rawHex) := by
  rw [forward, htopic, Option.bind_eq_bind, Option.bind_some, if_neg hne]

theorem forward_of_metrics
    (htopic : topicName frame.tid = some "broker/metrics") :
    forward loads frame = metricsEvent loads frame := by
  rw [forward, htopic, Option.bind_eq_bind, Option.bind_some, if_pos rfl]

theorem status_of_metricsEvent (h : metricsEvent loads frame = some event) :
    event.status = none := by
  rw [metricsEvent] at h
  split at h
  · cases h
    rfl
  · cases h

/-- No frame makes a status event. -/
theorem status_of_forward (h : forward loads frame = some event) :
    event.status = none := by
  cases htopic : topicName frame.tid with
  | none =>
      rw [forward_of_unknown htopic] at h
      cases h
  | some topic =>
      by_cases hmetrics : topic = "broker/metrics"
      · rw [hmetrics] at htopic
        rw [forward_of_metrics htopic] at h
        exact status_of_metricsEvent h
      · rw [forward_of_device loads frame htopic hmetrics] at h
        cases h
        rfl

theorem Event.status_of_isReplay (h : event.isReplay = true) :
    event.status = none := by
  cases event with
  | timeTravelLog topic priority payload hex => rfl
  | timeTravelDone replayed => rfl
  | connectionStatus connected => cases h
  | metrics data => cases h
  | qos topic priority payload hex => cases h

end Forward

end SentinelHub.Dashboard
