import SentinelHub.Dashboard.JsonWriting

/-!
# The text of an event

The message that `broadcast_sse` puts into the queues: the dictionary of an
event with its timestamp, as JSON, in the form of an event stream.  What the
handlers write is read again as it was, in whatever parts it comes.
-/

namespace SentinelHub.Dashboard

open Support EventStream

/-- The dictionary of an event that is made at the time `time`. -/
def Event.items (time : ℚ) : Event → List (List Char × Json)
  | .connectionStatus connected =>
      [("type".toList, .str "connection_status".toList),
        ("connected".toList, .bool connected)]
  | .metrics data => data
  | .qos topic priority payload hex =>
      [("type".toList, .str "qos".toList), ("topic".toList, .str topic.toList),
        ("priority".toList, .int priority), ("payload".toList, .str payload),
        ("hex".toList, .str hex), ("timestamp".toList, .float (.finite time))]
  | .timeTravelLog topic priority payload hex =>
      [("type".toList, .str "time_travel_log".toList),
        ("topic".toList, .str topic.toList), ("priority".toList, .int priority),
        ("payload".toList, .str payload), ("hex".toList, .str hex),
        ("timestamp".toList, .float (.finite time)),
        ("history".toList, .bool true)]
  | .timeTravelDone replayed =>
      [("type".toList, .str "time_travel_done".toList),
        ("replayed".toList, .int replayed)]

section Text

variable (floatRepr : ℚ → List Char)

/-- `json.dumps(data)`. -/
def Event.message (time : ℚ) (event : Event) : List Char :=
  dumps floatRepr (.dict (event.items time))

/-- What a handler writes for a number of events. -/
def streamText (stamped : List (ℚ × Event)) : List Char :=
  (stamped.map fun (time, event) => event.message floatRepr time).flatMap frame

end Text

variable {floatRepr : ℚ → List Char} {toFloat : List Char → PyFloat}
  {time : ℚ} {event : Event} {stamped : List (ℚ × Event)}

/-- The events of the dashboard: the data of a `metrics` event can be
written. -/
def Event.Sendable (floatRepr : ℚ → List Char) (toFloat : List Char → PyFloat) :
    Event → Prop
  | .metrics data => Writable floatRepr toFloat (.dict data)
  | _ => True

theorem writable_items (htime : Rereads floatRepr toFloat time)
    (h : event.Sendable floatRepr toFloat) :
    Writable floatRepr toFloat (.dict (event.items time)) := by
  cases event with
  | metrics data => exact h
  | connectionStatus connected =>
      have hkeys : ["type".toList, "connected".toList].Nodup := by decide
      exact ⟨hkeys, trivial, trivial, trivial⟩
  | qos topic priority payload hex =>
      have hkeys : ["type".toList, "topic".toList, "priority".toList,
          "payload".toList, "hex".toList, "timestamp".toList].Nodup := by
        decide
      exact ⟨hkeys, trivial, trivial, trivial, trivial, trivial, htime,
        trivial⟩
  | timeTravelLog topic priority payload hex =>
      have hkeys : ["type".toList, "topic".toList, "priority".toList,
          "payload".toList, "hex".toList, "timestamp".toList,
          "history".toList].Nodup := by
        decide
      exact ⟨hkeys, trivial, trivial, trivial, trivial, trivial, htime,
        trivial, trivial⟩
  | timeTravelDone replayed =>
      have hkeys : ["type".toList, "replayed".toList].Nodup := by decide
      exact ⟨hkeys, trivial, trivial, trivial⟩

/-- What the proxy makes of a frame can be sent. -/
theorem sendable_of_forward (hfloat : FloatsReread floatRepr toFloat)
    {frame : BrokerFrame} (h : forward (loads toFloat) frame = some event) :
    event.Sendable floatRepr toFloat := by
  cases htopic : topicName frame.tid with
  | none =>
      rw [forward_of_unknown htopic] at h
      cases h
  | some topic =>
      by_cases hmetrics : topic = "broker/metrics"
      · rw [hmetrics] at htopic
        rw [forward_of_metrics htopic, metricsEvent] at h
        split at h
        next data hdata =>
          obtain ⟨text, -, hread⟩ := Option.bind_eq_some_iff.mp hdata
          cases h
          have hdict := writable_of_parseJson hfloat hread
          exact writable_setItem (writable_setItem hdict trivial) trivial
        · cases h
      · rw [forward_of_device _ frame htopic hmetrics] at h
        cases h
        trivial

/-! ## Reading -/

/-- The text of every event can be read again. -/
def Legible (floatRepr : ℚ → List Char) (toFloat : List Char → PyFloat)
    (stamped : List (ℚ × Event)) : Prop :=
  ∀ e ∈ stamped, Rereads floatRepr toFloat e.1 ∧
    e.2.Sendable floatRepr toFloat

/-- `JSON.parse` reads the dictionary of an event, unless it holds a number
that is not finite. -/
theorem jsonParse_message (htime : Rereads floatRepr toFloat time)
    (h : event.Sendable floatRepr toFloat) :
    jsonParse toFloat (event.message floatRepr time) =
      if readable false (.dict (event.items time)) then
        some (.dict (jsPairs (event.items time)))
      else none := by
  rw [jsonParse, Event.message, parseJson_dumps false (writable_items htime h)]
  split
  · rfl
  · rfl

/-- What has come of a stream are its first messages, and a part of the next
one. -/
theorem read_streamText {text : List Char}
    (h : Legible floatRepr toFloat stamped)
    (htext : text <+: streamText floatRepr stamped) :
    ∃ n, (State.init.read text).2 =
      (stamped.take n).map fun (time, event) =>
        event.message floatRepr time := by
  have hlines : ∀ message ∈ stamped.map fun (time, event) =>
      event.message floatRepr time, OneLine message := by
    intro message hmessage
    obtain ⟨e, he, rfl⟩ := List.mem_map.mp hmessage
    exact oneLine_dumps _ (writable_items (h e he).1 (h e he).2)
  have hprefix := read_isPrefix hlines htext
  refine ⟨(State.init.read text).2.length, ?_⟩
  rw [List.map_take]
  exact List.prefix_iff_eq_take.mp hprefix

end SentinelHub.Dashboard
