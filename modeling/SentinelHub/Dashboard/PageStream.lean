import SentinelHub.Dashboard.PageRuns

/-!
# What a page reads

An event that a handler writes reaches the page as what it says, however the
stream is cut into parts.
-/

namespace SentinelHub.Dashboard

open Support EventStream

variable {floatRepr : ℚ → List Char} {toFloat : List Char → PyFloat}
  {time : ℚ} {event : Event} {stamped : List (ℚ × Event)}

/-- The entry of a message of the router. -/
def liveEntry (topic : String) (priority : ℕ) (payload hex : List Char) :
    Entry where
  topic := if topic.toList = [] then "unknown" else topic
  priority
  payload
  hex
  history := false

def natural : Json → Option ℕ
  | .int (.ofNat n) => some n
  | _ => none

/-- A priority as a page reads it, if that is finite. -/
def readPriority (n : ℕ) : Option ℕ :=
  natural (jsInt n)

/-- What an event says to a page. -/
def Event.reported : Event → Option Report
  | .connectionStatus connected => some (.status connected)
  | .metrics data =>
      if readable false (.dict data) then reportOf (.dict (jsPairs data))
      else none
  | .qos topic priority payload hex =>
      (readPriority priority).map fun priority =>
        .entry (liveEntry topic priority payload hex)
  | .timeTravelLog topic priority payload hex =>
      (readPriority priority).map fun priority =>
        .entry { liveEntry topic priority payload hex with history := true }
  | .timeTravelDone replayed => some (.done (jsInt replayed))

theorem readPriority_of_le {n : ℕ} (h : n ≤ maxExact) :
    readPriority n = some n := by
  rw [readPriority, jsInt_of_le h]
  rfl

theorem orElse_str (text other : List Char) :
    orElse (some (.str text)) (.str other) =
      .str (if text = [] then other else text) := by
  rw [orElse, truthy]
  by_cases h : text = []
  · rw [if_pos h, decide_eq_false (not_not_intro h)]
    rfl
  · rw [if_neg h, decide_eq_true h]
    rfl

theorem orElse_str_nil (text : List Char) :
    orElse (some (.str text)) (.str []) = .str text := by
  rw [orElse_str]
  split
  next h => rw [h]
  · rfl

theorem orElse_jsInt (n : ℕ) :
    orElse (some (jsInt n)) (.int 0) = jsInt n := by
  rw [jsInt]
  split
  · rw [orElse, truthy]
    split
    · rfl
    next h =>
      rw [decide_eq_true_iff, not_not] at h
      rw [h]
  · rfl

/-- A timestamp has a text. -/
theorem textual_orElse_float (x : PyFloat) :
    textual (orElse (some (.float x)) (.int 0)) = true := by
  rw [orElse]
  split
  · rfl
  · rfl

theorem entryOf_eq {data : List (List Char × Json)} {topic : String}
    {priority : ℕ} {payload hex : List Char} {time : PyFloat}
    (htopic : item data "topic" = some (.str topic.toList))
    (hpriority : item data "priority" = some (jsInt priority))
    (hpayload : item data "payload" = some (.str payload))
    (hhex : item data "hex" = some (.str hex))
    (htime : item data "timestamp" = some (.float time)) :
    entryOf data = (readPriority priority).map fun priority =>
      { liveEntry topic priority payload hex with
        history := match item data "history" with
          | some (.bool value) => value
          | _ => false } := by
  have hname : String.ofList (if topic.toList = [] then "unknown".toList
      else topic.toList) = if topic.toList = [] then "unknown" else topic := by
    rw [apply_ite String.ofList, String.ofList_toList, String.ofList_toList]
  rw [entryOf, htopic, hpriority, hpayload, hhex, htime, orElse_str,
    orElse_jsInt, orElse_str_nil, orElse_str_nil, textual_orElse_float,
    readPriority]
  simp only [liveEntry, ← hname]
  generalize (if topic.toList = [] then "unknown".toList else topic.toList) =
    name
  cases jsInt priority with
  | int n =>
      cases n with
      | ofNat n => rfl
      | negSucc n => rfl
  | _ => rfl

/-- An event says what it is. -/
theorem reportOf_items (h : ∀ data, event ≠ .metrics data) (time : ℚ) :
    reportOf (.dict (jsPairs (event.items time))) = event.reported := by
  cases event with
  | metrics data => exact absurd rfl (h data)
  | connectionStatus connected => rfl
  | qos topic priority payload hex =>
      have hentry := @entryOf_eq
        (jsPairs ((Event.qos topic priority payload hex).items time)) topic
        priority payload hex (.finite time) rfl rfl rfl rfl rfl
      exact (congrArg (Option.map Report.entry) hentry).trans
        (Option.map_map ..)
  | timeTravelLog topic priority payload hex =>
      have hentry := @entryOf_eq
        (jsPairs ((Event.timeTravelLog topic priority payload hex).items time))
        topic priority payload hex (.finite time) rfl rfl rfl rfl rfl
      exact (congrArg (Option.map Report.entry) hentry).trans
        (Option.map_map ..)
  | timeTravelDone replayed =>
      exact congrArg (fun v => some (Report.done v)) (orElse_jsInt replayed)

theorem reportIn_message (htime : Rereads floatRepr toFloat time)
    (h : event.Sendable floatRepr toFloat) :
    reportIn toFloat (event.message floatRepr time) = event.reported := by
  rw [reportIn, jsonParse_message htime h]
  by_cases hmetrics : ∃ data, event = .metrics data
  · obtain ⟨data, rfl⟩ := hmetrics
    rw [Event.reported, Event.items]
    split
    · rfl
    · rfl
  · have hreadable : readable false (.dict (event.items time)) = true := by
      cases event with
      | metrics data => exact absurd ⟨data, rfl⟩ hmetrics
      | connectionStatus connected => rfl
      | qos topic priority payload hex => rfl
      | timeTravelLog topic priority payload hex => rfl
      | timeTravelDone replayed => rfl
    rw [if_pos hreadable, Option.bind_some]
    exact reportOf_items (fun data heq => hmetrics ⟨data, heq⟩) time

/-- Of a stream that has come in part, a page reads what the first events say,
whole and in order. -/
theorem reports_of_stream {text : List Char}
    (h : Legible floatRepr toFloat stamped)
    (htext : text <+: streamText floatRepr stamped) :
    ∃ n, (State.init.read text).2.filterMap (reportIn toFloat) =
      ((stamped.map Prod.snd).take n).filterMap Event.reported := by
  obtain ⟨n, hread⟩ := read_streamText h htext
  refine ⟨n, ?_⟩
  rw [hread, List.filterMap_map, ← List.map_take, List.filterMap_map]
  refine List.filterMap_congr fun e he => ?_
  have hlegible := h e (List.mem_of_mem_take he)
  exact reportIn_message hlegible.1 hlegible.2

/-! ## Live reports -/

/-- What a message of the router says. -/
def Report.isLive : Report → Bool
  | .metrics _ _ => true
  | .entry e => !e.history
  | _ => false

/-- A `metrics` event says that it is one. -/
def Event.Honest : Event → Prop
  | .metrics data => data.lookup "type".toList = some (.str "metrics".toList)
  | _ => True

theorem lookup_setItem_self (key : List Char) (value : Json)
    (items : List (List Char × Json)) :
    (setItem key value items).lookup key = some value := by
  induction items with
  | nil => rw [setItem, List.lookup_cons_self]
  | cons item items ih =>
      obtain ⟨k, v⟩ := item
      rw [setItem]
      split
      next hk => rw [hk, List.lookup_cons_self]
      next hk =>
        rw [List.lookup_cons, beq_false_of_ne (Ne.symm hk)]
        exact ih

theorem lookup_setItem_ne {key key' : List Char} (h : key' ≠ key)
    (value : Json) (items : List (List Char × Json)) :
    (setItem key value items).lookup key' = items.lookup key' := by
  induction items with
  | nil =>
      rw [setItem, List.lookup_cons, beq_false_of_ne h]
  | cons item items ih =>
      obtain ⟨k, v⟩ := item
      rw [setItem]
      split
      next hk =>
        rw [hk, List.lookup_cons, List.lookup_cons, beq_false_of_ne h]
      · rw [List.lookup_cons, List.lookup_cons, ih]

/-- What the proxy makes of a frame is honest. -/
theorem honest_of_forward {loads : List Char → Option Json}
    {frame : BrokerFrame} (h : forward loads frame = some event) :
    event.Honest := by
  cases htopic : topicName frame.tid with
  | none =>
      rw [forward_of_unknown htopic] at h
      cases h
  | some topic =>
      by_cases hmetrics : topic = "broker/metrics"
      · rw [hmetrics] at htopic
        rw [forward_of_metrics htopic, metricsEvent] at h
        split at h
        · cases h
          rw [Event.Honest, lookup_setItem_ne (by decide),
            lookup_setItem_self]
        · cases h
      · rw [forward_of_device _ frame htopic hmetrics] at h
        cases h
        trivial

theorem lookup_jsPairs (data : List (List Char × Json)) (key : List Char) :
    (jsPairs data).lookup key = (data.lookup key).map jsValue := by
  induction data with
  | nil => rfl
  | cons e data ih =>
      obtain ⟨k, v⟩ := e
      rw [jsPairs, List.lookup_cons, List.lookup_cons]
      split
      · rfl
      · exact ih

theorem item_jsPairs (data : List (List Char × Json)) (key : String) :
    item (jsPairs data) key = (item data key).map jsValue :=
  lookup_jsPairs data key.toList

theorem reported_metrics {data : List (List Char × Json)}
    (h : (Event.metrics data).Honest) {r : Report}
    (hr : (Event.metrics data).reported = some r) :
    r = .metrics (orElse ((item data "throughput").map jsValue) (.int 0))
      ((item data "current_log_offset").map jsValue) := by
  have htype : item (jsPairs data) "type" = some (.str "metrics".toList) := by
    rw [item_jsPairs]
    exact congrArg (Option.map jsValue) h
  rw [← item_jsPairs, ← item_jsPairs]
  rw [Event.reported] at hr
  split at hr
  · rw [reportOf, htype] at hr
    exact (Option.some.inj hr).symm
  · cases hr

/-! ## Steps of a page -/

variable {coerced : Json → Json → Bool} {p p' : Page} {evs : List PageEvent}

theorem source_add (p : Page) (report : Report) :
    (p.add coerced report).connection.source = p.connection.source := by
  cases report with
  | status connected =>
      change (p.connection.status connected).source = _
      rw [Connection.status]
      split
      · rfl
      · rfl
  | metrics throughput offset =>
      exact congrArg Connection.source (addMetrics_frame p throughput offset).1
  | entry e => exact congrArg Connection.source (addEntry_frame p e).1
  | done replayed => rfl

theorem source_foldl (reports : List Report) (p : Page) :
    (reports.foldl (fun p report => p.add coerced report) p).connection.source =
      p.connection.source := by
  induction reports generalizing p with
  | nil => rfl
  | cons report reports ih =>
      rw [List.foldl_cons, ih, source_add]

/-- A part of the stream is read where the last one ended. -/
theorem receive_eq_some {text : List Char}
    (h : pageStep toFloat coerced p (.receive text) = some (p', evs)) :
    ∃ stream, p.connection.source = some (.opened stream) ∧
      p'.connection.source = some (.opened (stream.read text).1) ∧
      reportsIn evs = (stream.read text).2.filterMap (reportIn toFloat) := by
  rw [pageStep] at h
  split at h
  next stream hopen =>
    cases h
    exact ⟨stream, hopen, source_foldl _ _, reportsIn_received text _ _⟩
  · cases h

theorem onopen_eq_some
    (h : pageStep toFloat coerced p .onopen = some (p', evs)) :
    p.connection.source = some .connecting ∧
      p'.connection.source = some (.opened .init) ∧ reportsIn evs = [] := by
  obtain ⟨c, hc, heq⟩ := Option.map_eq_some_iff.mp h
  cases heq
  cases Connection.onopen_move hc with
  | opened hsource => exact ⟨hsource, rfl, rfl⟩

/-- Nothing else is read. -/
theorem reportsIn_of_step {a : PageAction}
    (h : pageStep toFloat coerced p a = some (p', evs))
    (hreceive : ∀ text, a ≠ .receive text) : reportsIn evs = [] := by
  cases a with
  | receive text => exact absurd rfl (hreceive text)
  | visibility visible =>
      cases h
      rfl
  | _ =>
      obtain ⟨c, -, heq⟩ := Option.map_eq_some_iff.mp h
      cases heq
      rfl

end SentinelHub.Dashboard
