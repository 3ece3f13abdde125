import SentinelHub.Dashboard.EventText
import SentinelHub.Dashboard.Inspector
import SentinelHub.Support.Runs

/-!
# The page

`app.js` as a state machine: what the messages of the event stream do to the
page, its connection with the timer that opens it again, the particles, and the
replay button.  What is drawn on the two canvases is left out, and so are the
clock and the slider.
-/

namespace SentinelHub.Dashboard

open Support EventStream

/-! ## Values of JavaScript -/

def truthy : Json → Bool
  | .null => false
  | .bool value => value
  | .int n => n ≠ 0
  | .float (.finite x) => x ≠ 0
  | .float (.infinity _) => true
  | .float .nan => false
  | .str text => text ≠ []
  | .list _ => true
  | .dict _ => true

/-- `value || other`, where `none` is `undefined`. -/
def orElse (value : Option Json) (other : Json) : Json :=
  match value with
  | some value => if truthy value then value else other
  | none => other

def number : Json → Option ℚ
  | .int n => some n
  | .float (.finite x) => some x
  | _ => none

mutual

/-- The value can be made a text, and also a primitive value: a dictionary with
an own `toString`, which is no function, makes this throw. -/
def textual : Json → Bool
  | .dict items => items.all fun item => item.1 ≠ "toString".toList
  | .list items => textualItems items
  | _ => true

def textualItems : List Json → Bool
  | [] => true
  | item :: items => textual item && textualItems items

end

section Greater

-- How other values than two finite numbers compare; `false` where this throws.
variable (coerced : Json → Json → Bool)

/-- `a > b`. -/
def greater (a b : Json) : Bool :=
  match number a, number b with
  | some x, some y => y < x
  | _, _ => coerced a b

end Greater

/-! ## Messages -/

/-- What a `qos` or `time_travel_log` message says. -/
structure Entry where
  topic : String
  priority : ℕ
  payload : List Char
  hex : List Char
  history : Bool
  deriving DecidableEq, Repr

/-- What a message says. -/
inductive Report
  | status (connected : Bool)
  | metrics (throughput : Json) (offset : Option Json)
  | entry (e : Entry)
  | done (replayed : Json)
  deriving Repr

/-- `data.key`. -/
def item (data : List (List Char × Json)) (key : String) : Option Json :=
  data.lookup key.toList

/-- The fields of an entry.  The server sends none of other types; the code
would convert them in part, and throw somewhere on the way. -/
def entryOf (data : List (List Char × Json)) : Option Entry :=
  match orElse (item data "topic") (.str "unknown".toList),
    orElse (item data "priority") (.int 0),
    orElse (item data "payload") (.str []), orElse (item data "hex") (.str [])
    with
  | .str topic, .int (.ofNat priority), .str payload, .str hex =>
      if textual (orElse (item data "timestamp") (.int 0)) then
        some
          { topic := String.ofList topic
            priority
            payload
            hex
            history := match item data "history" with
              | some (.bool value) => value
              | _ => false }
      else none
  | _, _, _, _ => none

/-- The branches of `onmessage`. -/
def reportOf : Json → Option Report
  | .dict data =>
      match item data "type" with
      | some (.str type) =>
          if type = "connection_status".toList then
            some (.status ((item data "connected").any truthy))
          else if type = "metrics".toList then
            some (.metrics (orElse (item data "throughput") (.int 0))
              (item data "current_log_offset"))
          else if type = "qos".toList ∨ type = "time_travel_log".toList then
            (entryOf data).map .entry
          else if type = "time_travel_done".toList then
            some (.done (orElse (item data "replayed") (.int 0)))
          else none
      | _ => none
  | _ => none

/-! ## Particles -/

/-- The particles on their way to the broker and from it, and the timers that
make one of the latter. -/
structure Particles where
  toBroker : ℕ
  fanTimers : ℕ
  fromBroker : ℕ
  isTabVisible : Bool
  deriving DecidableEq, Repr

def maxParticles : ℕ := 300

namespace Particles

def init : Particles where
  toBroker := 0
  fanTimers := 0
  fromBroker := 0
  isTabVisible := true

variable (p : Particles)

/-- `!isTabVisible || particles.length > MAX_PARTICLES`. -/
def full : Bool :=
  !p.isTabVisible || maxParticles < p.toBroker + p.fromBroker

/-- `spawnMessage`. -/
def spawn : Particles :=
  if p.full then p else { p with toBroker := p.toBroker + 1 }

def subs : List String :=
  ["smartWatch", "phone", "dashboard", "dbLogger", "alertSys"]

/-- A particle reaches the broker, while the tab is drawn. -/
def arrive : Option Particles :=
  if p.isTabVisible ∧ 0 < p.toBroker then
    some
      { p with
        toBroker := p.toBroker - 1
        fanTimers := p.fanTimers + subs.length }
  else none

/-- A timer for a subscriber. -/
def fan : Option Particles :=
  if p.fanTimers = 0 then none
  else if p.full then some { p with fanTimers := p.fanTimers - 1 }
  else
    some
      { p with
        fanTimers := p.fanTimers - 1
        fromBroker := p.fromBroker + 1 }

/-- A particle reaches a subscriber. -/
def deliver : Option Particles :=
  if p.isTabVisible ∧ 0 < p.fromBroker then
    some { p with fromBroker := p.fromBroker - 1 }
  else none

/-- `visibilitychange`. -/
def visibility (visible : Bool) : Particles :=
  { p with isTabVisible := visible }

end Particles

/-! ## The connection -/

/-- The current `EventSource`. -/
inductive Source
  | connecting
  | opened (stream : EventStream.State)
  deriving DecidableEq, Repr

/-- The current source, unless it has been closed; the pending timers of
`connectSSE`; and `sseRetryDelay`. -/
structure Connection where
  source : Option Source
  retries : ℕ
  retryDelay : ℚ
  statusDot : String
  statusText : String
  deriving DecidableEq, Repr

namespace Connection

/-- Behind the `connectSSE` of `init`. -/
def init : Connection where
  source := some .connecting
  retries := 0
  retryDelay := 1000
  statusDot := "status-dot"
  statusText := "Connecting…"

variable (c : Connection)

/-- `src.onopen`. -/
def onopen : Option Connection :=
  match c.source with
  | some .connecting =>
      some
        { c with
          source := some (.opened .init)
          retryDelay := 1000
          statusDot := "status-dot connected"
          statusText := "Dashboard Server Connected" }
  | _ => none

/-- `src.onerror`, with the delay of its timer. -/
def onerror : Option (Connection × ℚ) :=
  match c.source with
  | none => none
  | some _ =>
      some
        ({ c with
          source := none
          retries := c.retries + 1
          retryDelay := min (c.retryDelay * (3 / 2)) 10000
          statusDot := "status-dot disconnected"
          statusText := "Disconnected — Retrying…" }, c.retryDelay)

/-- `connectSSE`, when its timer has run off. -/
def connectSSE : Option Connection :=
  if c.retries = 0 then none
  else some { c with source := some .connecting, retries := c.retries - 1 }

/-- A `connection_status` message. -/
def status (connected : Bool) : Connection :=
  if connected then
    { c with
      statusDot := "status-dot connected"
      statusText := "Broker Connected" }
  else
    { c with
      statusDot := "status-dot disconnected"
      statusText := "Broker Disconnected" }

end Connection

/-! ## The replay button -/

inductive ReplayText
  | replayHistory
  | replaying
  | replayed (count : Json)
  deriving Repr

/-- The button, the requests on their way, and the timers that reset its text
and that enable it again. -/
structure ReplayButton where
  text : ReplayText
  disabled : Bool
  fetches : ℕ
  textTimers : ℕ
  resetTimers : ℕ
  deriving Repr

namespace ReplayButton

def init : ReplayButton where
  text := .replayHistory
  disabled := false
  fetches := 0
  textTimers := 0
  resetTimers := 0

variable (b : ReplayButton)

/-- A disabled button is not clicked. -/
def click : Option ReplayButton :=
  if b.disabled then none
  else
    some
      { b with text := .replaying, disabled := true, fetches := b.fetches + 1 }

/-- `fetch` returns or throws. -/
def fetched : Option ReplayButton :=
  if b.fetches = 0 then none
  else
    some
      { b with fetches := b.fetches - 1, resetTimers := b.resetTimers + 1 }

/-- The timer of 15 seconds. -/
def reset : Option ReplayButton :=
  if b.resetTimers = 0 then none
  else
    some
      { b with
        resetTimers := b.resetTimers - 1
        disabled := false
        text := match b.text with
          | .replaying => .replayHistory
          | text => text }

/-- A `time_travel_done` message. -/
def done (replayed : Json) : ReplayButton :=
  if textual replayed then
    { b with text := .replayed replayed, textTimers := b.textTimers + 1 }
  else b

/-- The timer of 2 seconds. -/
def resetText : Option ReplayButton :=
  if b.textTimers = 0 then none
  else
    some { b with text := .replayHistory, textTimers := b.textTimers - 1 }

end ReplayButton

/-! ## The lists -/

/-- `priority >= 200 ? 'critical' : …`. -/
def priLabel (priority : ℕ) : String :=
  if 200 ≤ priority then "critical"
  else if 128 ≤ priority then "high"
  else if 64 ≤ priority then "medium"
  else "low"

structure QueueItem where
  topic : String
  priority : ℕ
  priLabel : String
  payload : List Char
  deriving DecidableEq, Repr

/-- `text.replace(pattern, '')`. -/
def removeFirst (pattern : List Char) : List Char → List Char
  | [] => []
  | c :: text =>
      if pattern.isPrefixOf (c :: text) then (c :: text).drop pattern.length
      else c :: removeFirst pattern text

/-- A line of the message feed, without the time. -/
structure FeedItem where
  priClass : String
  history : Bool
  priority : ℕ
  topicShort : List Char
  payload : List UInt16
  deriving DecidableEq, Repr

namespace Entry

variable (e : Entry)

def queueItem : QueueItem where
  topic := e.topic
  priority := e.priority
  priLabel := Dashboard.priLabel e.priority
  payload := e.payload

def feedItem : FeedItem where
  priClass := "pri-" ++ Dashboard.priLabel e.priority
  history := e.history
  priority := e.priority
  topicShort :=
    removeFirst "broker/".toList (removeFirst "home/".toList e.topic.toList)
  payload := escapeHtml (Utf8.utf16 e.payload)

end Entry

inductive Device
  | fire
  | temperature
  | battery
  | door
  | light
  deriving DecidableEq, Repr

/-- The counter of a topic. -/
def deviceOf (topic : String) : Option Device :=
  if "fire".toList <:+: topic.toList then some .fire
  else if "temperature".toList <:+: topic.toList then some .temperature
  else if "battery".toList <:+: topic.toList then some .battery
  else if "door".toList <:+: topic.toList then some .door
  else if "light".toList <:+: topic.toList then some .light
  else none

/-! ## The page -/

structure Page where
  connection : Connection
  particles : Particles
  button : ReplayButton
  totalMessages : ℕ
  fireMessages : ℕ
  tempMessages : ℕ
  batteryMessages : ℕ
  doorMessages : ℕ
  lightMessages : ℕ
  currentThroughput : Json
  throughputHistory : List Json
  maxLogOffset : Json
  queueItems : List QueueItem
  queueUpdateTimer : Bool
  queueFeed : List QueueItem
  messageFeed : List FeedItem
  inspector : Inspector
  deriving Repr

def maxFeedItems : ℕ := 100

namespace Page

def init : Page where
  connection := .init
  particles := .init
  button := .init
  totalMessages := 0
  fireMessages := 0
  tempMessages := 0
  batteryMessages := 0
  doorMessages := 0
  lightMessages := 0
  currentThroughput := .int 0
  throughputHistory := List.replicate 60 (.int 0)
  maxLogOffset := .int 0
  queueItems := []
  queueUpdateTimer := false
  queueFeed := []
  messageFeed := []
  inspector := .init

variable (p : Page)

/-- `addToQueue`. -/
def addToQueue (e : Entry) : Page :=
  let items := e.queueItem :: p.queueItems
  { p with
    queueItems := if 60 < items.length then items.dropLast else items
    queueUpdateTimer := true }

/-- The callback of `queueUpdateTimer`. -/
def updateQueue : Option Page :=
  if p.queueUpdateTimer then
    some
      { p with
        queueUpdateTimer := false
        queueFeed := p.queueItems.mergeSort fun a b => b.priority ≤ a.priority }
  else none

/-- The messages about a device. -/
def messages : Device → ℕ
  | .fire => p.fireMessages
  | .temperature => p.tempMessages
  | .battery => p.batteryMessages
  | .door => p.doorMessages
  | .light => p.lightMessages

def countDevice : Option Device → Page
  | some .fire => { p with fireMessages := p.fireMessages + 1 }
  | some .temperature => { p with tempMessages := p.tempMessages + 1 }
  | some .battery => { p with batteryMessages := p.batteryMessages + 1 }
  | some .door => { p with doorMessages := p.doorMessages + 1 }
  | some .light => { p with lightMessages := p.lightMessages + 1 }
  | none => p

/-- `addFeedMessage`. -/
def addFeedMessage (e : Entry) : Page :=
  let p := { p with
    messageFeed := (e.feedItem :: p.messageFeed).take maxFeedItems }
  if e.history then p
  else
    { p with totalMessages := p.totalMessages + 1 }.countDevice
      (deviceOf e.topic)

def addEntry (e : Entry) : Page :=
  let p :=
    if e.history then p
    else { p with particles := p.particles.spawn }.addToQueue e
  let p := p.addFeedMessage e
  if e.hex = [] ∨ e.history then p
  else
    { p with
      inspector := updateInspector p.inspector e.hex e.topic e.priority
        (Utf8.utf16 e.payload) }

section Messages

variable (toFloat : List Char → PyFloat) (coerced : Json → Json → Bool)

/-- A `metrics` message.  A throughput that is no text ends it early. -/
def addMetrics (throughput : Json) (offset : Option Json) : Page :=
  let p := { p with currentThroughput := throughput }
  if textual throughput then
    { p with
      throughputHistory := (p.throughputHistory ++ [throughput]).tail
      maxLogOffset := match offset with
        | some offset =>
            if greater coerced offset p.maxLogOffset then offset
            else p.maxLogOffset
        | none => p.maxLogOffset }
  else p

def add : Report → Page
  | .status connected => { p with connection := p.connection.status connected }
  | .metrics throughput offset => p.addMetrics coerced throughput offset
  | .entry e => p.addEntry e
  | .done replayed => { p with button := p.button.done replayed }

end Messages

end Page

/-- What a message says, if it can be read. -/
def reportIn (toFloat : List Char → PyFloat) (message : List Char) :
    Option Report :=
  (jsonParse toFloat message).bind reportOf

/-! ## The system -/

inductive PageAction
  | onopen
  | onerror
  | connectSSE
  | receive (text : List Char)
  | updateQueue
  | arrive
  | fan
  | deliver
  | visibility (visible : Bool)
  | click
  | fetched
  | reset
  | resetText
  deriving DecidableEq, Repr

/-- What can be noted about a page: its connections, what has come over them,
the messages in it, and what they say. -/
inductive PageEvent
  | opened
  | failed (delay : ℚ)
  | connecting
  | received (text : List Char)
  | message (text : List Char)
  | report (r : Report)
  deriving Repr

/-- One step of a page. -/
def pageStep (toFloat : List Char → PyFloat) (coerced : Json → Json → Bool)
    (p : Page) : PageAction → Option (Page × List PageEvent)
  | .onopen =>
      p.connection.onopen.map fun connection =>
        ({ p with connection }, [.opened])
  | .onerror =>
      p.connection.onerror.map fun (connection, delay) =>
        ({ p with connection }, [.failed delay])
  | .connectSSE =>
      p.connection.connectSSE.map fun connection =>
        ({ p with connection }, [.connecting])
  | .receive text =>
      match p.connection.source with
      | some (.opened stream) =>
          let (stream, messages) := stream.read text
          let reports := messages.filterMap (reportIn toFloat)
          let p := { p with
            connection := { p.connection with
              source := some (.opened stream) } }
          some (reports.foldl (fun p r => p.add coerced r) p,
            .received text :: messages.map .message ++ reports.map .report)
      | _ => none
  | .updateQueue => p.updateQueue.map fun p => (p, [])
  | .arrive =>
      p.particles.arrive.map fun particles => ({ p with particles }, [])
  | .fan => p.particles.fan.map fun particles => ({ p with particles }, [])
  | .deliver =>
      p.particles.deliver.map fun particles => ({ p with particles }, [])
  | .visibility visible =>
      some ({ p with particles := p.particles.visibility visible }, [])
  | .click => p.button.click.map fun button => ({ p with button }, [])
  | .fetched => p.button.fetched.map fun button => ({ p with button }, [])
  | .reset => p.button.reset.map fun button => ({ p with button }, [])
  | .resetText => p.button.resetText.map fun button => ({ p with button }, [])

/-- A page in a browser. -/
def page (toFloat : List Char → PyFloat) (coerced : Json → Json → Bool) :
    System Page PageAction PageEvent where
  step := pageStep toFloat coerced

end SentinelHub.Dashboard
