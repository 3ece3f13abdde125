import SentinelHub.Broker.Outbound
import SentinelHub.Broker.PublisherOrder
import SentinelHub.Dashboard.Proxy
import SentinelHub.Dashboard.TimeTravel

/-!
# The smart home

The broker and the dashboard as one system.  The dashboard opens connections to
the broker: one for `proxy_broker_connection`, again and again, and one for
every `trigger_time_travel`.  Each is a pair of byte streams, and what one side
writes the other reads at any later time; a connection can also end at any
time.  Everything else that connects to the broker, such as the command-line
client, the simulators and `simulate_device`, is free to send what it likes.
-/

namespace SentinelHub.Home

open Support Broker Dashboard

/-! ## Connections -/

/-- A connection that the dashboard has opened: the number under which the
broker has accepted it, if it has, and the bytes on their way to the broker and
back. -/
structure Link where
  client : Option ClientId
  requests : Bytes
  stream : Bytes
  deriving DecidableEq, Repr

namespace Link

/-- The requests are written behind `open_connection`. -/
def dial (requests : Bytes) : Link where
  client := none
  requests
  stream := []

/-- What the broker writes to the client is on its way. -/
def gain (link : Link) (evs : List BrokerEvent) : Link :=
  match link.client with
  | none => link
  | some c => { link with stream := link.stream ++ streamTo c evs }

end Link

/-- `for tid in SMART_HOME_TOPICS`: the frames that the proxy writes. -/
def proxyRequest : Except PyError (List Bytes) :=
  smartHomeTopics.mapM fun topic => encode cmdSubscribe (topicHash topic) 0 []

/-- The proxy has a connection. -/
def linked (p : Proxy) : Bool :=
  p.phase = .subscribing || p.phase = .reading

/-! ## Replays -/

/-- Where `trigger_time_travel` stands: at its connection, at the drain behind
its request, at the `while`, at a frame, or in its sleep. -/
inductive ReplayPhase
  | connecting
  | draining
  | looping
  | reading
  | pausing
  | finished
  deriving DecidableEq, Repr

/-- A task of `trigger_time_travel`. -/
structure ReplayTask where
  offset : ℤ
  phase : ReplayPhase
  replayed : ℕ
  link : Option Link
  deriving DecidableEq, Repr

/-- What happens to a task next.  `stop` is every way in which it leaves the
loop from within: the end of the stream, the timeout, or an exception. -/
inductive ReplayAction
  | connect (ok : Bool)
  | drained (ok : Bool)
  | test
  | read
  | stop
  | wake
  deriving DecidableEq, Repr

namespace ReplayTask

/-- A negative offset is answered at once. -/
def start (offset : ℤ) : ReplayTask where
  offset
  phase := if offset < 0 then .finished else .connecting
  replayed := 0
  link := none

/-- One step of a task: the frame it reads and the event it broadcasts, if
any. -/
def step (task : ReplayTask) :
    ReplayAction → Option (ReplayTask × Option BrokerFrame × Option Event)
  | .connect ok =>
      if task.phase = .connecting then
        match ok, replayRequest task.offset with
        | true, .ok frame =>
            some ({ task with phase := .draining, link := some (.dial frame) },
              none, none)
        | _, _ => some ({ task with phase := .finished }, none, none)
      else none
  | .drained ok =>
      if task.phase = .draining then
        some ({ task with phase := if ok then .looping else .finished },
          none, none)
      else none
  | .test =>
      if task.phase = .looping then
        if task.replayed < maxReplay then
          some ({ task with phase := .reading }, none, none)
        else
          some ({ task with phase := .finished }, none,
            some (.timeTravelDone task.replayed))
      else none
  | .read =>
      match task.phase, task.link with
      | .reading, some link =>
          match readOne link.stream with
          | .ok (some (frame, rest)) =>
              let link := some { link with stream := rest }
              match replayEvent frame with
              | none =>
                  some ({ task with phase := .looping, link }, some frame, none)
              | some event =>
                  let replayed := task.replayed + 1
                  let phase := if replayed % 10 = 0 then .pausing else .looping
                  some ({ task with phase, replayed, link }, some frame,
                    some event)
          | _ => none
      | _, _ => none
  | .stop =>
      if task.phase = .reading ∨ task.phase = .pausing then
        some ({ task with phase := .finished }, none,
          some (.timeTravelDone task.replayed))
      else none
  | .wake =>
      if task.phase = .pausing then
        some ({ task with phase := .looping }, none, none)
      else none

end ReplayTask

/-! ## The system -/

structure SmartHome where
  broker : BrokerServer
  dashboard : Hub
  link : Option Link
  replays : List ReplayTask
  deriving Repr

/-- Whose connection it is. -/
inductive LinkId
  | proxy
  | replay (task : ℕ)
  deriving DecidableEq, Repr

inductive HomeAction
  | broker (a : BrokerAction)
  | dashboard (a : HubAction)
  | dial
  | read
  | accept (id : LinkId)
  | deliver (id : LinkId)
  | travel (offset : ℤ)
  | replay (task : ℕ) (a : ReplayAction)
  deriving Repr

/-- What can be noted about the system: beside the events of the broker and of
the browsers, the frames that the proxy and the replays read, and the events
that the replays broadcast. -/
inductive HomeEvent
  | broker (event : Observation)
  | dashboard (event : SseEvent Event)
  | read (id : LinkId) (frame : BrokerFrame)
  | replayed (task : ℕ) (event : Event)
  deriving Repr

namespace SmartHome

def init (log : Option Bytes) : SmartHome where
  broker := .init log
  dashboard := .init
  link := none
  replays := []

variable (s : SmartHome)

def linkOf : LinkId → Option Link
  | .proxy => s.link
  | .replay i => s.replays[i]?.bind (·.link)

def setLink (link : Link) : LinkId → SmartHome
  | .proxy => { s with link := some link }
  | .replay i =>
      { s with
        replays := s.replays.modify i fun task =>
          { task with link := some link } }

/-- The clients of the broker that belong to the dashboard. -/
def clients : List ClientId :=
  (s.link.toList ++ s.replays.filterMap (·.link)).filterMap (·.client)

/-- The broker reads from a client of the dashboard. -/
def reserved : BrokerAction → Bool
  | .receive c _ => c ∈ s.clients
  | _ => false

/-- The broker takes a step, and what it writes to the dashboard is on its
way. -/
def afterBroker (broker : BrokerServer) (obs : List Observation) :
    SmartHome :=
  { s with
    broker
    link := s.link.map (·.gain (brokerPart obs))
    replays := s.replays.map fun task =>
      { task with link := task.link.map (·.gain (brokerPart obs)) } }

def withBroker (r : Option (BrokerServer × List Observation)) :
    Option (SmartHome × List HomeEvent) :=
  r.map fun (broker, obs) => (s.afterBroker broker obs, obs.map .broker)

/-- The dashboard takes a step, and its proxy may give up its connection. -/
def afterDashboard (dashboard : Hub) : SmartHome :=
  { s with
    dashboard
    link := if linked dashboard.proxy then s.link else none }

def withDashboard (notes : List HomeEvent)
    (r : Option (Hub × List (SseEvent Event))) :
    Option (SmartHome × List HomeEvent) :=
  r.map fun (dashboard, evs) =>
    (s.afterDashboard dashboard, notes ++ evs.map .dashboard)

/-- The proxy connects, and writes its requests if they could be built. -/
def dial (loads : List Char → Option Json) :
    Except PyError (List Bytes) → Option (SmartHome × List HomeEvent)
  | .error _ => none
  | .ok frames =>
      (s.setLink (.dial frames.flatten) .proxy).withDashboard []
        (hubStep loads s.dashboard (.proxy (.connect true)))

/-- A replay broadcasts an event, or nothing. -/
def broadcast (loads : List Char → Option Json) (notes : List HomeEvent)
    (i : ℕ) : Option Event → Option (SmartHome × List HomeEvent)
  | none => some (s, notes)
  | some event =>
      s.withDashboard (notes ++ [.replayed i event])
        (hubStep loads s.dashboard (.replay event))

end SmartHome

/-- The steps of the dashboard that need its connections. -/
def needsLink : HubAction → Bool
  | .proxy (.connect ok) => ok
  | .proxy (.read (.frame _)) => true
  | .replay _ => true
  | _ => false

/-- One step of the system. -/
def homeStep (loads : List Char → Option Json) (s : SmartHome) :
    HomeAction → Option (SmartHome × List HomeEvent)
  | .broker a =>
      if s.reserved a then none else s.withBroker (observed.step s.broker a)
  | .dashboard a =>
      if needsLink a then none
      else s.withDashboard [] (hubStep loads s.dashboard a)
  | .dial => s.dial loads proxyRequest
  | .read =>
      match s.link with
      | none => none
      | some link =>
          match readOne link.stream with
          | .ok (some (frame, stream)) =>
              (s.setLink { link with stream } .proxy).withDashboard
                [.read .proxy frame]
                (hubStep loads s.dashboard (.proxy (.read (.frame frame))))
          | _ => none
  | .accept id =>
      match s.linkOf id with
      | none => none
      | some link =>
          if link.client = none then
            let client := some s.broker.handlers.length
            (s.setLink { link with client } id).withBroker
              (observed.step s.broker .connect)
          else none
  | .deliver id =>
      match s.linkOf id with
      | none => none
      | some link =>
          match link.client, readMessage link.requests with
          | some c, .ok (msg, requests) =>
              (s.setLink { link with requests } id).withBroker
                (observed.step s.broker (.receive c msg))
          | _, _ => none
  | .travel offset =>
      ({ s with replays := s.replays ++ [.start offset] } : SmartHome).broadcast
        loads [] s.replays.length
        (if offset < 0 then some (.timeTravelDone 0) else none)
  | .replay i a =>
      match s.replays[i]? with
      | none => none
      | some task =>
          match task.step a with
          | none => none
          | some (task, frame, event) =>
              ({ s with replays := s.replays.set i task } : SmartHome).broadcast
                loads (frame.toList.map (.read (.replay i))) i event

/-- The broker, the dashboard and everything that is connected to them. -/
def smartHome (loads : List Char → Option Json) :
    System SmartHome HomeAction HomeEvent where
  step := homeStep loads

/-! ## What a step can be -/

/-- The steps of the system. -/
inductive HomeStep (loads : List Char → Option Json) (s : SmartHome) :
    SmartHome → List HomeEvent → Prop
  | broker (a : BrokerAction) (broker : BrokerServer) (obs : List Observation)
      (hfree : s.reserved a = false)
      (hstep : observed.step s.broker a = some (broker, obs)) :
      HomeStep loads s (s.afterBroker broker obs) (obs.map .broker)
  | accept (id : LinkId) (link : Link) (broker : BrokerServer)
      (obs : List Observation) (hlink : s.linkOf id = some link)
      (hnew : link.client = none)
      (hstep : observed.step s.broker .connect = some (broker, obs)) :
      HomeStep loads s
        ((s.setLink { link with client := some s.broker.handlers.length }
          id).afterBroker broker obs) (obs.map .broker)
  | deliver (id : LinkId) (link : Link) (c : ClientId) (msg : Message)
      (requests : Bytes) (broker : BrokerServer) (obs : List Observation)
      (hlink : s.linkOf id = some link) (hclient : link.client = some c)
      (hread : readMessage link.requests = .ok (msg, requests))
      (hstep : observed.step s.broker (.receive c msg) = some (broker, obs)) :
      HomeStep loads s
        ((s.setLink { link with requests } id).afterBroker broker obs)
        (obs.map .broker)
  | dashboard (a : HubAction) (dashboard : Hub) (evs : List (SseEvent Event))
      (hfree : needsLink a = false)
      (hstep : hubStep loads s.dashboard a = some (dashboard, evs)) :
      HomeStep loads s (s.afterDashboard dashboard) (evs.map .dashboard)
  | dial (frames : List Bytes) (dashboard : Hub) (evs : List (SseEvent Event))
      (hframes : proxyRequest = .ok frames)
      (hstep : hubStep loads s.dashboard (.proxy (.connect true)) =
        some (dashboard, evs)) :
      HomeStep loads s
        ((s.setLink (.dial frames.flatten) .proxy).afterDashboard dashboard)
        (evs.map .dashboard)
  | read (link : Link) (frame : BrokerFrame) (stream : Bytes) (dashboard : Hub)
      (evs : List (SseEvent Event)) (hlink : s.link = some link)
      (hread : readOne link.stream = .ok (some (frame, stream)))
      (hstep : hubStep loads s.dashboard (.proxy (.read (.frame frame))) =
        some (dashboard, evs)) :
      HomeStep loads s
        ((s.setLink { link with stream } .proxy).afterDashboard dashboard)
        (.read .proxy frame :: evs.map .dashboard)
  | travel (offset : ℤ) (t : SmartHome) (evs : List HomeEvent)
      (hbroadcast : ({ s with replays := s.replays ++ [.start offset] } :
        SmartHome).broadcast loads [] s.replays.length
          (if offset < 0 then some (.timeTravelDone 0) else none) =
            some (t, evs)) :
      HomeStep loads s t evs
  | replay (i : ℕ) (a : ReplayAction) (task task' : ReplayTask)
      (frame : Option BrokerFrame) (event : Option Event) (t : SmartHome)
      (evs : List HomeEvent) (htask : s.replays[i]? = some task)
      (hstep : task.step a = some (task', frame, event))
      (hbroadcast : ({ s with replays := s.replays.set i task' } :
        SmartHome).broadcast loads (frame.toList.map (.read (.replay i))) i
          event = some (t, evs)) :
      HomeStep loads s t evs

variable {loads : List Char → Option Json} {s s' : SmartHome} {a : HomeAction}
  {evs : List HomeEvent}

theorem SmartHome.withBroker_eq_some
    {r : Option (BrokerServer × List Observation)}
    (h : s.withBroker r = some (s', evs)) :
    ∃ broker obs, r = some (broker, obs) ∧ s' = s.afterBroker broker obs ∧
      evs = obs.map .broker := by
  obtain ⟨⟨broker, obs⟩, hr, heq⟩ := Option.map_eq_some_iff.mp h
  cases heq
  exact ⟨broker, obs, hr, rfl, rfl⟩

theorem SmartHome.withDashboard_eq_some {notes : List HomeEvent}
    {r : Option (Hub × List (SseEvent Event))}
    (h : s.withDashboard notes r = some (s', evs)) :
    ∃ dashboard evs', r = some (dashboard, evs') ∧
      s' = s.afterDashboard dashboard ∧
        evs = notes ++ evs'.map .dashboard := by
  obtain ⟨⟨dashboard, evs'⟩, hr, heq⟩ := Option.map_eq_some_iff.mp h
  cases heq
  exact ⟨dashboard, evs', hr, rfl, rfl⟩

theorem homeStep_of_eq (h : homeStep loads s a = some (s', evs)) :
    HomeStep loads s s' evs := by
  cases a with
  | broker a =>
      rw [homeStep] at h
      split at h
      · cases h
      next hfree =>
        obtain ⟨broker, obs, hstep, rfl, rfl⟩ := SmartHome.withBroker_eq_some h
        exact .broker a broker obs (Bool.eq_false_of_not_eq_true hfree) hstep
  | dashboard a =>
      rw [homeStep] at h
      split at h
      · cases h
      next hfree =>
        obtain ⟨dashboard, evs', hstep, rfl, rfl⟩ :=
          SmartHome.withDashboard_eq_some h
        exact .dashboard a dashboard evs' (Bool.eq_false_of_not_eq_true hfree)
          hstep
  | dial =>
      rw [homeStep, SmartHome.dial.eq_def] at h
      split at h
      · cases h
      next frames hframes =>
        obtain ⟨dashboard, evs', hstep, rfl, rfl⟩ :=
          SmartHome.withDashboard_eq_some h
        exact .dial frames dashboard evs' hframes hstep
  | read =>
      rw [homeStep] at h
      split at h
      · cases h
      next link hlink =>
        split at h
        next frame stream hread =>
          obtain ⟨dashboard, evs', hstep, rfl, rfl⟩ :=
            SmartHome.withDashboard_eq_some h
          exact .read link frame stream dashboard evs' hlink hread hstep
        · cases h
  | accept id =>
      rw [homeStep] at h
      split at h
      · cases h
      next link hlink =>
        split at h
        next hnew =>
          obtain ⟨broker, obs, hstep, rfl, rfl⟩ :=
            SmartHome.withBroker_eq_some h
          exact .accept id link broker obs hlink hnew hstep
        · cases h
  | deliver id =>
      rw [homeStep] at h
      split at h
      · cases h
      next link hlink =>
        split at h
        next c msg requests hclient hread =>
          obtain ⟨broker, obs, hstep, rfl, rfl⟩ :=
            SmartHome.withBroker_eq_some h
          exact .deliver id link c msg requests broker obs hlink hclient hread
            hstep
        · cases h
  | travel offset => exact .travel offset s' evs h
  | replay i a =>
      rw [homeStep] at h
      split at h
      · cases h
      next task htask =>
        split at h
        · cases h
        next task' frame event hstep =>
          exact .replay i a task task' frame event s' evs htask hstep h

end SentinelHub.Home
