import SentinelHub.Home.System

/-!
# The connections of the dashboard

A run of the smart home is at the same time a run of the broker and one of the
dashboard, so that everything known of each of them holds in it.  What it adds
are the connections between the two.  This module says what a step can do to
one connection, and that every client number belongs to at most one of them.
-/

namespace SentinelHub.Home

open Support Broker Dashboard

/-! ## The two parts of a run -/

/-- What can be noted about the broker and its clients. -/
def observationsIn (tr : List HomeEvent) : List Observation :=
  tr.filterMap fun
    | .broker event => some event
    | _ => none

/-- The events of the broker. -/
def brokerIn (tr : List HomeEvent) : List BrokerEvent :=
  brokerPart (observationsIn tr)

/-- The events of the browsers. -/
def dashboardIn (tr : List HomeEvent) : List (SseEvent Event) :=
  tr.filterMap fun
    | .dashboard event => some event
    | _ => none

/-- The frames that are read from a connection. -/
def readBy (id : LinkId) (tr : List HomeEvent) : List BrokerFrame :=
  tr.filterMap fun
    | .read id' frame => if id' = id then some frame else none
    | _ => none

/-- The events that a replay broadcasts. -/
def replayedBy (i : ℕ) (tr : List HomeEvent) : List Event :=
  tr.filterMap fun
    | .replayed j event => if j = i then some event else none
    | _ => none

variable {loads : List Char → Option Json} {s s' : SmartHome} {a : HomeAction}
  {tr evs : List HomeEvent} {obs : List Observation}
  {hevs : List (SseEvent Event)} {id id' : LinkId} {i : ℕ} {c : ClientId}
  {link link' : Link} {log : Option Bytes}

theorem observationsIn_append (tr tr' : List HomeEvent) :
    observationsIn (tr ++ tr') = observationsIn tr ++ observationsIn tr' :=
  List.filterMap_append

theorem brokerIn_append (tr tr' : List HomeEvent) :
    brokerIn (tr ++ tr') = brokerIn tr ++ brokerIn tr' := by
  rw [brokerIn, observationsIn_append, brokerPart_append, brokerIn, brokerIn]

theorem dashboardIn_append (tr tr' : List HomeEvent) :
    dashboardIn (tr ++ tr') = dashboardIn tr ++ dashboardIn tr' :=
  List.filterMap_append

theorem readBy_append (id : LinkId) (tr tr' : List HomeEvent) :
    readBy id (tr ++ tr') = readBy id tr ++ readBy id tr' :=
  List.filterMap_append

theorem replayedBy_append (i : ℕ) (tr tr' : List HomeEvent) :
    replayedBy i (tr ++ tr') = replayedBy i tr ++ replayedBy i tr' :=
  List.filterMap_append

@[simp] theorem observationsIn_broker (obs : List Observation) :
    observationsIn (obs.map .broker) = obs := by
  simp [observationsIn, List.filterMap_map]

@[simp] theorem brokerIn_broker (obs : List Observation) :
    brokerIn (obs.map .broker) = brokerPart obs := by
  rw [brokerIn, observationsIn_broker]

@[simp] theorem dashboardIn_broker (obs : List Observation) :
    dashboardIn (obs.map .broker) = [] := by
  simp [dashboardIn, List.filterMap_map]

@[simp] theorem readBy_broker (id : LinkId) (obs : List Observation) :
    readBy id (obs.map .broker) = [] := by
  simp [readBy, List.filterMap_map]

@[simp] theorem replayedBy_broker (i : ℕ) (obs : List Observation) :
    replayedBy i (obs.map .broker) = [] := by
  simp [replayedBy, List.filterMap_map]

@[simp] theorem observationsIn_dashboard (hevs : List (SseEvent Event)) :
    observationsIn (hevs.map .dashboard) = [] := by
  simp [observationsIn, List.filterMap_map]

@[simp] theorem dashboardIn_dashboard (hevs : List (SseEvent Event)) :
    dashboardIn (hevs.map .dashboard) = hevs := by
  simp [dashboardIn, List.filterMap_map]

@[simp] theorem readBy_dashboard (id : LinkId)
    (hevs : List (SseEvent Event)) : readBy id (hevs.map .dashboard) = [] := by
  simp [readBy, List.filterMap_map]

@[simp] theorem replayedBy_dashboard (i : ℕ) (hevs : List (SseEvent Event)) :
    replayedBy i (hevs.map .dashboard) = [] := by
  simp [replayedBy, List.filterMap_map]

/-! ## Setting a connection -/

@[simp] theorem SmartHome.broker_setLink (s : SmartHome) (link : Link)
    (id : LinkId) : (s.setLink link id).broker = s.broker := by
  cases id <;> rfl

@[simp] theorem SmartHome.dashboard_setLink (s : SmartHome) (link : Link)
    (id : LinkId) : (s.setLink link id).dashboard = s.dashboard := by
  cases id <;> rfl

theorem SmartHome.linkOf_setLink_self (hlink : s.linkOf id = some link)
    (link' : Link) : (s.setLink link' id).linkOf id = some link' := by
  cases id with
  | proxy => rfl
  | replay i =>
      obtain ⟨task, htask, -⟩ := Option.bind_eq_some_iff.mp hlink
      simp only [setLink, linkOf, List.getElem?_modify, htask, if_true,
        Option.map_eq_map, Option.map_some, Option.bind_some]

theorem SmartHome.linkOf_setLink_ne (s : SmartHome) (link : Link)
    (hne : id' ≠ id) : (s.setLink link id).linkOf id' = s.linkOf id' := by
  cases id with
  | proxy =>
      cases id' with
      | proxy => exact absurd rfl hne
      | replay j => rfl
  | replay i =>
      cases id' with
      | proxy => rfl
      | replay j =>
          have hij : i ≠ j := fun hij => hne (congrArg LinkId.replay hij.symm)
          simp only [setLink, linkOf, List.getElem?_modify, if_neg hij,
            Option.map_eq_map, Option.map_id']

/-- What the broker writes reaches every connection. -/
theorem SmartHome.linkOf_afterBroker (s : SmartHome) (broker : BrokerServer)
    (obs : List Observation) (id : LinkId) :
    (s.afterBroker broker obs).linkOf id =
      (s.linkOf id).map (·.gain (brokerPart obs)) := by
  cases id with
  | proxy => rfl
  | replay i =>
      simp only [afterBroker, linkOf, List.getElem?_map]
      cases s.replays[i]? <;> rfl

theorem SmartHome.linkOf_afterDashboard (s : SmartHome) (dashboard : Hub)
    (id : LinkId) :
    (s.afterDashboard dashboard).linkOf id = s.linkOf id ∨
      (id = .proxy ∧ (s.afterDashboard dashboard).linkOf id = none) := by
  cases id with
  | replay i => exact Or.inl rfl
  | proxy =>
      by_cases hlinked : linked dashboard.proxy = true
      · exact Or.inl (if_pos hlinked)
      · exact Or.inr ⟨rfl, if_neg hlinked⟩

theorem SmartHome.mem_clients_iff :
    c ∈ s.clients ↔
      ∃ id link, s.linkOf id = some link ∧ link.client = some c := by
  simp only [clients, List.mem_filterMap, List.mem_append, Option.mem_toList]
  constructor
  · rintro ⟨link, hlink | ⟨task, htask, hlink⟩, hc⟩
    · exact ⟨.proxy, link, hlink, hc⟩
    · obtain ⟨i, hi⟩ := List.mem_iff_getElem?.mp htask
      exact ⟨.replay i, link, Option.bind_eq_some_iff.mpr ⟨task, hi, hlink⟩,
        hc⟩
  · rintro ⟨id, link, hlink, hc⟩
    cases id with
    | proxy => exact ⟨link, Or.inl hlink, hc⟩
    | replay i =>
        obtain ⟨task, htask, hlink⟩ := Option.bind_eq_some_iff.mp hlink
        exact ⟨link, Or.inr ⟨task, List.mem_of_getElem? htask, hlink⟩, hc⟩

@[simp] theorem Link.client_gain (link : Link) (evs : List BrokerEvent) :
    (link.gain evs).client = link.client := by
  rw [gain]
  split
  next hnone => rfl
  next d hsome => rfl

@[simp] theorem Link.requests_gain (link : Link) (evs : List BrokerEvent) :
    (link.gain evs).requests = link.requests := by
  rw [gain]
  split <;> rfl

theorem Link.stream_gain (hclient : link.client = some c)
    (evs : List BrokerEvent) :
    (link.gain evs).stream = link.stream ++ streamTo c evs := by
  rw [gain, hclient]

theorem Link.gain_of_none (hclient : link.client = none)
    (evs : List BrokerEvent) : link.gain evs = link := by
  rw [gain, hclient]

/-! ## The steps of a replay -/

/-- The steps of a task of `trigger_time_travel`. -/
inductive TaskStep (task : ReplayTask) :
    ReplayTask → Option BrokerFrame → Option Event → Prop
  | dial (request : Bytes) (hphase : task.phase = .connecting)
      (hrequest : replayRequest task.offset = .ok request) :
      TaskStep task
        { task with phase := .draining, link := some (.dial request) } none none
  | fail (hphase : task.phase = .connecting ∨ task.phase = .draining) :
      TaskStep task { task with phase := .finished } none none
  | drain (hphase : task.phase = .draining) :
      TaskStep task { task with phase := .looping } none none
  | test (hphase : task.phase = .looping) (hlt : task.replayed < maxReplay) :
      TaskStep task { task with phase := .reading } none none
  | wake (hphase : task.phase = .pausing) :
      TaskStep task { task with phase := .looping } none none
  | finish (hphase : (task.phase = .looping ∧ maxReplay ≤ task.replayed) ∨
        task.phase = .reading ∨ task.phase = .pausing) :
      TaskStep task { task with phase := .finished } none
        (some (.timeTravelDone task.replayed))
  | skip (link : Link) (frame : BrokerFrame) (stream : Bytes)
      (hphase : task.phase = .reading) (hlink : task.link = some link)
      (hread : readOne link.stream = .ok (some (frame, stream)))
      (hevent : replayEvent frame = none) :
      TaskStep task
        { task with phase := .looping, link := some { link with stream } }
        (some frame) none
  | log (link : Link) (frame : BrokerFrame) (stream : Bytes) (event : Event)
      (phase : ReplayPhase) (hphase : task.phase = .reading)
      (hphase' : phase = .looping ∨ phase = .pausing)
      (hlink : task.link = some link)
      (hread : readOne link.stream = .ok (some (frame, stream)))
      (hevent : replayEvent frame = some event) :
      TaskStep task
        { task with
          phase
          replayed := task.replayed + 1
          link := some { link with stream } }
        (some frame) (some event)

theorem ReplayTask.step_of_eq {task task' : ReplayTask} {a : ReplayAction}
    {frame : Option BrokerFrame} {event : Option Event}
    (h : task.step a = some (task', frame, event)) :
    TaskStep task task' frame event := by
  cases a with
  | connect ok =>
      rw [step.eq_def] at h
      dsimp only at h
      split at h
      next hphase =>
        split at h <;> cases h
        next request hrequest => exact .dial request hphase hrequest
        next => exact .fail (Or.inl hphase)
      · cases h
  | drained ok =>
      rw [step] at h
      split at h
      next hphase =>
        cases ok with
        | true =>
            cases h
            exact .drain hphase
        | false =>
            cases h
            exact .fail (Or.inr hphase)
      · cases h
  | test =>
      rw [step] at h
      split at h
      next hphase =>
        split at h <;> cases h
        next hlt => exact .test hphase hlt
        next hge => exact .finish (Or.inl ⟨hphase, not_lt.mp hge⟩)
      · cases h
  | read =>
      rw [step] at h
      split at h
      next link hphase hlink =>
        split at h
        next frame stream hread =>
          dsimp only at h
          split at h <;> cases h
          next hevent => exact .skip link _ stream hphase hlink hread hevent
          next event hevent =>
            refine .log link _ stream _ _ hphase ?_ hlink hread hevent
            split
            · exact Or.inr rfl
            · exact Or.inl rfl
        · cases h
      · cases h
  | stop =>
      rw [step] at h
      split at h
      next hphase =>
        cases h
        exact .finish (Or.inr hphase)
      · cases h
  | wake =>
      rw [step] at h
      split at h
      next hphase =>
        cases h
        exact .wake hphase
      · cases h

theorem SmartHome.broadcast_eq_some {notes : List HomeEvent}
    {event : Option Event}
    (h : s.broadcast loads notes i event = some (s', evs)) :
    (event = none ∧ s' = s ∧ evs = notes) ∨
      ∃ e dashboard hevs, event = some e ∧
        hubStep loads s.dashboard (.replay e) = some (dashboard, hevs) ∧
        s' = s.afterDashboard dashboard ∧
        evs = notes ++ [.replayed i e] ++ hevs.map .dashboard := by
  cases event with
  | none =>
      cases h
      exact Or.inl ⟨rfl, rfl, rfl⟩
  | some e =>
      obtain ⟨dashboard, hevs, hstep, rfl, rfl⟩ := withDashboard_eq_some h
      exact Or.inr ⟨e, dashboard, hevs, rfl, hstep, rfl, rfl⟩

/-- A broadcast changes only what the browsers have, and may show that the
proxy has no connection. -/
structure SmartHome.Broadcasts (s : SmartHome) (notes : List HomeEvent) (i : ℕ)
    (event : Option Event) (s' : SmartHome) (evs : List HomeEvent) : Prop where
  broker : s'.broker = s.broker
  replays : s'.replays = s.replays
  links : ∀ id, s'.linkOf id = s.linkOf id ∨
    (id = .proxy ∧ s'.linkOf id = none)
  observations : observationsIn evs = observationsIn notes
  read : ∀ id, readBy id evs = readBy id notes
  replayed : ∀ j, replayedBy j evs =
    replayedBy j notes ++ if j = i then event.toList else []

theorem SmartHome.broadcasts {notes : List HomeEvent} {event : Option Event}
    (h : s.broadcast loads notes i event = some (s', evs)) :
    s.Broadcasts notes i event s' evs := by
  rcases broadcast_eq_some h with ⟨rfl, rfl, rfl⟩ |
    ⟨e, d, hevs, rfl, -, rfl, rfl⟩
  · refine ⟨rfl, rfl, fun _ => Or.inl rfl, rfl, fun _ => rfl, fun j => ?_⟩
    rw [Option.toList_none, ite_self, List.append_nil]
  · refine ⟨rfl, rfl, s.linkOf_afterDashboard d, ?_, fun id => ?_, fun j => ?_⟩
    · rw [observationsIn_append, observationsIn_append,
        observationsIn_dashboard, List.append_nil]
      exact List.append_nil _
    · rw [readBy_append, readBy_append, readBy_dashboard, List.append_nil]
      exact List.append_nil _
    · have hone : replayedBy j [.replayed i e] = if j = i then [e] else [] := by
        by_cases hji : j = i
        · simp [replayedBy, hji]
        · simp [replayedBy, hji, Ne.symm hji]
      rw [replayedBy_append, replayedBy_append, replayedBy_dashboard, hone,
        List.append_nil]
      rfl

/-! ## Runs of the parts -/

/-- The notes on what a replay reads and broadcasts. -/
theorem dashboardIn_notes (id : LinkId) (frame : Option BrokerFrame) :
    dashboardIn (frame.toList.map (.read id)) = [] := by
  simp [dashboardIn, List.filterMap_map]

theorem observationsIn_notes (id : LinkId) (frame : Option BrokerFrame) :
    observationsIn (frame.toList.map (.read id)) = [] := by
  simp [observationsIn, List.filterMap_map]

theorem readBy_notes (id id' : LinkId) (frame : Option BrokerFrame) :
    readBy id (frame.toList.map (.read id')) =
      if id' = id then frame.toList else [] := by
  by_cases hid : id' = id
  · simp [readBy, List.filterMap_map, hid]
  · simp [readBy, List.filterMap_map, hid]

theorem replayedBy_notes (i : ℕ) (id : LinkId) (frame : Option BrokerFrame) :
    replayedBy i (frame.toList.map (.read id)) = [] := by
  simp [replayedBy, List.filterMap_map]

/-- A step of the system is a step of the broker or leaves it alone. -/
theorem HomeStep.broker_part (h : HomeStep loads s s' evs) :
    (s'.broker = s.broker ∧ observationsIn evs = []) ∨
      ∃ a, observed.step s.broker a = some (s'.broker, observationsIn evs) := by
  cases h with
  | broker a broker obs hfree hstep =>
      rw [observationsIn_broker]
      exact Or.inr ⟨a, hstep⟩
  | accept id link broker obs hlink hnew hstep =>
      rw [observationsIn_broker]
      exact Or.inr ⟨_, hstep⟩
  | deliver id link c msg requests broker obs hlink hclient hread hstep =>
      rw [observationsIn_broker]
      exact Or.inr ⟨_, hstep⟩
  | dashboard a dashboard hevs => exact Or.inl ⟨rfl, observationsIn_dashboard _⟩
  | dial frames dashboard hevs =>
      exact Or.inl ⟨s.broker_setLink _ _, observationsIn_dashboard _⟩
  | read link frame stream dashboard hevs =>
      exact Or.inl ⟨s.broker_setLink _ _, observationsIn_dashboard _⟩
  | travel offset _ _ hbroadcast =>
      have hkept := SmartHome.broadcasts hbroadcast
      exact Or.inl ⟨hkept.broker, hkept.observations⟩
  | replay i a task task' frame event _ _ htask hstep hbroadcast =>
      have hkept := SmartHome.broadcasts hbroadcast
      exact Or.inl ⟨hkept.broker,
        hkept.observations.trans (observationsIn_notes _ _)⟩

theorem SmartHome.dashboard_part {notes : List HomeEvent}
    {event : Option Event} (hnotes : dashboardIn notes = [])
    (h : s.broadcast loads notes i event = some (s', evs)) :
    (s'.dashboard = s.dashboard ∧ dashboardIn evs = []) ∨
      ∃ a, (hub loads).step s.dashboard a =
        some (s'.dashboard, dashboardIn evs) := by
  rcases broadcast_eq_some h with ⟨rfl, rfl, rfl⟩ |
    ⟨e, d, hevs, rfl, hstep, rfl, rfl⟩
  · exact Or.inl ⟨rfl, hnotes⟩
  · refine Or.inr ⟨.replay e, ?_⟩
    have hone : dashboardIn [.replayed i e] = [] := rfl
    rw [dashboardIn_append, dashboardIn_append, dashboardIn_dashboard, hnotes,
      hone]
    exact hstep

/-- A step of the system is a step of the dashboard or leaves it alone. -/
theorem HomeStep.dashboard_part (h : HomeStep loads s s' evs) :
    (s'.dashboard = s.dashboard ∧ dashboardIn evs = []) ∨
      ∃ a, (hub loads).step s.dashboard a =
        some (s'.dashboard, dashboardIn evs) := by
  cases h with
  | broker a broker obs => exact Or.inl ⟨rfl, dashboardIn_broker obs⟩
  | accept id link broker obs =>
      exact Or.inl ⟨s.dashboard_setLink _ _, dashboardIn_broker obs⟩
  | deliver id link c msg requests broker obs =>
      exact Or.inl ⟨s.dashboard_setLink _ _, dashboardIn_broker obs⟩
  | dashboard a dashboard hevs hfree hstep =>
      rw [dashboardIn_dashboard]
      exact Or.inr ⟨a, hstep⟩
  | dial frames dashboard hevs hframes hstep =>
      refine Or.inr ⟨.proxy (.connect true), ?_⟩
      rw [dashboardIn_dashboard]
      exact hstep
  | read link frame stream dashboard hevs hlink hread hstep =>
      refine Or.inr ⟨.proxy (.read (.frame frame)), ?_⟩
      change _ = some (dashboard, dashboardIn (hevs.map .dashboard))
      rw [dashboardIn_dashboard]
      exact hstep
  | travel offset _ _ hbroadcast =>
      have hpart := SmartHome.dashboard_part (dashboardIn_notes .proxy none)
        hbroadcast
      exact hpart
  | replay i a task task' frame event _ _ htask hstep hbroadcast =>
      have hpart := SmartHome.dashboard_part
        (dashboardIn_notes (.replay i) frame) hbroadcast
      exact hpart

/-- A run of the system is a run of the broker. -/
theorem broker_of_run (h : (smartHome loads).Reaches s tr s') :
    observed.Reaches s.broker (observationsIn tr) s'.broker :=
  h.project (f := SmartHome.broker) rfl observationsIn_append
    fun _ _ _ _ _ hstep => (homeStep_of_eq hstep).broker_part

theorem brokerIn_run (h : (smartHome loads).Reaches (.init log) tr s) :
    Broker.broker.Reaches (.init log) (brokerIn tr) s.broker :=
  broker_run (broker_of_run h)

/-- A step of the broker as the observer sees it, without the notes. -/
theorem broker_step_of_observed {b b' : BrokerServer} {a : BrokerAction}
    (h : observed.step b a = some (b', observationsIn evs)) :
    Broker.broker.step b a = some (b', brokerIn evs) := by
  obtain ⟨bevs, hstep, hobs⟩ := observed_step_iff.mp h
  rw [brokerIn, hobs, brokerPart_append, brokerPart_notes, brokerPart_map,
    List.nil_append]
  exact hstep

/-- A run of the system is a run of the dashboard. -/
theorem dashboard_of_run (h : (smartHome loads).Reaches s tr s') :
    (hub loads).Reaches s.dashboard (dashboardIn tr) s'.dashboard :=
  h.project (f := SmartHome.dashboard) rfl dashboardIn_append
    fun _ _ _ _ _ hstep => (homeStep_of_eq hstep).dashboard_part

/-! ## The clients of the dashboard -/

/-- The number under which the broker has accepted a connection. -/
def SmartHome.clientOf (s : SmartHome) (id : LinkId) : Option ClientId :=
  (s.linkOf id).bind (·.client)

/-- Every connection has a client number of its own. -/
structure Clients (s : SmartHome) : Prop where
  known : ∀ id c, s.clientOf id = some c → c < s.broker.handlers.length
  unique : ∀ id id' c, s.clientOf id = some c → s.clientOf id' = some c →
    id = id'

namespace SmartHome

theorem clientOf_of (hlink : s.linkOf id = some link) :
    s.clientOf id = link.client := by
  rw [clientOf, hlink, Option.bind_some]

theorem clientOf_eq_some_iff :
    s.clientOf id = some c ↔
      ∃ link, s.linkOf id = some link ∧ link.client = some c :=
  Option.bind_eq_some_iff

@[simp] theorem clientOf_afterBroker (s : SmartHome) (broker : BrokerServer)
    (obs : List Observation) (id : LinkId) :
    (s.afterBroker broker obs).clientOf id = s.clientOf id := by
  rw [clientOf, linkOf_afterBroker, clientOf]
  cases s.linkOf id with
  | none => rfl
  | some link => exact link.client_gain _

theorem clientOf_afterDashboard {dashboard : Hub}
    (h : (s.afterDashboard dashboard).clientOf id = some c) :
    s.clientOf id = some c := by
  rcases s.linkOf_afterDashboard dashboard id with hsame | ⟨-, hnone⟩
  · rwa [clientOf, hsame] at h
  · rw [clientOf, hnone] at h
    cases h

/-- A task has taken a step. -/
theorem linkOf_set {task : ReplayTask} (htask : s.replays[i]? = some task)
    (task' : ReplayTask) (id : LinkId) :
    ({ s with replays := s.replays.set i task' } : SmartHome).linkOf id =
      if id = .replay i then task'.link else s.linkOf id := by
  have hlt := (List.getElem?_eq_some_iff.mp htask).1
  cases id with
  | proxy => rfl
  | replay j =>
      by_cases hij : j = i
      · subst hij
        simp only [linkOf, List.getElem?_set_self hlt, Option.bind_some,
          if_true]
      · have hne : LinkId.replay j ≠ .replay i := fun h =>
          hij (LinkId.replay.inj h)
        rw [if_neg hne, linkOf, List.getElem?_set_ne (Ne.symm hij), linkOf]

/-- A new task has no connection yet. -/
theorem linkOf_start (s : SmartHome) (offset : ℤ) (id : LinkId) :
    ({ s with replays := s.replays ++ [.start offset] } : SmartHome).linkOf
      id = s.linkOf id := by
  cases id with
  | proxy => rfl
  | replay j =>
      rw [linkOf, linkOf, List.getElem?_append]
      split
      · rfl
      next hge =>
        rw [List.getElem?_eq_none (not_lt.mp hge)]
        cases hj : [ReplayTask.start offset][j - s.replays.length]? with
        | none => rfl
        | some task =>
            rw [List.mem_singleton.mp (List.mem_of_getElem? hj)]
            rfl

end SmartHome

/-- A task takes the number of its connection from nowhere else. -/
theorem TaskStep.client {task task' : ReplayTask} {frame : Option BrokerFrame}
    {event : Option Event} (h : TaskStep task task' frame event)
    (hc : task'.link.bind (·.client) = some c) :
    task.link.bind (·.client) = some c := by
  cases h with
  | dial => cases hc
  | skip link frame stream hphase hlink =>
      rw [hlink]
      exact hc
  | log link frame stream event phase hphase hphase' hlink =>
      rw [hlink]
      exact hc
  | _ => exact hc

theorem SmartHome.Broadcasts.clientOf {notes : List HomeEvent}
    {event : Option Event} (h : s.Broadcasts notes i event s' evs)
    (hc : s'.clientOf id = some c) : s.clientOf id = some c := by
  rcases h.links id with hsame | ⟨-, hnone⟩
  · rwa [SmartHome.clientOf, hsame] at hc
  · rw [SmartHome.clientOf, hnone] at hc
    cases hc

/-- A connection keeps its number, and at most one gets a new one. -/
theorem HomeStep.clientOf (h : HomeStep loads s s' evs) :
    (∀ id c, s'.clientOf id = some c → s.clientOf id = some c) ∨
      (s'.broker.handlers.length = s.broker.handlers.length + 1 ∧
        ∃ id₀, ∀ id c, s'.clientOf id = some c → s.clientOf id = some c ∨
          (id = id₀ ∧ c = s.broker.handlers.length)) := by
  cases h with
  | broker a broker obs =>
      left
      intro id c hc
      rwa [SmartHome.clientOf_afterBroker] at hc
  | accept id link broker obs hlink hnew hstep =>
      right
      obtain ⟨bevs, hbroker, -⟩ := observed_step_iff.mp hstep
      refine ⟨?_, id, ?_⟩
      · cases BrokerServer.step_of_eq hbroker with
        | connect => exact List.length_append
      · intro id' c hc
        rw [SmartHome.clientOf_afterBroker] at hc
        by_cases hid : id' = id
        · subst hid
          rw [SmartHome.clientOf_of (SmartHome.linkOf_setLink_self hlink _)]
            at hc
          cases hc
          exact Or.inr ⟨rfl, rfl⟩
        · left
          rwa [SmartHome.clientOf, SmartHome.linkOf_setLink_ne _ _ hid] at hc
  | deliver id link c msg requests broker obs hlink =>
      left
      intro id' c hc
      rw [SmartHome.clientOf_afterBroker] at hc
      by_cases hid : id' = id
      · subst hid
        rw [SmartHome.clientOf_of (SmartHome.linkOf_setLink_self hlink _)] at hc
        rw [SmartHome.clientOf_of hlink]
        exact hc
      · rwa [SmartHome.clientOf, SmartHome.linkOf_setLink_ne _ _ hid] at hc
  | dashboard a dashboard hevs =>
      exact Or.inl fun id c hc => SmartHome.clientOf_afterDashboard hc
  | dial frames dashboard hevs =>
      left
      intro id c hc
      have hc' := SmartHome.clientOf_afterDashboard hc
      cases id with
      | proxy => cases hc'
      | replay j => exact hc'
  | read link frame stream dashboard hevs hlink =>
      left
      intro id c hc
      have hc' := SmartHome.clientOf_afterDashboard hc
      cases id with
      | proxy =>
          have hlink' : s.linkOf .proxy = some link := hlink
          rw [SmartHome.clientOf_of hlink']
          exact hc'
      | replay j => exact hc'
  | travel offset _ _ hbroadcast =>
      left
      intro id c hc
      have hc' := (SmartHome.broadcasts hbroadcast).clientOf hc
      rwa [SmartHome.clientOf, SmartHome.linkOf_start] at hc'
  | replay i a task task' frame event _ _ htask hstep hbroadcast =>
      left
      intro id c hc
      have hc' := (SmartHome.broadcasts hbroadcast).clientOf hc
      rw [SmartHome.clientOf, SmartHome.linkOf_set htask] at hc'
      split at hc'
      next hid =>
        subst hid
        have hold := (ReplayTask.step_of_eq hstep).client hc'
        rw [SmartHome.clientOf, SmartHome.linkOf, htask]
        exact hold
      · exact hc'

theorem Clients.step (h : Clients s) (hstep : HomeStep loads s s' evs) :
    Clients s' := by
  have hgrow : s.broker.handlers.length ≤ s'.broker.handlers.length := by
    rcases hstep.broker_part with ⟨hsame, -⟩ | ⟨a, hbroker⟩
    · rw [hsame]
    · obtain ⟨bevs, hbroker, -⟩ := observed_step_iff.mp hbroker
      exact length_handlers_step (BrokerServer.step_of_eq hbroker)
  rcases hstep.clientOf with hold | ⟨hlength, id₀, hnew⟩
  · refine ⟨fun id c hc => ?_, fun id id' c hc hc' => ?_⟩
    · exact lt_of_lt_of_le (h.known id c (hold id c hc)) hgrow
    · exact h.unique id id' c (hold id c hc) (hold id' c hc')
  · refine ⟨fun id c hc => ?_, fun id id' c hc hc' => ?_⟩
    · rcases hnew id c hc with hc | ⟨-, rfl⟩
      · exact lt_of_lt_of_le (h.known id c hc) hgrow
      · rw [hlength]
        exact Nat.lt_succ_self _
    · rcases hnew id c hc with hc | ⟨rfl, hlast⟩
      · rcases hnew id' c hc' with hc' | ⟨-, hlast⟩
        · exact h.unique id id' c hc hc'
        · exact absurd (h.known id c hc) (by rw [hlast]; exact lt_irrefl _)
      · rcases hnew id' c hc' with hc' | ⟨rfl, -⟩
        · exact absurd (h.known id' c hc') (by rw [hlast]; exact lt_irrefl _)
        · rfl

theorem clients_init (log : Option Bytes) : Clients (.init log) where
  known id c hc := by cases id <;> cases hc
  unique id id' c hc := by cases id <;> cases hc

theorem clients_run (h : (smartHome loads).Reaches (.init log) tr s) :
    Clients s :=
  h.invariant (I := fun _ s => Clients s) (clients_init log)
    fun _ _ _ _ _ ht _ hstep => ht.step (homeStep_of_eq hstep)

end SentinelHub.Home
