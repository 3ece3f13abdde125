import SentinelHub.Home.Links

/-!
# What a step does to one connection

Seen from one connection of the dashboard, a step of the system is one of few
things: the connection is opened, accepted or given up, a request on it reaches
the broker, a frame is read from it, or the broker takes a step that is not
about what came in on it.  Every invariant of a connection is an induction over
these moves.
-/

namespace SentinelHub.Home

open Support Broker Dashboard

/-- The requests with which a connection is opened. -/
inductive Opening (s : SmartHome) : LinkId → Bytes → Prop
  | proxy (frames : List Bytes) (hframes : proxyRequest = .ok frames) :
      Opening s .proxy frames.flatten
  | replay (i : ℕ) (task : ReplayTask) (request : Bytes)
      (htask : s.replays[i]? = some task) (hphase : task.phase = .connecting)
      (hrequest : replayRequest task.offset = .ok request) :
      Opening s (.replay i) request

/-- What a step does to the connection `id`. -/
inductive LinkMove (id : LinkId) (s : SmartHome) (evs : List HomeEvent)
    (s' : SmartHome) : Prop
  | aside (hbroker : s'.broker = s.broker) (hevs : observationsIn evs = [])
      (hread : readBy id evs = []) (hlink : s'.linkOf id = s.linkOf id)
  | drop (hbroker : s'.broker = s.broker) (hevs : observationsIn evs = [])
      (hread : readBy id evs = []) (hproxy : id = .proxy)
      (hlink : s'.linkOf id = none)
  | dial (requests : Bytes) (hbroker : s'.broker = s.broker)
      (hevs : observationsIn evs = []) (hread : readBy id evs = [])
      (hopening : Opening s id requests)
      (hlink : s'.linkOf id = some (.dial requests))
  | read (link : Link) (frame : BrokerFrame) (stream : Bytes)
      (hbroker : s'.broker = s.broker) (hevs : observationsIn evs = [])
      (hread : readBy id evs = [frame]) (hbefore : s.linkOf id = some link)
      (hstream : readOne link.stream = .ok (some (frame, stream)))
      (hlink : s'.linkOf id = some { link with stream })
  | broker (a : BrokerAction)
      (hstep : observed.step s.broker a =
        some (s'.broker, observationsIn evs))
      (hread : readBy id evs = [])
      (hother : ∀ c msg, s.clientOf id = some c → a ≠ .receive c msg)
      (hlink : s'.linkOf id = (s.linkOf id).map (·.gain (brokerIn evs)))
  | accept (link : Link)
      (hstep : observed.step s.broker .connect =
        some (s'.broker, observationsIn evs))
      (hread : readBy id evs = []) (hbefore : s.linkOf id = some link)
      (hnew : link.client = none)
      (hlink : s'.linkOf id =
        some { link with client := some s.broker.handlers.length })
  | deliver (link : Link) (c : ClientId) (msg : Message) (requests : Bytes)
      (hstep : observed.step s.broker (.receive c msg) =
        some (s'.broker, observationsIn evs))
      (hread : readBy id evs = []) (hbefore : s.linkOf id = some link)
      (hclient : link.client = some c)
      (hrequest : readMessage link.requests = .ok (msg, requests))
      (hlink : s'.linkOf id =
        some ({ link with requests }.gain (brokerIn evs)))

variable {loads : List Char → Option Json} {s s' : SmartHome}
  {tr evs : List HomeEvent} {id : LinkId} {c : ClientId} {link : Link}
  {log : Option Bytes}

/-- A step of the dashboard that reads nothing from the connection. -/
theorem LinkMove.of_links (hbroker : s'.broker = s.broker)
    (hevs : observationsIn evs = []) (hread : readBy id evs = [])
    (hlink : s'.linkOf id = s.linkOf id ∨
      (id = .proxy ∧ s'.linkOf id = none)) : LinkMove id s evs s' := by
  rcases hlink with hsame | ⟨hproxy, hnone⟩
  · exact .aside hbroker hevs hread hsame
  · exact .drop hbroker hevs hread hproxy hnone

/-- The proxy keeps the connection from which it reads. -/
theorem linked_of_read {frame : BrokerFrame} {h h' : Hub}
    {hevs : List (SseEvent Event)}
    (hstep : hubStep loads h (.proxy (.read (.frame frame))) =
      some (h', hevs)) : linked h'.proxy = true := by
  rw [hubStep] at hstep
  by_cases hphase : h.proxy.phase = .reading
  · have hproxy : proxyStep loads h.proxy (.read (.frame frame)) =
        some (h.proxy, forward loads frame) := by
      rw [proxyStep, if_pos hphase]
    have hlinked : linked h.proxy = true := by simp [linked, hphase]
    rw [hproxy] at hstep
    cases hforward : forward loads frame with
    | none =>
        simp only [hforward] at hstep
        cases hstep
        exact hlinked
    | some event =>
        simp only [hforward] at hstep
        obtain ⟨-, hsame⟩ := Hub.withBrowsers_eq_some hstep
        rw [hsame]
        exact hlinked
  · have hnone : proxyStep loads h.proxy (.read (.frame frame)) = none := by
      rw [proxyStep, if_neg hphase]
    rw [hnone] at hstep
    cases hstep

/-- A proxy that has connected has a connection. -/
theorem linked_of_connect {h h' : Hub} {hevs : List (SseEvent Event)}
    (hstep : hubStep loads h (.proxy (.connect true)) = some (h', hevs)) :
    linked h'.proxy = true := by
  rw [hubStep, proxyStep] at hstep
  by_cases hphase : h.proxy.phase = .connecting
  · rw [if_pos hphase, if_pos rfl] at hstep
    obtain ⟨-, hsame⟩ := Hub.withBrowsers_eq_some hstep
    rw [hsame]
    rfl
  · rw [if_neg hphase] at hstep
    cases hstep

/-- What a step of a task does to its connection. -/
theorem TaskStep.linkMove {task task' : ReplayTask}
    {frame : Option BrokerFrame} {event : Option Event}
    (h : TaskStep task task' frame event) :
    (task'.link = task.link ∧ frame = none) ∨
      (∃ request, task.phase = .connecting ∧
        replayRequest task.offset = .ok request ∧
          task'.link = some (.dial request) ∧ frame = none) ∨
        ∃ link f stream, task.link = some link ∧
          readOne link.stream = .ok (some (f, stream)) ∧
            task'.link = some { link with stream } ∧ frame = some f := by
  cases h with
  | dial request hphase hrequest =>
      exact Or.inr (Or.inl ⟨request, hphase, hrequest, rfl, rfl⟩)
  | skip link frame stream hphase hlink hread =>
      exact Or.inr (Or.inr ⟨link, frame, stream, hlink, hread, rfl, rfl⟩)
  | log link frame stream event phase hphase hphase' hlink hread =>
      exact Or.inr (Or.inr ⟨link, frame, stream, hlink, hread, rfl, rfl⟩)
  | _ => exact Or.inl ⟨rfl, rfl⟩

theorem HomeStep.linkMove (hclients : Clients s)
    (h : HomeStep loads s s' evs) (id : LinkId) : LinkMove id s evs s' := by
  cases h with
  | broker a broker obs hfree hstep =>
      refine .broker a ?_ (readBy_broker id obs) ?_ ?_
      · rw [observationsIn_broker]
        exact hstep
      · rintro c msg hc rfl
        have hreserved : c ∈ s.clients :=
          SmartHome.mem_clients_iff.mpr
            ⟨id, SmartHome.clientOf_eq_some_iff.mp hc⟩
        rw [SmartHome.reserved, decide_eq_false_iff_not] at hfree
        exact hfree hreserved
      · rw [SmartHome.linkOf_afterBroker, brokerIn_broker]
  | accept id₀ link broker obs hlink hnew hstep =>
      have hstep' : observed.step s.broker .connect =
          some (broker, observationsIn (obs.map .broker)) := by
        rw [observationsIn_broker]
        exact hstep
      by_cases hid : id = id₀
      · subst hid
        refine .accept link hstep' (readBy_broker id obs) hlink hnew ?_
        have hquiet : streamTo s.broker.handlers.length (brokerPart obs) =
            [] := by
          obtain ⟨bevs, hbroker, rfl⟩ := observed_step_iff.mp hstep
          rw [brokerPart_append, brokerPart_notes, brokerPart_map]
          cases BrokerServer.step_of_eq hbroker with
          | connect => rfl
        rw [SmartHome.linkOf_afterBroker,
          SmartHome.linkOf_setLink_self hlink, Option.map_some, Link.gain]
        simp only [hquiet, List.append_nil]
      · refine .broker .connect hstep' (readBy_broker id obs) ?_ ?_
        · intro c msg _ heq
          cases heq
        · rw [SmartHome.linkOf_afterBroker, brokerIn_broker,
            SmartHome.linkOf_setLink_ne _ _ hid]
  | deliver id₀ link c msg requests broker obs hlink hclient hread hstep =>
      have hstep' : observed.step s.broker (.receive c msg) =
          some (broker, observationsIn (obs.map .broker)) := by
        rw [observationsIn_broker]
        exact hstep
      by_cases hid : id = id₀
      · subst hid
        refine .deliver link c msg requests hstep' (readBy_broker id obs) hlink
          hclient hread ?_
        rw [SmartHome.linkOf_afterBroker,
          SmartHome.linkOf_setLink_self hlink, brokerIn_broker]
        rfl
      · refine .broker _ hstep' (readBy_broker id obs) ?_ ?_
        · rintro d msg' hd heq
          cases heq
          exact hid (hclients.unique id id₀ c hd
            ((SmartHome.clientOf_of hlink).trans hclient))
        · rw [SmartHome.linkOf_afterBroker, brokerIn_broker,
            SmartHome.linkOf_setLink_ne _ _ hid]
  | dashboard a dashboard hevs =>
      exact .of_links rfl (observationsIn_dashboard _) (readBy_dashboard _ _)
        (s.linkOf_afterDashboard dashboard id)
  | dial frames dashboard hevs hframes hstep =>
      cases id with
      | proxy =>
          refine .dial frames.flatten rfl (observationsIn_dashboard _)
            (readBy_dashboard _ _) (.proxy frames hframes) ?_
          exact if_pos (linked_of_connect hstep)
      | replay j =>
          exact .aside rfl (observationsIn_dashboard _) (readBy_dashboard _ _)
            rfl
  | read link frame stream dashboard hevs hlink hread hstep =>
      cases id with
      | proxy =>
          refine .read link frame stream rfl (observationsIn_dashboard _) ?_
            hlink hread ?_
          · have hnone := readBy_dashboard .proxy hevs
            rw [readBy] at hnone
            rw [readBy, List.filterMap_cons, hnone]
            rfl
          · exact if_pos (linked_of_read hstep)
      | replay j =>
          refine .aside rfl (observationsIn_dashboard _) ?_ rfl
          exact readBy_dashboard (.replay j) hevs
  | travel offset _ _ hbroadcast =>
      have hkept := SmartHome.broadcasts hbroadcast
      refine .of_links hkept.broker hkept.observations (hkept.read id) ?_
      rw [← s.linkOf_start offset id]
      exact hkept.links id
  | replay i a task task' frame event _ _ htask hstep hbroadcast =>
      have hkept := SmartHome.broadcasts hbroadcast
      have hobs := hkept.observations.trans (observationsIn_notes _ _)
      have hread := (hkept.read id).trans (readBy_notes _ _ _)
      have hlinks := hkept.links id
      rw [SmartHome.linkOf_set htask] at hlinks
      by_cases hid : id = .replay i
      · subst hid
        rw [if_pos rfl] at hread hlinks
        have hlink := hlinks.resolve_right fun h => by cases h.1
        have hbefore : s.linkOf (.replay i) = task.link := by
          rw [SmartHome.linkOf, htask, Option.bind_some]
        rcases (ReplayTask.step_of_eq hstep).linkMove with ⟨hsame, rfl⟩ |
          ⟨request, hphase, hrequest, hnew, rfl⟩ |
            ⟨link, f, stream, hold, hstream, hnew, rfl⟩
        · refine .aside hkept.broker hobs hread ?_
          rw [hlink, hsame, hbefore]
        · exact .dial request hkept.broker hobs hread
            (.replay i task request htask hphase hrequest) (hlink.trans hnew)
        · exact .read link f stream hkept.broker hobs hread
            (hbefore.trans hold) hstream (hlink.trans hnew)
      · rw [if_neg (Ne.symm hid)] at hread
        rw [if_neg hid] at hlinks
        exact .of_links hkept.broker hobs hread hlinks

/-- The moves of a connection in a run. -/
theorem linkMove_of_step (h : (smartHome loads).Reaches (.init log) tr s)
    {a : HomeAction} (hstep : (smartHome loads).step s a = some (s', evs))
    (id : LinkId) : LinkMove id s evs s' :=
  (homeStep_of_eq hstep).linkMove (clients_run h) id

/-- The step in which the broker reads a request. -/
theorem deliver_eq_some (h : homeStep loads s (.deliver id) = some (s', evs)) :
    ∃ link c msg requests, s.linkOf id = some link ∧ link.client = some c ∧
      readMessage link.requests = .ok (msg, requests) ∧
      Broker.broker.step s.broker (.receive c msg) =
        some (s'.broker, brokerIn evs) ∧
      readBy id evs = [] ∧
      s'.linkOf id = some ({ link with requests }.gain (brokerIn evs)) := by
  rw [homeStep] at h
  split at h
  · cases h
  next link hlink =>
    split at h
    next c msg requests hclient hread =>
      obtain ⟨broker, obs, hstep, rfl, rfl⟩ := SmartHome.withBroker_eq_some h
      refine ⟨link, c, msg, requests, hlink, hclient, hread,
        broker_step_of_observed ?_, readBy_broker id obs, ?_⟩
      · rw [observationsIn_broker]
        exact hstep
      · rw [SmartHome.linkOf_afterBroker,
          SmartHome.linkOf_setLink_self hlink, brokerIn_broker]
        rfl
    · cases h

/-! ## Frames on their way -/

/-- A read takes the first of the frames on their way. -/
theorem readOne_flatten {fs : List Bytes} {frame : BrokerFrame} {rest : Bytes}
    (hfs : ∀ f ∈ fs, wire.IsFrame f)
    (h : readOne fs.flatten = .ok (some (frame, rest))) :
    ∃ f fs', fs = f :: fs' ∧ frame = .ofFrame f ∧ rest = fs'.flatten := by
  cases fs with
  | nil =>
      rw [List.flatten_nil, readOne_of_not_hasFrame Framing.not_hasFrame_nil]
        at h
      cases h
  | cons f fs =>
      rw [List.flatten_cons,
        readOne_frame_append (hfs f (List.mem_cons_self ..))]
        at h
      cases h
      exact ⟨f, fs, rfl, rfl, rfl⟩

end SentinelHub.Home
