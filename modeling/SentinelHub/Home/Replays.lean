import SentinelHub.Broker.ReplayClient
import SentinelHub.Home.LinkMoves

/-!
# What a replay shows

A replay of the dashboard has a connection of its own, on which it makes one
request.  While it reads, clients go on publishing, other replays run, and the
connection may end.  What it has broadcast at any time are the events of the
first frames that the log holds behind the requested offset, and the number it
reports at its end is the number of these events.
-/

namespace SentinelHub.Home

open Support Broker Dashboard

variable {loads : List Char → Option Json} {s s' : SmartHome}
  {tr evs : List HomeEvent} {i : ℕ} {offset : ℤ} {c : ClientId} {link : Link}
  {log : Option Bytes}

/-! ## The task -/

/-- What a task is apart from its connection. -/
def ReplayTask.core (task : ReplayTask) : ℤ × ReplayPhase × ℕ :=
  (task.offset, task.phase, task.replayed)

/-- What a step does to the task `i`. -/
inductive TaskMove (i : ℕ) (s : SmartHome) (evs : List HomeEvent)
    (s' : SmartHome) : Prop
  | aside (hcore : (s'.replays[i]?).map (·.core) =
        (s.replays[i]?).map (·.core))
      (hread : readBy (.replay i) evs = []) (hevents : replayedBy i evs = [])
  | start (offset : ℤ) (hbefore : s.replays[i]? = none)
      (hafter : s'.replays[i]? = some (.start offset))
      (hread : readBy (.replay i) evs = [])
      (hevents : replayedBy i evs =
        if offset < 0 then [.timeTravelDone 0] else [])
  | step (task task' : ReplayTask) (frame : Option BrokerFrame)
      (event : Option Event) (hbefore : s.replays[i]? = some task)
      (hstep : TaskStep task task' frame event)
      (hafter : s'.replays[i]? = some task')
      (hread : readBy (.replay i) evs = frame.toList)
      (hevents : replayedBy i evs = event.toList)

theorem core_setLink (s : SmartHome) (link : Link) (id : LinkId) (i : ℕ) :
    ((s.setLink link id).replays[i]?).map (·.core) =
      (s.replays[i]?).map (·.core) := by
  cases id with
  | proxy => rfl
  | replay j =>
      simp only [SmartHome.setLink, List.getElem?_modify]
      cases s.replays[i]? with
      | none => rfl
      | some task => split <;> rfl

theorem core_afterBroker (s : SmartHome) (broker : BrokerServer)
    (obs : List Observation) (i : ℕ) :
    ((s.afterBroker broker obs).replays[i]?).map (·.core) =
      (s.replays[i]?).map (·.core) := by
  simp only [SmartHome.afterBroker, List.getElem?_map, Option.map_map]
  rfl

theorem HomeStep.taskMove (h : HomeStep loads s s' evs) (i : ℕ) :
    TaskMove i s evs s' := by
  cases h with
  | broker a broker obs =>
      exact .aside (core_afterBroker _ _ _ _) (readBy_broker _ _)
        (replayedBy_broker _ _)
  | accept id link broker obs =>
      exact .aside ((core_afterBroker _ _ _ _).trans (core_setLink _ _ _ _))
        (readBy_broker _ _) (replayedBy_broker _ _)
  | deliver id link c msg requests broker obs =>
      exact .aside ((core_afterBroker _ _ _ _).trans (core_setLink _ _ _ _))
        (readBy_broker _ _) (replayedBy_broker _ _)
  | dashboard a dashboard hevs =>
      exact .aside rfl (readBy_dashboard _ _) (replayedBy_dashboard _ _)
  | dial frames dashboard hevs =>
      exact .aside rfl (readBy_dashboard _ _) (replayedBy_dashboard _ _)
  | read link frame stream dashboard hevs =>
      refine .aside rfl ?_ ?_
      · exact readBy_dashboard (.replay i) hevs
      · exact replayedBy_dashboard i hevs
  | travel offset _ _ hbroadcast =>
      have hkept := SmartHome.broadcasts hbroadcast
      have hread := hkept.read (.replay i)
      have hevents := hkept.replayed i
      by_cases hi : i = s.replays.length
      · refine .start offset ?_ ?_ hread ?_
        · exact List.getElem?_eq_none hi.ge
        · rw [hkept.replays, hi]
          exact List.getElem?_concat_length
        · rw [hevents, if_pos hi]
          split <;> rfl
      · refine .aside ?_ hread ?_
        · rw [hkept.replays, List.getElem?_append]
          split
          · rfl
          next hge =>
            rw [List.getElem?_eq_none (not_lt.mp hge),
              List.getElem?_eq_none (by rw [List.length_singleton]; omega)]
        · rw [hevents, if_neg hi]
          rfl
  | replay j a task task' frame event _ _ htask hstep hbroadcast =>
      have hkept := SmartHome.broadcasts hbroadcast
      have hread := (hkept.read (.replay i)).trans (readBy_notes _ _ _)
      have hevents := hkept.replayed i
      rw [replayedBy_notes, List.nil_append] at hevents
      by_cases hij : i = j
      · subst hij
        rw [if_pos rfl] at hread hevents
        refine .step task task' frame event htask (ReplayTask.step_of_eq hstep)
          ?_ hread hevents
        rw [hkept.replays]
        exact List.getElem?_set_self (List.getElem?_eq_some_iff.mp htask).1
      · have hne : LinkId.replay j ≠ .replay i := fun h =>
          hij (LinkId.replay.inj h).symm
        rw [if_neg hne] at hread
        rw [if_neg hij] at hevents
        refine .aside ?_ hread hevents
        rw [hkept.replays, List.getElem?_set_ne (Ne.symm hij)]

/-! ## What a replay broadcasts -/

/-- The events of the frames that a replay reads. -/
def logsOf (i : ℕ) (tr : List HomeEvent) : List Event :=
  (readBy (.replay i) tr).filterMap replayEvent

theorem logsOf_append (i : ℕ) (tr tr' : List HomeEvent) :
    logsOf i (tr ++ tr') = logsOf i tr ++ logsOf i tr' := by
  rw [logsOf, readBy_append, List.filterMap_append, logsOf, logsOf]

/-- What a task has counted and broadcast. -/
structure Counts (logs events : List Event) (task : ReplayTask) : Prop where
  replayed : task.replayed = logs.length
  bounded : task.replayed ≤ maxReplay
  reading : task.phase = .reading → task.replayed < maxReplay
  events : events = logs ∨ (task.phase = .finished ∧
    events = logs ++ [.timeTravelDone logs.length])

theorem Counts.of_core {logs events : List Event} {task task' : ReplayTask}
    (h : Counts logs events task) (hcore : task'.core = task.core) :
    Counts logs events task' := by
  obtain ⟨-, hphase, hreplayed⟩ := Prod.ext_iff.mp hcore |>.imp id
    Prod.ext_iff.mp
  simp only [ReplayTask.core] at hphase hreplayed
  exact ⟨hreplayed.trans h.replayed, hreplayed ▸ h.bounded,
    fun hread => hreplayed ▸ h.reading (hphase ▸ hread), by
      rw [hphase]
      exact h.events⟩

/-- A step of a task that reads and broadcasts nothing. -/
theorem Counts.moved {logs events : List Event} {task : ReplayTask}
    (h : Counts logs events task) (hrunning : task.phase ≠ .finished)
    {phase : ReplayPhase} {link : Option Link}
    (hreading : phase = .reading → task.replayed < maxReplay) :
    Counts logs events { task with phase, link } where
  replayed := h.replayed
  bounded := h.bounded
  reading := hreading
  events := Or.inl (h.events.resolve_right fun hdone => hrunning hdone.1)

theorem Counts.step {logs events : List Event} {task task' : ReplayTask}
    {frame : Option BrokerFrame} {event : Option Event}
    (h : Counts logs events task) (hstep : TaskStep task task' frame event) :
    Counts (logs ++ frame.toList.filterMap replayEvent)
      (events ++ event.toList) task' := by
  have hrunning : task.phase ≠ .finished → events = logs := fun hne =>
    h.events.resolve_right fun hdone => hne hdone.1
  cases hstep with
  | dial request hphase =>
      simp only [Option.toList_none, List.filterMap_nil, List.append_nil]
      exact h.moved (by simp [hphase]) nofun
  | fail hphase =>
      simp only [Option.toList_none, List.filterMap_nil, List.append_nil]
      refine h.moved ?_ nofun
      rcases hphase with hphase | hphase <;> simp [hphase]
  | drain hphase =>
      simp only [Option.toList_none, List.filterMap_nil, List.append_nil]
      exact h.moved (by simp [hphase]) nofun
  | test hphase hlt =>
      simp only [Option.toList_none, List.filterMap_nil, List.append_nil]
      exact h.moved (by simp [hphase]) fun _ => hlt
  | wake hphase =>
      simp only [Option.toList_none, List.filterMap_nil, List.append_nil]
      exact h.moved (by simp [hphase]) nofun
  | finish hphase =>
      have hne : task.phase ≠ .finished := by
        rcases hphase with ⟨hphase, -⟩ | hphase | hphase <;> simp [hphase]
      simp only [Option.toList_none, List.filterMap_nil, List.append_nil,
        Option.toList_some]
      refine ⟨h.replayed, h.bounded, nofun, Or.inr ⟨rfl, ?_⟩⟩
      rw [hrunning hne, h.replayed]
  | skip link frame stream hphase hlink hread hevent =>
      have hnone : [frame].filterMap replayEvent = [] := by
        rw [List.filterMap_cons_none hevent, List.filterMap_nil]
      rw [Option.toList_some, Option.toList_none, hnone, List.append_nil,
        List.append_nil]
      exact h.moved (by simp [hphase]) nofun
  | log link frame stream event phase hphase hphase' hlink hread hevent =>
      have hone : [frame].filterMap replayEvent = [event] := by
        rw [List.filterMap_cons_some hevent, List.filterMap_nil]
      rw [Option.toList_some, Option.toList_some, hone]
      refine ⟨?_, h.reading hphase, ?_, Or.inl ?_⟩
      · rw [List.length_append, List.length_singleton, ← h.replayed]
      · rintro rfl
        rcases hphase' with hphase' | hphase' <;> cases hphase'
      · rw [hrunning (by simp [hphase])]

theorem counts_start (offset : ℤ) :
    Counts [] (if offset < 0 then [.timeTravelDone 0] else [])
      (.start offset) where
  replayed := rfl
  bounded := Nat.zero_le _
  reading hreading := by
    rw [ReplayTask.start] at hreading
    split at hreading <;> cases hreading
  events := by
    rw [ReplayTask.start]
    split
    · exact Or.inr ⟨rfl, rfl⟩
    · exact Or.inl rfl

theorem TaskStep.not_connecting {task task' : ReplayTask}
    {frame : Option BrokerFrame} {event : Option Event}
    (h : TaskStep task task' frame event) : task'.phase ≠ .connecting := by
  cases h with
  | log link frame stream event phase hphase hphase' =>
      rcases hphase' with rfl | rfl
      · exact ReplayPhase.noConfusion
      · exact ReplayPhase.noConfusion
  | _ => exact ReplayPhase.noConfusion

theorem TaskStep.offset_eq {task task' : ReplayTask}
    {frame : Option BrokerFrame} {event : Option Event}
    (h : TaskStep task task' frame event) : task'.offset = task.offset := by
  cases h <;> rfl

/-- What is known of the task `i` at any time. -/
structure TaskInv (i : ℕ) (tr : List HomeEvent) (s : SmartHome) : Prop where
  absent : s.replays[i]? = none →
    readBy (.replay i) tr = [] ∧ replayedBy i tr = []
  counts : ∀ task, s.replays[i]? = some task →
    Counts (logsOf i tr) (replayedBy i tr) task
  fresh : ∀ task, s.replays[i]? = some task → task.phase = .connecting →
    readBy (.replay i) tr = []

theorem TaskInv.step (h : TaskInv i tr s) (hmove : TaskMove i s evs s') :
    TaskInv i (tr ++ evs) s' := by
  cases hmove with
  | aside hcore hread hevents =>
      have hlogs : logsOf i evs = [] := by rw [logsOf, hread]; rfl
      have hold : ∀ task', s'.replays[i]? = some task' →
          ∃ task, s.replays[i]? = some task ∧ task'.core = task.core := by
        intro task' htask'
        rw [htask', Option.map_some, eq_comm, Option.map_eq_some_iff] at hcore
        obtain ⟨task, htask, hsame⟩ := hcore
        exact ⟨task, htask, hsame.symm⟩
      refine ⟨fun hnone => ?_, fun task' htask' => ?_,
        fun task' htask' hphase => ?_⟩
      · rw [hnone, Option.map_none, eq_comm, Option.map_eq_none_iff] at hcore
        rw [readBy_append, replayedBy_append, hread, hevents, List.append_nil,
          List.append_nil]
        exact h.absent hcore
      · obtain ⟨task, htask, hsame⟩ := hold task' htask'
        rw [logsOf_append, replayedBy_append, hlogs, hevents, List.append_nil,
          List.append_nil]
        exact (h.counts task htask).of_core hsame
      · obtain ⟨task, htask, hsame⟩ := hold task' htask'
        rw [readBy_append, hread, List.append_nil]
        refine h.fresh task htask ?_
        rw [← hphase]
        exact (congrArg (fun core => core.2.1) hsame).symm
  | start offset hbefore hafter hread hevents =>
      obtain ⟨hnone, hnone'⟩ := h.absent hbefore
      have hreads : readBy (.replay i) (tr ++ evs) = [] := by
        rw [readBy_append, hnone, hread, List.append_nil]
      refine ⟨fun habsent => ?_, fun task' htask' => ?_, fun _ _ _ => hreads⟩
      · rw [hafter] at habsent
        cases habsent
      · rw [hafter] at htask'
        cases htask'
        have hlogs : logsOf i (tr ++ evs) = [] := by rw [logsOf, hreads]; rfl
        rw [hlogs, replayedBy_append, hnone', hevents, List.nil_append]
        exact counts_start offset
  | step task task' frame event hbefore hstep hafter hread hevents =>
      refine ⟨fun habsent => ?_, fun task'' htask'' => ?_,
        fun task'' htask'' hphase => ?_⟩
      · rw [hafter] at habsent
        cases habsent
      · rw [hafter] at htask''
        cases htask''
        rw [logsOf_append, replayedBy_append, hevents]
        have hlogs : logsOf i evs = frame.toList.filterMap replayEvent := by
          rw [logsOf, hread]
        rw [hlogs]
        exact (h.counts task hbefore).step hstep
      · rw [hafter] at htask''
        cases htask''
        exact absurd hphase hstep.not_connecting

theorem taskInv_run (h : (smartHome loads).Reaches (.init log) tr s) (i : ℕ) :
    TaskInv i tr s := by
  refine h.invariant (I := fun tr s => TaskInv i tr s)
    ⟨fun _ => ⟨rfl, rfl⟩, nofun, nofun⟩ ?_
  intro tr t a u evs ht _ hstep
  exact ht.step ((homeStep_of_eq hstep).taskMove i)

/-- A task keeps its offset. -/
theorem offset_of_move {task : ReplayTask} (hmove : TaskMove i s evs s')
    (htask : s.replays[i]? = some task) :
    ∃ task', s'.replays[i]? = some task' ∧ task'.offset = task.offset := by
  cases hmove with
  | aside hcore =>
      rw [htask, Option.map_some, Option.map_eq_some_iff] at hcore
      obtain ⟨task', htask', hsame⟩ := hcore
      exact ⟨task', htask', congrArg Prod.fst hsame⟩
  | start offset hbefore =>
      rw [htask] at hbefore
      cases hbefore
  | step task₀ task' frame event hbefore hstep hafter =>
      rw [htask] at hbefore
      cases hbefore
      exact ⟨task', hafter, hstep.offset_eq⟩

/-! ## What a replay reads -/

/-- The request of a replay asks for its offset. -/
theorem replayRequest_eq_ok {request : Bytes}
    (h : replayRequest offset = .ok request) :
    ∃ msg : Message, msg.OnWire ∧ request = msg.frame ∧
      msg.command = cmdTimeTravel ∧ msg.payload.length = 8 ∧
        timeTravelOffset msg.payload = some offset.toNat := by
  obtain ⟨hnonneg, hlt⟩ := replayRequest_eq_ok_iff.mp ⟨request, h⟩
  have hlength := length_bigEndian 8 offset.toNat
  rw [replayRequest, Client.packUInt_eight hnonneg hlt, Client.ok_bind] at h
  have hencoded : Message.encoded ⟨cmdTimeTravel, topicHash "home/fire", 0,
      bigEndian 8 offset.toNat⟩ = .ok request := h
  obtain ⟨hwire, hframe⟩ := Message.encoded_eq_ok.mp hencoded
  refine ⟨_, hwire, hframe, rfl, hlength, ?_⟩
  rw [timeTravelOffset, if_neg (by rw [hlength]; decide),
    List.take_of_length_le hlength.le, ofBigEndian_bigEndian_of_lt (by omega)]

/-- The connection of a replay whose request was read when the log was `log₀`,
and `since` has happened at the broker: the frames read and those on their way
are what the broker has sent. -/
structure ServedLink (i : ℕ) (offset : ℤ) (log₀ : Bytes)
    (since : List BrokerEvent) (tr : List HomeEvent) (b : BrokerServer)
    (c : ClientId) (link : Link) : Prop where
  client : link.client = some c
  requests : link.requests = []
  unsubscribed : Unsubscribed c b
  served : Served log₀ offset.toNat c since b
  stream : ∃ fs coming, readBy (.replay i) tr = fs.map .ofFrame ∧
    link.stream = coming.flatten ∧
      fs ++ coming = (replayedTo c since).map Prod.fst

/-- The connection of a replay: it waits to be accepted, it waits for the
request to be read, or the frames of the log come on it. -/
inductive ReplayLink (i : ℕ) (offset : ℤ) (tr : List HomeEvent)
    (b : BrokerServer) : Link → Prop
  | waiting (request : Bytes) (hrequest : replayRequest offset = .ok request)
      (hread : readBy (.replay i) tr = []) :
      ReplayLink i offset tr b (.dial request)
  | accepted (c : ClientId) (request : Bytes)
      (hrequest : replayRequest offset = .ok request)
      (hread : readBy (.replay i) tr = []) (hunsubscribed : Unsubscribed c b)
      (hquiet : b.replayOf c = none) :
      ReplayLink i offset tr b ⟨some c, request, []⟩
  | served (log₀ : Bytes) (since : List BrokerEvent) (c : ClientId)
      (link : Link)
      (hserved : ServedLink i offset log₀ since tr b c link) :
      ReplayLink i offset tr b link

section Reads

variable {b b' : BrokerServer} {a : BrokerAction}
  {bevs since : List BrokerEvent} {log₀ : Bytes} {frame : BrokerFrame}
  {stream : Bytes}

theorem readBy_quiet (hread : readBy (.replay i) evs = []) :
    readBy (.replay i) (tr ++ evs) = readBy (.replay i) tr := by
  rw [readBy_append, hread, List.append_nil]

/-- Nobody but the client itself subscribes it or starts a replay for it. -/
theorem asks_nothing (hstep : BrokerStep b a b' bevs)
    (hother : ∀ msg, a ≠ .receive c msg) :
    (∀ msg, a = .receive c msg → msg.command ≠ cmdTimeTravel) ∧
      ∀ topic, .subscribed c topic ∉ bevs := by
  refine ⟨fun msg ha => absurd ha (hother msg), fun topic hmem => ?_⟩
  obtain ⟨msg, ha, -⟩ := subscribed_step hstep hmem
  exact hother msg ha

theorem ServedLink.same (h : ServedLink i offset log₀ since tr b c link)
    (hread : readBy (.replay i) evs = []) :
    ServedLink i offset log₀ since (tr ++ evs) b c link := by
  obtain ⟨fs, coming, hfs, hstream, hsent⟩ := h.stream
  exact ⟨h.client, h.requests, h.unsubscribed, h.served, fs, coming,
    (readBy_quiet hread).trans hfs, hstream, hsent⟩

/-- A frame is read off the connection. -/
theorem ServedLink.read (h : ServedLink i offset log₀ since tr b c link)
    (hread : readBy (.replay i) evs = [frame])
    (hone : readOne link.stream = .ok (some (frame, stream))) :
    ServedLink i offset log₀ since (tr ++ evs) b c { link with stream } := by
  obtain ⟨fs, coming, hfs, hstream, hsent⟩ := h.stream
  have hframes : ∀ f ∈ coming, wire.IsFrame f := fun f hf =>
    h.served.frames.1 f (hsent ▸ List.mem_append_right fs hf)
  rw [hstream] at hone
  obtain ⟨f, coming', rfl, rfl, rfl⟩ := readOne_flatten hframes hone
  refine ⟨h.client, h.requests, h.unsubscribed, h.served, fs ++ [f], coming',
    ?_, rfl, ?_⟩
  · rw [readBy_append, hfs, hread, List.map_append]
    rfl
  · rw [List.append_assoc]
    exact hsent

/-- A step of the broker in which it does not read from the client. -/
theorem ServedLink.broker (h : ServedLink i offset log₀ since tr b c link)
    (hok : b.HandlersOk) (hstep : BrokerStep b a b' bevs)
    (hread : readBy (.replay i) evs = [])
    (hother : ∀ msg, a ≠ .receive c msg) :
    ServedLink i offset log₀ (since ++ bevs) (tr ++ evs) b' c
      (link.gain bevs) := by
  obtain ⟨fs, coming, hfs, hstream, hsent⟩ := h.stream
  obtain ⟨hask, hnever⟩ := asks_nothing hstep hother
  obtain ⟨hunsubscribed, hwritten⟩ := h.unsubscribed.step hstep hnever
  refine ⟨(link.client_gain bevs).trans h.client,
    (link.requests_gain bevs).trans h.requests, hunsubscribed,
    h.served.step hok hstep hask, fs,
    coming ++ (replayedTo c bevs).map Prod.fst,
    (readBy_quiet hread).trans hfs, ?_, ?_⟩
  · rw [Link.stream_gain h.client, hstream, streamTo,
      chunksTo_eq_replayedTo hwritten, List.flatten_append]
  · rw [← List.append_assoc, hsent, replayedTo_append, List.map_append]

theorem ReplayLink.same (h : ReplayLink i offset tr b link)
    (hread : readBy (.replay i) evs = []) :
    ReplayLink i offset (tr ++ evs) b link := by
  have hreads : readBy (.replay i) (tr ++ evs) = readBy (.replay i) tr :=
    readBy_quiet hread
  cases h with
  | waiting request hrequest hnone =>
      exact .waiting request hrequest (hreads.trans hnone)
  | accepted c request hrequest hnone hunsubscribed hquiet =>
      exact .accepted c request hrequest (hreads.trans hnone) hunsubscribed
        hquiet
  | served log₀ since c _ hserved =>
      exact .served log₀ since c _ (hserved.same hread)

theorem ReplayLink.read (h : ReplayLink i offset tr b link)
    (hread : readBy (.replay i) evs = [frame])
    (hone : readOne link.stream = .ok (some (frame, stream))) :
    ReplayLink i offset (tr ++ evs) b { link with stream } := by
  have hempty : readOne [] ≠ .ok (some (frame, stream)) := by
    rw [readOne_of_not_hasFrame Framing.not_hasFrame_nil]
    exact nofun
  cases h with
  | waiting request hrequest hnone => exact absurd hone hempty
  | accepted c request hrequest hnone => exact absurd hone hempty
  | served log₀ since c _ hserved =>
      exact .served log₀ since c _ (hserved.read hread hone)

theorem ReplayLink.broker (h : ReplayLink i offset tr b link)
    (hok : b.HandlersOk) (hstep : BrokerStep b a b' bevs)
    (hread : readBy (.replay i) evs = [])
    (hother : ∀ c msg, link.client = some c → a ≠ .receive c msg) :
    ReplayLink i offset (tr ++ evs) b' (link.gain bevs) := by
  have hreads : readBy (.replay i) (tr ++ evs) = readBy (.replay i) tr :=
    readBy_quiet hread
  cases h with
  | waiting request hrequest hnone =>
      rw [Link.gain_of_none rfl]
      exact .waiting request hrequest (hreads.trans hnone)
  | accepted c request hrequest hnone hunsubscribed hidle =>
      obtain ⟨hask, hnever⟩ := asks_nothing hstep fun msg => hother c msg rfl
      obtain ⟨hunsubscribed', hwritten⟩ := hunsubscribed.step hstep hnever
      obtain ⟨hidle', hreplayed⟩ := quiet_step hstep hidle hask
      have hstream : streamTo c bevs = [] := by
        rw [streamTo, chunksTo_eq_replayedTo hwritten, hreplayed]
        rfl
      have hgain : (Link.mk (some c) request []).gain bevs =
          ⟨some c, request, []⟩ := by
        simp only [Link.gain, hstream, List.append_nil]
      rw [hgain]
      exact .accepted c request hrequest (hreads.trans hnone) hunsubscribed'
        hidle'
  | served log₀ since c _ hserved =>
      exact .served log₀ (since ++ bevs) c _
        (hserved.broker hok hstep hread fun msg => hother c msg hserved.client)

/-- The connection is accepted. -/
theorem ReplayLink.accept {btr : List BrokerEvent}
    (h : ReplayLink i offset tr b link)
    (hrun : Broker.broker.Reaches (.init log) btr b)
    (hstep : BrokerStep b .connect b' bevs)
    (hread : readBy (.replay i) evs = []) (hnew : link.client = none) :
    ReplayLink i offset (tr ++ evs) b'
      { link with client := some b.handlers.length } := by
  cases h with
  | accepted => cases hnew
  | served log₀ since c _ hserved =>
      rw [hserved.client] at hnew
      cases hnew
  | waiting request hrequest hnone =>
      have hnever : ∀ topic, .subscribed b.handlers.length topic ∉ bevs := by
        intro topic hmem
        obtain ⟨msg, ha, -⟩ := subscribed_step hstep hmem
        cases ha
      obtain ⟨hunsubscribed, -⟩ :=
        (unsubscribed_of_le hrun le_rfl).step hstep hnever
      obtain ⟨hquiet, -⟩ := quiet_step hstep (replayOf_of_le le_rfl) nofun
      refine .accepted _ request hrequest ?_ hunsubscribed hquiet
      rw [readBy_append, hread, hnone, List.append_nil]

/-- The broker reads the request. -/
theorem ReplayLink.deliver {msg : Message} {requests : Bytes}
    (h : ReplayLink i offset tr b link)
    (hstep : BrokerStep b (.receive c msg) b' bevs)
    (hread : readBy (.replay i) evs = []) (hclient : link.client = some c)
    (hrequest : readMessage link.requests = .ok (msg, requests)) :
    ServedLink i offset b.log [] (tr ++ evs) b' c
      ({ link with requests }.gain bevs) := by
  cases h with
  | waiting => cases hclient
  | served log₀ since c _ hserved =>
      rw [hserved.requests,
        readMessage_of_not_hasFrame Framing.not_hasFrame_nil] at hrequest
      cases hrequest
  | accepted c' request hasked hnone hunsubscribed hquiet =>
      cases hclient
      obtain ⟨msg', hwire, rfl, hcommand, hlength, hoffset⟩ :=
        replayRequest_eq_ok hasked
      have hfirst : readMessage msg'.frame = .ok (msg', []) :=
        readMessage_eq_ok.mpr ⟨hwire, (List.append_nil _).symm⟩
      rw [hfirst] at hrequest
      cases hrequest
      have hstays : .unregistered c ∉ bevs := by
        cases hstep with
        | tooLarge _ _ _ hsize =>
            rw [hlength] at hsize
            exact absurd hsize (by decide)
        | _ => simp
      have hnever : ∀ topic, .subscribed c topic ∉ bevs := by
        intro topic hmem
        obtain ⟨m, ha, hsubscribe⟩ := subscribed_step hstep hmem
        cases ha
        rw [hcommand] at hsubscribe
        cases hsubscribe
      obtain ⟨hreplaying, hlog, rfl⟩ :=
        replayingFrom_receive hcommand hoffset hstep hstays
      obtain ⟨hunsubscribed', -⟩ := hunsubscribed.step hstep hnever
      refine ⟨rfl, rfl, hunsubscribed', ?_, [], [], ?_, rfl, rfl⟩
      · rw [← hlog]
        exact served_start hreplaying
      · rw [readBy_quiet hread, hnone]
        rfl

end Reads

/-- What is known of the connection of the replay `i` at any time. -/
structure ReplayConnection (i : ℕ) (tr : List HomeEvent) (s : SmartHome) :
    Prop where
  absent : s.linkOf (.replay i) = none → readBy (.replay i) tr = []
  linked : ∀ link, s.linkOf (.replay i) = some link →
    ∃ task, s.replays[i]? = some task ∧
      ReplayLink i task.offset tr s.broker link

theorem ReplayConnection.step (h : ReplayConnection i tr s)
    (hrun : (smartHome loads).Reaches (.init log) tr s)
    (hstep : HomeStep loads s s' evs) :
    ReplayConnection i (tr ++ evs) s' := by
  have hbroker := brokerIn_run hrun
  have hmove := hstep.linkMove (clients_run hrun) (.replay i)
  have htasks := hstep.taskMove i
  -- a connection that has taken its step belongs to the same task
  have hsome : ∀ {link'}, s'.linkOf (.replay i) = some link' →
      (∃ task, s.replays[i]? = some task ∧
        ReplayLink i task.offset (tr ++ evs) s'.broker link') →
      ReplayConnection i (tr ++ evs) s' := by
    rintro link' hlink' ⟨task, htask, hreplay⟩
    obtain ⟨task', htask', hsame⟩ := offset_of_move htasks htask
    refine ⟨fun hnone => ?_, fun link'' hlink'' => ?_⟩
    · rw [hlink'] at hnone
      cases hnone
    · rw [hlink'] at hlink''
      cases hlink''
      exact ⟨task', htask', hsame ▸ hreplay⟩
  have hnone : s.linkOf (.replay i) = none → s'.linkOf (.replay i) = none →
      readBy (.replay i) evs = [] → ReplayConnection i (tr ++ evs) s' := by
    intro hbefore hafter hread
    refine ⟨fun _ => ?_, fun link hlink => ?_⟩
    · rw [readBy_append, h.absent hbefore, hread, List.append_nil]
    · rw [hafter] at hlink
      cases hlink
  have hbrokerStep : ∀ {a}, observed.step s.broker a =
      some (s'.broker, observationsIn evs) →
        BrokerStep s.broker a s'.broker (brokerIn evs) := fun ha =>
    BrokerServer.step_of_eq (broker_step_of_observed ha)
  cases hmove with
  | aside hsame hevs hread hlink =>
      cases hbefore : s.linkOf (.replay i) with
      | none => exact hnone hbefore (hlink.trans hbefore) hread
      | some link =>
          obtain ⟨task, htask, hreplay⟩ := h.linked link hbefore
          refine hsome (hlink.trans hbefore) ⟨task, htask, ?_⟩
          rw [hsame]
          exact hreplay.same hread
  | drop hsame hevs hread hproxy => cases hproxy
  | dial request hsame hevs hread hopening hlink =>
      cases hopening with
      | replay _ task _ htask hphase hrequest =>
          refine hsome hlink ⟨task, htask, .waiting request hrequest ?_⟩
          rw [readBy_append, (taskInv_run hrun i).fresh task htask hphase,
            hread, List.append_nil]
  | read link frame stream hsame hevs hread hbefore hstream hlink =>
      obtain ⟨task, htask, hreplay⟩ := h.linked link hbefore
      refine hsome hlink ⟨task, htask, ?_⟩
      rw [hsame]
      exact hreplay.read hread hstream
  | broker a hb hread hother hlink =>
      cases hbefore : s.linkOf (.replay i) with
      | none =>
          rw [hbefore] at hlink
          exact hnone hbefore hlink hread
      | some link =>
          obtain ⟨task, htask, hreplay⟩ := h.linked link hbefore
          rw [hbefore, Option.map_some] at hlink
          refine hsome hlink ⟨task, htask, ?_⟩
          refine hreplay.broker (handlersOk_run hbroker) (hbrokerStep hb)
            hread ?_
          exact fun c msg hc =>
            hother c msg ((SmartHome.clientOf_of hbefore).trans hc)
  | accept link hb hread hbefore hnew hlink =>
      obtain ⟨task, htask, hreplay⟩ := h.linked link hbefore
      exact hsome hlink ⟨task, htask,
        hreplay.accept hbroker (hbrokerStep hb) hread hnew⟩
  | deliver link c msg requests hb hread hbefore hclient hrequest hlink =>
      obtain ⟨task, htask, hreplay⟩ := h.linked link hbefore
      exact hsome hlink ⟨task, htask, .served _ _ c _
        (hreplay.deliver (hbrokerStep hb) hread hclient hrequest)⟩

theorem replayConnection_run (h : (smartHome loads).Reaches (.init log) tr s)
    (i : ℕ) : ReplayConnection i tr s := by
  induction h with
  | nil => exact ⟨fun _ => rfl, fun link hlink => by cases hlink⟩
  | snoc hrun _ hstep ih => exact ih.step hrun (homeStep_of_eq hstep)

/-- The frames that a replay reads are the first of the log behind its
offset. -/
theorem read_isPrefix_log (h : (smartHome loads).Reaches (.init log) tr s)
    {task : ReplayTask} (htask : s.replays[i]? = some task) :
    readBy (.replay i) tr <+:
      (wire.parse (s.broker.log.drop task.offset.toNat)).map .ofFrame := by
  have hconnection := replayConnection_run h i
  cases hlink : s.linkOf (.replay i) with
  | none =>
      rw [hconnection.absent hlink]
      exact List.nil_prefix
  | some link =>
      obtain ⟨task', htask', hreplay⟩ := hconnection.linked link hlink
      rw [htask] at htask'
      cases htask'
      cases hreplay with
      | waiting request hrequest hnone =>
          rw [hnone]
          exact List.nil_prefix
      | accepted c request hrequest hnone =>
          rw [hnone]
          exact List.nil_prefix
      | served log₀ since c _ hserved =>
          obtain ⟨fs, coming, hfs, -, hsent⟩ := hserved.stream
          have hprefix := hserved.served.frames.2
          rw [← hsent] at hprefix
          rw [hfs]
          exact ((List.prefix_append fs coming).trans hprefix).map _

/-- A client has published a fire, and a replay of the whole log waits for its
request to be read. -/
def fireAsked : List HomeAction :=
  [.broker .connect,
    .broker (.receive 0
      ⟨cmdPublish, topicHash "home/fire", 3, [70, 73, 82, 69]⟩),
    .broker (.tell 0), .broker (.write 0), .broker (.resume 0), .travel 0,
    .replay 0 (.connect true), .accept (.replay 0),
    .replay 0 (.drained true), .replay 0 .test]

/-- The log is sent, and its only frame read. -/
def fireReplayed : List HomeAction :=
  [.broker (.readLog 1), .broker (.readLog 1), .broker (.readLog 1),
    .broker (.readLog 1), .broker (.replayWrite 1),
    .broker (.replayDrain 1 true), .broker (.readLog 1), .broker (.readLog 1),
    .broker (.readLog 1), .replay 0 .read, .replay 0 .test]

/-- At any time a replay has broadcast the events of the first frames that the
log holds behind its offset, at most 500, and if it is over it may have said how
many they are. -/
theorem replay_shows_log (h : (smartHome loads).Reaches (.init log) tr s)
    {task : ReplayTask} (htask : s.replays[i]? = some task) :
    ∃ shown,
      shown <+: (wire.parse (s.broker.log.drop task.offset.toNat)).filterMap
        (fun frame => replayEvent (.ofFrame frame)) ∧
      shown.length ≤ maxReplay ∧
      (replayedBy i tr = shown ∨ (task.phase = .finished ∧
        replayedBy i tr = shown ++ [.timeTravelDone shown.length])) := by
  have hcounts := (taskInv_run h i).counts task htask
  refine ⟨logsOf i tr, ?_, ?_, hcounts.events⟩
  · have hprefix := (read_isPrefix_log h htask).filterMap replayEvent
    rw [List.filterMap_map] at hprefix
    exact hprefix
  · rw [← hcounts.replayed]
    exact hcounts.bounded

theorem replay_shows_log_fire : ∃ tr s task shown,
    (smartHome fun _ => none).Reaches (.init none) tr s ∧
    s.replays[0]? = some task ∧ replayedBy 0 tr = shown ∧ shown ≠ [] ∧
    shown <+: (wire.parse (s.broker.log.drop task.offset.toNat)).filterMap
      (fun frame => replayEvent (.ofFrame frame)) := by
  have hexec : ((smartHome fun _ => none).exec (fun _ _ => True) (.init none)
      (fireAsked ++ .deliver (.replay 0) :: fireReplayed)).any (fun r =>
        !(replayedBy 0 r.2).isEmpty && r.1.replays[0]?.any fun task =>
          decide (task.phase = .reading)) = true := by
    decide +kernel
  obtain ⟨⟨s, tr⟩, hrun, hall⟩ := (Option.any_eq_true _ _).mp hexec
  simp only [Bool.and_eq_true, Bool.not_eq_true', List.isEmpty_eq_false_iff,
    Option.any_eq_true, decide_eq_true_eq] at hall
  obtain ⟨hsome, task, htask, hphase⟩ := hall
  have h := System.exec_run _ hrun
  obtain ⟨shown, hprefix, -, hshown | ⟨hfinished, -⟩⟩ :=
    replay_shows_log h htask
  · exact ⟨tr, s, task, shown, h, htask, hshown, hshown ▸ hsome, hprefix⟩
  · rw [hphase] at hfinished
    cases hfinished

/-! ## Nothing is left out -/

/-- A task that has not connected yet has no connection. -/
def Unlinked (s : SmartHome) : Prop :=
  ∀ (i : ℕ) (task : ReplayTask), s.replays[i]? = some task →
    task.phase = .connecting → task.link = none

theorem Unlinked.setLink (h : Unlinked s) {id : LinkId}
    (hlink : s.linkOf id = some link) (link' : Link) :
    Unlinked (s.setLink link' id) := by
  cases id with
  | proxy => exact h
  | replay j =>
      intro i task htask hphase
      simp only [SmartHome.setLink, List.getElem?_modify,
        Option.map_eq_map, Option.map_eq_some_iff] at htask
      obtain ⟨task₀, htask₀, rfl⟩ := htask
      by_cases hij : j = i
      · subst hij
        rw [if_pos rfl] at hphase
        have hnone := h j task₀ htask₀ hphase
        rw [SmartHome.linkOf, htask₀, Option.bind_some, hnone] at hlink
        cases hlink
      · rw [if_neg hij] at hphase ⊢
        exact h i task₀ htask₀ hphase

theorem Unlinked.afterBroker (h : Unlinked s) (broker : BrokerServer)
    (obs : List Observation) : Unlinked (s.afterBroker broker obs) := by
  intro i task htask hphase
  simp only [SmartHome.afterBroker, List.getElem?_map,
    Option.map_eq_some_iff] at htask
  obtain ⟨task₀, htask₀, rfl⟩ := htask
  exact Option.map_eq_none_iff.mpr (h i task₀ htask₀ hphase)

theorem Unlinked.step (h : Unlinked s) (hstep : HomeStep loads s s' evs) :
    Unlinked s' := by
  cases hstep with
  | broker a broker obs => exact h.afterBroker broker obs
  | accept id link broker obs hlink =>
      exact (h.setLink hlink _).afterBroker broker obs
  | deliver id link c msg requests broker obs hlink =>
      exact (h.setLink hlink _).afterBroker broker obs
  | dashboard a dashboard hevs => exact h
  | dial frames dashboard hevs => exact h
  | read link frame stream dashboard hevs => exact h
  | travel offset _ _ hbroadcast =>
      intro i task htask hphase
      rw [(SmartHome.broadcasts hbroadcast).replays] at htask
      rcases List.mem_append.mp (List.mem_of_getElem? htask) with hold | hnew
      · obtain ⟨j, hj⟩ := List.mem_iff_getElem?.mp hold
        exact h j task hj hphase
      · rw [List.mem_singleton.mp hnew]
        rfl
  | replay j a task' task'' frame event _ _ htask' hstep hbroadcast =>
      intro i task htask hphase
      rw [(SmartHome.broadcasts hbroadcast).replays] at htask
      by_cases hij : j = i
      · subst hij
        rw [List.getElem?_set_self
          (List.getElem?_eq_some_iff.mp htask').1] at htask
        cases htask
        exact absurd hphase (ReplayTask.step_of_eq hstep).not_connecting
      · rw [List.getElem?_set_ne hij] at htask
        exact h i task htask hphase

theorem unlinked_run (h : (smartHome loads).Reaches (.init log) tr s) :
    Unlinked s := by
  refine h.invariant (I := fun _ s => Unlinked s) ?_ ?_
  · intro i task htask
    cases htask
  · intro tr t a u evs ht _ hstep
    exact ht.step (homeStep_of_eq hstep)

/-- The connection of a replay whose request has been read, through a step. -/
theorem ServedLink.step {log₀ : Bytes} {since : List BrokerEvent}
    (h : ServedLink i offset log₀ since tr s.broker c link)
    (hrun : (smartHome loads).Reaches (.init log) tr s)
    (hlink : s.linkOf (.replay i) = some link)
    (hmove : LinkMove (.replay i) s evs s') :
    ∃ link', s'.linkOf (.replay i) = some link' ∧
      ServedLink i offset log₀ (since ++ brokerIn evs) (tr ++ evs) s'.broker c
        link' := by
  have hquiet : observationsIn evs = [] → brokerIn evs = [] := fun hevs => by
    rw [brokerIn, hevs]
    rfl
  cases hmove with
  | aside hsame hevs hread hafter =>
      refine ⟨link, hafter.trans hlink, ?_⟩
      rw [hsame, hquiet hevs, List.append_nil]
      exact h.same hread
  | drop hsame hevs hread hproxy => cases hproxy
  | dial request hsame hevs hread hopening =>
      cases hopening with
      | replay _ task _ htask hphase =>
          have hnone := unlinked_run hrun i task htask hphase
          rw [SmartHome.linkOf, htask, Option.bind_some, hnone] at hlink
          cases hlink
  | read link' frame stream hsame hevs hread hbefore hone hafter =>
      rw [hlink] at hbefore
      cases hbefore
      refine ⟨_, hafter, ?_⟩
      rw [hsame, hquiet hevs, List.append_nil]
      exact h.read hread hone
  | broker a hb hread hother hafter =>
      rw [hlink, Option.map_some] at hafter
      have hstep := BrokerServer.step_of_eq (broker_step_of_observed hb)
      refine ⟨_, hafter, h.broker (handlersOk_run (brokerIn_run hrun)) hstep
        hread fun msg => ?_⟩
      exact hother c msg ((SmartHome.clientOf_of hlink).trans h.client)
  | accept link' hb hread hbefore hnew =>
      rw [hlink] at hbefore
      cases hbefore
      rw [h.client] at hnew
      cases hnew
  | deliver link' c' msg requests hb hread hbefore hclient hrequest =>
      rw [hlink] at hbefore
      cases hbefore
      rw [h.requests,
        readMessage_of_not_hasFrame Framing.not_hasFrame_nil] at hrequest
      cases hrequest

theorem ServedLink.run {log₀ : Bytes} {task : ReplayTask}
    {later : List HomeEvent}
    (h : ServedLink i task.offset log₀ [] tr s.broker c link)
    (hrun : (smartHome loads).Reaches (.init log) tr s)
    (htask : s.replays[i]? = some task)
    (hlink : s.linkOf (.replay i) = some link)
    (hlater : (smartHome loads).Reaches s later s') :
    ∃ task' link', s'.replays[i]? = some task' ∧
      task'.offset = task.offset ∧ s'.linkOf (.replay i) = some link' ∧
      ServedLink i task.offset log₀ (brokerIn later) (tr ++ later) s'.broker c
        link' := by
  induction hlater with
  | nil =>
      refine ⟨task, link, htask, rfl, hlink, ?_⟩
      rw [List.append_nil]
      exact h
  | @snoc t u later evs a hbefore _ hstep ih =>
      obtain ⟨task₁, link₁, htask₁, hoffset₁, hlink₁, hserved₁⟩ := ih
      have hrun₁ := hrun.trans hbefore
      obtain ⟨task₂, htask₂, hoffset₂⟩ :=
        offset_of_move ((homeStep_of_eq hstep).taskMove i) htask₁
      obtain ⟨link₂, hlink₂, hserved₂⟩ :=
        hserved₁.step hrun₁ hlink₁ (linkMove_of_step hrun₁ hstep _)
      refine ⟨task₂, link₂, htask₂, hoffset₂.trans hoffset₁, hlink₂, ?_⟩
      rw [brokerIn_append, ← List.append_assoc]
      exact hserved₂

/-- A replay whose request the broker has read, and which has read everything
that came on its connection until the broker was done with it, has read the
whole log from its offset on, as it was at some time behind the request. -/
theorem replay_reads_all {s₁ s₂ : SmartHome} {later : List HomeEvent}
    {task : ReplayTask}
    (h : (smartHome loads).Reaches (.init log) tr s)
    (hask : (smartHome loads).step s (.deliver (.replay i)) = some (s₁, evs))
    (hlater : (smartHome loads).Reaches s₁ later s₂)
    (htask : s₂.replays[i]? = some task) (hlink : task.link = some link)
    (hclient : link.client = some c) (hdrained : link.stream = [])
    (hended : s₂.broker.replayOf c = none)
    (hfine : .replayFailed c ∉ brokerIn later) :
    ∃ content, s.broker.log <+: content ∧ content <+: s₂.broker.log ∧
      readBy (.replay i) (tr ++ evs ++ later) =
        (wire.parse (content.drop task.offset.toNat)).map .ofFrame := by
  have hask' : homeStep loads s (.deliver (.replay i)) = some (s₁, evs) := hask
  obtain ⟨link₀, c₀, msg, requests, hbefore, hclient₀, hrequest, hbstep,
    hread, hafter⟩ := deliver_eq_some hask'
  obtain ⟨task₀, htask₀, hreplay⟩ := (replayConnection_run h i).linked _ hbefore
  have hserved := hreplay.deliver (BrokerServer.step_of_eq hbstep) hread
    hclient₀ hrequest
  have hrun₁ : (smartHome loads).Reaches (.init log) (tr ++ evs) s₁ :=
    h.snoc trivial hask
  obtain ⟨task₁, htask₁, hsame₁⟩ :=
    offset_of_move (HomeStep.taskMove (homeStep_of_eq hask') i) htask₀
  rw [← hsame₁] at hserved
  obtain ⟨task₂, link₂, htask₂, hsame₂, hlink₂, hserved₂⟩ :=
    hserved.run hrun₁ htask₁ hafter hlater
  rw [htask] at htask₂
  cases htask₂
  rw [SmartHome.linkOf, htask, Option.bind_some, hlink] at hlink₂
  cases hlink₂
  have hc : c₀ = c := Option.some.inj (hserved₂.client.symm.trans hclient)
  subst hc
  obtain ⟨fs, coming, hfs, hstream, hsent⟩ := hserved₂.stream
  have hnone : coming = [] := by
    refine List.eq_nil_iff_forall_not_mem.mpr fun f hf => ?_
    have hframe := hserved₂.served.frames.1 f
      (hsent ▸ List.mem_append_right fs hf)
    have hempty := List.flatten_eq_nil_iff.mp (hstream.symm.trans hdrained) f hf
    have hpos := hframe.length_pos
    rw [hempty] at hpos
    exact absurd hpos (lt_irrefl 0)
  rcases hserved₂.served.ended hended with hfailed | ⟨content, hold, hnow, hall⟩
  · exact absurd hfailed hfine
  · refine ⟨content, hold, hnow, ?_⟩
    rw [hnone, List.append_nil, hall, Framing.map_fst_locate] at hsent
    rw [hfs, hsent, hsame₂]

theorem replay_reads_all_fire : ∃ (s s₂ : SmartHome) (tr : List HomeEvent)
    (content : Bytes) (task : ReplayTask),
    (smartHome fun _ => none).Reaches (.init none) tr s₂ ∧
    s₂.replays[0]? = some task ∧ s.broker.log <+: content ∧
    s.broker.log ≠ [] ∧ content <+: s₂.broker.log ∧
    readBy (.replay 0) tr =
      (wire.parse (content.drop task.offset.toNat)).map .ofFrame := by
  have hexec : ((smartHome fun _ => none).exec (fun _ _ => True) (.init none)
      fireAsked).any (fun r => !r.1.broker.log.isEmpty &&
        ((smartHome fun _ => none).step r.1 (.deliver (.replay 0))).any
          fun r₁ => ((smartHome fun _ => none).exec (fun _ _ => True) r₁.1
            fireReplayed).any fun r₂ =>
              decide (r₂.1.broker.replayOf 1 = none) &&
              decide (.replayFailed 1 ∉ brokerIn r₂.2) &&
              r₂.1.replays[0]?.any fun task => task.link.any fun link =>
                decide (link.client = some 1) && link.stream.isEmpty) =
                  true := by
    decide +kernel
  obtain ⟨⟨s, tr⟩, hrun, hall⟩ := (Option.any_eq_true _ _).mp hexec
  rw [Bool.and_eq_true, Bool.not_eq_true', List.isEmpty_eq_false_iff] at hall
  obtain ⟨hlog, hany⟩ := hall
  obtain ⟨⟨s₁, evs⟩, hask, hany⟩ := (Option.any_eq_true _ _).mp hany
  obtain ⟨⟨s₂, later⟩, hrun', hall⟩ := (Option.any_eq_true _ _).mp hany
  simp only [Bool.and_eq_true, decide_eq_true_eq, Option.any_eq_true,
    List.isEmpty_iff] at hall
  obtain ⟨⟨hended, hfine⟩, task, htask, link, hlink, hclient, hdrained⟩ := hall
  have h := System.exec_run _ hrun
  have hlater := System.exec_run _ hrun'
  obtain ⟨content, hold, hnow, hread⟩ := replay_reads_all h hask hlater htask
    hlink hclient hdrained hended hfine
  exact ⟨s, s₂, _, content, task, (h.snoc trivial hask).trans hlater, htask,
    hold, hlog, hnow, hread⟩

end SentinelHub.Home
