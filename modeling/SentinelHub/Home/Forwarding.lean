import SentinelHub.Broker.ReplayClient
import SentinelHub.Home.LinkMoves

/-!
# What the proxy forwards

The proxy loses its connection at any time and opens a new one, under a new
client number, while the router is in the middle of a fan-out and frames are on
their way.  Nevertheless the frames it reads over all its connections are some
of those the router has handed over, in the order of the hand-overs, none of
them twice.

The invariant follows the frames backwards from the proxy: what it has read,
what is on its way to it, and what the fan-out under way may still write to it,
are together a part of what has been handed over.  A new connection begins with
nothing on its way, and since its number is new the fan-out under way can write
to it only what it has written to nobody yet.
-/

namespace SentinelHub.Home

open Support Broker Dashboard

variable {loads : List Char → Option Json} {s s' : SmartHome}
  {tr evs : List HomeEvent} {c d : ClientId} {link : Link} {log : Option Bytes}

/-! ## Requests on their way -/

/-- The bytes spell subscriptions. -/
def Subscribing (requests : Bytes) : Prop :=
  ∃ msgs : List Message, requests = (msgs.map Message.frame).flatten ∧
    ∀ msg ∈ msgs, msg.OnWire ∧ msg.command = cmdSubscribe

theorem Subscribing.read {requests rest : Bytes} {msg : Message}
    (h : Subscribing requests)
    (hread : readMessage requests = .ok (msg, rest)) :
    msg.command = cmdSubscribe ∧ Subscribing rest := by
  obtain ⟨msgs, rfl, hmsgs⟩ := h
  cases msgs with
  | nil => cases hread
  | cons m msgs =>
      rw [List.forall_mem_cons] at hmsgs
      have hfirst : readMessage ((m :: msgs).map Message.frame).flatten =
          .ok (m, (msgs.map Message.frame).flatten) :=
        readMessage_eq_ok.mpr ⟨hmsgs.1.1, rfl⟩
      rw [hfirst] at hread
      cases hread
      exact ⟨hmsgs.1.2, msgs, rfl, hmsgs.2⟩

/-- The frames of a list of topics. -/
theorem subscribing_of_mapM {topics : List String} {frames : List Bytes}
    (h : topics.mapM (fun topic => encode cmdSubscribe (topicHash topic) 0 []) =
      .ok frames) : Subscribing frames.flatten := by
  induction topics generalizing frames with
  | nil =>
      cases h
      exact ⟨[], rfl, by simp⟩
  | cons topic topics ih =>
      have hcommand : (0 : ℤ) ≤ cmdSubscribe ∧ (cmdSubscribe : ℤ) < 2 ^ 8 := by
        decide
      have hempty : ([] : Bytes).length < 2 ^ 32 := by decide
      have hwire : Message.OnWire ⟨cmdSubscribe, topicHash topic, 0, []⟩ :=
        ⟨hcommand, topicHash_inRange topic,
          show (0 : ℤ) ≤ 0 ∧ (0 : ℤ) < 2 ^ 8 by decide, hempty⟩
      have hencoded : encode cmdSubscribe (topicHash topic) 0 [] =
          .ok (Message.frame ⟨cmdSubscribe, topicHash topic, 0, []⟩) :=
        hwire.encoded
      rw [List.mapM_cons, hencoded] at h
      cases hrest : topics.mapM
          (fun topic => encode cmdSubscribe (topicHash topic) 0 []) with
      | error e =>
          rw [hrest] at h
          cases h
      | ok frames' =>
          rw [hrest] at h
          cases h
          obtain ⟨msgs, hflat, hmsgs⟩ := ih hrest
          refine ⟨⟨cmdSubscribe, topicHash topic, 0, []⟩ :: msgs, ?_, ?_⟩
          · rw [List.flatten_cons, hflat, List.map_cons, List.flatten_cons]
          · exact List.forall_mem_cons.mpr ⟨⟨hwire, rfl⟩, hmsgs⟩

/-! ## What a fan-out may still write -/

/-- To a client that it has not looked up, the fan-out under way may write only
what it may write to everybody. -/
theorem due_of_not_target {worker : Worker} (hc : c ∉ worker.targets)
    (d : ClientId) : (worker.due c).Sublist (worker.due d) := by
  cases worker with
  | fanout seq msg => exact List.Sublist.refl _
  | writing seq frame client remaining dead =>
      rw [Worker.targets] at hc
      rw [Worker.due, if_neg hc]
      exact List.nil_sublist _
  | flushing seq frame client remaining dead =>
      rw [Worker.targets] at hc
      rw [Worker.due, if_neg hc]
      exact List.nil_sublist _
  | _ => exact List.Sublist.refl _

/-! ## What the proxy reads -/

/-- The client number of the proxy's connection, or the next one if it has not
been accepted. -/
def SmartHome.proxyClient (s : SmartHome) : ClientId :=
  (s.clientOf .proxy).getD s.broker.handlers.length

/-- What the proxy has read, what is on its way to it, and what the fan-out
under way may still write to it, is a part of what has been handed over. -/
structure Passing (tr : List HomeEvent) (s : SmartHome)
    (taken coming : List (ℕ × Bytes)) : Prop where
  reads : readBy .proxy tr = taken.map fun e => .ofFrame e.2
  stream : ∀ link, s.linkOf .proxy = some link →
    link.stream = (coming.map Prod.snd).flatten
  frames : ∀ e ∈ coming, wire.IsFrame e.2
  handed : (taken ++ coming ++ s.broker.router.worker.due s.proxyClient).Sublist
    ((handedIn (routerEvents (brokerIn tr))).map liveFrame)

structure Forwarding (tr : List HomeEvent) (s : SmartHome) : Prop where
  quiet : s.broker.replayOf s.proxyClient = none
  requests : ∀ link, s.linkOf .proxy = some link → Subscribing link.requests
  passing : ∃ taken coming, Passing tr s taken coming

theorem proxyClient_of_some (h : s.clientOf .proxy = some c) :
    s.proxyClient = c := by
  rw [SmartHome.proxyClient, h, Option.getD_some]

theorem proxyClient_of_none (h : s.clientOf .proxy = none) :
    s.proxyClient = s.broker.handlers.length := by
  rw [SmartHome.proxyClient, h, Option.getD_none]

theorem forwarding_init (log : Option Bytes) : Forwarding [] (.init log) where
  quiet := replayOf_of_le (Nat.zero_le _)
  requests link hlink := by cases hlink
  passing := by
    refine ⟨[], [], rfl, fun link hlink => ?_, by simp, List.nil_sublist _⟩
    cases hlink

/-- Without a connection that has been accepted, nothing is known to be on its
way, and the number of the next client is as good as any. -/
theorem Forwarding.restart (h : Forwarding tr s)
    (hrun : (smartHome loads).Reaches (.init log) tr s)
    (hbroker : s'.broker = s.broker) (hevs : observationsIn evs = [])
    (hread : readBy .proxy evs = []) (hnew : s'.clientOf .proxy = none)
    (hrequests : ∀ link, s'.linkOf .proxy = some link →
      Subscribing link.requests)
    (hstream : ∀ link, s'.linkOf .proxy = some link → link.stream = []) :
    Forwarding (tr ++ evs) s' := by
  obtain ⟨taken, coming, hpassing⟩ := h.passing
  have hclient := proxyClient_of_none hnew
  rw [hbroker] at hclient
  have hnext : s.broker.handlers.length ∉ s.broker.router.worker.targets :=
    fun hmem =>
      lt_irrefl _ (targets_known (brokerIn_run hrun) _ hmem)
  have hevs' : brokerIn evs = [] := by rw [brokerIn, hevs]; rfl
  refine ⟨?_, hrequests, taken, [], ?_, ?_, by simp, ?_⟩
  · rw [hbroker, hclient]
    exact replayOf_of_le le_rfl
  · rw [readBy_append, hread, List.append_nil, hpassing.reads]
  · exact hstream
  · rw [hbroker, hclient, brokerIn_append, hevs', List.append_nil (brokerIn tr)]
    refine List.Sublist.trans ?_ hpassing.handed
    have hdue := due_of_not_target hnext s.proxyClient
    exact ((List.Sublist.refl taken).append
      (List.nil_sublist coming)).append hdue

/-- What a step of the broker writes to the client goes from what is due to what
is on its way. -/
theorem Passing.broker_step {taken coming : List (ℕ × Bytes)}
    (h : Passing tr s taken coming)
    (hrun : broker.Reaches (.init log) (brokerIn tr) s.broker)
    {a : BrokerAction}
    (hstep : BrokerStep s.broker a s'.broker (brokerIn evs)) :
    (taken ++ (coming ++ writtenTo s.proxyClient (brokerIn evs)) ++
        s'.broker.router.worker.due s.proxyClient).Sublist
      ((handedIn (routerEvents (brokerIn (tr ++ evs)))).map liveFrame) := by
  have hdue := due_step hstep (targets_nodup_run hrun) s.proxyClient
  rw [brokerIn_append, routerEvents_append, handedIn_append, List.map_append]
  have hall := h.handed.append (List.Sublist.refl
    ((handedIn (routerEvents (brokerIn evs))).map liveFrame))
  refine List.Sublist.trans ?_ hall
  simp only [List.append_assoc]
  exact ((hdue.append_left coming).append_left taken)

/-- A step of the broker that goes on with the proxy's connection. -/
theorem Forwarding.broker_step (h : Forwarding tr s)
    (hrun : (smartHome loads).Reaches (.init log) tr s) {a : BrokerAction}
    (hstep : observed.step s.broker a = some (s'.broker, observationsIn evs))
    (hread : readBy .proxy evs = []) (hlink : s.linkOf .proxy = some link)
    (hclient : link.client = some c)
    (hask : ∀ msg, a = .receive c msg → msg.command ≠ cmdTimeTravel)
    {requests : Bytes} (hrequests : Subscribing requests)
    (hlink' : s'.linkOf .proxy =
      some ({ link with requests }.gain (brokerIn evs))) :
    Forwarding (tr ++ evs) s' := by
  obtain ⟨taken, coming, hpassing⟩ := h.passing
  have hbroker := brokerIn_run hrun
  have hbstep := broker_step_of_observed hstep
  have hcases := BrokerServer.step_of_eq hbstep
  have hc : s.proxyClient = c :=
    proxyClient_of_some ((SmartHome.clientOf_of hlink).trans hclient)
  have hc' : s'.proxyClient = c := by
    refine proxyClient_of_some ((SmartHome.clientOf_of hlink').trans ?_)
    rw [Link.client_gain]
    exact hclient
  obtain ⟨hquiet, hnone⟩ := quiet_step hcases (hc ▸ h.quiet) hask
  have hpassed := hpassing.broker_step hbroker hcases
  rw [hc] at hpassed
  refine ⟨hc' ▸ hquiet, ?_, taken, coming ++ writtenTo c (brokerIn evs), ?_, ?_,
    ?_, hc' ▸ hpassed⟩
  · intro link' h'
    rw [hlink'] at h'
    cases h'
    rw [Link.requests_gain]
    exact hrequests
  · rw [readBy_append, hread, List.append_nil, hpassing.reads]
  · intro link' h'
    rw [hlink'] at h'
    cases h'
    have hsame : ({ link with requests } : Link).client = some c := hclient
    have hstream : ({ link with requests }.gain (brokerIn evs)).stream =
        link.stream ++ streamTo c (brokerIn evs) :=
      Link.stream_gain hsame _
    rw [hstream, streamTo, chunksTo_eq_writtenTo hnone, List.map_append,
      List.flatten_append, ← hpassing.stream link hlink]
  · intro e he
    rcases List.mem_append.mp he with he | he
    · exact hpassing.frames e he
    · have hframes := (outbound_run (hbroker.snoc trivial hbstep) c).2
      refine hframes e.2 ?_
      rw [chunksTo_append, List.mem_append, chunksTo_eq_writtenTo hnone]
      exact Or.inr (List.mem_map_of_mem he)

/-- A step of the broker while the proxy's connection has not been accepted, or
the step that accepts it. -/
theorem Forwarding.broker_step_new (h : Forwarding tr s)
    (hrun : (smartHome loads).Reaches (.init log) tr s) {a : BrokerAction}
    (hstep : observed.step s.broker a = some (s'.broker, observationsIn evs))
    (hread : readBy .proxy evs = []) (hnew : s.clientOf .proxy = none)
    (hclient' : s'.proxyClient = s.proxyClient ∨
      s'.proxyClient = s'.broker.handlers.length)
    (hlink : ∀ link', s'.linkOf .proxy = some link' →
      ∃ link, s.linkOf .proxy = some link ∧ link'.requests = link.requests ∧
        link'.stream = link.stream) :
    Forwarding (tr ++ evs) s' := by
  obtain ⟨taken, coming, hpassing⟩ := h.passing
  have hbroker := brokerIn_run hrun
  have hbstep := broker_step_of_observed hstep
  have hcases := BrokerServer.step_of_eq hbstep
  have hask : ∀ msg, a ≠ .receive s.proxyClient msg := by
    rintro msg rfl
    have hknown := receive_known hcases
    rw [proxyClient_of_none hnew] at hknown
    exact lt_irrefl _ hknown
  obtain ⟨hquiet, -⟩ := quiet_step hcases h.quiet
    fun msg ha => absurd ha (hask msg)
  have hpassed := hpassing.broker_step hbroker hcases
  have hnext : s'.broker.handlers.length ∉ s'.broker.router.worker.targets :=
    fun hmem =>
      lt_irrefl _ (targets_known (hbroker.snoc trivial hbstep) _ hmem)
  refine ⟨?_, ?_, taken, coming, ?_, ?_, hpassing.frames, ?_⟩
  · rcases hclient' with hsame | hlast
    · rw [hsame]
      exact hquiet
    · rw [hlast]
      exact replayOf_of_le le_rfl
  · intro link' h'
    obtain ⟨link, hold, hsame, -⟩ := hlink link' h'
    rw [hsame]
    exact h.requests link hold
  · rw [readBy_append, hread, List.append_nil, hpassing.reads]
  · intro link' h'
    obtain ⟨link, hold, -, hsame⟩ := hlink link' h'
    rw [hsame]
    exact hpassing.stream link hold
  · refine List.Sublist.trans ?_ hpassed
    have hcoming := List.sublist_append_left coming
      (writtenTo s.proxyClient (brokerIn evs))
    refine (hcoming.append_left taken).append ?_
    rcases hclient' with hsame | hlast
    · rw [hsame]
    · rw [hlast]
      exact due_of_not_target hnext _

/-- A frame is read off the proxy's connection. -/
theorem Forwarding.read_step (h : Forwarding tr s) {frame : BrokerFrame}
    {stream : Bytes} (hbroker : s'.broker = s.broker)
    (hevs : observationsIn evs = []) (hread : readBy .proxy evs = [frame])
    (hlink : s.linkOf .proxy = some link)
    (hstream : readOne link.stream = .ok (some (frame, stream)))
    (hlink' : s'.linkOf .proxy = some { link with stream }) :
    Forwarding (tr ++ evs) s' := by
  obtain ⟨taken, coming, hpassing⟩ := h.passing
  have hclient : s'.proxyClient = s.proxyClient := by
    rw [SmartHome.proxyClient, SmartHome.proxyClient, hbroker,
      SmartHome.clientOf_of hlink, SmartHome.clientOf_of hlink']
  have hevs' : brokerIn evs = [] := by rw [brokerIn, hevs]; rfl
  rw [hpassing.stream link hlink] at hstream
  obtain ⟨f, fs, hfs, rfl, rfl⟩ := readOne_flatten
    (fun f hf => by
      obtain ⟨e, he, rfl⟩ := List.mem_map.mp hf
      exact hpassing.frames e he) hstream
  obtain ⟨e, coming', rfl, rfl, rfl⟩ := List.map_eq_cons_iff.mp hfs
  refine ⟨?_, ?_, taken ++ [e], coming', ?_, ?_, ?_, ?_⟩
  · rw [hclient, hbroker]
    exact h.quiet
  · intro link' h'
    rw [hlink'] at h'
    cases h'
    exact h.requests link hlink
  · rw [readBy_append, hread, hpassing.reads, List.map_append]
    rfl
  · intro link' h'
    rw [hlink'] at h'
    cases h'
    rfl
  · exact fun e' he' => hpassing.frames e' (List.mem_cons_of_mem _ he')
  · have hsub := hpassing.handed
    rw [List.append_cons] at hsub
    rw [hclient, hbroker, brokerIn_append, hevs', List.append_nil (brokerIn tr)]
    exact hsub

theorem Forwarding.step (h : Forwarding tr s)
    (hrun : (smartHome loads).Reaches (.init log) tr s)
    (hmove : LinkMove .proxy s evs s') : Forwarding (tr ++ evs) s' := by
  cases hmove with
  | aside hbroker hevs hread hlink =>
      obtain ⟨taken, coming, hpassing⟩ := h.passing
      have hclient : s'.proxyClient = s.proxyClient := by
        rw [SmartHome.proxyClient, SmartHome.clientOf, hlink, hbroker]
        rfl
      have hevs' : brokerIn evs = [] := by rw [brokerIn, hevs]; rfl
      refine ⟨?_, hlink ▸ h.requests, taken, coming, ?_,
        hlink ▸ hpassing.stream, hpassing.frames, ?_⟩
      · rw [hclient, hbroker]
        exact h.quiet
      · rw [readBy_append, hread, List.append_nil, hpassing.reads]
      · rw [hclient, hbroker, brokerIn_append, hevs',
          List.append_nil (brokerIn tr)]
        exact hpassing.handed
  | drop hbroker hevs hread hproxy hlink =>
      refine h.restart hrun hbroker hevs hread ?_ ?_ ?_
      · rw [SmartHome.clientOf, hlink]
        rfl
      · simp [hlink]
      · simp [hlink]
  | dial requests hbroker hevs hread hopening hlink =>
      refine h.restart hrun hbroker hevs hread ?_ ?_ ?_
      · rw [SmartHome.clientOf_of hlink]
        rfl
      · intro link' h'
        rw [hlink] at h'
        cases h'
        cases hopening with
        | proxy frames hframes => exact subscribing_of_mapM hframes
      · intro link' h'
        rw [hlink] at h'
        cases h'
        rfl
  | read link frame stream hbroker hevs hread hlink hstream hlink' =>
      exact h.read_step hbroker hevs hread hlink hstream hlink'
  | broker a hstep hread hother hlink =>
      cases hclient : s.clientOf .proxy with
      | none =>
          refine h.broker_step_new hrun hstep hread hclient (Or.inr ?_) ?_
          · apply proxyClient_of_none
            rw [SmartHome.clientOf, hlink, Option.bind_map]
            simp only [Function.comp_def, Link.client_gain]
            exact hclient
          · intro link' h'
            rw [hlink] at h'
            obtain ⟨link, hold, rfl⟩ := Option.map_eq_some_iff.mp h'
            rw [SmartHome.clientOf_of hold] at hclient
            rw [Link.gain_of_none hclient]
            exact ⟨link, hold, rfl, rfl⟩
      | some c =>
          obtain ⟨link, hold, hc⟩ := SmartHome.clientOf_eq_some_iff.mp hclient
          rw [hold, Option.map_some] at hlink
          refine h.broker_step hrun hstep hread hold hc ?_
            (h.requests link hold) hlink
          exact fun msg ha => absurd ha (hother c msg hclient)
  | accept link hstep hread hold hnew hlink =>
      have hclient : s.clientOf .proxy = none :=
        (SmartHome.clientOf_of hold).trans hnew
      refine h.broker_step_new hrun hstep hread hclient (Or.inl ?_) ?_
      · rw [proxyClient_of_none hclient]
        exact proxyClient_of_some (SmartHome.clientOf_of hlink)
      · intro link' h'
        rw [hlink] at h'
        cases h'
        exact ⟨link, hold, rfl, rfl⟩
  | deliver link c msg requests hstep hread hlink hclient hrequest hlink' =>
      obtain ⟨hcommand, hrest⟩ := (h.requests link hlink).read hrequest
      refine h.broker_step hrun hstep hread hlink hclient ?_ hrest hlink'
      rintro msg' heq
      cases heq
      rw [hcommand]
      decide

theorem forwarding_run (h : (smartHome loads).Reaches (.init log) tr s) :
    Forwarding tr s := by
  induction h with
  | nil => exact forwarding_init log
  | snoc hrun _ hstep ih =>
      exact ih.step hrun (linkMove_of_step hrun hstep .proxy)

/-- The frames that the proxy reads, over all its connections, are the frames
of some of the messages handed over, in the order of the hand-overs. -/
theorem exists_handed (h : (smartHome loads).Reaches (.init log) tr s) :
    ∃ handed : List (ℕ × Message),
      handed.Sublist (handedIn (routerEvents (brokerIn tr))) ∧
        readBy .proxy tr = handed.map fun e => .ofFrame e.2.frame := by
  obtain ⟨taken, coming, hpassing⟩ := (forwarding_run h).passing
  have htaken : taken.Sublist
      ((handedIn (routerEvents (brokerIn tr))).map liveFrame) := by
    refine List.Sublist.trans ?_ hpassing.handed
    rw [List.append_assoc]
    exact List.sublist_append_left _ _
  obtain ⟨handed, hsub, rfl⟩ := List.sublist_map_iff.mp htaken
  refine ⟨handed, hsub, ?_⟩
  rw [hpassing.reads, List.map_map]
  rfl

end SentinelHub.Home
