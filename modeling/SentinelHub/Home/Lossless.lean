import SentinelHub.Broker.LiveStream
import SentinelHub.Home.Feed

/-!
# While the connection lasts

As long as the proxy keeps its connection, is subscribed to the topics of the
dashboard and is reached by the router, the dashboard misses nothing: what it
broadcasts, together with what is still on its way to it, are the events of what
was on its way before and of all that the router has handed over since.
-/

namespace SentinelHub.Home

open Support Broker Dashboard

variable {loads : List Char → Option Json} {s s' : SmartHome}
  {tr evs : List HomeEvent} {c : ClientId} {link : Link} {log : Option Bytes}

/-- The event of a frame that the broker writes. -/
def frameEvent (loads : List Char → Option Json) (frame : Bytes) :
    Option Event :=
  forward loads (.ofFrame frame)

/-- The frames that are on their way to the proxy. -/
def SmartHome.onTheWay (s : SmartHome) : List Bytes :=
  s.link.elim [] fun link => wire.parse link.stream

/-- The frames that the fan-out under way may still write to the proxy. -/
def SmartHome.toWrite (s : SmartHome) : List Bytes :=
  (s.broker.router.worker.due s.proxyClient).map Prod.snd

/-- The events of the frames that are coming to the proxy. -/
def SmartHome.coming (loads : List Char → Option Json) (s : SmartHome) :
    List Event :=
  (s.onTheWay ++ s.toWrite).filterMap (frameEvent loads)

/-- The proxy is subscribed to all its topics. -/
def Listening (c : ClientId) (s : BrokerServer) : Prop :=
  ∀ topic ∈ smartHomeTopics, Subscribed c (topicHash topic) s

/-- The messages that the proxy shows. -/
def isKnown (e : ℕ × Bytes) : Bool :=
  (topicName (BrokerFrame.ofFrame e.2).tid).isSome

theorem frameEvent_of_not_known {e : ℕ × Bytes} (h : isKnown e = false) :
    frameEvent loads e.2 = none := by
  rw [isKnown, Option.isSome_eq_false_iff, Option.isNone_iff_eq_none] at h
  exact forward_of_unknown h

theorem filterMap_known (es : List (ℕ × Bytes)) :
    (es.map Prod.snd).filterMap (frameEvent loads) =
      ((es.filter isKnown).map Prod.snd).filterMap (frameEvent loads) := by
  induction es with
  | nil => rfl
  | cons e es ih =>
      rw [List.map_cons, List.filterMap_cons, ih]
      cases hknown : isKnown e with
      | true =>
          rw [List.filter_cons_of_pos hknown, List.map_cons,
            List.filterMap_cons]
      | false =>
          rw [List.filter_cons_of_neg (by simp [hknown]),
            frameEvent_of_not_known hknown]

theorem onTheWay_of (hlink : s.linkOf .proxy = some link) {fs : List Bytes}
    (hstream : link.stream = fs.flatten) (hfs : ∀ f ∈ fs, wire.IsFrame f) :
    s.onTheWay = fs := by
  have hlink' : s.link = some link := hlink
  rw [SmartHome.onTheWay, hlink', Option.elim_some, hstream,
    wire.parse_flatten hfs]

/-! ## A connection that lasts -/

/-- A connection that has its number after a step had it before. -/
theorem LinkMove.client_before {id : LinkId} (h : LinkMove id s evs s')
    (hlt : c < s.broker.handlers.length) (hafter : s'.clientOf id = some c) :
    s.clientOf id = some c := by
  cases h with
  | aside _ _ _ hlink =>
      rw [SmartHome.clientOf, hlink] at hafter
      exact hafter
  | drop _ _ _ _ hlink =>
      rw [SmartHome.clientOf, hlink] at hafter
      cases hafter
  | dial requests _ _ _ _ hlink =>
      rw [SmartHome.clientOf_of hlink] at hafter
      cases hafter
  | read link frame stream _ _ _ hbefore _ hlink =>
      rw [SmartHome.clientOf_of hlink] at hafter
      exact (SmartHome.clientOf_of hbefore).trans hafter
  | broker a _ _ _ hlink =>
      rw [SmartHome.clientOf, hlink, Option.bind_map] at hafter
      simp only [Function.comp_def, Link.client_gain] at hafter
      exact hafter
  | accept link _ _ hbefore hnew hlink =>
      rw [SmartHome.clientOf_of hlink] at hafter
      cases hafter
      exact absurd hlt (lt_irrefl _)
  | deliver link c' msg requests _ _ hbefore hclient _ hlink =>
      rw [SmartHome.clientOf_of hlink, Link.client_gain] at hafter
      exact (SmartHome.clientOf_of hbefore).trans hafter

/-! ## One step -/

/-- The client is subscribed to the topic of a message that the proxy shows. -/
theorem listening_known {seq : ℕ} {msg : Message} {b : BrokerServer}
    (htopic : 0 ≤ msg.topicId ∧ msg.topicId < 2 ^ 32) (h : Listening c b)
    (hknown : isKnown (seq, msg.frame) = true) :
    Subscribed c msg.topicId b := by
  obtain ⟨topic, hname⟩ := Option.isSome_iff_exists.mp hknown
  rw [tid_ofFrame_frame htopic] at hname
  obtain ⟨hmem, hhash⟩ := mem_smartHomeTopics_of_topicName hname
  rw [← hhash]
  exact h topic hmem

/-- What the proxy reads in a step and what is coming to it afterwards is what
was coming and what the step has handed over. -/
def Passes (loads : List Char → Option Json) (s : SmartHome)
    (evs : List HomeEvent) (s' : SmartHome) : Prop :=
  (readBy .proxy evs).filterMap (forward loads) ++ s'.coming loads =
    s.coming loads ++ (handedIn (routerEvents (brokerIn evs))).filterMap
      fun e => eventOf loads e.2

theorem passes_of_same (hbroker : s'.broker = s.broker)
    (hclient : s'.clientOf .proxy = s.clientOf .proxy)
    (hevs : observationsIn evs = [])
    (hway : (readBy .proxy evs).filterMap (forward loads) ++
      s'.onTheWay.filterMap (frameEvent loads) =
        s.onTheWay.filterMap (frameEvent loads)) : Passes loads s evs s' := by
  have hevs' : brokerIn evs = [] := by rw [brokerIn, hevs]; rfl
  have hwrite : s'.toWrite = s.toWrite := by
    rw [SmartHome.toWrite, SmartHome.proxyClient, hbroker, hclient]
    rfl
  rw [Passes, hevs', SmartHome.coming, SmartHome.coming, hwrite,
    List.filterMap_append, List.filterMap_append, ← List.append_assoc, hway]
  exact (List.append_nil _).symm

/-- A step of the broker that goes on with the connection. -/
theorem passes_broker (h : (smartHome loads).Reaches (.init log) tr s)
    {a : BrokerAction}
    (hstep : observed.step s.broker a = some (s'.broker, observationsIn evs))
    (hread : readBy .proxy evs = []) (hlink : s.linkOf .proxy = some link)
    (hclient : link.client = some c)
    (hask : ∀ msg, a = .receive c msg → msg.command ≠ cmdTimeTravel)
    {requests : Bytes}
    (hlink' : s'.linkOf .proxy =
      some ({ link with requests }.gain (brokerIn evs)))
    (hlistening : Listening c s.broker) (hreached : Reached c (brokerIn evs)) :
    Passes loads s evs s' := by
  have hbroker := brokerIn_run h
  have hbstep := broker_step_of_observed hstep
  have hcases := BrokerServer.step_of_eq hbstep
  obtain ⟨taken, coming, hpassing⟩ := (forwarding_run h).passing
  have hc : s.proxyClient = c :=
    proxyClient_of_some ((SmartHome.clientOf_of hlink).trans hclient)
  have hc' : s'.proxyClient = c := by
    refine proxyClient_of_some ((SmartHome.clientOf_of hlink').trans ?_)
    rw [Link.client_gain]
    exact hclient
  obtain ⟨-, hnone⟩ := quiet_step hcases (hc ▸ (forwarding_run h).quiet) hask
  have hframes : ∀ f ∈ coming.map Prod.snd, wire.IsFrame f := by
    intro f hf
    obtain ⟨e, he, rfl⟩ := List.mem_map.mp hf
    exact hpassing.frames e he
  have hwritten : ∀ f ∈ (writtenTo c (brokerIn evs)).map Prod.snd,
      wire.IsFrame f := by
    intro f hf
    refine (outbound_run (hbroker.snoc trivial hbstep) c).2 f ?_
    rw [chunksTo_append, List.mem_append, chunksTo_eq_writtenTo hnone]
    exact Or.inr hf
  have hway := onTheWay_of hlink (hpassing.stream link hlink) hframes
  have hway' : s'.onTheWay = coming.map Prod.snd ++
      (writtenTo c (brokerIn evs)).map Prod.snd := by
    refine onTheWay_of hlink' ?_ ?_
    · have hsame : ({ link with requests } : Link).client = some c := hclient
      have hstream : ({ link with requests }.gain (brokerIn evs)).stream =
          link.stream ++ streamTo c (brokerIn evs) := Link.stream_gain hsame _
      rw [hstream, streamTo, chunksTo_eq_writtenTo hnone, List.flatten_append,
        ← hpassing.stream link hlink]
    · exact List.forall_mem_append.mpr ⟨hframes, hwritten⟩
  have hpassed := passed_step (K := isKnown) hcases (targets_nodup_run hbroker)
    (fun seq msg hworker hknown =>
      listening_known (topicId_of_handed hbroker
        (handedOver_of_fanout (router_run hbroker).reaches hworker))
          hlistening hknown)
    hreached
  have hevents : ((writtenTo c (brokerIn evs)).map Prod.snd ++
      s'.toWrite).filterMap (frameEvent loads) =
        (s.toWrite ++ ((handedIn (routerEvents (brokerIn evs))).map
          liveFrame).map Prod.snd).filterMap (frameEvent loads) := by
    rw [SmartHome.toWrite, SmartHome.toWrite, hc, hc', ← List.map_append,
      ← List.map_append, filterMap_known, hpassed, ← filterMap_known]
  have hhanded : (((handedIn (routerEvents (brokerIn evs))).map
      liveFrame).map Prod.snd).filterMap (frameEvent loads) =
        (handedIn (routerEvents (brokerIn evs))).filterMap
          fun e => eventOf loads e.2 := by
    rw [List.map_map, List.filterMap_map]
    rfl
  rw [Passes, hread, SmartHome.coming, SmartHome.coming, hway, hway',
    List.append_assoc, List.filterMap_append, hevents, List.filterMap_append,
    List.filterMap_append, hhanded, List.append_assoc]
  rfl

theorem passes_step (h : (smartHome loads).Reaches (.init log) tr s)
    (hmove : LinkMove .proxy s evs s') (hclient : s.clientOf .proxy = some c)
    (hclient' : s'.clientOf .proxy = some c) (hlistening : Listening c s.broker)
    (hreached : Reached c (brokerIn evs)) : Passes loads s evs s' := by
  cases hmove with
  | aside hbroker hevs hread hlink =>
      have hlink' : s'.link = s.link := hlink
      refine passes_of_same hbroker (hclient'.trans hclient.symm) hevs ?_
      rw [hread, SmartHome.onTheWay, SmartHome.onTheWay, hlink']
      rfl
  | drop hbroker hevs hread hproxy hlink =>
      rw [SmartHome.clientOf, hlink] at hclient'
      cases hclient'
  | dial requests hbroker hevs hread hopening hlink =>
      rw [SmartHome.clientOf_of hlink] at hclient'
      cases hclient'
  | read link frame stream hbroker hevs hread hlink hstream hlink' =>
      obtain ⟨taken, coming, hpassing⟩ := (forwarding_run h).passing
      have hframes : ∀ f ∈ coming.map Prod.snd, wire.IsFrame f := by
        intro f hf
        obtain ⟨e, he, rfl⟩ := List.mem_map.mp hf
        exact hpassing.frames e he
      have hway := onTheWay_of hlink (hpassing.stream link hlink) hframes
      rw [hpassing.stream link hlink] at hstream
      obtain ⟨f, fs, hfs, rfl, rfl⟩ := readOne_flatten hframes hstream
      rw [hfs] at hway hframes
      have hway' : s'.onTheWay = fs := onTheWay_of hlink' rfl
        (List.forall_mem_cons.mp hframes).2
      have hone : ([f].map BrokerFrame.ofFrame).filterMap (forward loads) =
          [f].filterMap (frameEvent loads) := List.filterMap_map
      rw [List.map_singleton] at hone
      refine passes_of_same hbroker (hclient'.trans hclient.symm) hevs ?_
      rw [hread, hway, hway', ← List.singleton_append (x := f),
        List.filterMap_append, hone]
  | broker a hstep hread hother hlink =>
      obtain ⟨link, hold, hc⟩ := SmartHome.clientOf_eq_some_iff.mp hclient
      rw [hold, Option.map_some] at hlink
      exact passes_broker h hstep hread hold hc
        (fun msg ha => absurd ha (hother c msg hclient)) hlink hlistening
        hreached
  | accept link hstep hread hbefore hnew =>
      rw [SmartHome.clientOf_of hbefore, hnew] at hclient
      cases hclient
  | deliver link c' msg requests hstep hread hlink hc' hrequest hlink' =>
      rw [SmartHome.clientOf_of hlink, hc'] at hclient
      cases hclient
      obtain ⟨hcommand, -⟩ :=
        ((forwarding_run h).requests link hlink).read hrequest
      refine passes_broker h hstep hread hlink hc' ?_ hlink' hlistening hreached
      rintro msg' heq
      cases heq
      rw [hcommand]
      decide

/-! ## A run -/

theorem Listening.run {b b' : BrokerServer} {btr : List BrokerEvent}
    (h : Listening c b) (hrun : Broker.broker.Reaches b btr b')
    (hreached : Reached c btr) : Listening c b' := fun topic htopic =>
  (h topic htopic).run_of_reached hrun hreached

/-- The broker's part of a run that begins anywhere. -/
theorem brokerIn_run_from {later : List HomeEvent}
    (h : (smartHome loads).Reaches s later s') :
    Broker.broker.Reaches s.broker (brokerIn later) s'.broker :=
  broker_run (broker_of_run h)

theorem passes_run {later : List HomeEvent}
    (h : (smartHome loads).Reaches (.init log) tr s)
    (hlater : (smartHome loads).Reaches s later s')
    (hlt : c < s.broker.handlers.length)
    (hclient : s'.clientOf .proxy = some c) (hlistening : Listening c s.broker)
    (hreached : Reached c (brokerIn later)) : Passes loads s later s' := by
  induction hlater with
  | nil =>
      rw [Passes]
      exact (List.append_nil _).symm
  | @snoc t u later evs a hbefore _ hstep ih =>
      rw [brokerIn_append] at hreached
      have hrun := h.trans hbefore
      have hmove := linkMove_of_step hrun hstep .proxy
      have hlt' : c < t.broker.handlers.length :=
        lt_of_lt_of_le hlt (length_handlers_run (brokerIn_run_from hbefore))
      have hclient' := hmove.client_before hlt' hclient
      have hlistening' :=
        hlistening.run (brokerIn_run_from hbefore) hreached.left
      have hpassed : Passes loads s later t := ih hclient' hreached.left
      have hnext := passes_step hrun hmove hclient' hclient hlistening'
        hreached.right
      rw [Passes] at hpassed hnext ⊢
      rw [readBy_append, List.filterMap_append, List.append_assoc, hnext,
        ← List.append_assoc, hpassed, brokerIn_append, routerEvents_append,
        handedIn_append, List.filterMap_append, List.append_assoc]

/-- While the proxy keeps its connection, is subscribed to all its topics and
is reached by the router, the events it broadcasts and those still coming to it
are those that were coming to it before and those of all messages handed over
since, in this order. -/
theorem connected_shows_all {later : List HomeEvent}
    (h : (smartHome loads).Reaches (.init log) tr s)
    (hlater : (smartHome loads).Reaches s later s')
    (hclient : s.clientOf .proxy = some c)
    (hlasting : s'.clientOf .proxy = some c)
    (hlistening : Listening c s.broker)
    (hreached : Reached c (brokerIn later)) :
    (broadcastsIn (dashboardIn later)).filter isLive ++ s'.coming loads =
      s.coming loads ++ (handedIn (routerEvents (brokerIn later))).filterMap
        fun e => eventOf loads e.2 := by
  have hlt := (clients_run h).known _ _ hclient
  rw [(shows_run hlater).live]
  exact passes_run h hlater hlt hlasting hlistening hreached

theorem connected_shows_all_fire : ∃ tr s later s',
    (smartHome fun _ => none).Reaches (.init none) tr s ∧
    (smartHome fun _ => none).Reaches s later s' ∧
    (broadcastsIn (dashboardIn later)).any isDevice = true ∧
    (broadcastsIn (dashboardIn later)).filter isLive ++
        s'.coming (fun _ => none) =
      s.coming (fun _ => none) ++
        (handedIn (routerEvents (brokerIn later))).filterMap
          fun e => eventOf (fun _ => none) e.2 := by
  have hexec : ((smartHome fun _ => none).exec (fun _ _ => True) (.init none)
      fireAlarm).any (fun r =>
        ((smartHome fun _ => none).exec (fun _ _ => True) r.1 fireShown).any
          fun (r' : SmartHome × List HomeEvent) =>
            decide (r.1.clientOf .proxy = some 0) &&
            decide (r'.1.clientOf .proxy = some 0) &&
            decide (∀ topic ∈ smartHomeTopics,
              0 ∈ r.1.broker.registry.getSubscribers (topicHash topic)) &&
            decide (∀ e ∈ brokerIn r'.2, e ≠ .unregistered 0 ∧
              e ≠ .router (.unregistered 0) ∧ e ≠ .router (.unreachable 0) ∧
              e ≠ .router .crashed ∧ e ≠ .stopped) &&
            (broadcastsIn (dashboardIn r'.2)).any isDevice) = true := by
    decide +kernel
  obtain ⟨⟨s, tr⟩, hrun, hany⟩ := (Option.any_eq_true _ _).mp hexec
  obtain ⟨⟨s', later⟩, hrun', hall⟩ := (Option.any_eq_true _ _).mp hany
  simp only [Bool.and_eq_true, decide_eq_true_eq] at hall
  obtain ⟨⟨⟨⟨hclient, hlasting⟩, htopics⟩, hevents⟩, hshown⟩ := hall
  have hreached : Reached 0 (brokerIn later) := by
    refine ⟨fun e he hdrops => ?_, fun hmem => ?_, fun hmem => ?_,
      fun hmem => ?_⟩
    · rcases hdrops with rfl | rfl
      · exact (hevents _ he).1 rfl
      · exact (hevents _ he).2.1 rfl
    · exact (hevents _ hmem).2.2.1 rfl
    · exact (hevents _ hmem).2.2.2.1 rfl
    · exact (hevents _ hmem).2.2.2.2 rfl
  have h := System.exec_run _ hrun
  have hlater := System.exec_run _ hrun'
  exact ⟨tr, s, later, s', h, hlater, hshown, connected_shows_all h hlater
    hclient hlasting (fun topic htopic => subscribed_iff.mpr (htopics _ htopic))
    hreached⟩

end SentinelHub.Home
