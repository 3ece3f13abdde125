import SentinelHub.Broker.LiveStream
import SentinelHub.Home.Forwarding

/-!
# What the browsers are shown

The events that the proxy broadcasts stand for messages that the router has
handed over, and those that reach a browser are some of them.  Put together
with what is known of the broker, this follows a message from its publisher to
the browsers, whatever happens in between.
-/

namespace SentinelHub.Home

open Support Broker Dashboard

/-- The event of a message that the broker sends. -/
def eventOf (loads : List Char → Option Json) (msg : Message) : Option Event :=
  forward loads (.ofFrame msg.frame)

/-- The events that the proxy makes of frames. -/
def isLive : Event → Bool
  | .qos .. => true
  | .metrics _ => true
  | _ => false

/-- The events that are broadcast to the browsers. -/
def broadcastsIn (hevs : List (SseEvent Event)) : List Event :=
  hevs.filterMap fun
    | .broadcast event => some event
    | _ => none

variable {loads : List Char → Option Json} {s s' : SmartHome}
  {tr evs : List HomeEvent} {hevs : List (SseEvent Event)} {event : Event}
  {b : Browser Event} {log : Option Bytes} {msg : Message}

theorem broadcastsIn_append (hevs hevs' : List (SseEvent Event)) :
    broadcastsIn (hevs ++ hevs') = broadcastsIn hevs ++ broadcastsIn hevs' :=
  List.filterMap_append

theorem mem_broadcastsIn_iff :
    event ∈ broadcastsIn hevs ↔ .broadcast event ∈ hevs := by
  rw [broadcastsIn, List.mem_filterMap]
  constructor
  · rintro ⟨e, he, heq⟩
    cases e with
    | broadcast msg =>
        cases heq
        exact he
    | _ => cases heq
  · exact fun he => ⟨_, he, rfl⟩

/-! ## What is broadcast -/

theorem isLive_of_forward {frame : BrokerFrame}
    (h : forward loads frame = some event) : isLive event = true := by
  cases htopic : topicName frame.tid with
  | none =>
      rw [forward_of_unknown htopic] at h
      cases h
  | some topic =>
      by_cases hmetrics : topic = "broker/metrics"
      · rw [hmetrics] at htopic
        rw [forward_of_metrics htopic, metricsEvent] at h
        split at h
        · cases h
          rfl
        · cases h
      · rw [forward_of_device loads frame htopic hmetrics] at h
        cases h
        rfl

theorem isLive_of_isReplay (h : event.isReplay = true) :
    isLive event = false := by
  cases event <;> first | rfl | cases h

/-- A step of the dashboard that reads no frame broadcasts none of the events
of the proxy, and no browser begins with one. -/
theorem not_live_step {h h' : Hub} {a : HubAction}
    (hstep : hubStep loads h a = some (h', hevs))
    (hread : ∀ frame, a ≠ .proxy (.read (.frame frame))) :
    (broadcastsIn hevs).filter isLive = [] ∧
      ∀ j initial, .joined j initial ∈ hevs → isLive initial = false := by
  have hnone : ∀ event, isLive event = false →
      (broadcastsIn [.broadcast event]).filter isLive = [] := by
    intro event hevent
    rw [List.filter_eq_nil_iff]
    intro e he
    rw [List.mem_singleton.mp he, hevent]
    exact Bool.false_ne_true
  rcases hubStep_cases hstep with ⟨-, rfl, -⟩ | hsse |
    ⟨hforwards, -, event, hstatus, hsse⟩ | ⟨-, b, hne, hjoin, hsse⟩
  · exact ⟨rfl, by simp⟩
  · obtain ⟨rfl, -⟩ := moves_of_broadcast hsse
    exact ⟨hnone _ rfl, by simp⟩
  · obtain ⟨rfl, -⟩ := moves_of_broadcast hsse
    refine ⟨hnone event ?_, by simp⟩
    cases a with
    | replay event' =>
        rw [hubStep] at hstep
        split at hstep
        next hreplay =>
          obtain ⟨hsse', -⟩ := Hub.withBrowsers_eq_some hstep
          obtain ⟨heq, -⟩ := moves_of_broadcast hsse'
          cases heq
          exact isLive_of_isReplay hreplay
        · cases hstep
    | proxy a =>
        cases a with
        | read outcome =>
            cases outcome with
            | frame frame => exact absurd rfl (hread frame)
            | _ => cases hforwards
        | _ => cases hforwards
    | _ => cases hforwards
  · obtain ⟨hbroadcast, hjoined⟩ := sseStep_event hsse
    refine ⟨?_, ?_⟩
    · rw [List.filter_eq_nil_iff]
      intro e he
      exact absurd (hbroadcast e (mem_broadcastsIn_iff.mp he)) (hne e)
    · intro j initial he
      rw [hjoin initial (hjoined j initial he)]
      rfl

/-- A step of the dashboard that reads a frame. -/
theorem live_step {h h' : Hub} {frame : BrokerFrame}
    (hstep : hubStep loads h (.proxy (.read (.frame frame))) =
      some (h', hevs)) :
    (broadcastsIn hevs).filter isLive = (forward loads frame).toList ∧
      ∀ j initial, .joined j initial ∉ hevs := by
  rw [hubStep] at hstep
  by_cases hphase : h.proxy.phase = .reading
  · have hproxy : proxyStep loads h.proxy (.read (.frame frame)) =
        some (h.proxy, forward loads frame) := by
      rw [proxyStep, if_pos hphase]
    rw [hproxy] at hstep
    cases hforward : forward loads frame with
    | none =>
        simp only [hforward] at hstep
        cases hstep
        exact ⟨rfl, by simp⟩
    | some event =>
        simp only [hforward] at hstep
        obtain ⟨hsse, -⟩ := Hub.withBrowsers_eq_some hstep
        obtain ⟨rfl, -⟩ := moves_of_broadcast hsse
        refine ⟨?_, by simp⟩
        change [event].filter isLive = [event]
        rw [List.filter_cons_of_pos (isLive_of_forward hforward),
          List.filter_nil]
  · have hnone : proxyStep loads h.proxy (.read (.frame frame)) = none := by
      rw [proxyStep, if_neg hphase]
    rw [hnone] at hstep
    cases hstep

/-- What is broadcast of the proxy's events, and with what browsers begin. -/
structure Shows (loads : List Char → Option Json) (tr : List HomeEvent) :
    Prop where
  live : (broadcastsIn (dashboardIn tr)).filter isLive =
    (readBy .proxy tr).filterMap (forward loads)
  joined : ∀ j initial, .joined j initial ∈ dashboardIn tr →
    isLive initial = false

theorem shows_of_quiet (hread : readBy .proxy evs = [])
    (hquiet : (broadcastsIn (dashboardIn evs)).filter isLive = [] ∧
      ∀ j initial, .joined j initial ∈ dashboardIn evs →
        isLive initial = false) : Shows loads evs where
  live := by rw [hquiet.1, hread, List.filterMap_nil]
  joined := hquiet.2

theorem Shows.append (h : Shows loads tr) (h' : Shows loads evs) :
    Shows loads (tr ++ evs) where
  live := by
    rw [dashboardIn_append, broadcastsIn_append, List.filter_append, h.live,
      h'.live, readBy_append, List.filterMap_append]
  joined j initial hmem := by
    rw [dashboardIn_append, List.mem_append] at hmem
    exact hmem.elim (h.joined j initial) (h'.joined j initial)

/-- The events of a replay are not those of the proxy. -/
theorem not_live_broadcast {notes : List HomeEvent} {i : ℕ}
    {event : Option Event} (hnotes : dashboardIn notes = [])
    (h : s.broadcast loads notes i event = some (s', evs)) :
    (broadcastsIn (dashboardIn evs)).filter isLive = [] ∧
      ∀ j initial, .joined j initial ∈ dashboardIn evs →
        isLive initial = false := by
  rcases SmartHome.broadcast_eq_some h with ⟨-, -, rfl⟩ |
    ⟨e, d, hevs, -, hstep, -, rfl⟩
  · rw [hnotes]
    exact ⟨rfl, by simp⟩
  · have hone : dashboardIn [.replayed i e] = [] := rfl
    rw [dashboardIn_append, dashboardIn_append, dashboardIn_dashboard, hnotes,
      hone]
    exact not_live_step hstep nofun

theorem shows_step (hstep : HomeStep loads s s' evs) : Shows loads evs := by
  cases hstep with
  | broker a broker obs =>
      refine shows_of_quiet (readBy_broker _ _) ?_
      rw [dashboardIn_broker]
      exact ⟨rfl, by simp⟩
  | accept id link broker obs =>
      refine shows_of_quiet (readBy_broker _ _) ?_
      rw [dashboardIn_broker]
      exact ⟨rfl, by simp⟩
  | deliver id link c msg requests broker obs =>
      refine shows_of_quiet (readBy_broker _ _) ?_
      rw [dashboardIn_broker]
      exact ⟨rfl, by simp⟩
  | dashboard a dashboard hevs hfree hstep =>
      refine shows_of_quiet (readBy_dashboard _ _) ?_
      rw [dashboardIn_dashboard]
      refine not_live_step hstep ?_
      rintro frame rfl
      cases hfree
  | dial frames dashboard hevs hframes hstep =>
      refine shows_of_quiet (readBy_dashboard _ _) ?_
      rw [dashboardIn_dashboard]
      exact not_live_step hstep nofun
  | read link frame stream dashboard hevs hlink hread hstep =>
      have hshown : dashboardIn (.read .proxy frame :: hevs.map .dashboard) =
          hevs := dashboardIn_dashboard hevs
      have hframe : readBy .proxy (.read .proxy frame :: hevs.map .dashboard) =
          [frame] := by
        rw [← List.singleton_append, readBy_append, readBy_dashboard]
        rfl
      obtain ⟨hlive, hjoined⟩ := live_step hstep
      refine ⟨?_, fun j initial hmem => ?_⟩
      · rw [hshown, hframe, hlive, List.filterMap_cons, List.filterMap_nil]
        cases forward loads frame <;> rfl
      · rw [hshown] at hmem
        exact absurd hmem (hjoined j initial)
  | travel offset _ _ hbroadcast =>
      refine shows_of_quiet ((SmartHome.broadcasts hbroadcast).read _) ?_
      exact not_live_broadcast rfl hbroadcast
  | replay i a task task' frame event _ _ htask hstep hbroadcast =>
      refine shows_of_quiet ?_
        (not_live_broadcast (dashboardIn_notes _ _) hbroadcast)
      rw [(SmartHome.broadcasts hbroadcast).read, readBy_notes]
      exact if_neg nofun

theorem shows_run (h : (smartHome loads).Reaches s tr s') : Shows loads tr := by
  induction h with
  | nil => exact ⟨rfl, fun j initial hmem => by cases hmem⟩
  | snoc _ _ hstep ih => exact ih.append (shows_step (homeStep_of_eq hstep))

/-! ## What reaches a browser -/

theorem feedOf_usesOf_sublist (i : ℕ) (later : List (SseEvent Event)) :
    (feedOf (usesOf i later)).Sublist (broadcastsIn later) := by
  have hall : ∀ later : List (SseEvent Event),
      feedOf (later.filterMap (SseEvent.use i)) = broadcastsIn later := by
    intro later
    rw [feedOf, List.filterMap_filterMap, broadcastsIn]
    congr 1
    funext e
    cases e with
    | took j msg =>
        by_cases hij : i = j
        · simp [SseEvent.use, hij]
        · simp [SseEvent.use, hij]
    | _ => rfl
  rw [usesOf, hall]
  exact (List.takeWhile_sublist _).filterMap _

/-- Behind the event with which it began, a browser is sent events that have
been broadcast, in this order. -/
theorem browser_sublist (h : (smartHome loads).Reaches (.init log) tr s)
    (hb : b ∈ s.dashboard.browsers) :
    ((b.sent ++ b.queue).filter isLive).Sublist
      ((broadcastsIn (dashboardIn tr)).filter isLive) := by
  have hshows := shows_run h
  have hsse := sse_reaches_of_run (dashboard_of_run h)
  obtain ⟨i, hi⟩ := List.mem_iff_getElem?.mp hb
  obtain ⟨earlier, initial, later, htr, -, -, hlife⟩ :=
    (lives_of_reaches hsse).life i b hi
  have hinitial : isLive initial = false := by
    refine hshows.joined i initial ?_
    rw [htr]
    exact List.mem_append_right _ (List.mem_cons_self ..)
  have hsub := (DropOldest.taken_append_items_sublist sseCapacity
    (usesOf i later)).trans (feedOf_usesOf_sublist i later)
  have hbroadcasts : (broadcastsIn later).Sublist
      (broadcastsIn (dashboardIn tr)) := by
    rw [htr, broadcastsIn_append]
    exact (List.sublist_append_right _ _)
  rw [hlife.sent, hlife.queue, List.cons_append,
    List.filter_cons_of_neg (by rw [hinitial]; exact Bool.false_ne_true)]
  exact (hsub.trans hbroadcasts).filter _

/-! ## Where the messages come from -/

/-- The topic that a frame spells is that of its message. -/
theorem tid_ofFrame_frame (h : 0 ≤ msg.topicId ∧ msg.topicId < 2 ^ 32) :
    ((BrokerFrame.ofFrame msg.frame).tid : ℤ) = msg.topicId := by
  have htopic : (unpackHeader msg.frame).topicId = msg.topicId.toNat := by
    rw [Message.frame, unpackHeader_append (length_bigEndian 1 _)
      (length_bigEndian 4 _) (length_bigEndian 1 _) (length_bigEndian 4 _)]
    exact ofBigEndian_bigEndian_of_lt (by omega)
  rw [BrokerFrame.ofFrame, htopic]
  exact Int.toNat_of_nonneg h.1

theorem rawHex_ofFrame (frame : Bytes) :
    (BrokerFrame.ofFrame frame).rawHex = hex frame := by
  rw [BrokerFrame.rawHex, BrokerFrame.ofFrame, List.take_append_drop]

/-- The event of a message about a device. -/
theorem eventOf_device (loads : List Char → Option Json) {topic : String}
    (h : msg.OnWire) (htopic : topicName msg.topicId = some topic)
    (hne : topic ≠ "broker/metrics") :
    eventOf loads msg = some (.qos topic msg.priority.toNat
      (Utf8.decodeReplace msg.payload) (hex msg.frame)) := by
  have hname : topicName (BrokerFrame.ofFrame msg.frame).tid = some topic := by
    rw [tid_ofFrame_frame h.topicId, htopic]
  have hpriority : (BrokerFrame.ofFrame msg.frame).pri =
      msg.priority.toNat := by
    rw [BrokerFrame.ofFrame, h.unpackHeader_frame]
  have hpayload : (BrokerFrame.ofFrame msg.frame).payload = msg.payload := by
    rw [BrokerFrame.ofFrame, msg.drop_frame]
  rw [eventOf, forward_of_device loads _ hname hne, hpriority, hpayload,
    rawHex_ofFrame]

theorem topicName_metrics :
    topicName (topicHash "broker/metrics") = some "broker/metrics" := by
  decide +kernel

/-- A message that the proxy shows as one about a device was published by a
client, and its frame is in the log. -/
theorem published_of_handed (h : (smartHome loads).Reaches (.init log) tr s)
    {e : ℕ × Message} (he : e ∈ handedIn (routerEvents (brokerIn tr)))
    {topic : String}
    (htopic : topicName (BrokerFrame.ofFrame e.2.frame).tid = some topic)
    (hne : topic ≠ "broker/metrics") :
    ∃ p start, .published p e.1 e.2 start ∈ brokerIn tr ∧
      .sent p e.2 ∈ observationsIn tr ∧
        e.2.frame <+: s.broker.log.drop start := by
  have hobserved := broker_of_run h
  have hbroker := brokerIn_run h
  have henqueued : e ∈ enqueuedIn (routerEvents (brokerIn tr)) :=
    (queued_run (router_run hbroker)).mem_iff.mpr (List.mem_append_left _ he)
  rcases enqueued_run hbroker henqueued with ⟨p, start, hpublished⟩ |
    ⟨throughput, offset, active, -, heq⟩
  · refine ⟨p, start, hpublished, ?_, ?_⟩
    · apply mem_sentBy
      apply (published_isPrefix_sent p hobserved).subset
      exact List.mem_map_of_mem (f := fun e : ℕ × Message × ℕ => e.2.1)
        (mem_publishedBy.mpr hpublished)
    · have hmem : (e.2, start) ∈ publishedIn (brokerIn tr) :=
        List.mem_filterMap.mpr ⟨_, hpublished, rfl⟩
      have hlogged : (e.2, start) ∈ loggedIn (brokerIn tr) :=
        (logged_run hbroker).mem_iff.mpr (List.mem_append_left _ hmem)
      exact (inLog_run hbroker).present _ hlogged
  · have htid : ((BrokerFrame.ofFrame
        (metricsMessage throughput offset active).frame).tid : ℤ) =
          topicHash "broker/metrics" :=
      tid_ofFrame_frame (topicHash_inRange "broker/metrics")
    rw [heq, htid] at htopic
    have hmetrics := topicName_metrics.symm.trans htopic
    exact absurd (Option.some.inj hmetrics).symm hne

/-- A browser is open, the proxy has subscribed, and a client has published a
fire. -/
def fireAlarm : List HomeAction :=
  [.dashboard .join, .dashboard (.drained 0 true), .dial,
    .dashboard (.proxy (.subscribed true)), .accept .proxy] ++
  List.replicate 6 (.deliver .proxy) ++
  [.broker .connect,
    .broker (.receive 1
      ⟨cmdPublish, topicHash "home/fire", 3, [70, 73, 82, 69]⟩),
    .broker (.tell 1), .broker (.write 1), .broker (.resume 1)]

/-- The router writes it to the proxy, and the browser takes the event. -/
def fireShown : List HomeAction :=
  [.broker (.worker .wake), .broker (.worker .pop),
    .broker (.worker (.lookup [0])), .broker (.worker (.write true)), .read,
    .dashboard (.take 0), .dashboard (.drained 0 true), .dashboard (.take 0)]

def isDevice : Event → Bool
  | .qos .. => true
  | _ => false

/-- The message is a publish of the client with the priority `q`. -/
def isFrom (p : ClientId) (q : ℤ) (tr : List HomeEvent) (e : ℕ × Message) :
    Bool :=
  ∃ e' ∈ publishedBy p (brokerIn tr), e'.1 = e.1 ∧ e'.2.1.priority = q

/-- The router hands over no message twice. -/
theorem handed_nodup {bs : BrokerServer} {btr : List BrokerEvent}
    (h : Broker.broker.Reaches (.init log) btr bs) :
    ((handedIn (routerEvents btr)).map Prod.fst).Nodup := by
  have hinv := orderInv_run (router_run h)
  have hnodup : ((enqueuedIn (routerEvents btr)).map Prod.fst).Nodup := by
    rw [hinv.numbered]
    exact List.nodup_range
  have hperm := hinv.conserved.map Prod.fst
  rw [List.map_append] at hperm
  exact (List.nodup_append.mp (hperm.nodup_iff.mp hnodup)).1

/-- Every browser is sent events of messages that the router has handed over,
in the order of the hand-overs and each of them once, however often the proxy
has lost its connection.  Among them, the publishes of one client with one
priority come in the order in which this client sent them. -/
theorem browsers_follow_router
    (h : (smartHome loads).Reaches (.init log) tr s) :
    ∃ handed : List (ℕ × Message),
      handed.Sublist (handedIn (routerEvents (brokerIn tr))) ∧
      (handed.map Prod.fst).Nodup ∧
      (∀ b ∈ s.dashboard.browsers,
        ((b.sent ++ b.queue).filter isLive).Sublist
          (handed.filterMap fun e => eventOf loads e.2)) ∧
      ∀ p q, ((handed.filter (isFrom p q tr)).map Prod.snd).Sublist
        ((sentBy p (observationsIn tr)).filter fun msg =>
          msg.priority = q) := by
  obtain ⟨handed, hsub, hreads⟩ := exists_handed h
  have hobserved := broker_of_run h
  have hbroker := brokerIn_run h
  refine ⟨handed, hsub, ?_, ?_, ?_⟩
  · exact (handed_nodup hbroker).sublist (hsub.map Prod.fst)
  · intro b hb
    have hshown := browser_sublist h hb
    rw [(shows_run h).live, hreads, List.filterMap_map] at hshown
    exact hshown
  · intro p q
    have hordered := handed_sublist_publishedWith hbroker
      (List.filter_sublist.trans hsub) (p := p) (q := q) fun e he =>
        of_decide_eq_true (List.mem_filter (p := isFrom p q tr).mp he).2
    exact (hordered.map Prod.snd).trans
      (publishedWith_isPrefix_sent p q hobserved).sublist

theorem browsers_follow_router_fire : ∃ tr s,
    (smartHome fun _ => none).Reaches (.init none) tr s ∧
    ∃ handed : List (ℕ × Message), (handed.map Prod.fst).Nodup ∧
      ∃ b ∈ s.dashboard.browsers, b.sent.any isDevice = true ∧
        ((b.sent ++ b.queue).filter isLive).Sublist
          (handed.filterMap fun e => eventOf (fun _ => none) e.2) := by
  have hexec : ((smartHome fun _ => none).exec (fun _ _ => True) (.init none)
      (fireAlarm ++ fireShown)).any (fun r =>
        r.1.dashboard.browsers.any fun b => b.sent.any isDevice) = true := by
    decide +kernel
  obtain ⟨⟨s, tr⟩, hrun, hany⟩ := (Option.any_eq_true _ _).mp hexec
  have h := System.exec_run _ hrun
  obtain ⟨b, hb, hsent⟩ := List.any_eq_true.mp hany
  obtain ⟨handed, -, hnodup, hbrowsers, -⟩ := browsers_follow_router h
  exact ⟨tr, s, h, handed, hnodup, b, hb, hsent, hbrowsers b hb⟩

end SentinelHub.Home
