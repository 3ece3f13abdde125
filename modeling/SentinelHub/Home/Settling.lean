import SentinelHub.Broker.Arrival
import SentinelHub.Dashboard.Draining
import SentinelHub.Home.Lossless

/-!
# What is under way arrives

Between the handlers of the publishers and the browsers there are the log, the
heap, the worker, a connection, the proxy and a queue for every browser.  If
nobody sends anything more and nothing fails, then in whatever order these go
on, they come to an end, and by then the dashboard has broadcast every message
that was on its way, exactly once.
-/

namespace SentinelHub.Home

open Support Broker Dashboard

/-- The steps in which what is on its way to the browsers goes on, and nothing
fails. -/
def HomeAction.isSettling : HomeAction → Bool
  | .broker a => a.isSmooth
  | .read => true
  | .dashboard a => a.isDraining
  | _ => false

/-- Nothing is on its way. -/
structure SmartHome.Settled (s : SmartHome) : Prop where
  broker : s.broker.AtRest
  dashboard : s.dashboard.Drained
  read : s.dashboard.proxy.phase = .reading → s.onTheWay = []

/-- The messages in the heap, and those that handlers are about to enqueue. -/
def SmartHome.pending (s : SmartHome) : List Message :=
  s.broker.router.queued.map Prod.snd ++ s.broker.toEnqueue

variable {loads : List Char → Option Json} {s s' : SmartHome}
  {tr evs later : List HomeEvent} {c : ClientId} {log : Option Bytes}

/-! ## The proxy's connection -/

/-- The proxy is where it has a connection. -/
def Linked (s : SmartHome) : Prop :=
  s.link.isSome = true → linked s.dashboard.proxy = true

theorem linked_afterDashboard (s : SmartHome) (dashboard : Hub) :
    Linked (s.afterDashboard dashboard) := by
  intro hsome
  by_cases hlinked : linked dashboard.proxy = true
  · exact hlinked
  · rw [SmartHome.afterDashboard] at hsome
    simp only [if_neg hlinked] at hsome
    cases hsome

theorem linked_broadcast {notes : List HomeEvent} {i : ℕ}
    {event : Option Event} (hlinked : Linked s)
    (h : s.broadcast loads notes i event = some (s', evs)) : Linked s' := by
  rcases SmartHome.broadcast_eq_some h with ⟨-, rfl, -⟩ |
    ⟨e, dashboard, hevs, -, -, rfl, -⟩
  · exact hlinked
  · exact linked_afterDashboard s dashboard

theorem linked_step (hlinked : Linked s) (hstep : HomeStep loads s s' evs) :
    Linked s' := by
  cases hstep with
  | broker a broker obs =>
      intro hsome
      exact hlinked (Option.isSome_map.symm.trans hsome)
  | accept id link broker obs hlink =>
      intro hsome
      cases id with
      | proxy => exact hlinked (Option.isSome_iff_exists.mpr ⟨link, hlink⟩)
      | replay i => exact hlinked (Option.isSome_map.symm.trans hsome)
  | deliver id link c msg requests broker obs hlink =>
      intro hsome
      cases id with
      | proxy => exact hlinked (Option.isSome_iff_exists.mpr ⟨link, hlink⟩)
      | replay i => exact hlinked (Option.isSome_map.symm.trans hsome)
  | dashboard a dashboard hevs => exact linked_afterDashboard _ _
  | dial frames dashboard hevs => exact linked_afterDashboard _ _
  | read link frame stream dashboard hevs => exact linked_afterDashboard _ _
  | travel offset t evs hbroadcast =>
      have hsame : Linked { s with replays := s.replays ++ [.start offset] } :=
        hlinked
      exact linked_broadcast hsame hbroadcast
  | replay i a task task' frame event t evs htask hstep hbroadcast =>
      have hsame : Linked { s with replays := s.replays.set i task' } :=
        hlinked
      exact linked_broadcast hsame hbroadcast

theorem linked_run (h : (smartHome loads).Reaches (.init log) tr s) :
    Linked s := by
  induction h with
  | nil => intro hsome; cases hsome
  | snoc _ _ hstep ih => exact linked_step ih (homeStep_of_eq hstep)

/-! ## The steps -/

/-- The steps in which something goes on. -/
inductive Settles (loads : List Char → Option Json) (s : SmartHome) :
    SmartHome → List HomeEvent → Prop
  | broker (a : BrokerAction) (broker : BrokerServer) (obs : List Observation)
      (hsmooth : a.isSmooth = true)
      (hstep : observed.step s.broker a = some (broker, obs)) :
      Settles loads s (s.afterBroker broker obs) (obs.map .broker)
  | read (link : Link) (frame : BrokerFrame) (stream : Bytes) (dashboard : Hub)
      (hevs : List (SseEvent Event)) (hlink : s.link = some link)
      (hread : readOne link.stream = .ok (some (frame, stream)))
      (hstep : hubStep loads s.dashboard (.proxy (.read (.frame frame))) =
        some (dashboard, hevs)) :
      Settles loads s
        { s with link := some { link with stream }, dashboard }
        (.read .proxy frame :: hevs.map .dashboard)
  | dashboard (a : HubAction) (dashboard : Hub) (hevs : List (SseEvent Event))
      (hdraining : a.isDraining = true)
      (hstep : hubStep loads s.dashboard a = some (dashboard, hevs)) :
      Settles loads s { s with dashboard } (hevs.map .dashboard)

/-- A proxy that stays where it has a connection keeps it. -/
theorem afterDashboard_of_linked {dashboard : Hub} (hlinked : Linked s)
    (hstays : linked s.dashboard.proxy = true →
      linked dashboard.proxy = true) :
    s.afterDashboard dashboard = { s with dashboard } := by
  rw [SmartHome.afterDashboard]
  cases hlink : s.link with
  | none => simp only [ite_self]
  | some link =>
      rw [if_pos (hstays (hlinked (by rw [hlink]; rfl)))]

theorem settles_of_step {a : HomeAction} (hlinked : Linked s)
    (hsettling : a.isSettling = true)
    (h : homeStep loads s a = some (s', evs)) : Settles loads s s' evs := by
  cases a with
  | broker a =>
      rw [homeStep] at h
      split at h
      · cases h
      · obtain ⟨broker, obs, hstep, rfl, rfl⟩ := SmartHome.withBroker_eq_some h
        exact .broker a broker obs hsettling hstep
  | read =>
      rw [homeStep] at h
      split at h
      · cases h
      next link hlink =>
        split at h
        next frame stream hread =>
          obtain ⟨dashboard, hevs, hstep, rfl, rfl⟩ :=
            SmartHome.withDashboard_eq_some h
          have hafter : SmartHome.afterDashboard
              (s.setLink { link with stream } .proxy) dashboard =
                { s with link := some { link with stream }, dashboard } := by
            rw [SmartHome.afterDashboard, if_pos (linked_of_read hstep)]
            rfl
          rw [hafter]
          exact .read link frame stream dashboard hevs hlink hread hstep
        · cases h
  | dashboard a =>
      rw [homeStep] at h
      split at h
      · cases h
      · obtain ⟨dashboard, hevs, hstep, rfl, rfl⟩ :=
          SmartHome.withDashboard_eq_some h
        rw [afterDashboard_of_linked hlinked]
        · exact .dashboard a dashboard hevs hsettling hstep
        · intro hbefore
          cases draining_step hsettling hstep with
          | subscribed hphase hproxy =>
              rw [hproxy]
              rfl
          | browser i b b' hproxy =>
              rw [hproxy]
              exact hbefore
  | _ => cases hsettling

/-! ## They come to an end -/

/-- The bytes and the subscription that the proxy is to get through. -/
def SmartHome.readWork (s : SmartHome) : ℕ :=
  (s.link.elim 0 fun link => link.stream.length) +
    if s.dashboard.proxy.phase = .subscribing then 1 else 0

/-- What the broker does may give the proxy something to read, and what the
proxy reads may give the browsers something to take. -/
def SmartHome.work (s : SmartHome) : (ℕ ×ₗ ℕ ×ₗ ℕ) ×ₗ ℕ ×ₗ ℕ :=
  toLex (s.broker.work,
    toLex (s.readWork, (s.dashboard.browsers.map Browser.work).sum))

theorem settles_work (hreplays : s.broker.ReplaysOk)
    (h : Settles loads s s' evs) : s'.work < s.work := by
  refine Prod.Lex.toLex_lt_toLex.mpr ?_
  cases h with
  | broker a broker obs hsmooth hstep =>
      obtain ⟨bevs, hbstep, -⟩ := observed_step_iff.mp hstep
      exact Or.inl (work_lt hreplays (BrokerAction.isOwn_of_isSmooth hsmooth)
        (BrokerServer.step_of_eq hbstep))
  | read link frame stream dashboard hevs hlink hread hstep =>
      obtain ⟨-, hproxy, -⟩ := reading_step hstep
      have hshorter := reader.shortens hread
      refine Or.inr ⟨rfl, Prod.Lex.toLex_lt_toLex.mpr (Or.inl ?_)⟩
      rw [SmartHome.readWork, SmartHome.readWork, hlink, hproxy]
      exact Nat.add_lt_add_right hshorter _
  | dashboard a dashboard hevs hdraining hstep =>
      refine Or.inr ⟨rfl, Prod.Lex.toLex_lt_toLex.mpr ?_⟩
      cases draining_step hdraining hstep with
      | subscribed hphase hproxy =>
          left
          rw [SmartHome.readWork, SmartHome.readWork, hproxy, if_pos hphase]
          exact Nat.lt_succ_self _
      | browser i b b' hproxy hb hdrains hbrowsers =>
          right
          refine ⟨?_, ?_⟩
          · rw [SmartHome.readWork, SmartHome.readWork, hproxy]
          · have hsum := sum_map_set Browser.work hb b'
            have hless := hdrains.work
            rw [hbrowsers]
            omega

/-- Where nothing more can go on, nothing is on its way. -/
theorem settled_iff (h : (smartHome loads).Reaches (.init log) tr s) :
    s.Settled ↔ ∀ a : HomeAction, a.isSettling = true →
      homeStep loads s a = none := by
  have hbroker := brokerIn_run h
  constructor
  · intro hsettled a hsettling
    by_contra hsome
    obtain ⟨⟨s', evs⟩, hhome⟩ := Option.ne_none_iff_exists'.mp hsome
    cases settles_of_step (linked_run h) hsettling hhome with
    | broker a broker obs hsmooth hstep =>
        obtain ⟨bevs, hbstep, -⟩ := observed_step_iff.mp hstep
        have hnone := resting_of_atRest hsettled.broker a
          (BrokerAction.isOwn_of_isSmooth hsmooth)
        rw [hnone] at hbstep
        cases hbstep
    | read link frame stream dashboard hevs hlink hread hstep =>
        have hempty := hsettled.read (reading_step hstep).1
        rw [SmartHome.onTheWay, hlink, Option.elim_some] at hempty
        have hnone : ¬wire.HasFrame link.stream := fun hframe => by
          rw [Framing.parse_of_hasFrame hframe] at hempty
          cases hempty
        rw [readOne_of_not_hasFrame hnone] at hread
        cases hread
    | dashboard a dashboard hevs hdraining hstep =>
        rw [(Hub.drained_iff loads).mp hsettled.dashboard a hdraining] at hstep
        cases hstep
  · intro hrest
    refine ⟨atRest_of_resting (handlersOk_run hbroker) (replaysOk_run hbroker)
      fun a hsmooth => ?_, (Hub.drained_iff loads).mpr fun a hdraining => ?_,
      fun hphase => ?_⟩
    · have hnone := hrest (.broker a) hsmooth
      have hfree : s.reserved a = false := by
        cases a with
        | receive c msg => cases hsmooth
        | _ => rfl
      rw [homeStep, hfree, if_neg Bool.false_ne_true] at hnone
      exact Option.map_eq_none_iff.mp (Option.map_eq_none_iff.mp hnone)
    · have hnone := hrest (.dashboard a) hdraining
      have hfree : needsLink a = false := by
        cases a with
        | proxy a =>
            cases a with
            | subscribed ok => rfl
            | _ => cases hdraining
        | replay event => cases hdraining
        | _ => rfl
      rw [homeStep, hfree, if_neg Bool.false_ne_true] at hnone
      exact Option.map_eq_none_iff.mp hnone
    · rw [SmartHome.onTheWay]
      cases hlink : s.link with
      | none => rfl
      | some link =>
          have hnone := hrest .read rfl
          rw [Option.elim_some]
          refine Framing.parse_of_not_hasFrame fun hframe => ?_
          have hsplit := List.take_append_drop
            (wire.frameLength link.stream) link.stream
          have hread := readOne_frame_append hframe.isFrame_take
            (link.stream.drop (wire.frameLength link.stream))
          rw [hsplit] at hread
          rw [homeStep, hlink] at hnone
          simp only [hread] at hnone
          exact reading_step_ne_none loads _ hphase
            (Option.map_eq_none_iff.mp hnone)

/-! ## The proxy misses nothing -/

/-- A run of such steps, seen from the proxy's connection. -/
structure Arriving (c : ClientId) (tr later : List HomeEvent)
    (s s' : SmartHome) : Prop where
  client : s'.clientOf .proxy = some c
  dead : c ∉ s'.broker.router.worker.dead
  onWire : AllOnWire (brokerIn (tr ++ later))
  reached : Reached c (brokerIn later)
  broker : Broker.broker.Run (fun _ a => a.isSmooth = true) s.broker
    (brokerIn later) s'.broker

theorem brokerIn_dashboard (hevs : List (SseEvent Event)) :
    brokerIn (hevs.map .dashboard) = [] := by
  rw [brokerIn, observationsIn_dashboard, brokerPart, List.filterMap_nil]

theorem Arriving.aside {t : SmartHome} (h : Arriving c tr later s t)
    (hbroker : s'.broker = t.broker)
    (hclient : s'.clientOf .proxy = t.clientOf .proxy)
    (hevs : brokerIn evs = []) : Arriving c tr (later ++ evs) s s' where
  client := hclient.trans h.client
  dead := by
    rw [hbroker]
    exact h.dead
  onWire := by
    rw [← List.append_assoc, brokerIn_append, hevs, List.append_nil]
    exact h.onWire
  reached := by
    rw [brokerIn_append, hevs, List.append_nil]
    exact h.reached
  broker := by
    rw [brokerIn_append, hevs, List.append_nil, hbroker]
    exact h.broker

theorem Arriving.step {t : SmartHome} (h : Arriving c tr later s t)
    (hrun : (smartHome loads).Reaches (.init log) (tr ++ later) t)
    (hstep : Settles loads t s' evs) : Arriving c tr (later ++ evs) s s' := by
  cases hstep with
  | read link frame stream dashboard hevs hlink hread hstep =>
      refine h.aside rfl ?_ (brokerIn_dashboard hevs)
      have hbefore : t.clientOf .proxy = link.client :=
        SmartHome.clientOf_of hlink
      exact hbefore.symm
  | dashboard a dashboard hevs =>
      exact h.aside rfl rfl (brokerIn_dashboard hevs)
  | broker a broker obs hsmooth hstep =>
      have hquiet := (forwarding_run hrun).quiet
      rw [proxyClient_of_some h.client] at hquiet
      have hbroker := brokerIn_run hrun
      obtain ⟨bevs, hbstep, hobs⟩ := observed_step_iff.mp hstep
      have hbevs : brokerIn (obs.map .broker) = bevs := by
        rw [brokerIn_broker, hobs, brokerPart_append, brokerPart_notes,
          brokerPart_map, List.nil_append]
      have hcases := BrokerServer.step_of_eq hbstep
      obtain ⟨hreached, hdead⟩ :=
        reached_step h.onWire hbroker hquiet h.dead hsmooth hcases
      refine ⟨?_, hdead, ?_, ?_, ?_⟩
      · obtain ⟨link, hlink, hclient⟩ :=
          SmartHome.clientOf_eq_some_iff.mp h.client
        refine SmartHome.clientOf_eq_some_iff.mpr
          ⟨link.gain (brokerPart obs), ?_, ?_⟩
        · rw [SmartHome.linkOf_afterBroker, hlink, Option.map_some]
        · rw [Link.client_gain, hclient]
      · rw [← List.append_assoc, brokerIn_append, hbevs]
        exact h.onWire.step (handlersOk_run hbroker) hsmooth hcases
      · rw [brokerIn_append, hbevs]
        exact h.reached.append hreached
      · rw [brokerIn_append, hbevs]
        exact h.broker.snoc hsmooth hbstep

theorem arriving_run (h : (smartHome loads).Reaches (.init log) tr s)
    (hclient : s.clientOf .proxy = some c)
    (hdead : c ∉ s.broker.router.worker.dead)
    (hwire : AllOnWire (brokerIn tr))
    (hlater : (smartHome loads).Run (fun _ a => a.isSettling = true) s later
      s') : Arriving c tr later s s' := by
  induction hlater with
  | nil =>
      refine ⟨hclient, hdead, ?_, ⟨?_, ?_, ?_, ?_⟩, System.Run.nil _⟩
      · rw [List.append_nil]
        exact hwire
      · exact fun e he => by cases he
      · exact List.not_mem_nil
      · exact List.not_mem_nil
      · exact List.not_mem_nil
  | snoc hbefore hsettling hstep ih =>
      have hrun := h.trans hbefore.reaches
      exact ih.step hrun (settles_of_step (linked_run hrun) hsettling hstep)

/-! ## The browsers miss nothing -/

theorem broadcastsIn_eq_nil {hevs : List (SseEvent Event)}
    (h : ∀ event, .broadcast event ∉ hevs) : broadcastsIn hevs = [] :=
  List.eq_nil_iff_forall_not_mem.mpr fun event hmem =>
    h event (mem_broadcastsIn_iff.mp hmem)

/-- A step that goes on keeps the browser, and tells it what is broadcast. -/
theorem keeps_step {i : ℕ} {b : Browser Event}
    (hb : s.dashboard.browsers[i]? = some b) (hlisted : b.listed = true)
    (hopen : b.handler ≠ .closed)
    (hroom : b.queue.length + (broadcastsIn (dashboardIn evs)).length ≤
      sseCapacity) (hstep : Settles loads s s' evs) :
    ∃ b', s'.dashboard.browsers[i]? = some b' ∧
      b.Keeps (broadcastsIn (dashboardIn evs)) b' := by
  cases hstep with
  | broker a broker obs =>
      rw [dashboardIn_broker]
      exact ⟨b, hb, Browser.keeps_nil hlisted hopen⟩
  | read link frame stream dashboard hevs hlink hread hstep =>
      have hshown : dashboardIn (.read .proxy frame :: hevs.map .dashboard) =
          hevs := dashboardIn_dashboard hevs
      rw [hshown] at hroom ⊢
      rcases (reading_step hstep).2.2 with ⟨-, hsame, rfl⟩ |
        ⟨event, -, hbrowsers, rfl⟩
      · exact ⟨b, (congrArg (·[i]?) hsame).trans hb,
          Browser.keeps_nil hlisted hopen⟩
      · refine ⟨{ b with queue := offer b.queue event }, ?_,
          Browser.keeps_offer hlisted hopen hroom⟩
        have hget : (broadcastSse s.dashboard.browsers event)[i]? =
            some { b with queue := offer b.queue event } := by
          rw [broadcastSse, List.getElem?_map, hb, Option.map_some,
            if_pos hlisted]
        exact (congrArg (·[i]?) hbrowsers).trans hget
  | dashboard a dashboard hevs hdraining hstep =>
      rw [dashboardIn_dashboard]
      cases draining_step hdraining hstep with
      | subscribed hphase hproxy hbrowsers hnone =>
          rw [hnone]
          exact ⟨b, (congrArg (·[i]?) hbrowsers).trans hb,
            Browser.keeps_nil hlisted hopen⟩
      | browser j d d' hproxy hd hdrains hbrowsers hnone =>
          rw [broadcastsIn_eq_nil hnone]
          by_cases hij : j = i
          · subst hij
            rw [hb] at hd
            cases hd
            have hlt := (List.getElem?_eq_some_iff.mp hb).1
            exact ⟨d', (congrArg (·[j]?) hbrowsers).trans
              (List.getElem?_set_self hlt), hdrains.keeps hlisted⟩
          · exact ⟨b, (congrArg (·[i]?) hbrowsers).trans
              ((List.getElem?_set_ne hij).trans hb),
              Browser.keeps_nil hlisted hopen⟩

theorem keeps_run (h : (smartHome loads).Reaches (.init log) tr s)
    (hlater : (smartHome loads).Run (fun _ a => a.isSettling = true) s later
      s') {i : ℕ} {b : Browser Event}
    (hb : s.dashboard.browsers[i]? = some b) (hlisted : b.listed = true)
    (hopen : b.handler ≠ .closed)
    (hroom : b.queue.length + (broadcastsIn (dashboardIn later)).length ≤
      sseCapacity) :
    ∃ b', s'.dashboard.browsers[i]? = some b' ∧
      b.Keeps (broadcastsIn (dashboardIn later)) b' := by
  induction hlater with
  | nil => exact ⟨b, hb, Browser.keeps_nil hlisted hopen⟩
  | snoc hbefore hsettling hstep ih =>
      rw [dashboardIn_append, broadcastsIn_append, List.length_append] at hroom
      obtain ⟨d, hd, hkeeps⟩ := ih (by omega)
      have hlength := hkeeps.length
      have hrun := h.trans hbefore.reaches
      obtain ⟨d', hd', hkeeps'⟩ := keeps_step hd hkeeps.listed hkeeps.opened
        (by omega) (settles_of_step (linked_run hrun) hsettling hstep)
      rw [dashboardIn_append, broadcastsIn_append]
      exact ⟨d', hd', hkeeps.trans hkeeps'⟩

theorem live_settles (h : Settles loads s s' evs) :
    ∀ event ∈ broadcastsIn (dashboardIn evs), isLive event = true := by
  intro event hmem
  cases h with
  | broker a broker obs =>
      rw [dashboardIn_broker] at hmem
      cases hmem
  | read link frame stream dashboard hevs hlink hread hstep =>
      have hshown : dashboardIn (.read .proxy frame :: hevs.map .dashboard) =
          hevs := dashboardIn_dashboard hevs
      rw [hshown] at hmem
      rcases (reading_step hstep).2.2 with ⟨-, -, rfl⟩ |
        ⟨event', hforward, -, rfl⟩
      · cases hmem
      · cases List.mem_singleton.mp hmem
        exact isLive_of_forward hforward
  | dashboard a dashboard hevs hdraining hstep =>
      rw [dashboardIn_dashboard] at hmem
      cases draining_step hdraining hstep with
      | subscribed hphase hproxy hbrowsers hnone =>
          rw [hnone] at hmem
          cases hmem
      | browser j d d' hproxy hd hdrains hbrowsers hnone =>
          rw [broadcastsIn_eq_nil hnone] at hmem
          cases hmem

theorem live_run (h : (smartHome loads).Reaches (.init log) tr s)
    (hlater : (smartHome loads).Run (fun _ a => a.isSettling = true) s later
      s') :
    (broadcastsIn (dashboardIn later)).filter isLive =
      broadcastsIn (dashboardIn later) := by
  rw [List.filter_eq_self]
  induction hlater with
  | nil => exact fun event hmem => by cases hmem
  | snoc hbefore hsettling hstep ih =>
      have hrun := h.trans hbefore.reaches
      intro event hmem
      rw [dashboardIn_append, broadcastsIn_append, List.mem_append] at hmem
      exact hmem.elim (ih event) (live_settles
        (settles_of_step (linked_run hrun) hsettling hstep) event)

/-! ## The whole way -/

/-- Where nothing is on its way, nothing is coming to the proxy. -/
theorem coming_of_settled (h : (smartHome loads).Reaches (.init log) tr s)
    (hclient : s.clientOf .proxy = some c) (hsettled : s.Settled) :
    s.onTheWay ++ s.toWrite = [] := by
  obtain ⟨link, hlink, -⟩ := SmartHome.clientOf_eq_some_iff.mp hclient
  have hlinked := linked_run h (Option.isSome_iff_exists.mpr ⟨link, hlink⟩)
  have hphase : s.dashboard.proxy.phase = .reading := by
    rw [linked, Bool.or_eq_true, decide_eq_true_iff, decide_eq_true_iff]
      at hlinked
    exact hlinked.resolve_left hsettled.dashboard.proxy
  rw [hsettled.read hphase, SmartHome.toWrite]
  rcases hsettled.broker.worker with ⟨hworker, -⟩ | hworker | hworker
  · rw [hworker]
    rfl
  · rw [hworker]
    rfl
  · rw [hworker]
    rfl

/-- From any state in which the proxy has subscribed and the router runs, the
steps that go on come to an end in whatever order they are taken, and they do
where nothing is on its way.  Until then the dashboard broadcasts exactly the
events that were coming to the proxy, and those of all messages in the heap and
in the hands of the publishers' handlers, each once; and every browser whose
queue has room for them has then been sent all of them. -/
theorem home_settles (h : (smartHome loads).Reaches (.init log) tr s)
    (hclient : s.clientOf .proxy = some c) (hlistening : Listening c s.broker)
    (hdead : c ∉ s.broker.router.worker.dead)
    (hrunning : s.broker.router.running = true)
    (hsound : .router .crashed ∉ brokerIn tr)
    (hrounds : ∀ e ∈ roundsIn (brokerIn tr), e.message.OnWire) :
    (∀ f : ℕ → SmartHome, f 0 = s → ¬∀ n, ∃ a evs,
      HomeAction.isSettling a = true ∧
        homeStep loads (f n) a = some (f (n + 1), evs)) ∧
    (∃ later s', (smartHome loads).Run (fun _ a => a.isSettling = true) s later
      s' ∧ s'.Settled) ∧
    ∀ later s', (smartHome loads).Run (fun _ a => a.isSettling = true) s later
      s' →
      (s'.Settled ↔ ∀ a : HomeAction, a.isSettling = true →
        homeStep loads s' a = none) ∧
      (s'.Settled →
        (broadcastsIn (dashboardIn later)).Perm
          (s.coming loads ++ s.pending.filterMap (eventOf loads)) ∧
        ∀ (i : ℕ) (b : Browser Event), s.dashboard.browsers[i]? = some b →
          b.listed = true → b.handler ≠ .closed →
          b.queue.length + (broadcastsIn (dashboardIn later)).length ≤
            sseCapacity →
          ∃ b', s'.dashboard.browsers[i]? = some b' ∧ b'.queue = [] ∧
            b'.sent =
              b.sent ++ b.queue ++ broadcastsIn (dashboardIn later)) := by
  have hdown : ∀ (s : SmartHome) (a : HomeAction) s' evs,
      (∃ tr, (smartHome loads).Reaches (.init log) tr s) →
      a.isSettling = true → (smartHome loads).step s a = some (s', evs) →
      (∃ tr, (smartHome loads).Reaches (.init log) tr s') ∧
        s'.work < s.work := by
    rintro s a s' evs ⟨tr, hrun⟩ hsettling hstep
    exact ⟨⟨_, hrun.snoc trivial hstep⟩,
      settles_work (replaysOk_run (brokerIn_run hrun))
        (settles_of_step (linked_run hrun) hsettling hstep)⟩
  refine ⟨?_, ?_, fun later s' hlater => ⟨?_, fun hsettled => ⟨?_, ?_⟩⟩⟩
  · rintro f rfl
    have hfinite := System.not_endless (M := smartHome loads) (f := f) hdown
      ⟨tr, h⟩
    exact hfinite
  · obtain ⟨later, s', hlater, hrest⟩ :=
      System.exists_resting (M := smartHome loads) hdown ⟨tr, h⟩
    exact ⟨later, s', hlater,
      (settled_iff (h.trans hlater.reaches)).mpr hrest⟩
  · exact settled_iff (h.trans hlater.reaches)
  · have hwire := allOnWire_of_rounds (brokerIn_run h) hrounds
    have harriving := arriving_run h hclient hdead hwire hlater
    have hcoming : s'.coming loads = [] := by
      rw [SmartHome.coming, coming_of_settled (h.trans hlater.reaches)
        harriving.client hsettled]
      rfl
    have hshown := passes_run h hlater.reaches
      ((clients_run h).known _ _ hclient) harriving.client hlistening
      harriving.reached
    rw [Passes, hcoming, List.append_nil, ← (shows_run hlater.reaches).live,
      live_run h hlater] at hshown
    rw [hshown]
    refine List.Perm.append_left _ ?_
    have hhanded := handed_perm_pending (brokerIn_run h) harriving.broker
      hsettled.broker hrunning fun hmem =>
        (List.mem_append.mp hmem).elim hsound harriving.reached.noCrash
    have hevents := hhanded.filterMap (eventOf loads)
    rw [List.filterMap_map] at hevents
    exact hevents
  · intro i b hb hlisted hopen hroom
    obtain ⟨b', hb', hkeeps⟩ := keeps_run h hlater hb hlisted hopen hroom
    have hempty : b'.queue = [] := by
      rcases hsettled.dashboard.browsers b' (List.mem_of_getElem? hb') with
        hclosed | ⟨-, hempty⟩
      · exact absurd hclosed hkeeps.opened
      · exact hempty
    have hkept := hkeeps.kept
    rw [hempty, List.append_nil] at hkept
    exact ⟨b', hb', hempty, hkept⟩

/-- The fire is in the hand of its handler, and a browser is told of it. -/
theorem home_settles_fire : ∃ tr s later s' b',
    (smartHome fun _ => none).Reaches (.init none) tr s ∧
    (smartHome fun _ => none).Run (fun _ a => a.isSettling = true) s later s' ∧
    s'.Settled ∧ s'.dashboard.browsers[0]? = some b' ∧
    b'.sent.any isDevice = true := by
  have hexec : ((smartHome fun _ => none).exec (fun _ _ => True) (.init none)
      (fireAlarm.take 14)).any (fun (r : SmartHome × List HomeEvent) =>
        decide (r.1.clientOf .proxy = some 0) &&
        decide (∀ topic ∈ smartHomeTopics,
          0 ∈ r.1.broker.registry.getSubscribers (topicHash topic)) &&
        decide (0 ∉ r.1.broker.router.worker.dead) &&
        decide (r.1.broker.router.running = true) &&
        decide (.router .crashed ∉ brokerIn r.2) &&
        decide (roundsIn (brokerIn r.2) = []) &&
        r.1.dashboard.browsers[0]?.any (fun b => decide (b.listed = true ∧
          b.handler ≠ .closed ∧ b.queue.length = 1)) &&
        (r.1.pending.filterMap (eventOf fun _ => none)).any isDevice &&
        decide (r.1.coming (fun _ => none) = []) &&
        decide (r.1.pending.length = 1)) = true := by
    decide +kernel
  obtain ⟨⟨s, tr⟩, hrun, hall⟩ := (Option.any_eq_true _ _).mp hexec
  simp only [Bool.and_eq_true, decide_eq_true_eq] at hall
  obtain ⟨⟨⟨⟨⟨⟨⟨⟨⟨hclient, htopics⟩, hdead⟩, hrunning⟩, hsound⟩, hrounds⟩,
    hbrowser⟩, hdevice⟩, hcoming⟩, hpending⟩ := hall
  have h := System.exec_run _ hrun
  obtain ⟨b, hb, hopen⟩ := (Option.any_eq_true _ _).mp hbrowser
  obtain ⟨hlisted, hopen, hqueue⟩ := of_decide_eq_true hopen
  obtain ⟨-, ⟨later, s', hlater, hsettled⟩, hends⟩ := home_settles h hclient
    (fun topic htopic => subscribed_iff.mpr (htopics _ htopic)) hdead hrunning
    hsound (by rw [hrounds]; exact fun e he => by cases he)
  obtain ⟨hperm, hbrowsers⟩ := (hends later s' hlater).2 hsettled
  rw [hcoming, List.nil_append] at hperm
  have hfew := List.length_filterMap_le (eventOf fun _ => none) s.pending
  have hlength := hperm.length_eq
  obtain ⟨b', hb', -, hsent⟩ := hbrowsers 0 b hb hlisted hopen
    (by rw [sseCapacity]; omega)
  refine ⟨tr, s, later, s', b', h, hlater, hsettled, hb', ?_⟩
  obtain ⟨event, hevent, hshown⟩ := List.any_eq_true.mp hdevice
  rw [hsent, List.any_eq_true]
  exact ⟨event, List.mem_append_right _ (hperm.mem_iff.mpr hevent), hshown⟩

end SentinelHub.Home
