import SentinelHub.Dashboard.Events
import SentinelHub.Dashboard.Sse

/-!
# The proxy connection

`proxy_broker_connection` keeps a connection to the broker, sets
`broker_connected` and tells the browsers whenever it does, and forwards the
frames of the broker.  A browser learns the status when it comes, and from then
on from its queue, like every other event.

Nothing is awaited between an assignment to `broker_connected` and the
broadcast behind it, so the two are one step.
-/

namespace SentinelHub.Dashboard

open Support Broker

/-! ## The proxy -/

/-- What `proxy_broker_connection` awaits: the connection, the drain behind the
subscriptions, a frame, or the end of its sleep. -/
inductive ProxyPhase
  | connecting
  | subscribing
  | reading
  | sleeping
  deriving DecidableEq, Repr

structure Proxy where
  brokerConnected : Bool
  backoff : ℕ
  phase : ProxyPhase
  deriving DecidableEq, Repr

def Proxy.init : Proxy where
  brokerConnected := false
  backoff := 1
  phase := .connecting

/-- What `_read_one` does: a frame, `None`, or an exception. -/
inductive BrokerRead
  | frame (frame : BrokerFrame)
  | closed
  | raised
  deriving DecidableEq, Repr

inductive ProxyAction
  | connect (ok : Bool)
  | subscribed (ok : Bool)
  | read (outcome : BrokerRead)
  | wake
  deriving DecidableEq, Repr

/-- Behind the inner loop, or the `except` branch. -/
def Proxy.disconnect (p : Proxy) : Proxy × Option Event :=
  ({ p with brokerConnected := false, phase := .sleeping },
    some (.connectionStatus false))

/-- One step of `proxy_broker_connection`, and the event that it broadcasts. -/
def proxyStep (loads : List Char → Option Json) (p : Proxy) :
    ProxyAction → Option (Proxy × Option Event)
  | .connect ok =>
      if p.phase = .connecting then
        if ok then
          some (
            { brokerConnected := true, backoff := 1, phase := .subscribing },
            some (.connectionStatus true))
        else some p.disconnect
      else none
  | .subscribed ok =>
      if p.phase = .subscribing then
        if ok then some ({ p with phase := .reading }, none)
        else some p.disconnect
      else none
  | .read outcome =>
      if p.phase = .reading then
        match outcome with
        | .frame frame => some (p, forward loads frame)
        | .closed => some p.disconnect
        | .raised => some p.disconnect
      else none
  | .wake =>
      if p.phase = .sleeping then
        some (
          { p with backoff := min (p.backoff * 2) 10, phase := .connecting },
          none)
      else none

/-! ## The dashboard -/

structure Hub where
  proxy : Proxy
  browsers : List (Browser Event)
  deriving Repr

def Hub.init : Hub where
  proxy := .init
  browsers := []

/-- The actions of the proxy, of the replays, and of the handlers of the
browsers. -/
inductive HubAction
  | proxy (a : ProxyAction)
  | replay (event : Event)
  | join
  | drained (browser : ℕ) (ok : Bool)
  | take (browser : ℕ)
  | cancel (browser : ℕ)
  deriving Repr

/-- What a step of the browsers makes of the dashboard. -/
def Hub.withBrowsers (s : Hub)
    (r : Option (List (Browser Event) × List (SseEvent Event))) :
    Option (Hub × List (SseEvent Event)) :=
  r.map fun (browsers, evs) => ({ s with browsers }, evs)

/-- One step of the dashboard. -/
def hubStep (loads : List Char → Option Json) (s : Hub) :
    HubAction → Option (Hub × List (SseEvent Event))
  | .proxy a =>
      match proxyStep loads s.proxy a with
      | none => none
      | some (proxy, none) => some ({ s with proxy }, [])
      | some (proxy, some event) =>
          ({ s with proxy } : Hub).withBrowsers
            (sseStep s.browsers (.broadcast event))
  | .replay event =>
      if event.isReplay then
        s.withBrowsers (sseStep s.browsers (.broadcast event))
      else none
  | .join =>
      s.withBrowsers (sseStep s.browsers
        (.join (.connectionStatus s.proxy.brokerConnected)))
  | .drained i ok => s.withBrowsers (sseStep s.browsers (.drained i ok))
  | .take i => s.withBrowsers (sseStep s.browsers (.take i))
  | .cancel i => s.withBrowsers (sseStep s.browsers (.cancel i))

/-- The dashboard with its proxy, and any number of browsers. -/
def hub (loads : List Char → Option Json) :
    System Hub HubAction (SseEvent Event) where
  step := hubStep loads

theorem hub_step (loads : List Char → Option Json) (s : Hub) (a : HubAction) :
    (hub loads).step s a = hubStep loads s a :=
  rfl

/-! ## Steps -/

variable {loads : List Char → Option Json} {p p' : Proxy} {s s' : Hub}
  {a : HubAction} {event : Event} {evs tr : List (SseEvent Event)}

/-- The proxy announces the status it sets, and while it announces nothing or
forwards a frame the status stays. -/
theorem proxyStep_cases {a : ProxyAction} {announced : Option Event}
    (hstep : proxyStep loads p a = some (p', announced)) :
    (announced = some (.connectionStatus p'.brokerConnected)) ∨
      (p'.brokerConnected = p.brokerConnected ∧ announced = none) ∨
        ∃ frame event, a = .read (.frame frame) ∧
          forward loads frame = some event ∧ p' = p ∧
            announced = some event := by
  cases a with
  | connect ok =>
      rw [proxyStep] at hstep
      split at hstep
      · left
        split at hstep
        · cases hstep
          rfl
        · cases hstep
          rfl
      · cases hstep
  | subscribed ok =>
      rw [proxyStep] at hstep
      split at hstep
      · split at hstep
        · cases hstep
          exact Or.inr (Or.inl ⟨rfl, rfl⟩)
        · cases hstep
          exact Or.inl rfl
      · cases hstep
  | read outcome =>
      rw [proxyStep.eq_def] at hstep
      dsimp only at hstep
      split at hstep
      · cases outcome with
        | frame frame =>
            simp only [Option.some.injEq, Prod.mk.injEq] at hstep
            obtain ⟨rfl, rfl⟩ := hstep
            cases hforward : forward loads frame with
            | none => exact Or.inr (Or.inl ⟨rfl, rfl⟩)
            | some event =>
                exact Or.inr (Or.inr ⟨frame, event, rfl, hforward, rfl, rfl⟩)
        | closed =>
            cases hstep
            exact Or.inl rfl
        | raised =>
            cases hstep
            exact Or.inl rfl
      · cases hstep
  | wake =>
      rw [proxyStep] at hstep
      split at hstep
      · cases hstep
        exact Or.inr (Or.inl ⟨rfl, rfl⟩)
      · cases hstep

/-- The step broadcasts an event that says nothing of the status. -/
def Forwards (loads : List Char → Option Json) : HubAction → Prop
  | .proxy (.read (.frame frame)) => (forward loads frame).isSome
  | .replay _ => True
  | _ => False

theorem Hub.withBrowsers_eq_some
    {r : Option (List (Browser Event) × List (SseEvent Event))}
    (h : s.withBrowsers r = some (s', evs)) :
    r = some (s'.browsers, evs) ∧ s'.proxy = s.proxy := by
  obtain ⟨⟨browsers, evs'⟩, hr, heq⟩ := Option.map_eq_some_iff.mp h
  cases heq
  exact ⟨hr, rfl⟩

/-- What a step of the dashboard does to the browsers: nothing, with the status
as it was; the status is announced; an event of another kind is broadcast; or
it is a step of a handler. -/
theorem hubStep_cases (hstep : hubStep loads s a = some (s', evs)) :
    (s'.browsers = s.browsers ∧ evs = [] ∧
      s'.proxy.brokerConnected = s.proxy.brokerConnected) ∨
    (sseStep s.browsers
        (.broadcast (.connectionStatus s'.proxy.brokerConnected)) =
      some (s'.browsers, evs)) ∨
    (Forwards loads a ∧ s'.proxy = s.proxy ∧ ∃ event, event.status = none ∧
      sseStep s.browsers (.broadcast event) = some (s'.browsers, evs)) ∨
    (s'.proxy = s.proxy ∧ ∃ b, (∀ event, b ≠ .broadcast event) ∧
      (∀ initial, b = .join initial →
        initial = .connectionStatus s.proxy.brokerConnected) ∧
      sseStep s.browsers b = some (s'.browsers, evs)) := by
  have hhandler : ∀ b : SseAction Event, (∀ event, b ≠ .broadcast event) →
      (∀ initial, b = .join initial →
        initial = .connectionStatus s.proxy.brokerConnected) →
      s.withBrowsers (sseStep s.browsers b) = some (s', evs) →
      s'.proxy = s.proxy ∧ ∃ b, (∀ event, b ≠ .broadcast event) ∧
        (∀ initial, b = .join initial →
          initial = .connectionStatus s.proxy.brokerConnected) ∧
        sseStep s.browsers b = some (s'.browsers, evs) := by
    intro b hne hjoin h
    obtain ⟨hsse, hproxy⟩ := Hub.withBrowsers_eq_some h
    exact ⟨hproxy, b, hne, hjoin, hsse⟩
  cases a with
  | proxy a =>
      rw [hubStep] at hstep
      split at hstep
      · cases hstep
      next proxy hproxy =>
        cases hstep
        rcases proxyStep_cases hproxy with h | h | ⟨_, _, -, -, -, h⟩
        · cases h
        · exact Or.inl ⟨rfl, rfl, h.1⟩
        · cases h
      next proxy event hproxy =>
        obtain ⟨hsse, hsame⟩ := Hub.withBrowsers_eq_some hstep
        rcases proxyStep_cases hproxy with h | h | ⟨frame, event', rfl,
          hforward, rfl, h⟩
        · cases h
          rw [hsame]
          exact Or.inr (Or.inl hsse)
        · cases h.2
        · cases h
          refine Or.inr (Or.inr (Or.inl ⟨?_, hsame, event,
            status_of_forward hforward, hsse⟩))
          rw [Forwards, hforward]
          rfl
  | replay event =>
      rw [hubStep] at hstep
      split at hstep
      next hreplay =>
        obtain ⟨hsse, hsame⟩ := Hub.withBrowsers_eq_some hstep
        exact Or.inr (Or.inr (Or.inl ⟨trivial, hsame, event,
          Event.status_of_isReplay hreplay, hsse⟩))
      · cases hstep
  | join =>
      refine Or.inr (Or.inr (Or.inr (hhandler (.join _) nofun ?_ hstep)))
      intro initial h
      cases h
      rfl
  | drained i ok =>
      exact Or.inr (Or.inr (Or.inr
        (hhandler (.drained i ok) nofun nofun hstep)))
  | take i =>
      exact Or.inr (Or.inr (Or.inr (hhandler (.take i) nofun nofun hstep)))
  | cancel i =>
      exact Or.inr (Or.inr (Or.inr (hhandler (.cancel i) nofun nofun hstep)))

/-- A run of the dashboard is a run of its browsers. -/
theorem sse_reaches_of_run {ok : Hub → HubAction → Prop}
    (h : (hub loads).Run ok s tr s') :
    sse.Reaches s.browsers tr s'.browsers := by
  induction h with
  | nil => exact System.Run.nil _
  | @snoc t u tr evs a hrun hok hstep ih =>
      rcases hubStep_cases hstep with ⟨hsame, rfl, -⟩ | hsse |
        ⟨-, -, event, -, hsse⟩ | ⟨-, b, -, -, hsse⟩
      · rw [List.append_nil, hsame]
        exact ih
      · exact ih.snoc (a := .broadcast _) trivial hsse
      · exact ih.snoc (a := .broadcast event) trivial hsse
      · exact ih.snoc (a := b) trivial hsse

/-! ## The status that a browser knows -/

/-- What the last `connection_status` event says. -/
def lastStatus (events : List Event) : Option Bool :=
  (events.filterMap Event.status).getLast?

@[simp] theorem lastStatus_concat (events : List Event) (event : Event) :
    lastStatus (events ++ [event]) = event.status.or (lastStatus events) := by
  rw [lastStatus, List.filterMap_append]
  cases hstatus : event.status with
  | none =>
      rw [List.filterMap_cons_none hstatus, List.filterMap_nil,
        List.append_nil, Option.none_or, lastStatus]
  | some connected =>
      rw [List.filterMap_cons_some hstatus, List.filterMap_nil,
        List.getLast?_concat, Option.some_or]

theorem lastStatus_append (events later : List Event) :
    lastStatus (events ++ later) =
      (lastStatus later).or (lastStatus events) := by
  rw [lastStatus, List.filterMap_append, List.getLast?_append, lastStatus,
    lastStatus]

theorem lastStatus_eq_none_iff {events : List Event} :
    lastStatus events = none ↔ ∀ event ∈ events, event.status = none := by
  rw [lastStatus, List.getLast?_eq_none_iff, List.filterMap_eq_nil_iff]

/-- Once its handler has sent what is in the queue, the browser has been told
the value of `broker_connected`. -/
def Informed (connected : Bool) (b : Browser Event) : Prop :=
  b.handler ≠ .closed → lastStatus (b.sent ++ b.queue) = some connected

/-- Every browser whose handler has emptied its queue has been told the value
of `broker_connected`. -/
def Converged (s : Hub) : Prop :=
  ∀ b ∈ s.browsers, b.handler ≠ .closed → b.queue = [] →
    lastStatus b.sent = some s.proxy.brokerConnected

/-- The queue of the browser is full, its oldest event is the only
`connection_status` event in it, and it says something else than the last one
that has been sent. -/
def AtRisk (b : Browser Event) : Prop :=
  b.handler ≠ .closed ∧ sseCapacity ≤ b.queue.length ∧
    ∃ oldest queue connected, b.queue = oldest :: queue ∧
      oldest.status = some connected ∧
        (∀ event ∈ queue, event.status = none) ∧
          lastStatus b.sent ≠ some connected

/-- No event of another kind is broadcast while a browser is at risk. -/
def StatusKept (loads : List Char → Option Json) (s : Hub) (a : HubAction) :
    Prop :=
  Forwards loads a → ∀ b ∈ s.browsers, ¬AtRisk b

variable {b b' : Browser Event} {connected : Bool} {i : ℕ}

/-- The queue behind a broadcast. -/
theorem lastStatus_offer (event : Event)
    (hle : b.queue.length ≤ sseCapacity) :
    (b.queue.length < sseCapacity ∧ lastStatus (b.sent ++ offer b.queue event) =
      event.status.or (lastStatus (b.sent ++ b.queue))) ∨
    ∃ oldest queue, b.queue = oldest :: queue ∧
      sseCapacity ≤ b.queue.length ∧
      lastStatus (b.sent ++ offer b.queue event) =
        event.status.or ((lastStatus queue).or (lastStatus b.sent)) := by
  rw [offer_eq _ _ hle, pushDropOldest]
  by_cases hfull : sseCapacity ≤ b.queue.length
  · right
    rw [if_pos hfull]
    cases hqueue : b.queue with
    | nil =>
        rw [hqueue] at hfull
        cases hfull
    | cons oldest queue =>
        refine ⟨oldest, queue, rfl, hqueue ▸ hfull, ?_⟩
        rw [List.tail_cons, ← List.append_assoc, lastStatus_concat,
          lastStatus_append]
  · left
    rw [if_neg hfull, ← List.append_assoc, lastStatus_concat]
    exact ⟨not_le.mp hfull, rfl⟩

/-- The status reaches every queue, whatever is given up for it. -/
theorem informed_offer_status (hle : b.queue.length ≤ sseCapacity) :
    Informed connected
      { b with queue := offer b.queue (.connectionStatus connected) } := by
  intro _
  rcases lastStatus_offer (.connectionStatus connected) hle with
    ⟨-, h⟩ | ⟨oldest, queue, -, -, h⟩
  · rw [h]
    rfl
  · rw [h]
    rfl

/-- When the queue is full, the risk is in its oldest event. -/
theorem atRisk_iff {oldest : Event} {queue : List Event}
    (hlive : b.handler ≠ .closed) (hfull : sseCapacity ≤ b.queue.length)
    (hqueue : b.queue = oldest :: queue) :
    AtRisk b ↔ ∃ connected, oldest.status = some connected ∧
      lastStatus queue = none ∧ lastStatus b.sent ≠ some connected := by
  constructor
  · rintro ⟨-, -, oldest', queue', connected, hqueue', hstatus, hnone, hne⟩
    rw [hqueue] at hqueue'
    cases hqueue'
    exact ⟨connected, hstatus, lastStatus_eq_none_iff.mpr hnone, hne⟩
  · rintro ⟨connected, hstatus, hnone, hne⟩
    exact ⟨hlive, hfull, oldest, queue, connected, hqueue, hstatus,
      lastStatus_eq_none_iff.mp hnone, hne⟩

/-- Another event leaves a browser informed exactly when it is not at risk. -/
theorem informed_offer_iff (hle : b.queue.length ≤ sseCapacity)
    (hlive : b.handler ≠ .closed) (h : Informed connected b)
    (hstatus : event.status = none) :
    Informed connected { b with queue := offer b.queue event } ↔
      ¬AtRisk b := by
  have hinformed := h hlive
  have hiff : Informed connected { b with queue := offer b.queue event } ↔
      lastStatus (b.sent ++ offer b.queue event) = some connected :=
    ⟨fun h => h hlive, fun h _ => h⟩
  rw [hiff]
  rcases lastStatus_offer event hle with
    ⟨hroom, heq⟩ | ⟨oldest, queue, hqueue, hfull, heq⟩
  · -- there is room, and nothing is given up
    rw [heq, hstatus, Option.none_or, hinformed]
    refine iff_of_true rfl ?_
    rintro ⟨-, hfull, -⟩
    omega
  · rw [heq, hstatus, Option.none_or, atRisk_iff hlive hfull hqueue]
    rw [hqueue, List.append_cons, lastStatus_append, lastStatus_concat]
      at hinformed
    cases hlast : lastStatus queue with
    | some later =>
        -- a later status is behind the oldest event
        rw [hlast, Option.some_or] at hinformed
        rw [Option.some_or]
        exact iff_of_true hinformed (by simp)
    | none =>
        rw [hlast, Option.none_or] at hinformed
        rw [Option.none_or]
        cases holdest : oldest.status with
        | none =>
            rw [holdest, Option.none_or] at hinformed
            exact iff_of_true hinformed (by simp)
        | some value =>
            -- the only status is given up
            rw [holdest, Option.some_or] at hinformed
            cases hinformed
            simp

/-! ## Convergence -/

theorem informed_of_announced
    (hmove : b.Move i [.broadcast (.connectionStatus connected)] b')
    (hle : b.queue.length ≤ sseCapacity)
    (hclosed : b.listed = false → b.handler = .closed) :
    Informed connected b' := by
  rcases hmove.broadcast_cases with ⟨-, rfl⟩ | ⟨hlisted, rfl⟩
  · exact informed_offer_status hle
  · exact fun hlive => absurd (hclosed hlisted) hlive

theorem informed_of_forwarded (hmove : b.Move i [.broadcast event] b')
    (hle : b.queue.length ≤ sseCapacity) (hstatus : event.status = none)
    (hrisk : ¬AtRisk b) (h : Informed connected b) : Informed connected b' := by
  rcases hmove.broadcast_cases with ⟨-, rfl⟩ | ⟨-, rfl⟩
  · intro hlive
    exact (informed_offer_iff hle hlive h hstatus).mpr hrisk hlive
  · exact h

theorem informed_of_handler (hmove : b.Move i evs b')
    (hevs : ∀ msg, .broadcast msg ∉ evs) (h : Informed connected b) :
    Informed connected b' := by
  cases hmove with
  | broadcast msg hlisted => exact absurd (List.mem_singleton_self _) (hevs msg)
  | missed msg hlisted => exact absurd (List.mem_singleton_self _) (hevs msg)
  | take msg queue hhandler hqueue =>
      intro _
      have hlast := h (by simp [hhandler])
      rw [hqueue, List.append_cons] at hlast
      exact hlast
  | leave hlisted => exact fun hlive => absurd rfl hlive
  | other evs handler hother hclosed =>
      exact fun hlive => h fun hdone => hlive (hclosed hdone)

/-- All browsers are informed. -/
def AllInformed (s : Hub) : Prop :=
  ∀ b ∈ s.browsers, Informed s.proxy.brokerConnected b

theorem AllInformed.converged (h : AllInformed s) : Converged s := by
  intro b hb hlive hempty
  have hlast := h b hb hlive
  rwa [hempty, List.append_nil] at hlast

/-- What a browser makes of a step, if it had come before. -/
theorem Moves.informed {s s' : List (Browser Event)} (hmoves : Moves s evs s')
    (h : ∀ (i : ℕ) (b b' : Browser Event), b ∈ s → b.Move i evs b' →
      Informed connected b') :
    ∀ b' ∈ s', Informed connected b' := by
  intro b' hb'
  obtain ⟨i, hi⟩ := List.mem_iff_getElem?.mp hb'
  obtain ⟨b, hb, hmove⟩ := hmoves.exists_move hi
  exact h i b b' (List.mem_of_getElem? hb) hmove

theorem AllInformed.step (h : AllInformed s)
    (hreaches : sse.Reaches [] tr s.browsers) (hkept : StatusKept loads s a)
    (hstep : hubStep loads s a = some (s', evs)) : AllInformed s' := by
  have hbrowsers := fun b hb => browser_of_reaches (b := b) hreaches hb
  rcases hubStep_cases hstep with ⟨hsame, -, hstatus⟩ | hsse |
    ⟨hforwards, hproxy, event, hstatus, hsse⟩ |
      ⟨hproxy, b, hne, hjoin, hsse⟩
  · rw [AllInformed, hsame, hstatus]
    exact h
  · obtain ⟨rfl, hmoves⟩ := moves_of_broadcast hsse
    refine hmoves.informed ?_
    intro i b b' hb hmove
    exact informed_of_announced hmove (hbrowsers b hb).1 (hbrowsers b hb).2
  · obtain ⟨rfl, hmoves⟩ := moves_of_broadcast hsse
    rw [AllInformed, hproxy]
    refine hmoves.informed ?_
    intro i b b' hb hmove
    exact informed_of_forwarded hmove (hbrowsers b hb).1 hstatus
      (hkept hforwards b hb) (h b hb)
  · rw [AllInformed, hproxy]
    rcases sseStep_cases hsse with ⟨initial, hbrowsers', rfl⟩ | hmoves
    · have hinitial : initial = .connectionStatus s.proxy.brokerConnected := by
        refine hjoin initial ?_
        exact (sseStep_event hsse).2 _ _ (List.mem_singleton_self _)
      rw [hbrowsers', hinitial]
      intro b' hb'
      rcases List.mem_append.mp hb' with hb' | hb'
      · exact h b' hb'
      · rw [List.mem_singleton.mp hb']
        exact fun _ => rfl
    · refine hmoves.informed ?_
      intro i b' b'' hb' hmove
      refine informed_of_handler hmove ?_ (h b' hb')
      exact fun msg he => hne msg ((sseStep_event hsse).1 msg he)

theorem allInformed_of_run
    (h : (hub loads).Run (StatusKept loads) .init tr s) : AllInformed s := by
  have hboth : (sse.Reaches [] tr s.browsers) ∧ AllInformed s := by
    refine h.invariant (I := fun tr s =>
      sse.Reaches [] tr s.browsers ∧ AllInformed s)
      ⟨System.Run.nil _, fun b hb => by cases hb⟩ ?_
    rintro tr t a u evs ⟨hreaches, hinformed⟩ hkept hstep
    refine ⟨?_, hinformed.step hreaches hkept hstep⟩
    have hone : (hub loads).Reaches t evs u := System.Run.single trivial hstep
    exact hreaches.trans (sse_reaches_of_run hone)
  exact hboth.2

/-! ## What becomes of a browser at risk -/

/-- The handler comes to wait for an event. -/
theorem hub_waiting (loads : List Char → Option Json)
    (hi : s.browsers[i]? = some b) (hlive : b.handler ≠ .closed) :
    ∃ tr t, (hub loads).Reaches s tr t ∧ t.proxy = s.proxy ∧
      t.browsers[i]? = some { b with handler := .waiting } := by
  have hlt := (List.getElem?_eq_some_iff.mp hi).1
  have hdrained : b.drained true = some { b with handler := .waiting } →
      ∃ tr t, (hub loads).Reaches s tr t ∧ t.proxy = s.proxy ∧
        t.browsers[i]? = some { b with handler := .waiting } := by
    intro h
    have hstep : hubStep loads s (.drained i true) =
        some ({ s with browsers :=
            s.browsers.set i { b with handler := .waiting } },
          leftEvents i b { b with handler := .waiting }) := by
      simp only [hubStep, sseStep, hi, h, Hub.withBrowsers, Option.map_some]
    exact ⟨_, _, System.Run.single (a := .drained i true) trivial hstep, rfl,
      List.getElem?_set_self hlt⟩
  cases hhandler : b.handler with
  | waiting =>
      refine ⟨[], s, System.Run.nil s, rfl, ?_⟩
      rw [hi, ← hhandler]
  | opening =>
      refine hdrained ?_
      simp only [Browser.drained, hhandler, if_true]
  | sending =>
      refine hdrained ?_
      simp only [Browser.drained, hhandler, if_true]
  | closed => exact absurd hhandler hlive

/-- The handler can send all that is in its queue while nothing else happens. -/
theorem hub_reads (loads : List Char → Option Json) {queue : List Event}
    (hi : s.browsers[i]? = some b) (hlive : b.handler ≠ .closed)
    (hqueue : b.queue = queue) :
    ∃ tr t, (hub loads).Reaches s tr t ∧ t.proxy = s.proxy ∧
      ∃ b' ∈ t.browsers, b'.handler ≠ .closed ∧ b'.queue = [] ∧
        b'.sent = b.sent ++ queue := by
  induction queue generalizing s b with
  | nil =>
      exact ⟨[], s, System.Run.nil s, rfl, b,
        List.mem_of_getElem? hi, hlive, hqueue, (List.append_nil _).symm⟩
  | cons msg queue ih =>
      obtain ⟨tr₁, u, hrun₁, hproxy₁, hu⟩ := hub_waiting loads hi hlive
      have hlt := (List.getElem?_eq_some_iff.mp hu).1
      let b₂ : Browser Event :=
        { b with handler := .sending, queue, sent := b.sent ++ [msg] }
      have hsending : b₂.handler ≠ .closed := SseHandler.noConfusion
      have hstep : hubStep loads u (.take i) =
          some ({ u with browsers := u.browsers.set i b₂ },
            [.took i msg]) := by
        simp only [hubStep, sseStep, hu, Browser.take, hqueue,
          Hub.withBrowsers, Option.map_some, b₂]
      obtain ⟨tr₃, t, hrun₃, hproxy₃, b', hb', hlive', hempty, hsent⟩ :=
        ih (s := { u with browsers := u.browsers.set i b₂ }) (b := b₂)
          (List.getElem?_set_self hlt) hsending rfl
      have hrun₂ : (hub loads).Reaches u [.took i msg]
          { u with browsers := u.browsers.set i b₂ } :=
        System.Run.single (a := .take i) trivial hstep
      refine ⟨tr₁ ++ [.took i msg] ++ tr₃, t, (hrun₁.trans hrun₂).trans hrun₃,
        hproxy₃.trans hproxy₁, b', hb', hlive', hempty, ?_⟩
      rw [hsent, List.append_assoc]
      rfl

theorem hubStep_forwards (hforwards : Forwards loads a)
    (hstep : hubStep loads s a = some (s', evs)) :
    s'.proxy = s.proxy ∧ ∃ event, event.status = none ∧
      sseStep s.browsers (.broadcast event) = some (s'.browsers, evs) := by
  cases a with
  | proxy a =>
      cases a with
      | read outcome =>
          cases outcome with
          | frame frame =>
              obtain ⟨event, hforward⟩ := Option.isSome_iff_exists.mp hforwards
              rw [hubStep, proxyStep] at hstep
              by_cases hphase : s.proxy.phase = .reading
              · simp only [if_pos hphase, hforward] at hstep
                obtain ⟨hsse, hproxy⟩ := Hub.withBrowsers_eq_some hstep
                exact ⟨hproxy, event, status_of_forward hforward, hsse⟩
              · simp only [if_neg hphase] at hstep
                cases hstep
          | closed => cases hforwards
          | raised => cases hforwards
      | connect ok => cases hforwards
      | subscribed ok => cases hforwards
      | wake => cases hforwards
  | replay event =>
      rw [hubStep] at hstep
      split at hstep
      next hreplay =>
        obtain ⟨hsse, hproxy⟩ := Hub.withBrowsers_eq_some hstep
        exact ⟨hproxy, event, Event.status_of_isReplay hreplay, hsse⟩
      · cases hstep
  | join => cases hforwards
  | drained i ok => cases hforwards
  | take i => cases hforwards
  | cancel i => cases hforwards

/-- A browser that was at risk can end up with an old status. -/
theorem exists_not_converged
    (hrun : (hub loads).Run (StatusKept loads) .init tr s)
    (hstep : hubStep loads s a = some (s', evs))
    (hlost : ¬StatusKept loads s a) :
    ∃ tr' t, (hub loads).Reaches s' tr' t ∧ ¬Converged t := by
  have hinformed := allInformed_of_run hrun
  simp only [StatusKept, not_forall, not_not] at hlost
  obtain ⟨hforwards, b, hb, hrisk⟩ := hlost
  obtain ⟨hproxy, event, hstatus, hsse⟩ := hubStep_forwards hforwards hstep
  obtain ⟨hle, hclosed⟩ := browser_of_reaches (sse_reaches_of_run hrun) hb
  have hlive := hrisk.1
  obtain ⟨i, hi⟩ := List.mem_iff_getElem?.mp hb
  obtain ⟨rfl, hmoves⟩ := moves_of_broadcast hsse
  obtain ⟨b', hi', hmove⟩ := hmoves.move i b hi
  rcases hmove.broadcast_cases with ⟨-, rfl⟩ | ⟨hlisted, -⟩
  · obtain ⟨tr', t, hreads, hproxy', b'', hb'', hlive', hempty, hsent⟩ :=
      hub_reads loads hi' hlive rfl
    refine ⟨tr', t, hreads, fun hconverged => ?_⟩
    have hlast := hconverged b'' hb'' hlive' hempty
    rw [hsent, hproxy', hproxy] at hlast
    exact (informed_offer_iff hle hlive (hinformed b hb) hstatus).mp
      (fun _ => hlast) hrisk
  · exact absurd (hclosed hlisted) hlive

/-- A browser comes, and then the proxy connects. -/
theorem run_connected (loads : List Char → Option Json) :
    (hub loads).Run (StatusKept loads) .init
      [.joined 0 (.connectionStatus false), .broadcast (.connectionStatus true)]
      { proxy := ⟨true, 1, .subscribing⟩
        browsers := [⟨.waiting, [.connectionStatus true], true,
          [.connectionStatus false]⟩] } := by
  have hkept : ∀ s a, ¬Forwards loads a → StatusKept loads s a :=
    fun s a hnot hforwards => absurd hforwards hnot
  have hjoined : (hub loads).Run (StatusKept loads) .init
      [.joined 0 (.connectionStatus false)]
      ⟨.init, [.join (.connectionStatus false)]⟩ :=
    System.Run.single (a := HubAction.join) (hkept _ _ id) rfl
  have hwaiting := hjoined.snoc (a := HubAction.drained 0 true)
    (hkept _ _ id) rfl
  exact hwaiting.snoc (a := HubAction.proxy (.connect true))
    (hkept _ _ id) rfl

/-- As long as no event of another kind is broadcast while a browser is at risk,
every browser that has read its queue knows the value of `broker_connected`; and
if such an event is broadcast, the browsers can come not to know it. -/
theorem browsers_converge_while_status_kept
    (h : (hub loads).Run (StatusKept loads) .init tr s) :
    Converged s ∧
      ∀ (a : HubAction) (s' : Hub) (evs : List (SseEvent Event)),
        hubStep loads s a = some (s', evs) → ¬StatusKept loads s a →
          ∃ tr' t, (hub loads).Reaches s' tr' t ∧ ¬Converged t :=
  ⟨(allInformed_of_run h).converged, fun _ _ _ hstep hlost =>
    exists_not_converged h hstep hlost⟩

/-- The browser reads that the proxy has connected. -/
theorem browsers_converge_while_status_kept_connected :
    ∃ (tr : List (SseEvent Event)) (s : Hub),
      (hub fun _ => none).Run (StatusKept fun _ => none) .init tr s ∧
        s.browsers.map (·.sent) =
          [[.connectionStatus false, .connectionStatus true]] ∧
        Converged s := by
  have hrun := (run_connected fun _ => none).snoc (a := HubAction.take 0)
    (fun hforwards => False.elim hforwards) rfl
  exact ⟨_, _, hrun, rfl, (browsers_converge_while_status_kept hrun).1⟩

/-! ## A status that is lost -/

/-- An empty message about `home/fire`. -/
def fireFrame : BrokerFrame where
  cmd := 2
  tid := 0x4EEC8F19
  pri := 255
  payload := []
  header := [0x02, 0x4E, 0xEC, 0x8F, 0x19, 0xFF, 0, 0, 0, 0]

def fireEvent : Event :=
  .qos "home/fire" 255 [] fireFrame.rawHex

theorem forward_fireFrame (loads : List Char → Option Json) :
    forward loads fireFrame = some fireEvent := by
  have htopic : topicName fireFrame.tid = some "home/fire" := by
    decide +kernel
  exact forward_of_device loads fireFrame htopic (by decide)

/-- A browser has come before the proxy connected, and has read nothing since,
while `n` messages were forwarded. -/
def flooded (n : ℕ) : Hub where
  proxy := ⟨true, 1, .reading⟩
  browsers := [⟨.waiting, .connectionStatus true :: List.replicate n fireEvent,
    true, [.connectionStatus false]⟩]

theorem step_flooded (loads : List Char → Option Json) (n : ℕ) :
    (hub loads).step (flooded n) (.proxy (.read (.frame fireFrame))) =
      some (⟨(flooded n).proxy, broadcastSse (flooded n).browsers fireEvent⟩,
        [.broadcast fireEvent]) := by
  simp only [hub_step, hubStep, proxyStep, flooded, if_true,
    forward_fireFrame, Hub.withBrowsers, sseStep, Option.map_some]

theorem broadcastSse_flooded {n : ℕ} (hn : n + 1 < sseCapacity) :
    broadcastSse (flooded n).browsers fireEvent =
      (flooded (n + 1)).browsers := by
  have hoffer : offer (.connectionStatus true :: List.replicate n fireEvent)
      fireEvent =
        .connectionStatus true :: List.replicate (n + 1) fireEvent := by
    rw [offer_eq _ _ (by simp; omega), pushDropOldest,
      if_neg (by simp; omega), List.cons_append, List.replicate_succ']
  simp only [broadcastSse, flooded, List.map_cons, List.map_nil, if_true,
    hoffer]

theorem run_flooded (loads : List Char → Option Json) {n : ℕ}
    (hn : n < sseCapacity) :
    ∃ tr, (hub loads).Run (StatusKept loads) .init tr (flooded n) := by
  induction n with
  | zero =>
      have hrun := (run_connected loads).snoc
        (a := HubAction.proxy (.subscribed true))
        (fun hforwards => False.elim hforwards) rfl
      exact ⟨_, hrun⟩
  | succ n ih =>
      obtain ⟨tr, hrun⟩ := ih (by omega)
      have hstep := step_flooded loads n
      rw [broadcastSse_flooded hn] at hstep
      refine ⟨_, hrun.snoc ?_ hstep⟩
      intro _ b hb hrisk
      have hfull := hrisk.2.1
      rw [List.mem_singleton.mp hb, List.length_cons, List.length_replicate]
        at hfull
      omega

/-- A browser that reads nothing while 2000 messages are forwarded loses the
event that said that the broker is connected. -/
theorem status_lost_under_load :
    ∃ (tr : List (SseEvent Event)) (s : Hub),
      (hub fun _ => none).Reaches .init tr s ∧ ¬Converged s := by
  obtain ⟨tr, hrun⟩ := run_flooded (fun _ => none) (n := 1999) (by decide)
  have hstep := step_flooded (fun _ => none) 1999
  have hlost : ¬StatusKept (fun _ => none) (flooded 1999)
      (.proxy (.read (.frame fireFrame))) := by
    intro hkept
    refine hkept ?_ _ (List.mem_singleton_self _) ⟨nofun, ?_, _, _, true, rfl,
      rfl, ?_, nofun⟩
    · rw [Forwards, forward_fireFrame]
      rfl
    · rw [List.length_cons, List.length_replicate, sseCapacity]
    · intro event hevent
      rw [List.eq_of_mem_replicate hevent]
      rfl
  have hstep' := hstep
  rw [hub_step] at hstep'
  obtain ⟨tr', t, hreads, hnot⟩ := exists_not_converged hrun hstep' hlost
  have hfull := hrun.reaches.trans (System.Run.single trivial hstep)
  exact ⟨_, t, hfull.trans hreads, hnot⟩

end SentinelHub.Dashboard
