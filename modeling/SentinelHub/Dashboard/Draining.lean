import SentinelHub.Dashboard.Proxy

/-!
# The queues run empty

What is in the queue of a browser is written to it, by and by, while its handler
lives.  As long as the queue has room for everything that is broadcast in the
meantime, the browser is sent all of it.
-/

namespace SentinelHub.Dashboard

open Support Broker

variable {μ : Type*} {b b' : Browser μ} {msg : μ}

/-! ## One browser -/

/-- The steps that a handler is to take for what is in its queue. -/
def Browser.work (b : Browser μ) : ℕ :=
  2 * b.queue.length +
    if b.handler = .opening ∨ b.handler = .sending then 1 else 0

/-- The handler has ended, or awaits an event and has none. -/
def Browser.Drained (b : Browser μ) : Prop :=
  b.handler = .closed ∨ (b.handler = .waiting ∧ b.queue = [])

theorem Browser.work_drained (h : b.drained true = some b') :
    b'.work < b.work := by
  rw [drained] at h
  split at h
  next hopening =>
    cases h
    simp [work, hopening]
  next hsending =>
    cases h
    simp [work, hsending]
  · cases h

theorem Browser.work_take (h : b.take = some (b', msg)) : b'.work < b.work := by
  obtain ⟨queue, hwaiting, hqueue, rfl⟩ := take_eq_some h
  simp [work, hwaiting, hqueue, Nat.mul_succ]

theorem Browser.drained_of_stuck (hdrained : b.drained true = none)
    (htake : b.take = none) : b.Drained := by
  rcases b with ⟨handler, queue, listed, sent⟩
  cases handler with
  | opening => cases hdrained
  | sending => cases hdrained
  | closed => exact Or.inl rfl
  | waiting =>
      cases queue with
      | nil => exact Or.inr ⟨rfl, rfl⟩
      | cons msg queue => cases htake

theorem Browser.Drained.stuck (h : b.Drained) :
    b.drained true = none ∧ b.take = none := by
  rcases b with ⟨handler, queue, listed, sent⟩
  rcases h with hclosed | ⟨hwaiting, hqueue⟩
  · cases hclosed
    exact ⟨rfl, rfl⟩
  · cases hwaiting
    cases hqueue
    exact ⟨rfl, rfl⟩

/-- A browser that listens has been sent, or has in its queue, what it had
before and the events `told`. -/
structure Browser.Keeps (b : Browser μ) (told : List μ) (b' : Browser μ) :
    Prop where
  listed : b'.listed = true
  opened : b'.handler ≠ .closed
  kept : b'.sent ++ b'.queue = b.sent ++ b.queue ++ told
  length : b'.queue.length ≤ b.queue.length + told.length

theorem Browser.keeps_nil (hlisted : b.listed = true)
    (hopen : b.handler ≠ .closed) : b.Keeps [] b where
  listed := hlisted
  opened := hopen
  kept := (List.append_nil _).symm
  length := le_rfl

theorem Browser.Keeps.trans {b'' : Browser μ} {told told' : List μ}
    (h : b.Keeps told b') (h' : b'.Keeps told' b'') :
    b.Keeps (told ++ told') b'' where
  listed := h'.listed
  opened := h'.opened
  kept := by rw [h'.kept, h.kept, List.append_assoc]
  length := by
    have hle := h.length
    have hle' := h'.length
    rw [List.length_append]
    omega

theorem Browser.keeps_drained (hlisted : b.listed = true)
    (h : b.drained true = some b') : b.Keeps [] b' := by
  rw [drained] at h
  split at h
  next hopening =>
    cases h
    exact ⟨hlisted, by simp, (List.append_nil _).symm, le_rfl⟩
  next hsending =>
    cases h
    exact ⟨hlisted, by simp, (List.append_nil _).symm, le_rfl⟩
  · cases h

theorem Browser.keeps_take (hlisted : b.listed = true)
    (h : b.take = some (b', msg)) : b.Keeps [] b' := by
  obtain ⟨queue, hwaiting, hqueue, rfl⟩ := take_eq_some h
  refine ⟨hlisted, by simp, ?_, ?_⟩
  · rw [hqueue]
    simp
  · rw [hqueue]
    exact Nat.le_succ _

theorem Browser.keeps_offer (hlisted : b.listed = true)
    (hopen : b.handler ≠ .closed) (hroom : b.queue.length < sseCapacity) :
    b.Keeps [msg] { b with queue := offer b.queue msg } := by
  have hoffer : offer b.queue msg = b.queue ++ [msg] := by
    rw [offer_eq _ _ hroom.le, pushDropOldest, if_neg (not_le.mpr hroom)]
  refine ⟨hlisted, hopen, ?_, ?_⟩
  · rw [hoffer, List.append_assoc]
  · rw [hoffer, List.length_append]

/-! ## The dashboard -/

/-- The steps in which the dashboard gets through what it has, and nothing
fails. -/
def HubAction.isDraining : HubAction → Bool
  | .proxy (.subscribed ok) => ok
  | .drained _ ok => ok
  | .take _ => true
  | _ => false

/-- What such a step of a handler does to its browser. -/
inductive Browser.Drains (b : Browser μ) (b' : Browser μ) : Prop
  | drained (h : b.drained true = some b')
  | took (msg : μ) (h : b.take = some (b', msg))

theorem Browser.Drains.work (h : b.Drains b') : b'.work < b.work := by
  cases h with
  | drained h => exact work_drained h
  | took msg h => exact work_take h

theorem Browser.Drains.keeps (h : b.Drains b') (hlisted : b.listed = true) :
    b.Keeps [] b' := by
  cases h with
  | drained h => exact keeps_drained hlisted h
  | took msg h => exact keeps_take hlisted h

/-- What such a step does to the dashboard. -/
inductive Hub.Drains (s s' : Hub) (evs : List (SseEvent Event)) : Prop
  | subscribed (hphase : s.proxy.phase = .subscribing)
      (hproxy : s'.proxy = { s.proxy with phase := .reading })
      (hbrowsers : s'.browsers = s.browsers) (hevs : evs = [])
  | browser (i : ℕ) (b b' : Browser Event) (hproxy : s'.proxy = s.proxy)
      (hb : s.browsers[i]? = some b) (hdrains : b.Drains b')
      (hbrowsers : s'.browsers = s.browsers.set i b')
      (hevs : ∀ event, .broadcast event ∉ evs)

variable {loads : List Char → Option Json} {s s' : Hub} {a : HubAction}
  {evs : List (SseEvent Event)} {frame : BrokerFrame}

theorem draining_step (hdraining : a.isDraining = true)
    (h : hubStep loads s a = some (s', evs)) : s.Drains s' evs := by
  cases a with
  | proxy a =>
      cases a with
      | subscribed ok =>
          obtain rfl : ok = true := hdraining
          rw [hubStep, proxyStep] at h
          by_cases hphase : s.proxy.phase = .subscribing
          · rw [if_pos hphase, if_pos rfl] at h
            cases h
            exact .subscribed hphase rfl rfl rfl
          · rw [if_neg hphase] at h
            cases h
      | _ => cases hdraining
  | replay event => cases hdraining
  | join => cases hdraining
  | cancel i => cases hdraining
  | drained i ok =>
      obtain rfl : ok = true := hdraining
      obtain ⟨hsse, hproxy⟩ := Hub.withBrowsers_eq_some h
      have hevent := (sseStep_event hsse).1
      rw [sseStep] at hsse
      split at hsse
      · cases hsse
      next b hb =>
        split at hsse
        · cases hsse
        next b' hdrained =>
          obtain ⟨hbrowsers, -⟩ := Prod.mk.inj (Option.some.inj hsse)
          exact .browser i b b' hproxy hb (.drained hdrained) hbrowsers.symm
            fun event hmem => by cases hevent event hmem
  | take i =>
      obtain ⟨hsse, hproxy⟩ := Hub.withBrowsers_eq_some h
      have hevent := (sseStep_event hsse).1
      rw [sseStep] at hsse
      split at hsse
      · cases hsse
      next b hb =>
        split at hsse
        · cases hsse
        next b' msg htake =>
          obtain ⟨hbrowsers, -⟩ := Prod.mk.inj (Option.some.inj hsse)
          exact .browser i b b' hproxy hb (.took msg htake) hbrowsers.symm
            fun event hmem => by cases hevent event hmem

/-- A step in which the proxy reads a frame. -/
theorem reading_step
    (h : hubStep loads s (.proxy (.read (.frame frame))) = some (s', evs)) :
    s.proxy.phase = .reading ∧ s'.proxy = s.proxy ∧
      ((forward loads frame = none ∧ s'.browsers = s.browsers ∧ evs = []) ∨
        ∃ event, forward loads frame = some event ∧
          s'.browsers = broadcastSse s.browsers event ∧
          evs = [.broadcast event]) := by
  rw [hubStep, proxyStep] at h
  by_cases hphase : s.proxy.phase = .reading
  · rw [if_pos hphase] at h
    refine ⟨hphase, ?_⟩
    cases hforward : forward loads frame with
    | none =>
        rw [hforward] at h
        cases h
        exact ⟨rfl, Or.inl ⟨rfl, rfl, rfl⟩⟩
    | some event =>
        rw [hforward] at h
        obtain ⟨hsse, hproxy⟩ := Hub.withBrowsers_eq_some h
        obtain ⟨hbrowsers, hevs⟩ := Prod.mk.inj (Option.some.inj hsse)
        exact ⟨hproxy, Or.inr ⟨event, rfl, hbrowsers.symm, hevs.symm⟩⟩
  · rw [if_neg hphase] at h
    cases h

/-- A proxy that reads takes any frame. -/
theorem reading_step_ne_none (loads : List Char → Option Json)
    (frame : BrokerFrame) (hphase : s.proxy.phase = .reading) :
    hubStep loads s (.proxy (.read (.frame frame))) ≠ none := by
  intro hnone
  rw [hubStep, proxyStep, if_pos hphase] at hnone
  cases hforward : forward loads frame with
  | none =>
      rw [hforward] at hnone
      cases hnone
  | some event =>
      rw [hforward] at hnone
      cases hnone

/-- A dashboard with nothing to do. -/
structure Hub.Drained (s : Hub) : Prop where
  proxy : s.proxy.phase ≠ .subscribing
  browsers : ∀ b ∈ s.browsers, b.Drained

theorem Hub.drained_iff (loads : List Char → Option Json) :
    s.Drained ↔ ∀ a : HubAction, a.isDraining = true →
      hubStep loads s a = none := by
  constructor
  · intro h a hdraining
    by_contra hsome
    obtain ⟨⟨s', evs⟩, hstep⟩ := Option.ne_none_iff_exists'.mp hsome
    cases draining_step hdraining hstep with
    | subscribed hphase => exact h.proxy hphase
    | browser i b b' hproxy hb hdrains =>
        obtain ⟨hdrained, htake⟩ :=
          (h.browsers b (List.mem_of_getElem? hb)).stuck
        cases hdrains with
        | drained hstep =>
            rw [hdrained] at hstep
            cases hstep
        | took msg hstep =>
            rw [htake] at hstep
            cases hstep
  · intro h
    refine ⟨fun hphase => ?_, fun b hb => ?_⟩
    · have hnone := h (.proxy (.subscribed true)) rfl
      rw [hubStep, proxyStep, if_pos hphase, if_pos rfl] at hnone
      cases hnone
    · obtain ⟨i, hi⟩ := List.mem_iff_getElem?.mp hb
      have hdrained := Option.map_eq_none_iff.mp (h (.drained i true) rfl)
      have htake := Option.map_eq_none_iff.mp (h (.take i) rfl)
      simp only [sseStep, hi] at hdrained htake
      refine Browser.drained_of_stuck ?_ ?_
      · cases hb' : b.drained true with
        | none => rfl
        | some b' =>
            simp only [hb'] at hdrained
            cases hdrained
      · cases hb' : b.take with
        | none => rfl
        | some result =>
            simp only [hb'] at htake
            cases htake

end SentinelHub.Dashboard
