import SentinelHub.Broker.Pipeline
import SentinelHub.Broker.Registry

/-!
# Time travel on the running broker

A replay reads the log step by step while publishes go on.  This module
follows the replay of one client through every run of the broker: what it has
written are, one by one, the frames of the log from the requested offset on,
and when it finishes these are all the frames that the log holds by then.

A client that only time-travels is never subscribed, so that the router writes
nothing to it.  It gets every frame of a topic exactly once if and only if no
further frame of the topic reaches the log after the last read of its replay.
-/

namespace SentinelHub.Broker

open SentinelHub.Support

/-! ## What is written to a client -/

/-- The frames that replays have written to a client, with their positions in
the log. -/
def replayedTo (c : ClientId) (tr : List BrokerEvent) : List (Bytes × ℕ) :=
  tr.filterMap fun
    | .replayed d frame start => if d = c then some (frame, start) else none
    | _ => none

/-- The frames that the router has written to a client, with the sequence
numbers of their messages. -/
def writtenTo (c : ClientId) (tr : List BrokerEvent) : List (ℕ × Bytes) :=
  tr.filterMap fun
    | .router (.wrote seq d frame) => if d = c then some (seq, frame) else none
    | _ => none

/-- The messages enqueued by publish handlers, with their sequence numbers and
the positions of their frames. -/
def enqueuedAs (tr : List BrokerEvent) : List (ℕ × Message × ℕ) :=
  tr.filterMap fun
    | .published _ seq msg start => some (seq, msg, start)
    | _ => none

/-- How often the message whose frame lies at `start` has been written to a
client, by a replay or by the router. -/
def deliveries (c : ClientId) (tr : List BrokerEvent) (msg : Message)
    (start : ℕ) : ℕ :=
  (replayedTo c tr).count (msg.frame, start) +
    (writtenTo c tr).countP fun written =>
      written.2 = msg.frame ∧ (written.1, msg, start) ∈ enqueuedAs tr

/-- The client stays connected, and no write to it fails. -/
structure Connected (c : ClientId) (tr : List BrokerEvent) : Prop where
  stays : .unregistered c ∉ tr
  kept : .router (.unregistered c) ∉ tr
  reached : .router (.unreachable c) ∉ tr
  replays : .replayFailed c ∉ tr

/-- No publish is on its way from the log to the router, and the router has
nothing left to do. -/
structure BrokerServer.Quiescent (s : BrokerServer) : Prop where
  noneHeld : s.suspended = []
  heap : s.router.heap = []
  worker : s.router.worker = .waiting

variable {s s' : BrokerServer} {a : BrokerAction} {c : ClientId}
  {tr tr' evs : List BrokerEvent} {log : Option Bytes} {o : ℕ}

theorem replayedTo_append (c : ClientId) (tr tr' : List BrokerEvent) :
    replayedTo c (tr ++ tr') = replayedTo c tr ++ replayedTo c tr' :=
  List.filterMap_append

theorem writtenTo_append (c : ClientId) (tr tr' : List BrokerEvent) :
    writtenTo c (tr ++ tr') = writtenTo c tr ++ writtenTo c tr' :=
  List.filterMap_append

theorem enqueuedAs_append (tr tr' : List BrokerEvent) :
    enqueuedAs (tr ++ tr') = enqueuedAs tr ++ enqueuedAs tr' :=
  List.filterMap_append

theorem publishedIn_eq (tr : List BrokerEvent) :
    publishedIn tr = (enqueuedAs tr).map Prod.snd := by
  rw [publishedIn, enqueuedAs, List.map_filterMap]
  congr 1
  funext ev
  cases ev <;> rfl

theorem Connected.left (h : Connected c (tr ++ tr')) : Connected c tr where
  stays hmem := h.stays (List.mem_append_left tr' hmem)
  kept hmem := h.kept (List.mem_append_left tr' hmem)
  reached hmem := h.reached (List.mem_append_left tr' hmem)
  replays hmem := h.replays (List.mem_append_left tr' hmem)

theorem Connected.right (h : Connected c (tr ++ tr')) : Connected c tr' where
  stays hmem := h.stays (List.mem_append_right tr hmem)
  kept hmem := h.kept (List.mem_append_right tr hmem)
  reached hmem := h.reached (List.mem_append_right tr hmem)
  replays hmem := h.replays (List.mem_append_right tr hmem)

/-! ## What is published is enqueued -/

theorem enqueuedAs_sublist_step (hstep : BrokerStep s a s' evs) :
    ((enqueuedAs evs).map fun e => (e.1, e.2.1)).Sublist
      (enqueuedIn (routerEvents evs)) := by
  cases hstep with
  | resume => exact List.Sublist.refl _
  | worker action router revs =>
      have hnone : enqueuedAs (revs.map .router) = [] := by
        simp [enqueuedAs, List.filterMap_map]
      rw [hnone]
      exact List.nil_sublist _
  | _ => exact List.nil_sublist _

/-- What the handlers of the clients publish is enqueued, in this order. -/
theorem enqueuedAs_sublist (h : broker.Reaches s tr s') :
    ((enqueuedAs tr).map fun e => (e.1, e.2.1)).Sublist
      (enqueuedIn (routerEvents tr)) := by
  induction h with
  | nil => exact List.nil_sublist _
  | snoc _ _ hstep ih =>
      rw [enqueuedAs_append, List.map_append, routerEvents_append,
        enqueuedIn_append]
      exact ih.append (enqueuedAs_sublist_step (BrokerServer.step_of_eq hstep))

theorem mem_enqueuedIn_of_enqueuedAs (h : broker.Reaches s tr s')
    {e : ℕ × Message × ℕ} (he : e ∈ enqueuedAs tr) :
    (e.1, e.2.1) ∈ enqueuedIn (routerEvents tr) :=
  (enqueuedAs_sublist h).subset (List.mem_map_of_mem he)

/-! ## The replay of one client -/

/-- The replay that a handler is in. -/
def Handler.replay : Handler → Option Replay
  | .replaying replay => some replay
  | .flushing replay => some replay
  | _ => none

/-- The replay that a client is in. -/
def BrokerServer.replayOf (s : BrokerServer) (c : ClientId) : Option Replay :=
  s.handlers[c]?.bind Handler.replay

/-- The client is in a replay from `o` on, and has been sent the frames of the
log up to where its reader stands. -/
def ReplayingFrom (o : ℕ) (c : ClientId) (tr : List BrokerEvent)
    (s : BrokerServer) : Prop :=
  ∃ replay yielded, s.replayOf c = some replay ∧
    replay.Inv s.log o yielded ∧ replayedTo c tr = Framing.locate o yielded

theorem replayOf_of_handler {handler : Handler}
    (hc : s.handlers[c]? = some handler) : s.replayOf c = handler.replay := by
  rw [BrokerServer.replayOf, hc]
  rfl

/-- The replay of a client whose handler has been moved. -/
theorem replayOf_set {handler handler' : Handler} {replay : Option Replay}
    (hc : s.handlers[c]? = some handler)
    (hset : s'.handlers = s.handlers.set c handler')
    (hreplay : handler'.replay = replay) : s'.replayOf c = replay := by
  have hlt := (List.getElem?_eq_some_iff.mp hc).1
  rw [← hreplay]
  apply replayOf_of_handler
  rw [hset]
  exact List.getElem?_set_self hlt

theorem replayOf_set_same {handler handler' : Handler}
    (hc : s.handlers[c]? = some handler)
    (hset : s'.handlers = s.handlers.set c handler')
    (hsame : handler'.replay = handler.replay) :
    s'.replayOf c = s.replayOf c :=
  (replayOf_set hc hset hsame).trans (replayOf_of_handler hc).symm

/-- Only a step of the client's own handler moves its replay, or writes a
frame of it. -/
theorem replayOf_of_ne (hstep : BrokerStep s a s' evs)
    (hne : a.client ≠ some c) :
    s'.replayOf c = s.replayOf c ∧ replayedTo c evs = [] ∧
      ∀ offset, .replayFinished c offset ∉ evs := by
  refine ⟨?_, ?_⟩
  · rw [BrokerServer.replayOf, BrokerServer.replayOf]
    rcases hstep.handler_of_ne hne with hsame | ⟨hnone, hnew⟩
    · rw [hsame]
    · rw [hnone, hnew]
      rfl
  · cases hstep with
    | replayWrite d replay replay' frame =>
        have hdc : d ≠ c := fun h => hne (congrArg some h)
        exact ⟨by simp [replayedTo, hdc], by simp⟩
    | replayFinish d replay offset =>
        have hdc : c ≠ d := fun h => hne (congrArg some h.symm)
        exact ⟨rfl, by simp [hdc]⟩
    | worker => exact ⟨by simp [replayedTo, List.filterMap_map], by simp⟩
    | _ => exact ⟨rfl, by simp⟩

/-- What a step can do to the replay of a client. -/
inductive ReplayMove (c : ClientId) (s : BrokerServer)
    (evs : List BrokerEvent) (s' : BrokerServer) : Prop
  | stay (hsame : s'.replayOf c = s.replayOf c)
      (hnone : replayedTo c evs = [])
      (hgoes : ∀ offset, .replayFinished c offset ∉ evs)
  | start (topic : ℤ) (offset : ℕ) (hbefore : s.replayOf c = none)
      (hevs : evs = [.timeTravel c topic offset])
  | advance (replay replay' : Replay) (hbefore : s.replayOf c = some replay)
      (hadvance : replay.advance s.log = some replay')
      (hafter : s'.replayOf c = some replay') (hevs : evs = [])
  | write (replay replay' : Replay) (frame : Bytes)
      (hbefore : s.replayOf c = some replay)
      (hyield : replay.yieldFrame = some (frame, replay'))
      (hafter : s'.replayOf c = some replay')
      (hevs : evs = [.replayed c frame replay.offset])
  | finish (replay : Replay) (offset : ℕ)
      (hbefore : s.replayOf c = some replay)
      (hadvance : replay.advance s.log = some (.finished offset))
      (hafter : s'.replayOf c = none) (hlog : s'.log = s.log)
      (hevs : evs = [.replayFinished c offset])
  | fail (replay : Replay) (hbefore : s.replayOf c = some replay)
      (hfail : .replayFailed c ∈ evs)

theorem replayMove_step (hstep : BrokerStep s a s' evs) :
    ReplayMove c s evs s' := by
  by_cases hclient : a.client = some c
  · cases hstep with
    | timeTravel d msg offset hc =>
        cases hclient
        exact .start msg.topicId offset (replayOf_of_handler hc) rfl
    | replayFinish d replay offset hc hadvance =>
        cases hclient
        exact .finish replay offset (replayOf_of_handler hc) hadvance
          (replayOf_set hc rfl rfl) rfl rfl
    | replayRaise d replay error hc =>
        cases hclient
        exact .fail replay (replayOf_of_handler hc) (List.mem_cons_self ..)
    | replayAdvance d replay replay' hc hadvance =>
        cases hclient
        exact .advance replay replay' (replayOf_of_handler hc) hadvance
          (replayOf_set hc rfl rfl) rfl
    | replayWrite d replay replay' frame hc hyield =>
        cases hclient
        exact .write replay replay' frame (replayOf_of_handler hc) hyield
          (replayOf_set hc rfl rfl) rfl
    | replayDrainFailed d replay hc =>
        cases hclient
        exact .fail replay (replayOf_of_handler hc) (List.mem_cons_self ..)
    | connect => cases hclient
    | worker => cases hclient
    | metricsTick => cases hclient
    | stop => cases hclient
    | stopRouter => cases hclient
    | subscribe => exact .stay rfl rfl (by simp)
    | ignore => exact .stay rfl rfl (by simp)
    | _ =>
        cases hclient
        apply ReplayMove.stay
        · apply replayOf_set_same
          · assumption
          · rfl
          · rfl
        · rfl
        · simp
  · obtain ⟨hsame, hnone, hgoes⟩ := replayOf_of_ne hstep hclient
    exact .stay hsame hnone hgoes

/-- A client that is in no replay comes into one only by a request. -/
theorem noReplay_step (hreplay : s.replayOf c = none)
    (hstep : BrokerStep s a s' evs)
    (htravel : ∀ topic offset, .timeTravel c topic offset ∉ evs) :
    s'.replayOf c = none ∧ replayedTo c evs = [] ∧
      ∀ stop, .replayFinished c stop ∉ evs := by
  have hbusy : ∀ replay, s.replayOf c ≠ some replay := by
    intro replay hsome
    rw [hreplay] at hsome
    cases hsome
  cases replayMove_step (c := c) hstep with
  | stay hsame hnone hgoes => exact ⟨hsame.trans hreplay, hnone, hgoes⟩
  | start topic offset _ hevs =>
      refine absurd ?_ (htravel topic offset)
      rw [hevs]
      exact List.mem_singleton_self _
  | advance replay _ hbefore => exact absurd hbefore (hbusy replay)
  | write replay _ _ hbefore => exact absurd hbefore (hbusy replay)
  | finish replay _ hbefore => exact absurd hbefore (hbusy replay)
  | fail replay hbefore => exact absurd hbefore (hbusy replay)

theorem noReplay_run (hreplay : s.replayOf c = none)
    (hrun : broker.Reaches s tr s')
    (htravel : ∀ topic offset, .timeTravel c topic offset ∉ tr) :
    s'.replayOf c = none ∧ replayedTo c tr = [] ∧
      ∀ stop, .replayFinished c stop ∉ tr := by
  induction hrun with
  | nil => exact ⟨hreplay, rfl, fun stop => List.not_mem_nil⟩
  | snoc _ _ hstep ih =>
      obtain ⟨hreplay', hnone, hfinish⟩ := ih fun topic offset hmem =>
        htravel topic offset (List.mem_append_left _ hmem)
      obtain ⟨hreplay'', hnone', hfinish'⟩ :=
        noReplay_step hreplay' (BrokerServer.step_of_eq hstep)
          fun topic offset hmem =>
            htravel topic offset (List.mem_append_right _ hmem)
      refine ⟨hreplay'', ?_, ?_⟩
      · rw [replayedTo_append, hnone, hnone', List.append_nil]
      · intro stop hmem
        rw [List.mem_append] at hmem
        exact hmem.elim (hfinish stop) (hfinish' stop)

/-- A replay that goes on while the log grows, whatever is appended to it, has
sent the next frames of the log. -/
theorem ReplayingFrom.step_of_grow (h : ReplayingFrom o c tr s)
    (hgrow : s.log <+: s'.log) (hstep : BrokerStep s a s' evs)
    (hfinish : ∀ stop, .replayFinished c stop ∉ evs)
    (hfail : .replayFailed c ∉ evs) : ReplayingFrom o c (tr ++ evs) s' := by
  obtain ⟨replay, yielded, hreplay, hinv, hsent⟩ := h
  cases replayMove_step (c := c) hstep with
  | stay hsame hnone _ =>
      refine ⟨replay, yielded, hsame.trans hreplay, hinv.mono hgrow, ?_⟩
      rw [replayedTo_append, hnone, List.append_nil, hsent]
  | start _ _ hbefore =>
      rw [hreplay] at hbefore
      cases hbefore
  | advance _ replay' hbefore hadvance hafter hevs =>
      rw [hreplay] at hbefore
      cases hbefore
      refine ⟨replay', yielded, hafter, (hinv.advance hadvance).mono hgrow, ?_⟩
      rw [hevs, List.append_nil, hsent]
  | write _ replay' frame hbefore hyield hafter hevs =>
      rw [hreplay] at hbefore
      cases hbefore
      refine ⟨replay', yielded ++ [frame], hafter,
        (hinv.yieldFrame hyield).mono hgrow, ?_⟩
      rw [replayedTo_append, hsent, hevs, Framing.locate_append,
        ← hinv.offset_of_yieldFrame hyield]
      simp [replayedTo, Framing.locate]
  | finish _ stop _ _ _ _ hevs =>
      refine absurd ?_ (hfinish stop)
      rw [hevs]
      exact List.mem_singleton_self _
  | fail _ _ hfailed => exact absurd hfailed hfail

/-- A replay that goes on has sent the next frames of the log. -/
theorem ReplayingFrom.step (h : ReplayingFrom o c tr s) (hok : s.HandlersOk)
    (hstep : BrokerStep s a s' evs) (htorn : NoTornAppend evs)
    (hfinish : ∀ stop, .replayFinished c stop ∉ evs)
    (hfail : .replayFailed c ∉ evs) : ReplayingFrom o c (tr ++ evs) s' :=
  h.step_of_grow (written_step hok hstep htorn).isPrefix hstep hfinish hfail

theorem ReplayingFrom.run (h : ReplayingFrom o c [] s) (hok : s.HandlersOk)
    (hrun : broker.Reaches s tr s') (htorn : NoTornAppend tr)
    (hfinish : ∀ stop, .replayFinished c stop ∉ tr)
    (hfail : .replayFailed c ∉ tr) : ReplayingFrom o c tr s' := by
  suffices s'.HandlersOk ∧ ReplayingFrom o c tr s' from this.2
  induction hrun with
  | nil => exact ⟨hok, h⟩
  | snoc _ _ hstep ih =>
      have hcases := BrokerServer.step_of_eq hstep
      obtain ⟨hok', hreplaying⟩ := ih htorn.left
        (fun stop hmem => hfinish stop (List.mem_append_left _ hmem))
        (fun hmem => hfail (List.mem_append_left _ hmem))
      exact ⟨handlersOk_step hok' hcases,
        hreplaying.step hok' hcases htorn.right
          (fun stop hmem => hfinish stop (List.mem_append_right _ hmem))
          (fun hmem => hfail (List.mem_append_right _ hmem))⟩

/-- A replay that finishes has sent all the frames of the log. -/
theorem ReplayingFrom.finish (h : ReplayingFrom o c tr s) {stop : ℕ}
    (hstep : BrokerStep s a s' evs) (hmem : .replayFinished c stop ∈ evs)
    (hfail : .replayFailed c ∉ evs) :
    replayedTo c tr = Framing.locate o (wire.parse (s.log.drop o)) ∧
      s'.replayOf c = none ∧ s'.log = s.log ∧
      evs = [.replayFinished c stop] := by
  obtain ⟨replay, yielded, hreplay, hinv, hsent⟩ := h
  cases replayMove_step (c := c) hstep with
  | stay _ _ hgoes => exact absurd hmem (hgoes stop)
  | start topic offset _ hevs =>
      rw [hevs, List.mem_singleton] at hmem
      cases hmem
  | advance _ _ _ _ _ hevs =>
      rw [hevs] at hmem
      cases hmem
  | write _ _ _ _ _ _ hevs =>
      rw [hevs, List.mem_singleton] at hmem
      cases hmem
  | finish _ offset hbefore hadvance hafter hlog hevs =>
      rw [hreplay] at hbefore
      cases hbefore
      rw [hevs, List.mem_singleton] at hmem
      cases hmem
      rw [hsent, hinv.advance_finished hadvance]
      exact ⟨rfl, hafter, hlog, hevs⟩
  | fail _ _ hfailed => exact absurd hfailed hfail

/-- A time-travel request starts a replay. -/
theorem replayingFrom_receive {msg : Message}
    (hcommand : msg.command = cmdTimeTravel)
    (hoffset : timeTravelOffset msg.payload = some o)
    (hstep : BrokerStep s (.receive c msg) s' evs)
    (hstays : .unregistered c ∉ evs) :
    ReplayingFrom o c [] s' ∧ s'.log = s.log ∧
      evs = [.timeTravel c msg.topicId o] := by
  cases hstep with
  | tooLarge => exact absurd (List.mem_cons_self ..) hstays
  | subscribe _ _ _ hsubscribe =>
      rw [hcommand] at hsubscribe
      cases hsubscribe
  | publish _ _ _ _ hpublish =>
      rw [hcommand] at hpublish
      cases hpublish
  | timeTravel _ _ offset hhandler _ hoffset' =>
      rw [hoffset] at hoffset'
      cases hoffset'
      exact ⟨⟨.batch o, [], replayOf_set hhandler rfl rfl,
        Replay.inv_start _ _, rfl⟩, rfl, rfl⟩
  | ignore _ _ _ _ hnone =>
      rw [hnone hcommand] at hoffset
      cases hoffset

/-! ## A client that never subscribes -/

/-- The client is subscribed to nothing, and the router writes nothing to
it. -/
structure Unsubscribed (c : ClientId) (s : BrokerServer) : Prop where
  topics : ∀ topics, (c, topics) ∈ s.registry.clients → topics = []
  targets : c ∉ s.router.worker.targets

theorem unsubscribed_init (c : ClientId) (log : Option Bytes) :
    Unsubscribed c (.init log) where
  topics := by
    intro topics hmem
    cases hmem
  targets := List.not_mem_nil

theorem Unsubscribed.step (h : Unsubscribed c s) (hstep : BrokerStep s a s' evs)
    (hnever : ∀ topic, .subscribed c topic ∉ evs) :
    Unsubscribed c s' ∧ writtenTo c evs = [] := by
  have htopics : ∀ topics, (c, topics) ∈ s'.registry.clients →
      topics = [] := by
    intro topics hmem
    rw [List.eq_nil_iff_forall_not_mem]
    intro topic htopic
    have hlisted : c ∈ s'.registry.getSubscribers topic :=
      ConnectionRegistry.mem_getSubscribers_iff.mpr ⟨topics, hmem, htopic⟩
    rw [registry_eq_step hstep] at hlisted
    rcases ConnectionRegistry.of_mem_getSubscribers_foldl hlisted with
      hlisted | hrequest
    · obtain ⟨topics', hentry, htopic'⟩ :=
        ConnectionRegistry.mem_getSubscribers_iff.mp hlisted
      rw [h.topics topics' hentry] at htopic'
      cases htopic'
    · exact hnever topic hrequest
  cases hstep with
  | worker action router evs hlooksUp hstep =>
      have hcases := PriorityRouter.workerStep_of_eq hstep
      refine ⟨⟨htopics, ?_⟩, ?_⟩
      · intro hmem
        rcases hcases.mem_targets hmem with hmem | ⟨subscribers, rfl, hmem⟩
        · exact h.targets hmem
        · obtain ⟨seq, msg, -, rfl⟩ := lookup_eq hlooksUp hstep
          obtain ⟨topics, hentry, htopic⟩ :=
            ConnectionRegistry.mem_getSubscribers_iff.mp hmem
          rw [h.topics topics hentry] at htopic
          cases htopic
      · rw [writtenTo, List.filterMap_map, List.filterMap_eq_nil_iff]
        intro ev hev
        cases ev with
        | wrote seq client frame =>
            have hne : client ≠ c := by
              rintro rfl
              exact h.targets (hcases.wrote_mem_targets hev)
            simp [hne]
        | _ => rfl
  | stopRouter =>
      refine ⟨⟨htopics, ?_⟩, rfl⟩
      exact PriorityRouter.worker_stop_cases
        (motive := fun worker => c ∉ worker.targets) s.router
        List.not_mem_nil List.not_mem_nil
  | _ => exact ⟨⟨htopics, h.targets⟩, rfl⟩

theorem Unsubscribed.run (h : Unsubscribed c s)
    (hrun : broker.Reaches s tr s')
    (hnever : ∀ topic, .subscribed c topic ∉ tr) :
    Unsubscribed c s' ∧ writtenTo c tr = [] := by
  induction hrun with
  | nil => exact ⟨h, rfl⟩
  | snoc _ _ hstep ih =>
      obtain ⟨h', hnone⟩ := ih fun topic hmem =>
        hnever topic (List.mem_append_left _ hmem)
      obtain ⟨h'', hnone'⟩ := h'.step (BrokerServer.step_of_eq hstep)
        fun topic hmem => hnever topic (List.mem_append_right _ hmem)
      refine ⟨h'', ?_⟩
      rw [writtenTo_append, hnone, hnone', List.append_nil]

/-! ## Exactly once -/

/-- The located frames of the rest of a log are the frames behind the
boundary. -/
theorem mem_locate_iff_frameFrom {content f : Bytes} {p : ℕ} :
    (f, p) ∈ Framing.locate o (wire.parse (content.drop o)) ↔
      FrameFrom content o p f := by
  rw [FrameFrom]
  by_cases hle : o ≤ p
  · obtain ⟨q, rfl⟩ := Nat.exists_eq_add_of_le hle
    rw [Nat.add_sub_cancel_left, Framing.mem_locate_parse_iff]
    exact (and_iff_right hle).symm
  · refine iff_of_false ?_ fun h => hle h.1
    intro hmem
    obtain ⟨before, after, -, rfl⟩ := Framing.mem_locate_iff.mp hmem
    exact hle (Nat.le_add_right _ _)

theorem count_locate {content f : Bytes} {p : ℕ}
    (h : FrameFrom content o p f) :
    (Framing.locate o (wire.parse (content.drop o))).count (f, p) = 1 := by
  apply List.count_eq_one_of_mem
  · have hpairs := Framing.pairwise_locate
      (Framing.isFrame_of_mem_parse (F := wire) (s := content.drop o)) o
    exact hpairs.imp fun hlt heq => absurd (congrArg Prod.snd heq) hlt.ne
  · exact mem_locate_iff_frameFrom.mpr h

theorem FrameFrom.end_le {content f : Bytes} {p : ℕ}
    (h : FrameFrom content o p f) : p + f.length ≤ content.length := by
  have hle := h.2.end_le
  have hpos := h.2.1.length_pos
  have ho := h.1
  rw [List.length_drop] at hle
  omega

/-- A run with the end of a replay, cut there. -/
theorem exists_finish {stop : ℕ} (hok : s.HandlersOk)
    (hstart : ReplayingFrom o c [] s) (h : broker.Reaches s tr s')
    (hfinish : .replayFinished c stop ∈ tr) (hfail : .replayFailed c ∉ tr)
    (htorn : NoTornAppend tr) :
    ∃ during stop' after u v, broker.Reaches s during u ∧
      broker.Reaches s (during ++ [.replayFinished c stop']) v ∧
      broker.Reaches v after s' ∧
      tr = during ++ .replayFinished c stop' :: after ∧ v.log = u.log ∧
      v.replayOf c = none ∧
      replayedTo c during = Framing.locate o (wire.parse (u.log.drop o)) ∧
      ∀ stop, .replayFinished c stop ∉ during := by
  obtain ⟨during, u, a, evs, v, after, h₁, hstep, h₂, rfl, hnone, hmem⟩ :=
    h.exists_first (P := fun e => ∃ stop, e = .replayFinished c stop)
      ⟨_, hfinish, stop, rfl⟩
  obtain ⟨-, hstop, stop', rfl⟩ := hmem
  have hnone' : ∀ stop, .replayFinished c stop ∉ during :=
    fun stop hmem => hnone _ hmem ⟨stop, rfl⟩
  rw [List.append_assoc, List.mem_append, not_or, List.mem_append,
    not_or] at hfail
  obtain ⟨hsent, hreplay, hlog, rfl⟩ :=
    (hstart.run hok h₁ htorn.left.left hnone' hfail.1).finish
      (BrokerServer.step_of_eq hstep) hstop hfail.2.1
  refine ⟨during, stop', after, u, v, h₁, h₁.snoc trivial hstep, h₂, ?_, hlog,
    hreplay, hsent, hnone'⟩
  rw [List.append_assoc]
  rfl

/-- The end of the only replay of a client stands once in the trace. -/
theorem finish_unique {during during' after after' : List BrokerEvent}
    {stop stop' : ℕ}
    (h : during ++ .replayFinished c stop :: after =
      during' ++ .replayFinished c stop' :: after')
    (hduring : ∀ stop, .replayFinished c stop ∉ during')
    (hafter : ∀ stop, .replayFinished c stop ∉ after') :
    during = during' ∧ after = after' := by
  rcases List.append_eq_append_iff.mp h with ⟨l, rfl, heq⟩ | ⟨l, rfl, heq⟩
  · cases l with
    | nil =>
        rw [List.append_nil]
        exact ⟨rfl, (List.cons.inj heq).2⟩
    | cons e l =>
        obtain ⟨rfl, -⟩ := List.cons.inj heq
        exact absurd (by simp) (hduring stop)
  · cases l with
    | nil =>
        rw [List.append_nil]
        exact ⟨rfl, (List.cons.inj heq).2.symm⟩
    | cons e l =>
        obtain ⟨-, rfl⟩ := List.cons.inj heq
        exact absurd (by simp) (hafter stop)

/-- What a client has been sent that only time-travels: the frames of the log
at the last read of its replay, and nothing of what has been written since. -/
theorem travel_run {msg : Message} {stop : ℕ}
    {before during after : List BrokerEvent} {s₁ s₂ : BrokerServer}
    (h₁ : broker.Reaches (.init log) before s₁)
    (hcommand : msg.command = cmdTimeTravel)
    (hoffset : timeTravelOffset msg.payload = some o)
    (hbound : FrameBoundary s₁.log o)
    (hreceive : broker.step s₁ (.receive c msg) = some (s₂, evs))
    (h₂ : broker.Reaches s₂ (during ++ .replayFinished c stop :: after) s)
    (htrace : tr = before ++ evs ++ (during ++ .replayFinished c stop :: after))
    (hconnected : Connected c tr) (htorn : NoTornAppend tr)
    (hsubscribe : ∀ topic, .subscribed c topic ∉ tr)
    (htravel : ∀ topic offset,
      .timeTravel c topic offset ∉ before ++ during ++ after) :
    ∃ content, FrameBoundary content o ∧
      replayedTo c tr = Framing.locate o (wire.parse (content.drop o)) ∧
      writtenTo c tr = [] ∧ Written content (loggedIn after) s.log := by
  subst htrace
  have hrun := (h₁.snoc trivial hreceive).trans h₂
  have hwritten := ((unsubscribed_init c log).run hrun hsubscribe).2
  obtain ⟨hstart, hlog₂, rfl⟩ := replayingFrom_receive hcommand hoffset
    (BrokerServer.step_of_eq hreceive) hconnected.left.right.stays
  have hok₂ := handlersOk_run (h₁.snoc trivial hreceive)
  have hmem : .replayFinished c stop ∈
      during ++ .replayFinished c stop :: after := by simp
  obtain ⟨during', stop', after', u, v, hduring, hfinish, hafter, heq, hlog,
    hidle, hsent, hnone⟩ :=
      exists_finish hok₂ hstart h₂ hmem hconnected.right.replays htorn.right
  -- the request is the only one, so that its replay is the one cut off here
  have hafter' : ∀ topic offset, .timeTravel c topic offset ∉ after' := by
    intro topic offset hmem
    have hin : .timeTravel c topic offset ∈
        during ++ .replayFinished c stop :: after := by
      rw [heq]
      simp [hmem]
    rw [List.mem_append, List.mem_cons] at hin
    rcases hin with hin | hin | hin
    · exact htravel topic offset (by simp [hin])
    · cases hin
    · exact htravel topic offset (by simp [hin])
  obtain ⟨-, hquiet, hend⟩ := noReplay_run hidle hafter hafter'
  obtain ⟨rfl, rfl⟩ := finish_unique heq hnone hend
  have hbefore : replayedTo c before = [] := by
    refine (noReplay_run rfl h₁ ?_).2.1
    intro topic offset hmem
    exact htravel topic offset (by simp [hmem])
  have hgrow := written_run hok₂ hduring htorn.right.left
  have hrest : NoTornAppend after := by
    intro d m n hmem
    exact htorn.right d m n (by simp [hmem])
  have hokv := handlersOk_run ((h₁.snoc trivial hreceive).trans hfinish)
  refine ⟨u.log, ?_, ?_, hwritten, ?_⟩
  · rw [← hlog₂] at hbound
    exact hgrow.frameBoundary hbound
  · rw [replayedTo_append, replayedTo_append, replayedTo_append, hbefore,
      ← hsent]
    change replayedTo c during ++ replayedTo c after = _
    rw [hquiet, List.append_nil]
  · rw [← hlog]
    exact written_run hokv hafter hrest

/-- In every run in which a client stays connected and sends one time-travel
request, from a frame boundary on and for whatever topic, and no subscription:
every message of the topic whose frame lies behind the boundary has been
written to the client exactly once if and only if none of them has reached the
log after the last read of the replay. -/
theorem timeTravel_exactlyOnce_iff {msg : Message} {stop : ℕ}
    {before during after : List BrokerEvent} {s₁ s₂ : BrokerServer}
    (h₁ : broker.Reaches (.init log) before s₁)
    (hcommand : msg.command = cmdTimeTravel)
    (hoffset : timeTravelOffset msg.payload = some o)
    (hbound : FrameBoundary s₁.log o)
    (hreceive : broker.step s₁ (.receive c msg) = some (s₂, evs))
    (h₂ : broker.Reaches s₂ (during ++ .replayFinished c stop :: after) s)
    (htrace : tr = before ++ evs ++ (during ++ .replayFinished c stop :: after))
    (hconnected : Connected c tr) (htorn : NoTornAppend tr)
    (hsubscribe : ∀ topic, .subscribed c topic ∉ tr)
    (htravel : ∀ topic offset,
      .timeTravel c topic offset ∉ before ++ during ++ after) :
    (∀ m p, m.OnWire → m.topicId = msg.topicId → FrameFrom s.log o p m.frame →
        deliveries c tr m p = 1) ↔
      ∀ e ∈ loggedIn after, e.1.topicId ≠ msg.topicId := by
  obtain ⟨content, hcontent, hsent, hnone, hwritten⟩ :=
    travel_run h₁ hcommand hoffset hbound hreceive h₂ htrace hconnected htorn
      hsubscribe htravel
  have hdeliveries : ∀ m p, deliveries c tr m p =
      (Framing.locate o (wire.parse (content.drop o))).count (m.frame, p) := by
    intro m p
    rw [deliveries, hsent, hnone]
    rfl
  constructor
  · rintro honce ⟨m, p⟩ hmem htopic
    have hwire := hwritten.onWire _ hmem
    have hat : FrameFrom s.log o p m.frame :=
      (hwritten.frameFrom_iff hcontent).mpr (Or.inr ⟨m, hmem, rfl⟩)
    have hcount := honce m p hwire htopic hat
    rw [hdeliveries] at hcount
    have hin : FrameFrom content o p m.frame :=
      mem_locate_iff_frameFrom.mp (List.count_pos_iff.mp (by omega))
    have hend := hin.end_le
    have hstart := (hwritten.end_le _ hmem).1
    have hpos : 0 < m.frame.length := hwire.isFrame.length_pos
    change content.length ≤ p at hstart
    omega
  · intro hnever m p hwire htopic hat
    rcases (hwritten.frameFrom_iff hcontent).mp hat with
      hin | ⟨m', hmem, hframe⟩
    · rw [hdeliveries]
      exact count_locate hin
    · obtain rfl := hwire.eq_of_frame_eq (hwritten.onWire _ hmem) hframe
      exact absurd htopic (hnever _ hmem)

/-- A message published before the replay, and none after it. -/
theorem timeTravel_exactlyOnce_historical :
    let m : Message :=
      { command := cmdPublish, topicId := 1, priority := 5, payload := [65] }
    ∃ tr s, broker.Reaches (.init none) tr s ∧ s.Quiescent ∧
      deliveries 1 tr m 0 = 1 := by
  intro m
  let msg : Message :=
    { command := cmdTimeTravel, topicId := 1, priority := 0
      payload := [0, 0, 0, 0, 0, 0, 0, 0] }
  let s : BrokerServer :=
    { registry := { clients := [(0, []), (1, [])] }
      log := m.frame
      router :=
        { heap := []
          seq := 1
          event := false
          running := true
          worker := .waiting }
      messagesProcessed := 1
      latestOffset := 11
      handlers := [.reading, .reading]
      shutdown := false }
  let before : List BrokerEvent :=
    [.registered 0, .registered 1, .told 0, .appended 0 m 0 0,
      .published 0 0 m 0, .router (.enqueued 0 m), .router (.handedOver 0 m)]
  have h₁ : broker.Reaches (.init none) before s :=
    System.exec_run [.connect, .connect, .receive 0 m, .tell 0, .write 0,
      .resume 0, .worker .wake, .worker .pop, .worker (.lookup []),
      .worker .resume, .worker .pop] (by decide)
  have hreceive : broker.step s (.receive 1 msg) =
      some (s.setHandler 1 (.replaying (.batch 0)), [.timeTravel 1 1 0]) := by
    decide
  have h₂ : broker.Reaches (s.setHandler 1 (.replaying (.batch 0)))
      ([.replayed 1 m.frame 0] ++ .replayFinished 1 11 :: []) s :=
    System.exec_run [.readLog 1, .readLog 1, .readLog 1, .readLog 1,
      .replayWrite 1, .replayDrain 1 true, .readLog 1, .readLog 1, .readLog 1]
      (by decide)
  have hframe : wire.IsFrame m.frame := by decide
  have hconnected : Connected 1 (before ++ [.timeTravel 1 1 0] ++
      ([.replayed 1 m.frame 0] ++ .replayFinished 1 11 :: [])) := by
    refine ⟨?_, ?_, ?_, ?_⟩ <;> decide
  have htorn : NoTornAppend (before ++ [.timeTravel 1 1 0] ++
      ([.replayed 1 m.frame 0] ++ .replayFinished 1 11 :: [])) := by
    intro c m n hmem
    simp [before] at hmem
  have honce := (timeTravel_exactlyOnce_iff h₁ rfl rfl
    ⟨Nat.zero_le _, hframe.framed⟩ hreceive h₂ rfl hconnected htorn
    (by simp [before]) (by simp [before])).mpr (by simp [loggedIn])
  refine ⟨_, s, (h₁.snoc trivial hreceive).trans h₂, ⟨rfl, rfl, rfl⟩, ?_⟩
  exact honce m 0 (by decide) rfl
    ⟨le_rfl, (Framing.boundary_zero _).frameAt hframe (List.prefix_refl _)⟩

/-- A client travels to the start of the empty log, and a message of its topic
is published when the replay is over: in the end nothing is in flight, and the
client has not been sent the message. -/
theorem timeTravel_missed :
    let m : Message :=
      { command := cmdPublish, topicId := 1, priority := 5, payload := [65] }
    let msg : Message :=
      { command := cmdTimeTravel, topicId := 1, priority := 0
        payload := [0, 0, 0, 0, 0, 0, 0, 0] }
    let after : List BrokerEvent :=
      [.replayFinished 1 0, .told 0, .appended 0 m 0 0, .published 0 0 m 0,
        .router (.enqueued 0 m), .router (.handedOver 0 m)]
    ∃ s₁ s₂ s,
      broker.Reaches (.init none) [.registered 0, .registered 1] s₁ ∧
      broker.step s₁ (.receive 1 msg) = some (s₂, [.timeTravel 1 1 0]) ∧
      FrameBoundary s₁.log 0 ∧ broker.Reaches s₂ after s ∧
      Connected 1 after ∧ s.Quiescent ∧ FrameFrom s.log 0 0 m.frame ∧
      deliveries 1 ([.registered 0, .registered 1, .timeTravel 1 1 0] ++ after)
        m 0 = 0 := by
  intro m msg after
  let s₁ : BrokerServer :=
    { BrokerServer.init none with
      registry := { clients := [(0, []), (1, [])] }
      handlers := [.reading, .reading] }
  let s : BrokerServer :=
    { s₁ with
      log := m.frame
      router :=
        { heap := []
          seq := 1
          event := false
          running := true
          worker := .waiting }
      messagesProcessed := 1
      latestOffset := 11 }
  have h₁ : broker.Reaches (.init none) [.registered 0, .registered 1] s₁ :=
    System.exec_run [.connect, .connect] (by decide)
  have h₂ : broker.Reaches (s₁.setHandler 1 (.replaying (.batch 0))) after s :=
    System.exec_run [.readLog 1, .readLog 1, .receive 0 m, .tell 0, .write 0,
      .resume 0, .worker .wake, .worker .pop, .worker (.lookup []),
      .worker .resume, .worker .pop] (by decide)
  have hframe : wire.IsFrame m.frame := by decide
  refine ⟨s₁, _, s, h₁, by decide, ⟨Nat.zero_le _, Framing.framed_nil⟩, h₂,
    ?_, ⟨rfl, rfl, rfl⟩, ?_, by decide⟩
  · refine ⟨?_, ?_, ?_, ?_⟩ <;> decide
  · exact ⟨le_rfl,
      (Framing.boundary_zero _).frameAt hframe (List.prefix_refl _)⟩

end SentinelHub.Broker
