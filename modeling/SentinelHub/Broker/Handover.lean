import SentinelHub.Broker.TimeTravel

/-!
# Subscribing before travelling

A client that has subscribed to a topic and then travels in time gets every
message of the topic behind the requested offset at least once.  What the last
read of its replay finds has been replayed; what is written to the log later
passes its handler, the heap and the worker, and whenever the worker looks up
the subscribers of the topic the client is among them.
-/

namespace SentinelHub.Broker

open SentinelHub.Support

variable {s s' : BrokerServer} {a : BrokerAction} {c : ClientId}
  {tr tr' evs : List BrokerEvent} {log : Option Bytes} {o seq : ℕ}
  {m : Message} {topic : ℤ}

/-! ## From the worker to the subscribers -/

/-- The worker has still to write the message to the client. -/
def Worker.Serves (c : ClientId) (seq : ℕ) (msg : Message) : Worker → Prop
  | .fanout seq' msg' => seq' = seq ∧ msg' = msg
  | .writing seq' frame client remaining _ =>
      seq' = seq ∧ frame = msg.frame ∧ c ∈ client :: remaining
  | .flushing seq' frame _ remaining _ =>
      seq' = seq ∧ frame = msg.frame ∧ c ∈ remaining
  | _ => False

theorem Worker.serves_afterSubscriber {remaining : List ClientId}
    (hc : c ∈ remaining) (dead : List ClientId) :
    (Worker.afterSubscriber seq m.frame remaining dead).Serves c seq m := by
  cases remaining with
  | nil => cases hc
  | cons client remaining => exact ⟨rfl, rfl, hc⟩

/-- The worker writes its message to every client it has looked up. -/
theorem serves_step {r r' : PriorityRouter} {a : WorkerAction}
    {evs : List RouterEvent} (hstep : PriorityRouter.WorkerStep r a r' evs)
    (hwire : m.OnWire) (hserves : r.worker.Serves c seq m)
    (hlookup : ∀ subscribers, a = .lookup subscribers →
      r.worker = .fanout seq m → c ∈ subscribers)
    (hcrash : .crashed ∉ evs) (hreached : .unreachable c ∉ evs) :
    r'.worker.Serves c seq m ∨ .wrote seq c m.frame ∈ evs := by
  cases hstep with
  | noSubscribers seq' msg hworker =>
      rw [hworker] at hserves
      obtain ⟨rfl, rfl⟩ := hserves
      cases hlookup [] rfl hworker
  | notEncoded => exact absurd (List.mem_singleton_self _) hcrash
  | raised => exact absurd (List.mem_singleton_self _) hcrash
  | lookup seq' msg frame client remaining hworker hencoded =>
      rw [hworker] at hserves
      obtain ⟨rfl, rfl⟩ := hserves
      obtain ⟨-, rfl⟩ := Message.encoded_eq_ok.mp hencoded
      exact Or.inl ⟨rfl, rfl, hlookup _ rfl hworker⟩
  | write seq' frame client remaining dead hworker =>
      rw [hworker] at hserves
      obtain ⟨rfl, rfl, hc⟩ := hserves
      rw [List.mem_cons] at hc
      rcases hc with rfl | hc
      · exact Or.inr (List.mem_singleton_self _)
      · exact Or.inl ⟨rfl, rfl, hc⟩
  | writeFailed seq' frame client remaining dead hworker =>
      rw [hworker] at hserves
      obtain ⟨rfl, rfl, hc⟩ := hserves
      rw [List.mem_cons] at hc
      rcases hc with rfl | hc
      · exact absurd (List.mem_singleton_self _) hreached
      · exact Or.inl (Worker.serves_afterSubscriber hc _)
  | drain seq' frame client remaining dead hworker =>
      rw [hworker] at hserves
      obtain ⟨rfl, rfl, hc⟩ := hserves
      exact Or.inl (Worker.serves_afterSubscriber hc _)
  | drainFailed seq' frame client remaining dead hworker =>
      rw [hworker] at hserves
      obtain ⟨rfl, rfl, hc⟩ := hserves
      exact Or.inl (Worker.serves_afterSubscriber hc _)
  | wake hworker =>
      rw [hworker] at hserves
      cases hserves
  | drained hworker =>
      rw [hworker] at hserves
      cases hserves
  | pop _ _ hworker =>
      rw [hworker] at hserves
      cases hserves
  | unregister _ _ hworker =>
      rw [hworker] at hserves
      cases hserves
  | pauseOver hworker =>
      rw [hworker] at hserves
      cases hserves
  | backoffOver hworker =>
      rw [hworker] at hserves
      cases hserves

/-! ## Staying registered -/

/-- The client is among the subscribers of the topic. -/
def Subscribed (c : ClientId) (topic : ℤ) (s : BrokerServer) : Prop :=
  ∃ topics, (c, topics) ∈ s.registry.clients ∧ topic ∈ topics

theorem subscribed_iff :
    Subscribed c topic s ↔ c ∈ s.registry.getSubscribers topic :=
  ConnectionRegistry.mem_getSubscribers_iff.symm

theorem Connected.not_drops (h : Connected c tr) : ∀ e ∈ tr, ¬e.Drops c := by
  rintro e hmem (rfl | rfl)
  · exact h.stays hmem
  · exact h.kept hmem

/-- A client that stays connected stays subscribed. -/
theorem Subscribed.run (h : Subscribed c topic s)
    (hrun : broker.Reaches s tr s') (hconnected : Connected c tr) :
    Subscribed c topic s' := by
  rw [subscribed_iff, registry_eq_run hrun]
  exact ConnectionRegistry.mem_getSubscribers_foldl (subscribed_iff.mp h)
    hconnected.not_drops

/-- A request to subscribe puts the client among the subscribers. -/
theorem subscribed_receive {msg : Message}
    (h : broker.Reaches (.init log) tr s) (hconnected : Connected c (tr ++ evs))
    (hcommand : msg.command = cmdSubscribe)
    (hstep : BrokerStep s (.receive c msg) s' evs) :
    Subscribed c msg.topicId s' := by
  cases hstep with
  | tooLarge =>
      exact absurd (List.mem_cons_self ..) hconnected.right.stays
  | subscribe _ _ hhandler =>
      have hlt := (List.getElem?_eq_some_iff.mp hhandler).1
      have hregistered := mem_ids_run h hlt hconnected.left.not_drops
      rw [subscribed_iff]
      exact ConnectionRegistry.mem_getSubscribers_subscribe.mpr
        (Or.inr ⟨rfl, rfl, hregistered⟩)
  | publish _ _ _ _ hpublish =>
      rw [hcommand] at hpublish
      cases hpublish
  | timeTravel _ _ _ _ htravel =>
      rw [hcommand] at htravel
      cases htravel
  | ignore _ _ _ hnot => exact absurd hcommand hnot

/-! ## Live delivery -/

/-- The fan-outs do not raise, the broker is not stopped, and an append writes
its whole frame or nothing. -/
structure Undisturbed (tr : List BrokerEvent) : Prop where
  noCrash : .router .crashed ∉ tr
  notStopped : .stopped ∉ tr
  noTornAppend : NoTornAppend tr

theorem Undisturbed.left (h : Undisturbed (tr ++ tr')) : Undisturbed tr where
  noCrash hmem := h.noCrash (List.mem_append_left tr' hmem)
  notStopped hmem := h.notStopped (List.mem_append_left tr' hmem)
  noTornAppend := h.noTornAppend.left

theorem Undisturbed.right (h : Undisturbed (tr ++ tr')) :
    Undisturbed tr' where
  noCrash hmem := h.noCrash (List.mem_append_right tr hmem)
  notStopped hmem := h.notStopped (List.mem_append_right tr hmem)
  noTornAppend := h.noTornAppend.right

/-- The messages of the topic that have been handed to the worker are on their
way to the client, or have been written to it. -/
def ServedLive (c : ClientId) (topic : ℤ) (tr : List BrokerEvent)
    (s : BrokerServer) : Prop :=
  ∀ seq m, .router (.handedOver seq m) ∈ tr → m.OnWire → m.topicId = topic →
    s.router.worker.Serves c seq m ∨ .router (.wrote seq c m.frame) ∈ tr

theorem ServedLive.step (h : ServedLive c topic tr s)
    (hsubscribed : Subscribed c topic s) (hstep : BrokerStep s a s' evs)
    (hconnected : Connected c evs) (hundisturbed : Undisturbed evs) :
    ServedLive c topic (tr ++ evs) s' := by
  intro seq m hmem hwire htopic
  rw [List.mem_append] at hmem
  have hsame : s'.router.worker = s.router.worker →
      (∀ seq m, .router (.handedOver seq m) ∉ evs) →
      s'.router.worker.Serves c seq m ∨
        .router (.wrote seq c m.frame) ∈ tr ++ evs := by
    intro hworker hnone
    rw [hworker]
    exact (h seq m (hmem.resolve_right (hnone seq m)) hwire htopic).imp_right
      (List.mem_append_left _)
  cases hstep with
  | worker action router evs hlooksUp hstep =>
      have hcases := PriorityRouter.workerStep_of_eq hstep
      have hcrash : .crashed ∉ evs := fun hmem =>
        hundisturbed.noCrash (List.mem_map_of_mem hmem)
      have hreached : .unreachable c ∉ evs := fun hmem =>
        hconnected.reached (List.mem_map_of_mem hmem)
      rcases hmem with hmem | hmem
      · rcases h seq m hmem hwire htopic with hserves | hwrote
        · have hlookup : ∀ subscribers, action = .lookup subscribers →
              s.router.worker = .fanout seq m → c ∈ subscribers := by
            rintro subscribers rfl hworker
            obtain ⟨seq', m', hworker', rfl⟩ := lookup_eq hlooksUp hstep
            rw [hworker] at hworker'
            cases hworker'
            rw [htopic]
            exact subscribed_iff.mp hsubscribed
          refine (serves_step hcases hwire hserves hlookup hcrash
            hreached).imp_right fun hmem => ?_
          exact List.mem_append_right _ (List.mem_map_of_mem hmem)
        · exact Or.inr (List.mem_append_left _ hwrote)
      · -- a message that has just been popped is about to be fanned out
        left
        obtain ⟨ev, hev, heq⟩ := List.mem_map.mp hmem
        cases heq
        cases hcases with
        | pop =>
            rw [List.mem_singleton] at hev
            cases hev
            exact ⟨rfl, rfl⟩
        | _ => simp at hev
  | stopRouter =>
      exact absurd (List.mem_singleton_self _) hundisturbed.notStopped
  | _ => exact hsame rfl (by simp)

theorem ServedLive.run (hsubscribed : Subscribed c topic s)
    (hrun : broker.Reaches s tr s') (hconnected : Connected c tr)
    (hundisturbed : Undisturbed tr) : ServedLive c topic tr s' := by
  induction hrun with
  | nil =>
      intro seq m hmem
      cases hmem
  | snoc hrun _ hstep ih =>
      exact (ih hconnected.left hundisturbed.left).step
        (hsubscribed.run hrun hconnected.left) (BrokerServer.step_of_eq hstep)
        hconnected.right hundisturbed.right

/-- A publish handler that goes on enqueues its message. -/
theorem enqueuedAs_run (h : broker.Reaches s tr s') {p : ℕ}
    (hmem : (m, p) ∈ publishedIn tr) :
    ∃ seq, (seq, m, p) ∈ enqueuedAs tr ∧
      (seq, m) ∈ enqueuedIn (routerEvents tr) := by
  rw [publishedIn_eq] at hmem
  obtain ⟨⟨seq, _, _⟩, has, heq⟩ := List.mem_map.mp hmem
  cases heq
  exact ⟨seq, has, mem_enqueuedIn_of_enqueuedAs h has⟩

/-- What is written to the log while the client is subscribed has been written
to it when everything has come to rest. -/
theorem live_run {p : ℕ} (hok : s.HandlersOk)
    (hsubscribed : Subscribed c topic s) (hrun : broker.Reaches s tr s')
    (hconnected : Connected c tr) (hundisturbed : Undisturbed tr)
    (hquiet : s'.Quiescent) (hmem : (m, p) ∈ loggedIn tr) (hwire : m.OnWire)
    (htopic : m.topicId = topic) :
    ∃ seq, (seq, m, p) ∈ enqueuedAs tr ∧
      (seq, m.frame) ∈ writtenTo c tr := by
  have hpublished : (m, p) ∈ publishedIn tr := by
    have hperm := logged_run_from hrun
    rw [hquiet.noneHeld, List.append_nil] at hperm
    exact hperm.mem_iff.mp (List.mem_append_left _ hmem)
  obtain ⟨seq, has, henqueued⟩ := enqueuedAs_run hrun hpublished
  have hhanded : (seq, m) ∈ handedIn (routerEvents tr) := by
    have hcases := (queued_run (router_run_of_ok hok hrun)).mem_iff.mp
      (List.mem_append_right _ henqueued)
    rw [PriorityRouter.queued, hquiet.heap, List.map_nil,
      List.append_nil] at hcases
    exact hcases
  have hevent := mem_handedIn_routerEvents.mp hhanded
  have hserved :=
    ServedLive.run hsubscribed hrun hconnected hundisturbed seq m hevent hwire
      htopic
  rw [hquiet.worker] at hserved
  refine ⟨seq, has, List.mem_filterMap.mpr
    ⟨_, hserved.resolve_left id, ?_⟩⟩
  exact if_pos rfl

/-! ## Gap-free handover -/

theorem deliveries_pos_of_replayed {p : ℕ}
    (h : (m.frame, p) ∈ replayedTo c tr) : 1 ≤ deliveries c tr m p :=
  (List.one_le_count_iff.mpr h).trans (Nat.le_add_right _ _)

theorem deliveries_pos_of_written {p : ℕ} (has : (seq, m, p) ∈ enqueuedAs tr)
    (hwrote : (seq, m.frame) ∈ writtenTo c tr) : 1 ≤ deliveries c tr m p := by
  refine le_trans ?_ (Nat.le_add_left _ _)
  apply List.countP_pos_iff.mpr
  exact ⟨_, hwrote, decide_eq_true ⟨rfl, has⟩⟩

/-- In every run in which a client subscribes to a topic, later sends a
time-travel request from a frame boundary on, and stays connected without a
failed write, while since its request appends write whole frames or nothing,
fan-outs do not raise and the broker is not stopped: when its replay has
finished, no publish is suspended between append and enqueue, the heap is empty
and the worker is idle, every message of the topic whose frame lies behind the
boundary has been written to the client, by the replay or by the router, at
least once since its request. -/
theorem subscribe_timeTravel_gapFree {subscribe travel : Message} {stop : ℕ}
    {before between evs₁ evs₂ since : List BrokerEvent}
    {s₀ s₁ s₂ s₃ : BrokerServer}
    (h₀ : broker.Reaches (.init log) before s₀)
    (hsubscribe : subscribe.command = cmdSubscribe)
    (hreceive₁ : broker.step s₀ (.receive c subscribe) = some (s₁, evs₁))
    (h₁ : broker.Reaches s₁ between s₂)
    (htravel : travel.command = cmdTimeTravel)
    (hoffset : timeTravelOffset travel.payload = some o)
    (hbound : FrameBoundary s₂.log o)
    (hreceive₂ : broker.step s₂ (.receive c travel) = some (s₃, evs₂))
    (h₃ : broker.Reaches s₃ since s)
    (hconnected : Connected c (before ++ evs₁ ++ between ++ evs₂ ++ since))
    (hundisturbed : Undisturbed since)
    (hfinish : .replayFinished c stop ∈ since) (hquiet : s.Quiescent) :
    ∀ m p, m.OnWire → m.topicId = subscribe.topicId →
      FrameFrom s.log o p m.frame → 1 ≤ deliveries c since m p := by
  intro m p hwire htopic hat
  have hrun₂ := (h₀.snoc trivial hreceive₁).trans h₁
  have hok₃ := handlersOk_run (hrun₂.snoc trivial hreceive₂)
  have hsubscribed₁ := subscribed_receive h₀ hconnected.left.left.left
    hsubscribe (BrokerServer.step_of_eq hreceive₁)
  have hsubscribed₃ : Subscribed c subscribe.topicId s₃ :=
    hsubscribed₁.run (h₁.snoc trivial hreceive₂) (by
      have h := hconnected.left
      rw [List.append_assoc] at h
      exact h.right)
  obtain ⟨hstart, hlog₃, rfl⟩ := replayingFrom_receive htravel hoffset
    (BrokerServer.step_of_eq hreceive₂) hconnected.left.right.stays
  obtain ⟨during, stop', after, u, v, hduring, hend, hafter, rfl, hlog, -,
    hsent, -⟩ := exists_finish hok₃ hstart h₃ hfinish hconnected.right.replays
      hundisturbed.noTornAppend
  have hconnected' := hconnected.right
  have hundisturbed' := hundisturbed
  rw [List.append_cons] at hconnected' hundisturbed'
  have hokv := handlersOk_run ((hrun₂.snoc trivial hreceive₂).trans hend)
  have hgrow := written_run hok₃ hduring hundisturbed.left.noTornAppend
  rw [hlog₃] at hgrow
  have hwritten := written_run hokv hafter hundisturbed'.right.noTornAppend
  rw [hlog] at hwritten
  rcases (hwritten.frameFrom_iff (hgrow.frameBoundary hbound)).mp hat with
    hin | ⟨m', hmem, hframe⟩
  · apply deliveries_pos_of_replayed
    rw [replayedTo_append, hsent]
    exact List.mem_append_left _ (mem_locate_iff_frameFrom.mpr hin)
  · obtain rfl := hwire.eq_of_frame_eq (hwritten.onWire _ hmem) hframe
    obtain ⟨seq, has, hwrote⟩ := live_run hokv
      (hsubscribed₃.run hend hconnected'.left) hafter hconnected'.right
      hundisturbed'.right hquiet hmem hwire htopic
    have has' : (seq, m, p) ∈
        enqueuedAs (during ++ .replayFinished c stop' :: after) := by
      rw [enqueuedAs, List.filterMap_append]
      exact List.mem_append_right _ has
    apply deliveries_pos_of_written has'
    rw [writtenTo_append]
    exact List.mem_append_right _ hwrote

/-- One message is published before the subscription, and its frame is
replayed; another one is published when the replay is over, and the router
writes it. -/
theorem subscribe_timeTravel_gapFree_both :
    let m : Message :=
      { command := cmdPublish, topicId := 1, priority := 5, payload := [65] }
    ∃ s₃ since s, broker.Reaches s₃ since s ∧ s.log = m.frame ++ m.frame ∧
      1 ≤ deliveries 1 since m 0 ∧ 1 ≤ deliveries 1 since m 11 := by
  intro m
  let subscribe : Message :=
    { command := cmdSubscribe, topicId := 1, priority := 0, payload := [] }
  let travel : Message :=
    { command := cmdTimeTravel, topicId := 1, priority := 0
      payload := [0, 0, 0, 0, 0, 0, 0, 0] }
  let s₀ : BrokerServer :=
    { registry := { clients := [(0, []), (1, [])] }
      log := m.frame
      router :=
        { heap := []
          seq := 1
          event := false
          running := true
          worker := .waiting }
      messagesProcessed := 1
      latestOffset := 11
      handlers := [.reading, .reading]
      shutdown := false }
  let s₁ : BrokerServer :=
    { s₀ with registry := { clients := [(0, []), (1, [1])] } }
  let s : BrokerServer :=
    { s₁ with
      log := m.frame ++ m.frame
      router := { s₁.router with seq := 2 }
      messagesProcessed := 2
      latestOffset := 22 }
  let before : List BrokerEvent :=
    [.registered 0, .registered 1, .told 0, .appended 0 m 0 0,
      .published 0 0 m 0, .router (.enqueued 0 m), .router (.handedOver 0 m)]
  let since : List BrokerEvent :=
    [.replayed 1 m.frame 0, .replayFinished 1 11, .told 0,
      .appended 0 m 11 11, .published 0 1 m 11, .router (.enqueued 1 m),
      .router (.handedOver 1 m), .router (.wrote 1 1 m.frame)]
  have h₀ : broker.Reaches (.init none) before s₀ :=
    System.exec_run [.connect, .connect, .receive 0 m, .tell 0, .write 0,
      .resume 0, .worker .wake, .worker .pop, .worker (.lookup []),
      .worker .resume, .worker .pop] (by decide)
  have hreceive₁ : broker.step s₀ (.receive 1 subscribe) =
      some (s₁, [.subscribed 1 1]) := by
    decide
  have hreceive₂ : broker.step s₁ (.receive 1 travel) =
      some (s₁.setHandler 1 (.replaying (.batch 0)), [.timeTravel 1 1 0]) := by
    decide
  have h₃ : broker.Reaches (s₁.setHandler 1 (.replaying (.batch 0))) since s :=
    System.exec_run [.readLog 1, .readLog 1, .readLog 1, .readLog 1,
      .replayWrite 1, .replayDrain 1 true, .readLog 1, .readLog 1, .readLog 1,
      .receive 0 m, .tell 0, .write 0, .resume 0, .worker .wake, .worker .pop,
      .worker (.lookup [1]), .worker (.write true), .worker (.drain true),
      .worker .resume, .worker .pop] (by decide)
  have hframe : wire.IsFrame m.frame := by decide
  have hconnected : Connected 1 (before ++ [.subscribed 1 1] ++ [] ++
      [.timeTravel 1 1 0] ++ since) := by
    refine ⟨?_, ?_, ?_, ?_⟩ <;> decide
  have hundisturbed : Undisturbed since := by
    refine ⟨by decide, by decide, ?_⟩
    intro c m n hmem
    simp [since] at hmem
  have hgapFree := subscribe_timeTravel_gapFree h₀ rfl hreceive₁
    (System.Run.nil s₁) rfl rfl ⟨Nat.zero_le _, hframe.framed⟩ hreceive₂ h₃
    hconnected hundisturbed (List.mem_cons_of_mem _ (List.mem_cons_self ..))
    ⟨rfl, rfl, rfl⟩ m
  have hfirst : FrameFrom s.log 0 0 m.frame :=
    ⟨le_rfl, (Framing.boundary_zero _).frameAt hframe
      (List.prefix_append m.frame m.frame)⟩
  have hsecond : FrameFrom s.log 0 11 m.frame :=
    ⟨Nat.zero_le _, hframe, m.frame, hframe.framed, List.prefix_refl _, rfl⟩
  exact ⟨_, since, s, h₃, rfl, hgapFree 0 (by decide) rfl hfirst,
    hgapFree 11 (by decide) rfl hsecond⟩

end SentinelHub.Broker
