import SentinelHub.Broker.PublisherOrder
import SentinelHub.Broker.ReplayClient

/-!
# One log file, many processes

`main.py` starts a broker on a log file, and when its process has ended, for
whatever reason, it can be started again on the same file.  The connections and
the heap are gone then, and the log is what is left: the messages that nobody
has been sent by then, nobody is sent by the router any more, but they are in
the file, in front of those of the next process, and a replay finds them.
-/

namespace SentinelHub.Broker

open SentinelHub.Support

/-! ## Processes -/

/-- A step of the broker, or the end of its process and the start of the
next. -/
inductive LifeAction
  | broker (a : BrokerAction)
  | restart
  deriving DecidableEq, Repr

inductive LifeEvent
  | broker (event : BrokerEvent)
  | restarted
  deriving DecidableEq, Repr

/-- The broker under one process after the other.  A process can end at any
step.  An append under way has written all of its frame by then, or none of it;
or it has written a part, as where it raises. -/
def restarting : System BrokerServer LifeAction LifeEvent where
  step s
    | .broker a =>
        (broker.step s a).map fun (s', evs) => (s', evs.map .broker)
    | .restart => some (.init (some s.log), [.restarted])

/-- The events of the broker, in all processes. -/
def brokerEvents (tr : List LifeEvent) : List BrokerEvent :=
  tr.filterMap fun
    | .broker event => some event
    | .restarted => none

variable {s s' t : BrokerServer} {a : BrokerAction} {c : ClientId} {o : ℕ}
  {m msg : Message} {log : Option Bytes} {log₀ log₁ : Bytes}
  {tr before after later evs : List LifeEvent} {l l' : List (Message × ℕ)}

theorem brokerEvents_append (tr tr' : List LifeEvent) :
    brokerEvents (tr ++ tr') = brokerEvents tr ++ brokerEvents tr' :=
  List.filterMap_append

theorem brokerEvents_broker (bevs : List BrokerEvent) :
    brokerEvents (bevs.map .broker) = bevs := by
  have hcomp : (fun
      | LifeEvent.broker event => some event
      | .restarted => none) ∘ LifeEvent.broker = some := rfl
  rw [brokerEvents, List.filterMap_map, hcomp, List.filterMap_some]

theorem restarting_step_broker
    (h : restarting.step s (.broker a) = some (s', evs)) :
    ∃ bevs, broker.step s a = some (s', bevs) ∧ evs = bevs.map .broker := by
  obtain ⟨⟨b, bevs⟩, hstep, heq⟩ := Option.map_eq_some_iff.mp h
  cases heq
  exact ⟨bevs, hstep, rfl⟩

/-- What happened in earlier processes, and the run of the present one. -/
theorem process_of_run (h : restarting.Reaches (.init log) tr s) :
    ∃ past life file, tr = past ++ life.map .broker ∧
      broker.Reaches (.init file) life s ∧
      ((past = [] ∧ file = log) ∨
        ∃ earlier s₀, past = earlier ++ [.restarted] ∧ file = some s₀.log ∧
          restarting.Reaches (.init log) earlier s₀) := by
  induction h with
  | nil => exact ⟨[], [], log, rfl, System.Run.nil _, Or.inl ⟨rfl, rfl⟩⟩
  | @snoc t u tr evs action hrun _ hstep ih =>
      cases action with
      | broker a =>
          obtain ⟨past, life, file, rfl, hlife, hpast⟩ := ih
          obtain ⟨bevs, hbstep, rfl⟩ := restarting_step_broker hstep
          refine ⟨past, life ++ bevs, file, ?_, hlife.snoc trivial hbstep,
            hpast⟩
          rw [List.map_append, List.append_assoc]
      | restart =>
          cases hstep
          exact ⟨tr ++ [.restarted], [], some t.log, by simp,
            System.Run.nil _, Or.inr ⟨tr, t, rfl, rfl, hrun⟩⟩

/-- A property of a trace that all processes together have where each of them
has it. -/
theorem lives_induction {P : List BrokerEvent → Prop}
    (hlife : ∀ file life u, broker.Reaches (.init file) life u → P life)
    (happend : ∀ past life, P past → P life → P (past ++ life))
    (h : restarting.Reaches (.init log) tr s) : P (brokerEvents tr) := by
  induction hlength : tr.length using Nat.strong_induction_on
    generalizing tr s with
  | h n ih =>
      obtain ⟨past, life, file, rfl, hrun, hpast⟩ := process_of_run h
      rw [brokerEvents_append, brokerEvents_broker]
      rcases hpast with ⟨rfl, -⟩ | ⟨earlier, s₀, rfl, -, hearlier⟩
      · exact hlife file life s hrun
      · refine happend _ _ ?_ (hlife file life s hrun)
        rw [brokerEvents_append]
        have hshorter : earlier.length < n := by
          rw [← hlength]
          simp only [List.length_append, List.length_map, List.length_cons]
          omega
        have hpast := ih _ hshorter hearlier rfl
        exact (List.append_nil (brokerEvents earlier)).symm ▸ hpast

theorem handlersOk_lives (h : restarting.Reaches (.init log) tr s) :
    s.HandlersOk := by
  obtain ⟨past, life, file, -, hrun, -⟩ := process_of_run h
  exact handlersOk_run hrun

/-! ## The file -/

theorem inLog_lives (h : restarting.Reaches (.init log) tr s) :
    InLog (loggedIn (brokerEvents tr)) s.log := by
  induction h with
  | nil => exact ⟨by simp [brokerEvents, loggedIn],
      by simp [brokerEvents, loggedIn], List.Pairwise.nil⟩
  | @snoc t u tr evs action hrun _ hstep ih =>
      rw [brokerEvents_append, loggedIn_append]
      cases action with
      | broker a =>
          obtain ⟨bevs, hbstep, rfl⟩ := restarting_step_broker hstep
          rw [brokerEvents_broker]
          exact ih.step (handlersOk_lives hrun)
            (BrokerServer.step_of_eq hbstep)
      | restart =>
          cases hstep
          exact (List.append_nil (loggedIn (brokerEvents tr))).symm ▸ ih

theorem written_lives (hok : s.HandlersOk)
    (h : restarting.Reaches s tr t) (htorn : NoTornAppend (brokerEvents tr)) :
    t.HandlersOk ∧ Written s.log (loggedIn (brokerEvents tr)) t.log := by
  induction h with
  | nil => exact ⟨hok, Written.nil⟩
  | @snoc t u tr evs action hrun _ hstep ih =>
      rw [brokerEvents_append] at htorn ⊢
      rw [loggedIn_append]
      obtain ⟨hok', hwritten⟩ := ih htorn.left
      cases action with
      | broker a =>
          obtain ⟨bevs, hbstep, rfl⟩ := restarting_step_broker hstep
          rw [brokerEvents_broker] at htorn ⊢
          have hcases := BrokerServer.step_of_eq hbstep
          exact ⟨handlersOk_step hok' hcases,
            hwritten.append (written_step hok' hcases htorn.right)⟩
      | restart =>
          cases hstep
          exact ⟨handlersOk_init _, hwritten.append Written.nil⟩

/-! ## Positions -/

/-- The frames written have the positions that the framing gives them. -/
theorem Written.locate (h : Written log₀ l log₁) :
    l.map (fun e => (e.1.frame, e.2)) =
      Framing.locate log₀.length (l.map fun e => e.1.frame) := by
  induction h with
  | nil => rfl
  | @snoc l log msg hl _ ih =>
      have hlength : log.length =
          log₀.length + (l.map fun e => e.1.frame).flatten.length := by
        rw [hl.log_eq, List.length_append]
      rw [List.map_append, List.map_append, Framing.locate_append, ih,
        ← hlength]
      rfl

/-- What has been written can be cut in two. -/
theorem Written.split (h : Written log₀ (l ++ l') log₁) :
    ∃ content, Written log₀ l content ∧ Written content l' log₁ := by
  generalize hall : l ++ l' = all at h
  induction h generalizing l' with
  | nil =>
      obtain ⟨rfl, rfl⟩ := List.append_eq_nil_iff.mp hall
      exact ⟨log₀, Written.nil, Written.nil⟩
  | @snoc all log msg hl hwire ih =>
      rcases List.eq_nil_or_concat' l' with rfl | ⟨l'', e, rfl⟩
      · rw [List.append_nil] at hall
        exact ⟨_, hall ▸ hl.snoc hwire, Written.nil⟩
      · rw [← List.append_assoc] at hall
        obtain ⟨hall, he⟩ := List.append_inj' hall rfl
        obtain ⟨content, hbefore, hafter⟩ := ih hall
        rw [List.singleton_inj] at he
        exact ⟨content, hbefore, he ▸ hafter.snoc hwire⟩

/-- Behind the position of a frame, the log holds this frame and those written
after it. -/
theorem Written.drop_from (h : Written log₀ (l ++ (m, o) :: l') log₁) :
    log₁.drop o = (((m, o) :: l').map fun e => e.1.frame).flatten ∧
      ((m, o) :: l').map (fun e => (e.1.frame, e.2)) =
        Framing.locate o (((m, o) :: l').map fun e => e.1.frame) := by
  obtain ⟨content, -, hafter⟩ := h.split
  have hlocate := hafter.locate
  obtain rfl : o = content.length := congrArg Prod.snd
    (List.cons.inj hlocate).1
  rw [hafter.log_eq, List.drop_left]
  exact ⟨rfl, hlocate⟩

theorem Written.isFrame (h : Written log₀ l log₁) :
    ∀ f ∈ l.map fun e => e.1.frame, wire.IsFrame f := by
  intro f hf
  obtain ⟨e, he, rfl⟩ := List.mem_map.mp hf
  exact (h.onWire e he).isFrame

/-! ## What a restart loses, and what it keeps -/

/-- Where a process ends, the run is one of the processes before and one of
those that begin with its log. -/
theorem split_restarted (h : restarting.Reaches (.init log) tr s)
    (htr : tr = before ++ .restarted :: after) :
    ∃ s₀, restarting.Reaches (.init log) before s₀ ∧
      restarting.Reaches (.init (some s₀.log)) after s := by
  induction h generalizing after with
  | nil => simp at htr
  | @snoc t u tr evs action hrun _ hstep ih =>
      -- the end of a process is a step of its own
      have hcut : (∃ after', tr = before ++ .restarted :: after' ∧
          after = after' ++ evs) ∨
          (action = .restart ∧ tr = before ∧ after = []) := by
        rcases List.append_eq_append_iff.mp htr with
          ⟨more, hbefore, hevs⟩ | ⟨more, htr', hafter⟩
        · cases action with
          | broker a =>
              obtain ⟨bevs, -, rfl⟩ := restarting_step_broker hstep
              have hmem : LifeEvent.restarted ∈ bevs.map .broker := by
                rw [hevs]
                simp
              simp at hmem
          | restart =>
              cases hstep
              cases more with
              | nil =>
                  rw [List.append_nil] at hbefore
                  rw [List.nil_append, List.cons.injEq] at hevs
                  exact Or.inr ⟨rfl, hbefore.symm, hevs.2.symm⟩
              | cons e more => simp at hevs
        · cases more with
          | nil =>
              rw [List.append_nil] at htr'
              rw [List.nil_append] at hafter
              cases action with
              | broker a =>
                  obtain ⟨bevs, -, rfl⟩ := restarting_step_broker hstep
                  have hmem : LifeEvent.restarted ∈ bevs.map .broker := by
                    rw [← hafter]
                    simp
                  simp at hmem
              | restart =>
                  cases hstep
                  rw [List.cons.injEq] at hafter
                  exact Or.inr ⟨rfl, htr', hafter.2⟩
          | cons e more =>
              rw [List.cons_append, List.cons.injEq] at hafter
              obtain ⟨rfl, rfl⟩ := hafter
              exact Or.inl ⟨more, htr', rfl⟩
      rcases hcut with ⟨after', rfl, rfl⟩ | ⟨rfl, rfl, rfl⟩
      · obtain ⟨s₀, hbefore, hafter⟩ := ih rfl
        exact ⟨s₀, hbefore, hafter.snoc trivial hstep⟩
      · cases hstep
        exact ⟨t, hrun, System.Run.nil _⟩

theorem published_logged (h : restarting.Reaches (.init log) tr s) :
    (publishedIn (brokerEvents tr)).Subperm (loggedIn (brokerEvents tr)) := by
  refine lives_induction (P := fun tr => (publishedIn tr).Subperm (loggedIn tr))
    ?_ ?_ h
  · intro file life u hrun
    exact (List.sublist_append_left _ _).subperm.trans
      (logged_run hrun).symm.subperm
  · intro past life hpast hlife
    rw [publishedIn_append, loggedIn_append]
    exact hpast.append hlife

theorem handed_enqueued (h : restarting.Reaches (.init log) tr s) :
    (handedIn (routerEvents (brokerEvents tr))).Subperm
      (enqueuedIn (routerEvents (brokerEvents tr))) := by
  refine lives_induction (P := fun tr => (handedIn (routerEvents tr)).Subperm
    (enqueuedIn (routerEvents tr))) ?_ ?_ h
  · intro file life u hrun
    exact (List.sublist_append_left _ _).subperm.trans
      (orderInv_run (router_run hrun)).conserved.symm.subperm
  · intro past life hpast hlife
    rw [routerEvents_append, handedIn_append, enqueuedIn_append]
    exact hpast.append hlife

/-- Whatever processes have run on the file, however they ended and whatever
appends failed halfway: the frame of every message that one of them has written
is in the file, where it was written, and each of these messages has a place of
its own; among them are all that have been enqueued.  Where no append has failed
halfway, the file holds its first content, these frames and nothing else.  But
once a process has ended, what it had enqueued and not handed over is never
handed over again. -/
theorem lives_keep_log (h : restarting.Reaches (.init log) tr s) :
    InLog (loggedIn (brokerEvents tr)) s.log ∧
    (publishedIn (brokerEvents tr)).Subperm (loggedIn (brokerEvents tr)) ∧
    (NoTornAppend (brokerEvents tr) →
      s.log = EventLog.init log ++
        ((loggedIn (brokerEvents tr)).map fun e => e.1.frame).flatten) ∧
    ∀ before after, tr = before ++ .restarted :: after →
      (handedIn (routerEvents (brokerEvents after))).Subperm
        (enqueuedIn (routerEvents (brokerEvents after))) := by
  refine ⟨inLog_lives h, published_logged h, fun htorn => ?_, ?_⟩
  · exact (written_lives (handlersOk_init log) h htorn).2.log_eq
  · intro before after htr
    obtain ⟨s₀, -, hafter⟩ := split_restarted h htr
    exact handed_enqueued hafter

/-- The process ends before the router has handed the message over, and the next
one has another message. -/
theorem lives_keep_log_unsent :
    let m : Message :=
      { command := cmdPublish, topicId := 1, priority := 5, payload := [65] }
    let m' : Message := { m with payload := [66] }
    ∃ before after s,
      restarting.Reaches (.init none) (before ++ .restarted :: after) s ∧
      enqueuedIn (routerEvents (brokerEvents before)) = [(0, m)] ∧
      s.log = m.frame ++ m'.frame ∧ InLog [(m, 0), (m', 11)] s.log ∧
      (handedIn (routerEvents (brokerEvents after))).Subperm [(0, m')] := by
  intro m m'
  let before : List LifeEvent :=
    [.broker (.registered 0), .broker (.told 0), .broker (.appended 0 m 0 0),
      .broker (.published 0 0 m 0), .broker (.router (.enqueued 0 m))]
  let after : List LifeEvent :=
    [.broker (.registered 0), .broker (.told 0),
      .broker (.appended 0 m' 11 11), .broker (.published 0 0 m' 11),
      .broker (.router (.enqueued 0 m'))]
  let s : BrokerServer :=
    { BrokerServer.init (some (m.frame ++ m'.frame)) with
      registry := { clients := [(0, [])] }
      router := PriorityRouter.init.start.enqueue m'
      messagesProcessed := 1
      latestOffset := 22
      handlers := [.reading] }
  have hrun :
      restarting.Reaches (.init none) (before ++ .restarted :: after) s :=
    System.exec_run [.broker .connect, .broker (.receive 0 m),
      .broker (.tell 0), .broker (.write 0), .broker (.resume 0), .restart,
      .broker .connect, .broker (.receive 0 m'), .broker (.tell 0),
      .broker (.write 0), .broker (.resume 0)] (by decide)
  obtain ⟨hinLog, -, -, hhanded⟩ := lives_keep_log hrun
  exact ⟨before, after, s, hrun, rfl, rfl, hinLog, hhanded before after rfl⟩

/-! ## A replay of what was before -/

/-- The process goes on, and the client asks for no other replay. -/
def GoesOn (c : ClientId) (_ : BrokerServer) : LifeAction → Prop
  | .broker (.receive d msg) => d = c → msg.command ≠ cmdTimeTravel
  | .broker _ => True
  | .restart => False

instance (c : ClientId) (s : BrokerServer) (a : LifeAction) :
    Decidable (GoesOn c s a) := by
  unfold GoesOn
  split <;> infer_instance

theorem served_run (h : Served log₀ o c [] s) (hok : s.HandlersOk)
    (hrun : restarting.Run (GoesOn c) s later t) :
    t.HandlersOk ∧ Served log₀ o c (brokerEvents later) t := by
  induction hrun with
  | nil => exact ⟨hok, h⟩
  | @snoc t u tr evs action _ hgoes hstep ih =>
      cases action with
      | broker a =>
          obtain ⟨bevs, hbstep, rfl⟩ := restarting_step_broker hstep
          have hcases := BrokerServer.step_of_eq hbstep
          rw [brokerEvents_append, brokerEvents_broker]
          refine ⟨handlersOk_step ih.1 hcases, ih.2.step ih.1 hcases ?_⟩
          rintro msg rfl
          exact hgoes rfl
      | restart => cases hgoes

/-- A client asks for a replay from the position of a message that some process
has logged, on a file in which no append has failed halfway.  At any later time
of this process it has been sent the frame of that message and those logged
behind it, by whichever process, as far as the replay has come, in order and
none twice; and a replay that is over, and has not failed, has sent all of them
that had been logged by the time of the request. -/
theorem later_life_replays (h : restarting.Reaches (.init none) before s)
    (hlogged : (m, o) ∈ loggedIn (brokerEvents before))
    (hcommand : msg.command = cmdTimeTravel)
    (hsize : msg.payload.length ≤ maxPayloadBytes)
    (hoffset : timeTravelOffset msg.payload = some o)
    (hreceive : restarting.step s (.broker (.receive c msg)) = some (s', evs))
    (hlater : restarting.Run (GoesOn c) s' later t)
    (htorn : NoTornAppend (brokerEvents (before ++ evs ++ later))) :
    ∃ earlier asked since,
      loggedIn (brokerEvents before) = earlier ++ (m, o) :: asked ∧
      loggedIn (brokerEvents (before ++ evs ++ later)) =
        earlier ++ (m, o) :: (asked ++ since) ∧
      replayedTo c (brokerEvents later) <+:
        ((m, o) :: (asked ++ since)).map (fun e => (e.1.frame, e.2)) ∧
      (t.replayOf c = none → .replayFailed c ∉ brokerEvents later →
        ((m, o) :: asked).map (fun e => (e.1.frame, e.2)) <+:
          replayedTo c (brokerEvents later)) := by
  obtain ⟨bevs, hbstep, rfl⟩ := restarting_step_broker hreceive
  have hok := handlersOk_lives h
  have hcases := BrokerServer.step_of_eq hbstep
  have hstays : .unregistered c ∉ bevs := by
    cases hcases with
    | tooLarge _ _ _ hlarge => exact absurd hsize (not_le.mpr hlarge)
    | _ => simp
  obtain ⟨hreplaying, hlog, rfl⟩ :=
    replayingFrom_receive hcommand hoffset hcases hstays
  have hok' := handlersOk_step hok hcases
  have hserved : Served s.log o c [] s' := hlog ▸ served_start hreplaying
  obtain ⟨-, hserved⟩ := served_run hserved hok' hlater
  rw [brokerEvents_append, brokerEvents_append, brokerEvents_broker] at htorn ⊢
  obtain ⟨earlier, asked, hasked⟩ := List.append_of_mem hlogged
  have hwritten := (written_lives (handlersOk_init none) h htorn.left.left).2
  have hsince := (written_lives hok' hlater.reaches htorn.right).2
  rw [hlog] at hsince
  have hall := hwritten.append hsince
  rw [hasked] at hwritten hall
  rw [List.append_assoc, List.cons_append] at hall
  obtain ⟨hdrop, hlocate⟩ := hwritten.drop_from
  obtain ⟨hdrop', hlocate'⟩ := hall.drop_from
  refine ⟨earlier, asked, loggedIn (brokerEvents later), hasked, ?_, ?_, ?_⟩
  · rw [loggedIn_append, loggedIn_append, hasked]
    simp [loggedIn]
  · obtain ⟨content, -, hafter⟩ := hall.split
    obtain ⟨yielded, stop, hsent, hread⟩ := hserved.sent
    obtain ⟨more, hmore⟩ := hread.isPrefix_parse
    rw [hdrop', Framing.parse_flatten hafter.isFrame] at hmore
    rw [hlocate', hsent, ← hmore, Framing.locate_append]
    exact List.prefix_append _ _
  · intro hover hfailed
    rcases hserved.ended hover with hraised | ⟨content, hold, hnow, hsent⟩
    · exact absurd hraised hfailed
    · obtain ⟨content', -, hafter⟩ := hwritten.split
      have hgrown := drop_isPrefix_drop hold o
      rw [hdrop] at hgrown
      obtain ⟨more, hmore⟩ := Framing.isPrefix_parse hafter.isFrame hgrown
      rw [hlocate, hsent, ← hmore, Framing.locate_append]
      exact List.prefix_append _ _

/-- A message of the first process is replayed by the second. -/
theorem later_life_replays_unsent :
    let m : Message :=
      { command := cmdPublish, topicId := 1, priority := 5, payload := [65] }
    ∃ before later t, restarting.Reaches (.init none) before t ∧
      .restarted ∈ before ∧
      handedIn (routerEvents (brokerEvents before)) = [] ∧
      [(m.frame, 0)] <+: replayedTo 0 (brokerEvents later) := by
  intro m
  let msg : Message :=
    { command := cmdTimeTravel, topicId := 1, priority := 0
      payload := [0, 0, 0, 0, 0, 0, 0, 0] }
  let s : BrokerServer :=
    { BrokerServer.init (some m.frame) with
      registry := { clients := [(0, [])] }
      handlers := [.reading] }
  let before : List LifeEvent :=
    [.broker (.registered 0), .broker (.told 0), .broker (.appended 0 m 0 0),
      .broker (.published 0 0 m 0), .broker (.router (.enqueued 0 m)),
      .restarted, .broker (.registered 0)]
  let later : List LifeEvent :=
    [.broker (.replayed 0 m.frame 0), .broker (.replayFinished 0 11)]
  have hrun : restarting.Reaches (.init none) before s :=
    System.exec_run [.broker .connect, .broker (.receive 0 m),
      .broker (.tell 0), .broker (.write 0), .broker (.resume 0), .restart,
      .broker .connect] (by decide)
  have hreceive : restarting.step s (.broker (.receive 0 msg)) =
      some (s.setHandler 0 (.replaying (.batch 0)),
        [.broker (.timeTravel 0 1 0)]) := by
    decide
  have hlater : restarting.Run (GoesOn 0)
      (s.setHandler 0 (.replaying (.batch 0))) later s :=
    System.exec_run [.broker (.readLog 0), .broker (.readLog 0),
      .broker (.readLog 0), .broker (.readLog 0), .broker (.replayWrite 0),
      .broker (.replayDrain 0 true), .broker (.readLog 0),
      .broker (.readLog 0), .broker (.readLog 0)] (by decide)
  have htorn : NoTornAppend (brokerEvents
      (before ++ [.broker (.timeTravel 0 1 0)] ++ later)) := by
    intro c m n hmem
    simp [brokerEvents, before, later] at hmem
  have hlogged : (m, 0) ∈ loggedIn (brokerEvents before) :=
    List.mem_singleton_self _
  obtain ⟨earlier, asked, since, -, -, -, hsent⟩ := later_life_replays
    hrun hlogged rfl (by decide) rfl hreceive hlater htorn
  have hall := hsent rfl (by decide)
  refine ⟨before, later, s, hrun, by decide, rfl, ?_⟩
  exact (List.prefix_append [(m.frame, 0)] _).trans hall

end SentinelHub.Broker
