import SentinelHub.Broker.PublisherOrder

/-!
# History and live delivery

The place of a frame in the log is fixed when a thread of the pool writes it,
and the number that breaks ties in the heap when the handler goes on.  Where two
appends overlap, the handlers may go on in the other order.

The messages are handed to the worker in the order of their frames in the log,
as far as they have the same priority and wait in the heap together, exactly if
no handler enqueues its publish in front of one that is behind it in the log.
-/

namespace SentinelHub.Broker

open SentinelHub.Support

variable {s s' : BrokerServer} {c : ClientId} {seq start : ℕ}
  {tr before after : List BrokerEvent} {msg : Message} {log : Option Bytes}
  {e e' : ℕ × Message × ℕ}

/-! ## The two orders -/

/-- After these events the publish, given with its number and the position of
its frame in the log, is in the heap. -/
def Waits (e : ℕ × Message × ℕ) (tr : List BrokerEvent) : Prop :=
  e ∈ enqueuedAs tr ∧ (e.1, e.2.1) ∉ handedIn (routerEvents tr)

/-- Whenever two publishes of equal priority wait in the heap together, the one
whose frame comes first in the log is handed over before the other one. -/
def LiveAsLogged (tr : List BrokerEvent) : Prop :=
  ∀ before after, tr = before ++ after → ∀ e e', Waits e before →
    Waits e' before → e.2.1.priority = e'.2.1.priority → e.2.2 < e'.2.2 →
      ∀ during rest, after =
          during ++ .router (.handedOver e'.1 e'.2.1) :: rest →
        .router (.handedOver e.1 e.2.1) ∈ during

/-- Whenever a handler enqueues its publish, those of equal priority that wait
in the heap lie before it in the log. -/
def EnqueuedAsLogged (tr : List BrokerEvent) : Prop :=
  ∀ before c seq msg start after,
    tr = before ++ .published c seq msg start :: after →
      ∀ e, Waits e before → e.2.1.priority = msg.priority → e.2.2 ≤ start

theorem mem_enqueuedAs_iff :
    e ∈ enqueuedAs tr ↔ ∃ c, .published c e.1 e.2.1 e.2.2 ∈ tr := by
  rw [enqueuedAs, List.mem_filterMap]
  constructor
  · rintro ⟨ev, hmem, heq⟩
    cases ev with
    | published c =>
        cases heq
        exact ⟨c, hmem⟩
    | _ => cases heq
  · rintro ⟨c, hmem⟩
    exact ⟨_, hmem, rfl⟩

/-- A publish waits exactly if it is in the heap. -/
theorem waits_iff (h : broker.Reaches (.init log) tr s)
    (he : e ∈ enqueuedAs tr) :
    Waits e tr ↔ (e.1, e.2.1) ∈ s.router.queued := by
  have hinv := orderInv_run (router_run h)
  have hmem := mem_enqueuedIn_of_enqueuedAs h he
  have hnodup : (handedIn (routerEvents tr) ++ s.router.queued).Nodup := by
    have hseqs := hinv.conserved.map Prod.fst
    rw [hinv.numbered] at hseqs
    exact (hseqs.nodup_iff.mp List.nodup_range).of_map _
  rw [Waits, and_iff_right he]
  constructor
  · intro hnot
    exact (List.mem_append.mp (hinv.conserved.mem_iff.mp hmem)).resolve_left
      hnot
  · intro hqueued hhanded
    exact (List.nodup_append.mp hnodup).2.2 _ hhanded _ hqueued rfl

/-- The publishes are enqueued in the order of their numbers, and a number
belongs to only one publish. -/
theorem enqueuedAs_increasing (h : broker.Reaches (.init log) tr s) :
    (enqueuedAs tr).Pairwise fun e e' => e.1 < e'.1 := by
  have hsorted := (enqueued_increasing h).1.sublist (enqueuedAs_sublist h)
  rw [List.pairwise_map] at hsorted
  exact hsorted

/-- Of two messages of equal priority that have both been enqueued, the one
with the smaller number is handed over first. -/
theorem handed_first (h : broker.Reaches (.init log) (before ++ after) s)
    (e e' : ℕ × Message × ℕ) (he : e ∈ enqueuedAs (before ++ after))
    (hwaits : Waits e before)
    (hpriority : e.2.1.priority = e'.2.1.priority) (hlt : e.1 < e'.1)
    {during rest : List BrokerEvent}
    (hafter : after = during ++ .router (.handedOver e'.1 e'.2.1) :: rest) :
    .router (.handedOver e.1 e.2.1) ∈ during := by
  have hinv := orderInv_run (router_run h)
  have hmem := hinv.conserved.mem_iff.mp (mem_enqueuedIn_of_enqueuedAs h he)
  have hfifo := hinv.fifo
  have hhanded : handedIn (routerEvents (before ++ after)) =
      handedIn (routerEvents before) ++ (handedIn (routerEvents during) ++
        (e'.1, e'.2.1) :: handedIn (routerEvents rest)) := by
    rw [hafter, routerEvents_append, routerEvents_append, handedIn_append,
      handedIn_append]
    rfl
  rw [hhanded, List.append_assoc, List.append_assoc, List.cons_append]
    at hmem hfifo
  rw [List.pairwise_append] at hfifo
  obtain ⟨-, hfifo, -⟩ := hfifo
  rw [List.pairwise_append, List.pairwise_cons] at hfifo
  obtain ⟨-, ⟨hlater, -⟩, -⟩ := hfifo
  rw [← mem_handedIn_routerEvents]
  rcases List.mem_append.mp hmem with hold | hmem
  · exact absurd hold hwaits.2
  rcases List.mem_append.mp hmem with hduring | hmem
  · exact hduring
  rcases List.mem_cons.mp hmem with heq | hmem
  · have hseq : e.1 = e'.1 := (Prod.mk.inj heq).1
    omega
  · have hgt : e'.1 < e.1 := hlater _ hmem hpriority.symm
    omega

/-! ## Splitting a run at a publish -/

/-- A handler that enqueues its publish notes it first in its step. -/
theorem published_head {a : BrokerAction} {evs front back : List BrokerEvent}
    (hstep : BrokerStep s a s' evs)
    (hevs : evs = front ++ .published c seq msg start :: back) :
    front = [] ∧ seq = s.router.seq := by
  cases hstep with
  | resume d msg' frame offset start' =>
      cases front with
      | nil =>
          cases hevs
          exact ⟨rfl, rfl⟩
      | cons e front =>
          cases front with
          | nil => cases hevs
          | cons e' front =>
              have hlength := congrArg List.length hevs
              simp at hlength
  | worker action router revs =>
      have hmem : BrokerEvent.published c seq msg start ∈
          revs.map BrokerEvent.router := by
        rw [hevs]
        simp
      simp at hmem
  | _ =>
      have hmem := congrArg (BrokerEvent.published c seq msg start ∈ ·) hevs
      simp at hmem

/-- What comes before a publish in a run is a run, and the publish gets the
next number. -/
theorem published_split (h : broker.Reaches (.init log) tr s)
    (htr : tr = before ++ .published c seq msg start :: after) :
    ∃ u, broker.Reaches (.init log) before u ∧ seq = u.router.seq := by
  induction h generalizing after with
  | nil => simp at htr
  | @snoc t u tr evs a hrun _ hstep ih =>
      rcases List.append_eq_append_iff.mp htr with
        ⟨front, rfl, hevs⟩ | ⟨back, htr', hback⟩
      · obtain ⟨rfl, hseq⟩ :=
          published_head (BrokerServer.step_of_eq hstep) hevs
        rw [List.append_nil]
        exact ⟨t, hrun, hseq⟩
      · cases back with
        | nil =>
            rw [List.append_nil] at htr'
            have hevs : evs = [] ++ .published c seq msg start :: after :=
              hback.symm
            obtain ⟨-, hseq⟩ :=
              published_head (BrokerServer.step_of_eq hstep) hevs
            rw [← htr']
            exact ⟨t, hrun, hseq⟩
        | cons e back =>
            obtain ⟨rfl, -⟩ := List.cons.inj hback
            exact ih htr'

/-- What has been handed over has a number below that of a publish which is
enqueued later. -/
theorem not_handed_of_published (h : broker.Reaches (.init log) tr s)
    (htr : tr = before ++ .published c seq msg start :: after) :
    (∀ e ∈ enqueuedAs before, e.1 < seq) ∧
      (seq, msg) ∉ handedIn (routerEvents before) := by
  obtain ⟨u, hu, rfl⟩ := published_split h htr
  have hinv := orderInv_run (router_run hu)
  refine ⟨?_, ?_⟩
  · intro e he
    exact hinv.lt_seq _
      (hinv.conserved.mem_iff.mp (mem_enqueuedIn_of_enqueuedAs hu he))
  · intro hhanded
    exact lt_irrefl _ (hinv.lt_seq _ (List.mem_append_left _ hhanded))

/-! ## When the orders agree -/

/-- Handlers that enqueue in the order of the log make live delivery agree with
it. -/
theorem liveAsLogged_of_enqueuedAsLogged
    (h : broker.Reaches (.init log) tr s) (horder : EnqueuedAsLogged tr) :
    LiveAsLogged tr := by
  rintro before after rfl e e' hwaits hwaits' hpriority hlog during rest hafter
  have hincreasing := enqueuedAs_increasing h
  rw [enqueuedAs_append] at hincreasing
  have hmem : e ∈ enqueuedAs (before ++ after) := by
    rw [enqueuedAs_append]
    exact List.mem_append_left _ hwaits.1
  refine handed_first h e e' hmem hwaits hpriority ?_ hafter
  by_contra hnot
  -- otherwise the handler of `e` has found `e'` in the heap
  obtain ⟨c, hpublished⟩ := mem_enqueuedAs_iff.mp hwaits.1
  obtain ⟨earlier, later, rfl⟩ := List.append_of_mem hpublished
  have hsplit : enqueuedAs
      (earlier ++ .published c e.1 e.2.1 e.2.2 :: later) =
        enqueuedAs earlier ++ e :: enqueuedAs later := by
    rw [enqueuedAs_append]
    rfl
  have hsorted := (List.pairwise_append.mp hincreasing).1
  rw [hsplit, List.pairwise_append, List.pairwise_cons] at hsorted
  have hwaiting : Waits e' earlier := by
    refine ⟨?_, ?_⟩
    · have hin := hwaits'.1
      rw [hsplit, List.mem_append, List.mem_cons] at hin
      rcases hin with hin | rfl | hin
      · exact hin
      · exact absurd hlog (lt_irrefl _)
      · exact absurd (hsorted.2.1.1 e' hin) hnot
    · intro hhanded
      apply hwaits'.2
      rw [routerEvents_append, handedIn_append]
      exact List.mem_append_left _ hhanded
  have hle := horder earlier c e.1 e.2.1 e.2.2 (later ++ after) (by simp) e'
    hwaiting hpriority.symm
  omega

/-- Where everything has been handed over, a handler that has enqueued its
publish in front of one that is behind it in the log has made live delivery
disagree with the log. -/
theorem enqueuedAsLogged_of_liveAsLogged
    (h : broker.Reaches (.init log) tr s) (hdone : s.router.heap = [])
    (hlive : LiveAsLogged tr) : EnqueuedAsLogged tr := by
  rintro before c seq msg start after rfl e hwaits hpriority
  by_contra hnot
  obtain ⟨hsmaller, hfresh⟩ := not_handed_of_published h rfl
  have hpart : routerEvents (before ++ [.published c seq msg start]) =
      routerEvents before := by
    rw [routerEvents_append]
    exact List.append_nil _
  have hwaits' : Waits e (before ++ [.published c seq msg start]) := by
    refine ⟨?_, ?_⟩
    · rw [enqueuedAs_append]
      exact List.mem_append_left _ hwaits.1
    · rw [hpart]
      exact hwaits.2
  have hnew : Waits (seq, msg, start)
      (before ++ [.published c seq msg start]) := by
    refine ⟨?_, ?_⟩
    · rw [enqueuedAs_append]
      exact List.mem_append_right _ (List.mem_singleton_self _)
    · rw [hpart]
      exact hfresh
  have htr : before ++ .published c seq msg start :: after =
      (before ++ [.published c seq msg start]) ++ after := by
    simp
  have hmem : e ∈
      enqueuedAs (before ++ [.published c seq msg start] ++ after) := by
    rw [enqueuedAs_append]
    exact List.mem_append_left _ hwaits'.1
  rw [htr] at h hlive
  -- `e` is handed over in the end, and only after it has been enqueued
  have hhanded : .router (.handedOver e.1 e.2.1) ∈ after := by
    have hqueued := (queued_run (router_run h)).mem_iff.mp
      (List.mem_append_right _ (mem_enqueuedIn_of_enqueuedAs h hmem))
    rw [PriorityRouter.queued, hdone, List.map_nil, List.append_nil,
      routerEvents_append, handedIn_append, List.mem_append] at hqueued
    exact mem_handedIn_routerEvents.mp (hqueued.resolve_left hwaits'.2)
  obtain ⟨during, rest, hafter, hfirst⟩ := List.eq_append_cons_of_mem hhanded
  have hovertaken := hlive _ _ rfl (seq, msg, start) e hnew hwaits'
    hpriority.symm (not_le.mp hnot) during rest hafter
  obtain ⟨early, late, rfl⟩ := List.append_of_mem hovertaken
  have hafter' : after = early ++ .router (.handedOver seq msg) ::
      (late ++ .router (.handedOver e.1 e.2.1) :: rest) := by
    rw [hafter, List.append_assoc]
    rfl
  have hbefore := handed_first h e (seq, msg, start) hmem hwaits' hpriority
    (hsmaller e hwaits.1) hafter'
  exact hfirst (List.mem_append_left _ hbefore)

/-- Handlers that go on in the order in which their frames were written enqueue
in the order of the log. -/
theorem enqueuedAsLogged_of_inOrder
    (h : (publishedIn tr).Pairwise fun e e' => e.2 < e'.2) :
    EnqueuedAsLogged tr := by
  rintro before c seq msg start after rfl e hwaits -
  rw [publishedIn_eq, enqueuedAs_append, List.map_append,
    List.pairwise_append] at h
  have hlt := h.2.2 e.2 (List.mem_map_of_mem hwaits.1) (msg, start)
    List.mem_cons_self
  exact le_of_lt hlt

/-- In every run: if every handler that enqueues its publish finds in the heap
only such publishes of its priority as lie before it in the log, then of two of
equal priority that wait together the one that comes first in the log is handed
over first; and where nothing is left in the heap, this is also necessary. -/
theorem live_as_logged_iff (h : broker.Reaches (.init log) tr s) :
    (EnqueuedAsLogged tr → LiveAsLogged tr) ∧
      (s.router.heap = [] → LiveAsLogged tr → EnqueuedAsLogged tr) :=
  ⟨liveAsLogged_of_enqueuedAsLogged h, enqueuedAsLogged_of_liveAsLogged h⟩

/-- Two clients whose appends overlap, and whose handlers go on in the order of
their writes. -/
theorem live_as_logged_inOrder :
    let msg : Message :=
      { command := cmdPublish, topicId := 1, priority := 0, payload := [65] }
    let msg' : Message := { msg with payload := [66] }
    LiveAsLogged
      [.registered 0, .registered 1, .told 0, .told 1, .appended 0 msg 0 0,
        .appended 1 msg' 0 11, .published 0 0 msg 0,
        .router (.enqueued 0 msg), .published 1 1 msg' 11,
        .router (.enqueued 1 msg'), .router (.handedOver 0 msg)] := by
  intro msg msg'
  have hrun : broker.Reaches (.init none)
      [.registered 0, .registered 1, .told 0, .told 1, .appended 0 msg 0 0,
        .appended 1 msg' 0 11, .published 0 0 msg 0,
        .router (.enqueued 0 msg), .published 1 1 msg' 11,
        .router (.enqueued 1 msg'), .router (.handedOver 0 msg)]
      { registry := { clients := [(0, []), (1, [])] }
        log := msg.frame ++ msg'.frame
        router :=
          { heap := [{ negPriority := 0, seq := 1, message := msg' }]
            seq := 2
            event := false
            running := true
            worker := .fanout 0 msg }
        messagesProcessed := 2
        latestOffset := 11
        handlers := [.reading, .reading]
        shutdown := false } :=
    System.exec_run [.connect, .connect, .receive 0 msg, .receive 1 msg',
      .tell 0, .tell 1, .write 0, .write 1, .resume 0, .resume 1,
      .worker .wake, .worker .pop] (by decide)
  exact (live_as_logged_iff hrun).1
    (enqueuedAsLogged_of_inOrder (by simp [publishedIn]))

/-- Two clients whose appends overlap, and whose handlers go on in the other
order: the frame of client 0 comes first in the log, and the message of
client 1 is handed over first. -/
theorem live_overtakes_log :
    ∃ tr s, broker.Reaches (.init none) tr s ∧ ¬LiveAsLogged tr := by
  let msg : Message :=
    { command := cmdPublish, topicId := 1, priority := 0, payload := [65] }
  let msg' : Message := { msg with payload := [66] }
  let before : List BrokerEvent :=
    [.registered 0, .registered 1, .told 0, .told 1, .appended 0 msg 0 0,
      .appended 1 msg' 0 11, .published 1 0 msg' 11,
      .router (.enqueued 0 msg'), .published 0 1 msg 0,
      .router (.enqueued 1 msg)]
  have hrun : broker.Reaches (.init none)
      (before ++ [.router (.handedOver 0 msg')])
      { registry := { clients := [(0, []), (1, [])] }
        log := msg.frame ++ msg'.frame
        router :=
          { heap := [{ negPriority := 0, seq := 1, message := msg }]
            seq := 2
            event := false
            running := true
            worker := .fanout 0 msg' }
        messagesProcessed := 2
        latestOffset := 11
        handlers := [.reading, .reading]
        shutdown := false } :=
    System.exec_run [.connect, .connect, .receive 0 msg, .receive 1 msg',
      .tell 0, .tell 1, .write 0, .write 1, .resume 1, .resume 0,
      .worker .wake, .worker .pop] (by decide)
  refine ⟨_, _, hrun, ?_⟩
  intro hlive
  have hfirst := hlive before _ rfl (1, msg, 0) (0, msg', 11)
    ⟨by decide, by decide⟩ ⟨by decide, by decide⟩ rfl (by decide) [] [] rfl
  cases hfirst

end SentinelHub.Broker
