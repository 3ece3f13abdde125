import Mathlib.Data.List.Sort
import SentinelHub.Broker.Observed
import SentinelHub.Broker.TimeTravel

/-!
# A publisher's order

The publishes of one client keep their order on the way through the broker.
Its handler takes one after the other, so that they come to the log and to the
heap in the order in which they were sent; the log only grows at its end; and
the router hands over equal priorities in the order of their numbers and writes
to each subscriber in the order of the hand-overs.
-/

namespace SentinelHub.Broker

open SentinelHub.Support

variable {s s' : BrokerServer} {a : BrokerAction} {c p : ClientId}
  {obs : List Observation} {evs tr : List BrokerEvent} {msg : Message}
  {log : Option Bytes}

/-! ## In the log -/

/-- Each of these frames is in the log at its position, and they lie one behind
the other. -/
structure InLog (frames : List (Message × ℕ)) (content : Bytes) : Prop where
  present : ∀ e ∈ frames, e.1.frame <+: content.drop e.2
  inside : ∀ e ∈ frames, e.2 + e.1.frame.length ≤ content.length
  ordered : frames.Pairwise fun e e' => e.2 + e.1.frame.length ≤ e'.2

theorem InLog.grow {frames : List (Message × ℕ)} {content : Bytes}
    (h : InLog frames content) (more : Bytes) :
    InLog frames (content ++ more) where
  present := by
    intro e he
    have hend := h.inside e he
    rw [List.drop_append_of_le_length (by omega)]
    exact (h.present e he).trans (List.prefix_append _ _)
  inside := by
    intro e he
    rw [List.length_append]
    exact le_trans (h.inside e he) (Nat.le_add_right _ _)
  ordered := h.ordered

theorem InLog.append {frames : List (Message × ℕ)} {content : Bytes}
    (h : InLog frames content) (msg : Message) :
    InLog (frames ++ [(msg, content.length)]) (content ++ msg.frame) where
  present := by
    intro e he
    rcases List.mem_append.mp he with he | he
    · exact (h.grow msg.frame).present e he
    · rw [List.mem_singleton.mp he, List.drop_left]
  inside := by
    intro e he
    rcases List.mem_append.mp he with he | he
    · exact (h.grow msg.frame).inside e he
    · rw [List.mem_singleton.mp he, List.length_append]
  ordered := by
    refine List.pairwise_append.mpr
      ⟨h.ordered, List.pairwise_singleton _ _, ?_⟩
    intro e he e' he'
    rw [List.mem_singleton.mp he']
    exact h.inside e he

/-- No two of the frames begin at one position. -/
theorem InLog.length_le {frames : List (Message × ℕ)} {content : Bytes}
    (h : InLog frames content) : frames.length ≤ content.length := by
  have hnodup : (frames.map Prod.snd).Nodup := by
    rw [List.Nodup, List.pairwise_map]
    refine h.ordered.imp fun {e e'} hbehind => ?_
    have hpos := e.1.length_frame
    rw [headerSize] at hpos
    omega
  have hsubset : frames.map Prod.snd ⊆ List.range content.length := by
    intro start hstart
    obtain ⟨e, he, rfl⟩ := List.mem_map.mp hstart
    have hend := h.inside e he
    have hpos := e.1.length_frame
    rw [headerSize] at hpos
    rw [List.mem_range]
    omega
  have hle := (List.subperm_of_subset hnodup hsubset).length_le
  rwa [List.length_map, List.length_range] at hle

/-- The log grows at its end, by a whole frame where one is noted. -/
theorem log_step (hok : s.HandlersOk) (hstep : BrokerStep s a s' evs) :
    ∃ more, s'.log = s.log ++ more ∧
      (loggedIn evs = [] ∨
        ∃ msg, loggedIn evs = [(msg, s.log.length)] ∧
          more = msg.frame) := by
  have hsame : s.log = s.log ++ [] := (List.append_nil _).symm
  cases hstep with
  | write c msg frame offset hhandler =>
      obtain ⟨-, hframe⟩ := hok.get hhandler
      obtain rfl := Option.some.inj hframe
      exact ⟨_, rfl, Or.inr ⟨msg, rfl, rfl⟩⟩
  | appendRaise c n msg call log hhandler hfail =>
      cases call with
      | opening frame =>
          rw [AppendCall.fail] at hfail
          split at hfail <;> cases hfail
          exact ⟨[], hsame, Or.inl rfl⟩
      | opened frame offset =>
          rw [AppendCall.fail] at hfail
          split at hfail <;> cases hfail
          exact ⟨frame.take n, rfl, Or.inl rfl⟩
      | returned => cases hfail
  | worker action router revs =>
      exact ⟨[], hsame, Or.inl (loggedIn_map_router revs)⟩
  | _ => exact ⟨[], hsame, Or.inl rfl⟩

theorem InLog.step {frames : List (Message × ℕ)} (h : InLog frames s.log)
    (hok : s.HandlersOk) (hstep : BrokerStep s a s' evs) :
    InLog (frames ++ loggedIn evs) s'.log := by
  obtain ⟨more, hlog, hlogged⟩ := log_step hok hstep
  rw [hlog]
  rcases hlogged with hnone | ⟨msg, hone, rfl⟩
  · rw [hnone, List.append_nil]
    exact h.grow more
  · rw [hone]
    exact h.append msg

/-- Every frame that has been noted as written is in the log, where it was
noted, behind those that were written before it.  This holds also where other
appends have failed halfway. -/
theorem inLog_run (h : broker.Reaches (.init log) tr s) :
    InLog (loggedIn tr) s.log := by
  induction h with
  | nil => exact ⟨by simp [loggedIn], by simp [loggedIn], List.Pairwise.nil⟩
  | snoc hrun _ hstep ih =>
      rw [loggedIn_append]
      exact ih.step (handlersOk_run hrun) (BrokerServer.step_of_eq hstep)

theorem appendedBy_sublist (p : ClientId) (tr : List BrokerEvent) :
    (appendedBy p tr).Sublist (loggedIn tr) := by
  induction tr with
  | nil => exact List.Sublist.slnil
  | cons e tr ih =>
      cases e with
      | appended client msg offset start =>
          by_cases hp : client = p
          · simp only [appendedBy, loggedIn, List.filterMap_cons, if_pos hp]
            exact ih.cons_cons _
          · simp only [appendedBy, loggedIn, List.filterMap_cons, if_neg hp]
            exact ih.cons _
      | _ => exact ih

theorem InLog.sublist {frames frames' : List (Message × ℕ)} {content : Bytes}
    (h : InLog frames content) (hsub : frames'.Sublist frames) :
    InLog frames' content where
  present := fun e he => h.present e (hsub.subset he)
  inside := fun e he => h.inside e (hsub.subset he)
  ordered := h.ordered.sublist hsub

theorem heldBy_isPrefix_inHand (s : BrokerServer) (p : ClientId) :
    (s.heldBy p).map Prod.fst <+: s.inHand p := by
  simp only [BrokerServer.heldBy, BrokerServer.inHand]
  split
  next handler _ =>
    cases handler with
    | appended => exact List.prefix_refl _
    | _ => exact List.nil_prefix
  next => exact List.nil_prefix

/-- The publishes of a client that have been written to the log are the first
of those it has sent, in the same order. -/
theorem appended_isPrefix_sent (p : ClientId)
    (h : observed.Reaches (.init log) obs s) :
    (appendedBy p (brokerPart obs)).map Prod.fst <+: sentBy p obs := by
  have hsequential := sequential_run p h
  obtain ⟨lost, hsent, -⟩ := hsequential.sent
  rw [hsequential.appended, hsent, List.map_append, List.map_map,
    List.append_assoc]
  refine (List.prefix_append_right_inj _).mpr ?_
  exact (heldBy_isPrefix_inHand s p).trans (List.prefix_append _ _)

/-! ## From the worker to a subscriber -/

/-- What the fan-out under way may still write to the client. -/
def Worker.due (c : ClientId) : Worker → List (ℕ × Bytes)
  | .fanout seq msg => [(seq, msg.frame)]
  | .writing seq frame client remaining _ =>
      if c ∈ client :: remaining then [(seq, frame)] else []
  | .flushing seq frame _ remaining _ =>
      if c ∈ remaining then [(seq, frame)] else []
  | _ => []

/-- What a fan-out of the message writes to a subscriber. -/
def liveFrame (e : ℕ × Message) : ℕ × Bytes :=
  (e.1, e.2.frame)

theorem Worker.due_afterUnregister (c : ClientId) (dead : List ClientId) :
    (afterUnregister dead).due c = [] := by
  cases dead <;> rfl

theorem Worker.due_afterSubscriber (c : ClientId) (seq : ℕ) (frame : Bytes)
    (remaining dead : List ClientId) :
    (afterSubscriber seq frame remaining dead).due c =
      if c ∈ remaining then [(seq, frame)] else [] := by
  cases remaining with
  | nil =>
      rw [if_neg List.not_mem_nil]
      exact due_afterUnregister c dead
  | cons => rfl

theorem PriorityRouter.due_nextRound (r : PriorityRouter) (c : ClientId) :
    r.nextRound.due c = [] := by
  rw [nextRound]
  split <;> rfl

/-- A list of clients that contains `c` only if another one does. -/
theorem due_sublist {clients clients' : List ClientId} (seq : ℕ)
    (frame : Bytes) (h : c ∈ clients → c ∈ clients') :
    (if c ∈ clients then [(seq, frame)] else []).Sublist
      (if c ∈ clients' then [(seq, frame)] else []) := by
  by_cases hc : c ∈ clients
  · rw [if_pos hc, if_pos (h hc)]
  · rw [if_neg hc]
    exact List.nil_sublist _

/-- What the worker writes to a client and what is due afterwards was due, or
belongs to a message that has just been handed over. -/
theorem due_workerStep {r r' : PriorityRouter} {action : WorkerAction}
    {revs : List RouterEvent}
    (hstep : PriorityRouter.WorkerStep r action r' revs)
    (hnodup : r.worker.targets.Nodup) (c : ClientId) :
    (writtenTo c (revs.map .router) ++ r'.worker.due c).Sublist
      (r.worker.due c ++ (handedIn revs).map liveFrame) := by
  cases hstep with
  | drained hworker =>
      change (r.nextRound.due c).Sublist _
      rw [r.due_nextRound]
      exact List.nil_sublist _
  | backoffOver hworker =>
      change (r.nextRound.due c).Sublist _
      rw [r.due_nextRound]
      exact List.nil_sublist _
  | pop entry heap hworker =>
      rw [hworker]
      exact List.Sublist.refl _
  | lookup seq msg frame client remaining hworker hencoded =>
      obtain ⟨-, rfl⟩ := Message.encoded_eq_ok.mp hencoded
      rw [hworker]
      change
        (if c ∈ client :: remaining then [(seq, msg.frame)] else []).Sublist
        [(seq, msg.frame)]
      split
      · exact List.Sublist.refl _
      · exact List.nil_sublist _
  | write seq frame client remaining dead hworker =>
      rw [hworker] at hnodup ⊢
      have hclient := (List.nodup_cons.mp hnodup).1
      by_cases hc : client = c
      · subst hc
        simp [writtenTo, Worker.due, hclient, handedIn]
      · have hne : c ≠ client := fun heq => hc heq.symm
        simp [writtenTo, Worker.due, hc, hne, handedIn]
  | writeFailed seq frame client remaining dead hworker =>
      change (Worker.due c (.afterSubscriber ..)).Sublist _
      rw [Worker.due_afterSubscriber, hworker]
      exact (due_sublist seq frame (List.mem_cons_of_mem client)).trans
        (List.sublist_append_left _ _)
  | drain seq frame client remaining dead hworker =>
      change (Worker.due c (.afterSubscriber ..)).Sublist _
      rw [Worker.due_afterSubscriber, hworker]
      exact List.sublist_append_left _ _
  | drainFailed seq frame client remaining dead hworker =>
      change (Worker.due c (.afterSubscriber ..)).Sublist _
      rw [Worker.due_afterSubscriber, hworker]
      exact List.sublist_append_left _ _
  | unregister client dead hworker =>
      change (Worker.due c (.afterUnregister ..)).Sublist _
      rw [Worker.due_afterUnregister]
      exact List.nil_sublist _
  | _ => exact List.nil_sublist _

/-- The worker has every client before it at most once. -/
theorem targets_nodup_step (hstep : BrokerStep s a s' evs)
    (hnodup : s.router.worker.targets.Nodup)
    (hsubscribers : ∀ topic, (s.registry.getSubscribers topic).Nodup) :
    s'.router.worker.targets.Nodup := by
  cases hstep with
  | worker action router revs hlooksUp hrouter =>
      have hcases := PriorityRouter.workerStep_of_eq hrouter
      rcases hcases.targets_suffix with hsuffix | rfl
      · exact hnodup.sublist hsuffix.sublist
      · obtain ⟨_, msg, -, hlookup⟩ := lookup_eq hlooksUp hrouter
        change router.worker.targets.Nodup
        rw [hlookup]
        exact hsubscribers msg.topicId
  | stopRouter =>
      exact PriorityRouter.worker_stop_cases
        (motive := fun worker => worker.targets.Nodup) s.router
        List.nodup_nil List.nodup_nil
  | _ => exact hnodup

theorem targets_nodup_run (h : broker.Reaches (.init log) tr s) :
    s.router.worker.targets.Nodup := by
  induction h with
  | nil => exact List.nodup_nil
  | snoc hrun _ hstep ih =>
      exact targets_nodup_step (BrokerServer.step_of_eq hstep) ih
        fun topic => (getSubscribers_run hrun topic).1

theorem due_step (hstep : BrokerStep s a s' evs)
    (hnodup : s.router.worker.targets.Nodup) (c : ClientId) :
    (writtenTo c evs ++ s'.router.worker.due c).Sublist
      (s.router.worker.due c ++
        (handedIn (routerEvents evs)).map liveFrame) := by
  cases hstep with
  | worker action router revs hlooksUp hrouter =>
      rw [routerEvents_map]
      exact due_workerStep (PriorityRouter.workerStep_of_eq hrouter) hnodup c
  | stopRouter =>
      exact PriorityRouter.worker_stop_cases
        (motive := fun worker => (worker.due c).Sublist _) s.router
        (List.nil_sublist _) (List.nil_sublist _)
  | _ => exact List.sublist_append_left _ _

/-- Each subscriber is written to in the order of the hand-overs, at most once
for each message. -/
theorem writtenTo_sublist_handed (h : broker.Reaches (.init log) tr s)
    (c : ClientId) :
    (writtenTo c tr).Sublist
      ((handedIn (routerEvents tr)).map liveFrame) := by
  suffices (writtenTo c tr ++ s.router.worker.due c).Sublist
      ((handedIn (routerEvents tr)).map liveFrame) from
    (List.sublist_append_left _ _).trans this
  induction h with
  | nil => exact List.nil_sublist _
  | @snoc t u tr evs a hrun _ hstep ih =>
      have hmove := due_step (BrokerServer.step_of_eq hstep)
        (targets_nodup_run hrun) c
      rw [writtenTo_append, routerEvents_append, handedIn_append,
        List.map_append, List.append_assoc]
      refine (hmove.append_left (writtenTo c tr)).trans ?_
      rw [← List.append_assoc]
      exact ih.append_right _

/-! ## In the heap -/

theorem publishedBy_sublist (p : ClientId) (tr : List BrokerEvent) :
    (publishedBy p tr).Sublist (enqueuedAs tr) := by
  induction tr with
  | nil => exact List.Sublist.slnil
  | cons e tr ih =>
      cases e with
      | published client seq msg start =>
          by_cases hp : client = p
          · simp only [publishedBy, enqueuedAs, List.filterMap_cons, if_pos hp]
            exact ih.cons_cons _
          · simp only [publishedBy, enqueuedAs, List.filterMap_cons, if_neg hp]
            exact ih.cons _
      | _ => exact ih

/-- The messages enqueued come in the order of their numbers, and a number
belongs to only one message. -/
theorem enqueued_increasing (h : broker.Reaches (.init log) tr s) :
    (enqueuedIn (routerEvents tr)).Pairwise (fun e e' => e.1 < e'.1) ∧
      ∀ e ∈ enqueuedIn (routerEvents tr),
        ∀ e' ∈ enqueuedIn (routerEvents tr), e.1 = e'.1 → e = e' := by
  have hnumbered := numbered_run (router_run h)
  refine ⟨?_, ?_⟩
  · have hsorted := List.pairwise_lt_range (n := s.router.seq)
    rw [← hnumbered, List.pairwise_map] at hsorted
    exact hsorted
  · have hnodup := List.nodup_range (n := s.router.seq)
    rw [← hnumbered] at hnodup
    exact fun e he e' he' => List.inj_on_of_nodup_map hnodup he he'

/-! ## A publisher and a subscriber -/

/-- What the router has written to the client `c` of the publishes of `p` with
the priority `q`. -/
def liveFrom (p : ClientId) (q : ℤ) (c : ClientId) (tr : List BrokerEvent) :
    List (ℕ × Bytes) :=
  (writtenTo c tr).filter fun written =>
    ∃ e ∈ publishedBy p tr, e.1 = written.1 ∧ e.2.1.priority = q

/-- The publishes of a client with the priority `q`, in the order in which they
have been enqueued. -/
def publishedWith (p : ClientId) (q : ℤ) (tr : List BrokerEvent) :
    List (ℕ × Message) :=
  ((publishedBy p tr).filter fun e => e.2.1.priority = q).map fun e =>
    (e.1, e.2.1)

theorem publishedWith_sublist (p : ClientId) (q : ℤ)
    (tr : List BrokerEvent) :
    (publishedWith p q tr).Sublist
      ((publishedBy p tr).map fun e => (e.1, e.2.1)) :=
  List.filter_sublist.map _

/-- Hand-overs of one priority come in the order in which their messages have
been enqueued. -/
theorem handed_sublist_of_priority (h : broker.Reaches (.init log) tr s)
    {handed queued : List (ℕ × Message)} {q : ℤ}
    (hsub : handed.Sublist (handedIn (routerEvents tr)))
    (hpriority : ∀ e ∈ handed, e.2.priority = q)
    (hqueued : queued.Sublist (enqueuedIn (routerEvents tr)))
    (hmem : ∀ e ∈ handed, e ∈ queued) : handed.Sublist queued := by
  have hfifo : handed.Pairwise fun e e' => e.1 < e'.1 := by
    have hpairs := (List.pairwise_append.mp
      (orderInv_run (router_run h)).fifo).1.sublist hsub
    refine hpairs.imp_of_mem ?_
    intro e e' he he' hlt
    exact hlt ((hpriority e he).trans (hpriority e' he').symm)
  have hsorted : queued.Pairwise fun e e' => e.1 < e'.1 :=
    (enqueued_increasing h).1.sublist hqueued
  have hantisymm : Std.Antisymm fun e e' : ℕ × Message => e.1 < e'.1 :=
    ⟨fun e e' hlt hgt => absurd hlt (lt_asymm hgt)⟩
  have hnodup : handed.Nodup :=
    hfifo.imp fun hlt heq => absurd (congrArg Prod.fst heq) hlt.ne
  exact List.sublist_of_subperm_of_pairwise
    (List.subperm_of_subset hnodup hmem) hfifo hsorted

/-- Among the hand-overs, those of a client's publishes with one priority come
in the order in which they were enqueued. -/
theorem handed_sublist_publishedWith (h : broker.Reaches (.init log) tr s)
    {handed : List (ℕ × Message)} {q : ℤ}
    (hsub : handed.Sublist (handedIn (routerEvents tr)))
    (hall : ∀ e ∈ handed, ∃ e' ∈ publishedBy p tr,
      e'.1 = e.1 ∧ e'.2.1.priority = q) :
    handed.Sublist (publishedWith p q tr) := by
  have hinv := orderInv_run (router_run h)
  have hunique := (enqueued_increasing h).2
  have hpublished := ((publishedBy_sublist p tr).map
    fun e => (e.1, e.2.1)).trans (enqueuedAs_sublist h)
  have hmem : ∀ e ∈ handed,
      e.2.priority = q ∧ e ∈ publishedWith p q tr := by
    intro e he
    obtain ⟨e', he', hseq, hpriority⟩ := hall e he
    have henqueued : e ∈ enqueuedIn (routerEvents tr) :=
      hinv.conserved.mem_iff.mpr
        (List.mem_append_left _ (hsub.subset he))
    have henqueued' : (e'.1, e'.2.1) ∈ enqueuedIn (routerEvents tr) :=
      hpublished.subset (List.mem_map_of_mem he')
    obtain rfl := hunique _ henqueued' _ henqueued hseq
    exact ⟨hpriority, List.mem_map_of_mem
      (List.mem_filter.mpr ⟨he', decide_eq_true hpriority⟩)⟩
  exact handed_sublist_of_priority h hsub (fun e he => (hmem e he).1)
    ((publishedWith_sublist p q tr).trans hpublished)
    fun e he => (hmem e he).2

/-- The publishes with one priority that have been enqueued are the first of
those sent with this priority. -/
theorem publishedWith_isPrefix_sent (p : ClientId) (q : ℤ)
    (h : observed.Reaches (.init log) obs s) :
    (publishedWith p q (brokerPart obs)).map Prod.snd <+:
      (sentBy p obs).filter fun msg => msg.priority = q := by
  have hprefix := (published_isPrefix_sent p h).filter
    fun msg => msg.priority = q
  rw [List.filter_map] at hprefix
  rw [publishedWith, List.map_map]
  exact hprefix

/-- In every run, for every publishing client: its publishes that are in the
log are the first of those it has sent, and lie in the log in this order, one
behind the other; and for every priority, those of its publishes that have been
enqueued are the first of those it has sent with this priority, and each
subscriber has been written some of them, in this order. -/
theorem publisher_order (h : observed.Reaches (.init log) obs s)
    (p : ClientId) :
    (appendedBy p (brokerPart obs)).map Prod.fst <+: sentBy p obs ∧
      InLog (appendedBy p (brokerPart obs)) s.log ∧
      ∀ q, (publishedWith p q (brokerPart obs)).map Prod.snd <+:
          (sentBy p obs).filter (fun msg => msg.priority = q) ∧
        ∀ c, (liveFrom p q c (brokerPart obs)).Sublist
          ((publishedWith p q (brokerPart obs)).map liveFrame) := by
  have hbroker := broker_run h
  refine ⟨appended_isPrefix_sent p h,
    (inLog_run hbroker).sublist (appendedBy_sublist p _), ?_⟩
  intro q
  refine ⟨publishedWith_isPrefix_sent p q h, ?_⟩
  intro c
  obtain ⟨handed, hsub, hwritten⟩ :=
    List.sublist_map_iff.mp (writtenTo_sublist_handed hbroker c)
  let isLive : ℕ × Message → Bool := fun e =>
    ∃ e' ∈ publishedBy p (brokerPart obs), e'.1 = e.1 ∧ e'.2.1.priority = q
  have hlive : (handed.filter isLive).Sublist
      (publishedWith p q (brokerPart obs)) := by
    refine handed_sublist_publishedWith hbroker
      (List.filter_sublist.trans hsub) ?_
    intro e he
    exact of_decide_eq_true (List.mem_filter.mp he).2
  rw [liveFrom, hwritten, List.filter_map]
  exact hlive.map liveFrame

/-- Two publishers whose appends overlap: the frames of the first one lie in
the log in its order, behind that of the other one. -/
theorem publisher_order_overlapping :
    let first : Message :=
      { command := cmdPublish, topicId := 1, priority := 0, payload := [65] }
    let second : Message := { first with payload := [66] }
    let other : Message := { first with payload := [67] }
    InLog [(first, 11), (second, 22)]
      (other.frame ++ first.frame ++ second.frame) := by
  intro first second other
  let s : BrokerServer :=
    { registry := { clients := [(0, []), (1, [])] }
      log := other.frame ++ first.frame ++ second.frame
      router :=
        { heap := [{ negPriority := 0, seq := 0, message := first },
            { negPriority := 0, seq := 1, message := second },
            { negPriority := 0, seq := 2, message := other }]
          seq := 3
          event := true
          running := true
          worker := .waiting }
      messagesProcessed := 3
      latestOffset := 11
      handlers := [.reading, .reading]
      shutdown := false }
  have hrun : observed.Reaches (.init none)
      [.broker (.registered 0), .broker (.registered 1), .sent 0 first,
        .sent 1 other, .broker (.told 0), .broker (.told 1),
        .broker (.appended 1 other 0 0), .broker (.appended 0 first 0 11),
        .broker (.published 0 0 first 11),
        .broker (.router (.enqueued 0 first)), .sent 0 second,
        .broker (.told 0), .broker (.appended 0 second 22 22),
        .broker (.published 0 1 second 22),
        .broker (.router (.enqueued 1 second)),
        .broker (.published 1 2 other 0),
        .broker (.router (.enqueued 2 other))] s :=
    System.exec_run [.connect, .connect, .receive 0 first, .receive 1 other,
      .tell 0, .tell 1, .write 1, .write 0, .resume 0, .receive 0 second,
      .tell 0, .write 0, .resume 0, .resume 1] (by decide)
  exact (publisher_order hrun 0).2.1

end SentinelHub.Broker
