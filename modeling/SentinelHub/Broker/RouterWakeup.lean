import SentinelHub.Broker.Router

/-!
# Waking the worker

The worker clears its event before it drains the heap, and every enqueue sets
the event again.  A fan-out that ends in an exception leaves the drain loop
midway: after the back-off the worker waits for an event that nobody needs to
have set, with messages in the heap.

Messages are never stranded in the runs in which every such exception meets an
empty heap or a set event, and each exception that does not is followed, at
the end of the back-off, by a state in which they are.
-/

namespace SentinelHub.Broker

open SentinelHub.Support

/-- The positions from which the worker only goes on to drain the heap after it
has seen the event. -/
def Worker.asleep : Worker → Bool
  | .notStarted => true
  | .waiting => true
  | .backingOff => true
  | .finished => true
  | _ => false

theorem Worker.asleep_afterUnregister (dead : List ClientId) :
    (Worker.afterUnregister dead).asleep = false := by
  cases dead <;> rfl

theorem Worker.asleep_afterSubscriber (seq : ℕ) (frame : Bytes)
    (remaining dead : List ClientId) :
    (Worker.afterSubscriber seq frame remaining dead).asleep = false := by
  cases remaining with
  | nil => exact asleep_afterUnregister dead
  | cons => rfl

namespace PriorityRouter

/-- A worker that waits on the event has nothing to do, or is about to be
woken up. -/
def NotStranded (r : PriorityRouter) : Prop :=
  r.worker = .waiting → r.heap = [] ∨ r.event = true

/-- The action ends a fan-out with an exception that `_fanout` does not catch:
one raised by `encode`, or by a call that leaves the router. -/
def raises (r : PriorityRouter) : RouterAction → Bool
  | .worker .raise => r.worker.inFanout
  | .worker (.lookup (_ :: _)) =>
      match r.worker with
      | .fanout _ msg => !decide msg.OnWire
      | _ => false
  | _ => false

/-- An exception that escapes from `_fanout` finds the heap empty or the event
set. -/
def RaisesHarmlessly (r : PriorityRouter) (a : RouterAction) : Prop :=
  r.raises a = true → r.heap = [] ∨ r.event = true

instance (r : PriorityRouter) (a : RouterAction) :
    Decidable (r.RaisesHarmlessly a) :=
  inferInstanceAs (Decidable (_ → _))

/-! ## The invariant -/

/-- A sleeping worker leaves no message behind without a set event, and a
router that does not run has no active worker. -/
structure WakeInv (r : PriorityRouter) : Prop where
  noneBehind : r.worker.asleep = true → r.heap = [] ∨ r.event = true
  stopped : r.running = false → r.worker = .notStarted ∨ r.worker = .finished

variable {r r' : PriorityRouter} {a : RouterAction} {action : WorkerAction}
  {tr evs : List RouterEvent}

theorem stopped_init : PriorityRouter.init.running = false →
    PriorityRouter.init.worker = .notStarted ∨
      PriorityRouter.init.worker = .finished :=
  fun _ => Or.inl rfl

theorem wakeInv_init : WakeInv .init :=
  ⟨fun _ => Or.inl rfl, stopped_init⟩

/-- A worker that takes a step belongs to a running router. -/
theorem running_of_workerStep
    (h : r.running = false → r.worker = .notStarted ∨ r.worker = .finished)
    (hstep : WorkerStep r action r' evs) :
    r.running = true ∧ r'.running = true := by
  have hrunning : r.running = true := by
    by_contra hnot
    rcases h (Bool.eq_false_of_not_eq_true hnot) with hworker | hworker
    · cases hstep <;> simp_all [Worker.inFanout]
    · cases hstep <;> simp_all [Worker.inFanout]
  refine ⟨hrunning, ?_⟩
  cases hstep <;> exact hrunning

/-- Only the router's own `stop` ends the worker. -/
theorem stopped_step
    (h : r.running = false → r.worker = .notStarted ∨ r.worker = .finished)
    (hstep : router.step r a = some (r', evs)) :
    r'.running = false → r'.worker = .notStarted ∨ r'.worker = .finished := by
  cases a with
  | start =>
      cases hstep
      rw [start]
      split
      · exact h
      · intro hfalse
        cases hfalse
  | stop =>
      cases hstep
      intro _
      exact worker_stop_cases
        (motive := fun worker => worker = .notStarted ∨ worker = .finished) r
        (Or.inl rfl) (Or.inr rfl)
  | enqueue msg =>
      cases hstep
      exact h
  | worker action =>
      intro hfalse
      have hrunning := (running_of_workerStep h (workerStep_of_eq hstep)).2
      rw [hrunning] at hfalse
      cases hfalse

theorem stopped_run (h : router.Reaches .init tr r) :
    r.running = false → r.worker = .notStarted ∨ r.worker = .finished :=
  h.invariant (I := fun _ r =>
      r.running = false → r.worker = .notStarted ∨ r.worker = .finished)
    stopped_init fun _ _ _ _ _ ht _ hstep => stopped_step ht hstep

/-- The steps of the worker that keep the heap and the event on their way to
sleep. -/
theorem noneBehind_workerStep
    (h : r.worker.asleep = true → r.heap = [] ∨ r.event = true)
    (hok : RaisesHarmlessly r (.worker action))
    (hstep : WorkerStep r action r' evs) :
    r'.worker.asleep = true → r'.heap = [] ∨ r'.event = true := by
  cases hstep with
  | wake => intro hasleep; cases hasleep
  | drained hworker hheap => exact fun _ => Or.inl hheap
  | pop => intro hasleep; cases hasleep
  | noSubscribers => intro hasleep; cases hasleep
  | notEncoded seq msg error client remaining hworker hencoded =>
      have hwire : ¬msg.OnWire := by
        intro hwire
        rw [hwire.encoded] at hencoded
        cases hencoded
      exact fun _ => hok (by simp [raises, hworker, hwire])
  | lookup => intro hasleep; cases hasleep
  | write => intro hasleep; cases hasleep
  | writeFailed =>
      simp only [Worker.asleep_afterSubscriber, Bool.false_eq_true,
        false_implies]
  | drain =>
      simp only [Worker.asleep_afterSubscriber, Bool.false_eq_true,
        false_implies]
  | drainFailed =>
      simp only [Worker.asleep_afterSubscriber, Bool.false_eq_true,
        false_implies]
  | unregister =>
      simp only [Worker.asleep_afterUnregister, Bool.false_eq_true,
        false_implies]
  | pauseOver => intro hasleep; cases hasleep
  | backoffOver hworker =>
      rw [hworker] at h
      exact fun _ => h rfl
  | raised hworker => exact fun _ => hok hworker

theorem WakeInv.step (h : r.WakeInv) (hok : RaisesHarmlessly r a)
    (hstep : router.step r a = some (r', evs)) : r'.WakeInv := by
  refine ⟨?_, stopped_step h.stopped hstep⟩
  cases a with
  | start =>
      cases hstep
      rw [start]
      split
      · exact h.noneBehind
      next hnot =>
        have hstopped := h.stopped (Bool.eq_false_of_not_eq_true hnot)
        intro _
        apply h.noneBehind
        rcases hstopped with hworker | hworker
        · rw [hworker]
          rfl
        · rw [hworker]
          rfl
  | stop =>
      cases hstep
      exact fun _ => Or.inr rfl
  | enqueue msg =>
      cases hstep
      exact fun _ => Or.inr rfl
  | worker action =>
      exact noneBehind_workerStep h.noneBehind hok (workerStep_of_eq hstep)

theorem wakeInv_run (h : router.Run RaisesHarmlessly .init tr r) :
    r.WakeInv :=
  h.invariant (I := fun _ r => r.WakeInv) wakeInv_init
    fun _ _ _ _ _ ht hok hstep => ht.step hok hstep

/-! ## The exact condition -/

/-- After an exception the worker backs off. -/
theorem eq_of_raises (hstep : router.step r a = some (r', evs))
    (hraises : r.raises a = true) :
    r.worker.inFanout = true ∧ r' = { r with worker := .backingOff } := by
  cases a with
  | worker action =>
      cases workerStep_of_eq hstep with
      | raised hworker => exact ⟨hworker, rfl⟩
      | notEncoded seq msg error client remaining hworker =>
          rw [hworker]
          exact ⟨rfl, rfl⟩
      | lookup seq msg frame client remaining hworker hencoded =>
          have hwire := (Message.encoded_eq_ok.mp hencoded).1
          simp [raises, hworker, hwire] at hraises
      | _ => cases hraises
  | _ => cases hraises

/-- An exception that finds messages in the heap and the event cleared: when
the back-off is over, the worker waits on the event and cannot move. -/
theorem stranded_of_raises (h : router.Reaches .init tr r)
    (hstep : router.step r a = some (r', evs)) (hraises : r.raises a = true)
    (hheap : r.heap ≠ []) (hevent : r.event = false) :
    ∃ r'', router.step r' (.worker .resume) = some (r'', []) ∧
      ¬r''.NotStranded ∧ ∀ action, r''.workerStep action = none := by
  obtain ⟨hfanout, rfl⟩ := eq_of_raises hstep hraises
  have hrunning : r.running = true := by
    by_contra hnot
    rcases stopped_run h (Bool.eq_false_of_not_eq_true hnot) with hw | hw
    · rw [hw] at hfanout
      cases hfanout
    · rw [hw] at hfanout
      cases hfanout
  refine ⟨{ r with worker := .waiting }, ?_, ?_, ?_⟩
  · change some (_, _) = _
    rw [nextRound, if_pos hrunning]
  · intro hnotStranded
    rcases hnotStranded rfl with hnil | htrue
    · exact hheap hnil
    · rw [hevent] at htrue
      cases htrue
  · intro action
    cases action with
    | wake => simp [workerStep, hevent]
    | _ => rfl

/-- In every state that the router reaches: if every exception that has escaped
from `_fanout` found the heap empty or the event set, no message is stranded;
and every exception that does not find them so strands the messages in the
heap, as soon as the back-off is over without another enqueue. -/
theorem notStranded_exact (h : router.Reaches .init tr r) :
    (router.Run RaisesHarmlessly .init tr r → r.NotStranded) ∧
      ∀ a r' evs, router.step r a = some (r', evs) → ¬r.RaisesHarmlessly a →
        ∃ r'', router.step r' (.worker .resume) = some (r'', []) ∧
          ¬r''.NotStranded ∧ ∀ action, r''.workerStep action = none := by
  refine ⟨?_, ?_⟩
  · intro hharmless hwaiting
    apply (wakeInv_run hharmless).noneBehind
    rw [hwaiting]
    rfl
  · intro a r' evs hstep hharm
    rw [RaisesHarmlessly, Classical.not_imp, not_or,
      Bool.not_eq_true] at hharm
    obtain ⟨hraises, hheap, hevent⟩ := hharm
    exact stranded_of_raises h hstep hraises hheap hevent

/-- An exception in the fan-out of the only message strands nothing. -/
theorem notStranded_alone :
    NotStranded
      { heap := [], seq := 1, event := false, running := true,
        worker := .waiting } := by
  let msg : Message :=
    { command := cmdPublish, topicId := 1, priority := 0, payload := [] }
  have hrun : router.Run RaisesHarmlessly .init
      [.enqueued 0 msg, .handedOver 0 msg, .crashed]
      { heap := [], seq := 1, event := false, running := true,
        worker := .waiting } :=
    System.exec_run [.start, .enqueue msg, .worker .wake, .worker .pop,
      .worker (.lookup [0]), .worker .raise, .worker .resume] (by decide)
  exact (notStranded_exact hrun.reaches).1 hrun

/-- Two messages, and an exception in the fan-out of the first: the second
one stays in the heap while the worker waits on a cleared event. -/
theorem stranded_after_raise :
    ∃ tr r, router.Reaches .init tr r ∧ ¬r.NotStranded := by
  let msg : Message :=
    { command := cmdPublish, topicId := 1, priority := 0, payload := [] }
  have hrun : router.Reaches .init
      [.enqueued 0 msg, .enqueued 1 msg, .handedOver 0 msg, .crashed]
      { heap := [{ negPriority := 0, seq := 1, message := msg }]
        seq := 2
        event := false
        running := true
        worker := .waiting } :=
    System.exec_run [.start, .enqueue msg, .enqueue msg, .worker .wake,
      .worker .pop, .worker (.lookup [0]), .worker .raise, .worker .resume]
      (by decide)
  refine ⟨_, _, hrun, ?_⟩
  intro hnot
  rcases hnot rfl with hnil | htrue
  · cases hnil
  · cases htrue

end PriorityRouter

end SentinelHub.Broker
