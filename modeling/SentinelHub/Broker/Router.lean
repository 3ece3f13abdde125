import Mathlib.Data.List.Lex
import Mathlib.Data.Prod.Lex
import SentinelHub.Broker.Protocol
import SentinelHub.Support.PriorityQueue
import SentinelHub.Support.Runs

/-!
# The priority router

`broker/router.py`: a heap of waiting messages, an event that wakes the
worker, and the worker, which pops a message, fans it out to the subscribers
of its topic and goes on until the heap is empty.

The worker is a machine that stops at every `await` of its coroutine, and in
between at some further points, so that more interleavings with the callers of
`enqueue` are possible here than on the event loop.  Its environment chooses
the subscribers that the registry returns and how each write and each drain
ends; an exception that `_fanout` does not catch can end a fan-out at any
point.  `heapq` is taken to be a correct heap for the order of Python tuples:
the heap is the list of its entries in the order of their arrival.
-/

namespace SentinelHub.Broker

open SentinelHub.Support

abbrev ClientId := ℕ

/-! ## Heap entries -/

/-- `(-message.priority, self._seq, message)`. -/
structure HeapEntry where
  negPriority : ℤ
  seq : ℕ
  message : Message
  deriving DecidableEq, Repr

/-- A `Message` is a named tuple and compares by its fields in turn. -/
def Message.key (msg : Message) : ℤ ×ₗ ℤ ×ₗ ℤ ×ₗ List ℕ :=
  toLex (msg.command, toLex (msg.topicId,
    toLex (msg.priority, msg.payload.map UInt8.toNat)))

/-- Heap entries compare by priority, then by sequence number, and only when
both agree by the message. -/
def HeapEntry.key (entry : HeapEntry) :
    ℤ ×ₗ ℕ ×ₗ ℤ ×ₗ ℤ ×ₗ ℤ ×ₗ List ℕ :=
  toLex (entry.negPriority, toLex (entry.seq, entry.message.key))

/-- The comparison of two entries gets as far as their messages. -/
def HeapEntry.ComparesMessages (entry entry' : HeapEntry) : Prop :=
  entry.negPriority = entry'.negPriority ∧ entry.seq = entry'.seq

/-! ## The worker -/

/-- Where the worker stands: at `self._event.wait()`, at the `while` over the
heap, in `_fanout` (before the look-up, before a write, in a drain, or in the
unregistering of a dead client), in one of its two sleeps, or at its end. -/
inductive Worker
  | notStarted
  | waiting
  | draining
  | fanout (seq : ℕ) (msg : Message)
  | writing (seq : ℕ) (frame : Bytes) (client : ClientId)
      (remaining dead : List ClientId)
  | flushing (seq : ℕ) (frame : Bytes) (client : ClientId)
      (remaining dead : List ClientId)
  | unregistering (client : ClientId) (dead : List ClientId)
  | pausing
  | backingOff
  | finished
  deriving DecidableEq, Repr

/-- The positions inside `_fanout`. -/
def Worker.inFanout : Worker → Bool
  | .fanout .. => true
  | .writing .. => true
  | .flushing .. => true
  | .unregistering .. => true
  | _ => false

/-- `for client_id in dead`, and behind it the sleep after the fan-out. -/
def Worker.afterUnregister : List ClientId → Worker
  | [] => .pausing
  | client :: dead => .unregistering client dead

/-- `for client_id, writer in subscribers`, and what follows it. -/
def Worker.afterSubscriber (seq : ℕ) (frame : Bytes)
    (remaining dead : List ClientId) : Worker :=
  match remaining with
  | [] => .afterUnregister dead
  | client :: remaining => .writing seq frame client remaining dead

/-- Steps of the worker.  The results of the calls that leave the router are
part of the action: the subscribers looked up, whether a write or a drain ends
without one of the exceptions that `_fanout` catches, and whether it raises
another one. -/
inductive WorkerAction
  | wake
  | pop
  | lookup (subscribers : List ClientId)
  | write (ok : Bool)
  | drain (ok : Bool)
  | unregister
  | resume
  | raise
  deriving DecidableEq, Repr

/-- What can be noted about the router. -/
inductive RouterEvent
  | enqueued (seq : ℕ) (msg : Message)
  | handedOver (seq : ℕ) (msg : Message)
  | wrote (seq : ℕ) (client : ClientId) (frame : Bytes)
  | unreachable (client : ClientId)
  | unregistered (client : ClientId)
  | crashed
  deriving DecidableEq, Repr

/-! ## The router -/

structure PriorityRouter where
  heap : List HeapEntry
  seq : ℕ
  event : Bool
  running : Bool
  worker : Worker
  deriving DecidableEq, Repr

namespace PriorityRouter

/-- `PriorityRouter.__init__`. -/
def init : PriorityRouter where
  heap := []
  seq := 0
  event := false
  running := false
  worker := .notStarted

/-- Spawn the background worker task. -/
def start (r : PriorityRouter) : PriorityRouter :=
  if r.running then r
  else { r with running := true, worker := .waiting }

/-- Cancel the background worker.  The heap keeps its entries. -/
def stop (r : PriorityRouter) : PriorityRouter :=
  { r with
    running := false
    event := true
    worker := if r.worker = .notStarted then .notStarted else .finished }

/-- Push a message onto the priority heap and wake up the worker. -/
def enqueue (r : PriorityRouter) (message : Message) : PriorityRouter :=
  { r with
    heap := r.heap ++
      [{ negPriority := -message.priority, seq := r.seq, message }]
    seq := r.seq + 1
    event := true }

/-- `while self._running`. -/
def nextRound (r : PriorityRouter) : Worker :=
  if r.running then .waiting else .finished

/-- One step of `_worker` and `_fanout`. -/
def workerStep (r : PriorityRouter) (action : WorkerAction) :
    Option (PriorityRouter × List RouterEvent) :=
  match action with
  | .wake =>
      match r.worker with
      | .waiting =>
          if r.event then
            some ({ r with event := false, worker := .draining }, [])
          else none
      | _ => none
  | .pop =>
      match r.worker with
      | .draining =>
          match popMin HeapEntry.key r.heap with
          | none => some ({ r with worker := r.nextRound }, [])
          | some (entry, heap) =>
              some ({ r with heap, worker := .fanout entry.seq entry.message },
                [.handedOver entry.seq entry.message])
      | _ => none
  | .lookup subscribers =>
      match r.worker with
      | .fanout seq msg =>
          match subscribers with
          | [] => some ({ r with worker := .pausing }, [])
          | client :: remaining =>
              match msg.encoded with
              | .error _ => some ({ r with worker := .backingOff }, [.crashed])
              | .ok frame =>
                  some ({ r with
                    worker := .writing seq frame client remaining [] }, [])
      | _ => none
  | .write ok =>
      match r.worker with
      | .writing seq frame client remaining dead =>
          if ok then
            some ({ r with
              worker := .flushing seq frame client remaining dead },
              [.wrote seq client frame])
          else
            some ({ r with
              worker :=
                .afterSubscriber seq frame remaining (dead ++ [client]) },
              [.unreachable client])
      | _ => none
  | .drain ok =>
      match r.worker with
      | .flushing seq frame client remaining dead =>
          if ok then
            some ({ r with
              worker := .afterSubscriber seq frame remaining dead }, [])
          else
            some ({ r with
              worker :=
                .afterSubscriber seq frame remaining (dead ++ [client]) },
              [.unreachable client])
      | _ => none
  | .unregister =>
      match r.worker with
      | .unregistering client dead =>
          some ({ r with worker := .afterUnregister dead },
            [.unregistered client])
      | _ => none
  | .resume =>
      match r.worker with
      | .pausing => some ({ r with worker := .draining }, [])
      | .backingOff => some ({ r with worker := r.nextRound }, [])
      | _ => none
  | .raise =>
      if r.worker.inFanout then
        some ({ r with worker := .backingOff }, [.crashed])
      else none

end PriorityRouter

/-- What can happen to the router. -/
inductive RouterAction
  | start
  | stop
  | enqueue (message : Message)
  | worker (action : WorkerAction)
  deriving DecidableEq, Repr

/-- The router with any number of callers of `enqueue`. -/
def router : System PriorityRouter RouterAction RouterEvent where
  step r
    | .start => some (r.start, [])
    | .stop => some (r.stop, [])
    | .enqueue message =>
        some (r.enqueue message, [.enqueued r.seq message])
    | .worker action => r.workerStep action

/-! ## What a step can do -/

namespace PriorityRouter

/-- The steps of the worker, one case for each way a step can go. -/
inductive WorkerStep (r : PriorityRouter) :
    WorkerAction → PriorityRouter → List RouterEvent → Prop
  | wake (hworker : r.worker = .waiting) (hevent : r.event = true) :
      WorkerStep r .wake { r with event := false, worker := .draining } []
  | drained (hworker : r.worker = .draining) (hheap : r.heap = []) :
      WorkerStep r .pop { r with worker := r.nextRound } []
  | pop (entry : HeapEntry) (heap : List HeapEntry)
      (hworker : r.worker = .draining)
      (hpop : popMin HeapEntry.key r.heap = some (entry, heap)) :
      WorkerStep r .pop
        { r with heap, worker := .fanout entry.seq entry.message }
        [.handedOver entry.seq entry.message]
  | noSubscribers (seq : ℕ) (msg : Message)
      (hworker : r.worker = .fanout seq msg) :
      WorkerStep r (.lookup []) { r with worker := .pausing } []
  | notEncoded (seq : ℕ) (msg : Message) (error : PyError)
      (client : ClientId) (remaining : List ClientId)
      (hworker : r.worker = .fanout seq msg)
      (hencoded : msg.encoded = .error error) :
      WorkerStep r (.lookup (client :: remaining))
        { r with worker := .backingOff } [.crashed]
  | lookup (seq : ℕ) (msg : Message) (frame : Bytes) (client : ClientId)
      (remaining : List ClientId) (hworker : r.worker = .fanout seq msg)
      (hencoded : msg.encoded = .ok frame) :
      WorkerStep r (.lookup (client :: remaining))
        { r with worker := .writing seq frame client remaining [] } []
  | write (seq : ℕ) (frame : Bytes) (client : ClientId)
      (remaining dead : List ClientId)
      (hworker : r.worker = .writing seq frame client remaining dead) :
      WorkerStep r (.write true)
        { r with worker := .flushing seq frame client remaining dead }
        [.wrote seq client frame]
  | writeFailed (seq : ℕ) (frame : Bytes) (client : ClientId)
      (remaining dead : List ClientId)
      (hworker : r.worker = .writing seq frame client remaining dead) :
      WorkerStep r (.write false)
        { r with
          worker := .afterSubscriber seq frame remaining (dead ++ [client]) }
        [.unreachable client]
  | drain (seq : ℕ) (frame : Bytes) (client : ClientId)
      (remaining dead : List ClientId)
      (hworker : r.worker = .flushing seq frame client remaining dead) :
      WorkerStep r (.drain true)
        { r with worker := .afterSubscriber seq frame remaining dead } []
  | drainFailed (seq : ℕ) (frame : Bytes) (client : ClientId)
      (remaining dead : List ClientId)
      (hworker : r.worker = .flushing seq frame client remaining dead) :
      WorkerStep r (.drain false)
        { r with
          worker := .afterSubscriber seq frame remaining (dead ++ [client]) }
        [.unreachable client]
  | unregister (client : ClientId) (dead : List ClientId)
      (hworker : r.worker = .unregistering client dead) :
      WorkerStep r .unregister { r with worker := .afterUnregister dead }
        [.unregistered client]
  | pauseOver (hworker : r.worker = .pausing) :
      WorkerStep r .resume { r with worker := .draining } []
  | backoffOver (hworker : r.worker = .backingOff) :
      WorkerStep r .resume { r with worker := r.nextRound } []
  | raised (hworker : r.worker.inFanout = true) :
      WorkerStep r .raise { r with worker := .backingOff } [.crashed]

variable {r r' : PriorityRouter} {a : WorkerAction} {evs : List RouterEvent}

/-- A worker that has been cancelled is at its end, or was never started. -/
theorem worker_stop_cases {motive : Worker → Prop} (r : PriorityRouter)
    (hnotStarted : motive .notStarted) (hfinished : motive .finished) :
    motive r.stop.worker := by
  change motive (if r.worker = .notStarted then .notStarted else .finished)
  split
  · exact hnotStarted
  · exact hfinished

theorem workerStep_of_eq (h : r.workerStep a = some (r', evs)) :
    WorkerStep r a r' evs := by
  cases a with
  | wake =>
      simp only [workerStep] at h
      split at h
      next hworker =>
        split at h <;> cases h
        next hevent => exact .wake hworker hevent
      · cases h
  | pop =>
      simp only [workerStep] at h
      split at h
      next hworker =>
        split at h <;> cases h
        next hpop => exact .drained hworker (popMin_eq_none_iff.mp hpop)
        next hpop => exact .pop _ _ hworker hpop
      · cases h
  | lookup subscribers =>
      simp only [workerStep] at h
      split at h
      next hworker =>
        cases subscribers with
        | nil =>
            cases h
            exact .noSubscribers _ _ hworker
        | cons client remaining =>
            simp only at h
            split at h <;> cases h
            next hencoded => exact .notEncoded _ _ _ _ _ hworker hencoded
            next hencoded => exact .lookup _ _ _ _ _ hworker hencoded
      · cases h
  | write ok =>
      simp only [workerStep] at h
      split at h
      next hworker =>
        cases ok <;> cases h
        · exact .writeFailed _ _ _ _ _ hworker
        · exact .write _ _ _ _ _ hworker
      · cases h
  | drain ok =>
      simp only [workerStep] at h
      split at h
      next hworker =>
        cases ok <;> cases h
        · exact .drainFailed _ _ _ _ _ hworker
        · exact .drain _ _ _ _ _ hworker
      · cases h
  | unregister =>
      simp only [workerStep] at h
      split at h
      next hworker =>
        cases h
        exact .unregister _ _ hworker
      · cases h
  | resume =>
      simp only [workerStep] at h
      split at h
      next hworker =>
        cases h
        exact .pauseOver hworker
      next hworker =>
        cases h
        exact .backoffOver hworker
      · cases h
  | raise =>
      simp only [workerStep] at h
      split at h <;> cases h
      next hworker => exact .raised hworker

/-- A step of the worker pops an entry of the heap, or leaves the heap alone
and hands nothing over. -/
theorem WorkerStep.heap (h : WorkerStep r a r' evs) :
    r'.seq = r.seq ∧
      ((∃ entry, popMin HeapEntry.key r.heap = some (entry, r'.heap) ∧
          evs = [.handedOver entry.seq entry.message]) ∨
        (r'.heap = r.heap ∧ (∀ seq msg, .handedOver seq msg ∉ evs) ∧
          ∀ seq msg, .enqueued seq msg ∉ evs)) := by
  cases h with
  | pop entry heap hworker hpop => exact ⟨rfl, Or.inl ⟨entry, hpop, rfl⟩⟩
  | _ => exact ⟨rfl, Or.inr ⟨rfl, by simp, by simp⟩⟩

end PriorityRouter

/-! ## Whom the worker writes to -/

/-- The clients to which the worker is still to write its frame. -/
def Worker.targets : Worker → List ClientId
  | .writing _ _ client remaining _ => client :: remaining
  | .flushing _ _ _ remaining _ => remaining
  | _ => []

theorem Worker.targets_afterUnregister (dead : List ClientId) :
    (Worker.afterUnregister dead).targets = [] := by
  cases dead <;> rfl

theorem Worker.targets_afterSubscriber (seq : ℕ) (frame : Bytes)
    (remaining dead : List ClientId) :
    (Worker.afterSubscriber seq frame remaining dead).targets = remaining := by
  cases remaining with
  | nil => exact targets_afterUnregister dead
  | cons => rfl

namespace PriorityRouter

variable {r r' : PriorityRouter} {a : WorkerAction} {evs : List RouterEvent}
  {client : ClientId}

theorem targets_nextRound (r : PriorityRouter) : r.nextRound.targets = [] := by
  rw [nextRound]
  split <;> rfl

/-- The worker works through the clients it has looked up, from the first to
the last. -/
theorem WorkerStep.targets_suffix (h : WorkerStep r a r' evs) :
    r'.worker.targets <:+ r.worker.targets ∨
      a = .lookup r'.worker.targets := by
  cases h with
  | drained => simp [targets_nextRound]
  | backoffOver => simp [targets_nextRound]
  | unregister => simp [Worker.targets_afterUnregister]
  | lookup seq msg frame client remaining => exact Or.inr rfl
  | write seq frame client remaining dead hworker =>
      rw [hworker]
      exact Or.inl (List.suffix_cons _ _)
  | writeFailed seq frame client remaining dead hworker =>
      rw [hworker, Worker.targets_afterSubscriber]
      exact Or.inl (List.suffix_cons _ _)
  | drain seq frame client remaining dead hworker =>
      rw [hworker, Worker.targets_afterSubscriber]
      exact Or.inl (List.suffix_refl _)
  | drainFailed seq frame client remaining dead hworker =>
      rw [hworker, Worker.targets_afterSubscriber]
      exact Or.inl (List.suffix_refl _)
  | _ => exact Or.inl List.nil_suffix

/-- The worker writes only to the clients it has looked up. -/
theorem WorkerStep.mem_targets (h : WorkerStep r a r' evs)
    (hmem : client ∈ r'.worker.targets) :
    client ∈ r.worker.targets ∨
      ∃ subscribers, a = .lookup subscribers ∧ client ∈ subscribers := by
  rcases h.targets_suffix with hsuffix | hlookup
  · exact Or.inl (hsuffix.subset hmem)
  · exact Or.inr ⟨_, hlookup, hmem⟩

theorem WorkerStep.wrote_mem_targets (h : WorkerStep r a r' evs) {seq : ℕ}
    {frame : Bytes} (hmem : .wrote seq client frame ∈ evs) :
    client ∈ r.worker.targets := by
  cases h with
  | write seq frame client remaining dead hworker =>
      rw [List.mem_singleton] at hmem
      cases hmem
      rw [hworker]
      exact List.mem_cons_self ..
  | _ => simp at hmem

end PriorityRouter

end SentinelHub.Broker
