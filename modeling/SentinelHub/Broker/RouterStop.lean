import Mathlib.Data.List.Perm.Basic
import SentinelHub.Broker.RouterOrder
import SentinelHub.Broker.RouterWakeup

/-!
# Stopping the router

`PriorityRouter.stop` cancels the worker wherever it stands.  To tell what
becomes of each message, the router is observed together with its fan-outs:
the look-ups, the clients to which a fan-out gives up writing, and the messages
that are given up before their look-up.

The accounts of the fan-outs are equations between lists that every step keeps:
what has been handed over has been looked up, dropped or is about to be looked
up, and whoever has been looked up has been written to, cut off or is still to
be written to.
-/

namespace SentinelHub.Broker

open SentinelHub.Support

/-! ## Fan-outs under observation -/

/-- What can be noted about the router and its fan-outs: `cutOff` lists the
subscribers to which a fan-out will not write any more, and `dropped` stands
for a message that has left the heap and will not even be looked up. -/
inductive FanoutEvent
  | router (event : RouterEvent)
  | lookedUp (seq : ℕ) (subscribers : List ClientId)
  | cutOff (seq : ℕ) (clients : List ClientId)
  | dropped (seq : ℕ)
  deriving DecidableEq, Repr

/-- What a fan-out is still to do. -/
inductive Duty
  | none
  | lookUp (seq : ℕ)
  | write (seq : ℕ) (client : ClientId) (remaining : List ClientId)
  deriving DecidableEq, Repr

/-- A fan-out that has these clients before it. -/
def Duty.ofClients (seq : ℕ) : List ClientId → Duty
  | [] => .none
  | client :: remaining => .write seq client remaining

/-- What the worker is still to do for the message it has popped.  A drain is
for a frame that has been written, and the unregistering of dead clients
follows the last write. -/
def Worker.duty : Worker → Duty
  | .fanout seq _ => .lookUp seq
  | .writing seq _ client remaining _ => .write seq client remaining
  | .flushing seq _ _ remaining _ => .ofClients seq remaining
  | _ => .none

/-- What is lost when the fan-out ends here. -/
def Duty.givenUp : Duty → List FanoutEvent
  | .none => []
  | .lookUp seq => [.dropped seq]
  | .write seq client remaining => [.cutOff seq (client :: remaining)]

/-- The look-up of a fan-out, and the subscribers that it loses at once when
the message cannot be encoded. -/
def noteLookup (seq : ℕ) (msg : Message) :
    List ClientId → List FanoutEvent
  | [] => [.lookedUp seq []]
  | client :: remaining =>
      match msg.encoded with
      | .error _ => [.lookedUp seq (client :: remaining),
          .cutOff seq (client :: remaining)]
      | .ok _ => [.lookedUp seq (client :: remaining)]

/-- What a step means for the fan-out under way. -/
def PriorityRouter.notes (r : PriorityRouter) :
    RouterAction → List FanoutEvent
  | .stop => r.worker.duty.givenUp
  | .worker .raise => r.worker.duty.givenUp
  | .worker (.lookup subscribers) =>
      match r.worker with
      | .fanout seq msg => noteLookup seq msg subscribers
      | _ => []
  | .worker (.write false) =>
      match r.worker with
      | .writing seq _ client _ _ => [.cutOff seq [client]]
      | _ => []
  | _ => []

/-- The router and its fan-outs. -/
def fanouts : System PriorityRouter RouterAction FanoutEvent :=
  router.observe .router PriorityRouter.notes

/-- An event of the router itself. -/
def FanoutEvent.ofRouter : FanoutEvent → Option RouterEvent
  | .router event => some event
  | _ => none

/-- The router's own events. -/
def routerPart (tr : List FanoutEvent) : List RouterEvent :=
  tr.filterMap FanoutEvent.ofRouter

variable {r r' : PriorityRouter} {a : RouterAction} {action : WorkerAction}
  {tr evs : List FanoutEvent} {revs : List RouterEvent} {seq : ℕ}
  {msg : Message} {client : ClientId} {clients : List ClientId}

theorem routerPart_givenUp (duty : Duty) :
    routerPart duty.givenUp = [] := by
  cases duty <;> rfl

theorem routerPart_noteLookup (seq : ℕ) (msg : Message)
    (clients : List ClientId) :
    routerPart (noteLookup seq msg clients) = [] := by
  cases clients with
  | nil => rfl
  | cons client remaining =>
      rw [noteLookup]
      split <;> rfl

theorem routerPart_notes (r : PriorityRouter) (a : RouterAction) :
    routerPart (r.notes a) = [] := by
  rw [PriorityRouter.notes.eq_def]
  split
  · exact routerPart_givenUp _
  · exact routerPart_givenUp _
  · split
    · exact routerPart_noteLookup _ _ _
    · rfl
  · split <;> rfl
  · rfl

theorem fanouts_step_iff :
    fanouts.step r a = some (r', evs) ↔
      ∃ revs, router.step r a = some (r', revs) ∧
        evs = r.notes a ++ revs.map .router :=
  System.observe_step_iff

/-- Observing the fan-outs changes nothing about the router: its runs are the
runs of the router with its fan-outs. -/
theorem fanouts_run_iff {r₀ : PriorityRouter} :
    router.Reaches r₀ revs r ↔
      ∃ tr, fanouts.Reaches r₀ tr r ∧ routerPart tr = revs :=
  System.observe_run_iff (fun _ => rfl) routerPart_notes

/-! ## The accounts -/

/-- The message that the worker is about to look up. -/
def Duty.pending : Duty → List ℕ
  | .lookUp seq => [seq]
  | _ => []

/-- The clients to which the message `seq` is still to be written. -/
def Duty.owed (seq : ℕ) : Duty → List ClientId
  | .write seq' client remaining =>
      if seq' = seq then client :: remaining else []
  | _ => []

/-- A message leaves the heap. -/
def FanoutEvent.handed : FanoutEvent → List ℕ
  | .router (.handedOver seq _) => [seq]
  | _ => []

/-- A message that has left the heap is looked up or dropped. -/
def FanoutEvent.fate : FanoutEvent → List ℕ
  | .lookedUp seq _ => [seq]
  | .dropped seq => [seq]
  | _ => []

/-- The subscribers found for the message `seq`. -/
def FanoutEvent.lookedUpFor (seq : ℕ) : FanoutEvent → List ClientId
  | .lookedUp seq' subscribers => if seq' = seq then subscribers else []
  | _ => []

/-- The client to which the message `seq` is written. -/
def FanoutEvent.writtenFor (seq : ℕ) : FanoutEvent → List ClientId
  | .router (.wrote seq' client _) => if seq' = seq then [client] else []
  | _ => []

/-- The clients to which the message `seq` will not be written any more. -/
def FanoutEvent.cutOffFor (seq : ℕ) : FanoutEvent → List ClientId
  | .cutOff seq' clients => if seq' = seq then clients else []
  | _ => []

/-- The subscribers that the fan-outs of the message `seq` have looked up. -/
def lookedUpFor (seq : ℕ) (tr : List FanoutEvent) : List ClientId :=
  tr.flatMap (FanoutEvent.lookedUpFor seq)

/-- The subscribers to which the message `seq` has been written. -/
def writtenFor (seq : ℕ) (tr : List FanoutEvent) : List ClientId :=
  tr.flatMap (FanoutEvent.writtenFor seq)

/-- The subscribers to which the message `seq` will not be written. -/
def cutOffFor (seq : ℕ) (tr : List FanoutEvent) : List ClientId :=
  tr.flatMap (FanoutEvent.cutOffFor seq)

theorem Duty.pending_ofClients (seq : ℕ) (clients : List ClientId) :
    (ofClients seq clients).pending = [] := by
  cases clients <;> rfl

theorem Duty.owed_ofClients (seq seq' : ℕ) (clients : List ClientId) :
    (ofClients seq' clients).owed seq = if seq' = seq then clients else [] := by
  cases clients with
  | nil => exact (ite_self _).symm
  | cons => rfl

theorem Worker.duty_afterUnregister (dead : List ClientId) :
    (afterUnregister dead).duty = .none := by
  cases dead <;> rfl

theorem Worker.duty_afterSubscriber (seq : ℕ) (frame : Bytes)
    (remaining dead : List ClientId) :
    (afterSubscriber seq frame remaining dead).duty =
      .ofClients seq remaining := by
  cases remaining with
  | nil => exact duty_afterUnregister dead
  | cons => rfl

theorem PriorityRouter.duty_nextRound (r : PriorityRouter) :
    r.nextRound.duty = .none := by
  rw [nextRound]
  split <;> rfl

theorem PriorityRouter.duty_stop (r : PriorityRouter) :
    r.stop.worker.duty = .none :=
  worker_stop_cases (motive := fun worker => worker.duty = .none) r rfl rfl

/-- Whatever a fan-out is still to do is given up with it, and noted. -/
theorem Duty.fate_givenUp (duty : Duty) :
    duty.givenUp.flatMap FanoutEvent.fate = duty.pending := by
  cases duty <;> rfl

theorem Duty.handed_givenUp (duty : Duty) :
    duty.givenUp.flatMap FanoutEvent.handed = [] := by
  cases duty <;> rfl

theorem Duty.lookedUpFor_givenUp (seq : ℕ) (duty : Duty) :
    duty.givenUp.flatMap (FanoutEvent.lookedUpFor seq) = [] := by
  cases duty <;> rfl

/-! ## What a step does to the duty of the worker -/

/-- The event neither takes a message from the heap nor writes a frame. -/
def RouterEvent.Aside : RouterEvent → Prop
  | .handedOver .. => False
  | .wrote .. => False
  | _ => True

/-- The duty of the worker, step by step. -/
inductive Duty.Move : Duty → List FanoutEvent → Duty → Prop
  | aside (duty : Duty) (revs : List RouterEvent)
      (haside : ∀ e ∈ revs, e.Aside) : Move duty (revs.map .router) duty
  | pop (seq : ℕ) (msg : Message) :
      Move .none [.router (.handedOver seq msg)] (.lookUp seq)
  | lookUp (seq : ℕ) (clients : List ClientId) :
      Move (.lookUp seq) [.lookedUp seq clients] (.ofClients seq clients)
  | notEncoded (seq : ℕ) (client : ClientId) (remaining : List ClientId) :
      Move (.lookUp seq) [.lookedUp seq (client :: remaining),
        .cutOff seq (client :: remaining), .router .crashed] .none
  | write (seq : ℕ) (client : ClientId) (remaining : List ClientId)
      (frame : Bytes) :
      Move (.write seq client remaining) [.router (.wrote seq client frame)]
        (.ofClients seq remaining)
  | writeFailed (seq : ℕ) (client : ClientId) (remaining : List ClientId) :
      Move (.write seq client remaining)
        [.cutOff seq [client], .router (.unreachable client)]
        (.ofClients seq remaining)
  | giveUp (duty : Duty) (revs : List RouterEvent)
      (haside : ∀ e ∈ revs, e.Aside) :
      Move duty (duty.givenUp ++ revs.map .router) .none

/-- A step of the worker that leaves its duty as it is. -/
theorem Duty.Move.of_eq {duty duty' : Duty} (revs : List RouterEvent)
    (h : duty' = duty) (haside : ∀ e ∈ revs, e.Aside) :
    Move duty (revs.map .router) duty' := by
  rw [h]
  exact .aside duty revs haside

theorem duty_move_workerStep
    (hstep : PriorityRouter.WorkerStep r action r' revs) :
    r.worker.duty.Move (r.notes (.worker action) ++ revs.map .router)
      r'.worker.duty := by
  cases hstep with
  | wake hworker => exact .of_eq [] (by rw [hworker]; rfl) (by simp)
  | drained hworker =>
      refine .of_eq [] ?_ (by simp)
      rw [hworker]
      exact r.duty_nextRound
  | pop entry heap hworker =>
      rw [hworker]
      exact .pop entry.seq entry.message
  | noSubscribers seq msg hworker =>
      simp only [PriorityRouter.notes, hworker, noteLookup]
      exact .lookUp seq []
  | notEncoded seq msg error client remaining hworker hencoded =>
      simp only [PriorityRouter.notes, hworker, noteLookup, hencoded]
      exact .notEncoded seq client remaining
  | lookup seq msg frame client remaining hworker hencoded =>
      simp only [PriorityRouter.notes, hworker, noteLookup, hencoded]
      exact .lookUp seq (client :: remaining)
  | write seq frame client remaining dead hworker =>
      rw [hworker]
      exact .write seq client remaining frame
  | writeFailed seq frame client remaining dead hworker =>
      simp only [PriorityRouter.notes, hworker,
        Worker.duty_afterSubscriber]
      exact .writeFailed seq client remaining
  | drain seq frame client remaining dead hworker =>
      refine .of_eq [] ?_ (by simp)
      rw [hworker]
      exact Worker.duty_afterSubscriber seq frame remaining dead
  | drainFailed seq frame client remaining dead hworker =>
      refine .of_eq [.unreachable client] ?_
        (by simp [RouterEvent.Aside])
      rw [hworker]
      exact Worker.duty_afterSubscriber seq frame remaining _
  | unregister client dead hworker =>
      refine .of_eq [.unregistered client] ?_
        (by simp [RouterEvent.Aside])
      rw [hworker]
      exact Worker.duty_afterUnregister dead
  | pauseOver hworker => exact .of_eq [] (by rw [hworker]; rfl) (by simp)
  | backoffOver hworker =>
      refine .of_eq [] ?_ (by simp)
      rw [hworker]
      exact r.duty_nextRound
  | raised hworker =>
      exact .giveUp r.worker.duty [.crashed] (by simp [RouterEvent.Aside])

/-- The worker of a router that has been stopped, or not yet started, has
nothing to do. -/
theorem duty_move
    (hstopped : r.running = false →
      r.worker = .notStarted ∨ r.worker = .finished)
    (hstep : fanouts.step r a = some (r', evs)) :
    r.worker.duty.Move evs r'.worker.duty := by
  obtain ⟨revs, hrouter, rfl⟩ := fanouts_step_iff.mp hstep
  cases a with
  | start =>
      cases hrouter
      rw [PriorityRouter.start]
      split
      · exact .of_eq [] rfl (by simp)
      next hnot =>
        refine .of_eq [] ?_ (by simp)
        rcases hstopped (Bool.eq_false_of_not_eq_true hnot) with hw | hw
        · rw [hw]
          rfl
        · rw [hw]
          rfl
  | stop =>
      cases hrouter
      rw [r.duty_stop]
      exact .giveUp r.worker.duty [] (by simp)
  | enqueue msg =>
      cases hrouter
      exact .of_eq [.enqueued r.seq msg] rfl
        (by simp [RouterEvent.Aside])
  | worker action =>
      exact duty_move_workerStep (PriorityRouter.workerStep_of_eq hrouter)

/-! ## The accounts are kept -/

/-- Events on which a reading of the trace finds nothing. -/
theorem flatMap_aside {β : Type*} {reading : FanoutEvent → List β}
    (haside : ∀ e ∈ revs, e.Aside)
    (hnil : ∀ e, RouterEvent.Aside e → reading (.router e) = []) :
    (revs.map FanoutEvent.router).flatMap reading = [] := by
  rw [List.flatMap_eq_nil_iff]
  intro e he
  obtain ⟨event, hevent, rfl⟩ := List.mem_map.mp he
  exact hnil event (haside event hevent)

theorem FanoutEvent.handed_aside (e : RouterEvent) (h : e.Aside) :
    handed (.router e) = [] := by
  cases e with
  | handedOver => exact h.elim
  | _ => rfl

theorem FanoutEvent.writtenFor_aside (seq : ℕ) (e : RouterEvent)
    (h : e.Aside) : writtenFor seq (.router e) = [] := by
  cases e with
  | wrote => exact h.elim
  | _ => rfl

/-- A message that leaves the heap is looked up, dropped or pending. -/
theorem Duty.Move.fates {duty duty' : Duty} (h : Move duty evs duty') :
    (duty.pending ++ evs.flatMap FanoutEvent.handed).Perm
      (evs.flatMap FanoutEvent.fate ++ duty'.pending) := by
  cases h with
  | aside _ revs haside =>
      rw [flatMap_aside haside FanoutEvent.handed_aside,
        flatMap_aside haside fun _ _ => rfl, List.append_nil]
      exact List.Perm.refl _
  | pop seq msg => exact List.Perm.refl _
  | lookUp seq clients =>
      rw [pending_ofClients]
      exact List.Perm.refl _
  | notEncoded => exact List.Perm.refl _
  | write seq client remaining frame =>
      rw [pending_ofClients]
      exact List.Perm.refl _
  | writeFailed seq client remaining =>
      rw [pending_ofClients]
      exact List.Perm.refl _
  | giveUp _ revs haside =>
      rw [List.flatMap_append, List.flatMap_append,
        flatMap_aside haside FanoutEvent.handed_aside,
        flatMap_aside haside fun _ _ => rfl, handed_givenUp, fate_givenUp]
      change (duty.pending ++ []).Perm (duty.pending ++ [] ++ [])
      rw [List.append_nil, List.append_nil]

/-- A client that is looked up for a message is written to, cut off or still
to be written to. -/
theorem Duty.Move.writes {duty duty' : Duty} (h : Move duty evs duty')
    (seq : ℕ) :
    (duty.owed seq ++ evs.flatMap (FanoutEvent.lookedUpFor seq)).Perm
      (evs.flatMap (fun e => e.writtenFor seq ++ e.cutOffFor seq) ++
        duty'.owed seq) := by
  cases h with
  | aside _ revs haside =>
      rw [flatMap_aside haside fun _ _ => rfl,
        flatMap_aside haside fun e he => by
          rw [FanoutEvent.writtenFor_aside seq e he]
          rfl,
        List.append_nil]
      exact List.Perm.refl _
  | pop seq msg => exact List.Perm.refl _
  | lookUp seq' clients =>
      rw [owed_ofClients]
      simp [owed, FanoutEvent.lookedUpFor, FanoutEvent.writtenFor,
        FanoutEvent.cutOffFor]
  | notEncoded seq' client remaining =>
      simp [owed, FanoutEvent.lookedUpFor, FanoutEvent.writtenFor,
        FanoutEvent.cutOffFor]
  | write seq' client remaining frame =>
      rw [owed_ofClients]
      simp only [owed, FanoutEvent.lookedUpFor, FanoutEvent.writtenFor,
        FanoutEvent.cutOffFor, List.flatMap_singleton, List.append_nil]
      split <;> exact List.Perm.refl _
  | writeFailed seq' client remaining =>
      rw [owed_ofClients]
      by_cases heq : seq' = seq
      · simp [owed, FanoutEvent.lookedUpFor, FanoutEvent.writtenFor,
          FanoutEvent.cutOffFor, heq]
      · simp [owed, FanoutEvent.lookedUpFor, FanoutEvent.writtenFor,
          FanoutEvent.cutOffFor, heq]
  | giveUp _ revs haside =>
      have hrevs : (revs.map FanoutEvent.router).flatMap
          (fun e => e.writtenFor seq ++ e.cutOffFor seq) = [] := by
        refine flatMap_aside haside fun e he => ?_
        rw [FanoutEvent.writtenFor_aside seq e he]
        rfl
      have hgiven : duty.givenUp.flatMap
          (fun e => e.writtenFor seq ++ e.cutOffFor seq) = duty.owed seq := by
        cases duty with
        | write seq' client remaining => exact List.append_nil _
        | _ => rfl
      rw [List.flatMap_append, List.flatMap_append, hrevs, hgiven,
        lookedUpFor_givenUp, flatMap_aside haside fun _ _ => rfl]
      exact List.Perm.of_eq (by simp [owed])

theorem duty_move_run (h : fanouts.Reaches .init tr r)
    (hstep : fanouts.step r a = some (r', evs)) :
    r.worker.duty.Move evs r'.worker.duty :=
  duty_move (PriorityRouter.stopped_run (fanouts_run_iff.mpr ⟨tr, h, rfl⟩))
    hstep

/-- Every message that has left the heap has been looked up, has been dropped,
or is about to be looked up. -/
theorem fates_run (h : fanouts.Reaches .init tr r) :
    (tr.flatMap FanoutEvent.handed).Perm
      (tr.flatMap FanoutEvent.fate ++ r.worker.duty.pending) :=
  h.account (fun r => r.worker.duty.pending)
    (fun _ _ => List.flatMap_append) (fun _ _ => List.flatMap_append)
    fun _ _ _ _ _ hrun _ hstep => (duty_move_run hrun hstep).fates

/-- Every client that has been looked up for a message has been written to,
has been cut off, or is still to be written to. -/
theorem writes_run (h : fanouts.Reaches .init tr r) (seq : ℕ) :
    (lookedUpFor seq tr).Perm
      (writtenFor seq tr ++ cutOffFor seq tr ++ r.worker.duty.owed seq) := by
  have haccount := h.account (fun r => r.worker.duty.owed seq)
    (fun _ _ => List.flatMap_append) (fun _ _ => List.flatMap_append)
    fun _ _ _ _ _ hrun _ hstep => (duty_move_run hrun hstep).writes seq
  refine haccount.trans (List.Perm.append_right _ ?_)
  exact (List.flatMap_append_perm tr _ _).symm

/-! ## What it means that nothing is lost -/

/-- The heap is empty, and every message enqueued has been written to every
subscriber that its fan-out looked up. -/
structure Drained (tr : List FanoutEvent) (r : PriorityRouter) : Prop where
  heap : r.heap = []
  written : ∀ seq msg, .router (.enqueued seq msg) ∈ tr →
    ∃ subscribers, .lookedUp seq subscribers ∈ tr ∧
      (writtenFor seq tr).Perm subscribers

/-- No message has been dropped, and none has been cut off. -/
def NothingLost (tr : List FanoutEvent) : Prop :=
  (∀ seq, .dropped seq ∉ tr) ∧ ∀ seq clients, .cutOff seq clients ∉ tr

/-! ### The numbers of the messages -/

theorem mem_routerPart {event : RouterEvent} :
    event ∈ routerPart tr ↔ .router event ∈ tr := by
  rw [routerPart, List.mem_filterMap]
  constructor
  · rintro ⟨e, he, heq⟩
    cases e with
    | router event' =>
        cases heq
        exact he
    | _ => cases heq
  · intro he
    exact ⟨_, he, rfl⟩

theorem handed_eq (tr : List FanoutEvent) :
    tr.flatMap FanoutEvent.handed =
      (handedIn (routerPart tr)).map Prod.fst := by
  induction tr with
  | nil => rfl
  | cons e tr ih =>
      rw [List.flatMap_cons, ih]
      cases e with
      | router event => cases event <;> rfl
      | _ => rfl

/-- Every message that has been enqueued is in the heap or has left it. -/
theorem handed_run (h : fanouts.Reaches .init tr r) :
    ((enqueuedIn (routerPart tr)).map Prod.fst).Perm
      (tr.flatMap FanoutEvent.handed ++ r.heap.map HeapEntry.seq) := by
  have hqueued := (queued_run (fanouts_run_iff.mpr ⟨tr, h, rfl⟩)).map Prod.fst
  have hstart : PriorityRouter.init.queued = [] := rfl
  have hheap : r.queued.map Prod.fst = r.heap.map HeapEntry.seq :=
    List.map_map
  rw [hstart, List.nil_append, List.map_append, ← handed_eq, hheap] at hqueued
  exact hqueued

/-- A message leaves the heap at most once, and meets only one fate. -/
theorem nodup_fates (h : fanouts.Reaches .init tr r) :
    (tr.flatMap FanoutEvent.fate ++ r.worker.duty.pending).Nodup := by
  have hnumbered := numbered_run (fanouts_run_iff.mpr ⟨tr, h, rfl⟩)
  have hperm := handed_run h
  rw [hnumbered] at hperm
  have hhanded := (hperm.nodup_iff.mp List.nodup_range).of_append_left
  exact (fates_run h).nodup_iff.mp hhanded

/-- A message with a fate has been enqueued. -/
theorem enqueued_of_handed (h : fanouts.Reaches .init tr r)
    (hseq : seq ∈ tr.flatMap FanoutEvent.handed) :
    ∃ msg, .router (.enqueued seq msg) ∈ tr := by
  have hmem := (handed_run h).mem_iff.mpr (List.mem_append_left _ hseq)
  obtain ⟨⟨_, msg⟩, hmsg, rfl⟩ := List.mem_map.mp hmem
  exact ⟨msg, mem_routerPart.mp (mem_enqueuedIn.mp hmsg)⟩

/-- When the heap is empty, every message that has been enqueued has left
it. -/
theorem handed_of_enqueued (h : fanouts.Reaches .init tr r)
    (hheap : r.heap = []) (hmem : .router (.enqueued seq msg) ∈ tr) :
    seq ∈ tr.flatMap FanoutEvent.handed := by
  have hseq : seq ∈ (enqueuedIn (routerPart tr)).map Prod.fst :=
    List.mem_map_of_mem (mem_enqueuedIn.mpr (mem_routerPart.mpr hmem))
  have hhanded := (handed_run h).mem_iff.mp hseq
  rwa [hheap, List.map_nil, List.append_nil] at hhanded

/-! ### The fates of a message -/

theorem fate_unique {e e' : FanoutEvent}
    (hnodup : (tr.flatMap FanoutEvent.fate).Nodup) (he : e ∈ tr)
    (he' : e' ∈ tr) (hseq : seq ∈ e.fate) (hseq' : seq ∈ e'.fate) :
    e = e' := by
  by_contra hne
  have hsymm : Std.Symm (Function.onFun List.Disjoint FanoutEvent.fate) :=
    ⟨fun _ _ hdisjoint => hdisjoint.symm⟩
  have hdisjoint := (List.nodup_flatMap.mp hnodup).2.forall he he' hne
  exact hdisjoint hseq hseq'

/-- The subscribers of a message are those of its only look-up. -/
theorem lookedUpFor_eq (hnodup : (tr.flatMap FanoutEvent.fate).Nodup)
    (hmem : .lookedUp seq clients ∈ tr) : lookedUpFor seq tr = clients := by
  obtain ⟨before, after, rfl⟩ := List.append_of_mem hmem
  have hnone : ∀ tr', (∀ e ∈ tr', seq ∉ e.fate) →
      lookedUpFor seq tr' = [] := by
    intro tr' hfate
    rw [lookedUpFor, List.flatMap_eq_nil_iff]
    intro e he
    cases e with
    | lookedUp seq' subscribers =>
        refine if_neg ?_
        rintro rfl
        exact hfate _ he (List.mem_singleton_self _)
    | _ => rfl
  rw [List.flatMap_append, List.flatMap_cons, List.nodup_append,
    List.nodup_append] at hnodup
  obtain ⟨-, ⟨-, -, hafter⟩, hbefore⟩ := hnodup
  have hself : seq ∈ (FanoutEvent.lookedUp seq clients).fate :=
    List.mem_singleton_self seq
  have hbefore' := hnone before fun e he hseq =>
    hbefore seq (List.mem_flatMap.mpr ⟨e, he, hseq⟩) seq
      (List.mem_append_left _ hself) rfl
  have hafter' := hnone after fun e he hseq =>
    hafter seq hself seq (List.mem_flatMap.mpr ⟨e, he, hseq⟩) rfl
  rw [lookedUpFor] at hbefore' hafter' ⊢
  rw [List.flatMap_append, List.flatMap_cons, hbefore', hafter',
    List.append_nil]
  exact if_pos rfl

theorem exists_lookedUp (hmem : client ∈ lookedUpFor seq tr) :
    ∃ clients, .lookedUp seq clients ∈ tr := by
  obtain ⟨e, he, hclient⟩ := List.mem_flatMap.mp hmem
  cases e with
  | lookedUp seq' clients =>
      rw [FanoutEvent.lookedUpFor] at hclient
      split at hclient
      next heq =>
        rw [← heq]
        exact ⟨clients, he⟩
      · cases hclient
  | _ => cases hclient

theorem Duty.Move.cutOff_ne_nil {duty duty' : Duty} (h : Move duty evs duty')
    (hmem : .cutOff seq clients ∈ evs) : clients ≠ [] := by
  have haside : ∀ revs : List RouterEvent,
      FanoutEvent.cutOff seq clients ∉ revs.map .router := by
    simp
  cases h with
  | aside _ revs => exact absurd hmem (haside revs)
  | pop => simp at hmem
  | lookUp => simp at hmem
  | notEncoded =>
      simp only [List.mem_cons, FanoutEvent.cutOff.injEq, reduceCtorEq,
        List.not_mem_nil, or_false, false_or] at hmem
      rw [hmem.2]
      exact List.cons_ne_nil _ _
  | write => simp at hmem
  | writeFailed =>
      simp only [List.mem_cons, FanoutEvent.cutOff.injEq, reduceCtorEq,
        List.not_mem_nil, or_false] at hmem
      rw [hmem.2]
      exact List.cons_ne_nil _ _
  | giveUp _ revs =>
      have hgiven := (List.mem_append.mp hmem).resolve_right (haside revs)
      cases duty with
      | write =>
          cases List.mem_singleton.mp hgiven
          exact List.cons_ne_nil _ _
      | none => cases hgiven
      | lookUp => cases List.mem_singleton.mp hgiven

/-- No message is cut off from an empty list of clients. -/
theorem cutOff_ne_nil (h : fanouts.Reaches .init tr r) :
    ∀ seq clients, .cutOff seq clients ∈ tr → clients ≠ [] := by
  induction h with
  | nil =>
      intro seq clients hmem
      cases hmem
  | snoc hrun _ hstep ih =>
      intro seq clients hmem
      rcases List.mem_append.mp hmem with hmem | hmem
      · exact ih seq clients hmem
      · exact (duty_move_run hrun hstep).cutOff_ne_nil hmem

theorem mem_cutOffFor (hcut : .cutOff seq clients ∈ tr)
    (hmem : client ∈ clients) : client ∈ cutOffFor seq tr := by
  refine List.mem_flatMap.mpr ⟨_, hcut, ?_⟩
  rw [FanoutEvent.cutOffFor, if_pos rfl]
  exact hmem

theorem NothingLost.cutOffFor_eq (h : NothingLost tr) (seq : ℕ) :
    cutOffFor seq tr = [] := by
  rw [cutOffFor, List.flatMap_eq_nil_iff]
  intro e he
  cases e with
  | cutOff seq' clients => exact absurd he (h.2 seq' clients)
  | _ => rfl

/-! ### What has been drained -/

/-- In a router with nothing left to do and nothing lost, everything has been
written. -/
theorem drained_of_nothingLost (h : fanouts.Reaches .init tr r)
    (hheap : r.heap = []) (hduty : r.worker.duty = .none)
    (hlost : NothingLost tr) : Drained tr r := by
  refine ⟨hheap, ?_⟩
  intro seq msg hmem
  have hhanded := handed_of_enqueued h hheap hmem
  have hfate := (fates_run h).mem_iff.mp hhanded
  have hnodup := nodup_fates h
  have hpending : r.worker.duty.pending = [] := by
    rw [hduty]
    rfl
  rw [hpending, List.append_nil] at hfate hnodup
  obtain ⟨e, he, hseq⟩ := List.mem_flatMap.mp hfate
  cases e with
  | lookedUp seq' clients =>
      cases List.mem_singleton.mp hseq
      refine ⟨clients, he, ?_⟩
      have howed : r.worker.duty.owed seq = [] := by
        rw [hduty]
        rfl
      have hwrites := writes_run h seq
      rw [lookedUpFor_eq hnodup he, hlost.cutOffFor_eq, howed,
        List.append_nil, List.append_nil] at hwrites
      exact hwrites.symm
  | dropped seq' => exact absurd he (hlost.1 seq')
  | _ => cases hseq

/-- Where everything has been written, a message that has left the heap has no
other fate than its look-up. -/
theorem Drained.lookedUp (h : Drained tr r) (hrun : fanouts.Reaches .init tr r)
    (hseq : seq ∈ tr.flatMap FanoutEvent.handed) :
    ∃ clients, .lookedUp seq clients ∈ tr ∧
      (writtenFor seq tr).Perm clients := by
  obtain ⟨msg, hmsg⟩ := enqueued_of_handed hrun hseq
  exact h.written seq msg hmsg

/-- Where everything has been written, nobody who has been looked up is cut
off or still to be written to. -/
theorem Drained.cutOffFor_owed (h : Drained tr r)
    (hrun : fanouts.Reaches .init tr r) (seq : ℕ) :
    cutOffFor seq tr = [] ∧ r.worker.duty.owed seq = [] := by
  have hwrites := writes_run hrun seq
  rcases hlooked : lookedUpFor seq tr with _ | ⟨client, rest⟩
  · rw [hlooked, List.nil_perm, List.append_eq_nil_iff,
      List.append_eq_nil_iff] at hwrites
    exact ⟨hwrites.1.2, hwrites.2⟩
  · have hclient : client ∈ lookedUpFor seq tr := by
      rw [hlooked]
      exact List.mem_cons_self
    obtain ⟨clients, hmem⟩ := exists_lookedUp hclient
    have hfates : seq ∈ tr.flatMap FanoutEvent.fate :=
      List.mem_flatMap.mpr ⟨_, hmem, List.mem_singleton_self seq⟩
    have hnodup := (nodup_fates hrun).of_append_left
    obtain ⟨clients', hmem', hwritten⟩ := h.lookedUp hrun
      ((fates_run hrun).mem_iff.mpr (List.mem_append_left _ hfates))
    have hlength := hwrites.length_eq
    rw [lookedUpFor_eq hnodup hmem', ← hwritten.length_eq, List.length_append,
      List.length_append] at hlength
    refine ⟨List.length_eq_zero_iff.mp ?_, List.length_eq_zero_iff.mp ?_⟩
    · omega
    · omega

/-- In every state that the router reaches: the heap is empty and every message
enqueued has been written to all its subscribers exactly if the heap is empty,
the worker has nothing left to do for the message it has popped, and no message
has been dropped or cut off. -/
theorem drained_iff (h : fanouts.Reaches .init tr r) :
    Drained tr r ↔
      r.heap = [] ∧ r.worker.duty = .none ∧ NothingLost tr := by
  constructor
  · intro hdrained
    have hnodup := nodup_fates h
    have hduty : r.worker.duty = .none := by
      cases hd : r.worker.duty with
      | none => rfl
      | lookUp seq =>
          have hpending : seq ∈ r.worker.duty.pending := by
            rw [hd]
            exact List.mem_singleton_self seq
          obtain ⟨clients, hmem, -⟩ := hdrained.lookedUp h
            ((fates_run h).mem_iff.mpr (List.mem_append_right _ hpending))
          have hfates : seq ∈ tr.flatMap FanoutEvent.fate :=
            List.mem_flatMap.mpr ⟨_, hmem, List.mem_singleton_self seq⟩
          exact absurd rfl
            ((List.nodup_append.mp hnodup).2.2 seq hfates seq hpending)
      | write seq client remaining =>
          have howed := (hdrained.cutOffFor_owed h seq).2
          rw [hd, Duty.owed, if_pos rfl] at howed
          cases howed
    refine ⟨hdrained.heap, hduty, ?_, ?_⟩
    · intro seq hdropped
      have hself : seq ∈ (FanoutEvent.dropped seq).fate :=
        List.mem_singleton_self seq
      have hfates : seq ∈ tr.flatMap FanoutEvent.fate :=
        List.mem_flatMap.mpr ⟨_, hdropped, hself⟩
      obtain ⟨clients, hmem, -⟩ := hdrained.lookedUp h
        ((fates_run h).mem_iff.mpr (List.mem_append_left _ hfates))
      have heq := fate_unique hnodup.of_append_left hdropped hmem hself
        (List.mem_singleton_self seq)
      cases heq
    · intro seq clients hcut
      cases clients with
      | nil => exact cutOff_ne_nil h seq [] hcut rfl
      | cons client rest =>
          have hmem := mem_cutOffFor hcut List.mem_cons_self
          rw [(hdrained.cutOffFor_owed h seq).1] at hmem
          cases hmem
  · rintro ⟨hheap, hduty, hlost⟩
    exact drained_of_nothingLost h hheap hduty hlost

/-! ## Stopping -/

theorem nothingLost_givenUp_iff (duty : Duty) :
    NothingLost (tr ++ duty.givenUp) ↔ NothingLost tr ∧ duty = .none := by
  constructor
  · rintro ⟨hdropped, hcut⟩
    refine ⟨⟨fun seq hmem => hdropped seq (List.mem_append_left _ hmem),
      fun seq clients hmem => hcut seq clients (List.mem_append_left _ hmem)⟩,
      ?_⟩
    cases duty with
    | none => rfl
    | lookUp seq =>
        exact absurd (List.mem_append_right _ (List.mem_singleton_self _))
          (hdropped seq)
    | write seq client remaining =>
        exact absurd (List.mem_append_right _ (List.mem_singleton_self _))
          (hcut seq (client :: remaining))
  · rintro ⟨hlost, rfl⟩
    exact (List.append_nil tr).symm ▸ hlost

/-- In every state that the router reaches: when `stop` returns, the heap is
empty and every message enqueued has been written to every subscriber looked
up for it exactly if, when it is called, the heap is empty already, the worker
stands at no point where it has still to look up or to write, and no message
has been dropped or cut off before. -/
theorem stop_drains_iff (h : fanouts.Reaches .init tr r)
    (hstop : fanouts.step r .stop = some (r', evs)) :
    Drained (tr ++ evs) r' ↔
      r.heap = [] ∧ r.worker.duty = .none ∧ NothingLost tr := by
  have hrun : fanouts.Reaches .init (tr ++ evs) r' := h.snoc trivial hstop
  have hevs : r' = r.stop ∧ evs = r.worker.duty.givenUp := by
    obtain ⟨revs, hrouter, rfl⟩ := fanouts_step_iff.mp hstop
    cases hrouter
    exact ⟨rfl, List.append_nil _⟩
  obtain ⟨rfl, rfl⟩ := hevs
  rw [drained_iff hrun, nothingLost_givenUp_iff, r.duty_stop]
  constructor
  · rintro ⟨hheap, -, hlost, hduty⟩
    exact ⟨hheap, hduty, hlost⟩
  · rintro ⟨hheap, hduty, hlost⟩
    exact ⟨hheap, rfl, hlost, hduty⟩

/-- A router is stopped in the pause behind its only message. -/
theorem stop_drains_idle :
    let msg : Message :=
      { command := cmdPublish, topicId := 1, priority := 0, payload := [] }
    Drained
      [.router (.enqueued 0 msg), .router (.handedOver 0 msg),
        .lookedUp 0 [7], .router (.wrote 0 7 msg.frame)]
      { heap := [], seq := 1, event := true, running := false,
        worker := .finished } := by
  intro msg
  have hrun : fanouts.Reaches .init
      [.router (.enqueued 0 msg), .router (.handedOver 0 msg),
        .lookedUp 0 [7], .router (.wrote 0 7 msg.frame)]
      { heap := [], seq := 1, event := false, running := true,
        worker := .pausing } :=
    System.exec_run [.start, .enqueue msg, .worker .wake, .worker .pop,
      .worker (.lookup [7]), .worker (.write true), .worker (.drain true)]
      (by decide)
  exact (stop_drains_iff hrun rfl).mpr ⟨rfl, rfl, by simp, by simp⟩

/-- Two messages and two subscribers: `stop` is called in the drain behind the
first write.  The first message never reaches the other subscriber, and the
second one stays in the heap. -/
theorem stop_loses :
    ∃ tr r r' evs, fanouts.Reaches .init tr r ∧
      fanouts.step r .stop = some (r', evs) ∧ ¬Drained (tr ++ evs) r' := by
  let msg : Message :=
    { command := cmdPublish, topicId := 1, priority := 0, payload := [] }
  have hrun : fanouts.Reaches .init
      [.router (.enqueued 0 msg), .router (.enqueued 1 msg),
        .router (.handedOver 0 msg), .lookedUp 0 [7, 8],
        .router (.wrote 0 7 msg.frame)]
      { heap := [{ negPriority := 0, seq := 1, message := msg }], seq := 2,
        event := false, running := true,
        worker := .flushing 0 msg.frame 7 [8] [] } :=
    System.exec_run [.start, .enqueue msg, .enqueue msg, .worker .wake,
      .worker .pop, .worker (.lookup [7, 8]), .worker (.write true)]
      (by decide)
  refine ⟨_, _, _, _, hrun, rfl, ?_⟩
  intro hdrained
  cases hdrained.heap

end SentinelHub.Broker
