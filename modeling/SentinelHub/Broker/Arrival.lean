import SentinelHub.Broker.LiveStream
import SentinelHub.Broker.Metrics
import SentinelHub.Broker.Rest

/-!
# What arrives

On the way to rest, where nothing fails, the worker hands over every message of
the heap and every publish that a handler has read; and it gives up no client
but those that it could not reach before.
-/

namespace SentinelHub.Broker

open SentinelHub.Support

variable {s s' : BrokerServer} {a : BrokerAction} {c : ClientId}
  {tr evs later : List BrokerEvent} {log : Option Bytes}

/-! ## Clients that have not been reached -/

/-- The clients that the fan-out under way has not reached and is still to
unregister. -/
def Worker.dead : Worker → List ClientId
  | .writing _ _ _ _ dead => dead
  | .flushing _ _ _ _ dead => dead
  | .unregistering client dead => client :: dead
  | _ => []

theorem Worker.dead_afterUnregister (dead : List ClientId) :
    (Worker.afterUnregister dead).dead = dead := by
  cases dead with
  | nil => rfl
  | cons client dead => rfl

theorem Worker.dead_afterSubscriber (seq : ℕ) (frame : Bytes)
    (remaining dead : List ClientId) :
    (Worker.afterSubscriber seq frame remaining dead).dead = dead := by
  cases remaining with
  | nil => exact dead_afterUnregister dead
  | cons client remaining => rfl

theorem PriorityRouter.dead_nextRound (r : PriorityRouter) :
    r.nextRound.dead = [] := by
  rw [nextRound]
  split
  · rfl
  · rfl

/-- Where nothing fails, the worker gives up nobody else. -/
theorem reached_workerStep {r r' : PriorityRouter} {action : WorkerAction}
    {revs : List RouterEvent} (h : r.WorkerStep action r' revs)
    (hsmooth : (BrokerAction.worker action).isSmooth = true)
    (hdead : c ∉ r.worker.dead) :
    c ∉ r'.worker.dead ∧ .unregistered c ∉ revs ∧ .unreachable c ∉ revs := by
  cases h with
  | writeFailed => cases hsmooth
  | drainFailed => cases hsmooth
  | raised => cases hsmooth
  | drained hworker hheap =>
      rw [r.dead_nextRound]
      simp
  | backoffOver hworker =>
      rw [r.dead_nextRound]
      simp
  | write seq frame client remaining dead hworker =>
      rw [hworker] at hdead
      exact ⟨hdead, by simp, by simp⟩
  | drain seq frame client remaining dead hworker =>
      rw [hworker] at hdead
      rw [Worker.dead_afterSubscriber]
      exact ⟨hdead, by simp, by simp⟩
  | unregister client dead hworker =>
      rw [hworker, Worker.dead, List.mem_cons, not_or] at hdead
      rw [Worker.dead_afterUnregister]
      exact ⟨hdead.2, by simpa using hdead.1, by simp⟩
  | _ => exact ⟨by simp [Worker.dead], by simp, by simp⟩

/-- Every message that has been enqueued fits a frame. -/
def AllOnWire (tr : List BrokerEvent) : Prop :=
  ∀ e ∈ enqueuedIn (routerEvents tr), e.2.OnWire

/-- Only the metrics could be too long for one. -/
theorem allOnWire_of_rounds (h : broker.Reaches (.init log) tr s)
    (hrounds : ∀ e ∈ roundsIn tr, e.message.OnWire) : AllOnWire tr := by
  rintro ⟨seq, msg⟩ he
  rcases enqueued_run h he with ⟨p, start, hpublished⟩ |
    ⟨throughput, offset, activeClients, hreported, rfl⟩
  · exact published_onWire h hpublished
  · exact hrounds ⟨seq, throughput, offset, activeClients⟩
      (mem_roundsIn.mpr hreported)

theorem AllOnWire.fanout (hwire : AllOnWire tr)
    (h : broker.Reaches (.init log) tr s) {seq : ℕ} {msg : Message}
    (hworker : s.router.worker = .fanout seq msg) : msg.OnWire :=
  hwire (seq, msg) ((queued_run (router_run h)).mem_iff.mpr
    (List.mem_append_left _
      (handedOver_of_fanout (router_run h).reaches hworker)))

/-- A publish that is enqueued fits a frame. -/
theorem AllOnWire.step (hwire : AllOnWire tr) (hok : s.HandlersOk)
    (hsmooth : a.isSmooth = true) (hstep : BrokerStep s a s' evs) :
    AllOnWire (tr ++ evs) := by
  intro e he
  rw [routerEvents_append, enqueuedIn_append, List.mem_append] at he
  rcases he with he | he
  · exact hwire e he
  cases hstep with
  | resume d msg frame offset start hhandler =>
      cases List.mem_singleton.mp he
      exact (hok.get hhandler).1
  | worker action router revs hlooksUp hrouter =>
      rw [routerEvents_map] at he
      rcases (PriorityRouter.workerStep_of_eq hrouter).heap.2 with
        ⟨entry, -, rfl⟩ | ⟨-, -, hnone⟩
      · cases he
      · rw [enqueuedIn_eq_nil hnone] at he
        cases he
  | metricsTick => cases hsmooth
  | _ => cases he

/-- A client that waits for messages, and that the router has not failed to
reach, stays registered and is reached. -/
theorem reached_step (hwire : AllOnWire tr)
    (h : broker.Reaches (.init log) tr s) (hreplay : s.replayOf c = none)
    (hdead : c ∉ s.router.worker.dead) (hsmooth : a.isSmooth = true)
    (hstep : BrokerStep s a s' evs) :
    Reached c evs ∧ c ∉ s'.router.worker.dead := by
  cases hstep with
  | connect => cases hsmooth
  | tooLarge => cases hsmooth
  | subscribe => cases hsmooth
  | publish => cases hsmooth
  | timeTravel => cases hsmooth
  | ignore => cases hsmooth
  | disconnect => cases hsmooth
  | appendRaise => cases hsmooth
  | metricsTick => cases hsmooth
  | stop => cases hsmooth
  | stopRouter => cases hsmooth
  | replayRaise d replay error hhandler =>
      have hne : c ≠ d := by
        rintro rfl
        rw [replayOf_of_handler hhandler] at hreplay
        cases hreplay
      refine ⟨⟨?_, by simp, by simp, by simp⟩, hdead⟩
      rintro e he (rfl | rfl)
      · simp at he
        exact hne he
      · simp at he
  | worker action router revs hlooksUp hrouter =>
      have hworker := PriorityRouter.workerStep_of_eq hrouter
      obtain ⟨hdead', hkept, hreached⟩ :=
        reached_workerStep hworker hsmooth hdead
      refine ⟨⟨?_, by simpa using hreached, ?_, by simp⟩, hdead'⟩
      · rintro e he (rfl | rfl)
        · simp at he
        · exact hkept (by simpa using he)
      · intro hcrash
        have hcrash' : .crashed ∈ revs := by simpa using hcrash
        cases hworker with
        | notEncoded seq msg error client remaining hat hencoded =>
            rw [(hwire.fanout h hat).encoded] at hencoded
            cases hencoded
        | raised => cases hsmooth
        | _ => simp at hcrash'
  | resume d msg frame offset start hhandler =>
      refine ⟨⟨?_, by simp, by simp, by simp⟩, hdead⟩
      rintro e he (rfl | rfl)
      · simp at he
      · simp at he
  | _ =>
      refine ⟨⟨?_, by simp, by simp, by simp⟩, hdead⟩
      rintro e he (rfl | rfl)
      · simp at he
      · simp at he

/-! ## Messages -/

/-- The publishes that handlers have read and not enqueued yet. -/
def BrokerServer.toEnqueue (s : BrokerServer) : List Message :=
  s.handlers.flatMap Handler.inHand

/-- An element that has moved has put something out. -/
theorem flatMap_set_perm {α β : Type*} {l : List α} {i : ℕ} {x y : α}
    {f : α → List β} {out : List β} (h : l[i]? = some x)
    (hout : f x = out ++ f y) :
    (l.flatMap f).Perm (out ++ (l.set i y).flatMap f) := by
  obtain ⟨before, after, heq, hset⟩ := exists_set_eq h
  rw [hset, heq]
  simp only [List.flatMap_append, List.flatMap_cons, hout, List.append_assoc]
  exact List.perm_append_comm_assoc _ _ _

/-- A step in which nothing fails enqueues a publish, or leaves it where it
is. -/
theorem toEnqueue_step (hsmooth : a.isSmooth = true)
    (hstep : BrokerStep s a s' evs) :
    s.toEnqueue.Perm
      ((enqueuedIn (routerEvents evs)).map Prod.snd ++ s'.toEnqueue) := by
  cases hstep with
  | connect => cases hsmooth
  | tooLarge => cases hsmooth
  | subscribe => cases hsmooth
  | publish => cases hsmooth
  | timeTravel => cases hsmooth
  | ignore => cases hsmooth
  | disconnect => cases hsmooth
  | appendRaise => cases hsmooth
  | metricsTick => cases hsmooth
  | stop => cases hsmooth
  | stopRouter => cases hsmooth
  | worker action router revs hlooksUp hrouter =>
      rw [routerEvents_map]
      rcases (PriorityRouter.workerStep_of_eq hrouter).heap.2 with
        ⟨entry, -, rfl⟩ | ⟨-, -, hnone⟩
      · exact List.Perm.refl _
      · rw [enqueuedIn_eq_nil hnone]
        exact List.Perm.refl _
  | _ => exact flatMap_set_perm (by assumption) rfl

/-- What enqueuing does to the publishes under way, over a run. -/
theorem toEnqueue_run
    (h : broker.Run (fun _ a => a.isSmooth = true) s later s') :
    s.toEnqueue.Perm
      ((enqueuedIn (routerEvents later)).map Prod.snd ++ s'.toEnqueue) := by
  induction h with
  | nil => exact List.Perm.refl _
  | snoc _ hsmooth hstep ih =>
      refine ih.trans ?_
      rw [routerEvents_append, enqueuedIn_append, List.map_append,
        List.append_assoc]
      exact (toEnqueue_step hsmooth
        (BrokerServer.step_of_eq hstep)).append_left _

theorem toEnqueue_of_atRest (h : s.AtRest) : s.toEnqueue = [] := by
  refine List.flatMap_eq_nil_iff.mpr fun handler hmem => ?_
  rcases h.handlers handler hmem with rfl | rfl
  · rfl
  · rfl

theorem running_step (hsmooth : a.isSmooth = true)
    (hstep : BrokerStep s a s' evs) :
    s'.router.running = s.router.running := by
  cases hstep with
  | stopRouter => cases hsmooth
  | worker action router revs hlooksUp hrouter =>
      cases PriorityRouter.workerStep_of_eq hrouter <;> rfl
  | _ => rfl

theorem running_run
    (h : broker.Run (fun _ a => a.isSmooth = true) s later s') :
    s'.router.running = s.router.running := by
  induction h with
  | nil => rfl
  | snoc _ hsmooth hstep ih =>
      exact (running_step hsmooth (BrokerServer.step_of_eq hstep)).trans ih

/-- At rest a router that is running, and whose fan-outs have not raised, has
handed over whatever was in the heap or in the hand of a handler. -/
theorem handed_perm_pending (h : broker.Reaches (.init log) tr s)
    (hlater : broker.Run (fun _ a => a.isSmooth = true) s later s')
    (hrest : s'.AtRest) (hrunning : s.router.running = true)
    (hsound : .router .crashed ∉ tr ++ later) :
    ((handedIn (routerEvents later)).map Prod.snd).Perm
      (s.router.queued.map Prod.snd ++ s.toEnqueue) := by
  have hall := h.trans hlater.reaches
  have hheap := heap_of_atRest hall hrest
    ((running_run hlater).trans hrunning) hsound
  have hqueued :=
    queued_run (router_run_of_ok (handlersOk_run h) hlater.reaches)
  rw [PriorityRouter.queued.eq_def s'.router, hheap, List.map_nil,
    List.append_nil] at hqueued
  have henqueued := toEnqueue_run hlater
  rw [toEnqueue_of_atRest hrest, List.append_nil] at henqueued
  have hhanded := hqueued.symm.map Prod.snd
  rw [List.map_append] at hhanded
  exact hhanded.trans (henqueued.symm.append_left _)

end SentinelHub.Broker
