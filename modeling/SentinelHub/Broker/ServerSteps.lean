import SentinelHub.Broker.RouterOrder
import SentinelHub.Broker.Server

/-!
# What a step of the broker can do

The steps of the broker, one case for each way a step can go, and what they
have in common: which handler moves, what reaches the log, and that the steps
of the router inside the broker are steps of the router.
-/

namespace SentinelHub.Broker

open SentinelHub.Support

/-! ## The cases of a step -/

/-- The steps of the broker. -/
inductive BrokerStep (s : BrokerServer) :
    BrokerAction → BrokerServer → List BrokerEvent → Prop
  | connect (hup : s.shutdown = false) :
      BrokerStep s .connect
        { s with
          registry := s.registry.register s.handlers.length
          handlers := s.handlers ++ [.reading] }
        [.registered s.handlers.length]
  | tooLarge (c : ClientId) (msg : Message)
      (hhandler : s.handlers[c]? = some .reading)
      (hsize : maxPayloadBytes < msg.payload.length) :
      BrokerStep s (.receive c msg) (s.close c) [.unregistered c]
  | subscribe (c : ClientId) (msg : Message)
      (hhandler : s.handlers[c]? = some .reading)
      (hcommand : msg.command = cmdSubscribe) :
      BrokerStep s (.receive c msg)
        { s with registry := s.registry.subscribe c msg.topicId }
        [.subscribed c msg.topicId]
  | publish (c : ClientId) (msg : Message)
      (hhandler : s.handlers[c]? = some .reading) (hwire : msg.OnWire)
      (hcommand : msg.command = cmdPublish) :
      BrokerStep s (.receive c msg)
        (s.setHandler c (.appending msg (.opening msg.frame))) []
  | timeTravel (c : ClientId) (msg : Message) (offset : ℕ)
      (hhandler : s.handlers[c]? = some .reading)
      (hcommand : msg.command = cmdTimeTravel)
      (hoffset : timeTravelOffset msg.payload = some offset) :
      BrokerStep s (.receive c msg)
        (s.setHandler c (.replaying (.batch offset)))
        [.timeTravel c msg.topicId offset]
  | ignore (c : ClientId) (msg : Message)
      (hhandler : s.handlers[c]? = some .reading)
      (hsubscribe : msg.command ≠ cmdSubscribe)
      (htimeTravel : msg.command = cmdTimeTravel →
        timeTravelOffset msg.payload = none)
      (hpublish : msg.command ≠ cmdPublish) :
      BrokerStep s (.receive c msg) s []
  | disconnect (c : ClientId) (hhandler : s.handlers[c]? = some .reading) :
      BrokerStep s (.disconnect c) (s.close c) [.unregistered c]
  | tell (c : ClientId) (msg : Message) (frame : Bytes)
      (hhandler : s.handlers[c]? = some (.appending msg (.opening frame))) :
      BrokerStep s (.tell c)
        (s.setHandler c (.appending msg (.opened frame s.log.length)))
        [.told c]
  | write (c : ClientId) (msg : Message) (frame : Bytes) (offset : ℕ)
      (hhandler : s.handlers[c]? =
        some (.appending msg (.opened frame offset))) :
      BrokerStep s (.write c)
        { s with
          log := s.log ++ frame
          handlers :=
            s.handlers.set c (.appended msg frame offset s.log.length) }
        [.appended c msg offset s.log.length]
  | appendRaise (c : ClientId) (n : ℕ) (msg : Message) (call : AppendCall)
      (log : Bytes) (hhandler : s.handlers[c]? = some (.appending msg call))
      (hfail : call.fail s.log n = some log) :
      BrokerStep s (.appendRaise c n) { s.close c with log }
        [.appendRaised c msg n, .unregistered c]
  | resume (c : ClientId) (msg : Message) (frame : Bytes) (offset start : ℕ)
      (hhandler : s.handlers[c]? = some (.appended msg frame offset start)) :
      BrokerStep s (.resume c)
        { s with
          latestOffset := offset + frame.length
          messagesProcessed := s.messagesProcessed + 1
          router := s.router.enqueue msg
          handlers := s.handlers.set c .reading }
        [.published c s.router.seq msg start,
          .router (.enqueued s.router.seq msg)]
  | replayFinish (c : ClientId) (replay : Replay) (offset : ℕ)
      (hhandler : s.handlers[c]? = some (.replaying replay))
      (hadvance : replay.advance s.log = some (.finished offset)) :
      BrokerStep s (.readLog c) (s.setHandler c .reading)
        [.replayFinished c offset]
  | replayRaise (c : ClientId) (replay : Replay) (error : PyError)
      (hhandler : s.handlers[c]? = some (.replaying replay))
      (hadvance : replay.advance s.log = some (.raised error)) :
      BrokerStep s (.readLog c) (s.close c)
        [.replayFailed c, .unregistered c]
  | replayAdvance (c : ClientId) (replay replay' : Replay)
      (hhandler : s.handlers[c]? = some (.replaying replay))
      (hadvance : replay.advance s.log = some replay')
      (hmoving : ∀ offset, replay' ≠ .finished offset) :
      BrokerStep s (.readLog c) (s.setHandler c (.replaying replay')) []
  | replayWrite (c : ClientId) (replay replay' : Replay) (frame : Bytes)
      (hhandler : s.handlers[c]? = some (.replaying replay))
      (hyield : replay.yieldFrame = some (frame, replay')) :
      BrokerStep s (.replayWrite c) (s.setHandler c (.flushing replay'))
        [.replayed c frame replay.offset]
  | replayDrain (c : ClientId) (replay : Replay)
      (hhandler : s.handlers[c]? = some (.flushing replay)) :
      BrokerStep s (.replayDrain c true)
        (s.setHandler c (.replaying replay)) []
  | replayDrainFailed (c : ClientId) (replay : Replay)
      (hhandler : s.handlers[c]? = some (.flushing replay)) :
      BrokerStep s (.replayDrain c false) (s.setHandler c .reading)
        [.replayFailed c]
  | worker (action : WorkerAction) (router : PriorityRouter)
      (evs : List RouterEvent) (hlooksUp : s.looksUp action = true)
      (hstep : s.router.workerStep action = some (router, evs)) :
      BrokerStep s (.worker action)
        { s with
          router
          registry := BrokerServer.registryAfter s.registry evs }
        (evs.map .router)
  | metricsTick (hup : s.shutdown = false) :
      BrokerStep s .metricsTick
        { s with
          messagesProcessed := 0
          router := s.router.enqueue (metricsMessage s.messagesProcessed
            s.latestOffset s.registry.count) }
        [.reported s.router.seq s.messagesProcessed s.latestOffset
            s.registry.count,
          .router (.enqueued s.router.seq (metricsMessage s.messagesProcessed
            s.latestOffset s.registry.count))]
  | stop : BrokerStep s .stop { s with shutdown := true } [.stopped]
  | stopRouter (hdown : s.shutdown = true) :
      BrokerStep s .stopRouter { s with router := s.router.stop } [.stopped]

namespace BrokerServer

variable {s s' : BrokerServer} {a : BrokerAction} {c : ClientId}
  {msg : Message} {evs : List BrokerEvent}

theorem step_receive (hhandler : s.handlers[c]? = some .reading)
    (hwire : msg.OnWire) :
    BrokerStep s (.receive c msg) (s.dispatch c msg).1
      (s.dispatch c msg).2 := by
  rw [dispatch]
  split
  next hsize => exact .tooLarge c msg hhandler hsize
  split
  next hcommand => exact .subscribe c msg hhandler hcommand
  next hsubscribe =>
    split
    next hcommand =>
      rw [hwire.encoded]
      exact .publish c msg hhandler hwire hcommand
    next hpublish =>
      split
      next hcommand =>
        split
        next hnone =>
          exact .ignore c msg hhandler hsubscribe (fun _ => hnone) hpublish
        next offset hsome =>
          exact .timeTravel c msg offset hhandler hcommand hsome
      next hother =>
        exact .ignore c msg hhandler hsubscribe (fun h => absurd h hother)
          hpublish

theorem step_readLog (h : s.readLog c = some (s', evs)) :
    BrokerStep s (.readLog c) s' evs := by
  rw [readLog] at h
  split at h
  next replay hhandler =>
    split at h <;> cases h
    next offset hadvance => exact .replayFinish c _ offset hhandler hadvance
    next error hadvance => exact .replayRaise c _ error hhandler hadvance
    next replay' hmoving _ hadvance =>
      exact .replayAdvance c _ _ hhandler hadvance hmoving
  next => cases h

theorem step_of_eq (h : broker.step s a = some (s', evs)) :
    BrokerStep s a s' evs := by
  cases a with
  | connect =>
      simp only [broker] at h
      split at h <;> cases h
      next hup => exact .connect (Bool.eq_false_of_not_eq_true hup)
  | receive c msg =>
      simp only [broker] at h
      split at h
      next hreceive =>
        have hdispatch := step_receive hreceive.1 hreceive.2
        rw [Option.some.inj h] at hdispatch
        exact hdispatch
      next => cases h
  | disconnect c =>
      simp only [broker] at h
      split at h <;> cases h
      next hhandler => exact .disconnect c hhandler
  | tell c =>
      simp only [broker, BrokerServer.tell] at h
      split at h
      next msg call hhandler =>
        split at h <;> cases h
        next call' offset htell =>
          obtain ⟨frame, rfl, rfl, rfl⟩ := AppendCall.tell_eq_some.mp htell
          exact .tell c msg frame hhandler
      next => cases h
  | write c =>
      simp only [broker, BrokerServer.write] at h
      split at h
      next msg call hhandler =>
        split at h <;> cases h
        next log frame offset hwrite =>
          obtain ⟨rfl, rfl⟩ := AppendCall.write_eq_some.mp hwrite
          exact .write c msg frame offset hhandler
      next => cases h
  | appendRaise c n =>
      simp only [broker, BrokerServer.appendRaise] at h
      split at h
      next msg call hhandler =>
        split at h <;> cases h
        next log hfail => exact .appendRaise c n msg call log hhandler hfail
      next => cases h
  | resume c =>
      simp only [broker, BrokerServer.resume] at h
      split at h <;> cases h
      next msg frame offset start hhandler =>
        exact .resume c msg frame offset start hhandler
  | readLog c => exact step_readLog h
  | replayWrite c =>
      simp only [broker, BrokerServer.replayWrite] at h
      split at h
      next replay hhandler =>
        split at h <;> cases h
        next frame replay' hyield =>
          exact .replayWrite c replay replay' frame hhandler hyield
      next => cases h
  | replayDrain c ok =>
      simp only [broker, BrokerServer.replayDrain] at h
      split at h
      next replay hhandler =>
        cases ok
        · cases h
          exact .replayDrainFailed c replay hhandler
        · cases h
          exact .replayDrain c replay hhandler
      next => cases h
  | worker action =>
      simp only [broker, BrokerServer.worker] at h
      split at h
      next hlooksUp =>
        split at h <;> cases h
        next router evs hstep =>
          exact .worker action router evs hlooksUp hstep
      next => cases h
  | metricsTick =>
      simp only [broker, BrokerServer.metricsTick] at h
      split at h <;> cases h
      next hup => exact .metricsTick (Bool.eq_false_of_not_eq_true hup)
  | stop =>
      cases h
      exact .stop
  | stopRouter =>
      simp only [broker] at h
      split at h <;> cases h
      next hdown => exact .stopRouter hdown

end BrokerServer

/-! ## The handler that moves -/

/-- The client whose handler an action moves. -/
def BrokerAction.client : BrokerAction → Option ClientId
  | .receive c _ => some c
  | .disconnect c => some c
  | .tell c => some c
  | .write c => some c
  | .appendRaise c _ => some c
  | .resume c => some c
  | .readLog c => some c
  | .replayWrite c => some c
  | .replayDrain c _ => some c
  | _ => none

/-- A step leaves the other handlers alone; a new one may come. -/
theorem BrokerStep.handler_of_ne {s s' : BrokerServer} {a : BrokerAction}
    {evs : List BrokerEvent} {c : ClientId} (hstep : BrokerStep s a s' evs)
    (hne : a.client ≠ some c) :
    s'.handlers[c]? = s.handlers[c]? ∨
      (s.handlers[c]? = none ∧ s'.handlers[c]? = some .reading) := by
  have hset : ∀ (d : ClientId) (handler : Handler), some d ≠ some c →
      (s.handlers.set d handler)[c]? = s.handlers[c]? :=
    fun d handler hdc => List.getElem?_set_ne fun h => hdc (congrArg some h)
  cases hstep with
  | connect =>
      rcases lt_trichotomy c s.handlers.length with hlt | rfl | hgt
      · exact Or.inl (List.getElem?_append_left hlt)
      · refine Or.inr ⟨List.getElem?_eq_none le_rfl, ?_⟩
        exact List.getElem?_concat_length
      · left
        rw [List.getElem?_eq_none hgt.le, List.getElem?_eq_none]
        rw [List.length_append]
        exact hgt
  | subscribe => exact Or.inl rfl
  | ignore => exact Or.inl rfl
  | worker => exact Or.inl rfl
  | metricsTick => exact Or.inl rfl
  | stop => exact Or.inl rfl
  | stopRouter => exact Or.inl rfl
  | _ => exact Or.inl (hset _ _ hne)

/-- A handler that has ended takes no step. -/
theorem BrokerStep.handler_ne_closed {s s' : BrokerServer} {a : BrokerAction}
    {evs : List BrokerEvent} {c : ClientId} (hstep : BrokerStep s a s' evs)
    (hclient : a.client = some c) : s.handlers[c]? ≠ some .closed := by
  intro hclosed
  have hother : ∀ handler, s.handlers[c]? = some handler →
      handler = .closed := by
    intro handler hc
    rw [hclosed] at hc
    exact (Option.some.inj hc).symm
  cases hstep with
  | connect => cases hclient
  | worker => cases hclient
  | metricsTick => cases hclient
  | stop => cases hclient
  | stopRouter => cases hclient
  | _ =>
      cases hclient
      cases hother _ (by assumption)

end SentinelHub.Broker
