import Mathlib.Data.Prod.Lex
import SentinelHub.Broker.PublisherOrder
import SentinelHub.Broker.RouterWakeup

/-!
# Coming to rest

What the broker does by itself, between one message of a client and the next,
comes to an end in whatever order it is done: every step brings the appends,
the heap with the worker, or the replays nearer to their end.  Where no such
step is left, every handler waits for its client or has ended, and whatever was
on its way has arrived.
-/

namespace SentinelHub.Broker

open SentinelHub.Support

/-- The steps that wait for no client, neither for the clock of the metrics nor
for a signal. -/
def BrokerAction.isOwn : BrokerAction → Bool
  | .tell _ => true
  | .write _ => true
  | .appendRaise _ _ => true
  | .resume _ => true
  | .readLog _ => true
  | .replayWrite _ => true
  | .replayDrain _ _ => true
  | .worker _ => true
  | _ => false

/-- Those of them in which nothing fails. -/
def BrokerAction.isSmooth : BrokerAction → Bool
  | .tell _ => true
  | .write _ => true
  | .resume _ => true
  | .readLog _ => true
  | .replayWrite _ => true
  | .replayDrain _ ok => ok
  | .worker (.write ok) => ok
  | .worker (.drain ok) => ok
  | .worker .raise => false
  | .worker _ => true
  | _ => false

theorem BrokerAction.isOwn_of_isSmooth {a : BrokerAction}
    (h : a.isSmooth = true) : a.isOwn = true := by
  cases a with
  | appendRaise c n => cases h
  | connect => cases h
  | receive c msg => cases h
  | disconnect c => cases h
  | metricsTick => cases h
  | stop => cases h
  | stopRouter => cases h
  | _ => rfl

/-! ## What is left to do -/

/-- The steps that an append still takes, with the enqueue behind it. -/
def Handler.appendWork : Handler → ℕ
  | .appending _ (.opening _) => 3
  | .appending _ _ => 2
  | .appended _ _ _ _ => 1
  | _ => 0

/-- A bound for the steps that a replay still takes on a log of this length. -/
def Handler.replayWork (length : ℕ) : Handler → ℕ
  | .replaying replay => 2 * replay.work length + 1
  | .flushing replay => 2 * replay.work length + 2
  | _ => 0

/-- A bound for the steps of the worker up to the next message. -/
def Worker.work : Worker → ℕ
  | .draining => 1
  | .backingOff => 1
  | .pausing => 2
  | .unregistering _ dead => dead.length + 3
  | .flushing _ _ _ remaining dead => 3 * remaining.length + dead.length + 5
  | .writing _ _ _ remaining dead => 3 * remaining.length + dead.length + 6
  | _ => 0

/-- The look-up of the message that has just been taken from the heap. -/
def Worker.lookups : Worker → ℕ
  | .fanout _ _ => 1
  | _ => 0

/-- What goes down with every message, every look-up and every wake-up. -/
def PriorityRouter.ahead (r : PriorityRouter) : ℕ :=
  2 * r.heap.length + r.event.toNat + r.worker.lookups

/-- An append may make work for the worker and for the replays, and a message
may for the worker. -/
def BrokerServer.work (s : BrokerServer) : ℕ ×ₗ ℕ ×ₗ ℕ :=
  toLex ((s.handlers.map Handler.appendWork).sum,
    toLex (s.router.ahead, s.router.worker.work +
      (s.handlers.map (Handler.replayWork s.log.length)).sum))

variable {s s' : BrokerServer} {a : BrokerAction} {c p : ClientId}
  {tr evs later : List BrokerEvent} {log : Option Bytes}

/-- A sum over the handlers when one of them has moved. -/
theorem sum_map_set {α : Type*} {l : List α} {i : ℕ} {x : α} (f : α → ℕ)
    (h : l[i]? = some x) (y : α) :
    ((l.set i y).map f).sum + f x = (l.map f).sum + f y := by
  obtain ⟨before, after, heq, hset⟩ := exists_set_eq h
  rw [hset, heq]
  simp only [List.map_append, List.map_cons, List.sum_append, List.sum_cons]
  omega

/-- A handler has come nearer to the end of its append. -/
theorem work_lt_of_appended {handler handler' : Handler}
    (hc : s.handlers[c]? = some handler)
    (hset : s'.handlers = s.handlers.set c handler')
    (hlt : handler'.appendWork < handler.appendWork) : s'.work < s.work := by
  have hsum := sum_map_set Handler.appendWork hc handler'
  refine Prod.Lex.toLex_lt_toLex.mpr (Or.inl ?_)
  rw [hset]
  change _ < (s.handlers.map Handler.appendWork).sum
  omega

/-- A handler has come nearer to the end of its replay. -/
theorem work_lt_of_replayed {handler handler' : Handler}
    (hc : s.handlers[c]? = some handler)
    (hset : s'.handlers = s.handlers.set c handler')
    (hrouter : s'.router = s.router) (hlog : s'.log = s.log)
    (happend : handler'.appendWork = handler.appendWork)
    (hlt : handler'.replayWork s.log.length <
      handler.replayWork s.log.length) : s'.work < s.work := by
  have hsum := sum_map_set Handler.appendWork hc handler'
  have hreplays := sum_map_set (Handler.replayWork s.log.length) hc handler'
  refine Prod.Lex.toLex_lt_toLex.mpr (Or.inr ⟨?_,
    Prod.Lex.toLex_lt_toLex.mpr (Or.inr ⟨?_, ?_⟩)⟩)
  · rw [hset]
    change _ = (s.handlers.map Handler.appendWork).sum
    omega
  · rw [hrouter]
  · rw [hset, hrouter, hlog]
    change _ < s.router.worker.work +
      (s.handlers.map (Handler.replayWork s.log.length)).sum
    omega

/-- The worker has come nearer to its sleep. -/
theorem work_lt_of_worker (hhandlers : s'.handlers = s.handlers)
    (hlog : s'.log = s.log) (h : s'.router.ahead < s.router.ahead ∨
      (s'.router.ahead = s.router.ahead ∧
        s'.router.worker.work < s.router.worker.work)) : s'.work < s.work := by
  refine Prod.Lex.toLex_lt_toLex.mpr (Or.inr ⟨?_,
    Prod.Lex.toLex_lt_toLex.mpr ?_⟩)
  · rw [hhandlers]
  · rw [hhandlers, hlog]
    exact h.imp id fun ⟨hahead, hwork⟩ =>
      ⟨hahead, Nat.add_lt_add_right hwork _⟩

/-! ## The worker -/

theorem Worker.work_afterUnregister (dead : List ClientId) :
    (Worker.afterUnregister dead).work = dead.length + 2 := by
  cases dead with
  | nil => rfl
  | cons client dead =>
      rw [afterUnregister, work, List.length_cons]

theorem Worker.work_afterSubscriber (seq : ℕ) (frame : Bytes)
    (remaining dead : List ClientId) :
    (Worker.afterSubscriber seq frame remaining dead).work ≤
      3 * remaining.length + dead.length + 3 := by
  cases remaining with
  | nil =>
      rw [afterSubscriber, work_afterUnregister, List.length_nil]
      omega
  | cons client remaining =>
      rw [afterSubscriber, work, List.length_cons]
      omega

theorem Worker.lookups_afterUnregister (dead : List ClientId) :
    (Worker.afterUnregister dead).lookups = 0 := by
  cases dead with
  | nil => rfl
  | cons client dead => rfl

theorem Worker.lookups_afterSubscriber (seq : ℕ) (frame : Bytes)
    (remaining dead : List ClientId) :
    (Worker.afterSubscriber seq frame remaining dead).lookups = 0 := by
  cases remaining with
  | nil => exact lookups_afterUnregister dead
  | cons client remaining => rfl

theorem PriorityRouter.nextRound_rests (r : PriorityRouter) :
    r.nextRound.lookups = 0 ∧ r.nextRound.work = 0 := by
  rw [nextRound]
  split
  · exact ⟨rfl, rfl⟩
  · exact ⟨rfl, rfl⟩

/-- The worker moves on, or has looked its message up. -/
theorem worker_moves {r : PriorityRouter} {w : Worker}
    (h : w.lookups < r.worker.lookups ∨
      (w.lookups = r.worker.lookups ∧ w.work < r.worker.work)) :
    { r with worker := w }.ahead < r.ahead ∨
      ({ r with worker := w }.ahead = r.ahead ∧ w.work < r.worker.work) := by
  rcases h with hlookups | ⟨hlookups, hwork⟩
  · exact Or.inl (Nat.add_lt_add_left hlookups _)
  · exact Or.inr
      ⟨congrArg (2 * r.heap.length + r.event.toNat + ·) hlookups, hwork⟩

/-- The worker comes nearer to its sleep with every step. -/
theorem worker_work_lt {r r' : PriorityRouter} {action : WorkerAction}
    {revs : List RouterEvent} (h : r.WorkerStep action r' revs) :
    r'.ahead < r.ahead ∨
      (r'.ahead = r.ahead ∧ r'.worker.work < r.worker.work) := by
  obtain ⟨hlookups, hwork⟩ := r.nextRound_rests
  cases h with
  | wake hworker hevent =>
      left
      rw [PriorityRouter.ahead, PriorityRouter.ahead, hworker, hevent]
      exact Nat.lt_succ_self _
  | drained hworker hheap =>
      refine worker_moves (Or.inr ?_)
      rw [hworker, hlookups, hwork]
      exact ⟨rfl, Nat.one_pos⟩
  | pop entry heap hworker hpop =>
      left
      have hlength := (popMin_perm hpop).length_eq
      rw [List.length_cons] at hlength
      rw [PriorityRouter.ahead, PriorityRouter.ahead, hworker, hlength]
      change 2 * heap.length + r.event.toNat + 1 <
        2 * (heap.length + 1) + r.event.toNat + 0
      omega
  | noSubscribers seq msg hworker =>
      refine worker_moves (Or.inl ?_)
      rw [hworker]
      exact Nat.one_pos
  | notEncoded seq msg error client remaining hworker hencoded =>
      refine worker_moves (Or.inl ?_)
      rw [hworker]
      exact Nat.one_pos
  | lookup seq msg frame client remaining hworker hencoded =>
      refine worker_moves (Or.inl ?_)
      rw [hworker]
      exact Nat.one_pos
  | write seq frame client remaining dead hworker =>
      refine worker_moves (Or.inr ?_)
      rw [hworker]
      exact ⟨rfl, Nat.lt_succ_self _⟩
  | writeFailed seq frame client remaining dead hworker =>
      have hle := Worker.work_afterSubscriber seq frame remaining
        (dead ++ [client])
      rw [List.length_append, List.length_singleton] at hle
      refine worker_moves (Or.inr ?_)
      rw [hworker, Worker.lookups_afterSubscriber, Worker.work]
      exact ⟨rfl, by omega⟩
  | drain seq frame client remaining dead hworker =>
      have hle := Worker.work_afterSubscriber seq frame remaining dead
      refine worker_moves (Or.inr ?_)
      rw [hworker, Worker.lookups_afterSubscriber, Worker.work]
      exact ⟨rfl, by omega⟩
  | drainFailed seq frame client remaining dead hworker =>
      have hle := Worker.work_afterSubscriber seq frame remaining
        (dead ++ [client])
      rw [List.length_append, List.length_singleton] at hle
      refine worker_moves (Or.inr ?_)
      rw [hworker, Worker.lookups_afterSubscriber, Worker.work]
      exact ⟨rfl, by omega⟩
  | unregister client dead hworker =>
      refine worker_moves (Or.inr ?_)
      rw [hworker, Worker.lookups_afterUnregister,
        Worker.work_afterUnregister]
      exact ⟨rfl, Nat.lt_succ_self _⟩
  | pauseOver hworker =>
      refine worker_moves (Or.inr ?_)
      rw [hworker]
      exact ⟨rfl, Nat.lt_succ_self _⟩
  | backoffOver hworker =>
      refine worker_moves (Or.inr ?_)
      rw [hworker, hlookups, hwork]
      exact ⟨rfl, Nat.one_pos⟩
  | raised hworker =>
      refine worker_moves ?_
      generalize r.worker = worker at hworker
      cases worker with
      | fanout seq msg => exact Or.inl Nat.one_pos
      | writing seq frame client remaining dead =>
          exact Or.inr ⟨rfl, Nat.lt_of_lt_of_le (by decide : 1 < 6)
            (Nat.le_add_left _ _)⟩
      | flushing seq frame client remaining dead =>
          exact Or.inr ⟨rfl, Nat.lt_of_lt_of_le (by decide : 1 < 5)
            (Nat.le_add_left _ _)⟩
      | unregistering client dead =>
          exact Or.inr ⟨rfl, Nat.lt_of_lt_of_le (by decide : 1 < 3)
            (Nat.le_add_left _ _)⟩
      | _ => cases hworker

/-! ## The handlers -/

/-- A replay of a handler reads the log, and it is not at its end. -/
structure Replay.OnWay (content : Bytes) (replay : Replay) : Prop where
  inv : ∃ start yielded, replay.Inv content start yielded
  goes : ∀ offset, replay ≠ .finished offset
  sound : ∀ error, replay ≠ .raised error

def Handler.ReplayOk (content : Bytes) (handler : Handler) : Prop :=
  ∀ replay, handler.replay = some replay → replay.OnWay content

def BrokerServer.ReplaysOk (s : BrokerServer) : Prop :=
  ∀ handler ∈ s.handlers, handler.ReplayOk s.log

theorem BrokerServer.ReplaysOk.get (h : s.ReplaysOk) {handler : Handler}
    (hc : s.handlers[c]? = some handler) {replay : Replay}
    (hreplay : handler.replay = some replay) : replay.OnWay s.log :=
  h handler (List.mem_of_getElem? hc) replay hreplay

theorem Replay.OnWay.mono {content content' : Bytes} {replay : Replay}
    (h : replay.OnWay content) (hgrow : content <+: content') :
    replay.OnWay content' := by
  obtain ⟨start, yielded, hinv⟩ := h.inv
  exact ⟨⟨start, yielded, hinv.mono hgrow⟩, h.goes, h.sound⟩

/-- Every step of such a replay is progress. -/
theorem Replay.OnWay.work_lt {content : Bytes} {replay : Replay}
    (h : replay.OnWay content) :
    (replay.step content).2.work content.length <
      replay.work content.length := by
  obtain ⟨start, yielded, hinv⟩ := h.inv
  rcases hinv.work_lt le_rfl with ⟨stop, heq⟩ | ⟨error, heq⟩ | hlt
  · exact absurd heq (h.goes stop)
  · exact absurd heq (h.sound error)
  · exact hlt

theorem Replay.OnWay.work_yieldFrame {content frame : Bytes}
    {replay replay' : Replay} (h : replay.OnWay content)
    (hyield : replay.yieldFrame = some (frame, replay')) :
    replay'.work content.length < replay.work content.length := by
  have hlt := h.work_lt
  rw [Replay.step, hyield] at hlt
  exact hlt

theorem Replay.OnWay.work_advance {content : Bytes}
    {replay replay' : Replay} (h : replay.OnWay content)
    (hadvance : replay.advance content = some replay') :
    replay'.work content.length < replay.work content.length := by
  have hlt := h.work_lt
  have hnone : replay.yieldFrame = none := by
    cases replay with
    | yielding offset results =>
        cases results with
        | nil => rfl
        | cons => cases hadvance
    | _ => rfl
  rw [Replay.step, hnone, hadvance] at hlt
  exact hlt

/-- A replay that cannot go on has a frame to write. -/
theorem Replay.OnWay.yields {content : Bytes} {replay : Replay}
    (h : replay.OnWay content) (hnone : replay.advance content = none) :
    ∃ frame replay', replay.yieldFrame = some (frame, replay') := by
  cases replay with
  | batch offset =>
      rw [Replay.advance] at hnone
      split at hnone
      · cases hnone
      · cases hnone
  | reading offset read =>
      rw [Replay.advance] at hnone
      split at hnone
      · cases hnone
      · cases hnone
  | yielding offset results =>
      cases results with
      | nil => cases hnone
      | cons result results => exact ⟨_, _, rfl⟩
  | finished offset => exact absurd rfl (h.goes offset)
  | raised error => exact absurd rfl (h.sound error)

theorem replayOk_of_none {content : Bytes} {handler : Handler}
    (h : handler.replay = none) : handler.ReplayOk content := by
  intro replay hreplay
  rw [h] at hreplay
  cases hreplay

theorem replayOk_of_onWay {content : Bytes} {handler : Handler}
    {replay : Replay} (h : handler.replay = some replay)
    (honWay : replay.OnWay content) : handler.ReplayOk content := by
  intro replay' hreplay
  rw [h] at hreplay
  cases hreplay
  exact honWay

theorem replaysOk_step (hok : s.HandlersOk) (h : s.ReplaysOk)
    (hstep : broker.step s a = some (s', evs)) : s'.ReplaysOk := by
  have hcases := BrokerServer.step_of_eq hstep
  obtain ⟨more, hlog, -⟩ := log_step hok hcases
  have hgrown : s.log <+: s'.log := ⟨more, hlog.symm⟩
  have hkept : ∀ handler ∈ s.handlers, handler.ReplayOk s'.log :=
    fun handler hmem replay hreplay => (h handler hmem replay hreplay).mono
      hgrown
  cases hcases with
  | connect => exact forall_mem_concat hkept (replayOk_of_none rfl)
  | subscribe => exact hkept
  | ignore => exact hkept
  | worker => exact hkept
  | metricsTick => exact hkept
  | stop => exact hkept
  | stopRouter => exact hkept
  | timeTravel c msg offset hhandler hcommand hoffset =>
      refine forall_mem_set hkept (replayOk_of_onWay rfl ⟨?_, ?_, ?_⟩)
      · exact ⟨offset, [], Replay.inv_start s.log offset⟩
      · exact fun offset heq => by cases heq
      · exact fun error heq => by cases heq
  | replayAdvance c replay replay' hhandler hadvance hmoving =>
      obtain ⟨start, yielded, hinv⟩ := (h.get hhandler rfl).inv
      refine forall_mem_set hkept (replayOk_of_onWay rfl ⟨?_, hmoving, ?_⟩)
      · exact ⟨start, yielded, hinv.advance hadvance⟩
      · rintro error rfl
        have hread : s.readLog c = some (_, []) := hstep
        rw [BrokerServer.readLog, hhandler] at hread
        simp only [hadvance] at hread
        have hevs := (Prod.mk.inj (Option.some.inj hread)).2
        cases hevs
  | replayWrite c replay replay' frame hhandler hyield =>
      obtain ⟨start, yielded, hinv⟩ := (h.get hhandler rfl).inv
      refine forall_mem_set hkept (replayOk_of_onWay rfl ⟨?_, ?_, ?_⟩)
      · exact ⟨start, _, hinv.yieldFrame hyield⟩
      · rintro offset rfl
        cases replay with
        | yielding o results =>
            cases results with
            | nil => cases hyield
            | cons => cases hyield
        | _ => cases hyield
      · rintro error rfl
        cases replay with
        | yielding o results =>
            cases results with
            | nil => cases hyield
            | cons => cases hyield
        | _ => cases hyield
  | replayDrain c replay hhandler =>
      exact forall_mem_set hkept (replayOk_of_onWay rfl (h.get hhandler rfl))
  | _ => exact forall_mem_set hkept (replayOk_of_none rfl)

theorem replaysOk_run (h : broker.Reaches (.init log) tr s) :
    s.ReplaysOk := by
  induction h with
  | nil => intro handler hmem; cases hmem
  | snoc hrun _ hstep ih => exact replaysOk_step (handlersOk_run hrun) ih hstep

/-- Every step of the broker's own leaves less to do. -/
theorem work_lt (h : s.ReplaysOk) (hown : a.isOwn = true)
    (hstep : BrokerStep s a s' evs) : s'.work < s.work := by
  cases hstep with
  | connect => cases hown
  | tooLarge => cases hown
  | subscribe => cases hown
  | publish => cases hown
  | timeTravel => cases hown
  | ignore => cases hown
  | disconnect => cases hown
  | metricsTick => cases hown
  | stop => cases hown
  | stopRouter => cases hown
  | tell c msg frame hhandler =>
      exact work_lt_of_appended hhandler rfl (by decide : 2 < 3)
  | write c msg frame offset hhandler =>
      exact work_lt_of_appended hhandler rfl (by decide : 1 < 2)
  | appendRaise c n msg call log hhandler hfail =>
      refine work_lt_of_appended hhandler rfl ?_
      cases call with
      | opening frame => exact (by decide : 0 < 3)
      | opened frame offset => exact (by decide : 0 < 2)
      | returned offset => cases hfail
  | resume c msg frame offset start hhandler =>
      exact work_lt_of_appended hhandler rfl Nat.one_pos
  | replayFinish c replay offset hhandler hadvance =>
      exact work_lt_of_replayed hhandler rfl rfl rfl rfl (Nat.succ_pos _)
  | replayRaise c replay error hhandler hadvance =>
      exact work_lt_of_replayed hhandler rfl rfl rfl rfl (Nat.succ_pos _)
  | replayAdvance c replay replay' hhandler hadvance hmoving =>
      have hlt := (h.get hhandler rfl).work_advance hadvance
      refine work_lt_of_replayed hhandler rfl rfl rfl rfl ?_
      change 2 * replay'.work s.log.length + 1 <
        2 * replay.work s.log.length + 1
      omega
  | replayWrite c replay replay' frame hhandler hyield =>
      have hlt := (h.get hhandler rfl).work_yieldFrame hyield
      refine work_lt_of_replayed hhandler rfl rfl rfl rfl ?_
      change 2 * replay'.work s.log.length + 2 <
        2 * replay.work s.log.length + 1
      omega
  | replayDrain c replay hhandler =>
      exact work_lt_of_replayed hhandler rfl rfl rfl rfl (Nat.lt_succ_self _)
  | replayDrainFailed c replay hhandler =>
      exact work_lt_of_replayed hhandler rfl rfl rfl rfl (Nat.succ_pos _)
  | worker action router revs hlooksUp hrouter =>
      exact work_lt_of_worker rfl rfl
        (worker_work_lt (PriorityRouter.workerStep_of_eq hrouter))

/-! ## At rest -/

/-- Every handler waits for its client or has ended, and the worker waits for
its event or has ended. -/
structure BrokerServer.AtRest (s : BrokerServer) : Prop where
  handlers : ∀ handler ∈ s.handlers, handler = .reading ∨ handler = .closed
  worker : (s.router.worker = .waiting ∧ s.router.event = false) ∨
    s.router.worker = .notStarted ∨ s.router.worker = .finished

/-- A handler with something to do can do it. -/
theorem handler_of_resting (hok : s.HandlersOk) (hreplays : s.ReplaysOk)
    (hrest : broker.Resting (fun _ a => a.isSmooth = true) s)
    {handler : Handler} (hc : s.handlers[c]? = some handler) :
    handler = .reading ∨ handler = .closed := by
  cases handler with
  | reading => exact Or.inl rfl
  | closed => exact Or.inr rfl
  | appending msg call =>
      cases call with
      | opening frame =>
          have hnone : s.tell c = none := hrest (.tell c) rfl
          rw [BrokerServer.tell, hc] at hnone
          cases hnone
      | opened frame offset =>
          have hnone : s.write c = none := hrest (.write c) rfl
          rw [BrokerServer.write, hc] at hnone
          cases hnone
      | returned offset => cases (hok.get hc).2
  | appended msg frame offset start =>
      have hnone : s.resume c = none := hrest (.resume c) rfl
      rw [BrokerServer.resume, hc] at hnone
      cases hnone
  | flushing replay =>
      have hnone : s.replayDrain c true = none :=
        hrest (.replayDrain c true) rfl
      rw [BrokerServer.replayDrain, hc] at hnone
      cases hnone
  | replaying replay =>
      have honWay := hreplays.get hc rfl
      have hread : s.readLog c = none := hrest (.readLog c) rfl
      rw [BrokerServer.readLog, hc] at hread
      cases hadvance : replay.advance s.log with
      | some replay' =>
          simp only [hadvance] at hread
          cases replay' with
          | finished offset => cases hread
          | raised error => cases hread
          | _ => cases hread
      | none =>
          obtain ⟨frame, replay', hyield⟩ := honWay.yields hadvance
          have hwrite : s.replayWrite c = none := hrest (.replayWrite c) rfl
          rw [BrokerServer.replayWrite, hc] at hwrite
          simp only [hyield] at hwrite
          cases hwrite

/-- A worker with something to do can do it. -/
theorem worker_of_resting
    (hrest : broker.Resting (fun _ a => a.isSmooth = true) s) :
    (s.router.worker = .waiting ∧ s.router.event = false) ∨
      s.router.worker = .notStarted ∨ s.router.worker = .finished := by
  have hnone : ∀ action, (BrokerAction.worker action).isSmooth = true →
      s.looksUp action = true → s.router.workerStep action = none := by
    intro action hsmooth hlooksUp
    have hstep : s.worker action = none := hrest (.worker action) hsmooth
    rw [BrokerServer.worker, if_pos hlooksUp] at hstep
    cases hworker : s.router.workerStep action with
    | none => rfl
    | some result =>
        rw [hworker] at hstep
        cases hstep
  cases hworker : s.router.worker with
  | notStarted => exact Or.inr (Or.inl rfl)
  | finished => exact Or.inr (Or.inr rfl)
  | waiting =>
      have hwake := hnone .wake rfl rfl
      rw [PriorityRouter.workerStep, hworker] at hwake
      cases hevent : s.router.event with
      | false => exact Or.inl ⟨rfl, rfl⟩
      | true =>
          rw [hevent] at hwake
          cases hwake
  | draining =>
      have hpop := hnone .pop rfl rfl
      rw [PriorityRouter.workerStep, hworker] at hpop
      simp only at hpop
      split at hpop
      · cases hpop
      · cases hpop
  | fanout seq msg =>
      have hlooksUp : s.looksUp
          (.lookup (s.registry.getSubscribers msg.topicId)) = true := by
        simp only [BrokerServer.looksUp, hworker, decide_true]
      have hlookup := hnone _ rfl hlooksUp
      rw [PriorityRouter.workerStep, hworker] at hlookup
      simp only at hlookup
      split at hlookup
      · cases hlookup
      · split at hlookup
        · cases hlookup
        · cases hlookup
  | writing seq frame client remaining dead =>
      have hwrite := hnone (.write true) rfl rfl
      rw [PriorityRouter.workerStep, hworker] at hwrite
      cases hwrite
  | flushing seq frame client remaining dead =>
      have hdrain := hnone (.drain true) rfl rfl
      rw [PriorityRouter.workerStep, hworker] at hdrain
      cases hdrain
  | unregistering client dead =>
      have hunregister := hnone .unregister rfl rfl
      rw [PriorityRouter.workerStep, hworker] at hunregister
      cases hunregister
  | pausing =>
      have hresume := hnone .resume rfl rfl
      rw [PriorityRouter.workerStep, hworker] at hresume
      cases hresume
  | backingOff =>
      have hresume := hnone .resume rfl rfl
      rw [PriorityRouter.workerStep, hworker] at hresume
      cases hresume

/-- Where nothing is left to do, the broker is at rest. -/
theorem atRest_of_resting (hok : s.HandlersOk) (hreplays : s.ReplaysOk)
    (hrest : broker.Resting (fun _ a => a.isSmooth = true) s) :
    s.AtRest where
  handlers handler hmem := by
    obtain ⟨c, hc⟩ := List.mem_iff_getElem?.mp hmem
    exact handler_of_resting hok hreplays hrest hc
  worker := worker_of_resting hrest

/-- And where it is at rest, nothing is left to do. -/
theorem resting_of_atRest (h : s.AtRest) :
    broker.Resting (fun _ a => a.isOwn = true) s := by
  intro a hown
  by_contra hsome
  obtain ⟨⟨s', evs⟩, hstep⟩ := Option.ne_none_iff_exists'.mp hsome
  have hhandler : ∀ {c : ClientId} {handler : Handler},
      s.handlers[c]? = some handler → handler = .reading ∨ handler = .closed :=
    fun hc => h.handlers _ (List.mem_of_getElem? hc)
  cases BrokerServer.step_of_eq hstep with
  | connect => cases hown
  | tooLarge => cases hown
  | subscribe => cases hown
  | publish => cases hown
  | timeTravel => cases hown
  | ignore => cases hown
  | disconnect => cases hown
  | metricsTick => cases hown
  | stop => cases hown
  | stopRouter => cases hown
  | worker action router revs hlooksUp hrouter =>
      have hworker := PriorityRouter.workerStep_of_eq hrouter
      rcases h.worker with ⟨hat, hevent⟩ | hat | hat
      · cases hworker <;> simp_all [Worker.inFanout]
      · cases hworker <;> simp_all [Worker.inFanout]
      · cases hworker <;> simp_all [Worker.inFanout]
  | tell c msg frame hc => rcases hhandler hc with heq | heq <;> cases heq
  | write c msg frame offset hc =>
      rcases hhandler hc with heq | heq <;> cases heq
  | appendRaise c n msg call log hc =>
      rcases hhandler hc with heq | heq <;> cases heq
  | resume c msg frame offset start hc =>
      rcases hhandler hc with heq | heq <;> cases heq
  | replayFinish c replay offset hc =>
      rcases hhandler hc with heq | heq <;> cases heq
  | replayRaise c replay error hc =>
      rcases hhandler hc with heq | heq <;> cases heq
  | replayAdvance c replay replay' hc =>
      rcases hhandler hc with heq | heq <;> cases heq
  | replayWrite c replay replay' frame hc =>
      rcases hhandler hc with heq | heq <;> cases heq
  | replayDrain c replay hc =>
      rcases hhandler hc with heq | heq <;> cases heq
  | replayDrainFailed c replay hc =>
      rcases hhandler hc with heq | heq <;> cases heq

/-! ## What has arrived -/

/-- Where nothing fails, a publish that a handler has in its hand is enqueued,
or it stays there. -/
theorem inHand_step (hsmooth : a.isSmooth = true)
    (hstep : BrokerStep s a s' evs) (p : ClientId) :
    s.inHand p = (publishedBy p evs).map (fun e => e.2.1) ++ s'.inHand p := by
  by_cases hne : a.client = some p
  swap
  · rw [(inHand_of_ne hstep hne).1, (published_of_ne hstep hne).1]
    rfl
  cases hstep with
  | connect => cases hne
  | worker => cases hne
  | metricsTick => cases hne
  | stop => cases hne
  | stopRouter => cases hne
  | subscribe => cases hsmooth
  | ignore => cases hsmooth
  | appendRaise => cases hsmooth
  | tooLarge => cases hsmooth
  | publish => cases hsmooth
  | timeTravel => cases hsmooth
  | disconnect => cases hsmooth
  | resume d msg frame offset start hhandler =>
      cases hne
      rw [inHand_of hhandler, (inHand_set hhandler rfl).1]
      simp [publishedBy, Handler.inHand]
  | _ =>
      cases hne
      rw [inHand_of (by assumption), (inHand_set (by assumption) rfl).1]
      rfl

theorem inHand_run
    (h : broker.Run (fun _ a => a.isSmooth = true) s later s')
    (p : ClientId) :
    s.inHand p =
      (publishedBy p later).map (fun e => e.2.1) ++ s'.inHand p := by
  induction h with
  | nil => rfl
  | snoc _ hsmooth hstep ih =>
      rw [ih, inHand_step hsmooth (BrokerServer.step_of_eq hstep) p,
        publishedBy_append, List.map_append, List.append_assoc]

/-- An exception that escapes from a fan-out is noted. -/
theorem crashed_of_raises {r r' : PriorityRouter} {action : RouterAction}
    {revs : List RouterEvent} (hstep : router.step r action = some (r', revs))
    (hraises : r.raises action = true) : .crashed ∈ revs := by
  cases action with
  | worker action =>
      cases PriorityRouter.workerStep_of_eq hstep with
      | raised hworker => exact List.mem_singleton_self _
      | notEncoded seq msg error client remaining hworker =>
          exact List.mem_singleton_self _
      | lookup seq msg frame client remaining hworker hencoded =>
          have hwire := (Message.encoded_eq_ok.mp hencoded).1
          simp [PriorityRouter.raises, hworker, hwire] at hraises
      | _ => cases hraises
  | _ => cases hraises

theorem wakeInv_of_sound {r : PriorityRouter} {revs : List RouterEvent}
    (h : router.Reaches .init revs r) (hsound : .crashed ∉ revs) :
    r.WakeInv := by
  induction h with
  | nil => exact PriorityRouter.wakeInv_init
  | snoc _ _ hstep ih =>
      rw [List.mem_append, not_or] at hsound
      exact (ih hsound.1).step
        (fun hraises => absurd (crashed_of_raises hstep hraises) hsound.2) hstep

/-- A worker that is awake has been started and not come to its end. -/
theorem ne_of_asleep {worker : Worker} (h : worker.asleep = false) :
    worker ≠ .notStarted ∧ worker ≠ .finished := by
  refine ⟨?_, ?_⟩
  · rintro rfl
    cases h
  · rintro rfl
    cases h

/-- A running router has a worker. -/
theorem worker_of_running {r : PriorityRouter} {revs : List RouterEvent}
    (h : router.Reaches .init revs r) (hrunning : r.running = true) :
    r.worker ≠ .notStarted ∧ r.worker ≠ .finished := by
  induction h with
  | nil => cases hrunning
  | @snoc t u _ _ action _ _ hstep ih =>
      cases action with
      | start =>
          cases hstep
          rw [PriorityRouter.start] at hrunning ⊢
          split
          next hup => exact ih hup
          next hdown =>
            exact ⟨by simp, by simp⟩
      | stop =>
          cases hstep
          cases hrunning
      | enqueue msg =>
          cases hstep
          exact ih hrunning
      | worker action =>
          have hnext : t.running = true →
              t.nextRound ≠ .notStarted ∧ t.nextRound ≠ .finished := by
            intro hup
            rw [PriorityRouter.nextRound, if_pos hup]
            exact ⟨by simp, by simp⟩
          cases PriorityRouter.workerStep_of_eq hstep with
          | drained => exact hnext hrunning
          | backoffOver => exact hnext hrunning
          | writeFailed =>
              exact ne_of_asleep (Worker.asleep_afterSubscriber ..)
          | drain => exact ne_of_asleep (Worker.asleep_afterSubscriber ..)
          | drainFailed =>
              exact ne_of_asleep (Worker.asleep_afterSubscriber ..)
          | unregister =>
              exact ne_of_asleep (Worker.asleep_afterUnregister _)
          | _ => exact ⟨by simp, by simp⟩

/-- At rest, what has been logged has been enqueued. -/
theorem logged_of_atRest (h : broker.Reaches (.init log) tr s)
    (hrest : s.AtRest) : (loggedIn tr).Perm (publishedIn tr) := by
  have hnone : s.suspended = [] := by
    refine List.flatMap_eq_nil_iff.mpr fun handler hmem => ?_
    rcases hrest.handlers handler hmem with rfl | rfl
    · rfl
    · rfl
  have hperm := logged_run h
  rw [hnone, List.append_nil] at hperm
  exact hperm

/-- At rest, nothing waits in the heap of a running router. -/
theorem heap_of_atRest (h : broker.Reaches (.init log) tr s)
    (hrest : s.AtRest) (hrunning : s.router.running = true)
    (hsound : .router .crashed ∉ tr) : s.router.heap = [] := by
  have hrouter := router_run h
  have hsound' : .crashed ∉ routerEvents tr := by
    intro hmem
    obtain ⟨event, hevent, heq⟩ := List.mem_filterMap.mp hmem
    cases event with
    | router event =>
        cases heq
        exact hsound hevent
    | _ => cases heq
  have hwake := wakeInv_of_sound hrouter.reaches hsound'
  obtain ⟨hstarted, hunfinished⟩ := worker_of_running hrouter.reaches hrunning
  rcases hrest.worker with ⟨hworker, hevent⟩ | hworker | hworker
  · rcases hwake.noneBehind (by rw [hworker]; rfl) with hheap | hset
    · exact hheap
    · rw [hevent] at hset
      cases hset
  · exact absurd hworker hstarted
  · exact absurd hworker hunfinished

/-- And a running router has handed over what has been enqueued. -/
theorem handed_of_atRest (h : broker.Reaches (.init log) tr s)
    (hrest : s.AtRest) (hrunning : s.router.running = true)
    (hsound : .router .crashed ∉ tr) :
    (enqueuedIn (routerEvents tr)).Perm (handedIn (routerEvents tr)) := by
  have hconserved := (orderInv_run (router_run h)).conserved
  rw [PriorityRouter.queued, heap_of_atRest h hrest hrunning hsound,
    List.map_nil, List.append_nil] at hconserved
  exact hconserved

/-- Whatever has happened, the steps of handlers, appends, replays and the
worker come to an end, in whatever order they are taken; if nothing fails, every
publish that a handler has read is then enqueued.  The ends are the states in
which all handlers wait for their clients or have ended, and the worker waits or
has ended: there exactly the messages enqueued by handlers have been logged, and
their frames are in the log, behind its first content and with nothing else
unless an append has been torn; and unless a fan-out has raised or the router
been stopped, everything enqueued has been handed over. -/
theorem broker_rests (h : broker.Reaches (.init log) tr s) :
    (∀ f : ℕ → BrokerServer, f 0 = s → ¬∀ n, ∃ a evs, a.isOwn = true ∧
      broker.step (f n) a = some (f (n + 1), evs)) ∧
    (∃ later s', broker.Run (fun _ a => a.isSmooth = true) s later s' ∧
      s'.AtRest ∧ ∀ p,
        (publishedBy p later).map (fun e => e.2.1) = s.inHand p) ∧
    (s.AtRest ↔ ∀ a, a.isOwn = true → broker.step s a = none) ∧
    (s.AtRest → (loggedIn tr).Perm (publishedIn tr) ∧
      InLog (loggedIn tr) s.log ∧
      (NoTornAppend tr → s.log = EventLog.init log ++
        ((loggedIn tr).map fun e => e.1.frame).flatten) ∧
      (s.router.running = true → .router .crashed ∉ tr →
        (enqueuedIn (routerEvents tr)).Perm (handedIn (routerEvents tr)))) := by
  have hok := handlersOk_run h
  have hreplays := replaysOk_run h
  have hdown : ∀ (s : BrokerServer) (a : BrokerAction) s' evs,
      s.HandlersOk ∧ s.ReplaysOk → a.isOwn = true →
      broker.step s a = some (s', evs) →
      (s'.HandlersOk ∧ s'.ReplaysOk) ∧ s'.work < s.work := by
    intro s a s' evs hinv hown hstep
    have hcases := BrokerServer.step_of_eq hstep
    exact ⟨⟨handlersOk_step hinv.1 hcases, replaysOk_step hinv.1 hinv.2 hstep⟩,
      work_lt hinv.2 hown hcases⟩
  refine ⟨?_, ?_, ⟨resting_of_atRest, ?_⟩, ?_⟩
  · rintro f rfl
    have hfinite := System.not_endless (M := broker) (f := f) hdown
      ⟨hok, hreplays⟩
    exact hfinite
  · have hsmooth : ∀ (s : BrokerServer) (a : BrokerAction) s' evs,
        s.HandlersOk ∧ s.ReplaysOk → a.isSmooth = true →
        broker.step s a = some (s', evs) →
        (s'.HandlersOk ∧ s'.ReplaysOk) ∧ s'.work < s.work :=
      fun s a s' evs hinv hsmooth =>
        hdown s a s' evs hinv (BrokerAction.isOwn_of_isSmooth hsmooth)
    obtain ⟨later, s', hrun, hrest⟩ :=
      System.exists_resting (M := broker) hsmooth ⟨hok, hreplays⟩
    have hlater := h.trans hrun.reaches
    have hatRest := atRest_of_resting (handlersOk_run hlater)
      (replaysOk_run hlater) hrest
    refine ⟨later, s', hrun, hatRest, fun p => ?_⟩
    have hhand := inHand_run hrun p
    have hnone : s'.inHand p = [] := by
      rw [BrokerServer.inHand]
      split
      next handler hhandler =>
        rcases hatRest.handlers handler (List.mem_of_getElem? hhandler) with
          rfl | rfl
        · rfl
        · rfl
      · rfl
    rw [hnone, List.append_nil] at hhand
    exact hhand.symm
  · intro hrest
    exact atRest_of_resting hok hreplays fun a hsmooth =>
      hrest a (BrokerAction.isOwn_of_isSmooth hsmooth)
  · intro hrest
    refine ⟨logged_of_atRest h hrest, inLog_run h, fun htorn => ?_,
      handed_of_atRest h hrest⟩
    exact (written_run (handlersOk_init log) h htorn).log_eq

/-- A publish that has been read is enqueued by the time of the rest. -/
theorem broker_rests_publish :
    let msg : Message :=
      { command := cmdPublish, topicId := 1, priority := 5, payload := [65] }
    ∃ s later s', broker.Reaches (.init none) [.registered 0] s ∧
      broker.Run (fun _ a => a.isSmooth = true) s later s' ∧ s'.AtRest ∧
      (publishedBy 0 later).map (fun e => e.2.1) = [msg] := by
  intro msg
  have hrun : broker.Reaches (.init none) [.registered 0]
      { registry := { clients := [(0, [])] }
        log := []
        router := PriorityRouter.init.start
        messagesProcessed := 0
        latestOffset := 0
        handlers := [.appending msg (.opening msg.frame)]
        shutdown := false } :=
    System.exec_run [.connect, .receive 0 msg] (by decide)
  obtain ⟨-, ⟨later, s', hlater, hrest, hpublished⟩, -, -⟩ := broker_rests hrun
  exact ⟨_, later, s', hrun, hlater, hrest, hpublished 0⟩

end SentinelHub.Broker
