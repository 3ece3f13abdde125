import SentinelHub.Support.DropOldest
import SentinelHub.Support.Runs

/-!
# Server-sent events

`dashboard_server.py` gives every browser that asks for `/stream` a queue of
its own.  `broadcast_sse` puts an event into each queue, and the browser's
handler takes it out again and writes it.  The system below is any number of
browsers that come, read and go, and any number of broadcasts, each step being
what happens between two awaits.  What the events are plays no part in it.
-/

namespace SentinelHub.Dashboard

open SentinelHub.Support

variable {μ : Type*}

/-! ## The queue of a browser -/

/-- `asyncio.Queue(maxsize=2000)`. -/
def sseCapacity : ℕ := 2000

/-- `q.get_nowait()`, or `none` for `QueueEmpty`. -/
def getNowait : List μ → Option (μ × List μ)
  | [] => none
  | msg :: queue => some (msg, queue)

/-- `q.put_nowait(msg)`, or `none` for `QueueFull`. -/
def putNowait (queue : List μ) (msg : μ) : Option (List μ) :=
  if sseCapacity ≤ queue.length then none else some (queue ++ [msg])

/-- The body of the loop of `broadcast_sse`. -/
def offer (queue : List μ) (msg : μ) : List μ :=
  let queue :=
    if sseCapacity ≤ queue.length then
      match getNowait queue with
      | some (_, queue) => queue
      | none => queue
    else queue
  match putNowait queue msg with
  | some queue => queue
  | none => queue

theorem offer_eq (queue : List μ) (msg : μ)
    (hle : queue.length ≤ sseCapacity) :
    offer queue msg = pushDropOldest sseCapacity queue msg := by
  rw [offer, pushDropOldest]
  by_cases hfull : sseCapacity ≤ queue.length
  · cases queue with
    | nil => cases hfull
    | cons x queue =>
        have hroom : ¬sseCapacity ≤ queue.length := by
          rw [List.length_cons] at hle
          omega
        simp only [if_pos hfull, getNowait, putNowait, if_neg hroom,
          List.tail_cons]
  · simp only [if_neg hfull, putNowait]

/-! ## Browsers -/

/-- Where the handler stands behind `sse_clients.append(q)`: it awaits the
drain behind the initial event, an event, or the drain behind an event, or it
has returned. -/
inductive SseHandler
  | opening
  | waiting
  | sending
  | closed
  deriving DecidableEq, Repr

/-- A browser: its handler, its queue, whether `sse_clients` has the queue, and
the events that have been written to it. -/
structure Browser (μ : Type*) where
  handler : SseHandler
  queue : List μ
  listed : Bool
  sent : List μ
  deriving DecidableEq, Repr

namespace Browser

/-- The new queue goes into `sse_clients`, and the initial event is written. -/
def join (initial : μ) : Browser μ where
  handler := .opening
  queue := []
  listed := true
  sent := [initial]

/-- The `finally` branch. -/
def leave (b : Browser μ) : Browser μ :=
  { b with handler := .closed, listed := false }

/-- `writer.drain()` returns, or raises.  Behind the initial event it stands
before the `try`. -/
def drained (b : Browser μ) (ok : Bool) : Option (Browser μ) :=
  match b.handler with
  | .opening =>
      some { b with handler := if ok then .waiting else .closed }
  | .sending =>
      if ok then some { b with handler := .waiting } else some b.leave
  | _ => none

/-- `msg = await q.get()` and `writer.write(msg)`. -/
def take (b : Browser μ) : Option (Browser μ × μ) :=
  match b.handler, b.queue with
  | .waiting, msg :: queue =>
      some ({ b with handler := .sending, queue, sent := b.sent ++ [msg] },
        msg)
  | _, _ => none

end Browser

/-- `broadcast_sse`. -/
def broadcastSse (browsers : List (Browser μ)) (msg : μ) : List (Browser μ) :=
  browsers.map fun b =>
    if b.listed then { b with queue := offer b.queue msg } else b

/-! ## The system -/

/-- Browsers are numbered as they come. -/
inductive SseAction (μ : Type*)
  | broadcast (msg : μ)
  | join (initial : μ)
  | drained (browser : ℕ) (ok : Bool)
  | take (browser : ℕ)
  | cancel (browser : ℕ)
  deriving DecidableEq, Repr

inductive SseEvent (μ : Type*)
  | broadcast (msg : μ)
  | joined (browser : ℕ) (initial : μ)
  | took (browser : ℕ) (msg : μ)
  | left (browser : ℕ)
  deriving DecidableEq, Repr

/-- Noted when the queue of the browser `i` is taken out of `sse_clients`. -/
def leftEvents (i : ℕ) (b b' : Browser μ) : List (SseEvent μ) :=
  if b.listed && !b'.listed then [.left i] else []

/-- One step of a broadcast or of a handler. -/
def sseStep (browsers : List (Browser μ)) :
    SseAction μ → Option (List (Browser μ) × List (SseEvent μ))
  | .broadcast msg => some (broadcastSse browsers msg, [.broadcast msg])
  | .join initial =>
      some (browsers ++ [.join initial], [.joined browsers.length initial])
  | .drained i ok =>
      match browsers[i]? with
      | none => none
      | some b =>
          match b.drained ok with
          | none => none
          | some b' => some (browsers.set i b', leftEvents i b b')
  | .take i =>
      match browsers[i]? with
      | none => none
      | some b =>
          match b.take with
          | none => none
          | some (b', msg) => some (browsers.set i b', [.took i msg])
  | .cancel i =>
      match browsers[i]? with
      | none => none
      | some b =>
          if b.handler = .waiting ∨ b.handler = .sending then
            some (browsers.set i b.leave, leftEvents i b b.leave)
          else none

/-- Any number of browsers. -/
def sse : System (List (Browser μ)) (SseAction μ) (SseEvent μ) where
  step := sseStep

/-! ## What a step does to one browser -/

/-- The browser that an event is about. -/
def SseEvent.browser : SseEvent μ → Option ℕ
  | .broadcast _ => none
  | .joined i _ => some i
  | .took i _ => some i
  | .left i => some i

/-- What a step that emits `evs` does to the browser `i`. -/
inductive Browser.Move (i : ℕ) (b : Browser μ) :
    List (SseEvent μ) → Browser μ → Prop
  | broadcast (msg : μ) (hlisted : b.listed = true) :
      Move i b [.broadcast msg] { b with queue := offer b.queue msg }
  | missed (msg : μ) (hlisted : b.listed = false) :
      Move i b [.broadcast msg] b
  | take (msg : μ) (queue : List μ) (hhandler : b.handler = .waiting)
      (hqueue : b.queue = msg :: queue) :
      Move i b [.took i msg]
        { b with handler := .sending, queue, sent := b.sent ++ [msg] }
  | leave (hlisted : b.listed = true) : Move i b [.left i] b.leave
  | other (evs : List (SseEvent μ)) (handler : SseHandler)
      (hevs : ∀ e ∈ evs, ∃ j, e.browser = some j ∧ j ≠ i)
      (hclosed : b.handler = .closed → handler = .closed) :
      Move i b evs { b with handler }

/-- What a step that emits `evs` does to all browsers when none comes. -/
structure Moves (s : List (Browser μ)) (evs : List (SseEvent μ))
    (s' : List (Browser μ)) : Prop where
  length : s'.length = s.length
  known : ∀ e ∈ evs, ∀ j, e.browser = some j → j < s.length
  joined : ∀ j initial, .joined j initial ∉ evs
  move : ∀ (i : ℕ) (b : Browser μ), s[i]? = some b →
    ∃ b', s'[i]? = some b' ∧ b.Move i evs b'

variable {i j : ℕ} {b b' : Browser μ} {s s' : List (Browser μ)}
  {a : SseAction μ} {tr evs earlier later : List (SseEvent μ)}
  {msg initial : μ}

theorem Browser.move_leave (i : ℕ) (b : Browser μ) :
    b.Move i (leftEvents i b b.leave) b.leave := by
  cases hlisted : b.listed with
  | true =>
      rw [leftEvents, hlisted]
      exact .leave hlisted
  | false =>
      have hleave : b.leave = { b with handler := .closed } := by
        rw [Browser.leave, hlisted]
      rw [leftEvents, hlisted, hleave]
      exact .other [] .closed (by simp) fun _ => rfl

theorem mem_leftEvents {e : SseEvent μ} (h : e ∈ leftEvents i b b') :
    e = .left i := by
  rw [leftEvents] at h
  split at h
  · exact List.mem_singleton.mp h
  · cases h

/-- A step of the handler of one browser. -/
theorem moves_set (hj : s[j]? = some b) (hmove : b.Move j evs b')
    (hown : ∀ e ∈ evs, e = .left j ∨ ∃ msg, e = .took j msg) :
    Moves s evs (s.set j b') := by
  have hlt := (List.getElem?_eq_some_iff.mp hj).1
  have hbrowser : ∀ e ∈ evs, e.browser = some j := by
    intro e he
    rcases hown e he with rfl | ⟨msg, rfl⟩
    · rfl
    · rfl
  refine ⟨List.length_set, ?_, ?_, ?_⟩
  · intro e he k hk
    rw [hbrowser e he] at hk
    cases hk
    exact hlt
  · intro k initial he
    rcases hown _ he with h | ⟨msg, h⟩
    · cases h
    · cases h
  · intro i b₀ hi
    by_cases hij : j = i
    · subst hij
      rw [hj] at hi
      cases hi
      exact ⟨b', List.getElem?_set_self hlt, hmove⟩
    · refine ⟨b₀, by rw [List.getElem?_set_ne hij, hi], ?_⟩
      exact .other evs b₀.handler (fun e he => ⟨j, hbrowser e he, hij⟩) id

theorem Browser.drained_move {ok : Bool} (h : b.drained ok = some b') :
    b.Move i (leftEvents i b b') b' := by
  have hstay : ∀ handler : SseHandler, b.handler ≠ .closed →
      b' = { b with handler } → b.Move i (leftEvents i b b') b' := by
    rintro handler hne rfl
    have hnone : leftEvents i b { b with handler } = [] := by
      simp [leftEvents]
    rw [hnone]
    exact .other [] handler (by simp) fun hclosed => absurd hclosed hne
  rw [Browser.drained] at h
  cases hhandler : b.handler with
  | opening =>
      simp only [hhandler] at h
      exact hstay _ (by simp [hhandler]) (Option.some.inj h).symm
  | sending =>
      simp only [hhandler] at h
      cases ok with
      | true => exact hstay _ (by simp [hhandler]) (Option.some.inj h).symm
      | false =>
          cases h
          exact b.move_leave i
  | waiting =>
      simp only [hhandler] at h
      cases h
  | closed =>
      simp only [hhandler] at h
      cases h

theorem Browser.take_eq_some (h : b.take = some (b', msg)) :
    ∃ queue, b.handler = .waiting ∧ b.queue = msg :: queue ∧
      b' = { b with handler := .sending, queue, sent := b.sent ++ [msg] } := by
  rw [Browser.take] at h
  split at h
  next msg' queue hhandler hqueue =>
    cases h
    exact ⟨queue, hhandler, hqueue, rfl⟩
  · cases h

/-- Who is there behind the step was there before it. -/
theorem Moves.exists_move (h : Moves s evs s') (hi : s'[i]? = some b') :
    ∃ b, s[i]? = some b ∧ b.Move i evs b' := by
  have hlt := (List.getElem?_eq_some_iff.mp hi).1
  rw [h.length] at hlt
  have hget : s[i]? = some s[i] := List.getElem?_eq_getElem hlt
  obtain ⟨b'', hi', hmove⟩ := h.move i s[i] hget
  rw [hi] at hi'
  cases hi'
  exact ⟨s[i], hget, hmove⟩

theorem moves_broadcast (s : List (Browser μ)) (msg : μ) :
    Moves s [.broadcast msg] (broadcastSse s msg) := by
  refine ⟨List.length_map _, by simp [SseEvent.browser], by simp, ?_⟩
  intro i b hi
  have hget : (broadcastSse s msg)[i]? =
      some (if b.listed then { b with queue := offer b.queue msg } else b) := by
    rw [broadcastSse, List.getElem?_map, hi]
    rfl
  by_cases hlisted : b.listed = true
  · rw [if_pos hlisted] at hget
    exact ⟨_, hget, .broadcast msg hlisted⟩
  · rw [if_neg hlisted] at hget
    exact ⟨_, hget, .missed msg (Bool.eq_false_iff.mpr hlisted)⟩

theorem moves_of_broadcast
    (hstep : sseStep s (.broadcast msg) = some (s', evs)) :
    evs = [.broadcast msg] ∧ Moves s evs s' := by
  cases hstep
  exact ⟨rfl, moves_broadcast s msg⟩

/-- What a step can be: a broadcast, a browser that comes, or a move of the
handler of one browser. -/
theorem sseStep_eq_some (hstep : sseStep s a = some (s', evs)) :
    (∃ msg, a = .broadcast msg ∧ s' = broadcastSse s msg ∧
      evs = [.broadcast msg]) ∨
    (∃ initial, a = .join initial ∧ s' = s ++ [.join initial] ∧
      evs = [.joined s.length initial]) ∨
    ∃ j b b', s[j]? = some b ∧ s' = s.set j b' ∧ b.Move j evs b' ∧
      ∀ e ∈ evs, e = .left j ∨ ∃ msg, e = .took j msg := by
  cases a with
  | broadcast msg =>
      cases hstep
      exact Or.inl ⟨msg, rfl, rfl, rfl⟩
  | join initial =>
      cases hstep
      exact Or.inr (Or.inl ⟨initial, rfl, rfl, rfl⟩)
  | drained j ok =>
      refine Or.inr (Or.inr ?_)
      rw [sseStep] at hstep
      split at hstep
      · cases hstep
      next b hj =>
        split at hstep
        · cases hstep
        next b' hdrained =>
          cases hstep
          exact ⟨j, b, b', hj, rfl, Browser.drained_move hdrained,
            fun e he => Or.inl (mem_leftEvents he)⟩
  | take j =>
      refine Or.inr (Or.inr ?_)
      rw [sseStep] at hstep
      split at hstep
      · cases hstep
      next b hj =>
        split at hstep
        · cases hstep
        next b' msg htake =>
          cases hstep
          obtain ⟨queue, hhandler, hqueue, rfl⟩ := Browser.take_eq_some htake
          refine ⟨j, b, _, hj, rfl, .take msg queue hhandler hqueue, ?_⟩
          exact fun e he => Or.inr ⟨msg, List.mem_singleton.mp he⟩
  | cancel j =>
      refine Or.inr (Or.inr ?_)
      rw [sseStep] at hstep
      split at hstep
      · cases hstep
      next b hj =>
        split at hstep
        · cases hstep
          exact ⟨j, b, b.leave, hj, rfl, b.move_leave j,
            fun e he => Or.inl (mem_leftEvents he)⟩
        · cases hstep

/-- A browser comes, or every browser makes a move. -/
theorem sseStep_cases (hstep : sseStep s a = some (s', evs)) :
    (∃ initial, s' = s ++ [.join initial] ∧
      evs = [.joined s.length initial]) ∨ Moves s evs s' := by
  rcases sseStep_eq_some hstep with ⟨msg, -, rfl, rfl⟩ |
    ⟨initial, -, hs, hevs⟩ | ⟨j, b, b', hj, rfl, hmove, hown⟩
  · exact Or.inr (moves_broadcast s msg)
  · exact Or.inl ⟨initial, hs, hevs⟩
  · exact Or.inr (moves_set hj hmove hown)

theorem Browser.Move.broadcast_cases (h : b.Move i [.broadcast msg] b') :
    (b.listed = true ∧ b' = { b with queue := offer b.queue msg }) ∨
      (b.listed = false ∧ b' = b) := by
  cases h with
  | broadcast msg hlisted => exact Or.inl ⟨hlisted, rfl⟩
  | missed msg hlisted => exact Or.inr ⟨hlisted, rfl⟩
  | other evs handler hevs hclosed =>
      obtain ⟨j, hj, -⟩ := hevs (.broadcast msg) (List.mem_singleton_self _)
      cases hj

/-- What the event of a step says about the step. -/
theorem sseStep_event (hstep : sseStep s a = some (s', evs)) :
    (∀ msg, .broadcast msg ∈ evs → a = .broadcast msg) ∧
      ∀ j initial, .joined j initial ∈ evs → a = .join initial := by
  rcases sseStep_eq_some hstep with ⟨msg, rfl, -, rfl⟩ |
    ⟨initial, rfl, -, rfl⟩ | ⟨j, b, b', -, -, -, hown⟩
  · simp
  · simp
  · constructor
    · intro msg he
      rcases hown _ he with h | ⟨_, h⟩
      · cases h
      · cases h
    · intro k initial he
      rcases hown _ he with h | ⟨_, h⟩
      · cases h
      · cases h

/-! ## The life of one browser -/

/-- The queue of the browser `i` is taken out of `sse_clients`. -/
def SseEvent.isLeft (i : ℕ) : SseEvent μ → Bool
  | .left j => i == j
  | _ => false

/-- What happens to the queue of the browser `i`. -/
def SseEvent.use (i : ℕ) : SseEvent μ → Option (BufferUse μ)
  | .broadcast msg => some (.put msg)
  | .took j _ => if i = j then some .take else none
  | _ => none

/-- The uses of the queue of the browser `i` as long as `sse_clients` has it,
when `later` has happened since the browser came. -/
def usesOf (i : ℕ) (later : List (SseEvent μ)) : List (BufferUse μ) :=
  (later.takeWhile fun e => !e.isLeft i).filterMap (SseEvent.use i)

theorem usesOf_append (evs : List (SseEvent μ))
    (hlater : ∀ e ∈ later, e.isLeft i = false) :
    usesOf i (later ++ evs) = usesOf i later ++ usesOf i evs := by
  have hall : ∀ e ∈ later, (!e.isLeft i) = true := by
    intro e he
    rw [hlater e he]
    rfl
  have hself := List.takeWhile_eq_self_iff.mpr hall
  rw [usesOf, List.takeWhile_append_of_pos hall, List.filterMap_append,
    usesOf, hself, usesOf]

/-- Behind the end nothing counts. -/
theorem usesOf_append_of_left (evs : List (SseEvent μ)) {e : SseEvent μ}
    (he : e ∈ later) (hleft : e.isLeft i = true) :
    usesOf i (later ++ evs) = usesOf i later := by
  have hne : later.takeWhile (fun e => !e.isLeft i) ≠ later := by
    intro hself
    have hall := List.mem_takeWhile_imp (hself ▸ he)
    rw [hleft] at hall
    cases hall
  have hlength :
      (later.takeWhile fun e => !e.isLeft i).length ≠ later.length := by
    intro heq
    exact hne ((List.takeWhile_sublist _).eq_of_length heq)
  rw [usesOf, List.takeWhile_append, if_neg hlength, usesOf]

/-- What a browser is like when `later` has happened since it came. -/
structure Browser.LifeIs (i : ℕ) (initial : μ) (later : List (SseEvent μ))
    (b : Browser μ) : Prop where
  listed : b.listed = true ↔ ∀ e ∈ later, e.isLeft i = false
  closed : b.listed = false → b.handler = .closed
  queue : b.queue = (DropOldest.after sseCapacity (usesOf i later)).items
  sent : b.sent =
    initial :: (DropOldest.after sseCapacity (usesOf i later)).taken

theorem Browser.lifeIs_join (i : ℕ) (initial : μ) :
    (Browser.join initial).LifeIs i initial [] where
  listed := by simp [join]
  closed h := by cases h
  queue := rfl
  sent := rfl

theorem usesOf_eq_nil
    (hevs : ∀ e ∈ evs, ∃ j, e.browser = some j ∧ j ≠ i) :
    usesOf i evs = [] := by
  rw [usesOf, List.filterMap_eq_nil_iff]
  intro e he
  obtain ⟨j, hj, hne⟩ := hevs e ((List.takeWhile_sublist _).subset he)
  cases e with
  | broadcast msg => cases hj
  | took k msg =>
      cases hj
      exact if_neg hne.symm
  | joined k initial => rfl
  | left k => rfl

theorem isLeft_eq_false
    (hevs : ∀ e ∈ evs, ∃ j, e.browser = some j ∧ j ≠ i) :
    ∀ e ∈ evs, e.isLeft i = false := by
  intro e he
  obtain ⟨j, hj, hne⟩ := hevs e he
  cases e with
  | left k =>
      cases hj
      exact beq_false_of_ne hne.symm
  | broadcast msg => rfl
  | took k msg => rfl
  | joined k initial => rfl

namespace Browser

/-- Whatever happens to a browser that has left, its life is over. -/
theorem LifeIs.over (h : b.LifeIs i initial later)
    (evs : List (SseEvent μ)) (hleft : b.listed = false) :
    b.LifeIs i initial (later ++ evs) := by
  have hnot : ¬∀ e ∈ later, e.isLeft i = false := by
    rw [← h.listed, hleft]
    exact Bool.false_ne_true
  simp only [not_forall] at hnot
  obtain ⟨e, he, hne⟩ := hnot
  have htrue : e.isLeft i = true := Bool.of_not_eq_false hne
  have huses := usesOf_append_of_left evs he htrue
  refine ⟨?_, h.closed, by rw [huses, h.queue], by rw [huses, h.sent]⟩
  rw [hleft]
  refine ⟨fun hlisted => absurd hlisted Bool.false_ne_true, fun hall => ?_⟩
  have hfalse := hall e (List.mem_append_left _ he)
  rw [htrue] at hfalse
  cases hfalse

/-- What goes on while the queue is in `sse_clients`. -/
theorem LifeIs.live (h : b.LifeIs i initial later) (hlisted : b.listed = true)
    (hevs : ∀ e ∈ evs, e.isLeft i = false) (hlisted' : b'.listed = true)
    (hqueue : b'.queue =
      (DropOldest.after sseCapacity (usesOf i later ++ usesOf i evs)).items)
    (hsent : b'.sent = initial ::
      (DropOldest.after sseCapacity (usesOf i later ++ usesOf i evs)).taken) :
    b'.LifeIs i initial (later ++ evs) := by
  have hlater := h.listed.mp hlisted
  have huses := usesOf_append evs hlater
  refine ⟨?_, ?_, by rw [huses, hqueue], by rw [huses, hsent]⟩
  · rw [hlisted']
    refine ⟨fun _ e he => ?_, fun _ => rfl⟩
    rcases List.mem_append.mp he with he | he
    · exact hlater e he
    · exact hevs e he
  · rw [hlisted']
    exact fun hfalse => absurd hfalse.symm Bool.false_ne_true

theorem LifeIs.move (h : b.LifeIs i initial later) (hmove : b.Move i evs b') :
    b'.LifeIs i initial (later ++ evs) := by
  cases hmove with
  | broadcast msg hlisted =>
      have hle := DropOldest.length_items_le (by decide : 0 < sseCapacity)
        (usesOf i later)
      rw [← h.queue] at hle
      refine h.live hlisted (by simp [SseEvent.isLeft]) hlisted ?_ ?_
      · change offer b.queue msg =
          (DropOldest.after sseCapacity (usesOf i later ++ [.put msg])).items
        rw [DropOldest.after_concat, offer_eq _ _ hle, h.queue]
        rfl
      · change b.sent = initial ::
          (DropOldest.after sseCapacity (usesOf i later ++ [.put msg])).taken
        rw [DropOldest.after_concat, h.sent]
        rfl
  | missed msg hleft => exact h.over _ hleft
  | take msg queue hhandler hqueue =>
      have hlisted : b.listed = true := by
        by_contra hleft
        have hclosed := h.closed (Bool.of_not_eq_true hleft)
        rw [hhandler] at hclosed
        cases hclosed
      have huse : usesOf i [SseEvent.took i msg] = [.take] := by
        simp [usesOf, SseEvent.isLeft, SseEvent.use]
      have hbuffer :
          (DropOldest.after sseCapacity (usesOf i later)).use sseCapacity
            .take =
          { items := queue
            taken :=
              (DropOldest.after sseCapacity (usesOf i later)).taken ++
                [msg] } := by
        simp only [DropOldest.use, ← h.queue, hqueue]
      refine h.live hlisted (by simp [SseEvent.isLeft]) hlisted ?_ ?_
      · rw [huse, DropOldest.after_concat, hbuffer]
      · rw [huse, DropOldest.after_concat, hbuffer, h.sent, List.cons_append]
  | leave hlisted =>
      have huses := usesOf_append [SseEvent.left i] (h.listed.mp hlisted)
      have hnil : usesOf i ([.left i] : List (SseEvent μ)) = [] := by
        simp [usesOf, SseEvent.isLeft]
      rw [hnil, List.append_nil] at huses
      refine ⟨?_, fun _ => rfl, by rw [huses, ← h.queue]; rfl,
        by rw [huses, ← h.sent]; rfl⟩
      refine ⟨fun hfalse => absurd hfalse Bool.false_ne_true, fun hall => ?_⟩
      have hfalse := hall (.left i) (by simp)
      rw [SseEvent.isLeft, BEq.rfl] at hfalse
      cases hfalse
  | other evs handler hevs hclosed =>
      by_cases hlisted : b.listed = true
      · refine h.live hlisted (isLeft_eq_false hevs) hlisted ?_ ?_
        · rw [usesOf_eq_nil hevs, List.append_nil, ← h.queue]
        · rw [usesOf_eq_nil hevs, List.append_nil, ← h.sent]
      · have hleft := Bool.of_not_eq_true hlisted
        have hover := h.over evs hleft
        exact ⟨hover.listed, fun _ => hclosed (h.closed hleft), hover.queue,
          hover.sent⟩

end Browser

/-- What is known of the browsers behind a trace: the events are about
browsers that have come, and each has come once, before all that happened to
it. -/
structure Lives (tr : List (SseEvent μ)) (s : List (Browser μ)) : Prop where
  known : ∀ e ∈ tr, ∀ j, e.browser = some j → j < s.length
  life : ∀ (i : ℕ) (b : Browser μ), s[i]? = some b →
    ∃ earlier initial later, tr = earlier ++ .joined i initial :: later ∧
      (∀ e ∈ earlier, e.browser ≠ some i) ∧
        (∀ initial', .joined i initial' ∉ later) ∧ b.LifeIs i initial later

theorem Lives.join (h : Lives tr s) (initial : μ) :
    Lives (tr ++ [.joined s.length initial]) (s ++ [.join initial]) := by
  constructor
  · intro e he j hj
    rw [List.length_append, List.length_singleton]
    rcases List.mem_append.mp he with he | he
    · have hlt := h.known e he j hj
      omega
    · rw [List.mem_singleton.mp he] at hj
      cases hj
      exact Nat.lt_succ_self _
  · intro i b hi
    by_cases hlt : i < s.length
    · rw [List.getElem?_append_left hlt] at hi
      obtain ⟨earlier, initial', later, rfl, hearlier, hlater, hlife⟩ :=
        h.life i b hi
      refine ⟨earlier, initial', later ++ [.joined s.length initial],
        by simp only [List.append_assoc, List.cons_append], hearlier, ?_, ?_⟩
      · intro initial'' he
        rcases List.mem_append.mp he with he | he
        · exact hlater initial'' he
        · cases List.mem_singleton.mp he
          exact Nat.lt_irrefl _ hlt
      · refine hlife.move (.other _ b.handler ?_ id)
        intro e he
        rw [List.mem_singleton.mp he]
        exact ⟨s.length, rfl, by omega⟩
    · have hle := (List.getElem?_eq_some_iff.mp hi).1
      rw [List.length_append, List.length_singleton] at hle
      have hlast : i = s.length := by omega
      subst hlast
      rw [List.getElem?_concat_length] at hi
      cases hi
      refine ⟨tr, initial, [], rfl, ?_, by simp, Browser.lifeIs_join _ _⟩
      intro e he hown
      exact Nat.lt_irrefl _ (h.known e he _ hown)

theorem Lives.moves (h : Lives tr s) (hmoves : Moves s evs s') :
    Lives (tr ++ evs) s' := by
  constructor
  · intro e he j hj
    rw [hmoves.length]
    rcases List.mem_append.mp he with he | he
    · exact h.known e he j hj
    · exact hmoves.known e he j hj
  · intro i b' hi
    obtain ⟨b, hb, hmove⟩ := hmoves.exists_move hi
    obtain ⟨earlier, initial, later, rfl, hearlier, hlater, hlife⟩ :=
      h.life i b hb
    refine ⟨earlier, initial, later ++ evs,
      by simp only [List.append_assoc, List.cons_append], hearlier, ?_,
      hlife.move hmove⟩
    intro initial' he
    rcases List.mem_append.mp he with he | he
    · exact hlater initial' he
    · exact hmoves.joined i initial' he

theorem lives_of_reaches (h : sse.Reaches [] tr s) : Lives tr s := by
  refine h.invariant ⟨by simp, by simp⟩ ?_
  intro tr s a s' evs hlives _ hstep
  rcases sseStep_cases hstep with ⟨initial, rfl, rfl⟩ | hmoves
  · exact hlives.join initial
  · exact hlives.moves hmoves

/-! ## Drop-oldest queues -/

/-- The events that reach the browser `i`, and what it does itself. -/
def SseEvent.concerns (i : ℕ) (e : SseEvent μ) : Bool :=
  match e.browser with
  | none => true
  | some j => i == j

theorem SseEvent.concerns_eq_false {e : SseEvent μ}
    (h : e.concerns i = false) : ∃ j, e.browser = some j ∧ j ≠ i := by
  cases hbrowser : e.browser with
  | none =>
      rw [concerns, hbrowser] at h
      cases h
  | some j =>
      rw [concerns, hbrowser] at h
      exact ⟨j, rfl, fun hji => by simp [hji] at h⟩

/-- The events of the other browsers do not count. -/
theorem usesOf_filter (i : ℕ) (later : List (SseEvent μ)) :
    usesOf i (later.filter (·.concerns i)) = usesOf i later := by
  induction later with
  | nil => rfl
  | cons e later ih =>
      have hcons : ∀ later, usesOf i (e :: later) = if e.isLeft i = true then []
          else (e.use i).toList ++ usesOf i later := by
        intro later
        rw [usesOf, List.takeWhile_cons]
        by_cases hleft : e.isLeft i = true
        · simp [hleft]
        · rw [if_neg hleft, if_pos (by simpa using hleft), List.filterMap_cons,
            usesOf]
          cases e.use i <;> rfl
      by_cases hconcerns : e.concerns i = true
      · rw [List.filter_cons_of_pos hconcerns, hcons, hcons, ih]
      · have hother := SseEvent.concerns_eq_false
          (Bool.of_not_eq_true hconcerns)
        have hevs : ∀ e' ∈ [e], ∃ j, e'.browser = some j ∧ j ≠ i := by
          simpa using hother
        have hnone : usesOf i [e] = [] := usesOf_eq_nil hevs
        have hmain := usesOf_append later (isLeft_eq_false hevs)
        rw [hnone, List.nil_append, List.singleton_append] at hmain
        rw [List.filter_cons_of_neg hconcerns, ih, hmain]

/-- Where the browser came is seen on the trace. -/
theorem split_joined {earlier' later' : List (SseEvent μ)} {initial' : μ}
    (hearlier : ∀ e ∈ earlier, e.browser ≠ some i)
    (hearlier' : ∀ e ∈ earlier', e.browser ≠ some i)
    (heq : earlier ++ .joined i initial :: later =
      earlier' ++ .joined i initial' :: later') :
    initial = initial' ∧ later = later' := by
  have hdrop : ∀ (xs : List (SseEvent μ)) (x : μ) (ys : List (SseEvent μ)),
      (∀ e ∈ xs, e.browser ≠ some i) →
        (xs ++ .joined i x :: ys).dropWhile
          (fun e => decide (e.browser ≠ some i)) = .joined i x :: ys := by
    intro xs x ys hxs
    rw [List.dropWhile_append_of_pos (by simpa using hxs),
      List.dropWhile_cons_of_neg (by simp [SseEvent.browser])]
  have hmain := (hdrop earlier initial later hearlier).symm.trans
    (heq ▸ hdrop earlier' initial' later' hearlier')
  simpa using hmain

theorem getLast?_offer (queue : List μ) (msg : μ)
    (hle : queue.length ≤ sseCapacity) :
    (offer queue msg).getLast? = some msg := by
  rw [offer_eq _ _ hle, pushDropOldest, List.getLast?_concat]

theorem Browser.LifeIs.length_queue_le (h : b.LifeIs i initial later) :
    b.queue.length ≤ sseCapacity := by
  rw [h.queue]
  exact DropOldest.length_items_le (by decide) _

/-- What is known of a browser at any time. -/
theorem browser_of_reaches (h : sse.Reaches [] tr s) (hb : b ∈ s) :
    b.queue.length ≤ sseCapacity ∧
      (b.listed = false → b.handler = .closed) := by
  obtain ⟨i, hi⟩ := List.mem_iff_getElem?.mp hb
  obtain ⟨_, _, _, _, _, _, hlife⟩ := (lives_of_reaches h).life i b hi
  exact ⟨hlife.length_queue_le, hlife.closed⟩

/-- Whatever the browsers do, behind every broadcast and every read the queue of
a browser holds the last of the events that were broadcast behind the one it
has taken last, as many as fit in.  What it has taken are broadcast events in
the order of the broadcasts, the newest event is in every queue, and browsers
are not in each other's way. -/
theorem sse_queue_is_drop_oldest {browsers : List (Browser μ)}
    (h : sse.Reaches [] tr browsers) :
    (∀ (i : ℕ) (b : Browser μ), browsers[i]? = some b →
      ∃ earlier initial later received,
        tr = earlier ++ .joined i initial :: later ∧
        (∀ e ∈ earlier, e.browser ≠ some i) ∧
        b.sent = initial :: received ∧
        let r := FeedReader.after sseCapacity (usesOf i later)
        r.feed = feedOf (usesOf i later) ∧
        b.queue = r.unseen.rtake (min r.unseen.length sseCapacity) ∧
        (received.map some = r.positions.map fun p => r.feed[p]?) ∧
        r.positions.Pairwise (· < ·)) ∧
    (∀ (msg : μ) (browsers' : List (Browser μ)) (evs : List (SseEvent μ)),
      sseStep browsers (.broadcast msg) = some (browsers', evs) →
        ∀ b ∈ browsers', b.listed = true → b.queue.getLast? = some msg) ∧
    ∀ (tr' : List (SseEvent μ)) (browsers' : List (Browser μ)),
      sse.Reaches [] tr' browsers' →
        ∀ (i : ℕ) (b b' : Browser μ), browsers[i]? = some b →
          browsers'[i]? = some b' →
            tr.filter (·.concerns i) = tr'.filter (·.concerns i) →
              b.queue = b'.queue ∧ b.sent = b'.sent := by
  have hlives := lives_of_reaches h
  refine ⟨?_, ?_, ?_⟩
  · intro i b hi
    obtain ⟨earlier, initial, later, htr, hearlier, -, hlife⟩ :=
      hlives.life i b hi
    have htracks := DropOldest.tracks_after (by decide : 0 < sseCapacity)
      (usesOf i later)
    refine ⟨earlier, initial, later, _, htr, hearlier, hlife.sent,
      FeedReader.feed_after _ _, ?_, htracks.taken, htracks.increasing⟩
    rw [hlife.queue, htracks.items]
    rfl
  · intro msg browsers' evs hstep b hb hlisted
    cases hstep
    obtain ⟨b₀, hb₀, rfl⟩ := List.mem_map.mp hb
    by_cases hlisted₀ : b₀.listed = true
    · rw [if_pos hlisted₀]
      exact getLast?_offer _ _ (browser_of_reaches h hb₀).1
    · rw [if_neg hlisted₀] at hlisted
      exact absurd hlisted hlisted₀
  · intro tr' browsers' h' i b b' hi hi' hfilter
    obtain ⟨earlier, initial, later, rfl, hearlier, -, hlife⟩ :=
      hlives.life i b hi
    obtain ⟨earlier', initial', later', rfl, hearlier', -, hlife'⟩ :=
      (lives_of_reaches h').life i b' hi'
    have hself : ∀ x : μ, (SseEvent.joined i x).concerns i = true := by
      intro x
      simp [SseEvent.concerns, SseEvent.browser]
    have hmem : ∀ xs : List (SseEvent μ), (∀ e ∈ xs, e.browser ≠ some i) →
        ∀ e ∈ xs.filter (·.concerns i), e.browser ≠ some i := by
      intro xs hxs e he
      exact hxs e (List.mem_of_mem_filter he)
    rw [List.filter_append, List.filter_append,
      List.filter_cons_of_pos (hself _), List.filter_cons_of_pos (hself _)]
      at hfilter
    obtain ⟨rfl, hlater⟩ := split_joined (hmem _ hearlier) (hmem _ hearlier')
      hfilter
    have huses : usesOf i later = usesOf i later' := by
      rw [← usesOf_filter, hlater, usesOf_filter]
    exact ⟨by rw [hlife.queue, hlife'.queue, huses],
      by rw [hlife.sent, hlife'.sent, huses]⟩

/-- Two browsers read a broadcast each, one of them later than the other. -/
theorem sse_queue_is_drop_oldest_two_browsers :
    ∃ browsers : List (Browser ℕ),
      sse.Reaches []
        [.joined 0 7, .joined 1 8, .broadcast 9, .took 0 9, .broadcast 10]
        browsers ∧
      (browsers.map (·.queue) = [[10], [9, 10]]) ∧
      ∀ (i : ℕ) (b : Browser ℕ), browsers[i]? = some b →
        ∃ earlier initial later received,
          [.joined 0 7, .joined 1 8, .broadcast 9, .took 0 9, .broadcast 10] =
            earlier ++ SseEvent.joined i initial :: later ∧
          (∀ e ∈ earlier, e.browser ≠ some i) ∧
          b.sent = initial :: received ∧
          let r := FeedReader.after sseCapacity (usesOf i later)
          r.feed = feedOf (usesOf i later) ∧
          b.queue = r.unseen.rtake (min r.unseen.length sseCapacity) ∧
          (received.map some = r.positions.map fun p => r.feed[p]?) ∧
          r.positions.Pairwise (· < ·) := by
  have hrun : sse.Reaches ([] : List (Browser ℕ))
      [.joined 0 7, .joined 1 8, .broadcast 9, .took 0 9, .broadcast 10]
      [⟨.sending, [10], true, [7, 9]⟩, ⟨.opening, [9, 10], true, [8]⟩] :=
    System.exec_run
      [.join 7, .join 8, .drained 0 true, .broadcast 9, .take 0, .broadcast 10]
      (by decide)
  exact ⟨_, hrun, rfl, (sse_queue_is_drop_oldest hrun).1⟩

end SentinelHub.Dashboard
