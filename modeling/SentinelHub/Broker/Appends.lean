import SentinelHub.Broker.Storage
import SentinelHub.Support.Runs

/-!
# Concurrent appends

`EventLog.append` runs `_sync_append` on a pool thread and takes no lock.  A
call opens the file in append mode and reads the end position, and only then
writes its frame, which the operating system puts at the end that the file has
by that time.  Calls of several publishers can take these two steps in any
order.

The offset a call returns is the one it has read, so it is the start of its
frame exactly when no other call has written in between.
-/

namespace SentinelHub.Broker

open SentinelHub.Support

/-! ## One call -/

/-- A call of `_sync_append`: before it has opened the file, between `tell`
and `write`, and returned. -/
inductive AppendCall
  | opening (frame : Bytes)
  | opened (frame : Bytes) (offset : ℕ)
  | returned (offset : ℕ)
  deriving DecidableEq, Repr

/-- `offset = f.tell()` after `open(self._path, "ab")`. -/
def AppendCall.tell (content : Bytes) : AppendCall → Option (AppendCall × ℕ)
  | .opening frame => some (.opened frame content.length, content.length)
  | _ => none

/-- `f.write(frame)` and `f.flush()`: the new content, the frame written and
the offset that the call returns. -/
def AppendCall.write (content : Bytes) : AppendCall → Option (Bytes × Bytes × ℕ)
  | .opened frame offset => some (content ++ frame, frame, offset)
  | _ => none

/-- The call raises after `n` bytes of its frame have reached the file; none
have before the file is open. -/
def AppendCall.fail (content : Bytes) (n : ℕ) : AppendCall → Option Bytes
  | .opening _ => if n = 0 then some content else none
  | .opened frame _ =>
      if n < frame.length then some (EventLog.tornAppend content frame n)
      else none
  | .returned _ => none

/-- The frame of a call that has not returned. -/
def AppendCall.pending : AppendCall → Option Bytes
  | .opening frame => some frame
  | .opened frame _ => some frame
  | .returned _ => none

theorem AppendCall.tell_eq_some {content : Bytes} {call call' : AppendCall}
    {offset : ℕ} :
    call.tell content = some (call', offset) ↔
      ∃ frame, call = .opening frame ∧ offset = content.length ∧
        call' = .opened frame offset := by
  constructor
  · intro h
    cases call with
    | opening frame =>
        cases h
        exact ⟨frame, rfl, rfl, rfl⟩
    | _ => cases h
  · rintro ⟨frame, rfl, rfl, rfl⟩
    rfl

theorem AppendCall.write_eq_some {content content' frame : Bytes}
    {call : AppendCall} {offset : ℕ} :
    call.write content = some (content', frame, offset) ↔
      call = .opened frame offset ∧ content' = content ++ frame := by
  constructor
  · intro h
    cases call with
    | opened frame offset =>
        cases h
        exact ⟨rfl, rfl⟩
    | _ => cases h
  · rintro ⟨rfl, rfl⟩
    rfl

/-- A call that raises without having written anything leaves the log as it
is. -/
theorem AppendCall.fail_zero {content content' : Bytes} {call : AppendCall}
    (h : call.fail content 0 = some content') : content' = content := by
  cases call with
  | opening frame =>
      cases h
      rfl
  | opened frame offset =>
      rw [fail] at h
      split at h <;> cases h
      rw [EventLog.tornAppend, List.take_zero, List.append_nil]
  | returned offset => cases h

/-- A call that nothing comes between does what `_sync_append` does alone. -/
theorem AppendCall.tell_write (content frame : Bytes) :
    (do
      let (call, _) ← (AppendCall.opening frame).tell content
      let (content, _, offset) ← call.write content
      return (content, offset)) =
    some (EventLog.syncAppend content frame) :=
  rfl

/-! ## Any number of calls -/

/-- The log file and all calls of `append` so far. -/
structure Appends where
  log : Bytes
  calls : List AppendCall
  deriving DecidableEq, Repr

inductive AppendAction
  | submit (frame : Bytes)
  | tell (call : ℕ)
  | write (call : ℕ)
  deriving DecidableEq, Repr

/-- What can be noted about a call: the offset it reads, and the position at
which its frame is written. -/
inductive AppendEvent
  | told (call offset : ℕ)
  | wrote (call : ℕ) (frame : Bytes) (start : ℕ)
  deriving DecidableEq, Repr

/-- The calls of `append` on one log, in any order.  Only complete frames are
submitted. -/
def appends : System Appends AppendAction AppendEvent where
  step s
    | .submit frame =>
        if wire.IsFrame frame then
          some ({ s with calls := s.calls ++ [.opening frame] }, [])
        else none
    | .tell i => do
        let call ← s.calls[i]?
        let (call, offset) ← call.tell s.log
        return ({ s with calls := s.calls.set i call }, [.told i offset])
    | .write i => do
        let call ← s.calls[i]?
        let (log, frame, offset) ← call.write s.log
        return ({ log, calls := s.calls.set i (.returned offset) },
          [.wrote i frame s.log.length])

/-- No call has been made yet. -/
def Appends.init (log : Bytes) : Appends where
  log := log
  calls := []

namespace Appends

variable {s t u : Appends} {evs tr : List AppendEvent} {a : AppendAction}

theorem step_tell {i : ℕ} (h : appends.step s (.tell i) = some (t, evs)) :
    ∃ frame, s.calls[i]? = some (.opening frame) ∧
      t = { s with calls := s.calls.set i (.opened frame s.log.length) } ∧
      evs = [.told i s.log.length] := by
  simp only [appends, Option.bind_eq_bind, Option.bind_eq_some_iff] at h
  obtain ⟨call, hcall, ⟨call', offset⟩, htell, heq⟩ := h
  obtain ⟨frame, rfl, rfl, rfl⟩ := AppendCall.tell_eq_some.mp htell
  cases heq
  exact ⟨frame, hcall, rfl, rfl⟩

theorem step_write {i : ℕ} (h : appends.step s (.write i) = some (t, evs)) :
    ∃ frame offset, s.calls[i]? = some (.opened frame offset) ∧
      t = { log := s.log ++ frame, calls := s.calls.set i (.returned offset) } ∧
      evs = [.wrote i frame s.log.length] := by
  simp only [appends, Option.bind_eq_bind, Option.bind_eq_some_iff] at h
  obtain ⟨call, hcall, ⟨log, frame, offset⟩, hwrite, heq⟩ := h
  obtain ⟨rfl, rfl⟩ := AppendCall.write_eq_some.mp hwrite
  cases heq
  exact ⟨frame, offset, hcall, rfl, rfl⟩

theorem step_submit {frame : Bytes}
    (h : appends.step s (.submit frame) = some (t, evs)) :
    wire.IsFrame frame ∧
      t = { s with calls := s.calls ++ [.opening frame] } ∧ evs = [] := by
  simp only [appends] at h
  split at h
  next hframe =>
    cases h
    exact ⟨hframe, rfl, rfl⟩
  next => cases h

/-- Every call that has not returned holds a complete frame. -/
def FramesOnly (s : Appends) : Prop :=
  ∀ call ∈ s.calls, ∀ frame, call.pending = some frame → wire.IsFrame frame

theorem framesOnly_init (log : Bytes) : (init log).FramesOnly := by
  intro call hcall
  cases hcall

/-- Replacing a call by one with the same frame, or with none. -/
theorem FramesOnly.set {call call' : AppendCall} {i : ℕ}
    (hs : s.FramesOnly) (hcall : s.calls[i]? = some call)
    (hpending : ∀ frame, call'.pending = some frame →
      call.pending = some frame) (log : Bytes) :
    FramesOnly { log, calls := s.calls.set i call' } := by
  intro c hc frame hframe
  rcases List.mem_or_eq_of_mem_set hc with hc | rfl
  · exact hs c hc frame hframe
  · exact hs call (List.mem_of_getElem? hcall) frame (hpending frame hframe)

theorem FramesOnly.step (hs : s.FramesOnly)
    (h : appends.step s a = some (t, evs)) : t.FramesOnly := by
  cases a with
  | submit frame =>
      obtain ⟨hframe, rfl, -⟩ := step_submit h
      intro call hcall f hf
      rw [List.mem_append, List.mem_singleton] at hcall
      rcases hcall with hcall | rfl
      · exact hs call hcall f hf
      · cases hf
        exact hframe
  | tell i =>
      obtain ⟨frame, hcall, rfl, -⟩ := step_tell h
      refine FramesOnly.set hs hcall ?_ _
      intro f hf
      exact hf
  | write i =>
      obtain ⟨frame, offset, hcall, rfl, -⟩ := step_write h
      refine FramesOnly.set hs hcall ?_ _
      intro f hf
      cases hf

theorem FramesOnly.run (hs : s.FramesOnly) (h : appends.Reaches s tr t) :
    t.FramesOnly :=
  h.invariant (I := fun _ t => t.FramesOnly) hs
    fun _ _ _ _ _ ht _ hstep => ht.step hstep

/-- The frames written during a trace, in order. -/
def written (tr : List AppendEvent) : List Bytes :=
  tr.filterMap fun
    | .wrote _ frame _ => some frame
    | .told .. => none

theorem written_append (tr tr' : List AppendEvent) :
    written (tr ++ tr') = written tr ++ written tr' :=
  List.filterMap_append

/-- A step appends the frames it writes, and nothing else, to the log. -/
theorem log_step (hs : s.FramesOnly)
    (h : appends.step s a = some (t, evs)) :
    t.log = s.log ++ (written evs).flatten ∧
      ∀ f ∈ written evs, wire.IsFrame f := by
  cases a with
  | submit frame =>
      obtain ⟨-, rfl, rfl⟩ := step_submit h
      simp [written]
  | tell i =>
      obtain ⟨frame, -, rfl, rfl⟩ := step_tell h
      simp [written]
  | write i =>
      obtain ⟨frame, offset, hcall, rfl, rfl⟩ := step_write h
      have hframe := hs _ (List.mem_of_getElem? hcall) frame rfl
      simpa [written] using hframe

theorem log_run (hs : s.FramesOnly) (h : appends.Reaches s tr t) :
    t.log = s.log ++ (written tr).flatten ∧
      ∀ f ∈ written tr, wire.IsFrame f := by
  induction h with
  | nil => simp [written]
  | snoc hrun _ hstep ih =>
      obtain ⟨hlog, hframes⟩ := ih
      obtain ⟨hlog', hframes'⟩ := log_step (hs.run hrun) hstep
      rw [written_append]
      refine ⟨?_, ?_⟩
      · rw [hlog', hlog, List.flatten_append, List.append_assoc]
      · intro f hf
        rw [List.mem_append] at hf
        exact hf.elim (hframes f) (hframes' f)

/-- A call between its two steps stays there until it returns. -/
theorem opened_step {i : ℕ} {frame : Bytes} {offset : ℕ}
    (hs : s.calls[i]? = some (.opened frame offset) ∨
      ∃ offset, s.calls[i]? = some (.returned offset))
    (h : appends.step s a = some (t, evs)) :
    t.calls[i]? = some (.opened frame offset) ∨
      ∃ offset, t.calls[i]? = some (.returned offset) := by
  have hlt : i < s.calls.length := by
    rcases hs with hs | ⟨_, hs⟩ <;> exact (List.getElem?_eq_some_iff.mp hs).1
  cases a with
  | submit f =>
      obtain ⟨-, rfl, -⟩ := step_submit h
      simpa only [List.getElem?_append_left hlt] using hs
  | tell j =>
      obtain ⟨f, hj, rfl, -⟩ := step_tell h
      by_cases hij : j = i
      · subst hij
        rcases hs with hs | ⟨_, hs⟩ <;> rw [hs] at hj <;> cases hj
      · simpa only [List.getElem?_set_ne hij] using hs
  | write j =>
      obtain ⟨f, o, hj, rfl, -⟩ := step_write h
      by_cases hij : j = i
      · subst hij
        exact Or.inr ⟨o, by simp [hlt]⟩
      · simpa only [List.getElem?_set_ne hij] using hs

theorem opened_run {i : ℕ} {frame : Bytes} {offset : ℕ}
    (hs : s.calls[i]? = some (.opened frame offset))
    (h : appends.Reaches s tr t) :
    t.calls[i]? = some (.opened frame offset) ∨
      ∃ offset, t.calls[i]? = some (.returned offset) :=
  h.invariant (I := fun _ t => t.calls[i]? = some (.opened frame offset) ∨
      ∃ offset, t.calls[i]? = some (.returned offset))
    (Or.inl hs) fun _ _ _ _ _ ht _ hstep => opened_step ht hstep

/-- The offset with which a call comes to its write is the length that the
log had at its `tell`. -/
theorem offset_eq_of_tell {i : ℕ} {frame : Bytes} {offset : ℕ}
    {told : List AppendEvent}
    (htell : appends.step s (.tell i) = some (t, told))
    (hbetween : appends.Reaches t tr u)
    (hopened : u.calls[i]? = some (.opened frame offset)) :
    offset = s.log.length ∧ t.log = s.log := by
  obtain ⟨f, hcall, rfl, -⟩ := step_tell htell
  have hlt := (List.getElem?_eq_some_iff.mp hcall).1
  have hset : (s.calls.set i (.opened f s.log.length))[i]? =
      some (.opened f s.log.length) := by
    simp [hlt]
  rcases opened_run hset hbetween with h | ⟨o, h⟩
  · rw [hopened, Option.some.injEq, AppendCall.opened.injEq] at h
    exact ⟨h.2, rfl⟩
  · rw [hopened] at h
    cases h

/-- Whether some call writes during a trace. -/
def Writes (tr : List AppendEvent) : Prop :=
  ∃ i frame start, AppendEvent.wrote i frame start ∈ tr

theorem writes_iff (tr : List AppendEvent) : Writes tr ↔ written tr ≠ [] := by
  constructor
  · rintro ⟨i, frame, start, hmem⟩ hnil
    have hframe : frame ∈ written tr :=
      List.mem_filterMap.mpr ⟨_, hmem, rfl⟩
    rw [hnil] at hframe
    cases hframe
  · intro hne
    obtain ⟨frame, hframe⟩ := List.exists_mem_of_ne_nil _ hne
    obtain ⟨event, hmem, hevent⟩ := List.mem_filterMap.mp hframe
    cases event with
    | wrote i f start => exact ⟨i, f, start, hmem⟩
    | told => cases hevent

theorem length_flatten_eq_zero_iff {fs : List Bytes}
    (hfs : ∀ f ∈ fs, wire.IsFrame f) : fs.flatten.length = 0 ↔ fs = [] := by
  have hle := length_le_length_flatten hfs
  constructor
  · intro h
    exact List.length_eq_zero_iff.mp (by omega)
  · rintro rfl
    rfl

/-- A replay from the start of a frame yields that frame first, whatever the
log holds in front of it and behind it. -/
theorem replayFrom_start {frame : Bytes} (hframe : wire.IsFrame frame)
    (front later : Bytes) :
    ∃ frames replayEnd,
      replayFrom (front ++ frame ++ later) front.length =
        some (frame :: frames, replayEnd) := by
  have hseek : seekAccepts (front ++ frame ++ later) front.length = true := by
    apply seekAccepts_of_le
    simp only [List.length_append]
    omega
  have hreplay := replayFrom_eq hseek
  rw [List.append_assoc, List.drop_left, Framing.parse_cons hframe] at hreplay
  rw [List.append_assoc]
  exact ⟨_, _, hreplay⟩

/-- The bookmark of an append, in any interleaving of any number of calls: the
call returns the start of its own frame, and at every later time a replay from
there yields that frame first, exactly when no call has written between its
two steps. -/
theorem bookmark_iff {log : Bytes} {s₁ s₂ s₃ s₄ s₅ : Appends} {i : ℕ}
    {tr₁ tr₂ tr₃ told wrote : List AppendEvent}
    (hbefore : appends.Reaches (init log) tr₁ s₁)
    (htell : appends.step s₁ (.tell i) = some (s₂, told))
    (hbetween : appends.Reaches s₂ tr₂ s₃)
    (hwrite : appends.step s₃ (.write i) = some (s₄, wrote))
    (hafter : appends.Reaches s₄ tr₃ s₅) :
    ∃ frame start offset, wrote = [.wrote i frame start] ∧
      s₄.calls[i]? = some (.returned offset) ∧
      ((offset = start ∧ ∃ frames replayEnd,
          replayFrom s₅.log offset = some (frame :: frames, replayEnd)) ↔
        ¬Writes tr₂) := by
  have hs₂ := ((framesOnly_init log).run hbefore).step htell
  have hs₃ := hs₂.run hbetween
  have hs₄ := hs₃.step hwrite
  obtain ⟨hlog₃, hframes⟩ := log_run hs₂ hbetween
  obtain ⟨hlog₅, -⟩ := log_run hs₄ hafter
  obtain ⟨frame, offset, hcall, rfl, rfl⟩ := step_write hwrite
  obtain ⟨hoffset, hlog₂⟩ := offset_eq_of_tell htell hbetween hcall
  have hlt := (List.getElem?_eq_some_iff.mp hcall).1
  have hframe : wire.IsFrame frame :=
    hs₃ _ (List.mem_of_getElem? hcall) frame rfl
  have hstart : offset = s₃.log.length ↔ ¬Writes tr₂ := by
    rw [writes_iff, not_not, ← length_flatten_eq_zero_iff hframes, hlog₃,
      hlog₂, hoffset, List.length_append]
    omega
  refine ⟨frame, s₃.log.length, offset, rfl, by simp [hlt], ?_⟩
  rw [← hstart]
  constructor
  · exact And.left
  · rintro rfl
    refine ⟨rfl, ?_⟩
    rw [hlog₅]
    exact replayFrom_start hframe _ _

/-- Of two calls that both read the end of the file before either writes, the
first one to write returns a true bookmark. -/
theorem bookmark_first :
    let first : Message :=
      { command := cmdPublish, topicId := 1, priority := 0, payload := [65] }
    let second : Message := { first with payload := [66] }
    ∃ frames replayEnd, replayFrom (first.frame ++ second.frame) 0 =
      some (first.frame :: frames, replayEnd) := by
  intro first second
  have hbefore : appends.Reaches (init []) []
      { log := [], calls := [.opening first.frame, .opening second.frame] } :=
    System.exec_run [.submit first.frame, .submit second.frame] (by decide)
  have htell : appends.step
      { log := [], calls := [.opening first.frame, .opening second.frame] }
      (.tell 0) = some
        ({ log := [], calls := [.opened first.frame 0, .opening second.frame] },
          [.told 0 0]) := by
    decide
  have hbetween : appends.Reaches
      { log := [], calls := [.opened first.frame 0, .opening second.frame] }
      [.told 1 0]
      { log := []
        calls := [.opened first.frame 0, .opened second.frame 0] } :=
    System.exec_run [.tell 1] (by decide)
  have hwrite : appends.step
      { log := [], calls := [.opened first.frame 0, .opened second.frame 0] }
      (.write 0) = some
        ({ log := first.frame
           calls := [.returned 0, .opened second.frame 0] },
          [.wrote 0 first.frame 0]) := by
    decide
  have hafter : appends.Reaches
      { log := first.frame, calls := [.returned 0, .opened second.frame 0] }
      [.wrote 1 second.frame 11]
      { log := first.frame ++ second.frame
        calls := [.returned 0, .returned 0] } :=
    System.exec_run [.write 1] (by decide)
  obtain ⟨frame, start, offset, hwrote, hreturned, hiff⟩ :=
    bookmark_iff hbefore htell hbetween hwrite hafter
  cases hwrote
  cases hreturned
  exact (hiff.mpr (by rintro ⟨_, _, _, h⟩; simp at h)).2

/-- Two calls that both read the end of the file before either writes: the
second one to write returns the start of the other frame. -/
theorem bookmark_stale :
    let first : Message :=
      { command := cmdPublish, topicId := 1, priority := 0, payload := [65] }
    let second : Message := { first with payload := [66] }
    ∃ tr s, appends.Reaches (init []) tr s ∧
      s.calls[1]? = some (.returned 0) ∧
      AppendEvent.wrote 1 second.frame 11 ∈ tr ∧
      replayFrom s.log 0 =
        some ([first.frame, second.frame], .finished 22) ∧
      first.frame ≠ second.frame := by
  intro first second
  refine ⟨[.told 0 0, .told 1 0, .wrote 0 first.frame 0,
      .wrote 1 second.frame 11],
    { log := first.frame ++ second.frame
      calls := [.returned 0, .returned 0] }, ?_, ?_⟩
  · exact System.exec_run [.submit first.frame, .submit second.frame,
      .tell 0, .tell 1, .write 0, .write 1] (by decide)
  · decide

end Appends

end SentinelHub.Broker
