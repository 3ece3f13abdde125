import SentinelHub.Broker.Storage

/-!
# Replays that meet bytes out of frame

Nothing in the log marks where a frame starts: the reader takes whatever bytes
stand at its offset for a header.  Two situations put it out of frame.  An
append that fails after some of its bytes have reached the file leaves a torn
frame, and neither `EventLog.__init__` nor a later append removes it.  And a
`TIME_TRAVEL` request can name any byte of the log as its offset.

For both this module determines exactly when the replay nevertheless yields
the frames it should: the bytes in front must be continued by the later frames
in such a way that these frames come first after all.
-/

namespace SentinelHub.Broker

open SentinelHub.Support

/-! ## A torn append -/

/-- What can happen to the log afterwards: an append that succeeds, or a new
`EventLog` on the same path. -/
inductive LogOp
  | append (frame : Bytes)
  | reopen
  deriving DecidableEq, Repr

def LogOp.run (content : Bytes) : LogOp → Bytes
  | .append frame => (EventLog.syncAppend content frame).1
  | .reopen => EventLog.init (some content)

def runLogOps (content : Bytes) (ops : List LogOp) : Bytes :=
  ops.foldl LogOp.run content

/-- The frames of the successful appends. -/
def appendedFrames : List LogOp → List Bytes
  | [] => []
  | .append frame :: ops => frame :: appendedFrames ops
  | .reopen :: ops => appendedFrames ops

theorem runLogOps_eq (content : Bytes) (ops : List LogOp) :
    runLogOps content ops = content ++ (appendedFrames ops).flatten := by
  induction ops generalizing content with
  | nil => simp [runLogOps, appendedFrames]
  | cons op ops ih =>
      rw [runLogOps, List.foldl_cons, ← runLogOps, ih]
      cases op with
      | append frame =>
          simp [LogOp.run, EventLog.syncAppend, appendedFrames]
      | reopen => rfl

variable {fs : List Bytes} {frame : Bytes} {n : ℕ} {ops : List LogOp}

/-- The replay of a log with a torn frame in it. -/
theorem replayFrom_tornAppend (hfs : ∀ f ∈ fs, wire.IsFrame f)
    (frame : Bytes) (n : ℕ) (ops : List LogOp) :
    ∃ replayEnd, replayFrom
        (runLogOps (EventLog.tornAppend fs.flatten frame n) ops) 0 =
      some (fs ++ wire.parse (frame.take n ++ (appendedFrames ops).flatten),
        replayEnd) := by
  have hcontent : runLogOps (EventLog.tornAppend fs.flatten frame n) ops =
      fs.flatten ++ (frame.take n ++ (appendedFrames ops).flatten) := by
    rw [runLogOps_eq, EventLog.tornAppend, List.append_assoc]
  have hseek : seekAccepts
      (runLogOps (EventLog.tornAppend fs.flatten frame n) ops) 0 = true :=
    seekAccepts_of_le (Nat.zero_le _)
  have hreplay := replayFrom_eq hseek
  rw [List.drop_zero, hcontent, Framing.parse_flatten_append hfs] at hreplay
  rw [hcontent]
  exact ⟨_, hreplay⟩

/-- Stray bytes followed by frames make a string that begins with these frames
and ends in bytes without a complete frame. -/
def HarmlessBefore (stray : Bytes) (later : List Bytes) : Prop :=
  ∃ rest, stray ++ later.flatten = later.flatten ++ rest ∧
    rest.length = stray.length ∧ ¬wire.HasFrame rest

/-- Stray bytes are harmless exactly when a reader that starts at them reads
the frames behind them all the same. -/
theorem parse_eq_iff_harmlessBefore {later : List Bytes}
    (hlater : ∀ f ∈ later, wire.IsFrame f) (stray : Bytes) :
    wire.parse (stray ++ later.flatten) = later ↔
      HarmlessBefore stray later :=
  Framing.parse_append_flatten_eq_iff stray hlater

/-- A torn append does no harm to the log exactly when its bytes are harmless
in front of the frames appended afterwards. -/
theorem replayFrom_tornAppend_iff (hfs : ∀ f ∈ fs, wire.IsFrame f)
    (hframe : wire.IsFrame frame) (hn : n < frame.length)
    (hops : ∀ f ∈ appendedFrames ops, wire.IsFrame f) :
    (∃ replayEnd, replayFrom
        (runLogOps (EventLog.tornAppend fs.flatten frame n) ops) 0 =
      some (fs ++ appendedFrames ops, replayEnd)) ↔
    n = 0 ∨ appendedFrames ops = [] ∨
      HarmlessBefore (frame.take n) (appendedFrames ops) := by
  obtain ⟨replayEnd, hreplay⟩ := replayFrom_tornAppend hfs frame n ops
  have hparse := parse_eq_iff_harmlessBefore hops (frame.take n)
  rw [hreplay]
  constructor
  · rintro ⟨replayEnd', heq⟩
    rw [Option.some.injEq, Prod.mk.injEq] at heq
    exact Or.inr (Or.inr (hparse.mp (List.append_cancel_left heq.1)))
  · intro h
    refine ⟨replayEnd, ?_⟩
    suffices wire.parse (frame.take n ++ (appendedFrames ops).flatten) =
        appendedFrames ops by rw [this]
    rcases h with rfl | hnil | hharmless
    · rw [List.take_zero, List.nil_append, Framing.parse_flatten hops]
    · rw [hnil, List.flatten_nil, List.append_nil,
        Framing.parse_of_not_hasFrame (hframe.not_hasFrame_take hn)]
    · exact hparse.mpr hharmless

/-- An append is torn behind the header and made again, and the payload happens
to be such that nothing is lost. -/
theorem replayFrom_tornAppend_reopened :
    let published : Message :=
      { command := cmdPublish, topicId := 1, priority := 0, payload := [65] }
    let torn : Message := { published with payload := [2, 0, 0, 0, 1] }
    ∃ replayEnd, replayFrom
        (runLogOps (EventLog.tornAppend [published.frame].flatten torn.frame 10)
          [.reopen, .append torn.frame]) 0 =
      some ([published.frame] ++ appendedFrames [.reopen, .append torn.frame],
        replayEnd) := by
  intro published torn
  have hpublished : wire.IsFrame published.frame :=
    Message.OnWire.isFrame (by decide)
  have htorn : wire.IsFrame torn.frame :=
    Message.OnWire.isFrame (by decide)
  have hharmless : HarmlessBefore (torn.frame.take 10)
      (appendedFrames [.reopen, .append torn.frame]) :=
    ⟨torn.frame.drop 5, by decide, by decide, by decide⟩
  have hops : ∀ f ∈ appendedFrames [.reopen, .append torn.frame],
      wire.IsFrame f := List.forall_mem_singleton.mpr htorn
  exact (replayFrom_tornAppend_iff (List.forall_mem_singleton.mpr hpublished)
    htorn (by decide) hops).mpr (Or.inr (Or.inr hharmless))

/-- A torn byte that the next frame happens to repeat does no harm. -/
example : HarmlessBefore ((List.replicate 10 0).take 1)
    [List.replicate 10 0] :=
  ⟨[0], by decide, by decide, by decide⟩

/-- Once the header of the torn frame is in the file, a next frame of another
length puts the log out of frame. -/
theorem not_harmlessBefore {next : Bytes} {later : List Bytes}
    (hframe : wire.IsFrame frame) (hn : n < frame.length)
    (hheader : headerSize ≤ n) (hnext : wire.IsFrame next)
    (hlen : next.length ≠ frame.length) :
    ¬HarmlessBefore (frame.take n) (next :: later) := by
  rintro ⟨rest, heq, -, -⟩
  have htake := congrArg wire.frameLength heq
  have hsize : wire.headerSize ≤ (frame.take n).length := by
    rw [wire_headerSize, List.length_take]
    simp only [headerSize] at hheader
    omega
  rw [Framing.frameLength_append hsize,
    ← Framing.frameLength_eq_of_isPrefix (List.take_prefix n frame) hsize,
    List.flatten_cons, List.append_assoc,
    Framing.frameLength_append hnext.1, ← hframe.2, ← hnext.2] at htake
  exact hlen htake.symm

/-- The header of a torn append swallows the frame appended after it. -/
theorem replayFrom_tornAppend_swallows :
    let published : Message :=
      { command := cmdPublish, topicId := 1, priority := 0, payload := [65] }
    let torn : Message := { published with payload := [66, 66, 66, 66, 66] }
    ¬∃ replayEnd, replayFrom
        (runLogOps (EventLog.tornAppend [published.frame].flatten torn.frame 10)
          [.append published.frame]) 0 =
      some ([published.frame] ++ appendedFrames [.append published.frame],
        replayEnd) := by
  intro published torn
  have hreplay : (replayFrom
      (runLogOps (EventLog.tornAppend [published.frame].flatten torn.frame 10)
        [.append published.frame]) 0).map Prod.fst =
      some [published.frame,
        torn.frame.take 10 ++ published.frame.take 5] := by
    decide
  rintro ⟨replayEnd, h⟩
  rw [h] at hreplay
  simp only [Option.map_some] at hreplay
  exact absurd hreplay (by decide)

/-! ## An offset in the middle of a frame -/

/-- `len(msg.payload)` up to which a time-travel request is ignored. -/
def timeTravelOffsetBytes : ℕ := 8

/-- The requested offset, or `none` if the payload is too short for one. -/
def timeTravelOffset (payload : Bytes) : Option ℕ :=
  if payload.length < timeTravelOffsetBytes then none
  else some (ofBigEndian (payload.take 8))

/-- The frames that `_handle_time_travel` writes to a client that takes them
all, on a log that does not change meanwhile.  The topic of the request is not
looked at. -/
def handleTimeTravel (content : Bytes) (msg : Message) : Option (List Bytes) :=
  match timeTravelOffset msg.payload with
  | none => some []
  | some offset => (replayFrom content offset).map Prod.fst

/-- The frames that start at `offset` or later, for frames that lie one behind
the other from `start` on. -/
def framesFrom (offset : ℕ) : ℕ → List Bytes → List Bytes
  | _, [] => []
  | start, frame :: frames =>
      if offset ≤ start then
        frame :: framesFrom offset (start + frame.length) frames
      else
        framesFrom offset (start + frame.length) frames

theorem framesFrom_of_le {offset start : ℕ} (h : offset ≤ start)
    (fs : List Bytes) : framesFrom offset start fs = fs := by
  induction fs generalizing start with
  | nil => rfl
  | cons frame fs ih =>
      rw [framesFrom, if_pos h, ih (h.trans (Nat.le_add_right _ _))]

theorem mem_of_mem_framesFrom {offset start : ℕ} {f : Bytes}
    (h : f ∈ framesFrom offset start fs) : f ∈ fs := by
  induction fs generalizing start with
  | nil => exact h
  | cons frame fs ih =>
      rw [framesFrom] at h
      split at h
      · rw [List.mem_cons] at h ⊢
        exact h.imp_right ih
      · exact List.mem_cons_of_mem _ (ih h)

/-- Behind an offset the log holds what is left of a frame that the offset
cuts, and then the frames from the offset on. -/
theorem drop_eq_append_framesFrom (hfs : ∀ f ∈ fs, wire.IsFrame f)
    {offset start : ℕ} (hstart : start ≤ offset)
    (hoffset : offset ≤ start + fs.flatten.length) :
    ∃ cut, fs.flatten.drop (offset - start) =
        cut ++ (framesFrom offset start fs).flatten ∧
      (cut = [] ↔ wire.Boundary fs.flatten (offset - start)) := by
  induction fs generalizing start with
  | nil =>
      refine ⟨[], ?_, ?_⟩
      · simp [framesFrom]
      · rw [List.flatten_nil, List.length_nil] at hoffset
        rw [show offset - start = 0 by omega]
        exact iff_of_true rfl (Framing.boundary_zero _)
  | cons frame fs ih =>
      have hframe : wire.IsFrame frame := hfs frame (List.mem_cons_self ..)
      have htail : ∀ f ∈ fs, wire.IsFrame f := fun f hf =>
        hfs f (List.mem_cons_of_mem _ hf)
      rw [List.flatten_cons, List.length_append] at hoffset
      rw [List.flatten_cons]
      by_cases hat : offset ≤ start
      · refine ⟨[], ?_, ?_⟩
        · rw [framesFrom_of_le hat, Nat.sub_eq_zero_of_le hat]
          rfl
        · rw [Nat.sub_eq_zero_of_le hat]
          exact iff_of_true rfl (Framing.boundary_zero _)
      · by_cases hinside : offset < start + frame.length
        · refine ⟨frame.drop (offset - start), ?_, ?_⟩
          · rw [framesFrom, if_neg hat, framesFrom_of_le hinside.le,
              List.drop_append_of_le_length (by omega)]
          · have hcut : ¬frame.drop (offset - start) = [] := by
              rw [List.drop_eq_nil_iff]
              omega
            have hfirst : wire.FrameAt (frame ++ fs.flatten) 0 frame :=
              (Framing.boundary_zero _).frameAt hframe
                (List.prefix_append _ _)
            refine iff_of_false hcut fun hboundary => ?_
            have hle := hfirst.end_le_of_lt hboundary (by omega)
            omega
        · obtain ⟨cut, hdrop, hboundary⟩ :=
            ih htail (not_lt.mp hinside) (by omega)
          have hsub : offset - start =
              frame.length + (offset - (start + frame.length)) := by
            omega
          refine ⟨cut, ?_, ?_⟩
          · rw [framesFrom, if_neg hat, hsub, List.drop_append,
              List.drop_eq_nil_of_le (Nat.le_add_right _ _),
              List.nil_append, Nat.add_sub_cancel_left]
            exact hdrop
          · rw [hboundary, hsub, hframe.framed.boundary_append_iff]

/-- A time-travel request replays exactly the appended frames from its offset
on when the offset lies between two frames, and otherwise exactly when what is
left of the frame it cuts is harmless in front of them. -/
theorem handleTimeTravel_iff (hfs : ∀ f ∈ fs, wire.IsFrame f) {offset : ℕ}
    (hoffset : offset ≤ fs.flatten.length) {msg : Message}
    (hmsg : timeTravelOffset msg.payload = some offset) :
    handleTimeTravel fs.flatten msg = some (framesFrom offset 0 fs) ↔
      wire.Boundary fs.flatten offset ∨
        ∃ cut, fs.flatten.drop offset =
            cut ++ (framesFrom offset 0 fs).flatten ∧
          HarmlessBefore cut (framesFrom offset 0 fs) := by
  obtain ⟨cut, hdrop, hboundary⟩ :=
    drop_eq_append_framesFrom hfs (Nat.zero_le offset) (by omega)
  have hlater : ∀ f ∈ framesFrom offset 0 fs, wire.IsFrame f := fun f hf =>
    hfs f (mem_of_mem_framesFrom hf)
  have hparse := parse_eq_iff_harmlessBefore hlater
  rw [Nat.sub_zero] at hdrop hboundary
  have hsent : handleTimeTravel fs.flatten msg = some (framesFrom offset 0 fs) ↔
      HarmlessBefore cut (framesFrom offset 0 fs) := by
    rw [handleTimeTravel, hmsg, ← hparse cut, ← hdrop]
    simp only [replayFrom_eq (seekAccepts_of_le hoffset), Option.map_some,
      Option.some.injEq]
  rw [hsent]
  constructor
  · intro hharmless
    exact Or.inr ⟨cut, hdrop, hharmless⟩
  · rintro (h | ⟨cut', hdrop', hharmless⟩)
    · obtain rfl := hboundary.mpr h
      rw [← hparse, List.nil_append, Framing.parse_flatten hlater]
    · obtain rfl := List.append_cancel_right (hdrop.symm.trans hdrop')
      exact hharmless

/-- From the start of its second frame, a log of two frames replays that
frame. -/
theorem handleTimeTravel_second :
    let published : Message :=
      { command := cmdPublish, topicId := 1, priority := 0, payload := [65] }
    let request : Message :=
      { command := cmdTimeTravel, topicId := 1, priority := 0
        payload := bigEndian 8 11 }
    handleTimeTravel [published.frame, published.frame].flatten request =
      some (framesFrom 11 0 [published.frame, published.frame]) := by
  intro published request
  have hframe : wire.IsFrame published.frame :=
    Message.OnWire.isFrame (by decide)
  have hboundary : wire.Boundary
      [published.frame, published.frame].flatten 11 :=
    ⟨published.frame, hframe.framed, List.prefix_append _ _, rfl⟩
  exact (handleTimeTravel_iff (by simpa using hframe) (by decide)
    (by decide)).mpr (Or.inl hboundary)

/-- A payload that looks like a frame is replayed as one: the offset lies
inside the log, no frame starts there or later, and still one is sent. -/
theorem handleTimeTravel_fabricates :
    let fake : Message :=
      { command := cmdPublish, topicId := 7, priority := 255, payload := [] }
    let published : Message :=
      { command := cmdPublish, topicId := 1, priority := 0
        payload := fake.frame }
    let request : Message :=
      { command := cmdTimeTravel, topicId := 1, priority := 0
        payload := bigEndian 8 10 }
    10 ≤ [published.frame].flatten.length ∧
      handleTimeTravel [published.frame].flatten request =
        some [fake.frame] ∧
      handleTimeTravel [published.frame].flatten request ≠
        some (framesFrom 10 0 [published.frame]) := by
  decide

end SentinelHub.Broker
