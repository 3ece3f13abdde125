import SentinelHub.Broker.Storage

/-!
# Replaying a log that grows

`_async_reader` hands its batches to a thread pool, so the log file can grow
between any two of its read calls.  This module takes the reader apart into
steps that each look at the file once: opening and seeking, one `f.read` of a
header or a payload, and one frame handed to the consumer.

The invariant `Replay.Inv` ties the two offsets and the file position to the
frames already yielded, and it survives growth of the file.  When the reader
finishes, what it has yielded are all the frames that the file of its last
short read held behind the requested offset.  For a file that grows along a
fixed sequence of frames this is the exactness of the replay.
-/

namespace SentinelHub.Broker

open SentinelHub.Support

/-! ## The reader, one file access at a time -/

/-- The variables of `_sync_read_batch` between two calls of `f.read`: the
file position, the local `offset`, the iterations left, the results and the
header read last, if its payload has not been read yet. -/
structure BatchRead where
  pos : ℕ
  offset : ℕ
  room : ℕ
  results : List (Bytes × ℕ)
  headerData : Option Bytes
  deriving DecidableEq, Repr

/-- The next `f.read` of the loop, or the results that the loop returns. -/
def BatchRead.next (content : Bytes) (read : BatchRead) :
    BatchRead ⊕ List (Bytes × ℕ) :=
  match read.headerData with
  | none =>
      match read.room with
      | 0 => .inr read.results
      | room + 1 =>
          let headerData := readAt content read.pos headerSize
          if headerData.length < headerSize then .inr read.results
          else
            .inl { read with
              pos := read.pos + headerData.length
              room
              headerData := some headerData }
  | some headerData =>
      let payloadLen := (unpackHeader headerData).payloadLength
      let payloadData := readAt content read.pos payloadLen
      if payloadData.length < payloadLen then .inr read.results
      else
        let frame := headerData ++ payloadData
        let offset := read.offset + frame.length
        .inl {
          pos := read.pos + payloadData.length
          offset
          room := read.room
          results := read.results ++ [(frame, offset)]
          headerData := none }

/-- Where `_async_reader` stands: about to start a batch, in the middle of
one, handing over the results of one, or at its end. -/
inductive Replay
  | batch (offset : ℕ)
  | reading (offset : ℕ) (read : BatchRead)
  | yielding (offset : ℕ) (results : List (Bytes × ℕ))
  | finished (offset : ℕ)
  | raised (error : PyError)
  deriving DecidableEq, Repr

/-- The variable `offset` of `_async_reader`. -/
def Replay.offset : Replay → ℕ
  | .batch offset => offset
  | .reading offset _ => offset
  | .yielding offset _ => offset
  | .finished offset => offset
  | .raised _ => 0

/-- What `_async_reader` does with the results of a batch. -/
def Replay.afterBatch (offset : ℕ) (results : List (Bytes × ℕ)) : Replay :=
  if results.isEmpty then .finished offset else .yielding offset results

/-- One step that yields no frame. -/
def Replay.advance (content : Bytes) : Replay → Option Replay
  | .batch offset =>
      if seekAccepts content offset then
        some (.reading offset
          { pos := offset
            offset
            room := replayBatchSize
            results := []
            headerData := none })
      else
        some (.raised
          (.valueError "cannot fit 'int' into an offset-sized integer"))
  | .reading offset read =>
      match read.next content with
      | .inl read => some (.reading offset read)
      | .inr results => some (.afterBatch offset results)
  | .yielding offset [] => some (.batch offset)
  | _ => none

/-- `yield frame` and, when the consumer asks again, `offset = next_offset`. -/
def Replay.yieldFrame : Replay → Option (Bytes × Replay)
  | .yielding _ ((frame, nextOffset) :: results) =>
      some (frame, .yielding nextOffset results)
  | _ => none

/-- One step of the reader: the frames yielded (at most one) and the state
afterwards.  A reader at its end stays there. -/
def Replay.step (content : Bytes) (replay : Replay) : List Bytes × Replay :=
  match replay.yieldFrame with
  | some (frame, replay) => ([frame], replay)
  | none => ([], (replay.advance content).getD replay)

/-- `replay_from(offset)` on a file that has the content `file n` when the
reader takes its step `n`: the frames yielded before that step, and where the
reader stands. -/
def replayRun (file : ℕ → Bytes) (offset : ℕ) : ℕ → List Bytes × Replay
  | 0 => ([], .batch offset)
  | n + 1 =>
      let (frames, replay) := replayRun file offset n
      let (yielded, replay) := replay.step (file n)
      (frames ++ yielded, replay)

/-! ## Frames read up to an offset -/

/-- The frames lie in the file from `start` on, and `stop` is the offset
behind them. -/
structure ReadUpTo (content : Bytes) (start : ℕ) (frames : List Bytes)
    (stop : ℕ) : Prop where
  isFrame : ∀ f ∈ frames, wire.IsFrame f
  inFile : frames.flatten <+: content.drop start
  stop_eq : stop = start + frames.flatten.length

variable {content content' : Bytes} {start offset stop : ℕ}
  {frames batch yielded : List Bytes}

theorem drop_isPrefix_drop (h : content <+: content') (n : ℕ) :
    content.drop n <+: content'.drop n := by
  obtain ⟨t, rfl⟩ := h
  rw [List.drop_append]
  exact List.prefix_append _ _

theorem ReadUpTo.mono (h : ReadUpTo content start frames stop)
    (hgrow : content <+: content') : ReadUpTo content' start frames stop :=
  ⟨h.isFrame, h.inFile.trans (drop_isPrefix_drop hgrow start), h.stop_eq⟩

theorem readUpTo_nil (content : Bytes) (start : ℕ) :
    ReadUpTo content start [] start :=
  ⟨by simp, by simp, by simp⟩

/-- The frames read so far are initial frames of the file. -/
theorem ReadUpTo.isPrefix_parse (h : ReadUpTo content start frames stop) :
    frames <+: wire.parse (content.drop start) :=
  Framing.isPrefix_parse h.isFrame h.inFile

theorem ReadUpTo.stop_le (h : ReadUpTo content start frames stop)
    (hne : frames ≠ []) : stop ≤ content.length := by
  have hpos : 0 < frames.flatten.length := by
    obtain ⟨f, hf⟩ := List.exists_mem_of_ne_nil frames hne
    have hlen := (h.isFrame f hf).length_pos
    have hle := (List.sublist_flatten_of_mem hf).length_le
    omega
  have hle := h.inFile.length_le
  rw [List.length_drop] at hle
  rw [h.stop_eq]
  omega

/-- What follows the frames read so far. -/
theorem ReadUpTo.drop_eq (h : ReadUpTo content start frames stop) :
    content.drop start = frames.flatten ++ content.drop stop := by
  obtain ⟨t, ht⟩ := h.inFile
  have hdrop : content.drop stop = t := by
    rw [h.stop_eq, ← List.drop_drop, ← ht, List.drop_left]
  rw [hdrop, ht]

/-- One more frame behind the last one. -/
theorem ReadUpTo.snoc {frame : Bytes}
    (h : ReadUpTo content start frames stop) (hframe : wire.IsFrame frame)
    (hpre : frame <+: content.drop stop) :
    ReadUpTo content start (frames ++ [frame]) (stop + frame.length) := by
  refine ⟨?_, ?_, ?_⟩
  · intro f hf
    rw [List.mem_append, List.mem_singleton] at hf
    rcases hf with hf | rfl
    · exact h.isFrame f hf
    · exact hframe
  · rw [h.drop_eq, List.flatten_append, List.flatten_singleton,
      List.prefix_append_right_inj]
    exact hpre
  · rw [h.stop_eq, List.flatten_append, List.flatten_singleton,
      List.length_append, Nat.add_assoc]

/-- Without a complete frame behind them, the frames read so far are all the
frames of the file. -/
theorem ReadUpTo.eq_parse (h : ReadUpTo content start frames stop)
    (hrest : ¬wire.HasFrame (content.drop stop)) :
    frames = wire.parse (content.drop start) := by
  rw [h.drop_eq, Framing.parse_flatten_append h.isFrame,
    Framing.parse_of_not_hasFrame hrest, List.append_nil]

/-! ## The invariant of a batch -/

/-- The file position is at the local offset, or behind the header read
there. -/
def BatchRead.AtOffset (content : Bytes) (read : BatchRead) : Prop :=
  match read.headerData with
  | none => read.pos = read.offset
  | some headerData =>
      read.pos = read.offset + headerSize ∧
        headerData.length = headerSize ∧
        headerData <+: content.drop read.offset

/-- A batch that started at `offset`, behind the frames `yielded`, and has
read the frames `batch` so far. -/
structure BatchRead.Inv (content : Bytes) (start : ℕ) (yielded : List Bytes)
    (offset : ℕ) (batch : List Bytes) (read : BatchRead) : Prop where
  offset_eq : offset = start + yielded.flatten.length
  results_eq : read.results = withOffsets offset batch
  readUpTo : ReadUpTo content start (yielded ++ batch) read.offset
  atOffset : read.AtOffset content
  room_eq : read.room + batch.length + read.headerData.toList.length =
    replayBatchSize

theorem BatchRead.Inv.mono {read : BatchRead}
    (h : read.Inv content start yielded offset batch)
    (hgrow : content <+: content') :
    read.Inv content' start yielded offset batch := by
  refine ⟨h.offset_eq, h.results_eq, h.readUpTo.mono hgrow, ?_, h.room_eq⟩
  have hat := h.atOffset
  rw [AtOffset] at hat ⊢
  split
  next hnone => simpa only [hnone] using hat
  next header hsome =>
    simp only [hsome] at hat
    exact ⟨hat.1, hat.2.1, hat.2.2.trans (drop_isPrefix_drop hgrow _)⟩

/-- A read of a header leaves the frames as they are. -/
theorem BatchRead.Inv.next_header {read : BatchRead}
    (h : read.Inv content start yielded offset batch)
    (hnone : read.headerData = none) :
    (∃ read', read.next content = .inl read' ∧
      read'.headerData.isSome ∧ read'.offset = read.offset ∧
      read'.Inv content start yielded offset batch) ∨
    (read.next content = .inr (withOffsets offset batch) ∧
      (batch = [] → ¬wire.HasFrame (content.drop read.offset))) := by
  have hat := h.atOffset
  have hroom := h.room_eq
  simp only [AtOffset, hnone] at hat
  simp only [hnone, Option.toList_none, List.length_nil, Nat.add_zero] at hroom
  rw [next]
  simp only [hnone]
  split
  next hzero =>
    right
    refine ⟨by rw [h.results_eq], ?_⟩
    rintro rfl
    rw [hzero] at hroom
    simp [replayBatchSize] at hroom
  next room hsucc =>
    have hpre : readAt content read.pos headerSize <+:
        content.drop read.offset := by
      rw [hat]
      exact List.take_prefix _ _
    by_cases hshort : (readAt content read.pos headerSize).length < headerSize
    · right
      rw [if_pos hshort]
      refine ⟨by rw [h.results_eq], fun _ => ?_⟩
      rw [hat] at hshort
      exact not_hasFrame_of_header_short hshort
    · left
      have hlen : (readAt content read.pos headerSize).length = headerSize :=
        le_antisymm (List.length_take_le _ _) (not_lt.mp hshort)
      rw [if_neg hshort]
      refine ⟨_, rfl, rfl, rfl, h.offset_eq, h.results_eq, h.readUpTo, ?_, ?_⟩
      · exact ⟨by rw [hlen, hat], hlen, hpre⟩
      · simp only [Option.toList_some, List.length_singleton]
        omega

/-- A read of a payload completes the frame whose header was read last. -/
theorem BatchRead.Inv.next_payload {read : BatchRead} {headerData : Bytes}
    (h : read.Inv content start yielded offset batch)
    (hsome : read.headerData = some headerData) :
    (∃ frame read', read.next content = .inl read' ∧
      read'.headerData = none ∧ wire.IsFrame frame ∧
      read'.offset = read.offset + frame.length ∧
      read'.Inv content start yielded offset (batch ++ [frame])) ∨
    (read.next content = .inr (withOffsets offset batch) ∧
      ¬wire.HasFrame (content.drop read.offset)) := by
  have hat := h.atOffset
  have hroom := h.room_eq
  simp only [AtOffset, hsome] at hat
  obtain ⟨hpos, hlen, hpre⟩ := hat
  simp only [hsome, Option.toList_some, List.length_singleton] at hroom
  have hpayload : ∀ n, readAt content read.pos n =
      ((content.drop read.offset).drop headerSize).take n := by
    intro n
    rw [readAt, hpos, List.drop_drop]
  rw [next]
  simp only [hsome, hpayload]
  by_cases hshort : (((content.drop read.offset).drop headerSize).take
      (unpackHeader headerData).payloadLength).length <
        (unpackHeader headerData).payloadLength
  · right
    rw [if_pos hshort]
    exact ⟨by rw [h.results_eq], (payload_short_iff hlen hpre).mp hshort⟩
  · left
    have hframe : wire.HasFrame (content.drop read.offset) := by
      by_contra hno
      exact hshort ((payload_short_iff hlen hpre).mpr hno)
    have hflen := congrArg List.length (header_append_payload hlen hpre)
    rw [List.length_append, hlen] at hflen
    rw [if_neg hshort, header_append_payload hlen hpre]
    have hread := h.readUpTo.snoc hframe.isFrame_take (List.take_prefix _ _)
    have hoff : read.offset = offset + batch.flatten.length := by
      rw [h.readUpTo.stop_eq, h.offset_eq, List.flatten_append,
        List.length_append, Nat.add_assoc]
    refine ⟨_, _, rfl, rfl, hframe.isFrame_take, rfl, h.offset_eq,
      ?_, ?_, ?_, ?_⟩
    · rw [h.results_eq, withOffsets_append, hoff]
      rfl
    · rw [← List.append_assoc]
      exact hread
    · change _ = _
      rw [← hflen, hpos, Nat.add_assoc]
    · simp only [Option.toList_none, List.length_nil, List.length_append,
        List.length_singleton]
      omega

/-! ## The invariant of a replay -/

/-- Frames that begin the frames read so far. -/
theorem ReadUpTo.of_append {later : List Bytes}
    (h : ReadUpTo content start (frames ++ later) stop) :
    ReadUpTo content start frames (start + frames.flatten.length) := by
  refine ⟨fun f hf => h.isFrame f (List.mem_append_left later hf), ?_, rfl⟩
  refine List.IsPrefix.trans ?_ h.inFile
  rw [List.flatten_append]
  exact List.prefix_append _ _

/-- `yielded` are the frames of the file from `start` on, up to the offset of
the reader; in the middle of a batch the results are the frames after them. -/
def Replay.Inv (content : Bytes) (start : ℕ) (yielded : List Bytes) :
    Replay → Prop
  | .batch offset => ReadUpTo content start yielded offset
  | .reading offset read =>
      ∃ batch, read.Inv content start yielded offset batch
  | .yielding offset results =>
      offset = start + yielded.flatten.length ∧
        ∃ batch stop, results = withOffsets offset batch ∧
          ReadUpTo content start (yielded ++ batch) stop
  | .finished offset => ReadUpTo content start yielded offset
  | .raised _ => ∃ offset, ReadUpTo content start yielded offset

namespace Replay

variable {replay replay' : Replay}

theorem inv_start (content : Bytes) (start : ℕ) :
    (Replay.batch start).Inv content start [] :=
  readUpTo_nil content start

/-- Growth of the file keeps the invariant. -/
theorem Inv.mono (h : replay.Inv content start yielded)
    (hgrow : content <+: content') : replay.Inv content' start yielded := by
  cases replay with
  | batch => exact ReadUpTo.mono h hgrow
  | reading =>
      obtain ⟨batch, h⟩ := h
      exact ⟨batch, h.mono hgrow⟩
  | yielding =>
      obtain ⟨hoff, batch, stop, hres, h⟩ := h
      exact ⟨hoff, batch, stop, hres, h.mono hgrow⟩
  | finished => exact ReadUpTo.mono h hgrow
  | raised =>
      obtain ⟨offset, h⟩ := h
      exact ⟨offset, h.mono hgrow⟩

/-- In every state the frames yielded lie consecutively in the file. -/
theorem Inv.readUpTo (h : replay.Inv content start yielded) :
    ReadUpTo content start yielded (start + yielded.flatten.length) := by
  cases replay with
  | batch => exact h.stop_eq ▸ h
  | reading =>
      obtain ⟨batch, h⟩ := h
      exact h.readUpTo.of_append
  | yielding =>
      obtain ⟨-, batch, stop, -, h⟩ := h
      exact h.of_append
  | finished => exact h.stop_eq ▸ h
  | raised =>
      obtain ⟨offset, h⟩ := h
      exact h.stop_eq ▸ h

theorem isEmpty_withOffsets (offset : ℕ) (batch : List Bytes) :
    (withOffsets offset batch).isEmpty = batch.isEmpty := by
  cases batch <;> rfl

/-- What the reader does with a finished batch. -/
theorem inv_afterBatch {read : BatchRead}
    (h : read.Inv content start yielded offset batch) :
    (afterBatch offset (withOffsets offset batch)).Inv content start
      yielded := by
  have hoff := h.offset_eq
  rw [afterBatch, isEmpty_withOffsets]
  cases batch with
  | nil =>
      have hread := h.readUpTo
      rw [List.append_nil] at hread
      exact hoff ▸ hread.stop_eq ▸ hread
  | cons frame batch => exact ⟨hoff, _, _, rfl, h.readUpTo⟩

/-- A step that yields nothing keeps the invariant. -/
theorem Inv.advance (h : replay.Inv content start yielded)
    (hstep : replay.advance content = some replay') :
    replay'.Inv content start yielded := by
  cases replay with
  | batch offset =>
      rw [Replay.advance] at hstep
      split at hstep
      · cases hstep
        refine ⟨[], h.stop_eq, rfl, by rwa [List.append_nil], rfl, rfl⟩
      · cases hstep
        exact ⟨offset, h⟩
  | reading offset read =>
      obtain ⟨batch, h⟩ := h
      rw [Replay.advance] at hstep
      cases hheader : read.headerData with
      | none =>
          rcases h.next_header hheader with
            ⟨read', hnext, -, -, h'⟩ | ⟨hnext, -⟩
          · rw [hnext] at hstep
            cases hstep
            exact ⟨batch, h'⟩
          · rw [hnext] at hstep
            cases hstep
            exact inv_afterBatch h
      | some headerData =>
          rcases h.next_payload hheader with
            ⟨frame, read', hnext, -, -, -, h'⟩ | ⟨hnext, -⟩
          · rw [hnext] at hstep
            cases hstep
            exact ⟨batch ++ [frame], h'⟩
          · rw [hnext] at hstep
            cases hstep
            exact inv_afterBatch h
  | yielding offset results =>
      obtain ⟨hoff, batch, stop, hres, h⟩ := h
      cases results with
      | nil =>
          cases hstep
          exact hoff ▸ h.of_append
      | cons => cases hstep
  | finished => cases hstep
  | raised => cases hstep

/-- A frame handed over is the next frame of the file. -/
theorem Inv.yieldFrame {frame : Bytes}
    (h : replay.Inv content start yielded)
    (hstep : replay.yieldFrame = some (frame, replay')) :
    replay'.Inv content start (yielded ++ [frame]) := by
  cases replay with
  | yielding offset results =>
      obtain ⟨hoff, batch, stop, rfl, h⟩ := h
      cases batch with
      | nil => cases hstep
      | cons frame batch =>
          cases hstep
          refine ⟨?_, batch, stop, rfl, ?_⟩
          · rw [hoff, List.flatten_append, List.flatten_singleton,
              List.length_append, Nat.add_assoc]
          · rwa [List.append_assoc]
  | _ => cases hstep

/-- A frame is handed over at the offset of the reader, behind the frames
before it. -/
theorem Inv.offset_of_yieldFrame {frame : Bytes}
    (h : replay.Inv content start yielded)
    (hstep : replay.yieldFrame = some (frame, replay')) :
    replay.offset = start + yielded.flatten.length := by
  cases replay with
  | yielding offset results => exact h.1
  | _ => cases hstep

theorem eq_nil_of_afterBatch {stop : ℕ}
    (h : afterBatch offset (withOffsets offset batch) = .finished stop) :
    batch = [] ∧ offset = stop := by
  rw [afterBatch, isEmpty_withOffsets] at h
  cases batch with
  | nil =>
      cases h
      exact ⟨rfl, rfl⟩
  | cons => cases h

/-- The reader finishes on a file that holds no further complete frame. -/
theorem Inv.advance_finished (h : replay.Inv content start yielded)
    (hstep : replay.advance content = some (.finished stop)) :
    yielded = wire.parse (content.drop start) := by
  cases replay with
  | batch offset =>
      rw [Replay.advance] at hstep
      split at hstep <;> cases hstep
  | reading offset read =>
      obtain ⟨batch, h⟩ := h
      have hread := h.readUpTo
      suffices batch = [] ∧ ¬wire.HasFrame (content.drop read.offset) by
        obtain ⟨rfl, hrest⟩ := this
        rw [List.append_nil] at hread
        exact hread.eq_parse hrest
      rw [Replay.advance] at hstep
      cases hheader : read.headerData with
      | none =>
          rcases h.next_header hheader with
            ⟨read', hnext, -, -, h'⟩ | ⟨hnext, hrest⟩
          · rw [hnext] at hstep
            cases hstep
          · rw [hnext, Option.some.injEq] at hstep
            have hnil := (eq_nil_of_afterBatch hstep).1
            exact ⟨hnil, hrest hnil⟩
      | some headerData =>
          rcases h.next_payload hheader with
            ⟨frame, read', hnext, -, -, -, h'⟩ | ⟨hnext, hrest⟩
          · rw [hnext] at hstep
            cases hstep
          · rw [hnext, Option.some.injEq] at hstep
            exact ⟨(eq_nil_of_afterBatch hstep).1, hrest⟩
  | yielding offset results =>
      cases results with
      | nil => cases hstep
      | cons => cases hstep
  | finished => cases hstep
  | raised => cases hstep

end Replay

/-! ## Whole replays -/

section Run

variable {file : ℕ → Bytes}

theorem Replay.Inv.step {replay : Replay}
    (h : replay.Inv content start yielded) :
    (replay.step content).2.Inv content start
      (yielded ++ (replay.step content).1) := by
  rw [Replay.step]
  cases hyield : replay.yieldFrame with
  | some result => exact h.yieldFrame hyield
  | none =>
      rw [List.append_nil]
      cases hadvance : replay.advance content with
      | none => exact h
      | some replay' => exact h.advance hadvance

/-- A reader comes to its end without yielding a frame. -/
theorem Replay.step_finished {replay : Replay}
    (hbefore : ¬∃ stop, replay = .finished stop)
    (h : (replay.step content).2 = .finished stop) :
    (replay.step content).1 = [] ∧
      replay.advance content = some (.finished stop) := by
  rw [Replay.step] at h ⊢
  cases hyield : replay.yieldFrame with
  | some result =>
      rw [hyield] at h
      obtain ⟨frame, replay'⟩ := result
      change replay' = _ at h
      subst h
      rcases replay with _ | _ | ⟨_, _ | _⟩ | _ | _ <;> cases hyield
  | none =>
      rw [hyield] at h
      refine ⟨rfl, ?_⟩
      cases hadvance : replay.advance content with
      | none =>
          rw [hadvance] at h
          exact absurd ⟨stop, h⟩ hbefore
      | some replay' =>
          rw [hadvance] at h
          exact congrArg some h

/-- The invariant holds at every moment of a replay of a growing file. -/
theorem replayRun_inv (hgrow : ∀ n, file n <+: file (n + 1)) (start n : ℕ) :
    (replayRun file start n).2.Inv (file n) start
      (replayRun file start n).1 := by
  induction n with
  | zero => exact Replay.inv_start _ _
  | succ n ih => exact ih.step.mono (hgrow n)

theorem isPrefix_of_le (hgrow : ∀ n, file n <+: file (n + 1)) {n m : ℕ}
    (h : n ≤ m) : file n <+: file m := by
  induction m, h using Nat.le_induction with
  | base => exact List.prefix_refl _
  | succ m _ ih => exact ih.trans (hgrow m)

/-- A finished replay does nothing more. -/
theorem replayRun_of_finished {n stop : ℕ}
    (h : (replayRun file start n).2 = .finished stop) {m : ℕ} (hm : n ≤ m) :
    replayRun file start m = replayRun file start n := by
  induction m, hm using Nat.le_induction with
  | base => rfl
  | succ m _ ih =>
      rw [replayRun, ih]
      simp only [h, Replay.step, Replay.yieldFrame, Replay.advance,
        Option.getD_none, List.append_nil]
      exact Prod.ext rfl h.symm

/-- A finished replay has yielded all frames that the file held, behind the
requested offset, at some moment after its last batch began. -/
theorem replayRun_finished (hgrow : ∀ n, file n <+: file (n + 1))
    {n stop : ℕ} (h : (replayRun file start n).2 = .finished stop) :
    ∃ m, (replayRun file start n).1 = wire.parse ((file m).drop start) ∧
      ∀ l offset, (replayRun file start l).2 = .batch offset → l ≤ m := by
  induction n with
  | zero => cases h
  | succ n ih =>
      by_cases hbefore : ∃ stop, (replayRun file start n).2 = .finished stop
      · obtain ⟨stop', hstop⟩ := hbefore
        rw [replayRun_of_finished hstop (Nat.le_succ n)] at h ⊢
        exact ih h
      · have hlater : ∀ l offset,
            (replayRun file start l).2 = .batch offset → l ≤ n := by
          intro l offset hl
          by_contra hlt
          rw [replayRun_of_finished h (by omega), h] at hl
          cases hl
        have hinv := replayRun_inv hgrow start n
        refine ⟨n, ?_, hlater⟩
        rw [replayRun] at h ⊢
        obtain ⟨hnil, hadvance⟩ := Replay.step_finished hbefore h
        simp only [hnil, List.append_nil]
        exact hinv.advance_finished hadvance

/-! ## A replay of a bounded file comes to its end -/

/-- Steps that are still to come while the file stays below `bound` bytes. -/
def Replay.work (bound : ℕ) : Replay → ℕ
  | .batch offset => 8 * (bound - offset) + 4
  | .reading _ read =>
      8 * (bound - read.offset) + 10 * read.results.length +
        (if read.headerData.isNone then 3 else 2)
  | .yielding offset results =>
      8 * (bound - offsetAfter offset results) + results.length + 5
  | .finished _ => 0
  | .raised _ => 0

theorem Replay.work_afterBatch {read : BatchRead}
    (h : read.Inv content start yielded offset batch) (bound : ℕ) :
    (afterBatch offset (withOffsets offset batch)).work bound <
      8 * (bound - read.offset) + 10 * read.results.length + 2 := by
  rw [afterBatch, isEmpty_withOffsets, h.results_eq, length_withOffsets]
  cases batch with
  | nil =>
      simp only [List.isEmpty_nil, if_true, work]
      omega
  | cons frame batch =>
      have hoff : read.offset =
          offset + (frame :: batch).flatten.length := by
        rw [h.readUpTo.stop_eq, h.offset_eq, List.flatten_append,
          List.length_append, Nat.add_assoc]
      simp only [List.isEmpty_cons, Bool.false_eq_true, if_false, work,
        offsetAfter_withOffsets, length_withOffsets, List.length_cons, ← hoff]
      omega

/-- Every step of a reader that is not at its end is progress. -/
theorem Replay.Inv.work_lt {replay : Replay}
    (h : replay.Inv content start yielded) {bound : ℕ}
    (hbound : content.length ≤ bound) :
    (∃ stop, replay = .finished stop) ∨ (∃ error, replay = .raised error) ∨
      (replay.step content).2.work bound < replay.work bound := by
  cases replay with
  | finished stop => exact Or.inl ⟨stop, rfl⟩
  | raised error => exact Or.inr (Or.inl ⟨error, rfl⟩)
  | batch offset =>
      right; right
      simp only [Replay.step, Replay.yieldFrame, Replay.advance]
      split <;> simp [work]
  | reading offset read =>
      right; right
      obtain ⟨batch, h⟩ := h
      simp only [Replay.step, Replay.yieldFrame, Replay.advance]
      cases hheader : read.headerData with
      | none =>
          rcases h.next_header hheader with
            ⟨read', hnext, hsome, hoff, h'⟩ | ⟨hnext, -⟩
          · have hnone' : read'.headerData.isNone = false := by
              rw [← Option.not_isSome, hsome]
              rfl
            simp only [hnext, Option.getD_some, work, hoff, hnone', hheader,
              h.results_eq, h'.results_eq, Option.isNone_none, if_true,
              Bool.false_eq_true, if_false]
            omega
          · simp only [hnext, Option.getD_some]
            refine (work_afterBatch h bound).trans_le ?_
            simp only [work, hheader, Option.isNone_none, if_true]
            omega
      | some headerData =>
          rcases h.next_payload hheader with
            ⟨frame, read', hnext, hnone, hframe, hoff, h'⟩ | ⟨hnext, -⟩
          · have hle := h'.readUpTo.stop_le (by simp)
            have hsize := hframe.headerSize_le
            rw [wire_headerSize] at hsize
            simp only [hnext, Option.getD_some, work, hnone, hheader,
              h.results_eq, h'.results_eq, length_withOffsets,
              List.length_append, List.length_singleton, Option.isNone_none,
              Option.isNone_some, if_true, Bool.false_eq_true, if_false]
            omega
          · simp only [hnext, Option.getD_some]
            refine (work_afterBatch h bound).trans_le ?_
            simp only [work, hheader, Option.isNone_some, Bool.false_eq_true,
              if_false]
            omega
  | yielding offset results =>
      right; right
      cases results with
      | nil =>
          simp [Replay.step, Replay.yieldFrame, Replay.advance, work,
            offsetAfter]
      | cons result results =>
          simp [Replay.step, Replay.yieldFrame, work, offsetAfter]

theorem seekAccepts_mono (hgrow : content <+: content')
    (h : seekAccepts content offset = true) :
    seekAccepts content' offset = true := by
  have hle := hgrow.length_le
  simp only [seekAccepts, Bool.or_eq_true, decide_eq_true_eq] at h ⊢
  omega

/-- A reader whose seeks are accepted at the requested offset never raises. -/
theorem replayRun_ne_raised (hgrow : ∀ n, file n <+: file (n + 1))
    (hseek : ∀ n, seekAccepts (file n) start = true) (n : ℕ)
    (error : PyError) : (replayRun file start n).2 ≠ .raised error := by
  induction n with
  | zero => exact fun h => by cases h
  | succ n ih =>
      intro h
      have hinv := replayRun_inv hgrow start n
      have hseek := hseek n
      rw [replayRun] at h
      generalize replayRun file start n = run at *
      obtain ⟨frames, replay⟩ := run
      change (replay.step (file n)).2 = _ at h
      cases replay with
      | batch offset =>
          have hstop := hinv.stop_eq
          have hpre := ReadUpTo.isPrefix_parse hinv
          have haccept := seekAccepts_after hseek hpre
          rw [← hstop] at haccept
          simp [Replay.step, Replay.yieldFrame, Replay.advance, haccept] at h
      | reading offset read =>
          simp only [Replay.step, Replay.yieldFrame, Replay.advance] at h
          cases hnext : read.next (file n) with
          | inl => simp [hnext] at h
          | inr results =>
              simp only [hnext, Option.getD_some, Replay.afterBatch] at h
              split at h <;> cases h
      | yielding offset results => cases results <;> cases h
      | finished => cases h
      | raised => exact ih h

/-- A replay finishes when the file stops growing. -/
theorem exists_replayRun_finished (hgrow : ∀ n, file n <+: file (n + 1))
    {bound : ℕ} (hbound : ∀ n, (file n).length ≤ bound)
    (hseek : seekAccepts (file 0) start = true) :
    ∃ n stop, (replayRun file start n).2 = .finished stop := by
  have hmono : ∀ n, seekAccepts (file n) start = true := by
    intro n
    induction n with
    | zero => exact hseek
    | succ n ih => exact seekAccepts_mono (hgrow n) ih
  by_contra! hnever
  have hdecrease : ∀ n, (replayRun file start n).2.work bound + n ≤
      (Replay.batch start).work bound := by
    intro n
    induction n with
    | zero => exact le_rfl
    | succ n ih =>
        rcases (replayRun_inv hgrow start n).work_lt (hbound n) with
          ⟨stop, h⟩ | ⟨error, h⟩ | hlt
        · exact absurd h (hnever n stop)
        · exact absurd h (replayRun_ne_raised hgrow hmono n error)
        · change (Replay.step _ _).2.work bound + _ ≤ _
          omega
  have hle := hdecrease ((Replay.batch start).work bound + 1)
  omega

/-- On a file that does not change, the steps of the reader add up to its
sequential reading. -/
theorem replayRun_const (hseek : seekAccepts content start = true) :
    ∃ n stop, (replayRun (fun _ => content) start n).2 = .finished stop ∧
      replayFrom content start =
        some ((replayRun (fun _ => content) start n).1, .finished stop) := by
  have hgrow : ∀ _ : ℕ, content <+: content := fun _ => List.prefix_refl _
  obtain ⟨n, stop, hfinish⟩ : ∃ n stop,
      (replayRun (fun _ => content) start n).2 = .finished stop :=
    exists_replayRun_finished hgrow (fun _ => le_rfl) hseek
  obtain ⟨-, hframes, -⟩ := replayRun_finished hgrow hfinish
  have hinv := replayRun_inv hgrow start n
  rw [hfinish] at hinv
  refine ⟨n, stop, hfinish, ?_⟩
  rw [replayFrom_eq hseek, hframes, hinv.stop_eq, hframes, endOfFrames]

end Run

/-! ## Exactness along a sequence of frames -/

/-- The first `m` frames of a sequence, one behind the other. -/
def logOf (frames : ℕ → Bytes) (m : ℕ) : Bytes :=
  ((List.range m).map frames).flatten

/-- The offset at which frame `i` of a sequence starts. -/
def startOf (frames : ℕ → Bytes) (i : ℕ) : ℕ :=
  (logOf frames i).length

/-- The `k` frames of a sequence from frame `i` on. -/
def segment (frames : ℕ → Bytes) (i k : ℕ) : List Bytes :=
  (List.range' i k).map frames

section Exact

variable {frames : ℕ → Bytes} {file : ℕ → Bytes} {i j k m : ℕ}

@[simp] theorem length_segment (frames : ℕ → Bytes) (i k : ℕ) :
    (segment frames i k).length = k := by
  rw [segment, List.length_map, List.length_range']

theorem isFrame_of_mem_segment (hframes : ∀ j, wire.IsFrame (frames j))
    (i k : ℕ) : ∀ f ∈ segment frames i k, wire.IsFrame f := by
  intro f hf
  rw [segment, List.mem_map] at hf
  obtain ⟨j, -, rfl⟩ := hf
  exact hframes j

theorem segment_add (frames : ℕ → Bytes) (i k l : ℕ) :
    segment frames i (k + l) =
      segment frames i k ++ segment frames (i + k) l := by
  rw [segment, ← List.range'_append_1, List.map_append]
  rfl

/-- A prefix of a segment is a shorter segment. -/
theorem eq_segment_of_isPrefix {fs : List Bytes}
    (h : fs <+: segment frames i k) : fs = segment frames i fs.length := by
  have hle := h.length_le
  rw [length_segment] at hle
  obtain ⟨l, rfl⟩ := Nat.exists_eq_add_of_le hle
  rw [segment_add] at h
  have hlen : fs.length = (segment frames i fs.length).length :=
    (length_segment ..).symm
  exact (List.prefix_of_prefix_length_le h (List.prefix_append _ _)
    hlen.le).eq_of_length hlen

theorem logOf_add (frames : ℕ → Bytes) (i k : ℕ) :
    logOf frames (i + k) =
      logOf frames i ++ (segment frames i k).flatten := by
  rw [logOf, logOf, segment, List.range_eq_range', List.range_eq_range',
    ← List.range'_append_1, Nat.zero_add, List.map_append,
    List.flatten_append]

theorem logOf_mono (h : i ≤ m) : logOf frames i <+: logOf frames m := by
  obtain ⟨k, rfl⟩ := Nat.exists_eq_add_of_le h
  rw [logOf_add]
  exact List.prefix_append _ _

/-- Behind the start of frame `i` a longer log holds the frames from `i`
on. -/
theorem drop_logOf (frames : ℕ → Bytes) (i k : ℕ) :
    (logOf frames (i + k)).drop (startOf frames i) =
      (segment frames i k).flatten := by
  rw [logOf_add, startOf, List.drop_left]

/-- Frames that lie in a prefix of the log, from the start of frame `i` on,
are frame `i` and its successors. -/
theorem ReadUpTo.eq_segment (hframes : ∀ j, wire.IsFrame (frames j))
    (hpre : content <+: logOf frames m)
    (h : ReadUpTo content (startOf frames i) yielded stop) :
    yielded = segment frames i yielded.length := by
  have hlog : content <+: logOf frames (i + m) :=
    hpre.trans (logOf_mono (Nat.le_add_left m i))
  have hread := (h.mono hlog).isPrefix_parse
  rw [drop_logOf, Framing.parse_flatten (isFrame_of_mem_segment hframes i m)]
    at hread
  exact eq_segment_of_isPrefix hread

/-- Every frame from `i` on that is complete in a prefix of the log is among
the frames parsed behind the start of frame `i`. -/
theorem lt_add_length_parse (hframes : ∀ j, wire.IsFrame (frames j))
    (hpre : content <+: logOf frames m)
    (hj : startOf frames (j + 1) ≤ content.length) :
    j < i + (wire.parse (content.drop (startOf frames i))).length := by
  by_cases hij : j < i
  · omega
  · obtain ⟨k, hk⟩ := Nat.exists_eq_add_of_le (not_lt.mp hij)
    have hlog : logOf frames (i + (k + 1)) <+: content := by
      rw [← Nat.add_assoc, ← hk]
      exact List.prefix_of_prefix_length_le
        (logOf_mono (Nat.le_add_right (j + 1) m))
        (hpre.trans (logOf_mono (Nat.le_add_left m (j + 1)))) hj
    have hdrop := drop_isPrefix_drop hlog (startOf frames i)
    rw [drop_logOf] at hdrop
    have hle := (Framing.isPrefix_parse
      (isFrame_of_mem_segment hframes i (k + 1)) hdrop).length_le
    rw [length_segment] at hle
    omega

/-- The replay of a file that grows along a sequence of frames, from the
start of frame `i`: at every moment it has yielded frame `i` and some of its
successors; a finished replay has reached every frame that was complete when
one of its batches began, the last one included; and once the file stops
growing it does finish.  From the end of a file that stays below the offset
it yields nothing. -/
theorem replayRun_exact (hframes : ∀ j, wire.IsFrame (frames j))
    (hgrow : ∀ n, file n <+: file (n + 1))
    (hpre : ∀ n, ∃ m, file n <+: logOf frames m) (i : ℕ) :
    (∀ n, ∃ k, (replayRun file (startOf frames i) n).1 =
      segment frames i k) ∧
    (∀ n stop, (replayRun file (startOf frames i) n).2 = .finished stop →
      ∃ k, (replayRun file (startOf frames i) n).1 = segment frames i k ∧
        ∀ l offset,
          (replayRun file (startOf frames i) l).2 = .batch offset →
          ∀ j, startOf frames (j + 1) ≤ (file l).length → j < i + k) ∧
    (∀ bound, (∀ n, (file n).length ≤ bound) →
      seekAccepts (file 0) (startOf frames i) = true →
      ∃ n stop, (replayRun file (startOf frames i) n).2 =
        .finished stop) ∧
    (∀ offset, (∀ n, (file n).length ≤ offset) →
      ∀ n, (replayRun file offset n).1 = []) := by
  refine ⟨?_, ?_, ?_, ?_⟩
  · intro n
    obtain ⟨m, hm⟩ := hpre n
    exact ⟨_, (replayRun_inv hgrow _ n).readUpTo.eq_segment hframes hm⟩
  · intro n stop hfinish
    obtain ⟨m, hm⟩ := hpre n
    have hsegment :=
      (replayRun_inv hgrow (startOf frames i) n).readUpTo.eq_segment hframes hm
    refine ⟨_, hsegment, ?_⟩
    intro l offset hl j hj
    obtain ⟨last, hparse, hlast⟩ := replayRun_finished hgrow hfinish
    obtain ⟨m', hm'⟩ := hpre last
    have hle : file l <+: file last :=
      isPrefix_of_le hgrow (hlast l offset hl)
    rw [hparse]
    exact lt_add_length_parse hframes hm' (hj.trans hle.length_le)
  · intro bound hbound hseek
    exact exists_replayRun_finished hgrow hbound hseek
  · intro offset hbound n
    have hread := (replayRun_inv hgrow offset n).readUpTo
    have hinFile := hread.inFile
    rw [List.drop_eq_nil_of_le (hbound n), List.prefix_nil] at hinFile
    by_contra hne
    have hle := length_le_length_flatten hread.isFrame
    rw [hinFile] at hle
    exact hne (List.length_eq_zero_iff.mp (Nat.le_zero.mp hle))

/-- Two frames that reach the file byte by byte while they are replayed. -/
theorem replayRun_exact_bytewise :
    let frames : ℕ → Bytes := fun _ =>
      { command := cmdPublish, topicId := 1, priority := 3,
        payload := [7] : Message }.frame
    let file : ℕ → Bytes := fun n => (logOf frames 2).take n
    ∃ n stop, (replayRun file (startOf frames 0) n).2 = .finished stop ∧
      ∃ k, (replayRun file (startOf frames 0) n).1 = segment frames 0 k := by
  intro frames file
  have hgrow : ∀ n, file n <+: file (n + 1) := fun n =>
    List.take_prefix_take_left (Nat.le_succ n)
  have hframes : ∀ j, wire.IsFrame (frames j) := fun _ =>
    Message.OnWire.isFrame (by decide)
  have hpre : ∀ n, ∃ m, file n <+: logOf frames m := fun n =>
    ⟨2, List.take_prefix n _⟩
  obtain ⟨hyield, -, hfinish, -⟩ := replayRun_exact hframes hgrow hpre 0
  obtain ⟨n, stop, hstop⟩ := hfinish 22
    (fun n => (List.length_take_le' n _).trans (by decide)) (by decide)
  exact ⟨n, stop, hstop, hyield n⟩

end Exact

end SentinelHub.Broker
