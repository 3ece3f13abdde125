import SentinelHub.Broker.Protocol

/-!
# The event log

`broker/storage.py`: an append-only file of complete wire frames.  This
module holds the sequential reading of the code: opening the log, appending,
and the replay of a file that does not change meanwhile.  The batch reader
keeps the source's bookkeeping (a file position, a local offset and the list
of frames with the offset behind each), and it is shown to read exactly the
frames that the wire framing finds behind the requested offset.

The replay of a file that grows between two read calls is in
`SentinelHub.Broker.Replay`.
-/

namespace SentinelHub.Broker

open SentinelHub.Support

/-! ## The write path -/

/-- `EventLog.__init__`: an existing file is left as it is, a missing one is
created empty. -/
def EventLog.init (file : Option Bytes) : Bytes :=
  match file with
  | none => []
  | some content => content

/-- `_sync_append` with nothing else running: the new content, and the offset
read with `f.tell()` after opening the file in append mode. -/
def EventLog.syncAppend (content frame : Bytes) : Bytes × ℕ :=
  (content ++ frame, content.length)

/-- An append of `frame` that stops after `n` bytes. -/
def EventLog.tornAppend (content frame : Bytes) (n : ℕ) : Bytes :=
  content ++ frame.take n

/-! ## The read path -/

/-- Frames read in one call of `_sync_read_batch`. -/
def replayBatchSize : ℕ := 50

/-- Whether `f.seek(offset)` is accepted.  On a file below `2 ^ 63` bytes,
which is every file there can be, this is `offset < 2 ^ 63`. -/
def seekAccepts (content : Bytes) (offset : ℕ) : Bool :=
  decide (offset < 2 ^ 63) || decide (offset ≤ content.length)

/-- `f.read(n)` at a file position: short at the end of the file. -/
def readAt (content : Bytes) (pos n : ℕ) : Bytes :=
  (content.drop pos).take n

/-- The loop of `_sync_read_batch`, with the number of iterations left, the
file position and the local `offset`. -/
def readFrames (content : Bytes) : ℕ → ℕ → ℕ → List (Bytes × ℕ)
  | 0, _, _ => []
  | room + 1, pos, offset =>
      let headerData := readAt content pos headerSize
      if headerData.length < headerSize then []
      else
        let payloadLen := (unpackHeader headerData).payloadLength
        let payloadData :=
          readAt content (pos + headerData.length) payloadLen
        if payloadData.length < payloadLen then []
        else
          let frame := headerData ++ payloadData
          (frame, offset + frame.length) ::
            readFrames content room
              (pos + headerData.length + payloadData.length)
              (offset + frame.length)

/-- Read up to `maxFrames` frames starting at `offset`. -/
def syncReadBatch (content : Bytes) (offset maxFrames : ℕ) :
    Except PyError (List (Bytes × ℕ)) :=
  if seekAccepts content offset then
    .ok (readFrames content maxFrames offset offset)
  else
    .error (.valueError "cannot fit 'int' into an offset-sized integer")

/-- How a replay ends: with the offset of its last, empty batch, or with the
exception of a batch read. -/
inductive ReplayEnd
  | finished (offset : ℕ)
  | raised (error : PyError)
  deriving DecidableEq, Repr

/-- `for frame, next_offset in results: ... offset = next_offset`. -/
def offsetAfter (offset : ℕ) (results : List (Bytes × ℕ)) : ℕ :=
  results.foldl (fun _ result => result.2) offset

/-- The `while True` loop of `_async_reader` on an unchanging file: the frames
yielded and the end of the loop, or `none` if `fuel` batches are not enough. -/
def asyncReader (content : Bytes) (batchSize : ℕ) :
    ℕ → ℕ → Option (List Bytes × ReplayEnd)
  | 0, _ => none
  | fuel + 1, offset =>
      match syncReadBatch content offset batchSize with
      | .error error => some ([], .raised error)
      | .ok results =>
          if results.isEmpty then some ([], .finished offset)
          else
            (asyncReader content batchSize fuel
              (offsetAfter offset results)).map fun (frames, replayEnd) =>
                (results.map Prod.fst ++ frames, replayEnd)

/-- Yield every stored frame starting from `offset`.  Every batch but the last
one advances by at least a frame, so the file's own length is fuel enough. -/
def replayFrom (content : Bytes) (offset : ℕ) :
    Option (List Bytes × ReplayEnd) :=
  asyncReader content replayBatchSize (content.length + 1) offset

/-! ## Reading one frame -/

/-- A header read at some position, and the payload read behind it, make up
the first frame there, or there is no complete frame. -/
theorem payload_short_iff {s header : Bytes} (hlen : header.length = headerSize)
    (hpre : header <+: s) :
    ((s.drop headerSize).take (unpackHeader header).payloadLength).length <
        (unpackHeader header).payloadLength ↔
      ¬wire.HasFrame s := by
  obtain ⟨t, rfl⟩ := hpre
  have htake : (header ++ t).take headerSize = header := List.take_left' hlen
  have hframe : wire.frameLength (header ++ t) =
      headerSize + (unpackHeader header).payloadLength := by
    rw [wire_frameLength, ← unpackHeader_take, htake]
  have hdrop : (header ++ t).drop headerSize = t := List.drop_left' hlen
  have hlength : (header ++ t).length = headerSize + t.length := by
    rw [List.length_append, hlen]
  rw [Framing.HasFrame, hframe, hdrop, hlength, List.length_take,
    wire_headerSize]
  simp only [headerSize]
  omega

/-- Header and payload together are the frame that the header announces. -/
theorem header_append_payload {s header : Bytes}
    (hlen : header.length = headerSize) (hpre : header <+: s) :
    header ++ (s.drop headerSize).take (unpackHeader header).payloadLength =
      s.take (wire.frameLength s) := by
  obtain ⟨t, rfl⟩ := hpre
  have htake : (header ++ t).take headerSize = header := List.take_left' hlen
  have hframe : wire.frameLength (header ++ t) =
      headerSize + (unpackHeader header).payloadLength := by
    rw [wire_frameLength, ← unpackHeader_take, htake]
  rw [hframe, List.take_add, htake]

theorem not_hasFrame_of_header_short {s : Bytes}
    (h : (s.take headerSize).length < headerSize) : ¬wire.HasFrame s := by
  intro hs
  have hle := hs.1
  rw [wire_headerSize] at hle
  rw [List.length_take] at h
  simp only [headerSize] at h
  omega

/-! ## A batch reads the frames behind its offset -/

/-- Frames paired with the offset behind each of them. -/
def withOffsets : ℕ → List Bytes → List (Bytes × ℕ)
  | _, [] => []
  | offset, frame :: frames =>
      (frame, offset + frame.length) ::
        withOffsets (offset + frame.length) frames

@[simp] theorem map_fst_withOffsets (offset : ℕ) (frames : List Bytes) :
    (withOffsets offset frames).map Prod.fst = frames := by
  induction frames generalizing offset with
  | nil => rfl
  | cons frame frames ih => simp [withOffsets, ih]

@[simp] theorem length_withOffsets (offset : ℕ) (frames : List Bytes) :
    (withOffsets offset frames).length = frames.length := by
  rw [← List.length_map (f := Prod.fst), map_fst_withOffsets]

theorem withOffsets_append (offset : ℕ) (frames frames' : List Bytes) :
    withOffsets offset (frames ++ frames') =
      withOffsets offset frames ++
        withOffsets (offset + frames.flatten.length) frames' := by
  induction frames generalizing offset with
  | nil => simp [withOffsets]
  | cons frame frames ih => simp [withOffsets, ih, Nat.add_assoc]

/-- The outer offset ends up behind the last frame of the batch. -/
@[simp] theorem offsetAfter_withOffsets (offset start : ℕ)
    (frames : List Bytes) (h : offset = start) :
    offsetAfter offset (withOffsets start frames) =
      start + frames.flatten.length := by
  induction frames generalizing offset start with
  | nil => simpa [offsetAfter, withOffsets] using h
  | cons frame frames ih =>
      have htail := ih (start + frame.length) (start + frame.length) rfl
      rw [List.flatten_cons, List.length_append, ← Nat.add_assoc, ← htail]
      rfl

/-- The loop of a batch reads the first frames of the wire framing. -/
theorem readFrames_eq (content : Bytes) (room pos offset : ℕ) :
    readFrames content room pos offset =
      withOffsets offset ((wire.parse (content.drop pos)).take room) := by
  induction room generalizing pos offset with
  | zero => rfl
  | succ room ih =>
      rw [readFrames]
      by_cases hheader : (readAt content pos headerSize).length < headerSize
      · rw [if_pos hheader, Framing.parse_of_not_hasFrame
          (not_hasFrame_of_header_short hheader)]
        rfl
      · have hlen : (readAt content pos headerSize).length = headerSize := by
          have hle := List.length_take_le headerSize (content.drop pos)
          rw [readAt] at hheader ⊢
          omega
        have hpre : readAt content pos headerSize <+: content.drop pos :=
          List.take_prefix _ _
        have hpayload : ∀ n, readAt content
            (pos + (readAt content pos headerSize).length) n =
              ((content.drop pos).drop headerSize).take n := by
          intro n
          rw [readAt, hlen, List.drop_drop]
        rw [if_neg hheader]
        simp only [hpayload]
        by_cases hshort : (((content.drop pos).drop headerSize).take
            (unpackHeader (readAt content pos headerSize)).payloadLength).length
              < (unpackHeader (readAt content pos headerSize)).payloadLength
        · rw [if_pos hshort, Framing.parse_of_not_hasFrame
            ((payload_short_iff hlen hpre).mp hshort)]
          rfl
        · have hframe : wire.HasFrame (content.drop pos) := by
            by_contra h
            exact hshort ((payload_short_iff hlen hpre).mpr h)
          rw [if_neg hshort, Nat.add_assoc pos, ← List.length_append,
            header_append_payload hlen hpre, ih,
            Framing.parse_of_hasFrame hframe, List.take_succ_cons, withOffsets]
          have hdrop : content.drop (pos + ((content.drop pos).take
              (wire.frameLength (content.drop pos))).length) =
                (content.drop pos).drop
                  (wire.frameLength (content.drop pos)) := by
            rw [List.drop_drop, List.length_take, Nat.min_eq_left hframe.2]
          rw [hdrop]

theorem syncReadBatch_eq {content : Bytes} {offset : ℕ}
    (hseek : seekAccepts content offset = true) (maxFrames : ℕ) :
    syncReadBatch content offset maxFrames =
      .ok (withOffsets offset
        ((wire.parse (content.drop offset)).take maxFrames)) := by
  rw [syncReadBatch, if_pos hseek, readFrames_eq]

/-! ## A replay reads all frames behind its offset -/

theorem seekAccepts_of_le {content : Bytes} {offset : ℕ}
    (h : offset ≤ content.length) : seekAccepts content offset = true := by
  simp [seekAccepts, h]

/-- The offset behind all frames that a file holds from `offset` on. -/
def endOfFrames (content : Bytes) (offset : ℕ) : ℕ :=
  offset + (wire.parse (content.drop offset)).flatten.length

/-- Behind a batch that was read, the file still takes a seek. -/
theorem seekAccepts_after {content : Bytes} {offset : ℕ}
    {frames : List Bytes} (hseek : seekAccepts content offset = true)
    (hpre : frames <+: wire.parse (content.drop offset)) :
    seekAccepts content (offset + frames.flatten.length) = true := by
  have hflat : frames.flatten <+: content.drop offset := by
    obtain ⟨later, hlater⟩ := hpre
    refine List.IsPrefix.trans ?_ (wire.flatten_parse_isPrefix _)
    rw [← hlater, List.flatten_append]
    exact List.prefix_append _ _
  have hle := hflat.length_le
  rw [List.length_drop] at hle
  by_cases hpos : offset ≤ content.length
  · exact seekAccepts_of_le (by omega)
  · have hzero : frames.flatten.length = 0 := by omega
    rwa [hzero, Nat.add_zero]

/-- With more fuel than frames to read, the replay yields all of them. -/
theorem asyncReader_eq {content : Bytes} {batchSize : ℕ}
    (hbatch : 0 < batchSize) {fuel offset : ℕ}
    (hseek : seekAccepts content offset = true)
    (hfuel : (wire.parse (content.drop offset)).length < fuel) :
    asyncReader content batchSize fuel offset =
      some (wire.parse (content.drop offset),
        .finished (endOfFrames content offset)) := by
  induction fuel generalizing offset with
  | zero => omega
  | succ fuel ih =>
      let batch := (wire.parse (content.drop offset)).take batchSize
      have hpre : batch <+: wire.parse (content.drop offset) :=
        List.take_prefix _ _
      have hlater := Framing.parse_drop_flatten hpre
      rw [List.drop_drop] at hlater
      have hsplit : batch ++ (wire.parse (content.drop offset)).drop
          batch.length = wire.parse (content.drop offset) := by
        obtain ⟨later, hlater⟩ := hpre
        rw [← hlater, List.drop_left]
      rw [asyncReader, syncReadBatch_eq hseek]
      by_cases hnil : wire.parse (content.drop offset) = []
      · simp [hnil, withOffsets, endOfFrames]
      · have hpos : 0 < batch.length := by
          have := List.length_pos_iff.mpr hnil
          simp only [batch, List.length_take]
          omega
        have hempty : (withOffsets offset batch).isEmpty = false := by
          rw [List.isEmpty_eq_false_iff, ← List.length_pos_iff,
            length_withOffsets]
          exact hpos
        have hle := hpre.length_le
        have hnext := ih (seekAccepts_after hseek hpre) (by
          rw [hlater, List.length_drop]
          omega)
        have hend : endOfFrames content (offset + batch.flatten.length) =
            endOfFrames content offset := by
          rw [endOfFrames, endOfFrames, hlater, Nat.add_assoc,
            ← List.length_append, ← List.flatten_append, hsplit]
        rw [hlater, hend] at hnext
        simp only [batch] at hempty hnext hsplit
        simp only [hempty, offsetAfter_withOffsets, hnext, hsplit,
          Bool.false_eq_true, if_false, Option.map_some, map_fst_withOffsets]

/-- A file holds fewer frames than bytes. -/
theorem length_le_length_flatten {frames : List Bytes}
    (hframes : ∀ f ∈ frames, wire.IsFrame f) :
    frames.length ≤ frames.flatten.length := by
  induction frames with
  | nil => rfl
  | cons frame frames ih =>
      have hpos := (hframes frame (List.mem_cons_self ..)).length_pos
      have htail := ih fun f hf => hframes f (List.mem_cons_of_mem _ hf)
      rw [List.flatten_cons, List.length_append, List.length_cons]
      omega

/-- `replay_from` on an unchanging file yields exactly the frames behind the
requested offset. -/
theorem replayFrom_eq {content : Bytes} {offset : ℕ}
    (hseek : seekAccepts content offset = true) :
    replayFrom content offset =
      some (wire.parse (content.drop offset),
        .finished (endOfFrames content offset)) := by
  refine asyncReader_eq (by decide) hseek ?_
  have hle := length_le_length_flatten
    (Framing.isFrame_of_mem_parse (F := wire) (s := content.drop offset))
  have hpre := (Framing.flatten_parse_isPrefix (F := wire)
    (content.drop offset)).length_le
  rw [List.length_drop] at hpre
  omega

end SentinelHub.Broker
