import SentinelHub.Dashboard.Events

/-!
# The replays of the dashboard

`trigger_time_travel` asks the broker for a replay on a connection of its own
and broadcasts what arrives on it.  What arrives is any sequence of bytes, and
it can stop at any place; nothing is assumed of what the broker sends.  The
loop need not end, so it is given a number of rounds.
-/

namespace SentinelHub.Dashboard

open Support Broker

/-! ## Reading from a connection -/

/-- Why a read does not go on: the end of the stream, an `OSError` such as
`ConnectionResetError`, the timeout of two seconds, or another exception. -/
inductive ReadStop
  | closed
  | reset
  | timeout
  | raised
  deriving DecidableEq, Repr

/-- What a read finds next. -/
inductive Arrival
  | byte (b : UInt8)
  | stop (how : ReadStop)
  deriving DecidableEq, Repr

/-- `reader.readexactly(n)`, from the position `pos` on. -/
def receive (arrivals : ℕ → Arrival) : ℕ → ℕ → Except ReadStop Bytes
  | 0, _ => .ok []
  | n + 1, pos =>
      match arrivals pos with
      | .byte b => (receive arrivals n (pos + 1)).map (b :: ·)
      | .stop how => .error how

/-- The `except` branches of `_read_one`; the timeout is that of `wait_for`
around it. -/
def onReadStop : ReadStop → Except ReadStop (Option (BrokerFrame × ℕ))
  | .closed => .ok none
  | .reset => .ok none
  | .timeout => .error .timeout
  | .raised => .error .raised

/-- `asyncio.wait_for(_read_one(reader), timeout=2.0)`: a frame and the position
behind it, or `none` on disconnect. -/
def awaitOne (arrivals : ℕ → Arrival) (pos : ℕ) :
    Except ReadStop (Option (BrokerFrame × ℕ)) :=
  match receive arrivals headerSize pos with
  | .error how => onReadStop how
  | .ok header =>
      match decodeHeader header with
      | .error _ => .error .raised
      | .ok fields =>
          match receive arrivals fields.payloadLength (pos + headerSize) with
          | .error how => onReadStop how
          | .ok payload =>
              .ok (some ({ cmd := fields.command
                           tid := fields.topicId
                           pri := fields.priority
                           payload
                           header },
                pos + headerSize + fields.payloadLength))

/-! ## The replay -/

/-- `max_replay`. -/
def maxReplay : ℕ := 500

/-- The event of a frame, or `none` where the loop goes on with the next one. -/
def replayEvent (frame : BrokerFrame) : Option Event :=
  if frame.tid = topicHash "broker/metrics" then none
  else do
    let topic ← topicName frame.tid
    some (.timeTravelLog topic frame.pri (Utf8.decodeReplace frame.payload)
      frame.rawHex)

/-- At most `rounds` rounds of the loop: the events it broadcasts and the value
of `replayed` behind it, or `none` if it has not ended. -/
def replayLoop (arrivals : ℕ → Arrival) : ℕ → ℕ → ℕ → Option (List Event × ℕ)
  | 0, _, _ => none
  | rounds + 1, pos, replayed =>
      if maxReplay ≤ replayed then some ([], replayed)
      else
        match awaitOne arrivals pos with
        | .error _ => some ([], replayed)
        | .ok none => some ([], replayed)
        | .ok (some (frame, pos)) =>
            match replayEvent frame with
            | none => replayLoop arrivals rounds pos replayed
            | some event =>
                (replayLoop arrivals rounds pos (replayed + 1)).map
                  fun (events, replayed) => (event :: events, replayed)

/-- What the broker does with the connection: it refuses it, or it accepts it,
and then `writer.drain()` behind the request returns or raises. -/
inductive ReplayConnection
  | refused
  | accepted (drains : Bool) (arrivals : ℕ → Arrival)

/-- The frames that are written to the broker, and the events that are
broadcast. -/
structure ReplayRun where
  wrote : List Bytes
  events : List Event
  deriving Repr

/-- `struct.pack("!Q", offset)` and `encode(...)`. -/
def replayRequest (offset : ℤ) : Except PyError Bytes := do
  let payload ← packUInt 8 offset
  encode cmdTimeTravel (topicHash "home/fire") 0 payload

/-- `trigger_time_travel`, or `none` if it has not ended after `rounds` rounds
of its loop. -/
def triggerTimeTravel (rounds : ℕ) (offset : ℤ)
    (connection : ReplayConnection) : Option ReplayRun :=
  if offset < 0 then some ⟨[], [.timeTravelDone 0]⟩
  else
    match connection with
    | .refused => some ⟨[], []⟩
    | .accepted drains arrivals =>
        match replayRequest offset with
        | .error _ => some ⟨[], []⟩
        | .ok frame =>
            if drains then
              (replayLoop arrivals rounds 0 0).map fun (events, replayed) =>
                ⟨[frame], events ++ [.timeTravelDone replayed]⟩
            else some ⟨[frame], []⟩

/-! ## The two models of `_read_one` -/

variable {arrivals : ℕ → Arrival} {n pos k : ℕ} {bytes stream : Bytes}
  {how : ReadStop}

/-- A byte string, and then the end of the stream. -/
def arrivalsOf (stream : Bytes) (i : ℕ) : Arrival :=
  match stream[i]? with
  | some b => .byte b
  | none => .stop .closed

theorem receive_arrivalsOf (stream : Bytes) (n pos : ℕ) :
    receive (arrivalsOf stream) n pos =
      if stream.length < pos + n ∧ 0 < n then .error .closed
      else .ok ((stream.drop pos).take n) := by
  induction n generalizing pos with
  | zero => simp [receive]
  | succ n ih =>
      by_cases hpos : pos < stream.length
      · have hget : stream[pos]? = some stream[pos] :=
          List.getElem?_eq_getElem hpos
        have hdrop : stream.drop pos = stream[pos] :: stream.drop (pos + 1) :=
          List.drop_eq_getElem_cons hpos
        simp only [receive, arrivalsOf, hget, ih (pos + 1), hdrop,
          List.take_succ_cons]
        by_cases hshort : stream.length < pos + (n + 1)
        · have htail : stream.length < pos + 1 + n ∧ 0 < n := by omega
          rw [if_pos htail, if_pos ⟨hshort, Nat.succ_pos n⟩]
          rfl
        · rw [if_neg (by omega), if_neg (by omega)]
          rfl
      · have hget : stream[pos]? = none :=
          List.getElem?_eq_none (not_lt.mp hpos)
        simp only [receive, arrivalsOf, hget]
        rw [if_pos (by omega)]

/-- On a stream that ends, the reader does what `_read_one` does on its
bytes. -/
theorem awaitOne_arrivalsOf (stream : Bytes) :
    awaitOne (arrivalsOf stream) 0 =
      match readOne stream with
      | .error _ => .error .raised
      | .ok none => .ok none
      | .ok (some (frame, rest)) =>
          .ok (some (frame, stream.length - rest.length)) := by
  by_cases hshort : stream.length < headerSize
  · have hheader : receive (arrivalsOf stream) headerSize 0 =
        .error .closed := by
      rw [receive_arrivalsOf, if_pos ⟨by omega, by decide⟩]
    have hnone : readOne stream = .ok none := by
      simp only [readOne, readExactly, if_pos hshort]
    simp only [awaitOne, hheader, onReadStop, hnone]
  · obtain ⟨header, tail, rfl, hlen⟩ := exists_header (not_lt.mp hshort)
    have hheader : receive (arrivalsOf (header ++ tail)) headerSize 0 =
        .ok header := by
      rw [receive_arrivalsOf, if_neg (by omega), List.drop_zero,
        List.take_left' hlen]
    have hdecode : decodeHeader header = .ok (unpackHeader header) := by
      rw [decodeHeader, if_neg (by omega), unpackHeader_take]
    have hpayload : receive (arrivalsOf (header ++ tail))
        (unpackHeader header).payloadLength (0 + headerSize) =
          if tail.length < (unpackHeader header).payloadLength then
            .error .closed
          else .ok (tail.take (unpackHeader header).payloadLength) := by
      rw [receive_arrivalsOf, Nat.zero_add, List.drop_left' hlen,
        List.length_append, hlen]
      by_cases hlong : tail.length < (unpackHeader header).payloadLength
      · rw [if_pos hlong, if_pos (by omega)]
      · rw [if_neg hlong, if_neg (by omega)]
    rw [readOne_header hlen]
    simp only [awaitOne, hheader, hdecode, hpayload]
    by_cases hlong : tail.length < (unpackHeader header).payloadLength
    · simp only [if_pos hlong, onReadStop]
    · simp only [if_neg hlong, List.length_append, List.length_drop, hlen]
      congr 3
      omega

/-! ## The loop -/

theorem eq_log_of_replayEvent {frame : BrokerFrame} {event : Event}
    (h : replayEvent frame = some event) :
    ∃ topic priority payload hex,
      event = .timeTravelLog topic priority payload hex := by
  rw [replayEvent] at h
  split at h
  · cases h
  · obtain ⟨topic, -, hevent⟩ := Option.bind_eq_some_iff.mp h
    exact ⟨_, _, _, _, (Option.some.inj hevent).symm⟩

/-- The events that say how a replay ended: one `time_travel_done` event behind
`time_travel_log` events, with their number. -/
def ReportsEnd (events : List Event) : Prop :=
  ∃ logs : List Event, events = logs ++ [.timeTravelDone logs.length] ∧
    ∀ event ∈ logs, ∃ topic priority payload hex,
      event = .timeTravelLog topic priority payload hex

variable {rounds replayed : ℕ} {events : List Event} {offset : ℤ}
  {connection : ReplayConnection} {run : ReplayRun}

/-- What has been counted is what has been broadcast. -/
theorem replayLoop_counts {last : ℕ}
    (h : replayLoop arrivals rounds pos replayed = some (events, last)) :
    last = replayed + events.length ∧
      ∀ event ∈ events, ∃ topic priority payload hex,
        event = .timeTravelLog topic priority payload hex := by
  induction rounds generalizing pos replayed events last with
  | zero => cases h
  | succ rounds ih =>
      have hstop : some (([] : List Event), replayed) = some (events, last) →
          last = replayed + events.length ∧
            ∀ event ∈ events, ∃ topic priority payload hex,
              event = .timeTravelLog topic priority payload hex := by
        intro heq
        cases heq
        exact ⟨rfl, nofun⟩
      rw [replayLoop] at h
      split at h
      · exact hstop h
      · split at h
        · exact hstop h
        · exact hstop h
        next frame pos' _ =>
          split at h
          · exact ih h
          next event hevent =>
            obtain ⟨⟨events', last'⟩, hrest, heq⟩ :=
              Option.map_eq_some_iff.mp h
            cases heq
            obtain ⟨hlast, hlogs⟩ := ih hrest
            refine ⟨by rw [hlast, List.length_cons]; omega, ?_⟩
            intro e he
            rcases List.mem_cons.mp he with rfl | he
            · exact eq_log_of_replayEvent hevent
            · exact hlogs e he

/-- Bytes that have been received are bytes that have arrived. -/
theorem not_stop_of_receive (h : receive arrivals n pos = .ok bytes)
    (hk : arrivals k = .stop how) : k < pos ∨ pos + n ≤ k := by
  induction n generalizing pos bytes with
  | zero => omega
  | succ n ih =>
      rw [receive] at h
      split at h
      next b hb =>
        cases hrest : receive arrivals n (pos + 1) with
        | error how' =>
            rw [hrest] at h
            cases h
        | ok rest =>
            have hne : k ≠ pos := by
              rintro rfl
              rw [hk] at hb
              cases hb
            have hlater := ih hrest
            omega
      · cases h

theorem awaitOne_forward {frame : BrokerFrame} {pos' : ℕ}
    (h : awaitOne arrivals pos = .ok (some (frame, pos')))
    (hk : arrivals k = .stop how) (hle : pos ≤ k) : pos < pos' ∧ pos' ≤ k := by
  have hnever : ∀ how', onReadStop how' ≠ .ok (some (frame, pos')) := by
    intro how' heq
    cases how' <;> cases heq
  rw [awaitOne] at h
  split at h
  · exact absurd h (hnever _)
  next header hheader =>
    split at h
    · cases h
    next fields _ =>
      split at h
      · exact absurd h (hnever _)
      next payload hpayload =>
        have h₁ := not_stop_of_receive hheader hk
        have h₂ := not_stop_of_receive hpayload hk
        have hpos : 0 < headerSize := by decide
        cases h
        omega

/-- If the bytes stop somewhere, the loop ends. -/
theorem replayLoop_ends (hk : arrivals k = .stop how) (hle : pos ≤ k)
    (hrounds : k < pos + rounds) (replayed : ℕ) :
    ∃ events last,
      replayLoop arrivals rounds pos replayed = some (events, last) := by
  induction rounds generalizing pos replayed with
  | zero => omega
  | succ rounds ih =>
      rw [replayLoop]
      split
      · exact ⟨_, _, rfl⟩
      · split
        · exact ⟨_, _, rfl⟩
        · exact ⟨_, _, rfl⟩
        next frame pos' hread =>
          obtain ⟨hlt, hle'⟩ := awaitOne_forward hread hk hle
          split
          · exact ih hle' (by omega) replayed
          · obtain ⟨events, last, hrest⟩ :=
              ih hle' (by omega) (replayed + 1)
            rw [hrest]
            exact ⟨_, _, rfl⟩

/-! ## What a replay reports -/

theorem replayRequest_eq_ok_iff :
    (∃ frame, replayRequest offset = .ok frame) ↔
      0 ≤ offset ∧ offset < 2 ^ 64 := by
  have hpow : (256 : ℤ) ^ 8 = 2 ^ 64 := by
    rw [show (256 : ℤ) = 2 ^ 8 by rfl, ← pow_mul]
  constructor
  · rintro ⟨frame, h⟩
    rw [replayRequest, packUInt, hpow] at h
    by_contra hrange
    rw [if_neg hrange] at h
    cases h
  · rintro ⟨hnonneg, hlt⟩
    have hlen : (bigEndian 8 offset.toNat).length < 2 ^ 32 :=
      (length_bigEndian 8 _).trans_lt (by decide)
    obtain ⟨frame, hframe⟩ :=
      exists_encode cmdTimeTravel "home/fire" (by decide) hlen
    refine ⟨frame, ?_⟩
    rw [replayRequest, Client.packUInt_eight hnonneg hlt, Client.ok_bind,
      hframe]

/-- The replay ends whenever the bytes of the broker stop. -/
theorem triggerTimeTravel_ends (offset : ℤ)
    (h : ∀ drains arrivals, connection = .accepted drains arrivals →
      ∃ k how, arrivals k = .stop how) :
    ∃ rounds run, triggerTimeTravel rounds offset connection = some run := by
  cases connection with
  | refused =>
      refine ⟨0, ?_⟩
      rw [triggerTimeTravel]
      split
      · exact ⟨_, rfl⟩
      · exact ⟨_, rfl⟩
  | accepted drains arrivals =>
      obtain ⟨k, how, hk⟩ := h drains arrivals rfl
      have hrounds : k < 0 + (k + 1) := by omega
      obtain ⟨events, last, hloop⟩ :=
        replayLoop_ends hk (Nat.zero_le k) hrounds 0
      refine ⟨k + 1, ?_⟩
      rw [triggerTimeTravel]
      split
      · exact ⟨_, rfl⟩
      · split
        · exact ⟨_, rfl⟩
        · rw [hloop]
          split
          · exact ⟨_, rfl⟩
          · exact ⟨_, rfl⟩

theorem not_reportsEnd_nil : ¬ReportsEnd [] := by
  rintro ⟨logs, heq, -⟩
  exact absurd heq.symm (List.append_ne_nil_of_right_ne_nil _ nofun)

/-- How a replay can end: at once, without an answer of the broker, or behind
the loop. -/
theorem triggerTimeTravel_eq_some
    (h : triggerTimeTravel rounds offset connection = some run) :
    (offset < 0 ∧ run.events = [.timeTravelDone 0]) ∨
    (0 ≤ offset ∧ run.events = [] ∧
      ¬(offset < 2 ^ 64 ∧ ∃ arrivals, connection = .accepted true arrivals)) ∨
    (offset < 2 ^ 64 ∧ ∃ arrivals events last,
      connection = .accepted true arrivals ∧
        replayLoop arrivals rounds 0 0 = some (events, last) ∧
          run.events = events ++ [.timeTravelDone last]) := by
  rw [triggerTimeTravel.eq_def] at h
  by_cases hneg : offset < 0
  · rw [if_pos hneg] at h
    cases h
    exact Or.inl ⟨hneg, rfl⟩
  · rw [if_neg hneg] at h
    have hnonneg : 0 ≤ offset := not_lt.mp hneg
    cases connection with
    | refused =>
        cases h
        refine Or.inr (Or.inl ⟨hnonneg, rfl, ?_⟩)
        rintro ⟨-, arrivals, heq⟩
        cases heq
    | accepted drains arrivals =>
        dsimp only at h
        split at h
        next hrequest =>
          -- the offset does not fit
          cases h
          refine Or.inr (Or.inl ⟨hnonneg, rfl, ?_⟩)
          rintro ⟨hlt, -⟩
          obtain ⟨frame, hframe⟩ :=
            replayRequest_eq_ok_iff.mpr ⟨hnonneg, hlt⟩
          rw [hrequest] at hframe
          cases hframe
        next frame hrequest =>
          have hlt := (replayRequest_eq_ok_iff.mp ⟨frame, hrequest⟩).2
          cases drains with
          | true =>
              obtain ⟨⟨events, last⟩, hloop, heq⟩ :=
                Option.map_eq_some_iff.mp h
              cases heq
              exact Or.inr (Or.inr ⟨hlt, arrivals, events, last, rfl, hloop,
                rfl⟩)
          | false =>
              cases h
              refine Or.inr (Or.inl ⟨hnonneg, rfl, ?_⟩)
              rintro ⟨-, arrivals', heq⟩
              cases heq

/-- A replay broadcasts nothing but the events of replays. -/
theorem isReplay_of_mem (h : triggerTimeTravel rounds offset connection =
    some run) : ∀ event ∈ run.events, event.isReplay = true := by
  intro event he
  rcases triggerTimeTravel_eq_some h with ⟨-, hevents⟩ | ⟨-, hevents, -⟩ |
    ⟨-, arrivals, logs, last, -, hloop, hevents⟩
  · rw [hevents, List.mem_singleton] at he
    rw [he]
    rfl
  · rw [hevents] at he
    cases he
  · rw [hevents] at he
    rcases List.mem_append.mp he with he | he
    · obtain ⟨_, _, _, _, rfl⟩ := (replayLoop_counts hloop).2 event he
      rfl
    · rw [List.mem_singleton.mp he]
      rfl

/-- A replay that ends reports its end, once, behind its events and with their
number, exactly when nothing is asked of the broker, or the broker accepts the
connection and the request. -/
theorem replay_reports_end_iff
    (h : triggerTimeTravel rounds offset connection = some run) :
    ReportsEnd run.events ↔
      offset < 0 ∨
        (offset < 2 ^ 64 ∧
          ∃ arrivals, connection = .accepted true arrivals) := by
  rcases triggerTimeTravel_eq_some h with ⟨hneg, hevents⟩ |
    ⟨hnonneg, hevents, hnot⟩ |
      ⟨hlt, arrivals, logs, last, hconnection, hloop, hevents⟩
  · rw [hevents]
    exact iff_of_true ⟨[], rfl, fun event he => by cases he⟩ (Or.inl hneg)
  · rw [hevents]
    refine iff_of_false not_reportsEnd_nil ?_
    rintro (hneg | haccepted)
    · exact absurd hneg (not_lt.mpr hnonneg)
    · exact hnot haccepted
  · obtain ⟨hlast, hlogs⟩ := replayLoop_counts hloop
    refine iff_of_true ⟨logs, ?_, hlogs⟩ (Or.inr ⟨hlt, arrivals, hconnection⟩)
    rw [hevents, hlast, Nat.zero_add]

/-- The broker replays a fire and closes the connection. -/
theorem replay_reports_end_iff_closed :
    let fire : Bytes :=
      [2, 0x4e, 0xec, 0x8f, 0x19, 3, 0, 0, 0, 4, 70, 73, 82, 69]
    ∃ run, triggerTimeTravel 2 0 (.accepted true (arrivalsOf fire)) =
      some run ∧ run.events.length = 2 ∧ ReportsEnd run.events := by
  intro fire
  have hevents : (triggerTimeTravel 2 0 (.accepted true (arrivalsOf fire))).any
      (fun run => run.events.length = 2) = true := by
    decide +kernel
  obtain ⟨run, hrun, hlength⟩ := (Option.any_eq_true _ _).mp hevents
  refine ⟨run, hrun, of_decide_eq_true hlength, ?_⟩
  exact (replay_reports_end_iff hrun).mpr (Or.inr ⟨by decide, _, rfl⟩)

/-- The broker refuses the connection, and the replay ends without a word. -/
theorem refused_replay_reports_nothing :
    triggerTimeTravel 0 0 .refused = some ⟨[], []⟩ ∧ ¬ReportsEnd [] :=
  ⟨rfl, not_reportsEnd_nil⟩

end SentinelHub.Dashboard
