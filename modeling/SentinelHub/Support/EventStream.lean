import Mathlib.Data.Finset.Insert
import Mathlib.Data.List.TakeWhile

/-!
# Event streams

The format `text/event-stream`, and the parser of an `EventSource`: it reads
one character after the other, and hands over a message at every empty line.
The fields `id` and `retry` have no part in what the messages are and are left
out, and so is a byte order mark.
-/

namespace SentinelHub.Support.EventStream

/-- The line that is being read, and what the lines since the last empty line
have said. -/
structure State where
  line : List Char
  afterReturn : Bool
  data : List Char
  event : List Char
  deriving DecidableEq, Repr

namespace State

def init : State where
  line := []
  afterReturn := false
  data := []
  event := []

variable (p : State)

def field (name value : List Char) : State :=
  if name = "data".toList then { p with data := p.data ++ value ++ ['\n'] }
  else if name = "event".toList then { p with event := value }
  else p

/-- The end of an empty line: the data without the last newline, if there are
any and the event has no other name. -/
def dispatch : State × Option (List Char) :=
  ({ p with data := [], event := [] },
    if p.data ≠ [] ∧ (p.event = [] ∨ p.event = "message".toList) then
      some p.data.dropLast
    else none)

/-- One leading space is not part of a value. -/
def dropSpace : List Char → List Char
  | [] => []
  | c :: value => if c = ' ' then value else c :: value

/-- The end of a line. -/
def endLine : State × Option (List Char) :=
  let name := p.line.takeWhile fun c => c ≠ ':'
  let value := dropSpace (p.line.drop (name.length + 1))
  if p.line = [] then p.dispatch
  else if name = [] then ({ p with line := [] }, none)
  else ({ p.field name value with line := [] }, none)

/-- One character, and the message that it completes. -/
def feed (c : Char) : State × Option (List Char) :=
  if c = '\n' then
    if p.afterReturn then ({ p with afterReturn := false }, none)
    else p.endLine
  else if c = '\r' then { p with afterReturn := true }.endLine
  else ({ p with line := p.line ++ [c], afterReturn := false }, none)

/-- The messages in a part of a stream. -/
def read (p : State) : List Char → State × List (List Char)
  | [] => (p, [])
  | c :: text =>
      let (p', message) := p.feed c
      let (p'', messages) := read p' text
      (p'', message.toList ++ messages)

end State

def dataField : List Char :=
  "data: ".toList

/-- A message as a server writes it. -/
def frame (message : List Char) : List Char :=
  dataField ++ message ++ ['\n', '\n']

/-- The message has no line break. -/
def OneLine (message : List Char) : Prop :=
  '\n' ∉ message ∧ '\r' ∉ message

instance (message : List Char) : Decidable (OneLine message) :=
  inferInstanceAs (Decidable (_ ∧ _))

theorem oneLine_nil : OneLine [] :=
  ⟨List.not_mem_nil, List.not_mem_nil⟩

theorem oneLine_append {text text' : List Char} (h : OneLine text)
    (h' : OneLine text') : OneLine (text ++ text') :=
  ⟨List.not_mem_append h.1 h'.1, List.not_mem_append h.2 h'.2⟩

theorem oneLine_cons {c : Char} {text : List Char} (hc : c ≠ '\n' ∧ c ≠ '\r')
    (h : OneLine text) : OneLine (c :: text) :=
  ⟨List.not_mem_cons_of_ne_of_not_mem (Ne.symm hc.1) h.1,
    List.not_mem_cons_of_ne_of_not_mem (Ne.symm hc.2) h.2⟩

theorem oneLine_flatMap {α : Type*} {f : α → List Char} {items : List α}
    (h : ∀ item ∈ items, OneLine (f item)) : OneLine (items.flatMap f) := by
  refine ⟨?_, ?_⟩
  · intro hmem
    obtain ⟨item, hitem, hc⟩ := List.mem_flatMap.mp hmem
    exact (h item hitem).1 hc
  · intro hmem
    obtain ⟨item, hitem, hc⟩ := List.mem_flatMap.mp hmem
    exact (h item hitem).2 hc

open State

variable {p : State} {message text : List Char}

/-- A stream can be read in parts. -/
theorem read_append (p : State) (text rest : List Char) :
    p.read (text ++ rest) =
      (((p.read text).1.read rest).1,
        (p.read text).2 ++ ((p.read text).1.read rest).2) := by
  induction text generalizing p with
  | nil => rfl
  | cons c text ih =>
      rw [List.cons_append, State.read, State.read]
      simp only [ih, List.append_assoc]

/-- Reading within a line. -/
theorem read_line (hline : OneLine text) (hp : p.afterReturn = false) :
    p.read text = ({ p with line := p.line ++ text }, []) := by
  induction text generalizing p with
  | nil => rw [State.read, List.append_nil]
  | cons c text ih =>
      obtain ⟨hnewline, hreturn⟩ := hline
      rw [List.mem_cons, not_or] at hnewline hreturn
      have hfeed : p.feed c = ({ p with line := p.line ++ [c] }, none) := by
        rw [feed, if_neg (Ne.symm hnewline.1), if_neg (Ne.symm hreturn.1), hp]
      have hrest := ih (p := { p with line := p.line ++ [c] })
        ⟨hnewline.2, hreturn.2⟩ hp
      rw [State.read, hfeed]
      simp only [hrest, List.append_assoc, List.singleton_append,
        Option.toList_none, List.append_nil]

/-- The end of a line of data. -/
theorem feed_data (message : List Char) :
    feed ⟨dataField ++ message, false, [], []⟩ '\n' =
      (⟨[], false, message ++ ['\n'], []⟩, none) := by
  have hne : dataField ++ message ≠ [] := List.cons_ne_nil _ _
  have hname : (dataField ++ message).takeWhile (fun c => c ≠ ':') =
      "data".toList := rfl
  have hvalue : dropSpace ((dataField ++ message).drop
      ("data".toList.length + 1)) = message := rfl
  have hdata : "data".toList ≠ [] := List.cons_ne_nil _ _
  rw [feed, if_pos rfl, if_neg Bool.false_ne_true, endLine]
  simp only [hname, hvalue]
  rw [if_neg hne, if_neg hdata, field, if_pos rfl]
  rfl

/-- The empty line behind it. -/
theorem feed_empty (message : List Char) :
    feed ⟨[], false, message ++ ['\n'], []⟩ '\n' = (.init, some message) := by
  have hdata : message ++ ['\n'] ≠ [] :=
    List.append_ne_nil_of_right_ne_nil _ (List.cons_ne_nil _ _)
  rw [feed, if_pos rfl, if_neg Bool.false_ne_true, endLine]
  simp only [if_true]
  rw [dispatch, if_pos ⟨hdata, Or.inl rfl⟩, List.dropLast_concat]
  rfl

/-- A message is read as it was written. -/
theorem read_frame (hmessage : OneLine message) :
    State.init.read (frame message) = (.init, [message]) := by
  have hhead : OneLine dataField := by
    refine ⟨?_, ?_⟩ <;> decide
  have hend : State.read ⟨dataField ++ message, false, [], []⟩
      ['\n', '\n'] = (.init, [message]) := by
    rw [State.read, feed_data]
    simp only [State.read, feed_empty]
    rfl
  rw [frame, read_append, read_append, read_line hhead rfl,
    read_line hmessage rfl]
  exact congrArg (fun r => (r.1, r.2)) hend

/-- What a server writes is read as it was written. -/
theorem read_frames {messages : List (List Char)}
    (h : ∀ message ∈ messages, OneLine message) :
    State.init.read (messages.flatMap frame) = (.init, messages) := by
  induction messages with
  | nil => rfl
  | cons message messages ih =>
      rw [List.forall_mem_cons] at h
      rw [List.flatMap_cons, read_append, read_frame h.1, ih h.2,
        List.singleton_append]

/-- Of a stream that has come in part, the messages are the first ones. -/
theorem read_isPrefix {messages : List (List Char)}
    (h : ∀ message ∈ messages, OneLine message)
    (htext : text <+: messages.flatMap frame) :
    (State.init.read text).2 <+: messages := by
  obtain ⟨rest, hrest⟩ := htext
  have hread := read_frames h
  rw [← hrest, read_append] at hread
  exact ⟨_, congrArg Prod.snd hread⟩

end SentinelHub.Support.EventStream
