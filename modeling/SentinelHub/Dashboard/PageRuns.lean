import SentinelHub.Dashboard.Page
import Mathlib.Tactic.Linarith
import Mathlib.Tactic.NormNum
import Mathlib.Algebra.Order.Ring.Rat

/-!
# What a page shows

The lists and the counters of a page are told by the messages it has read, and
the timers neither pile up nor get lost: there is one connection or one timer
that opens it again, a button that has been disabled is enabled again, and the
particles do not become too many.
-/

namespace SentinelHub.Dashboard

open Support EventStream

variable {toFloat : List Char → PyFloat} {coerced : Json → Json → Bool}
  {p p' : Page} {evs tr : List PageEvent} {r : Report} {e : Entry}

/-! ## What a step can be -/

/-- The steps of a connection that are not about messages. -/
inductive Connection.Move (c : Connection) : Connection → PageEvent → Prop
  | opened (hsource : c.source = some .connecting) :
      Move c
        { source := some (.opened .init)
          retries := c.retries
          retryDelay := 1000
          statusDot := "status-dot connected"
          statusText := "Dashboard Server Connected" } .opened
  | failed (source : Source) (hsource : c.source = some source) :
      Move c
        { source := none
          retries := c.retries + 1
          retryDelay := min (c.retryDelay * (3 / 2)) 10000
          statusDot := "status-dot disconnected"
          statusText := "Disconnected — Retrying…" } (.failed c.retryDelay)
  | connecting (hretries : c.retries ≠ 0) :
      Move c { c with source := some .connecting, retries := c.retries - 1 }
        .connecting

/-- The steps of the particles. -/
inductive Particles.Move (p : Particles) : Particles → Prop
  | arrive (hpos : 0 < p.toBroker) :
      Move p { p with
        toBroker := p.toBroker - 1
        fanTimers := p.fanTimers + subs.length }
  | drop (hpos : p.fanTimers ≠ 0) :
      Move p { p with fanTimers := p.fanTimers - 1 }
  | fan (hpos : p.fanTimers ≠ 0) (hfull : p.full = false) :
      Move p { p with
        fanTimers := p.fanTimers - 1
        fromBroker := p.fromBroker + 1 }
  | deliver (hpos : 0 < p.fromBroker) :
      Move p { p with fromBroker := p.fromBroker - 1 }
  | visibility (visible : Bool) : Move p { p with isTabVisible := visible }

/-- The steps of the replay button that are not about messages. -/
inductive ReplayButton.Move (b : ReplayButton) : ReplayButton → Prop
  | click (henabled : b.disabled = false) :
      Move b { b with
        text := .replaying
        disabled := true
        fetches := b.fetches + 1 }
  | fetched (hfetches : b.fetches ≠ 0) :
      Move b { b with
        fetches := b.fetches - 1
        resetTimers := b.resetTimers + 1 }
  | reset (text : ReplayText) (htimers : b.resetTimers ≠ 0)
      (htext : text ≠ .replaying) :
      Move b { b with
        resetTimers := b.resetTimers - 1
        disabled := false
        text }
  | resetText (htimers : b.textTimers ≠ 0) :
      Move b { b with
        text := .replayHistory
        textTimers := b.textTimers - 1 }

/-- The steps of a page. -/
inductive PageStep (toFloat : List Char → PyFloat)
    (coerced : Json → Json → Bool) (p : Page) : Page → List PageEvent → Prop
  | connection (c : Connection) (event : PageEvent)
      (hmove : p.connection.Move c event) :
      PageStep toFloat coerced p { p with connection := c } [event]
  | receive (stream : EventStream.State) (text : List Char)
      (hopen : p.connection.source = some (.opened stream)) :
      PageStep toFloat coerced p
        (((stream.read text).2.filterMap (reportIn toFloat)).foldl
          (fun p r => p.add coerced r)
          { p with connection := { p.connection with
            source := some (.opened (stream.read text).1) } })
        (.received text :: (stream.read text).2.map .message ++
          ((stream.read text).2.filterMap (reportIn toFloat)).map .report)
  | updateQueue (htimer : p.queueUpdateTimer = true) :
      PageStep toFloat coerced p
        { p with
          queueUpdateTimer := false
          queueFeed := p.queueItems.mergeSort fun a b =>
            b.priority ≤ a.priority } []
  | particles (q : Particles) (hmove : p.particles.Move q) :
      PageStep toFloat coerced p { p with particles := q } []
  | button (b : ReplayButton) (hmove : p.button.Move b) :
      PageStep toFloat coerced p { p with button := b } []

theorem Connection.onopen_move {c c' : Connection} (h : c.onopen = some c') :
    c.Move c' .opened := by
  rw [Connection.onopen] at h
  split at h
  next hsource =>
    cases h
    exact .opened hsource
  · cases h

theorem Connection.onerror_move {c c' : Connection} {delay : ℚ}
    (h : c.onerror = some (c', delay)) : c.Move c' (.failed delay) := by
  rw [Connection.onerror] at h
  split at h
  · cases h
  next source hsource =>
    cases h
    exact .failed source hsource

theorem Connection.connectSSE_move {c c' : Connection}
    (h : c.connectSSE = some c') : c.Move c' .connecting := by
  rw [Connection.connectSSE] at h
  split at h
  · cases h
  next hretries =>
    cases h
    exact .connecting hretries

theorem Particles.arrive_move {q q' : Particles} (h : q.arrive = some q') :
    q.Move q' := by
  rw [Particles.arrive] at h
  split at h
  next hpos =>
    cases h
    exact .arrive hpos.2
  · cases h

theorem Particles.fan_move {q q' : Particles} (h : q.fan = some q') :
    q.Move q' := by
  rw [Particles.fan] at h
  split at h
  · cases h
  next hpos =>
    split at h
    · cases h
      exact .drop hpos
    next hfull =>
      cases h
      exact .fan hpos (Bool.eq_false_of_not_eq_true hfull)

theorem Particles.deliver_move {q q' : Particles} (h : q.deliver = some q') :
    q.Move q' := by
  rw [Particles.deliver] at h
  split at h
  next hpos =>
    cases h
    exact .deliver hpos.2
  · cases h

theorem ReplayButton.click_move {b b' : ReplayButton} (h : b.click = some b') :
    b.Move b' := by
  rw [ReplayButton.click] at h
  split at h
  · cases h
  next henabled =>
    cases h
    exact .click (Bool.eq_false_of_not_eq_true henabled)

theorem ReplayButton.fetched_move {b b' : ReplayButton}
    (h : b.fetched = some b') : b.Move b' := by
  rw [ReplayButton.fetched] at h
  split at h
  · cases h
  next hfetches =>
    cases h
    exact .fetched hfetches

theorem ReplayButton.reset_move {b b' : ReplayButton} (h : b.reset = some b') :
    b.Move b' := by
  rw [ReplayButton.reset] at h
  split at h
  · cases h
  next htimers =>
    cases h
    refine .reset _ htimers ?_
    cases b.text with
    | replaying => exact ReplayText.noConfusion
    | replayHistory => exact ReplayText.noConfusion
    | replayed count => exact ReplayText.noConfusion

theorem ReplayButton.resetText_move {b b' : ReplayButton}
    (h : b.resetText = some b') : b.Move b' := by
  rw [ReplayButton.resetText] at h
  split at h
  · cases h
  next htimers =>
    cases h
    exact .resetText htimers

theorem pageStep_of_eq {a : PageAction}
    (h : pageStep toFloat coerced p a = some (p', evs)) :
    PageStep toFloat coerced p p' evs := by
  cases a with
  | onopen =>
      obtain ⟨c, hc, heq⟩ := Option.map_eq_some_iff.mp h
      cases heq
      exact .connection c _ (Connection.onopen_move hc)
  | onerror =>
      obtain ⟨⟨c, delay⟩, hc, heq⟩ := Option.map_eq_some_iff.mp h
      cases heq
      exact .connection c _ (Connection.onerror_move hc)
  | connectSSE =>
      obtain ⟨c, hc, heq⟩ := Option.map_eq_some_iff.mp h
      cases heq
      exact .connection c _ (Connection.connectSSE_move hc)
  | receive text =>
      rw [pageStep] at h
      split at h
      next stream hopen =>
        cases h
        exact .receive stream text hopen
      · cases h
  | updateQueue =>
      obtain ⟨q, hq, heq⟩ := Option.map_eq_some_iff.mp h
      cases heq
      rw [Page.updateQueue] at hq
      split at hq
      next htimer =>
        cases hq
        exact .updateQueue htimer
      · cases hq
  | arrive =>
      obtain ⟨q, hq, heq⟩ := Option.map_eq_some_iff.mp h
      cases heq
      exact .particles q (Particles.arrive_move hq)
  | fan =>
      obtain ⟨q, hq, heq⟩ := Option.map_eq_some_iff.mp h
      cases heq
      exact .particles q (Particles.fan_move hq)
  | deliver =>
      obtain ⟨q, hq, heq⟩ := Option.map_eq_some_iff.mp h
      cases heq
      exact .particles q (Particles.deliver_move hq)
  | visibility visible =>
      cases h
      exact .particles _ (.visibility visible)
  | click =>
      obtain ⟨b, hb, heq⟩ := Option.map_eq_some_iff.mp h
      cases heq
      exact .button b (ReplayButton.click_move hb)
  | fetched =>
      obtain ⟨b, hb, heq⟩ := Option.map_eq_some_iff.mp h
      cases heq
      exact .button b (ReplayButton.fetched_move hb)
  | reset =>
      obtain ⟨b, hb, heq⟩ := Option.map_eq_some_iff.mp h
      cases heq
      exact .button b (ReplayButton.reset_move hb)
  | resetText =>
      obtain ⟨b, hb, heq⟩ := Option.map_eq_some_iff.mp h
      cases heq
      exact .button b (ReplayButton.resetText_move hb)

/-! ## The lists and the counters -/

/-- The messages that a page has read. -/
def messagesIn (tr : List PageEvent) : List (List Char) :=
  tr.filterMap fun
    | .message text => some text
    | _ => none

/-- What the messages have said. -/
def reportsIn (tr : List PageEvent) : List Report :=
  tr.filterMap fun
    | .report r => some r
    | _ => none

def Report.shown : Report → Option Entry
  | .entry e => some e
  | _ => none

/-- The message has the type of an entry. -/
def tellsEntry (toFloat : List Char → PyFloat) (message : List Char) : Bool :=
  (jsonParse toFloat message).any fun
    | .dict data =>
        match item data "type" with
        | some (.str type) =>
            type = "qos".toList || type = "time_travel_log".toList
        | _ => false
    | _ => false

/-- The entry of a message. -/
def entryIn (toFloat : List Char → PyFloat) (message : List Char) :
    Option Entry :=
  (reportIn toFloat message).bind Report.shown

/-- If the message has the type of an entry, its fields are of the types that
the server sends. -/
def WellTyped (toFloat : List Char → PyFloat) (message : List Char) : Prop :=
  tellsEntry toFloat message = true → (entryIn toFloat message).isSome = true

instance (toFloat : List Char → PyFloat) :
    DecidablePred (WellTyped toFloat) :=
  fun _ => inferInstanceAs (Decidable (_ → _))

def entriesOf (rs : List Report) : List Entry :=
  rs.filterMap Report.shown

/-- What a `metrics` message says, if its throughput can be shown. -/
def Report.charted : Report → Option (Json × Option Json)
  | .metrics throughput offset =>
      if textual throughput then some (throughput, offset) else none
  | _ => none

/-- What the `metrics` messages have said whose throughput can be shown. -/
def chartedOf (rs : List Report) : List (Json × Option Json) :=
  rs.filterMap Report.charted

/-- The values of the throughput that can be shown. -/
def throughputsOf (rs : List Report) : List Json :=
  (chartedOf rs).map Prod.fst

/-- The entries that are no history. -/
def live (es : List Entry) : List Entry :=
  es.filter fun e => !e.history

/-- What `onmessage` does to the inspector. -/
def inspectEntry (s : Inspector) (e : Entry) : Inspector :=
  if e.hex = [] then s
  else updateInspector s e.hex e.topic e.priority (Utf8.utf16 e.payload)

/-- The order of the priority queue. -/
def byPriority (items : List QueueItem) : List QueueItem :=
  items.mergeSort fun a b => b.priority ≤ a.priority

theorem le_trans_priority (a b c : QueueItem)
    (hab : decide (b.priority ≤ a.priority) = true)
    (hbc : decide (c.priority ≤ b.priority) = true) :
    decide (c.priority ≤ a.priority) = true := by
  rw [decide_eq_true_iff] at hab hbc ⊢
  exact hbc.trans hab

theorem le_total_priority (a b : QueueItem) :
    (decide (b.priority ≤ a.priority) || decide (a.priority ≤ b.priority)) =
      true := by
  rw [Bool.or_eq_true, decide_eq_true_iff, decide_eq_true_iff]
  exact Nat.le_total _ _

theorem byPriority_sorted (items : List QueueItem) :
    (byPriority items).Pairwise fun a b => b.priority ≤ a.priority :=
  (List.pairwise_mergeSort le_trans_priority le_total_priority items).imp
    of_decide_eq_true

theorem byPriority_perm (items : List QueueItem) :
    (byPriority items).Perm items :=
  List.mergeSort_perm items _

/-- Items of one priority stay in their order. -/
theorem filter_byPriority (items : List QueueItem) (q : ℕ) :
    (byPriority items).filter (fun a => a.priority = q) =
      items.filter fun a => a.priority = q := by
  have hpairwise : (items.filter fun a => a.priority = q).Pairwise
      fun a b => decide (b.priority ≤ a.priority) = true := by
    rw [List.pairwise_filter]
    refine List.pairwise_of_forall fun a b ha hb => ?_
    rw [decide_eq_true_iff] at ha hb ⊢
    rw [ha, hb]
  have hsub := (List.sublist_mergeSort le_trans_priority le_total_priority
    hpairwise List.filter_sublist).filter fun a => a.priority = q
  rw [List.filter_filter] at hsub
  simp only [Bool.and_self] at hsub
  refine (hsub.eq_of_length ?_).symm
  exact ((byPriority_perm items).filter _).length_eq.symm

/-- What the page shows after these entries and values of the throughput: the
feed has the newest hundred entries, the queue the newest sixty that are no
history, and the queue that is painted is the sorted one unless the timer is
running. -/
structure Displays (es : List Entry) (ts : List Json) (p : Page) : Prop where
  feed : p.messageFeed = (es.reverse.take maxFeedItems).map Entry.feedItem
  total : p.totalMessages = (live es).length
  devices : ∀ d, p.messages d =
    ((live es).filter fun e => deviceOf e.topic = some d).length
  queue : p.queueItems = ((live es).reverse.take 60).map Entry.queueItem
  painted : p.queueUpdateTimer = false → p.queueFeed = byPriority p.queueItems
  sorted : p.queueFeed.Pairwise fun a b => b.priority ≤ a.priority
  throughput : p.throughputHistory =
    (List.replicate 60 (Json.int 0) ++ ts).drop ts.length
  inspector : p.inspector = (live es).foldl inspectEntry .init

variable {rs rs' : List Report} {es : List Entry} {ts : List Json}

theorem live_concat (es : List Entry) (e : Entry) :
    live (es ++ [e]) = if e.history then live es else live es ++ [e] := by
  rw [live, List.filter_append, List.filter_singleton]
  cases e.history with
  | true => exact List.append_nil _
  | false => rfl

/-- The newest of a list stay the newest. -/
theorem take_cons_take {α : Type*} (n : ℕ) (x : α) (l : List α) :
    (x :: l.take n).take n = (x :: l).take n := by
  cases n with
  | zero => rfl
  | succ n =>
      rw [List.take_succ_cons, List.take_succ_cons, List.take_take,
        Nat.min_eq_left (Nat.le_succ n)]

theorem push_take {α : Type*} (n : ℕ) (x : α) (l : List α) :
    (if n < (x :: l.take n).length then (x :: l.take n).dropLast
      else x :: l.take n) = (x :: l).take n := by
  have hle : (l.take n).length ≤ n := List.length_take_le n l
  rw [← take_cons_take]
  split
  next hlt =>
    rw [List.length_cons] at hlt
    rw [List.dropLast_eq_take, List.length_cons, Nat.add_sub_cancel]
    congr 1
    omega
  next hge =>
    rw [List.take_of_length_le (Nat.not_lt.mp hge)]

/-- The last of a history of fixed length. -/
theorem tail_drop_concat {α : Type*} {l : List α} {n : ℕ} (x : α)
    (h : n < l.length) : (l.drop n ++ [x]).tail = (l ++ [x]).drop (n + 1) := by
  have hne : l.drop n ≠ [] := fun hnil =>
    absurd (List.drop_eq_nil_iff.mp hnil) (Nat.not_le.mpr h)
  rw [List.tail_append_of_ne_nil hne, List.tail_drop,
    List.drop_append_of_le_length h]

theorem displays_init : Displays [] [] Page.init where
  feed := rfl
  total := rfl
  devices d := by
    cases d <;> rfl
  queue := rfl
  painted _ := (List.mergeSort_nil).symm
  sorted := List.Pairwise.nil
  throughput := rfl
  inspector := rfl

/-- The larger of the largest offset so far and of another one. -/
def farther (coerced : Json → Json → Bool) (most : Json) :
    Option Json → Json
  | some offset => if greater coerced offset most then offset else most
  | none => most

theorem addMetrics_of_textual {throughput : Json}
    (h : textual throughput = true) (p : Page) (offset : Option Json) :
    p.addMetrics coerced throughput offset =
      { p with
        currentThroughput := throughput
        throughputHistory := (p.throughputHistory ++ [throughput]).tail
        maxLogOffset := farther coerced p.maxLogOffset offset } := by
  rw [Page.addMetrics.eq_def, if_pos h]
  cases offset with
  | none => rfl
  | some offset => rfl

theorem addMetrics_of_not {throughput : Json} (h : ¬textual throughput = true)
    (p : Page) (offset : Option Json) :
    p.addMetrics coerced throughput offset =
      { p with currentThroughput := throughput } := by
  rw [Page.addMetrics.eq_def, if_neg h]

theorem chartedOf_of_textual {throughput : Json}
    (h : textual throughput = true) (offset : Option Json) :
    chartedOf [.metrics throughput offset] = [(throughput, offset)] := by
  rw [chartedOf, List.filterMap_cons_some, List.filterMap_nil]
  exact if_pos h

theorem chartedOf_of_not {throughput : Json} (h : ¬textual throughput = true)
    (offset : Option Json) : chartedOf [.metrics throughput offset] = [] := by
  rw [chartedOf, List.filterMap_cons_none, List.filterMap_nil]
  exact if_neg h

theorem Displays.addMetrics (h : Displays es ts p) (throughput : Json)
    (offset : Option Json) :
    Displays es (ts ++ throughputsOf [.metrics throughput offset])
      (p.addMetrics coerced throughput offset) := by
  by_cases htext : textual throughput = true
  · have hone : throughputsOf [.metrics throughput offset] = [throughput] := by
      rw [throughputsOf, chartedOf_of_textual htext]
      rfl
    have hlength : ts.length <
        (List.replicate 60 (Json.int 0) ++ ts).length := by
      rw [List.length_append, List.length_replicate]
      omega
    rw [hone, addMetrics_of_textual htext]
    refine ⟨h.feed, h.total, h.devices, h.queue, h.painted, h.sorted, ?_,
      h.inspector⟩
    rw [← List.append_assoc, List.length_append]
    exact (congrArg (fun l => (l ++ [throughput]).tail) h.throughput).trans
      (tail_drop_concat throughput hlength)
  · have hnone : throughputsOf [.metrics throughput offset] = [] := by
      rw [throughputsOf, chartedOf_of_not htext]
      rfl
    rw [hnone, List.append_nil, addMetrics_of_not htext]
    exact ⟨h.feed, h.total, h.devices, h.queue, h.painted, h.sorted,
      h.throughput, h.inspector⟩

theorem messages_countDevice (p : Page) (device : Option Device) (d : Device) :
    (p.countDevice device).messages d =
      p.messages d + if device = some d then 1 else 0 := by
  cases device with
  | none => rfl
  | some device => cases device <;> cases d <;> rfl

/-- Counting changes no list. -/
theorem countDevice_eq (p : Page) (device : Option Device) :
    ∃ fire temp battery door light, p.countDevice device =
      { p with
        fireMessages := fire
        tempMessages := temp
        batteryMessages := battery
        doorMessages := door
        lightMessages := light } := by
  cases device with
  | none => exact ⟨_, _, _, _, _, rfl⟩
  | some device => cases device <;> exact ⟨_, _, _, _, _, rfl⟩

theorem addEntry_history (p : Page) (h : e.history = true) :
    p.addEntry e =
      { p with
        messageFeed := (e.feedItem :: p.messageFeed).take maxFeedItems } := by
  rw [Page.addEntry, Page.addFeedMessage, h]
  simp only [if_true, or_true]

/-- What `onmessage` does with a live entry, but for the counter of its
device. -/
def Page.addLive (p : Page) (e : Entry) : Page :=
  { p with
    particles := p.particles.spawn
    queueItems :=
      if 60 < (e.queueItem :: p.queueItems).length then
        (e.queueItem :: p.queueItems).dropLast
      else e.queueItem :: p.queueItems
    queueUpdateTimer := true
    messageFeed := (e.feedItem :: p.messageFeed).take maxFeedItems
    totalMessages := p.totalMessages + 1
    inspector := inspectEntry p.inspector e }

theorem addEntry_live (p : Page) (h : e.history = false) :
    p.addEntry e = (p.addLive e).countDevice (deviceOf e.topic) := by
  rw [Page.addEntry, Page.addFeedMessage, h]
  simp only [or_false, Bool.false_eq_true]
  rw [Page.addLive, inspectEntry]
  by_cases hhex : e.hex = []
  · rw [if_pos hhex, if_pos hhex]
    rfl
  · rw [if_neg hhex, if_neg hhex]
    cases deviceOf e.topic with
    | none => rfl
    | some device => cases device <;> rfl

theorem Displays.addEntry (h : Displays es ts p) (e : Entry) :
    Displays (es ++ [e]) ts (p.addEntry e) := by
  have hfeed : (e.feedItem :: p.messageFeed).take maxFeedItems =
      ((es ++ [e]).reverse.take maxFeedItems).map Entry.feedItem := by
    rw [h.feed, ← List.map_cons, ← List.map_take, take_cons_take,
      List.reverse_concat]
  cases hhistory : e.history with
  | true =>
      have hlive : live (es ++ [e]) = live es := by
        rw [live_concat, if_pos hhistory]
      rw [addEntry_history p hhistory]
      refine ⟨hfeed, ?_, ?_, ?_, h.painted, h.sorted, h.throughput, ?_⟩
      · rw [hlive]
        exact h.total
      · rw [hlive]
        exact h.devices
      · rw [hlive]
        exact h.queue
      · rw [hlive]
        exact h.inspector
  | false =>
      have hlive : live (es ++ [e]) = live es ++ [e] := by
        rw [live_concat, if_neg (by rw [hhistory]; exact Bool.false_ne_true)]
      have hdevices : ∀ d, (p.addEntry e).messages d =
          ((live (es ++ [e])).filter fun e =>
            deviceOf e.topic = some d).length := by
        intro d
        have hbefore : (p.addLive e).messages d = p.messages d := by
          cases d <;> rfl
        rw [addEntry_live p hhistory, messages_countDevice, hlive,
          List.filter_append, List.length_append, List.filter_singleton,
          hbefore, ← h.devices d]
        by_cases hd : deviceOf e.topic = some d
        · rw [if_pos hd, decide_eq_true hd]
          rfl
        · rw [if_neg hd, decide_eq_false hd]
          rfl
      rw [addEntry_live p hhistory] at hdevices ⊢
      obtain ⟨fire, temp, battery, door, light, heq⟩ :=
        countDevice_eq (p.addLive e) (deviceOf e.topic)
      rw [heq] at hdevices ⊢
      refine ⟨hfeed, ?_, hdevices, ?_, ?_, h.sorted, h.throughput, ?_⟩
      · rw [hlive, List.length_append, ← h.total]
        rfl
      · rw [hlive, List.reverse_concat, ← push_take, List.length_cons,
          apply_ite (List.map Entry.queueItem), List.map_dropLast,
          List.map_cons, ← h.queue]
        rw [← List.length_map Entry.queueItem, ← h.queue]
        rfl
      · intro hpainted
        cases hpainted
      · rw [hlive, List.foldl_append, ← h.inspector]
        rfl

theorem entriesOf_append (rs rs' : List Report) :
    entriesOf (rs ++ rs') = entriesOf rs ++ entriesOf rs' :=
  List.filterMap_append

theorem chartedOf_append (rs rs' : List Report) :
    chartedOf (rs ++ rs') = chartedOf rs ++ chartedOf rs' :=
  List.filterMap_append

theorem throughputsOf_append (rs rs' : List Report) :
    throughputsOf (rs ++ rs') = throughputsOf rs ++ throughputsOf rs' := by
  rw [throughputsOf, chartedOf_append, List.map_append]
  rfl

@[simp] theorem reportsIn_nil : reportsIn [] = [] :=
  rfl

theorem reportsIn_append (tr tr' : List PageEvent) :
    reportsIn (tr ++ tr') = reportsIn tr ++ reportsIn tr' :=
  List.filterMap_append

theorem reportsIn_map (rs : List Report) : reportsIn (rs.map .report) = rs := by
  rw [reportsIn, List.filterMap_map]
  exact List.filterMap_some

theorem reportsIn_messages (messages : List (List Char)) :
    reportsIn (messages.map .message) = [] := by
  rw [reportsIn, List.filterMap_map]
  exact List.filterMap_eq_nil_iff.mpr fun _ _ => rfl

theorem reportsIn_received (text : List Char) (messages : List (List Char))
    (rs : List Report) :
    reportsIn (.received text :: messages.map .message ++ rs.map .report) =
      rs := by
  have hnone : reportsIn (.received text :: messages.map .message) = [] :=
    reportsIn_messages messages
  rw [reportsIn_append, hnone, reportsIn_map]
  rfl

/-- The connection itself tells nothing. -/
theorem Connection.Move.silent {c c' : Connection} {event : PageEvent}
    (h : c.Move c' event) :
    messagesIn [event] = [] ∧ reportsIn [event] = [] := by
  cases h with
  | opened hsource => exact ⟨rfl, rfl⟩
  | failed source hsource => exact ⟨rfl, rfl⟩
  | connecting hretries => exact ⟨rfl, rfl⟩

/-- The timers, the connection and the button have no part in the lists. -/
theorem Displays.of_frame (h : Displays es ts p) {connection : Connection}
    {particles : Particles} {button : ReplayButton} :
    Displays es ts { p with connection, particles, button } :=
  ⟨h.feed, h.total, h.devices, h.queue, h.painted, h.sorted, h.throughput,
    h.inspector⟩

theorem Displays.add (h : Displays (entriesOf rs) (throughputsOf rs) p)
    (r : Report) :
    Displays (entriesOf (rs ++ [r])) (throughputsOf (rs ++ [r]))
      (p.add coerced r) := by
  rw [entriesOf_append, throughputsOf_append]
  cases r with
  | status connected =>
      have hnone : entriesOf [.status connected] = [] := rfl
      have hnone' : throughputsOf [.status connected] = [] := rfl
      rw [hnone, hnone', List.append_nil, List.append_nil]
      exact h.of_frame
  | metrics throughput offset =>
      have hnone : entriesOf [.metrics throughput offset] = [] := rfl
      rw [hnone, List.append_nil]
      exact h.addMetrics throughput offset
  | entry e =>
      have hnone : throughputsOf [.entry e] = [] := rfl
      rw [hnone, List.append_nil]
      exact h.addEntry e
  | done replayed =>
      have hnone : entriesOf [.done replayed] = [] := rfl
      have hnone' : throughputsOf [.done replayed] = [] := rfl
      rw [hnone, hnone', List.append_nil, List.append_nil]
      exact h.of_frame

theorem Displays.foldl (h : Displays (entriesOf rs) (throughputsOf rs) p)
    (rs' : List Report) :
    Displays (entriesOf (rs ++ rs')) (throughputsOf (rs ++ rs'))
      (rs'.foldl (fun p r => p.add coerced r) p) := by
  induction rs' generalizing rs p with
  | nil =>
      rw [List.append_nil]
      exact h
  | cons r rs' ih =>
      rw [List.foldl_cons, List.append_cons]
      exact ih (h.add r)

theorem Displays.step (h : Displays (entriesOf rs) (throughputsOf rs) p)
    (hstep : PageStep toFloat coerced p p' evs) :
    Displays (entriesOf (rs ++ reportsIn evs))
      (throughputsOf (rs ++ reportsIn evs)) p' := by
  cases hstep with
  | connection c event hmove =>
      rw [hmove.silent.2, List.append_nil]
      exact h.of_frame
  | receive stream text hopen =>
      rw [reportsIn_received]
      exact Displays.foldl h.of_frame _
  | updateQueue htimer =>
      rw [reportsIn_nil, List.append_nil]
      exact ⟨h.feed, h.total, h.devices, h.queue, fun _ => rfl,
        byPriority_sorted _, h.throughput, h.inspector⟩
  | particles q hmove =>
      rw [reportsIn_nil, List.append_nil]
      exact h.of_frame
  | button b hmove =>
      rw [reportsIn_nil, List.append_nil]
      exact h.of_frame

theorem displays_run (h : (page toFloat coerced).Reaches .init tr p) :
    Displays (entriesOf (reportsIn tr)) (throughputsOf (reportsIn tr)) p := by
  refine h.invariant (I := fun tr p =>
    Displays (entriesOf (reportsIn tr)) (throughputsOf (reportsIn tr)) p)
    displays_init ?_
  intro tr p a p' evs hdisplays _ hstep
  rw [reportsIn_append]
  exact hdisplays.step (pageStep_of_eq hstep)

/-! ## Entries and messages -/

theorem messagesIn_append (tr tr' : List PageEvent) :
    messagesIn (tr ++ tr') = messagesIn tr ++ messagesIn tr' :=
  List.filterMap_append

theorem messagesIn_received (text : List Char) (messages : List (List Char))
    (rs : List Report) :
    messagesIn (.received text :: messages.map .message ++ rs.map .report) =
      messages := by
  have hmessages : messagesIn (.received text :: messages.map .message) =
      messages := by
    rw [messagesIn, List.filterMap_cons_none rfl, List.filterMap_map]
    exact List.filterMap_some
  have hreports : messagesIn (rs.map .report) = [] := by
    rw [messagesIn, List.filterMap_map]
    exact List.filterMap_eq_nil_iff.mpr fun _ _ => rfl
  rw [messagesIn_append, hmessages, hreports, List.append_nil]

/-- The reports are those of the messages. -/
theorem reportsIn_eq (h : (page toFloat coerced).Reaches .init tr p) :
    reportsIn tr = (messagesIn tr).filterMap (reportIn toFloat) := by
  refine h.invariant (I := fun tr _ =>
    reportsIn tr = (messagesIn tr).filterMap (reportIn toFloat)) rfl ?_
  intro tr p a p' evs hsame _ hstep
  rw [reportsIn_append, messagesIn_append, List.filterMap_append, hsame]
  congr 1
  cases pageStep_of_eq hstep with
  | connection c event hmove =>
      rw [hmove.silent.1, hmove.silent.2]
      rfl
  | receive stream text hopen => rw [reportsIn_received, messagesIn_received]
  | updateQueue htimer => rfl
  | particles q hmove => rfl
  | button b hmove => rfl

/-- Only a message with the type of an entry makes one. -/
theorem tellsEntry_of_entryIn {message : List Char}
    (h : entryIn toFloat message = some e) :
    tellsEntry toFloat message = true := by
  obtain ⟨r, hr, hshown⟩ := Option.bind_eq_some_iff.mp h
  obtain ⟨value, hvalue, hreport⟩ := Option.bind_eq_some_iff.mp hr
  rw [tellsEntry, hvalue, Option.any_some]
  cases value with
  | dict data =>
      rw [reportOf] at hreport
      split at hreport
      next type htype =>
        simp only [htype]
        split_ifs at hreport with hstatus hmetrics hentry hdone
        · cases hreport
          cases hshown
        · cases hreport
          cases hshown
        · rw [Bool.or_eq_true, decide_eq_true_iff, decide_eq_true_iff]
          exact hentry
        · cases hreport
          cases hshown
      · cases hreport
  | _ => cases hreport

theorem map_filter_of_filterMap {α β : Type*} {f : α → Option β}
    {q : α → Bool} {l : List α} (h : ∀ a ∈ l, q a = (f a).isSome) :
    (l.filter q).map f = (l.filterMap f).map some := by
  induction l with
  | nil => rfl
  | cons a l ih =>
      rw [List.forall_mem_cons] at h
      cases hf : f a with
      | none =>
          rw [List.filter_cons_of_neg (by simp [h.1, hf]),
            List.filterMap_cons_none hf, ih h.2]
      | some b =>
          rw [List.filter_cons_of_pos (by simp [h.1, hf]),
            List.filterMap_cons_some hf, List.map_cons, List.map_cons, hf,
            ih h.2]

/-- The messages with the type of an entry make the entries. -/
theorem entries_of_messages (h : (page toFloat coerced).Reaches .init tr p)
    (htypes : ∀ message ∈ messagesIn tr, WellTyped toFloat message) :
    ((messagesIn tr).filter (tellsEntry toFloat)).map (entryIn toFloat) =
      (entriesOf (reportsIn tr)).map some := by
  have hentries : entriesOf (reportsIn tr) =
      (messagesIn tr).filterMap (entryIn toFloat) := by
    rw [reportsIn_eq h, entriesOf, List.filterMap_filterMap]
    rfl
  rw [hentries]
  refine map_filter_of_filterMap fun message hmessage => ?_
  rw [Bool.eq_iff_iff]
  refine ⟨htypes message hmessage, fun hsome => ?_⟩
  obtain ⟨e, he⟩ := Option.isSome_iff_exists.mp hsome
  exact tellsEntry_of_entryIn he

/-- The feed, the counters and the chart of a page are told by the messages
that it has read, if the entries among them are as the server sends them: the
feed shows the newest hundred entries, every entry that is no history is counted
once, also for its device, and the chart shows the last sixty values that have a
text.  The painted queue is sorted by priority, and as soon as its timer has run
off it shows the newest sixty entries, those of one priority with the newest
first. -/
theorem page_shows_newest (h : (page toFloat coerced).Reaches .init tr p)
    (htypes : ∀ message ∈ messagesIn tr, WellTyped toFloat message) :
    ((messagesIn tr).filter (tellsEntry toFloat)).map (entryIn toFloat) =
        (entriesOf (reportsIn tr)).map some ∧
      p.messageFeed = ((entriesOf (reportsIn tr)).reverse.take 100).map
        Entry.feedItem ∧
      p.totalMessages = (live (entriesOf (reportsIn tr))).length ∧
      (∀ d, p.messages d = ((live (entriesOf (reportsIn tr))).filter
        fun e => deviceOf e.topic = some d).length) ∧
      p.throughputHistory.length = 60 ∧
      p.throughputHistory <:+
        List.replicate 60 (.int 0) ++ throughputsOf (reportsIn tr) ∧
      (p.queueFeed.Pairwise fun a b => b.priority ≤ a.priority) ∧
      (p.queueUpdateTimer = false →
        p.queueFeed.Perm (((live (entriesOf (reportsIn tr))).reverse.take
          60).map Entry.queueItem) ∧
        ∀ q, p.queueFeed.filter (fun a => a.priority = q) =
          (((live (entriesOf (reportsIn tr))).reverse.take 60).map
            Entry.queueItem).filter fun a => a.priority = q) := by
  have hdisplays := displays_run h
  refine ⟨entries_of_messages h htypes, hdisplays.feed, hdisplays.total,
    hdisplays.devices, ?_, ?_, hdisplays.sorted, ?_⟩
  · rw [hdisplays.throughput, List.length_drop, List.length_append,
      List.length_replicate, Nat.add_sub_cancel]
  · rw [hdisplays.throughput]
    exact List.drop_suffix _ _
  · intro htimer
    rw [hdisplays.painted htimer, ← hdisplays.queue]
    exact ⟨byPriority_perm _, filter_byPriority _⟩

/-- A fire, as it comes over the stream. -/
def fireText : List Char :=
  streamText (fun _ => "0.5".toList)
    [(0, .qos "home/fire" 255 "FIRE".toList "02".toList)]

theorem page_shows_newest_fire : ∃ tr p,
    (page (fun _ => .nan) fun _ _ => false).Reaches .init tr p ∧
    ((messagesIn tr).filter (tellsEntry fun _ => .nan)).length = 1 ∧
    (live (entriesOf (reportsIn tr))).length = 1 ∧
    p.queueFeed.Perm (((live (entriesOf (reportsIn tr))).reverse.take 60).map
      Entry.queueItem) := by
  have hexec : ((page (fun _ => .nan) fun _ _ => false).exec
      (fun _ _ => True) .init [.onopen, .receive fireText, .updateQueue]).any
        (fun r => r.1.totalMessages = 1 ∧ r.1.queueUpdateTimer = false ∧
          (entriesOf (reportsIn r.2)).length = 1 ∧
          ∀ message ∈ messagesIn r.2, WellTyped (fun _ => .nan) message) =
            true := by
    decide +kernel
  obtain ⟨⟨p, tr⟩, hrun, hany⟩ := (Option.any_eq_true _ _).mp hexec
  have h := System.exec_run _ hrun
  obtain ⟨htotal, htimer, hentries, htypes⟩ := of_decide_eq_true hany
  obtain ⟨hmessages, -, hcount, -, -, -, -, hqueue⟩ :=
    page_shows_newest h htypes
  have hlength := congrArg List.length hmessages
  rw [List.length_map, List.length_map, hentries] at hlength
  exact ⟨tr, p, h, hlength, hcount.symm.trans htotal, (hqueue htimer).1⟩

/-! ## The end of the log -/

/-- How often the connection has failed since it was last open. -/
def failures (tr : List PageEvent) : ℕ :=
  tr.foldl (fun n event =>
    match event with
    | .opened => 0
    | .failed _ => n + 1
    | _ => n) 0

/-- The delay behind so many failures. -/
def backoff (n : ℕ) : ℚ :=
  min (1000 * (3 / 2) ^ n) 10000

theorem backoff_succ (n : ℕ) :
    min (backoff n * (3 / 2)) 10000 = backoff (n + 1) := by
  rw [backoff, backoff, min_mul_of_nonneg _ _ (by norm_num), pow_succ,
    mul_assoc, min_assoc]
  norm_num

theorem backoff_bounds (n : ℕ) : 1000 ≤ backoff n ∧ backoff n ≤ 10000 := by
  have hpow : (1 : ℚ) ≤ (3 / 2) ^ n := one_le_pow₀ (by norm_num)
  refine ⟨le_min ?_ (by norm_num), min_le_right _ _⟩
  linarith

/-- There is one source or one timer that makes one, and the delay tells the
number of failures. -/
structure Paced (tr : List PageEvent) (c : Connection) : Prop where
  alone : (c.source ≠ none ∧ c.retries = 0) ∨ (c.source = none ∧ c.retries = 1)
  delay : c.retryDelay = backoff (failures tr)
  waited : ∀ tr₁ tr₂ delay, tr = tr₁ ++ .failed delay :: tr₂ →
    delay = backoff (failures tr₁)

/-- The button is disabled as long as one request or the timer behind it is
under way. -/
structure ReplayButton.Kept (b : ReplayButton) : Prop where
  pending : b.fetches + b.resetTimers = if b.disabled then 1 else 0
  replaying : b.text = .replaying → b.disabled = true

/-- There is at most one particle more than allowed. -/
def Particles.Few (q : Particles) : Prop :=
  q.toBroker + q.fromBroker ≤ maxParticles + 1

theorem failures_append (tr tr' : List PageEvent) :
    failures (tr ++ tr') = tr'.foldl (fun n event =>
      match event with
      | .opened => 0
      | .failed _ => n + 1
      | _ => n) (failures tr) :=
  List.foldl_append

theorem Paced.extend {c c' : Connection} {event : PageEvent}
    (h : Paced tr c)
    (halone : (c'.source ≠ none ∧ c'.retries = 0) ∨
      (c'.source = none ∧ c'.retries = 1))
    (hdelay : c'.retryDelay = backoff (failures (tr ++ [event])))
    (hevent : ∀ delay, event = .failed delay → delay = c.retryDelay) :
    Paced (tr ++ [event]) c' := by
  refine ⟨halone, hdelay, ?_⟩
  intro tr₁ tr₂ delay heq
  rcases List.eq_nil_or_concat tr₂ with rfl | ⟨tr₂, last, rfl⟩
  · obtain ⟨rfl, hlast⟩ := List.append_inj' heq rfl
    rw [hevent delay (List.singleton_inj.mp hlast), h.delay]
  · rw [List.concat_eq_append, ← List.cons_append, ← List.append_assoc] at heq
    obtain ⟨htr, -⟩ := List.append_inj' heq rfl
    exact h.waited tr₁ tr₂ delay htr

theorem Paced.move {c c' : Connection} {event : PageEvent} (h : Paced tr c)
    (hmove : c.Move c' event) : Paced (tr ++ [event]) c' := by
  cases hmove with
  | opened hsource =>
      refine h.extend (Or.inl ⟨?_, ?_⟩) ?_ ?_
      · exact Option.some_ne_none _
      · rcases h.alone with ⟨-, hretries⟩ | ⟨hnone, -⟩
        · exact hretries
        · rw [hsource] at hnone
          cases hnone
      · rw [failures_append]
        norm_num [backoff]
      · intro delay heq
        cases heq
  | failed source hsource =>
      refine h.extend (Or.inr ⟨rfl, ?_⟩) ?_ ?_
      · rcases h.alone with ⟨-, hretries⟩ | ⟨hnone, -⟩
        · exact congrArg (· + 1) hretries
        · rw [hsource] at hnone
          cases hnone
      · rw [failures_append]
        exact (congrArg (fun d => min (d * (3 / 2)) 10000) h.delay).trans
          (backoff_succ _)
      · intro delay heq
        cases heq
        rfl
  | connecting hretries =>
      refine h.extend (Or.inl ⟨?_, ?_⟩) ?_ ?_
      · exact Option.some_ne_none _
      · rcases h.alone with ⟨-, hzero⟩ | ⟨-, hone⟩
        · exact absurd hzero hretries
        · exact congrArg (· - 1) hone
      · rw [failures_append]
        exact h.delay
      · intro delay heq
        cases heq

theorem ReplayButton.Kept.move {b b' : ReplayButton} (h : b.Kept)
    (hmove : b.Move b') : b'.Kept := by
  have hpending := h.pending
  cases hmove with
  | click henabled =>
      rw [henabled, if_neg Bool.false_ne_true] at hpending
      refine ⟨?_, fun _ => rfl⟩
      change b.fetches + 1 + b.resetTimers = 1
      omega
  | fetched hfetches =>
      refine ⟨?_, h.replaying⟩
      change b.fetches - 1 + (b.resetTimers + 1) = _
      rw [← hpending]
      omega
  | reset text htimers htext =>
      refine ⟨?_, fun heq => absurd heq htext⟩
      change b.fetches + (b.resetTimers - 1) = 0
      split at hpending
      · omega
      · omega
  | resetText htimers => exact ⟨hpending, fun heq => by cases heq⟩

theorem Particles.Few.move {q q' : Particles} (h : q.Few) (hmove : q.Move q') :
    q'.Few := by
  rw [Particles.Few] at h ⊢
  cases hmove with
  | arrive hpos =>
      simp only
      omega
  | drop hpos => exact h
  | fan hpos hfull =>
      rw [Particles.full, Bool.or_eq_false_iff, decide_eq_false_iff_not,
        Nat.not_lt] at hfull
      simp only
      omega
  | deliver hpos =>
      simp only
      omega
  | visibility visible => exact h

/-- The event is none of the connection. -/
def PageEvent.isQuiet : PageEvent → Bool
  | .opened => false
  | .failed _ => false
  | _ => true

/-- What does not concern the connection leaves its account as it is. -/
theorem Paced.quiet {c : Connection} (h : Paced tr c)
    (hquiet : ∀ event ∈ evs, event.isQuiet = true) : Paced (tr ++ evs) c := by
  induction evs generalizing tr with
  | nil =>
      rw [List.append_nil]
      exact h
  | cons event evs ih =>
      rw [List.forall_mem_cons] at hquiet
      have hsame : failures (tr ++ [event]) = failures tr := by
        rw [failures_append]
        cases event with
        | opened => cases hquiet.1
        | failed delay => cases hquiet.1
        | _ => rfl
      have hnext : Paced (tr ++ [event]) c := by
        refine h.extend h.alone ?_ ?_
        · rw [hsame]
          exact h.delay
        · rintro delay rfl
          cases hquiet.1
      rw [List.append_cons]
      exact ih hnext hquiet.2

theorem isQuiet_received (text : List Char) (messages : List (List Char))
    (rs : List Report) :
    ∀ event ∈ PageEvent.received text :: messages.map .message ++
      rs.map .report, event.isQuiet = true := by
  rw [List.forall_mem_append, List.forall_mem_cons, List.forall_mem_map,
    List.forall_mem_map]
  exact ⟨⟨rfl, fun _ _ => rfl⟩, fun _ _ => rfl⟩

/-- The timers and the connection keep their promises. -/
structure Timed (tr : List PageEvent) (p : Page) : Prop where
  paced : Paced tr p.connection
  kept : p.button.Kept
  few : p.particles.Few

theorem Particles.Few.spawn {q : Particles} (h : q.Few) : q.spawn.Few := by
  rw [Particles.spawn]
  split
  · exact h
  next hfull =>
    rw [Particles.full, Bool.or_eq_true, decide_eq_true_iff] at hfull
    change q.toBroker + 1 + q.fromBroker ≤ maxParticles + 1
    omega

theorem ReplayButton.Kept.done {b : ReplayButton} (h : b.Kept)
    (replayed : Json) : (b.done replayed).Kept := by
  rw [ReplayButton.done]
  split
  · exact ⟨h.pending, fun heq => by cases heq⟩
  · exact h

/-- Neither metrics nor an entry are a matter of the connection and of the
button. -/
theorem addMetrics_frame (p : Page) (throughput : Json)
    (offset : Option Json) :
    (p.addMetrics coerced throughput offset).connection = p.connection ∧
      (p.addMetrics coerced throughput offset).button = p.button ∧
        (p.addMetrics coerced throughput offset).particles = p.particles := by
  by_cases htext : textual throughput = true
  · rw [addMetrics_of_textual htext]
    exact ⟨rfl, rfl, rfl⟩
  · rw [addMetrics_of_not htext]
    exact ⟨rfl, rfl, rfl⟩

theorem addEntry_frame (p : Page) (e : Entry) :
    (p.addEntry e).connection = p.connection ∧
      (p.addEntry e).button = p.button ∧
        ((p.addEntry e).particles = p.particles ∨
          (p.addEntry e).particles = p.particles.spawn) := by
  cases hhistory : e.history with
  | true =>
      rw [addEntry_history p hhistory]
      exact ⟨rfl, rfl, Or.inl rfl⟩
  | false =>
      obtain ⟨fire, temp, battery, door, light, heq⟩ :=
        countDevice_eq (p.addLive e) (deviceOf e.topic)
      rw [addEntry_live p hhistory, heq]
      exact ⟨rfl, rfl, Or.inr rfl⟩

/-- What leaves the connection and the button as they are, and spawns at most
one particle. -/
theorem Timed.frame (h : Timed tr p)
    (hconnection : p'.connection = p.connection)
    (hbutton : p'.button = p.button)
    (hparticles : p'.particles = p.particles ∨
      p'.particles = p.particles.spawn) : Timed tr p' := by
  refine ⟨?_, ?_, ?_⟩
  · rw [hconnection]
    exact h.paced
  · rw [hbutton]
    exact h.kept
  · rcases hparticles with hsame | hspawn
    · rw [hsame]
      exact h.few
    · rw [hspawn]
      exact h.few.spawn

theorem Timed.add (h : Timed tr p) (r : Report) :
    Timed tr (p.add coerced r) := by
  cases r with
  | status connected =>
      refine ⟨?_, h.kept, h.few⟩
      change Paced tr (p.connection.status connected)
      rw [Connection.status]
      split
      · exact ⟨h.paced.alone, h.paced.delay, h.paced.waited⟩
      · exact ⟨h.paced.alone, h.paced.delay, h.paced.waited⟩
  | metrics throughput offset =>
      obtain ⟨hconnection, hbutton, hparticles⟩ :=
        addMetrics_frame p throughput offset
      exact h.frame hconnection hbutton (Or.inl hparticles)
  | entry e =>
      obtain ⟨hconnection, hbutton, hparticles⟩ := addEntry_frame p e
      exact h.frame hconnection hbutton hparticles
  | done replayed => exact ⟨h.paced, h.kept.done replayed, h.few⟩

theorem Timed.foldl (h : Timed tr p) (reports : List Report) :
    Timed tr (reports.foldl (fun p r => p.add coerced r) p) := by
  induction reports generalizing p with
  | nil => exact h
  | cons r reports ih => exact ih (h.add r)

theorem Timed.step (h : Timed tr p)
    (hstep : PageStep toFloat coerced p p' evs) : Timed (tr ++ evs) p' := by
  cases hstep with
  | connection c event hmove => exact ⟨h.paced.move hmove, h.kept, h.few⟩
  | receive stream text hopen =>
      have hretries : p.connection.retries = 0 := by
        rcases h.paced.alone with ⟨-, hzero⟩ | ⟨hnone, -⟩
        · exact hzero
        · rw [hopen] at hnone
          cases hnone
      have hread : Paced tr { p.connection with
          source := some (.opened (stream.read text).1) } :=
        ⟨Or.inl ⟨Option.some_ne_none _, hretries⟩, h.paced.delay,
          h.paced.waited⟩
      have hstart : Timed tr { p with connection := { p.connection with
          source := some (.opened (stream.read text).1) } } :=
        ⟨hread, h.kept, h.few⟩
      have htimed : Timed tr
          (((stream.read text).2.filterMap (reportIn toFloat)).foldl
            (fun p r => p.add coerced r) _) := hstart.foldl _
      have hquiet := isQuiet_received text (stream.read text).2
        ((stream.read text).2.filterMap (reportIn toFloat))
      exact ⟨htimed.paced.quiet hquiet, htimed.kept, htimed.few⟩
  | updateQueue htimer =>
      rw [List.append_nil]
      exact ⟨h.paced, h.kept, h.few⟩
  | particles q hmove =>
      rw [List.append_nil]
      exact ⟨h.paced, h.kept, h.few.move hmove⟩
  | button b hmove =>
      rw [List.append_nil]
      exact ⟨h.paced, h.kept.move hmove, h.few⟩

theorem timed_init : Timed [] Page.init where
  paced :=
    { alone := Or.inl ⟨Option.some_ne_none _, rfl⟩
      delay := by
        norm_num [backoff, failures, Page.init, Connection.init]
      waited := fun tr₁ tr₂ delay heq =>
        absurd heq.symm (List.append_ne_nil_of_right_ne_nil _
          (List.cons_ne_nil _ _)) }
  kept := ⟨rfl, fun heq => by cases heq⟩
  few := Nat.zero_le _

theorem timed_run (h : (page toFloat coerced).Reaches .init tr p) :
    Timed tr p := by
  refine h.invariant (I := Timed) timed_init ?_
  intro tr p a p' evs htimed _ hstep
  exact htimed.step (pageStep_of_eq hstep)

/-- A page has one connection or one timer that opens one, and it waits between
one and ten seconds, half as long again after each failure since it was last
connected.  Its replay button is disabled just as long as its request or the
timer behind it is under way, so there is never a second one; and there are at
most 301 particles. -/
theorem page_keeps_time (h : (page toFloat coerced).Reaches .init tr p) :
    ((p.connection.source ≠ none ∧ p.connection.retries = 0) ∨
      (p.connection.source = none ∧ p.connection.retries = 1)) ∧
    (∀ tr₁ tr₂ delay, tr = tr₁ ++ .failed delay :: tr₂ →
      delay = min (1000 * (3 / 2) ^ failures tr₁) 10000 ∧ 1000 ≤ delay) ∧
    p.button.fetches + p.button.resetTimers =
      (if p.button.disabled then 1 else 0) ∧
    (p.button.text = .replaying → p.button.disabled = true) ∧
    p.particles.toBroker + p.particles.fromBroker ≤ 301 := by
  have htimed := timed_run h
  refine ⟨htimed.paced.alone, ?_, htimed.kept.pending, htimed.kept.replaying,
    htimed.few⟩
  intro tr₁ tr₂ delay heq
  have hdelay := htimed.paced.waited tr₁ tr₂ delay heq
  exact ⟨hdelay, hdelay ▸ (backoff_bounds _).1⟩

theorem page_keeps_time_failing : ∃ tr p,
    (page (fun _ => .nan) fun _ _ => false).Reaches .init tr p ∧
    p.connection.source = none ∧ p.connection.retries = 1 ∧
    p.button.fetches + p.button.resetTimers = 1 := by
  have hexec : ((page (fun _ => .nan) fun _ _ => false).exec
      (fun _ _ => True) .init [.click, .onerror, .connectSSE, .onerror]).any
        (fun r => r.1.connection.source = none ∧ r.1.button.disabled = true) =
          true := by
    decide +kernel
  obtain ⟨⟨p, tr⟩, hrun, hany⟩ := (Option.any_eq_true _ _).mp hexec
  have h := System.exec_run _ hrun
  obtain ⟨hsource, hdisabled⟩ := of_decide_eq_true hany
  obtain ⟨halone, -, hpending, -, -⟩ := page_keeps_time h
  rw [hdisabled] at hpending
  rcases halone with ⟨hne, -⟩ | ⟨-, hretries⟩
  · exact absurd hsource hne
  · exact ⟨tr, p, h, hsource, hretries, hpending⟩

end SentinelHub.Dashboard
