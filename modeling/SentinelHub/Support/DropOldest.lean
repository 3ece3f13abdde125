import Mathlib.Data.List.DropRight
import Mathlib.Data.List.Pairwise
import Mathlib.Tactic.Common

/-!
# Bounded buffers that drop their oldest element

A buffer of limited capacity between one who puts elements in and one who takes
them out, oldest first.  Into a full buffer an element is put in the place of
the oldest one.

Nothing is said about what the two do to each other by such a buffer alone.
Beside it stands a reader of an unbounded feed, who remembers only which
elements of the feed it has taken, and who can reach no further back than the
capacity.  Both are told of the same uses, and the buffer holds what the reader
can still take.
-/

namespace SentinelHub.Support

variable {α : Type*}

/-- What is done to a buffer. -/
inductive BufferUse (α : Type*)
  | put (x : α)
  | take
  deriving DecidableEq, Repr

/-- The elements put into the buffer, in this order. -/
def feedOf (uses : List (BufferUse α)) : List α :=
  uses.filterMap fun
    | .put x => some x
    | .take => none

/-! ## The buffer -/

/-- Put an element at the end, and give up the oldest one if there is no room
for it. -/
def pushDropOldest (capacity : ℕ) (items : List α) (x : α) : List α :=
  (if capacity ≤ items.length then items.tail else items) ++ [x]

/-- What is in the buffer, oldest first, and what has been taken from it. -/
structure DropOldest (α : Type*) where
  items : List α
  taken : List α
  deriving DecidableEq, Repr

def DropOldest.empty : DropOldest α where
  items := []
  taken := []

/-- Nothing is taken from an empty buffer. -/
def DropOldest.use (capacity : ℕ) (buffer : DropOldest α) :
    BufferUse α → DropOldest α
  | .put x => { buffer with items := pushDropOldest capacity buffer.items x }
  | .take =>
      match buffer.items with
      | [] => buffer
      | x :: items => { items, taken := buffer.taken ++ [x] }

/-- The buffer after a number of uses. -/
def DropOldest.after (capacity : ℕ) (uses : List (BufferUse α)) :
    DropOldest α :=
  uses.foldl (DropOldest.use capacity) .empty

/-! ## The reader of a feed -/

/-- A feed and the positions in it of the elements that have been taken. -/
structure FeedReader (α : Type*) where
  feed : List α
  positions : List ℕ
  deriving DecidableEq, Repr

namespace FeedReader

def empty : FeedReader α where
  feed := []
  positions := []

/-- The position behind the element taken last. -/
def cursor (r : FeedReader α) : ℕ :=
  match r.positions.getLast? with
  | none => 0
  | some p => p + 1

/-- The elements put into the feed since the one taken last, or since the
beginning. -/
def unseen (r : FeedReader α) : List α :=
  r.feed.drop r.cursor

/-- The last of these, as many as the capacity allows. -/
def window (capacity : ℕ) (r : FeedReader α) : List α :=
  r.unseen.rtake (min r.unseen.length capacity)

/-- The reader takes the first element of its window. -/
def use (capacity : ℕ) (r : FeedReader α) : BufferUse α → FeedReader α
  | .put x => { r with feed := r.feed ++ [x] }
  | .take =>
      if r.window capacity = [] then r
      else
        { r with
          positions :=
            r.positions ++ [r.feed.length - (r.window capacity).length] }

/-- The reader after a number of uses. -/
def after (capacity : ℕ) (uses : List (BufferUse α)) : FeedReader α :=
  uses.foldl (use capacity) .empty

variable {capacity : ℕ} {r : FeedReader α} {uses : List (BufferUse α)}

theorem feed_after (capacity : ℕ) (uses : List (BufferUse α)) :
    (after capacity uses).feed = feedOf uses := by
  induction uses using List.reverseRecOn with
  | nil => rfl
  | append_singleton uses u ih =>
      rw [after, List.foldl_append, feedOf, List.filterMap_append, ← feedOf,
        ← ih]
      cases u with
      | put x => rfl
      | take =>
          change (use capacity (after capacity uses) .take).feed = _
          rw [use, List.filterMap_cons_none rfl, List.filterMap_nil,
            List.append_nil]
          split <;> rfl

theorem length_unseen (r : FeedReader α) :
    r.unseen.length = r.feed.length - r.cursor :=
  List.length_drop

theorem length_window (capacity : ℕ) (r : FeedReader α) :
    (r.window capacity).length = min r.unseen.length capacity := by
  rw [window, List.rtake, List.length_drop]
  omega

/-- The window reaches back to the cursor, or as far as the capacity allows. -/
theorem window_eq_drop (capacity : ℕ) (r : FeedReader α) :
    r.window capacity =
      r.feed.drop (max r.cursor (r.feed.length - capacity)) := by
  rw [window, List.rtake, length_unseen, unseen, List.drop_drop]
  by_cases hle : r.cursor ≤ r.feed.length
  · congr 1
    omega
  · rw [List.drop_of_length_le (by omega), List.drop_of_length_le (by omega)]

end FeedReader

/-! ## The buffer holds what the reader can still take -/

/-- The buffer and the reader tell the same. -/
structure DropOldest.Tracks (capacity : ℕ) (buffer : DropOldest α)
    (r : FeedReader α) : Prop where
  items : buffer.items = r.window capacity
  taken : buffer.taken.map some = r.positions.map fun p => r.feed[p]?
  increasing : r.positions.Pairwise (· < ·)
  seen : ∀ p ∈ r.positions, p < r.cursor
  cursor_le : r.cursor ≤ r.feed.length

theorem DropOldest.tracks_empty (capacity : ℕ) :
    (DropOldest.empty : DropOldest α).Tracks capacity .empty where
  items := by simp [empty, FeedReader.window_eq_drop, FeedReader.empty]
  taken := rfl
  increasing := List.Pairwise.nil
  seen := by simp [FeedReader.empty]
  cursor_le := Nat.le_refl 0

theorem DropOldest.Tracks.put {capacity : ℕ} {buffer : DropOldest α}
    {r : FeedReader α} (h : buffer.Tracks capacity r) (hcap : 0 < capacity)
    (x : α) :
    (buffer.use capacity (.put x)).Tracks capacity
      (r.use capacity (.put x)) := by
  have hcursor : (r.use capacity (.put x)).cursor = r.cursor := rfl
  have hle := h.cursor_le
  refine ⟨?_, ?_, h.increasing, h.seen, ?_⟩
  · have hlength : buffer.items.length =
        min (r.feed.length - r.cursor) capacity := by
      rw [h.items, FeedReader.length_window, FeedReader.length_unseen]
    change pushDropOldest capacity buffer.items x = _
    rw [FeedReader.window_eq_drop, hcursor, pushDropOldest, hlength,
      FeedReader.use, List.length_append, List.length_singleton]
    by_cases hfull : capacity ≤ min (r.feed.length - r.cursor) capacity
    · rw [if_pos hfull, h.items, FeedReader.window_eq_drop, List.tail_drop,
        List.drop_append_of_le_length (by omega)]
      congr 2
      omega
    · rw [if_neg hfull, h.items, FeedReader.window_eq_drop,
        List.drop_append_of_le_length (by omega)]
      congr 2
      omega
  · rw [use, h.taken]
    apply List.map_congr_left
    intro p hp
    have hlt := h.seen p hp
    rw [FeedReader.use, List.getElem?_append_left (by omega)]
  · rw [hcursor, FeedReader.use, List.length_append]
    omega

theorem DropOldest.Tracks.take {capacity : ℕ} {buffer : DropOldest α}
    {r : FeedReader α} (h : buffer.Tracks capacity r) :
    (buffer.use capacity .take).Tracks capacity (r.use capacity .take) := by
  have hle := h.cursor_le
  cases hitems : buffer.items with
  | nil =>
      have hwindow : r.window capacity = [] := h.items.symm.trans hitems
      have hbuffer : buffer.use capacity .take = buffer := by
        simp only [use, hitems]
      rw [hbuffer, FeedReader.use, if_pos hwindow]
      exact h
  | cons x items =>
      have hwindow : r.window capacity = x :: items :=
        h.items.symm.trans hitems
      have hne : r.window capacity ≠ [] := by simp [hwindow]
      have hlength := FeedReader.length_window capacity r
      rw [FeedReader.length_unseen, hwindow, List.length_cons] at hlength
      let p := r.feed.length - (items.length + 1)
      have hdrop : r.feed.drop p = x :: items := by
        rw [← hwindow, FeedReader.window_eq_drop]
        congr 1
        omega
      have huse : r.use capacity .take =
          { r with positions := r.positions ++ [p] } := by
        rw [FeedReader.use, if_neg hne, hwindow, List.length_cons]
      have hcursor :
          ({ r with positions := r.positions ++ [p] } : FeedReader α).cursor =
            p + 1 := by
        simp [FeedReader.cursor]
      have hbuffer : buffer.use capacity .take =
          { items, taken := buffer.taken ++ [x] } := by
        simp only [use, hitems]
      rw [huse, hbuffer]
      refine ⟨?_, ?_, ?_, ?_, ?_⟩
      · rw [FeedReader.window_eq_drop, hcursor]
        have hmax : max (p + 1) (r.feed.length - capacity) = p + 1 := by omega
        rw [hmax, ← List.tail_drop, hdrop]
        rfl
      · have hget : r.feed[p]? = some x := by
          rw [← List.head?_drop, hdrop]
          rfl
        simp only [List.map_append, List.map_cons, List.map_nil, h.taken, hget]
      · refine List.pairwise_append.mpr
          ⟨h.increasing, List.pairwise_singleton _ _, ?_⟩
        intro q hq p' hp'
        have hlt := h.seen q hq
        rw [List.mem_singleton.mp hp']
        omega
      · intro q hq
        rw [hcursor]
        rcases List.mem_append.mp hq with hq | hq
        · have hlt := h.seen q hq
          omega
        · rw [List.mem_singleton.mp hq]
          exact Nat.lt_succ_self p
      · rw [hcursor]
        change p + 1 ≤ r.feed.length
        omega

/-- Whatever is put and taken, the buffer holds what the reader of the feed can
still take, and the same elements have been taken from it. -/
theorem DropOldest.tracks_after {capacity : ℕ} (hcap : 0 < capacity)
    (uses : List (BufferUse α)) :
    (DropOldest.after capacity uses).Tracks capacity
      (.after capacity uses) := by
  induction uses using List.reverseRecOn with
  | nil => exact DropOldest.tracks_empty capacity
  | append_singleton uses u ih =>
      rw [DropOldest.after, FeedReader.after, List.foldl_append,
        List.foldl_append]
      cases u with
      | put x => exact ih.put hcap x
      | take => exact ih.take

variable {capacity : ℕ} {uses : List (BufferUse α)}

theorem DropOldest.after_concat (u : BufferUse α) :
    DropOldest.after capacity (uses ++ [u]) =
      (DropOldest.after capacity uses).use capacity u := by
  rw [after, List.foldl_append, List.foldl_cons, List.foldl_nil, ← after]

theorem DropOldest.length_items_le (hcap : 0 < capacity)
    (uses : List (BufferUse α)) :
    (DropOldest.after capacity uses).items.length ≤ capacity := by
  rw [(tracks_after hcap uses).items, FeedReader.length_window]
  exact Nat.min_le_right _ _

theorem feedOf_append (uses uses' : List (BufferUse α)) :
    feedOf (uses ++ uses') = feedOf uses ++ feedOf uses' :=
  List.filterMap_append

/-- What has been taken, and behind it what is in the buffer, is what is left of
the feed when some of its elements have been dropped. -/
theorem DropOldest.taken_append_items_sublist (capacity : ℕ)
    (uses : List (BufferUse α)) :
    ((DropOldest.after capacity uses).taken ++
      (DropOldest.after capacity uses).items).Sublist (feedOf uses) := by
  induction uses using List.reverseRecOn with
  | nil => exact List.Sublist.slnil
  | append_singleton uses u ih =>
      rw [after_concat, feedOf_append]
      generalize DropOldest.after capacity uses = buffer at ih
      cases u with
      | put x =>
          have hkept : (if capacity ≤ buffer.items.length then
              buffer.items.tail else buffer.items).Sublist buffer.items := by
            split
            · exact List.tail_sublist _
            · exact List.Sublist.refl _
          have hall := (hkept.append_left buffer.taken).trans ih
          rw [use, pushDropOldest, ← List.append_assoc]
          exact hall.append_right [x]
      | take =>
          have hnone : feedOf [(.take : BufferUse α)] = [] := rfl
          rw [hnone, List.append_nil]
          cases hitems : buffer.items with
          | nil => simpa only [use, hitems] using ih
          | cons x items =>
              rw [hitems] at ih
              simpa only [use, hitems, List.append_assoc,
                List.singleton_append] using ih

end SentinelHub.Support
