import SentinelHub.Support.Framing

/-!
# Readers of a stream

A reader takes the next item off the front of a stream; it can also see the
end of the stream, or fail.  Reading goes on until the reader stops, and it
always stops, since every item takes something from the stream.

The main case is a reader that takes the frames of a `Framing` one by one.
What such a reader delivers is then a matter of the framing alone, and two
readers of one framing differ in nothing but how they stop.
-/

namespace SentinelHub.Support

/-- How to take the next item off a stream: the item and what is left of the
stream, or `none` at its end. -/
structure Reader (α β ε : Type*) where
  read : List α → Except ε (Option (β × List α))
  shortens : ∀ {s b r}, read s = .ok (some (b, r)) → r.length < s.length

namespace Reader

variable {α β γ ε : Type*} (R : Reader α β ε) {s r : List α} {b : β}

/-- Read until the reader stops: the items, and how it stopped. -/
def readAll (s : List α) : List β × Except ε Unit :=
  match h : R.read s with
  | .error e => ([], .error e)
  | .ok none => ([], .ok ())
  | .ok (some (b, r)) =>
      have := R.shortens h
      let (bs, stop) := readAll r
      (b :: bs, stop)
termination_by s.length

variable {R}

theorem readAll_of_error {e : ε} (h : R.read s = .error e) :
    R.readAll s = ([], .error e) := by
  rw [readAll]
  split <;> simp_all

theorem readAll_of_none (h : R.read s = .ok none) :
    R.readAll s = ([], .ok ()) := by
  rw [readAll]
  split <;> simp_all

theorem readAll_of_some (h : R.read s = .ok (some (b, r))) :
    R.readAll s = (b :: (R.readAll r).1, (R.readAll r).2) := by
  rw [readAll]
  split <;> simp_all

/-! ## Readers of a framing -/

/-- `R` takes the frames of `F` as `item` shows them, and where there is no
complete frame it stops as `stop` says. -/
structure Reads (R : Reader α β ε) (F : Framing α) (item : List α → β)
    (stop : List α → Except ε Unit) : Prop where
  frame : ∀ f t, F.IsFrame f → R.read (f ++ t) = .ok (some (item f, t))
  stop : ∀ r, ¬F.HasFrame r → R.read r = (stop r).map fun _ => none

variable {F : Framing α} {item : List α → β} {stop : List α → Except ε Unit}

/-- Reading delivers the frames of the stream, and stops on what is left
behind them. -/
theorem Reads.readAll_eq (h : R.Reads F item stop) (s : List α) :
    R.readAll s = ((F.parse s).map item, stop (F.rest s)) := by
  have hframes : ∀ f ∈ F.parse s, F.IsFrame f := Framing.isFrame_of_mem_parse
  have hstop : ∀ r, ¬F.HasFrame r → R.readAll r = ([], stop r) := by
    intro r hr
    have hread := h.stop r hr
    cases heq : stop r with
    | error e =>
        rw [heq] at hread
        exact readAll_of_error hread
    | ok u =>
        rw [heq] at hread
        exact readAll_of_none hread
  have hrun : ∀ fs : List (List α), (∀ f ∈ fs, F.IsFrame f) →
      R.readAll (fs.flatten ++ F.rest s) =
        (fs.map item, stop (F.rest s)) := by
    intro fs hfs
    induction fs with
    | nil => exact hstop _ (Framing.not_hasFrame_rest s)
    | cons f fs ih =>
        have hread := h.frame f (fs.flatten ++ F.rest s)
          (hfs f (List.mem_cons_self ..))
        have htail := ih fun g hg => hfs g (List.mem_cons_of_mem _ hg)
        rw [List.flatten_cons, List.append_assoc, readAll_of_some hread, htail]
        rfl
  have hall := hrun (F.parse s) hframes
  rwa [Framing.flatten_parse_append_rest] at hall

end Reader

end SentinelHub.Support
