import Mathlib.Data.List.Infix
import Mathlib.Data.List.TakeDrop

/-!
# Length-prefixed framing

A framing of a byte-like alphabet has a header of a fixed positive size, and
the header announces how many symbols follow it.  This module develops what
such a framing gives for arbitrary strings: the frames a string starts with,
the symbols left over, uniqueness of the decomposition, and the positions at
which the frames of a string start.

The alphabet and the announced length are arbitrary, so that a file reader, a
network reader and a cut or growing string can all be compared through the
same `parse`.
-/

namespace SentinelHub.Support

/-- A fixed-size header and the body length it announces. -/
structure Framing (α : Type*) where
  headerSize : ℕ
  headerSize_pos : 0 < headerSize
  bodyLength : List α → ℕ

namespace Framing

variable {α : Type*} (F : Framing α)

/-- Length of the frame that the header at the start of `s` announces. -/
def frameLength (s : List α) : ℕ :=
  F.headerSize + F.bodyLength (s.take F.headerSize)

/-- `s` starts with one complete frame. -/
def HasFrame (s : List α) : Prop :=
  F.headerSize ≤ s.length ∧ F.frameLength s ≤ s.length

instance (s : List α) : Decidable (F.HasFrame s) :=
  inferInstanceAs (Decidable (_ ∧ _))

/-- `f` is one complete frame and nothing else. -/
def IsFrame (f : List α) : Prop :=
  F.headerSize ≤ f.length ∧ f.length = F.frameLength f

instance (f : List α) : Decidable (F.IsFrame f) :=
  inferInstanceAs (Decidable (_ ∧ _))

theorem frameLength_pos (s : List α) : 0 < F.frameLength s :=
  Nat.add_pos_left F.headerSize_pos _

/-- The complete frames that `s` starts with, in order. -/
def parse (s : List α) : List (List α) :=
  if _h : F.HasFrame s then
    s.take (F.frameLength s) :: parse (s.drop (F.frameLength s))
  else
    []
termination_by s.length
decreasing_by
  have := F.frameLength_pos s
  have := _h.2
  simp only [List.length_drop]
  omega

variable {F} {s t f g r : List α} {fs gs : List (List α)}

/-! ## One frame at the start of a string -/

theorem IsFrame.length_pos (hf : F.IsFrame f) : 0 < f.length := by
  rw [hf.2]
  exact F.frameLength_pos f

theorem IsFrame.headerSize_le (hf : F.IsFrame f) : F.headerSize ≤ f.length :=
  hf.1

theorem frameLength_append (hs : F.headerSize ≤ s.length) :
    F.frameLength (s ++ t) = F.frameLength s := by
  rw [frameLength, frameLength, List.take_append_of_le_length hs]

/-- A longer string announces the same frame, once the header is there. -/
theorem frameLength_eq_of_isPrefix (hst : s <+: t)
    (hs : F.headerSize ≤ s.length) : F.frameLength t = F.frameLength s := by
  obtain ⟨u, rfl⟩ := hst
  exact frameLength_append hs

theorem HasFrame.of_isPrefix (hst : s <+: t) (hs : F.HasFrame s) :
    F.HasFrame t := by
  have hlen := hst.length_le
  refine ⟨hs.1.trans hlen, ?_⟩
  rw [frameLength_eq_of_isPrefix hst hs.1]
  exact hs.2.trans hlen

theorem IsFrame.hasFrame (hf : F.IsFrame f) : F.HasFrame f :=
  ⟨hf.1, hf.2.ge⟩

theorem IsFrame.hasFrame_append (hf : F.IsFrame f) (t : List α) :
    F.HasFrame (f ++ t) :=
  hf.hasFrame.of_isPrefix (List.prefix_append f t)

theorem not_hasFrame_nil : ¬F.HasFrame ([] : List α) := by
  intro h
  have := F.headerSize_pos
  have := h.1
  simp only [List.length_nil] at this
  omega

theorem HasFrame.isFrame_take (hs : F.HasFrame s) :
    F.IsFrame (s.take (F.frameLength s)) := by
  have hle : F.headerSize ≤ F.frameLength s := Nat.le_add_right _ _
  have hlen : (s.take (F.frameLength s)).length = F.frameLength s := by
    rw [List.length_take, Nat.min_eq_left hs.2]
  refine ⟨by omega, ?_⟩
  rw [hlen]
  exact frameLength_eq_of_isPrefix (List.take_prefix _ _) (by omega)

/-- A proper prefix of a frame does not contain a complete frame. -/
theorem IsFrame.not_hasFrame_take {n : ℕ} (hf : F.IsFrame f)
    (hn : n < f.length) : ¬F.HasFrame (f.take n) := by
  intro h
  have hlen : (f.take n).length = n := by
    rw [List.length_take]
    omega
  have heq := frameLength_eq_of_isPrefix (List.take_prefix n f) h.1
  have hle := h.2
  rw [← heq, ← hf.2, hlen] at hle
  omega

/-- Two frames at the start of the same string are equal. -/
theorem IsFrame.eq_of_isPrefix (hf : F.IsFrame f) (hg : F.IsFrame g)
    (hfs : f <+: s) (hgs : g <+: s) : f = g := by
  have hlen : f.length = g.length := by
    rw [hf.2, hg.2, ← frameLength_eq_of_isPrefix hfs hf.1,
      ← frameLength_eq_of_isPrefix hgs hg.1]
  have hfg : f <+: g := List.prefix_of_prefix_length_le hfs hgs hlen.le
  exact hfg.eq_of_length hlen

/-! ## Parsing a whole string -/

theorem parse_of_not_hasFrame (hs : ¬F.HasFrame s) : F.parse s = [] := by
  rw [parse, dif_neg hs]

theorem parse_of_hasFrame (hs : F.HasFrame s) :
    F.parse s =
      s.take (F.frameLength s) :: F.parse (s.drop (F.frameLength s)) := by
  rw [parse, dif_pos hs]

@[simp] theorem parse_nil : F.parse ([] : List α) = [] :=
  parse_of_not_hasFrame not_hasFrame_nil

theorem parse_cons (hf : F.IsFrame f) (t : List α) :
    F.parse (f ++ t) = f :: F.parse t := by
  have hlen : F.frameLength (f ++ t) = f.length := by
    rw [frameLength_append hf.1, ← hf.2]
  rw [parse_of_hasFrame (hf.hasFrame_append t), hlen]
  simp

/-- Frames at the front of a string are the first ones parsed. -/
theorem parse_flatten_append (hfs : ∀ f ∈ fs, F.IsFrame f) (t : List α) :
    F.parse (fs.flatten ++ t) = fs ++ F.parse t := by
  induction fs with
  | nil => simp
  | cons f fs ih =>
      have hf : F.IsFrame f := hfs f (List.mem_cons_self ..)
      have htail : ∀ g ∈ fs, F.IsFrame g := fun g hg =>
        hfs g (List.mem_cons_of_mem _ hg)
      rw [List.flatten_cons, List.append_assoc, parse_cons hf, ih htail]
      rfl

theorem parse_flatten (hfs : ∀ f ∈ fs, F.IsFrame f) :
    F.parse fs.flatten = fs := by
  simpa using parse_flatten_append hfs []

/-- Every string is its frames followed by symbols that hold no complete
frame. -/
theorem exists_rest (s : List α) :
    ∃ r, s = (F.parse s).flatten ++ r ∧ ¬F.HasFrame r := by
  induction s using parse.induct F with
  | case1 s hs ih =>
      obtain ⟨r, heq, hr⟩ := ih
      refine ⟨r, ?_, hr⟩
      rw [parse_of_hasFrame hs, List.flatten_cons, List.append_assoc, ← heq,
        List.take_append_drop]
  | case2 s hs =>
      exact ⟨s, by rw [parse_of_not_hasFrame hs]; rfl, hs⟩

variable (F) in
/-- What is left of a string behind its complete frames. -/
def rest (s : List α) : List α :=
  s.drop (F.parse s).flatten.length

theorem flatten_parse_append_rest (s : List α) :
    (F.parse s).flatten ++ F.rest s = s := by
  obtain ⟨r, heq, -⟩ := F.exists_rest s
  have hrest : F.rest s = r :=
    (congrArg (List.drop _) heq).trans List.drop_left
  rw [hrest, ← heq]

theorem not_hasFrame_rest (s : List α) : ¬F.HasFrame (F.rest s) := by
  obtain ⟨r, heq, hr⟩ := F.exists_rest s
  have hrest : F.rest s = r :=
    List.append_cancel_left ((flatten_parse_append_rest s).trans heq)
  rwa [hrest]

theorem rest_of_not_hasFrame (hs : ¬F.HasFrame s) : F.rest s = s := by
  rw [rest, parse_of_not_hasFrame hs]
  rfl

/-- Frames at the front of a string do not change what is left of it. -/
theorem rest_flatten_append (hfs : ∀ f ∈ fs, F.IsFrame f) (t : List α) :
    F.rest (fs.flatten ++ t) = F.rest t := by
  rw [rest, rest, parse_flatten_append hfs, List.flatten_append,
    List.length_append, ← List.drop_drop, List.drop_left]

theorem isFrame_of_mem_parse : ∀ f ∈ F.parse s, F.IsFrame f := by
  induction s using parse.induct F with
  | case1 s hs ih =>
      intro f hf
      rw [parse_of_hasFrame hs, List.mem_cons] at hf
      rcases hf with rfl | hf
      · exact hs.isFrame_take
      · exact ih f hf
  | case2 s hs =>
      intro f hf
      rw [parse_of_not_hasFrame hs] at hf
      cases hf

theorem flatten_parse_isPrefix (s : List α) : (F.parse s).flatten <+: s := by
  obtain ⟨r, heq, -⟩ := F.exists_rest s
  exact ⟨r, heq.symm⟩

/-- The frames of a string are `gs` exactly when the string is these frames
followed by symbols without a complete frame. -/
theorem parse_eq_iff (hgs : ∀ g ∈ gs, F.IsFrame g) :
    F.parse s = gs ↔ ∃ r, s = gs.flatten ++ r ∧ ¬F.HasFrame r := by
  constructor
  · rintro rfl
    exact F.exists_rest s
  · rintro ⟨r, rfl, hr⟩
    rw [parse_flatten_append hgs, parse_of_not_hasFrame hr, List.append_nil]

/-- Symbols put in front of a concatenation of frames leave the parsed frames
unchanged exactly when the concatenation comes first in the joined string as
well, with nothing but an incomplete frame behind it. -/
theorem parse_append_flatten_eq_iff (p : List α)
    (hgs : ∀ g ∈ gs, F.IsFrame g) :
    F.parse (p ++ gs.flatten) = gs ↔
      ∃ r, p ++ gs.flatten = gs.flatten ++ r ∧ r.length = p.length ∧
        ¬F.HasFrame r := by
  rw [parse_eq_iff hgs]
  constructor
  · rintro ⟨r, heq, hr⟩
    have hlen := congrArg List.length heq
    simp only [List.length_append] at hlen
    exact ⟨r, heq, by omega, hr⟩
  · rintro ⟨r, heq, -, hr⟩
    exact ⟨r, heq, hr⟩

/-- Frames that lie consecutively at the front of a string are an initial
segment of its parsed frames. -/
theorem isPrefix_parse (hfs : ∀ f ∈ fs, F.IsFrame f)
    (h : fs.flatten <+: s) : fs <+: F.parse s := by
  obtain ⟨t, rfl⟩ := h
  rw [parse_flatten_append hfs]
  exact List.prefix_append fs _

/-- Cutting a concatenation of frames at position `n` leaves the frames that
end before the cut. -/
theorem parse_take_flatten (hfs : ∀ f ∈ fs, F.IsFrame f) (n : ℕ) :
    ∃ k, F.parse (fs.flatten.take n) = fs.take k ∧
      ∀ i < fs.length, i < k ↔ (fs.take (i + 1)).flatten.length ≤ n := by
  induction fs generalizing n with
  | nil => exact ⟨0, by simp, by simp⟩
  | cons f fs ih =>
      have hf : F.IsFrame f := hfs f (List.mem_cons_self ..)
      by_cases hfit : f.length ≤ n
      · obtain ⟨k, hparse, hk⟩ :=
          ih (fun g hg => hfs g (List.mem_cons_of_mem _ hg)) (n - f.length)
        refine ⟨k + 1, ?_, ?_⟩
        · rw [List.flatten_cons, List.take_append,
            List.take_of_length_le hfit, parse_cons hf, hparse]
          rfl
        · intro i hi
          cases i with
          | zero => simpa using hfit
          | succ i =>
              have := hk i (Nat.lt_of_succ_lt_succ hi)
              rw [List.take_succ_cons, List.flatten_cons, List.length_append]
              omega
      · refine ⟨0, ?_, ?_⟩
        · rw [List.flatten_cons,
            List.take_append_of_le_length (Nat.le_of_not_le hfit)]
          exact parse_of_not_hasFrame
            (hf.not_hasFrame_take (Nat.lt_of_not_le hfit))
        · intro i _
          rw [List.take_succ_cons, List.flatten_cons, List.length_append]
          omega

/-- Behind its first frames a string holds the frames that follow them. -/
theorem parse_drop_flatten (h : fs <+: F.parse s) :
    F.parse (s.drop fs.flatten.length) = (F.parse s).drop fs.length := by
  obtain ⟨gs, hgs⟩ := h
  obtain ⟨r, heq, -⟩ := F.exists_rest s
  have hmem : ∀ f ∈ fs, F.IsFrame f := fun f hf =>
    isFrame_of_mem_parse f (hgs ▸ List.mem_append_left gs hf)
  have hdrop : s.drop fs.flatten.length = gs.flatten ++ r := by
    rw [heq, ← hgs, List.flatten_append, List.append_assoc, List.drop_left]
  have hparse := parse_flatten_append hmem (gs.flatten ++ r)
  rw [← List.append_assoc, ← List.flatten_append, hgs, ← heq] at hparse
  rw [hdrop, hparse, List.drop_left]

/-! ## Strings that are nothing but frames -/

variable (F) in
/-- `s` is a concatenation of complete frames. -/
def Framed (s : List α) : Prop :=
  ∃ fs : List (List α), (∀ f ∈ fs, F.IsFrame f) ∧ s = fs.flatten

theorem framed_nil : F.Framed ([] : List α) :=
  ⟨[], by simp, rfl⟩

theorem IsFrame.framed (hf : F.IsFrame f) : F.Framed f :=
  ⟨[f], by simpa using hf, by simp⟩

theorem Framed.append (hs : F.Framed s) (ht : F.Framed t) :
    F.Framed (s ++ t) := by
  obtain ⟨fs, hfs, rfl⟩ := hs
  obtain ⟨gs, hgs, rfl⟩ := ht
  refine ⟨fs ++ gs, ?_, by simp⟩
  intro f hf
  rw [List.mem_append] at hf
  exact hf.elim (hfs f) (hgs f)

theorem Framed.flatten_parse (hs : F.Framed s) : (F.parse s).flatten = s := by
  obtain ⟨fs, hfs, rfl⟩ := hs
  rw [parse_flatten hfs]

/-- What follows the first frames of a framed string is framed. -/
theorem Framed.of_append (h : F.Framed (s ++ t)) (hs : F.Framed s) :
    F.Framed t := by
  obtain ⟨fs, hfs, rfl⟩ := hs
  refine ⟨F.parse t, isFrame_of_mem_parse, ?_⟩
  have heq := h.flatten_parse
  rw [parse_flatten_append hfs, List.flatten_append] at heq
  exact (List.append_cancel_left heq).symm

theorem Framed.hasFrame (hs : F.Framed s) (hne : s ≠ []) : F.HasFrame s := by
  obtain ⟨fs, hfs, rfl⟩ := hs
  cases fs with
  | nil => exact absurd rfl hne
  | cons f fs =>
      rw [List.flatten_cons]
      exact (hfs f (List.mem_cons_self ..)).hasFrame_append _

/-! ## Positions -/

variable (F) in
/-- Position `p` of `s` lies between frames, counting from the start. -/
def Boundary (s : List α) (p : ℕ) : Prop :=
  ∃ t, F.Framed t ∧ t <+: s ∧ t.length = p

variable (F) in
/-- The frame `f` starts at the boundary `p` of `s`. -/
def FrameAt (s : List α) (p : ℕ) (f : List α) : Prop :=
  F.IsFrame f ∧ ∃ t, F.Framed t ∧ t ++ f <+: s ∧ t.length = p

variable {p q : ℕ}

theorem Boundary.le_length (h : F.Boundary s p) : p ≤ s.length := by
  obtain ⟨t, -, ht, rfl⟩ := h
  exact ht.length_le

/-- A boundary of a longer string that still falls inside the shorter one is
a boundary of the shorter one. -/
theorem Boundary.of_le (hst : s <+: t) (h : F.Boundary t p)
    (hp : p ≤ s.length) : F.Boundary s p := by
  obtain ⟨u, hu, hut, rfl⟩ := h
  exact ⟨u, hu, List.prefix_of_prefix_length_le hut hst hp, rfl⟩

theorem boundary_zero (s : List α) : F.Boundary s 0 :=
  ⟨[], framed_nil, List.nil_prefix, rfl⟩

/-- Frames in front only shift the boundaries behind them. -/
theorem Framed.boundary_append_iff (hs : F.Framed s) :
    F.Boundary (s ++ t) (s.length + p) ↔ F.Boundary t p := by
  constructor
  · rintro ⟨u, hu, hut, hlen⟩
    have hsu : s <+: u :=
      List.prefix_of_prefix_length_le (List.prefix_append s t) hut (by omega)
    obtain ⟨v, rfl⟩ := hsu
    rw [List.length_append] at hlen
    exact ⟨v, hu.of_append hs, (List.prefix_append_right_inj s).mp hut,
      by omega⟩
  · rintro ⟨v, hv, hvt, rfl⟩
    exact ⟨s ++ v, hs.append hv, (List.prefix_append_right_inj s).mpr hvt,
      List.length_append⟩

theorem FrameAt.boundary (h : F.FrameAt s p f) : F.Boundary s p := by
  obtain ⟨-, t, ht, hts, rfl⟩ := h
  exact ⟨t, ht, (List.prefix_append t f).trans hts, rfl⟩

theorem FrameAt.boundary_end (h : F.FrameAt s p f) :
    F.Boundary s (p + f.length) := by
  obtain ⟨hf, t, ht, hts, rfl⟩ := h
  exact ⟨t ++ f, ht.append hf.framed, hts, List.length_append⟩

theorem FrameAt.of_isPrefix (hst : s <+: t) (h : F.FrameAt s p f) :
    F.FrameAt t p f := by
  obtain ⟨hf, u, hu, hus, rfl⟩ := h
  exact ⟨hf, u, hu, hus.trans hst, rfl⟩

theorem FrameAt.end_le (h : F.FrameAt s p f) : p + f.length ≤ s.length :=
  h.boundary_end.le_length

theorem FrameAt.prefix_drop (h : F.FrameAt s p f) : f <+: s.drop p := by
  obtain ⟨-, t, -, ⟨u, rfl⟩, rfl⟩ := h
  rw [List.append_assoc, List.drop_left]
  exact List.prefix_append f u

theorem Boundary.frameAt (h : F.Boundary s p) (hf : F.IsFrame f)
    (hfs : f <+: s.drop p) : F.FrameAt s p f := by
  obtain ⟨t, ht, ⟨u, rfl⟩, rfl⟩ := h
  rw [List.drop_left] at hfs
  refine ⟨hf, t, ht, ?_, rfl⟩
  exact (List.prefix_append_right_inj t).mpr hfs

/-- Frames in front only shift the frames behind them. -/
theorem Framed.frameAt_append_iff (hs : F.Framed s) :
    F.FrameAt (s ++ t) (s.length + p) f ↔ F.FrameAt t p f := by
  have hdrop : (s ++ t).drop (s.length + p) = t.drop p := by
    rw [List.drop_append, List.drop_eq_nil_of_le (Nat.le_add_right _ _),
      List.nil_append, Nat.add_sub_cancel_left]
  constructor
  · intro h
    have hpre := h.prefix_drop
    rw [hdrop] at hpre
    exact (hs.boundary_append_iff.mp h.boundary).frameAt h.1 hpre
  · intro h
    have hpre := h.prefix_drop
    rw [← hdrop] at hpre
    exact (hs.boundary_append_iff.mpr h.boundary).frameAt h.1 hpre

/-- A position holds at most one frame. -/
theorem FrameAt.unique (hf : F.FrameAt s p f) (hg : F.FrameAt s p g) :
    f = g :=
  hf.1.eq_of_isPrefix hg.1 hf.prefix_drop hg.prefix_drop

/-- Boundaries do not fall inside a frame. -/
theorem FrameAt.end_le_of_lt (hf : F.FrameAt s p f) (hq : F.Boundary s q)
    (hpq : p < q) : p + f.length ≤ q := by
  obtain ⟨hff, t, ht, hts, rfl⟩ := hf
  obtain ⟨u, hu, hus, rfl⟩ := hq
  have htu : t <+: u :=
    List.prefix_of_prefix_length_le
      ((List.prefix_append t f).trans hts) hus hpq.le
  obtain ⟨v, rfl⟩ := htu
  have hv : F.Framed v := hu.of_append ht
  have hne : v ≠ [] := by
    rintro rfl
    simp at hpq
  have hvf := hv.hasFrame hne
  obtain ⟨w, rfl⟩ := hus
  rw [List.append_assoc, List.prefix_append_right_inj] at hts
  have hlen : F.frameLength v = f.length := by
    rw [hff.2, ← frameLength_eq_of_isPrefix hts hff.1,
      frameLength_append hvf.1]
  have := hvf.2
  rw [List.length_append]
  omega

/-- The frames of a framed string with one more frame at its end. -/
theorem Framed.frameAt_append (hs : F.Framed s) (hg : F.IsFrame g)
    (h : F.FrameAt (s ++ g) p f) :
    F.FrameAt s p f ∨ (p = s.length ∧ f = g) := by
  have hend : F.FrameAt (s ++ g) s.length g :=
    ⟨hg, s, hs, List.prefix_refl _, rfl⟩
  rcases lt_trichotomy p s.length with hlt | rfl | hgt
  · left
    have hle := h.end_le_of_lt hend.boundary hlt
    refine (h.boundary.of_le (List.prefix_append s g) (by omega)).frameAt
      h.1 ?_
    have hpre := h.prefix_drop
    rw [List.drop_append_of_le_length (by omega)] at hpre
    refine List.prefix_of_prefix_length_le hpre (List.prefix_append _ _) ?_
    rw [List.length_drop]
    omega
  · exact Or.inr ⟨rfl, h.unique hend⟩
  · have hle := hend.end_le_of_lt h.boundary hgt
    have hend' := h.end_le
    have hpos := h.1.length_pos
    rw [List.length_append] at hend'
    omega

/-! ## Frames with their positions -/

/-- Strings that lie one behind the other from `start` on, each with the
position at which it starts. -/
def locate : ℕ → List (List α) → List (List α × ℕ)
  | _, [] => []
  | start, f :: fs => (f, start) :: locate (start + f.length) fs

theorem locate_append (start : ℕ) (fs gs : List (List α)) :
    locate start (fs ++ gs) =
      locate start fs ++ locate (start + fs.flatten.length) gs := by
  induction fs generalizing start with
  | nil => simp [locate]
  | cons f fs ih => simp [locate, ih, Nat.add_assoc]

@[simp] theorem map_fst_locate (start : ℕ) (fs : List (List α)) :
    (locate start fs).map Prod.fst = fs := by
  induction fs generalizing start with
  | nil => rfl
  | cons f fs ih => rw [locate, List.map_cons, ih]

theorem mem_locate_iff {start : ℕ} :
    (f, q) ∈ locate start fs ↔
      ∃ before after, fs = before ++ f :: after ∧
        q = start + before.flatten.length := by
  constructor
  · intro h
    induction fs generalizing start with
    | nil => cases h
    | cons g fs ih =>
        rw [locate, List.mem_cons] at h
        rcases h with h | h
        · cases h
          exact ⟨[], fs, rfl, rfl⟩
        · obtain ⟨before, after, rfl, rfl⟩ := ih h
          refine ⟨g :: before, after, rfl, ?_⟩
          rw [List.flatten_cons, List.length_append, Nat.add_assoc]
  · rintro ⟨before, after, rfl, rfl⟩
    rw [locate_append, locate]
    exact List.mem_append_right _ (List.mem_cons_self ..)

/-- Locating the parsed frames finds the frames of a string. -/
theorem mem_locate_parse_iff {start : ℕ} :
    (f, start + p) ∈ locate start (F.parse s) ↔ F.FrameAt s p f := by
  rw [mem_locate_iff]
  constructor
  · rintro ⟨before, after, heq, hp⟩
    have hmem : ∀ g ∈ before, F.IsFrame g := fun g hg =>
      isFrame_of_mem_parse g (by rw [heq]; exact List.mem_append_left _ hg)
    have hf : F.IsFrame f :=
      isFrame_of_mem_parse f (by rw [heq]; simp)
    refine ⟨hf, before.flatten, ⟨before, hmem, rfl⟩, ?_, by omega⟩
    refine List.IsPrefix.trans ?_ (flatten_parse_isPrefix (F := F) s)
    rw [heq, List.flatten_append, List.flatten_cons, ← List.append_assoc]
    exact List.prefix_append _ _
  · rintro ⟨hf, t, ⟨before, hbefore, rfl⟩, hpre, rfl⟩
    have hmem : ∀ g ∈ before ++ [f], F.IsFrame g := by
      intro g hg
      rw [List.mem_append, List.mem_singleton] at hg
      rcases hg with hg | rfl
      · exact hbefore g hg
      · exact hf
    have hflat : (before ++ [f]).flatten <+: s := by
      rwa [List.flatten_append, List.flatten_singleton]
    obtain ⟨after, hparse⟩ := isPrefix_parse hmem hflat
    exact ⟨before, after, by rw [← hparse, List.append_assoc]; rfl, rfl⟩

/-- Frames start one behind the other. -/
theorem pairwise_locate (hfs : ∀ f ∈ fs, F.IsFrame f) (start : ℕ) :
    (locate start fs).Pairwise fun a b => a.2 < b.2 := by
  induction fs generalizing start with
  | nil => exact List.Pairwise.nil
  | cons f fs ih =>
      have hpos := (hfs f (List.mem_cons_self ..)).length_pos
      have htail : ∀ g ∈ fs, F.IsFrame g := fun g hg =>
        hfs g (List.mem_cons_of_mem _ hg)
      refine List.Pairwise.cons ?_ (ih htail _)
      rintro ⟨g, q⟩ hg
      obtain ⟨before, after, -, rfl⟩ := mem_locate_iff.mp hg
      change start < _
      omega

end Framing

end SentinelHub.Support
