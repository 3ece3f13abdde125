import Mathlib.Algebra.Group.Nat.Defs
import Mathlib.Data.List.Chain
import Mathlib.Data.List.TakeWhile
import Mathlib.Tactic.Common

/-!
# UTF-8

Byte strings read as UTF-8 text.  Where the bytes are not well-formed, the
longest beginning of a character that stands there is given up as a whole, or
else one byte.  The text is measured in the units of UTF-16.
-/

namespace SentinelHub.Support.Utf8

/-! ## Characters in a byte string -/

/-- The length of a character that starts with the byte `b`, or zero if none
does. -/
def charLength (b : UInt8) : ℕ :=
  if b < 0x80 then 1
  else if b < 0xC2 then 0
  else if b < 0xE0 then 2
  else if b < 0xF0 then 3
  else if b < 0xF5 then 4
  else 0

/-- The byte `c` can follow the first byte `b` of a longer character. -/
def Continues (b c : UInt8) : Prop :=
  2 ≤ charLength b ∧
    (if b = 0xE0 then 0xA0 else if b = 0xF0 then 0x90 else 0x80) ≤ c ∧
      c ≤ (if b = 0xED then 0x9F else if b = 0xF4 then 0x8F else 0xBF)

instance (b c : UInt8) : Decidable (Continues b c) :=
  inferInstanceAs (Decidable (_ ∧ _ ∧ _))

def isTail (c : UInt8) : Bool :=
  0x80 ≤ c && c ≤ 0xBF

/-- The number of bytes behind `b` that go on with its character. -/
def tailLength (b : UInt8) : List UInt8 → ℕ
  | [] => 0
  | c :: rest =>
      if Continues b c then
        1 + ((rest.take (charLength b - 2)).takeWhile isTail).length
      else 0

/-- The code point of a character, from its first byte and the others. -/
def codePoint (b : UInt8) (tail : List UInt8) : ℕ :=
  tail.foldl (fun n c => n * 64 + c.toNat % 64)
    (if charLength b = 1 then b.toNat else b.toNat % 2 ^ (7 - charLength b))

/-- The character that starts with `b`, if it is complete. -/
def front (b : UInt8) (rest : List UInt8) : Option Char :=
  if 1 + tailLength b rest = charLength b then
    some (Char.ofNat (codePoint b (rest.take (tailLength b rest))))
  else none

/-- The characters of a byte string, and `none` for each piece that is not
well-formed, when `skip` bytes have been read already. -/
def scan : ℕ → List UInt8 → List (Option Char)
  | _, [] => []
  | skip + 1, _ :: rest => scan skip rest
  | 0, b :: rest => front b rest :: scan (tailLength b rest) rest

/-! ## Decoding -/

/-- The text, or `none` if the bytes are not well-formed. -/
def decode (bytes : List UInt8) : Option (List Char) :=
  (scan 0 bytes).mapM id

/-- The replacement character. -/
def replacement : Char := Char.ofNat 0xFFFD

/-- The text, with a replacement character for each piece that is not
well-formed. -/
def decodeReplace (bytes : List UInt8) : List Char :=
  (scan 0 bytes).map (·.getD replacement)

example : decodeReplace [0x61, 0xF0, 0x9F, 0x62, 0xC2, 0xB0, 0xE2] =
    ['a', replacement, 'b', '°', replacement] := by
  decide

/-- Well-formed bytes need no replacement. -/
theorem decodeReplace_of_decode {bytes : List UInt8} {text : List Char}
    (h : decode bytes = some text) : decodeReplace bytes = text := by
  have hall : ∀ (items : List (Option Char)) (text : List Char),
      items.mapM id = some text → items.map (·.getD replacement) = text := by
    intro items
    induction items with
    | nil =>
        intro text h
        cases h
        rfl
    | cons item items ih =>
        intro text h
        rw [List.mapM_cons] at h
        obtain ⟨c, hc, h⟩ := Option.bind_eq_some_iff.mp h
        obtain ⟨tail, htail, h⟩ := Option.bind_eq_some_iff.mp h
        cases h
        change item = some c at hc
        rw [List.map_cons, ih tail htail, hc, Option.getD_some]
  exact hall _ text h

/-! ## UTF-16 -/

/-- One code unit, or a surrogate pair. -/
def utf16Units (c : Char) : List UInt16 :=
  if c.toNat < 0x10000 then [UInt16.ofNat c.toNat]
  else
    [UInt16.ofNat (0xD800 + (c.toNat - 0x10000) / 0x400),
      UInt16.ofNat (0xDC00 + (c.toNat - 0x10000) % 0x400)]

/-- The code units of a text. -/
def utf16 (text : List Char) : List UInt16 :=
  text.flatMap utf16Units

theorem length_utf16Units (c : Char) :
    (utf16Units c).length = if c.toNat < 0x10000 then 1 else 2 := by
  rw [utf16Units]
  split <;> rfl

theorem tailLength_le (b : UInt8) (rest : List UInt8) :
    tailLength b rest ≤ rest.length := by
  cases rest with
  | nil => exact Nat.le_refl 0
  | cons c rest =>
      rw [tailLength, List.length_cons]
      split
      · have htake := List.length_take_le' (charLength b - 2) rest
        have hwhile := (List.takeWhile_sublist (l := rest.take
          (charLength b - 2)) isTail).length_le
        omega
      · exact Nat.zero_le _

theorem tailLength_eq_zero_iff {b : UInt8} {rest : List UInt8} :
    tailLength b rest = 0 ↔ ∀ c ∈ rest.head?, ¬Continues b c := by
  cases rest with
  | nil => simp [tailLength]
  | cons c rest =>
      rw [tailLength]
      by_cases h : Continues b c
      · simp [h]
      · simp [h]

theorem toNat_ofNat_le (n : ℕ) : (Char.ofNat n).toNat ≤ n := by
  by_cases h : n.isValidChar
  · rw [Char.ofNat, dif_pos h]
    exact Nat.le_refl n
  · rw [Char.ofNat, dif_neg h]
    exact Nat.zero_le n

/-- A byte, or what is put for it, is one unit long, and a longer piece is
shorter in units than in bytes. -/
theorem length_utf16Units_front (b : UInt8) (rest : List UInt8) :
    (utf16Units ((front b rest).getD replacement)).length ≤
        1 + tailLength b rest ∧
      ((utf16Units ((front b rest).getD replacement)).length =
        1 + tailLength b rest ↔ tailLength b rest = 0) := by
  have hreplacement : (utf16Units replacement).length = 1 := by decide
  have hrange : ∀ c, 1 ≤ (utf16Units c).length ∧
      (utf16Units c).length ≤ 2 := by
    intro c
    rw [length_utf16Units]
    split <;> decide
  have hsmall : ∀ n, n < 0x10000 →
      (utf16Units (Char.ofNat n)).length = 1 := by
    intro n hn
    rw [length_utf16Units, if_pos ((toNat_ofNat_le n).trans_lt hn)]
  rw [front]
  by_cases hcomplete : 1 + tailLength b rest = charLength b
  · rw [if_pos hcomplete, Option.getD_some]
    obtain ⟨hone, htwo⟩ := hrange
      (Char.ofNat (codePoint b (rest.take (tailLength b rest))))
    have hshort : tailLength b rest ≤ 1 →
        (utf16Units (Char.ofNat (codePoint b
          (rest.take (tailLength b rest))))).length = 1 := by
      intro hle
      refine hsmall _ ?_
      have hb := b.toNat_lt
      have hstart : (if charLength b = 1 then b.toNat
          else b.toNat % 2 ^ (7 - charLength b)) < 256 := by
        split
        · exact hb
        · exact (Nat.mod_le _ _).trans_lt hb
      have hlength := List.length_take_le (tailLength b rest) rest
      rw [codePoint]
      rcases htail : rest.take (tailLength b rest) with - | ⟨c, - | ⟨d, tail⟩⟩
      · exact hstart.trans (by decide)
      · simp only [List.foldl_cons, List.foldl_nil]
        have hc := Nat.mod_lt c.toNat (by decide : 64 > 0)
        omega
      · rw [htail] at hlength
        simp only [List.length_cons] at hlength
        omega
    by_cases hle : tailLength b rest ≤ 1
    · have heq := hshort hle
      omega
    · omega
  · rw [if_neg hcomplete, Option.getD_none, hreplacement]
    omega

/-- The units of what is still to be read. -/
theorem length_utf16_scan_le {skip : ℕ} {bytes : List UInt8}
    (hskip : skip ≤ bytes.length) :
    (utf16 ((scan skip bytes).map (·.getD replacement))).length + skip ≤
      bytes.length := by
  induction bytes generalizing skip with
  | nil => simpa [scan, utf16] using hskip
  | cons b rest ih =>
      cases skip with
      | succ skip =>
          rw [List.length_cons] at hskip
          have hle : skip ≤ rest.length := by omega
          have hrest := ih hle
          rw [scan, List.length_cons]
          omega
      | zero =>
          have hrest := ih (tailLength_le b rest)
          have hfront := (length_utf16Units_front b rest).1
          rw [utf16] at hrest
          rw [scan, List.map_cons, utf16, List.flatMap_cons,
            List.length_append, List.length_cons]
          omega

/-- The text has as many UTF-16 units as there are bytes exactly when no byte is
followed by one that goes on with its character. -/
theorem length_utf16_decodeReplace_eq_iff (bytes : List UInt8) :
    (utf16 (decodeReplace bytes)).length = bytes.length ↔
      bytes.IsChain fun b c => ¬Continues b c := by
  induction bytes with
  | nil => simp [decodeReplace, scan, utf16]
  | cons b rest ih =>
      have hfront := length_utf16Units_front b rest
      have hscan := length_utf16_scan_le (tailLength_le b rest)
      rw [List.isChain_cons, ← tailLength_eq_zero_iff, ← ih, decodeReplace,
        scan, List.map_cons, utf16, List.flatMap_cons, List.length_append,
        ← utf16, List.length_cons]
      by_cases hzero : tailLength b rest = 0
      · rw [hzero] at hfront ⊢
        rw [decodeReplace]
        omega
      · omega

/-! ## Encoding -/

/-- The bytes of a text. -/
def encode (text : List Char) : List UInt8 :=
  text.flatMap String.utf8EncodeChar

theorem scan_append (tail rest : List UInt8) :
    scan tail.length (tail ++ rest) = scan 0 rest := by
  induction tail with
  | nil => rfl
  | cons c tail ih => exact ih

/-- A complete character is read as one. -/
theorem scan_char {b : UInt8} {tail : List UInt8} (rest : List UInt8)
    (htail : tailLength b (tail ++ rest) = tail.length)
    (hcomplete : 1 + tail.length = charLength b) :
    scan 0 (b :: tail ++ rest) =
      some (Char.ofNat (codePoint b tail)) :: scan 0 rest := by
  rw [List.cons_append, scan, htail, scan_append, front, htail,
    if_pos hcomplete, List.take_left]

theorem tailLength_of_continues {b c : UInt8} {tail : List UInt8}
    (rest : List UInt8) (hcontinues : Continues b c)
    (htail : ∀ d ∈ tail, isTail d = true)
    (hlength : tail.length = charLength b - 2) :
    tailLength b (c :: tail ++ rest) = (c :: tail).length := by
  have htake : tail.takeWhile isTail = tail := by
    rw [List.takeWhile_eq_self_iff]
    exact htail
  rw [List.cons_append, tailLength, if_pos hcontinues, ← hlength,
    List.take_left, htake, List.length_cons, Nat.add_comm]

theorem tailLength_of_single {b : UInt8} (rest : List UInt8)
    (hlength : charLength b = 1) : tailLength b ([] ++ rest) = 0 := by
  rw [tailLength_eq_zero_iff]
  rintro c - ⟨hlong, -⟩
  omega

/-! ### Bytes as numbers -/

theorem charLength_eq (b : UInt8) :
    charLength b =
      if b.toNat < 0x80 then 1
      else if b.toNat < 0xC2 then 0
      else if b.toNat < 0xE0 then 2
      else if b.toNat < 0xF0 then 3
      else if b.toNat < 0xF5 then 4
      else 0 :=
  rfl

theorem continues_iff (b c : UInt8) :
    Continues b c ↔ 2 ≤ charLength b ∧
      (if b.toNat = 0xE0 then 0xA0 else if b.toNat = 0xF0 then 0x90
        else 0x80) ≤ c.toNat ∧
      c.toNat ≤ (if b.toNat = 0xED then 0x9F
        else if b.toNat = 0xF4 then 0x8F else 0xBF) := by
  have heq : ∀ n : UInt8, b = n ↔ b.toNat = n.toNat := fun n =>
    UInt8.toNat_inj.symm
  have hite : ∀ {p : Prop} [Decidable p] (x y : UInt8),
      (if p then x else y).toNat = if p then x.toNat else y.toNat := by
    intro p _ x y
    split <;> rfl
  simp only [Continues, UInt8.le_iff_toNat_le, heq, hite]
  rfl

theorem isTail_iff (c : UInt8) :
    isTail c = true ↔ 0x80 ≤ c.toNat ∧ c.toNat ≤ 0xBF := by
  rw [isTail, Bool.and_eq_true, decide_eq_true_iff, decide_eq_true_iff]
  rfl

theorem toNat_ofNat_of_lt {n : ℕ} (h : n < 256) :
    (UInt8.ofNat n).toNat = n := by
  rw [UInt8.toNat_ofNat']
  exact Nat.mod_eq_of_lt h

/-- The code points of characters. -/
theorem toNat_range (c : Char) :
    c.toNat < 0xD800 ∨ (0xDFFF < c.toNat ∧ c.toNat < 0x110000) :=
  c.valid

/-! ### Round trip -/

/-- A character of several bytes is read as one. -/
theorem scan_long {b d : UInt8} {tail : List UInt8} {c : Char}
    (rest : List UInt8) (hlength : charLength b = tail.length + 2)
    (hcontinues : Continues b d) (htail : ∀ e ∈ tail, isTail e = true)
    (hpoint : codePoint b (d :: tail) = c.toNat) :
    scan 0 (b :: d :: tail ++ rest) = some c :: scan 0 rest := by
  have htails := tailLength_of_continues rest hcontinues htail (by omega)
  have hcomplete : 1 + (d :: tail).length = charLength b := by
    rw [List.length_cons]
    omega
  have hscan := scan_char rest htails hcomplete
  rw [hpoint, Char.ofNat_toNat] at hscan
  exact hscan

theorem scan_utf8EncodeChar (c : Char) (rest : List UInt8) :
    scan 0 (String.utf8EncodeChar c ++ rest) = some c :: scan 0 rest := by
  have hrange := toNat_range c
  have hd := toNat_ofNat_of_lt (by omega : c.toNat % 0x40 + 0x80 < 256)
  have hd' := toNat_ofNat_of_lt (by omega : c.toNat / 64 % 0x40 + 0x80 < 256)
  have hd'' := toNat_ofNat_of_lt
    (by omega : c.toNat / 4096 % 0x40 + 0x80 < 256)
  rw [String.utf8EncodeChar]
  change scan 0 ((if c.toNat ≤ 0x7f then _ else if c.toNat ≤ 0x7ff then _
    else if c.toNat ≤ 0xffff then _ else _) ++ rest) = _
  split
  next h =>
    have hb := toNat_ofNat_of_lt (by omega : c.toNat < 256)
    have hlength : charLength (UInt8.ofNat c.toNat) = 1 := by
      rw [charLength_eq, hb, if_pos (by omega)]
    have hpoint : codePoint (UInt8.ofNat c.toNat) [] = c.toNat := by
      rw [codePoint, if_pos hlength, hb, List.foldl_nil]
    have hscan := scan_char rest (tailLength_of_single rest hlength)
      hlength.symm
    rw [hpoint, Char.ofNat_toNat] at hscan
    exact hscan
  split
  next _ h =>
    have hb := toNat_ofNat_of_lt
      (by omega : c.toNat / 64 % 0x20 + 0xc0 < 256)
    have hlength : charLength (UInt8.ofNat (c.toNat / 64 % 0x20 + 0xc0)) =
        2 := by
      rw [charLength_eq, hb]
      split_ifs <;> omega
    refine scan_long rest hlength ?_ (by simp) ?_
    · rw [continues_iff]
      simp only [Char.toNat_val, hlength, hb, hd]
      split_ifs <;> omega
    · simp only [Char.toNat_val, codePoint, hlength, List.foldl_cons,
        List.foldl_nil, Nat.reduceEqDiff, reduceIte, Nat.reduceSub,
        Nat.reducePow, hb, hd]
      omega
  split
  next _ _ h =>
    have hb := toNat_ofNat_of_lt
      (by omega : c.toNat / 4096 % 0x10 + 0xe0 < 256)
    have hlength : charLength (UInt8.ofNat (c.toNat / 4096 % 0x10 + 0xe0)) =
        3 := by
      rw [charLength_eq, hb]
      split_ifs <;> omega
    refine scan_long rest hlength ?_ ?_ ?_
    · rw [continues_iff]
      simp only [Char.toNat_val, hlength, hb, hd']
      split_ifs <;> omega
    · intro e he
      rw [List.mem_singleton.mp he, isTail_iff]
      simp only [Char.toNat_val, hd]
      omega
    · simp only [Char.toNat_val, codePoint, hlength, List.foldl_cons,
        List.foldl_nil, Nat.reduceEqDiff, reduceIte, Nat.reduceSub,
        Nat.reducePow, hb, hd, hd']
      omega
  next _ _ h =>
    have hb := toNat_ofNat_of_lt
      (by omega : c.toNat / 262144 % 0x08 + 0xf0 < 256)
    have hlength : charLength (UInt8.ofNat (c.toNat / 262144 % 0x08 + 0xf0)) =
        4 := by
      rw [charLength_eq, hb]
      split_ifs <;> omega
    refine scan_long rest hlength ?_ ?_ ?_
    · rw [continues_iff]
      simp only [Char.toNat_val, hlength, hb, hd'']
      split_ifs <;> omega
    · intro e he
      rw [List.mem_cons, List.mem_singleton] at he
      rw [isTail_iff]
      rcases he with rfl | rfl
      · simp only [Char.toNat_val, hd']
        omega
      · simp only [Char.toNat_val, hd]
        omega
    · simp only [Char.toNat_val, codePoint, hlength, List.foldl_cons,
        List.foldl_nil, Nat.reduceEqDiff, reduceIte, Nat.reduceSub,
        Nat.reducePow, hb, hd, hd', hd'']
      omega

theorem scan_encode (text : List Char) :
    scan 0 (encode text) = text.map some := by
  induction text with
  | nil => rfl
  | cons c text ih =>
      rw [encode, List.flatMap_cons, scan_utf8EncodeChar, ← encode, ih,
        List.map_cons]

/-- An encoded text is read as it was written. -/
theorem decode_encode (text : List Char) :
    decode (encode text) = some text := by
  rw [decode, scan_encode]
  induction text with
  | nil => rfl
  | cons c text ih =>
      rw [List.map_cons, List.mapM_cons, ih]
      rfl

theorem decodeReplace_encode (text : List Char) :
    decodeReplace (encode text) = text :=
  decodeReplace_of_decode (decode_encode text)

end SentinelHub.Support.Utf8
