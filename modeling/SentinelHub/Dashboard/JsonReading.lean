import SentinelHub.Dashboard.JsonText
import SentinelHub.Support.EventStream

/-!
# Reading JSON text that was written

What `json.dumps` writes, `json.loads` reads back: strings with their
escapes, integers, lists, and dictionaries in their order.  A `float` comes
back when `float` reads what `repr` wrote.
-/

namespace SentinelHub.Dashboard

open Support EventStream

variable {rest : List Char}

/-! ## Strings -/

theorem hexDigitValue_hexDigit {n : ℕ} (h : n < 16) :
    hexDigitValue (hexDigit n) = some n := by
  have hall : ∀ n < 16, hexDigitValue (hexDigit n) = some n := by decide
  exact hall n h

theorem fourHex_fourDigits {n : ℕ} (h : n < 65536) (rest : List Char) :
    fourHex (fourDigits n ++ rest) = some (n, rest) := by
  have hvalue : ∀ m, hexDigitValue (hexDigit (m % 16)) = some (m % 16) :=
    fun m => hexDigitValue_hexDigit (Nat.mod_lt m (by decide))
  simp only [fourDigits, List.cons_append, List.nil_append, fourHex, hvalue,
    Option.bind_eq_bind, Option.bind_some, Option.some.injEq, Prod.mk.injEq,
    and_true]
  omega

theorem utf16Units_of_lt {c : Char} (h : c.toNat < 0x10000) :
    (Utf8.utf16Units c).flatMap (fun unit => unicodeEscape unit.toNat) =
      unicodeEscape c.toNat := by
  rw [Utf8.utf16Units, if_pos h, List.flatMap_cons, List.flatMap_nil,
    List.append_nil, UInt16.toNat_ofNat', Nat.mod_eq_of_lt h]

theorem utf16Units_of_le {c : Char} (h : 0x10000 ≤ c.toNat) :
    (Utf8.utf16Units c).flatMap (fun unit => unicodeEscape unit.toNat) =
      unicodeEscape (0xD800 + (c.toNat - 0x10000) / 0x400) ++
        unicodeEscape (0xDC00 + (c.toNat - 0x10000) % 0x400) := by
  have hrange := Utf8.toNat_range c
  have hhigh : (UInt16.ofNat (0xD800 + (c.toNat - 0x10000) / 0x400)).toNat =
      0xD800 + (c.toNat - 0x10000) / 0x400 := by
    rw [UInt16.toNat_ofNat']
    omega
  have hlow : (UInt16.ofNat (0xDC00 + (c.toNat - 0x10000) % 0x400)).toNat =
      0xDC00 + (c.toNat - 0x10000) % 0x400 := by
    rw [UInt16.toNat_ofNat']
    omega
  rw [Utf8.utf16Units, if_neg (Nat.not_lt.mpr h), List.flatMap_cons,
    List.flatMap_cons, List.flatMap_nil, List.append_nil, hhigh, hlow]

theorem unicodeChar_of_unit {n : ℕ} (h : n < 0xD800 ∨ 0xDFFF < n)
    (hn : n < 65536) (rest : List Char) :
    unicodeChar (fourDigits n ++ rest) = some (Char.ofNat n, rest) := by
  rw [unicodeChar, fourHex_fourDigits hn]
  simp only [Option.bind_eq_bind, Option.bind_some]
  rw [if_pos h]

theorem unicodeChar_of_pair {n m : ℕ} (hn : 0xD800 ≤ n ∧ n < 0xDC00)
    (hm : 0xDC00 ≤ m ∧ m ≤ 0xDFFF) (rest : List Char) :
    unicodeChar (fourDigits n ++ (unicodeEscape m ++ rest)) =
      some (Char.ofNat (0x10000 + (n - 0xD800) * 0x400 + (m - 0xDC00)),
        rest) := by
  have hnot : ¬(n < 0xD800 ∨ 0xDFFF < n) := by omega
  have hn' : n < 65536 := by omega
  have hm' : m < 65536 := by omega
  have hlow : lowSurrogate (unicodeEscape m ++ rest) = some (m, rest) := by
    rw [unicodeEscape, List.cons_append, List.cons_append, lowSurrogate,
      fourHex_fourDigits hm', Option.bind_eq_bind, Option.bind_some]
    exact if_pos hm
  rw [unicodeChar, fourHex_fourDigits hn', Option.bind_eq_bind,
    Option.bind_some]
  simp only [hlow]
  rw [if_neg hnot, if_pos hn.2]

/-- A character that is written as one or two code units is read as it was. -/
theorem exists_escapedChar (c : Char) (rest : List Char) :
    ∃ text, (Utf8.utf16Units c).flatMap
        (fun unit => unicodeEscape unit.toNat) = '\\' :: text ∧
      escapedChar (text ++ rest) = some (c, rest) := by
  have hrange := Utf8.toNat_range c
  by_cases h : c.toNat < 0x10000
  · refine ⟨'u' :: fourDigits c.toNat, utf16Units_of_lt h, ?_⟩
    rw [List.cons_append, escapedChar,
      unicodeChar_of_unit (by omega) (by omega), Char.ofNat_toNat]
  · rw [Nat.not_lt] at h
    obtain ⟨n, hn⟩ : ∃ n, n = 0xD800 + (c.toNat - 0x10000) / 0x400 := ⟨_, rfl⟩
    obtain ⟨m, hm⟩ : ∃ m, m = 0xDC00 + (c.toNat - 0x10000) % 0x400 := ⟨_, rfl⟩
    have hunits := utf16Units_of_le h
    rw [← hn, ← hm] at hunits
    have hc : 0x10000 + (n - 0xD800) * 0x400 + (m - 0xDC00) = c.toNat := by
      omega
    refine ⟨'u' :: (fourDigits n ++ unicodeEscape m), hunits, ?_⟩
    rw [List.cons_append, escapedChar, List.append_assoc,
      unicodeChar_of_pair (by omega) (by omega), hc, Char.ofNat_toNat]

/-- A character is read as it was written. -/
theorem scanString_escape (c : Char) (fuel : ℕ) (rest : List Char) :
    scanString (fuel + 1) (escape c ++ rest) =
      (scanString fuel rest).map fun (text, rest) => (c :: text, rest) := by
  have hescaped : ∀ text, escapedChar text = some (c, rest) →
      scanString (fuel + 1) ('\\' :: text) =
        (scanString fuel rest).map fun (text, rest) => (c :: text, rest) := by
    intro text h
    rw [scanString, if_neg (by decide), if_pos rfl, h]
    simp only [Option.bind_eq_bind, Option.bind_some]
    cases scanString fuel rest <;> rfl
  rw [escape]
  split_ifs with h₁ h₂ h₃ h₄ h₅ h₆ h₇ h₈
  · subst h₁
    exact hescaped ('"' :: rest) rfl
  · subst h₂
    exact hescaped ('\\' :: rest) rfl
  · subst h₃
    exact hescaped ('n' :: rest) rfl
  · subst h₄
    exact hescaped ('r' :: rest) rfl
  · subst h₅
    exact hescaped ('t' :: rest) rfl
  · subst h₆
    exact hescaped ('f' :: rest) rfl
  · subst h₇
    exact hescaped ('b' :: rest) rfl
  · have hprinting : ¬c < ' ' := Char.not_lt.mpr h₈.1
    rw [List.singleton_append, scanString, if_neg h₁, if_neg h₂,
      if_neg hprinting, Option.bind_eq_bind]
    cases scanString fuel rest <;> rfl
  · obtain ⟨text, htext, hread⟩ := exists_escapedChar c rest
    rw [htext]
    exact hescaped _ hread

theorem scanString_flatMap (text : List Char) {fuel : ℕ}
    (hfuel : text.length < fuel) (rest : List Char) :
    scanString fuel (text.flatMap escape ++ '"' :: rest) =
      some (text, rest) := by
  induction text generalizing fuel with
  | nil =>
      obtain ⟨fuel, rfl⟩ := Nat.exists_eq_add_of_lt hfuel
      rfl
  | cons c text ih =>
      rw [List.length_cons] at hfuel
      obtain ⟨fuel, rfl⟩ := Nat.exists_eq_add_of_lt hfuel
      rw [List.flatMap_cons, List.append_assoc, scanString_escape,
        ih (by omega)]
      rfl

/-! ## Numbers -/

/-- A number ends before this text. -/
def Ends (rest : List Char) : Prop :=
  ∀ c ∈ rest.head?, c.isDigit = false ∧ c ≠ '.' ∧ c ≠ 'e' ∧ c ≠ 'E'

theorem ends_nil : Ends [] := by
  simp [Ends]

theorem ends_cons {c : Char} (h : c = ',' ∨ c = ']' ∨ c = '}')
    (rest : List Char) : Ends (c :: rest) := by
  intro d hd
  cases hd
  rcases h with rfl | rfl | rfl <;> decide

theorem spanDigits_append {digits : List Char}
    (hdigits : ∀ c ∈ digits, c.isDigit = true)
    (hrest : ∀ c ∈ rest.head?, c.isDigit = false) :
    spanDigits (digits ++ rest) = (digits, rest) := by
  have hnone : rest.takeWhile Char.isDigit = [] ∧
      rest.dropWhile Char.isDigit = rest := by
    cases rest with
    | nil => exact ⟨rfl, rfl⟩
    | cons c rest =>
        have hc := hrest c rfl
        simp [hc]
  rw [spanDigits, List.span_eq_takeWhile_dropWhile,
    List.takeWhile_append_of_pos hdigits, List.dropWhile_append_of_pos hdigits,
    hnone.1, hnone.2, List.append_nil]

/-- The digits of a number begin with `0` only for zero. -/
theorem toDigits_head {n : ℕ} (hn : 0 < n) :
    ∃ c digits, Nat.toDigits 10 n = c :: digits ∧ c ≠ '0' := by
  induction n using Nat.strong_induction_on with
  | _ n ih =>
      by_cases hlt : n < 10
      · have hall : ∀ n < 10, 0 < n → n.digitChar ≠ '0' := by decide
        exact ⟨n.digitChar, [], Nat.toDigits_of_lt_base hlt, hall n hlt hn⟩
      · rw [Nat.not_lt] at hlt
        obtain ⟨c, digits, heq, hne⟩ :=
          ih (n / 10) (by omega) (Nat.div_pos hlt (by decide))
        refine ⟨c, digits ++ [(n % 10).digitChar], ?_, hne⟩
        rw [Nat.toDigits_of_base_le (by decide) hlt, heq, List.cons_append]

theorem isDigit_of_mem {n : ℕ} : ∀ c ∈ Nat.toDigits 10 n, c.isDigit = true :=
  fun _ hc => Nat.isDigit_of_mem_toDigits (by decide) (by decide) hc

theorem integerPart_toDigits (n : ℕ) (h : Ends rest) :
    integerPart (Nat.toDigits 10 n ++ rest) =
      some (Nat.toDigits 10 n, rest) := by
  rcases Nat.eq_zero_or_pos n with rfl | hn
  · rfl
  · obtain ⟨c, digits, heq, hne⟩ := toDigits_head hn
    have hdigits := isDigit_of_mem (n := n)
    rw [heq] at hdigits ⊢
    rw [List.cons_append, integerPart, if_neg hne,
      if_pos (hdigits c (List.mem_cons_self ..)), ← List.cons_append,
      spanDigits_append hdigits fun c hc => (h c hc).1]

theorem fractionPart_of_ends (h : Ends rest) :
    fractionPart rest = ([], rest) := by
  cases rest with
  | nil => rfl
  | cons c rest => rw [fractionPart, if_neg (h c rfl).2.1]

theorem exponentPart_of_ends (h : Ends rest) :
    exponentPart rest = ([], rest) := by
  cases rest with
  | nil => rfl
  | cons c rest =>
      obtain ⟨-, -, he, hE⟩ := h c rfl
      have hnot : ¬(c = 'e' ∨ c = 'E') := fun hc => hc.elim he hE
      rw [exponentPart, if_neg hnot]

theorem scanUnsigned_toDigits (toFloat : List Char → PyFloat)
    (negative : Bool) (n : ℕ) (h : Ends rest) :
    scanUnsigned toFloat negative (Nat.toDigits 10 n ++ rest) =
      some (.int (if negative then -(n : ℤ) else n), rest) := by
  have hvalue : Nat.ofDigitChars 10 (Nat.toDigits 10 n) 0 = n :=
    Nat.ofDigitChars_ten_toDigits
  rw [scanUnsigned, integerPart_toDigits n h]
  simp only [Option.bind_eq_bind, Option.bind_some, fractionPart_of_ends h,
    exponentPart_of_ends h, and_self, if_true, hvalue]

theorem matchNumber_intRepr (toFloat : List Char → PyFloat) (n : ℤ)
    (h : Ends rest) :
    matchNumber toFloat (intRepr n ++ rest) = some (.int n, rest) := by
  cases n with
  | ofNat n =>
      obtain ⟨c, digits, heq⟩ := List.exists_cons_of_ne_nil
        (Nat.toDigits_ne_nil (n := n) (b := 10))
      have hc := isDigit_of_mem (n := n) c (heq ▸ List.mem_cons_self ..)
      have hne : c ≠ '-' := by
        rintro rfl
        exact absurd hc (by decide)
      have hread := scanUnsigned_toDigits toFloat false n h
      rw [heq] at hread
      rw [intRepr, heq, List.cons_append, matchNumber, if_neg hne]
      exact hread
  | negSucc n =>
      rw [intRepr, List.cons_append, matchNumber, if_pos rfl,
        scanUnsigned_toDigits toFloat true _ h]
      rfl

/-! ## Values -/

/-- `constants` are read, or the number is finite. -/
def PyFloat.readable (constants : Bool) : PyFloat → Bool
  | .finite _ => true
  | _ => constants

mutual

/-- No number in the value is a constant that is not read. -/
def readable (constants : Bool) : Json → Bool
  | .float x => x.readable constants
  | .list items => readableItems constants items
  | .dict items => readablePairs constants items
  | _ => true

def readableItems (constants : Bool) : List Json → Bool
  | [] => true
  | item :: items => readable constants item && readableItems constants items

def readablePairs (constants : Bool) : List (List Char × Json) → Bool
  | [] => true
  | (_, value) :: items =>
      readable constants value && readablePairs constants items

end

/-- A number begins like this. -/
def StartsNumber (text : List Char) : Prop :=
  (∃ c digits, text = c :: digits ∧ c.isDigit = true) ∨
    ∃ c digits, text = '-' :: c :: digits ∧ c.isDigit = true

section Values

variable (floatRepr : ℚ → List Char) (toFloat : List Char → PyFloat)

/-- What `repr` writes for a finite number is a number, and `float` reads it as
this one. -/
structure Rereads (x : ℚ) : Prop where
  oneLine : OneLine (floatRepr x)
  starts : StartsNumber (floatRepr x)
  read : ∀ rest, Ends rest →
    matchNumber toFloat (floatRepr x ++ rest) = some (.float (.finite x), rest)

mutual

/-- The keys of a dictionary are different, and `float` reads every number as
`repr` writes it. -/
def Writable : Json → Prop
  | .float (.finite x) => Rereads floatRepr toFloat x
  | .list items => WritableItems items
  | .dict items => (items.map Prod.fst).Nodup ∧ WritablePairs items
  | _ => True

def WritableItems : List Json → Prop
  | [] => True
  | item :: items => Writable item ∧ WritableItems items

def WritablePairs : List (List Char × Json) → Prop
  | [] => True
  | (_, value) :: items => Writable value ∧ WritablePairs items

end

variable {constants : Bool} {floatRepr : ℚ → List Char}
  {toFloat : List Char → PyFloat}

theorem startsNumber_intRepr (n : ℤ) : StartsNumber (intRepr n) := by
  cases n with
  | ofNat n =>
      obtain ⟨c, digits, heq⟩ := List.exists_cons_of_ne_nil
        (Nat.toDigits_ne_nil (n := n) (b := 10))
      exact Or.inl ⟨c, digits, heq, isDigit_of_mem (n := n) c
        (heq ▸ List.mem_cons_self ..)⟩
  | negSucc n =>
      obtain ⟨c, digits, heq⟩ := List.exists_cons_of_ne_nil
        (Nat.toDigits_ne_nil (n := n + 1) (b := 10))
      exact Or.inr ⟨c, digits, by rw [intRepr, heq], isDigit_of_mem
        (n := n + 1) c (heq ▸ List.mem_cons_self ..)⟩

/-- What a text of a value begins with. -/
def StartsValue (text : List Char) : Prop :=
  ∃ c rest, text = c :: rest ∧ isJsonSpace c = false ∧ c ≠ ']'

theorem startsValue_of_number {text : List Char} (h : StartsNumber text) :
    StartsValue text := by
  obtain ⟨c, digits, rfl, hc⟩ | ⟨c, digits, rfl, -⟩ := h
  · refine ⟨c, digits, rfl, ?_, ?_⟩
    · rw [Bool.eq_false_iff]
      intro hspace
      simp only [isJsonSpace, Bool.or_eq_true, decide_eq_true_eq] at hspace
      rcases hspace with ((rfl | rfl) | rfl) | rfl <;>
        exact absurd hc (by decide)
    · rintro rfl
      exact absurd hc (by decide)
  · exact ⟨'-', _, rfl, by decide, by decide⟩

theorem startsValue_dumps (v : Json) (h : Writable floatRepr toFloat v) :
    StartsValue (dumps floatRepr v) := by
  cases v with
  | null => exact ⟨'n', _, rfl, by decide, by decide⟩
  | bool value =>
      cases value with
      | true => exact ⟨'t', _, rfl, by decide, by decide⟩
      | false => exact ⟨'f', _, rfl, by decide, by decide⟩
  | int n => exact startsValue_of_number (startsNumber_intRepr n)
  | float x =>
      match x with
      | .finite x =>
          rw [Writable] at h
          exact startsValue_of_number h.starts
      | .infinity false => exact ⟨'I', _, rfl, by decide, by decide⟩
      | .infinity true => exact ⟨'-', _, rfl, by decide, by decide⟩
      | .nan => exact ⟨'N', _, rfl, by decide, by decide⟩
  | str text => exact ⟨'"', _, rfl, by decide, by decide⟩
  | list items => exact ⟨'[', _, rfl, by decide, by decide⟩
  | dict items => exact ⟨'{', _, rfl, by decide, by decide⟩

theorem skipSpace_cons {c : Char} (h : isJsonSpace c = false)
    (rest : List Char) : skipSpace (c :: rest) = c :: rest := by
  have hnot : ¬isJsonSpace c = true := by
    rw [h]
    exact Bool.false_ne_true
  rw [skipSpace, List.dropWhile_cons_of_neg hnot]

theorem literal_self (word : String) (value : Json) (rest : List Char) :
    literal word value (word.toList ++ rest) = some (value, rest) := by
  have hprefix : word.toList.isPrefixOf (word.toList ++ rest) = true :=
    List.isPrefixOf_iff_prefix.mpr (List.prefix_append _ _)
  rw [literal, if_pos hprefix, List.drop_left]

theorem literal_infinity {value : Json} {text : List Char}
    (h : ∀ rest, text ≠ '-' :: 'I' :: rest) :
    literal "-Infinity" value text = none := by
  rw [literal, if_neg]
  intro hprefix
  obtain ⟨rest, hrest⟩ := List.isPrefixOf_iff_prefix.mp hprefix
  exact h _ hrest.symm

theorem constant_of_not_infinity {text : List Char}
    (h : ∀ rest, text ≠ '-' :: 'I' :: rest) :
    constant constants "-Infinity" (.infinity true) text = none := by
  rw [constant, literal_infinity h, ite_self]

theorem scanOnce_minus (constants : Bool) (toFloat : List Char → PyFloat)
    (fuel : ℕ) (text : List Char) :
    scanOnce constants toFloat (fuel + 1) ('-' :: text) =
      (constant constants "-Infinity" (.infinity true) ('-' :: text)).or
        (matchNumber toFloat ('-' :: text)) := by
  rw [scanOnce]
  simp only [if_neg (by decide : '-' ≠ '"'), if_neg (by decide : '-' ≠ '{'),
    if_neg (by decide : '-' ≠ '['), if_neg (by decide : '-' ≠ 'n'),
    if_neg (by decide : '-' ≠ 't'), if_neg (by decide : '-' ≠ 'f'),
    if_neg (by decide : '-' ≠ 'N'), if_neg (by decide : '-' ≠ 'I')]

theorem scanOnce_number {text : List Char} {v : Json} (fuel : ℕ)
    (hstarts : StartsNumber text)
    (hread : matchNumber toFloat (text ++ rest) = some (v, rest)) :
    scanOnce constants toFloat (fuel + 1) (text ++ rest) = some (v, rest) := by
  have hdigit : ∀ {c d : Char}, c.isDigit = true → d.isDigit = false →
      c ≠ d := by
    rintro c d hc hd rfl
    rw [hd] at hc
    cases hc
  obtain ⟨c, digits, rfl, hc⟩ | ⟨c, digits, rfl, hc⟩ := hstarts
  · have hinfinity : constant constants "-Infinity" (.infinity true)
        (c :: digits ++ rest) = none :=
      constant_of_not_infinity fun text heq =>
        hdigit hc (by decide : Char.isDigit '-' = false)
          (List.cons_eq_cons.mp heq).1
    rw [List.cons_append] at hread hinfinity ⊢
    rw [scanOnce, hinfinity, hread, Option.none_or]
    simp only [if_neg (hdigit hc (by decide : Char.isDigit '"' = false)),
      if_neg (hdigit hc (by decide : Char.isDigit '{' = false)),
      if_neg (hdigit hc (by decide : Char.isDigit '[' = false)),
      if_neg (hdigit hc (by decide : Char.isDigit 'n' = false)),
      if_neg (hdigit hc (by decide : Char.isDigit 't' = false)),
      if_neg (hdigit hc (by decide : Char.isDigit 'f' = false)),
      if_neg (hdigit hc (by decide : Char.isDigit 'N' = false)),
      if_neg (hdigit hc (by decide : Char.isDigit 'I' = false))]
  · have hinfinity : constant constants "-Infinity" (.infinity true)
        ('-' :: c :: digits ++ rest) = none :=
      constant_of_not_infinity fun text heq =>
        hdigit hc (by decide : Char.isDigit 'I' = false)
          (List.cons_eq_cons.mp (List.cons_eq_cons.mp heq).2).1
    rw [List.cons_append] at hread hinfinity ⊢
    rw [scanOnce_minus, hinfinity, hread, Option.none_or]

theorem constant_self (word : String) (x : PyFloat) (rest : List Char) :
    constant constants word x (word.toList ++ rest) =
      if constants then some (.float x, rest) else none := by
  rw [constant, literal_self]

/-- A `float` is read as it was written, if it is read at all. -/
theorem scanOnce_floatStr {x : PyFloat}
    (h : Writable floatRepr toFloat (.float x)) (fuel : ℕ) (hrest : Ends rest) :
    scanOnce constants toFloat (fuel + 1) (floatStr floatRepr x ++ rest) =
      if x.readable constants then some (.float x, rest) else none := by
  match x with
  | .finite x =>
      rw [Writable] at h
      exact scanOnce_number fuel h.starts (h.read rest hrest)
  | .infinity false => exact constant_self "Infinity" (.infinity false) rest
  | .infinity true =>
      have hnumber : matchNumber toFloat ('-' :: ("Infinity".toList ++ rest)) =
          none := rfl
      have hscan := scanOnce_minus constants toFloat fuel
        ("Infinity".toList ++ rest)
      rw [hnumber, Option.or_none] at hscan
      exact hscan.trans (constant_self "-Infinity" (.infinity true) rest)
  | .nan => exact constant_self "NaN" .nan rest

theorem length_le_flatMap_escape (text : List Char) :
    text.length ≤ (text.flatMap escape).length := by
  induction text with
  | nil => exact le_rfl
  | cons c text ih =>
      have hpos : 0 < (escape c).length := by
        obtain ⟨rest, hrest, -⟩ := exists_escapedChar c []
        rw [escape, hrest]
        split_ifs <;> exact Nat.succ_pos _
      rw [List.flatMap_cons, List.length_append, List.length_cons]
      omega

theorem scanString_quote (text : List Char) (rest : List Char) :
    scanString ((text.flatMap escape ++ '"' :: rest).length + 1)
      (text.flatMap escape ++ '"' :: rest) = some (text, rest) := by
  have hle := length_le_flatMap_escape text
  refine scanString_flatMap text ?_ rest
  rw [List.length_append]
  omega

theorem quote_append (text rest : List Char) :
    quote text ++ rest = '"' :: (text.flatMap escape ++ '"' :: rest) := by
  rw [quote, List.append_assoc, List.cons_append, List.singleton_append]

/-! ### One step of the reader -/

theorem scanOnce_quote (fuel : ℕ) (text : List Char) :
    scanOnce constants toFloat (fuel + 1) ('"' :: text) =
      (scanString (text.length + 1) text).map fun (text, rest) =>
        (.str text, rest) := by
  rw [scanOnce, if_pos rfl]

theorem scanOnce_bracket (fuel : ℕ) {c : Char} (text : List Char)
    (hspace : isJsonSpace c = false) (hc : c ≠ ']') :
    scanOnce constants toFloat (fuel + 1) ('[' :: c :: text) =
      scanArray constants toFloat fuel [] (c :: text) := by
  have hne : (c :: text).head? ≠ some ']' := fun h => hc (Option.some.inj h)
  rw [scanOnce, if_neg (by decide), if_neg (by decide), if_pos rfl,
    skipSpace_cons hspace]
  exact if_neg hne

theorem scanOnce_brace (fuel : ℕ) (text : List Char) :
    scanOnce constants toFloat (fuel + 1) ('{' :: '"' :: text) =
      scanObject constants toFloat fuel [] ('"' :: text) := by
  have hne : ('"' :: text).head? ≠ some '}' :=
    fun h => absurd (Option.some.inj h) (by decide)
  rw [scanOnce, if_neg (by decide), if_pos rfl, skipSpace_cons (by decide)]
  exact if_neg hne

theorem skipSpace_comma (rest : List Char) :
    skipSpace (',' :: rest) = ',' :: rest :=
  skipSpace_cons (by decide) rest

theorem skipSpace_colon (rest : List Char) :
    skipSpace (':' :: rest) = ':' :: rest :=
  skipSpace_cons (by decide) rest

theorem scanArray_none {fuel : ℕ} {before : List Json} {text : List Char}
    (h : scanOnce constants toFloat fuel text = none) :
    scanArray constants toFloat (fuel + 1) before text = none := by
  rw [scanArray, h]
  rfl

theorem scanArray_last {fuel : ℕ} {before : List Json} {text : List Char}
    {item : Json}
    (h : scanOnce constants toFloat fuel text = some (item, ']' :: rest)) :
    scanArray constants toFloat (fuel + 1) before text =
      some (.list (before ++ [item]), rest) := by
  have hskip : skipSpace (']' :: rest) = ']' :: rest :=
    skipSpace_cons (by decide) rest
  simp only [scanArray, h, Option.bind_eq_bind, Option.bind_some, hskip]

theorem scanArray_comma {fuel : ℕ} {before : List Json} {c : Char}
    {text : List Char} {item : Json} (hc : isJsonSpace c = false)
    (h : scanOnce constants toFloat fuel text =
      some (item, ',' :: ' ' :: c :: rest)) :
    scanArray constants toFloat (fuel + 1) before text =
      scanArray constants toFloat fuel (before ++ [item]) (c :: rest) := by
  have hskip : skipSpace (' ' :: c :: rest) = c :: rest := skipSpace_cons hc _
  simp only [scanArray, h, Option.bind_eq_bind, Option.bind_some,
    skipSpace_comma, hskip]

theorem scanObject_none {fuel : ℕ} {before : List (List Char × Json)}
    {key text : List Char} {c : Char} (hc : isJsonSpace c = false)
    (h : scanOnce constants toFloat fuel (c :: text) = none) :
    scanObject constants toFloat (fuel + 1) before
        (quote key ++ ':' :: ' ' :: c :: text) = none := by
  have hskip : skipSpace (' ' :: c :: text) = c :: text := skipSpace_cons hc _
  rw [quote_append]
  simp only [scanObject, scanString_quote, Option.bind_eq_bind,
    Option.bind_some, skipSpace_colon, hskip, h, Option.bind_none]

theorem scanObject_last {fuel : ℕ} {before : List (List Char × Json)}
    {key text : List Char} {value : Json} {c : Char}
    (hc : isJsonSpace c = false)
    (h : scanOnce constants toFloat fuel (c :: text) =
      some (value, '}' :: rest)) :
    scanObject constants toFloat (fuel + 1) before
        (quote key ++ ':' :: ' ' :: c :: text) =
      some (.dict (setItem key value before), rest) := by
  have hskip : skipSpace (' ' :: c :: text) = c :: text := skipSpace_cons hc _
  have hskip' : skipSpace ('}' :: rest) = '}' :: rest :=
    skipSpace_cons (by decide) rest
  rw [quote_append]
  simp only [scanObject, scanString_quote, Option.bind_eq_bind,
    Option.bind_some, skipSpace_colon, hskip, h, hskip']

theorem scanObject_comma {fuel : ℕ} {before : List (List Char × Json)}
    {key text : List Char} {value : Json} {c d : Char}
    (hc : isJsonSpace c = false) (hd : isJsonSpace d = false)
    (h : scanOnce constants toFloat fuel (c :: text) =
      some (value, ',' :: ' ' :: d :: rest)) :
    scanObject constants toFloat (fuel + 1) before
        (quote key ++ ':' :: ' ' :: c :: text) =
      scanObject constants toFloat fuel (setItem key value before)
        (d :: rest) := by
  have hskip : skipSpace (' ' :: c :: text) = c :: text := skipSpace_cons hc _
  have hskip' : skipSpace (' ' :: d :: rest) = d :: rest := skipSpace_cons hd _
  rw [quote_append]
  simp only [scanObject, scanString_quote, Option.bind_eq_bind,
    Option.bind_some, skipSpace_colon, skipSpace_comma, hskip, h, hskip']

/-- A new key goes to the end of a dictionary. -/
theorem setItem_of_not_mem {key : List Char} (value : Json)
    {items : List (List Char × Json)} (h : key ∉ items.map Prod.fst) :
    setItem key value items = items ++ [(key, value)] := by
  induction items with
  | nil => rfl
  | cons item items ih =>
      obtain ⟨key', value'⟩ := item
      rw [List.map_cons, List.mem_cons, not_or] at h
      rw [setItem, if_neg (Ne.symm h.1), ih h.2, List.cons_append]

theorem not_mem_of_nodup_append {before items : List (List Char × Json)}
    {item : List Char × Json}
    (h : ((before ++ item :: items).map Prod.fst).Nodup) :
    item.1 ∉ before.map Prod.fst := by
  rw [List.map_append, List.map_cons] at h
  exact fun hmem => (List.nodup_append.mp h).2.2 _ hmem _
    (List.mem_cons_self ..) rfl

/-! ### Round trip -/

theorem dumpsItems_cons_cons (item item' : Json) (items : List Json) :
    dumpsItems floatRepr (item :: item' :: items) =
      dumps floatRepr item ++
        ',' :: ' ' :: dumpsItems floatRepr (item' :: items) := by
  rw [dumpsItems]
  exact List.cons_ne_nil _ _

theorem dumpsPairs_cons_cons (key : List Char) (value : Json)
    (item : List Char × Json) (items : List (List Char × Json)) :
    dumpsPairs floatRepr ((key, value) :: item :: items) =
      quote key ++ ':' :: ' ' :: dumps floatRepr value ++
        ',' :: ' ' :: dumpsPairs floatRepr (item :: items) := by
  rw [dumpsPairs]
  exact List.cons_ne_nil _ _

theorem startsValue_items {item : Json} (items : List Json)
    (h : Writable floatRepr toFloat item) :
    StartsValue (dumpsItems floatRepr (item :: items)) := by
  obtain ⟨c, text, heq, hspace, hc⟩ := startsValue_dumps item h
  cases items with
  | nil =>
      refine ⟨c, text ++ [']'], ?_, hspace, hc⟩
      rw [dumpsItems, heq, List.cons_append]
  | cons item' items =>
      refine ⟨c, text ++ ',' :: ' ' :: dumpsItems floatRepr (item' :: items),
        ?_, hspace, hc⟩
      rw [dumpsItems_cons_cons, heq, List.cons_append]

theorem exists_head_pairs (floatRepr : ℚ → List Char) (item : List Char × Json)
    (items : List (List Char × Json)) :
    ∃ text, dumpsPairs floatRepr (item :: items) = '"' :: text := by
  obtain ⟨key, value⟩ := item
  cases items with
  | nil => exact ⟨_, rfl⟩
  | cons => exact ⟨_, rfl⟩

/-- What is read is given up when it holds what cannot be read. -/
def readAs (ok : Bool) (v : Json) (rest : List Char) :
    Option (Json × List Char) :=
  if ok then some (v, rest) else none

@[simp] theorem readAs_true (v : Json) (rest : List Char) :
    readAs true v rest = some (v, rest) :=
  rfl

@[simp] theorem readAs_false (v : Json) (rest : List Char) :
    readAs false v rest = none :=
  rfl

mutual

theorem scanOnce_dumps (v : Json) (h : Writable floatRepr toFloat v) (fuel : ℕ)
    (rest : List Char) (hrest : Ends rest)
    (hfuel : (dumps floatRepr v).length ≤ fuel) :
    scanOnce constants toFloat fuel (dumps floatRepr v ++ rest) =
      readAs (readable constants v) v rest := by
  obtain ⟨c, text, heq, -, -⟩ := startsValue_dumps v h
  obtain ⟨fuel, rfl⟩ : ∃ n, fuel = n + 1 := by
    refine Nat.exists_eq_add_one_of_ne_zero ?_
    rw [heq, List.length_cons] at hfuel
    omega
  match v with
  | .null => exact literal_self "null" .null rest
  | .bool true => exact literal_self "true" (.bool true) rest
  | .bool false => exact literal_self "false" (.bool false) rest
  | .int n =>
      exact scanOnce_number fuel (startsNumber_intRepr n)
        (matchNumber_intRepr toFloat n hrest)
  | .float x => exact scanOnce_floatStr h fuel hrest
  | .str text =>
      rw [dumps, quote_append, scanOnce_quote, scanString_quote]
      rfl
  | .list [] => rfl
  | .dict [] => rfl
  | .list (item :: items) =>
      rw [Writable] at h
      rw [dumps, List.length_cons] at hfuel
      obtain ⟨c, text, hitems, hspace, hc⟩ := startsValue_items items h.1
      have hread := scanArray_dumps (item :: items) h [] fuel rest
        (List.cons_ne_nil _ _) (by omega)
      rw [hitems, List.cons_append] at hread
      rw [dumps, hitems, List.cons_append, List.cons_append,
        scanOnce_bracket fuel _ hspace hc]
      exact hread
  | .dict (item :: items) =>
      rw [Writable] at h
      rw [dumps, List.length_cons] at hfuel
      obtain ⟨text, hitems⟩ :=
        exists_head_pairs floatRepr item items
      have hread := scanObject_dumps (item :: items) h.2 [] fuel rest
        (List.cons_ne_nil _ _) h.1 (by omega)
      rw [hitems, List.cons_append] at hread
      rw [dumps, hitems, List.cons_append, List.cons_append, scanOnce_brace]
      exact hread

theorem scanArray_dumps (items : List Json)
    (h : WritableItems floatRepr toFloat items) (before : List Json) (fuel : ℕ)
    (rest : List Char) (hne : items ≠ [])
    (hfuel : (dumpsItems floatRepr items).length ≤ fuel) :
    scanArray constants toFloat fuel before
        (dumpsItems floatRepr items ++ rest) =
      readAs (readableItems constants items) (.list (before ++ items))
        rest := by
  match items with
  | [] => exact absurd rfl hne
  | [item] =>
      rw [WritableItems] at h
      rw [dumpsItems, List.length_append, List.length_singleton] at hfuel
      obtain ⟨fuel, rfl⟩ := Nat.exists_eq_add_of_le' (Nat.one_le_of_lt hfuel)
      have hread := scanOnce_dumps item h.1 fuel
        (']' :: rest) (ends_cons (by simp) rest) (by omega)
      rw [dumpsItems, List.append_assoc, readableItems, readableItems,
        Bool.and_true]
      cases hok : readable constants item with
      | true =>
          rw [hok] at hread
          exact scanArray_last hread
      | false =>
          rw [hok] at hread
          exact scanArray_none hread
  | item :: item' :: items =>
      rw [WritableItems] at h
      rw [dumpsItems_cons_cons, List.length_append, List.length_cons,
        List.length_cons] at hfuel
      obtain ⟨fuel, rfl⟩ := Nat.exists_eq_add_of_le' (Nat.one_le_of_lt hfuel)
      have hitem := h.2
      rw [WritableItems] at hitem
      obtain ⟨c, text, hitems, hspace, -⟩ := startsValue_items items hitem.1
      have hread := scanOnce_dumps item h.1 fuel
        (',' :: ' ' :: (dumpsItems floatRepr (item' :: items) ++ rest))
        (ends_cons (by simp) _) (by omega)
      have hothers := scanArray_dumps (item' :: items) h.2 (before ++ [item])
        fuel rest (List.cons_ne_nil _ _) (by omega)
      rw [hitems, List.cons_append] at hread hothers
      rw [dumpsItems_cons_cons, List.append_assoc, List.cons_append,
        List.cons_append, hitems, List.cons_append, readableItems]
      cases hok : readable constants item with
      | true =>
          rw [hok] at hread
          rw [scanArray_comma hspace hread, hothers, List.append_assoc,
            List.singleton_append, Bool.true_and]
      | false =>
          rw [hok] at hread
          exact scanArray_none hread

theorem scanObject_dumps (items : List (List Char × Json))
    (h : WritablePairs floatRepr toFloat items)
    (before : List (List Char × Json)) (fuel : ℕ) (rest : List Char)
    (hne : items ≠ []) (hkeys : ((before ++ items).map Prod.fst).Nodup)
    (hfuel : (dumpsPairs floatRepr items).length ≤ fuel) :
    scanObject constants toFloat fuel before
        (dumpsPairs floatRepr items ++ rest) =
      readAs (readablePairs constants items) (.dict (before ++ items))
        rest := by
  match items with
  | [] => exact absurd rfl hne
  | [(key, value)] =>
      rw [WritablePairs] at h
      rw [dumpsPairs, List.length_append, List.length_append, List.length_cons,
        List.length_cons, List.length_singleton] at hfuel
      obtain ⟨fuel, rfl⟩ := Nat.exists_eq_add_of_le' (Nat.one_le_of_lt hfuel)
      obtain ⟨c, text, hvalue, hspace, -⟩ := startsValue_dumps value h.1
      have hread := scanOnce_dumps value h.1 fuel
        ('}' :: rest) (ends_cons (by simp) rest) (by omega)
      have hnew := setItem_of_not_mem value
        (not_mem_of_nodup_append hkeys)
      rw [hvalue, List.cons_append] at hread
      rw [dumpsPairs, List.append_assoc, List.append_assoc, List.cons_append,
        List.cons_append, hvalue, List.cons_append, List.singleton_append,
        readablePairs, readablePairs, Bool.and_true]
      cases hok : readable constants value with
      | true =>
          rw [hok] at hread
          rw [scanObject_last hspace hread, hnew, readAs_true]
      | false =>
          rw [hok] at hread
          exact scanObject_none hspace hread
  | (key, value) :: item :: items =>
      rw [WritablePairs] at h
      rw [dumpsPairs_cons_cons, List.length_append, List.length_append,
        List.length_cons, List.length_cons, List.length_cons,
        List.length_cons] at hfuel
      obtain ⟨fuel, rfl⟩ := Nat.exists_eq_add_of_le' (Nat.one_le_of_lt hfuel)
      obtain ⟨c, text, hvalue, hspace, -⟩ := startsValue_dumps value h.1
      obtain ⟨text', hitems⟩ :=
        exists_head_pairs floatRepr item items
      have hread := scanOnce_dumps value h.1 fuel
        (',' :: ' ' :: (dumpsPairs floatRepr (item :: items) ++ rest))
        (ends_cons (by simp) _) (by omega)
      have hkeys' : ((before ++ [(key, value)] ++ item :: items).map
          Prod.fst).Nodup := by
        rw [List.append_assoc, List.singleton_append]
        exact hkeys
      have hothers := scanObject_dumps (item :: items) h.2
        (before ++ [(key, value)]) fuel rest (List.cons_ne_nil _ _) hkeys'
        (by omega)
      have hnew := setItem_of_not_mem value
        (not_mem_of_nodup_append hkeys)
      rw [hitems, List.cons_append] at hread hothers
      rw [hvalue, List.cons_append] at hread
      rw [dumpsPairs_cons_cons, List.append_assoc, List.append_assoc,
        List.cons_append, List.cons_append, hvalue, List.cons_append,
        List.cons_append, List.cons_append, hitems, List.cons_append,
        readablePairs]
      cases hok : readable constants value with
      | true =>
          rw [hok] at hread
          rw [scanObject_comma hspace (by decide) hread, hnew, hothers,
            List.append_assoc, List.singleton_append, Bool.true_and]
      | false =>
          rw [hok] at hread
          exact scanObject_none hspace hread

end

/-- What `json.dumps` has written is read as it was, if it can be read. -/
theorem parseJson_dumps (constants : Bool) {v : Json}
    (h : Writable floatRepr toFloat v) :
    parseJson constants toFloat (dumps floatRepr v) =
      if readable constants v then some v else none := by
  obtain ⟨c, text, heq, hspace, -⟩ := startsValue_dumps v h
  have hskip : skipSpace (dumps floatRepr v) = dumps floatRepr v := by
    rw [heq, skipSpace_cons hspace]
  have hread : scanOnce constants toFloat ((dumps floatRepr v).length + 1)
      (dumps floatRepr v) = readAs (readable constants v) v [] := by
    rw [← scanOnce_dumps v h _ [] ends_nil (Nat.le_succ _), List.append_nil]
  rw [parseJson, hskip, hread]
  cases readable constants v with
  | true => rfl
  | false => rfl

end Values

end SentinelHub.Dashboard
