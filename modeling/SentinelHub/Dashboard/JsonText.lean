import SentinelHub.Dashboard.Events

/-!
# JSON text

What the repository uses of Python's `json` and of the browser's `JSON`:
`json.dumps` with its default arguments, `json.loads` and `JSON.parse` of a
text.  How a `float` is written and read is a parameter.  A text here consists
of characters, and one half of a surrogate pair alone is none: an escape for it
is read as the replacement character.  There is no limit on the depth of a value
or on the digits of an integer.
-/

namespace SentinelHub.Dashboard

open Support

/-! ## `json.dumps` -/

def fourDigits (n : ℕ) : List Char :=
  [hexDigit (n / 4096 % 16), hexDigit (n / 256 % 16), hexDigit (n / 16 % 16),
    hexDigit (n % 16)]

/-- `'\\u{0:04x}'.format(n)`. -/
def unicodeEscape (n : ℕ) : List Char :=
  '\\' :: 'u' :: fourDigits n

/-- A character of a string, with `ensure_ascii`. -/
def escape (c : Char) : List Char :=
  if c = '"' then ['\\', '"']
  else if c = '\\' then ['\\', '\\']
  else if c = '\n' then ['\\', 'n']
  else if c = '\r' then ['\\', 'r']
  else if c = '\t' then ['\\', 't']
  else if c = Char.ofNat 12 then ['\\', 'f']
  else if c = Char.ofNat 8 then ['\\', 'b']
  else if ' ' ≤ c ∧ c ≤ '~' then [c]
  else (Utf8.utf16Units c).flatMap fun unit => unicodeEscape unit.toNat

def quote (text : List Char) : List Char :=
  '"' :: text.flatMap escape ++ ['"']

/-- `int.__repr__`. -/
def intRepr : ℤ → List Char
  | .ofNat n => Nat.toDigits 10 n
  | .negSucc n => '-' :: Nat.toDigits 10 (n + 1)

section Dumps

-- `float.__repr__` of a finite number.
variable (floatRepr : ℚ → List Char)

/-- `floatstr(o)`. -/
def floatStr : PyFloat → List Char
  | .finite x => floatRepr x
  | .infinity false => "Infinity".toList
  | .infinity true => "-Infinity".toList
  | .nan => "NaN".toList

mutual

/-- `json.dumps(value)`. -/
def dumps : Json → List Char
  | .null => "null".toList
  | .bool true => "true".toList
  | .bool false => "false".toList
  | .int n => intRepr n
  | .float x => floatStr floatRepr x
  | .str text => quote text
  | .list items => '[' :: dumpsItems items
  | .dict items => '{' :: dumpsPairs items

/-- The items of a list, and the bracket behind them. -/
def dumpsItems : List Json → List Char
  | [] => [']']
  | [item] => dumps item ++ [']']
  | item :: items => dumps item ++ ',' :: ' ' :: dumpsItems items

/-- The items of a dictionary, and the brace behind them. -/
def dumpsPairs : List (List Char × Json) → List Char
  | [] => ['}']
  | [(key, value)] => quote key ++ ':' :: ' ' :: dumps value ++ ['}']
  | (key, value) :: items =>
      quote key ++ ':' :: ' ' :: dumps value ++ ',' :: ' ' :: dumpsPairs items

end

end Dumps

/-! ## Reading -/

def isJsonSpace (c : Char) : Bool :=
  c = ' ' || c = '\t' || c = '\n' || c = '\r'

/-- `_w(s, end).end()`. -/
def skipSpace (text : List Char) : List Char :=
  text.dropWhile isJsonSpace

/-- The value of a hexadecimal digit. -/
def hexDigitValue (c : Char) : Option ℕ :=
  if '0' ≤ c ∧ c ≤ '9' then some (c.toNat - '0'.toNat)
  else if 'a' ≤ c ∧ c ≤ 'f' then some (c.toNat - 'a'.toNat + 10)
  else if 'A' ≤ c ∧ c ≤ 'F' then some (c.toNat - 'A'.toNat + 10)
  else none

/-- Four hexadecimal digits. -/
def fourHex : List Char → Option (ℕ × List Char)
  | a :: b :: c :: d :: rest => do
      let a ← hexDigitValue a
      let b ← hexDigitValue b
      let c ← hexDigitValue c
      let d ← hexDigitValue d
      some (a * 4096 + b * 256 + c * 16 + d, rest)
  | _ => none

/-- The escape of the second half of a surrogate pair. -/
def lowSurrogate : List Char → Option (ℕ × List Char)
  | '\\' :: 'u' :: rest => do
      let (m, rest) ← fourHex rest
      if 0xDC00 ≤ m ∧ m ≤ 0xDFFF then some (m, rest) else none
  | _ => none

/-- The character behind `\u`. -/
def unicodeChar (text : List Char) : Option (Char × List Char) := do
  let (n, rest) ← fourHex text
  if n < 0xD800 ∨ 0xDFFF < n then some (Char.ofNat n, rest)
  else if n < 0xDC00 then
    match lowSurrogate rest with
    | some (m, rest) =>
        some (Char.ofNat (0x10000 + (n - 0xD800) * 0x400 + (m - 0xDC00)), rest)
    | none => some (Utf8.replacement, rest)
  else some (Utf8.replacement, rest)

/-- The character behind a backslash. -/
def escapedChar : List Char → Option (Char × List Char)
  | 'u' :: rest => unicodeChar rest
  | c :: rest =>
      if c = '"' ∨ c = '\\' ∨ c = '/' then some (c, rest)
      else if c = 'n' then some ('\n', rest)
      else if c = 'r' then some ('\r', rest)
      else if c = 't' then some ('\t', rest)
      else if c = 'f' then some (Char.ofNat 12, rest)
      else if c = 'b' then some (Char.ofNat 8, rest)
      else none
  | [] => none

/-- `scanstring(s, end)`: the text up to the closing quote. -/
def scanString : ℕ → List Char → Option (List Char × List Char)
  | 0, _ => none
  | _, [] => none
  | fuel + 1, c :: rest =>
      if c = '"' then some ([], rest)
      else if c = '\\' then do
        let (c, rest) ← escapedChar rest
        let (text, rest) ← scanString fuel rest
        some (c :: text, rest)
      else if c < ' ' then none
      else do
        let (text, rest) ← scanString fuel rest
        some (c :: text, rest)

/-- The longest run of digits. -/
def spanDigits (text : List Char) : List Char × List Char :=
  text.span Char.isDigit

/-- The digits of an integer: `0`, or a number that begins with another
digit. -/
def integerPart : List Char → Option (List Char × List Char)
  | [] => none
  | c :: rest =>
      if c = '0' then some (['0'], rest)
      else if c.isDigit then some (spanDigits (c :: rest))
      else none

/-- `(\.\d+)?` -/
def fractionPart : List Char → List Char × List Char
  | [] => ([], [])
  | c :: rest =>
      if c = '.' then
        match spanDigits rest with
        | ([], _) => ([], c :: rest)
        | (digits, rest) => (c :: digits, rest)
      else ([], c :: rest)

/-- `[-+]?` -/
def signPart : List Char → List Char × List Char
  | [] => ([], [])
  | c :: rest => if c = '-' ∨ c = '+' then ([c], rest) else ([], c :: rest)

/-- `([eE][-+]?\d+)?` -/
def exponentPart : List Char → List Char × List Char
  | [] => ([], [])
  | c :: rest =>
      if c = 'e' ∨ c = 'E' then
        let (sign, digits) := signPart rest
        match spanDigits digits with
        | ([], _) => ([], c :: rest)
        | (digits, rest) => (c :: sign ++ digits, rest)
      else ([], c :: rest)

section Parse

-- Whether `NaN` and `Infinity` are read, and `float(text)`.
variable (constants : Bool) (toFloat : List Char → PyFloat)

/-- A number, of which `sign` has been read. -/
def scanUnsigned (negative : Bool) (text : List Char) :
    Option (Json × List Char) := do
  let (digits, rest) ← integerPart text
  let (fraction, rest) := fractionPart rest
  let (exponent, rest) := exponentPart rest
  let sign := if negative then ['-'] else []
  if fraction = [] ∧ exponent = [] then
    let n : ℤ := Nat.ofDigitChars 10 digits 0
    some (.int (if negative then -n else n), rest)
  else some (.float (toFloat (sign ++ digits ++ fraction ++ exponent)), rest)

/-- `_match_number`. -/
def matchNumber : List Char → Option (Json × List Char)
  | [] => none
  | c :: rest =>
      if c = '-' then scanUnsigned toFloat true rest
      else scanUnsigned toFloat false (c :: rest)

/-- The rest of a text behind a word. -/
def literal (word : String) (value : Json) (text : List Char) :
    Option (Json × List Char) :=
  if word.toList.isPrefixOf text then
    some (value, text.drop word.toList.length)
  else none

/-- `_CONSTANTS`. -/
def constant (word : String) (x : PyFloat) (text : List Char) :
    Option (Json × List Char) :=
  if constants then literal word (.float x) text else none

mutual

/-- `scan_once(s, idx)`, for values nested less than `fuel` deep. -/
def scanOnce : ℕ → List Char → Option (Json × List Char)
  | 0, _ => none
  | fuel + 1, text =>
      match text with
      | [] => none
      | c :: rest =>
          if c = '"' then
            (scanString (rest.length + 1) rest).map fun (text, rest) =>
              (.str text, rest)
          else if c = '{' then
            let rest := skipSpace rest
            if rest.head? = some '}' then some (.dict [], rest.tail)
            else scanObject fuel [] rest
          else if c = '[' then
            let rest := skipSpace rest
            if rest.head? = some ']' then some (.list [], rest.tail)
            else scanArray fuel [] rest
          else if c = 'n' then literal "null" .null text
          else if c = 't' then literal "true" (.bool true) text
          else if c = 'f' then literal "false" (.bool false) text
          else if c = 'N' then constant constants "NaN" .nan text
          else if c = 'I' then
            constant constants "Infinity" (.infinity false) text
          else
            (constant constants "-Infinity" (.infinity true) text).or
              (matchNumber toFloat text)

/-- The items of a list. -/
def scanArray : ℕ → List Json → List Char → Option (Json × List Char)
  | 0, _, _ => none
  | fuel + 1, items, text => do
      let (item, rest) ← scanOnce fuel text
      match skipSpace rest with
      | ']' :: rest => some (.list (items ++ [item]), rest)
      | ',' :: rest => scanArray fuel (items ++ [item]) (skipSpace rest)
      | _ => none

/-- The items of a dictionary. -/
def scanObject : ℕ → List (List Char × Json) → List Char →
    Option (Json × List Char)
  | 0, _, _ => none
  | fuel + 1, items, text =>
      match text with
      | '"' :: text => do
          let (key, rest) ← scanString (text.length + 1) text
          match skipSpace rest with
          | ':' :: rest => do
              let (value, rest) ← scanOnce fuel (skipSpace rest)
              match skipSpace rest with
              | '}' :: rest => some (.dict (setItem key value items), rest)
              | ',' :: rest =>
                  scanObject fuel (setItem key value items) (skipSpace rest)
              | _ => none
          | _ => none
      | _ => none

end

/-- A text that is one value, with space around it. -/
def parseJson (text : List Char) : Option Json := do
  let (value, rest) ←
    scanOnce constants toFloat (text.length + 1) (skipSpace text)
  if skipSpace rest = [] then some value else none

end Parse

/-! ## Numbers of JavaScript -/

/-- The number of 53 binary digits, with zeros behind them, that is nearest to
`n`; of two the one whose last digit is even. -/
def nearestDouble (n : ℕ) : ℕ :=
  let ulp := 2 ^ (n.log2 - 52)
  let digits := n / ulp
  if 2 * (n % ulp) < ulp ∨ 2 * (n % ulp) = ulp ∧ digits % 2 = 0 then
    digits * ulp
  else (digits + 1) * ulp

/-- The number that an integer is read as.  The finite ones have at most 1024
binary digits. -/
def jsInt (n : ℤ) : Json :=
  let nearest := nearestDouble n.natAbs
  if nearest.log2 < 1024 then .int (n.sign * nearest)
  else .float (.infinity (n < 0))

mutual

/-- A value whose integers have become numbers of JavaScript. -/
def jsValue : Json → Json
  | .int n => jsInt n
  | .list items => .list (jsItems items)
  | .dict items => .dict (jsPairs items)
  | value => value

def jsItems : List Json → List Json
  | [] => []
  | item :: items => jsValue item :: jsItems items

def jsPairs : List (List Char × Json) → List (List Char × Json)
  | [] => []
  | (key, value) :: items => (key, jsValue value) :: jsPairs items

end

/-- Up to here the integers are read as they are. -/
def maxExact : ℕ := 2 ^ 53

theorem log2_of_lt {n k : ℕ} (hk : 0 < k) (h : n < 2 ^ k) : n.log2 < k := by
  rcases Nat.eq_zero_or_pos n with rfl | hpos
  · exact hk
  · exact (Nat.log2_lt hpos.ne').mpr h

theorem nearestDouble_of_le {n : ℕ} (h : n ≤ maxExact) :
    nearestDouble n = n := by
  rcases h.lt_or_eq with hlt | rfl
  · have hlog := log2_of_lt (by decide) hlt
    have hulp : 2 ^ (n.log2 - 52) = 1 := by
      rw [Nat.sub_eq_zero_of_le (Nat.lt_succ_iff.mp hlog), Nat.pow_zero]
    rw [nearestDouble, hulp, Nat.mod_one, Nat.div_one, if_pos (by omega),
      Nat.mul_one]
  · decide

theorem jsInt_of_le {n : ℕ} (h : n ≤ maxExact) : jsInt n = .int n := by
  have hlog : n.log2 < 54 := by
    refine log2_of_lt (by decide) (h.trans_lt ?_)
    decide
  rw [jsInt, Int.natAbs_natCast, nearestDouble_of_le h,
    if_pos (hlog.trans (by decide))]
  rcases Nat.eq_zero_or_pos n with rfl | hpos
  · rfl
  · rw [Int.sign_natCast_of_ne_zero hpos.ne', one_mul]

section Loads

variable (toFloat : List Char → PyFloat)

/-- `json.loads(text)`, or `none` where it raises. -/
def loads : List Char → Option Json :=
  parseJson true toFloat

/-- `JSON.parse(text)`, or `none` where it throws. -/
def jsonParse (text : List Char) : Option Json :=
  (parseJson false toFloat text).map jsValue

end Loads

end SentinelHub.Dashboard
