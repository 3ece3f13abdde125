import SentinelHub.Dashboard.JsonReading

/-!
# Values that can be written

What `json.dumps` writes is one line, and a value that has been read can be
written and read again.
-/

namespace SentinelHub.Dashboard

open Support EventStream

variable {rest : List Char}

/-! ## The text has one line -/

theorem oneLine_unicodeEscape (n : ℕ) : OneLine (unicodeEscape n) := by
  have hall : ∀ m < 16, hexDigit m ≠ '\n' ∧ hexDigit m ≠ '\r' := by decide
  have hdigit : ∀ m, hexDigit (m % 16) ≠ '\n' ∧ hexDigit (m % 16) ≠ '\r' :=
    fun m => hall _ (Nat.mod_lt m (by decide))
  exact oneLine_cons (by decide) <| oneLine_cons (by decide) <|
    oneLine_cons (hdigit _) <| oneLine_cons (hdigit _) <|
    oneLine_cons (hdigit _) <| oneLine_cons (hdigit _) oneLine_nil

theorem oneLine_escape (c : Char) : OneLine (escape c) := by
  have hpair : ∀ d : Char, d ≠ '\n' ∧ d ≠ '\r' → OneLine ['\\', d] :=
    fun d hd => oneLine_cons (by decide) (oneLine_cons hd oneLine_nil)
  rw [escape]
  split_ifs with h₁ h₂ h₃ h₄ h₅ h₆ h₇ h₈
  · exact hpair _ (by decide)
  · exact hpair _ (by decide)
  · exact hpair _ (by decide)
  · exact hpair _ (by decide)
  · exact hpair _ (by decide)
  · exact hpair _ (by decide)
  · exact hpair _ (by decide)
  · exact oneLine_cons ⟨h₃, h₄⟩ oneLine_nil
  · exact oneLine_flatMap fun unit _ => oneLine_unicodeEscape unit.toNat

theorem oneLine_quote (text : List Char) : OneLine (quote text) :=
  oneLine_append
    (oneLine_cons (by decide) (oneLine_flatMap fun c _ => oneLine_escape c))
    (oneLine_cons (by decide) oneLine_nil)

theorem oneLine_toDigits (n : ℕ) : OneLine (Nat.toDigits 10 n) := by
  refine ⟨?_, ?_⟩
  · intro hmem
    exact absurd (isDigit_of_mem _ hmem) (by decide)
  · intro hmem
    exact absurd (isDigit_of_mem _ hmem) (by decide)

theorem oneLine_intRepr (n : ℤ) : OneLine (intRepr n) := by
  cases n with
  | ofNat n => exact oneLine_toDigits n
  | negSucc n => exact oneLine_cons (by decide) (oneLine_toDigits (n + 1))

section Values

variable {constants : Bool} {floatRepr : ℚ → List Char}
  {toFloat : List Char → PyFloat}

theorem oneLine_floatStr {x : PyFloat}
    (h : Writable floatRepr toFloat (.float x)) :
    OneLine (floatStr floatRepr x) := by
  match x with
  | .finite x =>
      rw [Writable] at h
      exact h.oneLine
  | .infinity false => exact (by decide : OneLine "Infinity".toList)
  | .infinity true => exact (by decide : OneLine "-Infinity".toList)
  | .nan => exact (by decide : OneLine "NaN".toList)

mutual

theorem oneLine_dumps (v : Json) (h : Writable floatRepr toFloat v) :
    OneLine (dumps floatRepr v) := by
  match v with
  | .null => exact (by decide : OneLine "null".toList)
  | .bool true => exact (by decide : OneLine "true".toList)
  | .bool false => exact (by decide : OneLine "false".toList)
  | .int n => exact oneLine_intRepr n
  | .float x => exact oneLine_floatStr h
  | .str text => exact oneLine_quote text
  | .list items =>
      rw [Writable] at h
      exact oneLine_cons (by decide) (oneLine_dumpsItems items h)
  | .dict items =>
      rw [Writable] at h
      exact oneLine_cons (by decide) (oneLine_dumpsPairs items h.2)

theorem oneLine_dumpsItems (items : List Json)
    (h : WritableItems floatRepr toFloat items) :
    OneLine (dumpsItems floatRepr items) := by
  match items with
  | [] => exact (by decide : OneLine [']'])
  | [item] =>
      rw [WritableItems] at h
      rw [dumpsItems]
      exact oneLine_append (oneLine_dumps item h.1)
        (oneLine_cons (by decide) oneLine_nil)
  | item :: item' :: items =>
      rw [WritableItems] at h
      rw [dumpsItems_cons_cons]
      exact oneLine_append (oneLine_dumps item h.1)
        (oneLine_cons (by decide) (oneLine_cons (by decide)
          (oneLine_dumpsItems (item' :: items) h.2)))

theorem oneLine_dumpsPairs (items : List (List Char × Json))
    (h : WritablePairs floatRepr toFloat items) :
    OneLine (dumpsPairs floatRepr items) := by
  match items with
  | [] => exact (by decide : OneLine ['}'])
  | [(key, value)] =>
      rw [WritablePairs] at h
      rw [dumpsPairs]
      exact oneLine_append (oneLine_append (oneLine_quote key)
        (oneLine_cons (by decide) (oneLine_cons (by decide)
          (oneLine_dumps value h.1)))) (oneLine_cons (by decide) oneLine_nil)
  | (key, value) :: item :: items =>
      rw [WritablePairs] at h
      rw [dumpsPairs_cons_cons]
      exact oneLine_append (oneLine_append (oneLine_quote key)
        (oneLine_cons (by decide) (oneLine_cons (by decide)
          (oneLine_dumps value h.1))))
        (oneLine_cons (by decide) (oneLine_cons (by decide)
          (oneLine_dumpsPairs (item :: items) h.2)))

end

/-! ## What has been read can be written -/

theorem map_fst_setItem (key : List Char) (value : Json)
    (items : List (List Char × Json)) :
    (setItem key value items).map Prod.fst =
      if key ∈ items.map Prod.fst then items.map Prod.fst
      else items.map Prod.fst ++ [key] := by
  induction items with
  | nil => rfl
  | cons item items ih =>
      obtain ⟨k, v⟩ := item
      rw [setItem, List.map_cons]
      by_cases hk : k = key
      · rw [if_pos hk, if_pos (hk ▸ List.mem_cons_self ..), List.map_cons]
      · have hmem : key ∈ k :: items.map Prod.fst ↔
            key ∈ items.map Prod.fst :=
          ⟨fun h => (List.mem_cons.mp h).resolve_left (Ne.symm hk),
            List.mem_cons_of_mem _⟩
        rw [if_neg hk, List.map_cons, ih]
        simp only [hmem]
        split_ifs with h
        · rfl
        · rfl

theorem nodup_setItem {key : List Char} {value : Json}
    {items : List (List Char × Json)} (h : (items.map Prod.fst).Nodup) :
    ((setItem key value items).map Prod.fst).Nodup := by
  rw [map_fst_setItem]
  split
  · exact h
  next hkey => exact List.nodup_append.mpr ⟨h, List.nodup_singleton _,
      fun a ha b hb hab => hkey (by
        rw [← List.mem_singleton.mp hb, ← hab]
        exact ha)⟩

theorem writablePairs_setItem {key : List Char} {value : Json}
    {items : List (List Char × Json)}
    (h : WritablePairs floatRepr toFloat items)
    (hvalue : Writable floatRepr toFloat value) :
    WritablePairs floatRepr toFloat (setItem key value items) := by
  induction items with
  | nil => exact ⟨hvalue, trivial⟩
  | cons item items ih =>
      obtain ⟨k, v⟩ := item
      rw [WritablePairs] at h
      rw [setItem]
      split
      · exact ⟨hvalue, h.2⟩
      · exact ⟨h.1, ih h.2⟩

theorem writable_setItem {key : List Char} {value : Json}
    {items : List (List Char × Json)}
    (h : Writable floatRepr toFloat (.dict items))
    (hvalue : Writable floatRepr toFloat value) :
    Writable floatRepr toFloat (.dict (setItem key value items)) := by
  rw [Writable] at h ⊢
  exact ⟨nodup_setItem h.1, writablePairs_setItem h.2 hvalue⟩

theorem writableItems_append {items : List Json} {item : Json}
    (h : WritableItems floatRepr toFloat items)
    (hitem : Writable floatRepr toFloat item) :
    WritableItems floatRepr toFloat (items ++ [item]) := by
  induction items with
  | nil => exact ⟨hitem, trivial⟩
  | cons item' items ih =>
      rw [WritableItems] at h
      exact ⟨h.1, ih h.2⟩

theorem value_of_literal {word : String} {value v : Json} {text : List Char}
    (h : literal word value text = some (v, rest)) : v = value := by
  rw [literal] at h
  split at h
  · cases h
    rfl
  · cases h

theorem value_of_constant {word : String} {x : PyFloat} {v : Json}
    {text : List Char}
    (h : constant constants word x text = some (v, rest)) : v = .float x := by
  rw [constant] at h
  split at h
  · exact value_of_literal h
  · cases h

variable (floatRepr toFloat) in
/-- `repr` writes what `float` returns so that `float` reads it again. -/
def FloatsReread : Prop :=
  ∀ text x, toFloat text = .finite x → Rereads floatRepr toFloat x

section Parsed

variable (hfloat : FloatsReread floatRepr toFloat)

include hfloat

theorem writable_toFloat (text : List Char) :
    Writable floatRepr toFloat (.float (toFloat text)) := by
  cases heq : toFloat text with
  | finite x =>
      rw [Writable]
      exact hfloat text x heq
  | infinity negative => trivial
  | nan => trivial

theorem writable_of_matchNumber {text : List Char} {v : Json}
    (h : matchNumber toFloat text = some (v, rest)) :
    Writable floatRepr toFloat v := by
  have hunsigned : ∀ {negative : Bool} {text : List Char},
      scanUnsigned toFloat negative text = some (v, rest) →
        Writable floatRepr toFloat v := by
    intro negative text h
    rw [scanUnsigned] at h
    obtain ⟨⟨digits, rest'⟩, -, h⟩ := Option.bind_eq_some_iff.mp h
    simp only at h
    split at h
    · cases h
      trivial
    · cases h
      exact writable_toFloat hfloat _
  cases text with
  | nil => cases h
  | cons c text =>
      rw [matchNumber] at h
      split at h
      · exact hunsigned h
      · exact hunsigned h

theorem writable_of_scanOnce {fuel : ℕ} {text : List Char} {v : Json}
    (harray : ∀ {text v rest},
      scanArray constants toFloat fuel [] text = some (v, rest) →
        Writable floatRepr toFloat v)
    (hobject : ∀ {text v rest},
      scanObject constants toFloat fuel [] text = some (v, rest) →
        Writable floatRepr toFloat v)
    (h : scanOnce constants toFloat (fuel + 1) text = some (v, rest)) :
    Writable floatRepr toFloat v := by
  cases text with
  | nil => cases h
  | cons c text =>
      rw [scanOnce] at h
      split_ifs at h
      · obtain ⟨⟨text', rest'⟩, -, heq⟩ := Option.map_eq_some_iff.mp h
        cases heq
        trivial
      · simp only at h
        split at h
        · cases h
          exact ⟨List.nodup_nil, trivial⟩
        · exact hobject h
      · simp only at h
        split at h
        · cases h
          trivial
        · exact harray h
      · rw [value_of_literal h]
        trivial
      · rw [value_of_literal h]
        trivial
      · rw [value_of_literal h]
        trivial
      · rw [value_of_constant h]
        trivial
      · rw [value_of_constant h]
        trivial
      · rcases Option.or_eq_some_iff.mp h with h | ⟨-, h⟩
        · rw [value_of_constant h]
          trivial
        · exact writable_of_matchNumber hfloat h

theorem writable_of_scan (fuel : ℕ) :
    (∀ {text v rest}, scanOnce constants toFloat fuel text = some (v, rest) →
      Writable floatRepr toFloat v) ∧
    (∀ {items text v rest}, WritableItems floatRepr toFloat items →
      scanArray constants toFloat fuel items text = some (v, rest) →
        Writable floatRepr toFloat v) ∧
    ∀ {items text v rest}, Writable floatRepr toFloat (.dict items) →
      scanObject constants toFloat fuel items text = some (v, rest) →
        Writable floatRepr toFloat v := by
  induction fuel with
  | zero =>
      refine ⟨fun h => ?_, fun _ h => ?_, fun _ h => ?_⟩
      · rw [scanOnce] at h
        cases h
      · rw [scanArray] at h
        cases h
      · rw [scanObject] at h
        cases h
  | succ fuel ih =>
      obtain ⟨ihonce, iharray, ihobject⟩ := ih
      refine ⟨?_, ?_, ?_⟩
      · exact writable_of_scanOnce hfloat (iharray trivial)
          (ihobject ⟨List.nodup_nil, trivial⟩)
      · intro items text v rest hitems h
        rw [scanArray] at h
        obtain ⟨⟨item, rest'⟩, hitem, h⟩ := Option.bind_eq_some_iff.mp h
        have happend := writableItems_append hitems (ihonce hitem)
        simp only at h
        split at h
        · cases h
          exact happend
        · exact iharray happend h
        · cases h
      · intro items text v rest hitems h
        rw [scanObject.eq_def] at h
        simp only at h
        split at h
        · obtain ⟨⟨key, rest₁⟩, -, h⟩ := Option.bind_eq_some_iff.mp h
          simp only at h
          split at h
          · obtain ⟨⟨value, rest₂⟩, hvalue, h⟩ := Option.bind_eq_some_iff.mp h
            have hset : Writable floatRepr toFloat
                (.dict (setItem key value items)) :=
              writable_setItem hitems (ihonce hvalue)
            simp only at h
            split at h
            · cases h
              exact hset
            · exact ihobject hset h
            · cases h
          · cases h
        · cases h

/-- A value that has been read can be written. -/
theorem writable_of_parseJson {text : List Char} {v : Json}
    (h : parseJson constants toFloat text = some v) :
    Writable floatRepr toFloat v := by
  obtain ⟨⟨v', rest⟩, hscan, h⟩ := Option.bind_eq_some_iff.mp h
  simp only at h
  split at h
  · cases h
    exact (writable_of_scan hfloat _).1 hscan
  · cases h

end Parsed

end Values

end SentinelHub.Dashboard
