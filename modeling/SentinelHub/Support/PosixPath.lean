import Mathlib.Data.List.Infix
import Mathlib.Tactic.Common

/-!
# POSIX paths

Paths as texts, and the functions on them that do not look at a file system:
joining, normalising, and the extension of a file name.  A normalised absolute
path is a text of a particular form, and what one such text has to do with
another is said in the names it consists of.
-/

namespace SentinelHub.Support.Posix

/-! ## Paths as texts -/

/-- The number of slashes that a normalised path keeps at its front. -/
def slashes : List Char → ℕ
  | '/' :: '/' :: '/' :: _ => 1
  | '/' :: '/' :: _ => 2
  | '/' :: _ => 1
  | _ => 0

/-- Go on to the component `comp` from the directory `comps`. -/
def pushPart (absolute : Bool) (comps : List (List Char)) (comp : List Char) :
    List (List Char) :=
  if comp = [] ∨ comp = ['.'] then comps
  else if comp ≠ ['.', '.'] ∨ (absolute = false ∧ comps = []) ∨
      comps.getLast? = some ['.', '.'] then
    comps ++ [comp]
  else comps.dropLast

def normParts (path : List Char) : List (List Char) :=
  (path.splitOn '/').foldl (pushPart (slashes path != 0)) []

/-- Names with slashes between them, behind a number of slashes. -/
def render (n : ℕ) (comps : List (List Char)) : List Char :=
  List.replicate n '/' ++ ['/'].intercalate comps

/-- The path without empty components, dots, and names that are left again. -/
def normpath (path : List Char) : List Char :=
  let text := render (slashes path) (normParts path)
  if text = [] then ['.'] else text

/-- The path `b` as seen from the directory `a`. -/
def join (a b : List Char) : List Char :=
  if b.head? = some '/' then b
  else if a = [] ∨ a.getLast? = some '/' then a ++ b
  else a ++ '/' :: b

/-- The extension of the last component, with its dot; dots at the front of a
name begin no extension. -/
def extension (path : List Char) : List Char :=
  let name := ((path.splitOn '/').getLastD []).dropWhile (· = '.')
  if '.' ∈ name then '.' :: (name.reverse.takeWhile (· ≠ '.')).reverse else []

example : normpath "/srv/./a//b/../c/".toList = "/srv/a/c".toList := by
  decide

/-! ## Absolute paths -/

/-- A component that is neither empty nor a dot nor two dots. -/
def IsName (c : List Char) : Prop :=
  c ≠ [] ∧ c ≠ ['.'] ∧ c ≠ ['.', '.'] ∧ '/' ∉ c

/-- A normalised absolute path. -/
structure AbsPath where
  slashes : ℕ
  names : List (List Char)
  slashes_mem : slashes = 1 ∨ slashes = 2
  isName : ∀ c ∈ names, IsName c

/-- The text of the path. -/
def AbsPath.text (p : AbsPath) : List Char :=
  render p.slashes p.names

/-- The path goes on where the directory ends. -/
def AbsPath.IsBelow (p dir : AbsPath) : Prop :=
  p.slashes = dir.slashes ∧ ∃ more ≠ [], p.names = dir.names ++ more

/-- The path is, or is below, a sibling of the directory whose name goes on
behind the name of the directory. -/
def AbsPath.IsBeside (p dir : AbsPath) : Prop :=
  p.slashes = dir.slashes ∧ ∃ parent name ext rest, ext ≠ [] ∧
    dir.names = parent ++ [name] ∧ p.names = parent ++ (name ++ ext) :: rest

variable {path rel : List Char} {p dir : AbsPath}

theorem not_mem_of_mem_splitOn {α : Type*} [BEq α] [LawfulBEq α] {a : α}
    {xs l : List α} (h : l ∈ xs.splitOn a) : a ∉ l := by
  induction xs generalizing l with
  | nil =>
      rw [List.splitOn_nil, List.mem_singleton] at h
      rw [h]
      exact List.not_mem_nil
  | cons x xs ih =>
      rw [List.splitOn_cons_eq_if_modifyHead] at h
      split at h
      · rcases List.mem_cons.mp h with rfl | h
        · exact List.not_mem_nil
        · exact ih h
      next hne =>
        cases hsplit : xs.splitOn a with
        | nil => exact absurd hsplit (List.splitOn_ne_nil a xs)
        | cons l' ls =>
            rw [hsplit, List.modifyHead_cons] at h
            rcases List.mem_cons.mp h with rfl | h
            · intro ha
              rcases List.mem_cons.mp ha with rfl | ha
              · exact hne BEq.rfl
              · exact ih (hsplit ▸ List.mem_cons_self) ha
            · exact ih (hsplit ▸ List.mem_cons_of_mem _ h)

theorem slashes_eq_zero_iff : slashes path = 0 ↔ path.head? ≠ some '/' := by
  rw [slashes.eq_def]
  split
  · simp
  · simp
  · simp
  next _ _ hne =>
    refine iff_of_true rfl ?_
    intro hhead
    obtain ⟨tail, rfl⟩ := List.head?_eq_some_iff.mp hhead
    exact hne tail rfl

theorem slashes_mem (h : path.head? = some '/') :
    slashes path = 1 ∨ slashes path = 2 := by
  have hne : slashes path ≠ 0 := fun hzero => slashes_eq_zero_iff.mp hzero h
  have hle : slashes path ≤ 2 := by
    rw [slashes.eq_def]
    split <;> decide
  omega

/-- A path that begins with the slashes and goes on with something else. -/
theorem slashes_replicate {n : ℕ} (hn : n = 1 ∨ n = 2)
    (h : path.head? ≠ some '/') :
    slashes (List.replicate n '/' ++ path) = n := by
  cases path with
  | nil => rcases hn with rfl | rfl <;> rfl
  | cons c path =>
      have hc : c ≠ '/' := fun heq => h (congrArg some heq)
      rcases hn with rfl | rfl
      · simp [slashes, List.replicate, hc]
      · simp [slashes, List.replicate, hc]

theorem isName_pushPart {comps : List (List Char)} {comp : List Char}
    (hcomps : ∀ c ∈ comps, IsName c) (hcomp : '/' ∉ comp) :
    ∀ c ∈ pushPart true comps comp, IsName c := by
  intro c hc
  rw [pushPart] at hc
  split at hc
  · exact hcomps c hc
  next hsome =>
    split at hc
    next hpush =>
      rcases List.mem_append.mp hc with hc | hc
      · exact hcomps c hc
      · rw [List.mem_singleton.mp hc]
        refine ⟨fun h => hsome (Or.inl h), fun h => hsome (Or.inr h), ?_, hcomp⟩
        rcases hpush with h | ⟨h, -⟩ | h
        · exact h
        · cases h
        · exact absurd rfl (hcomps _ (List.mem_of_getLast? h)).2.2.1
    · exact hcomps c (List.dropLast_subset _ hc)

theorem isName_normParts (h : path.head? = some '/') :
    ∀ c ∈ normParts path, IsName c := by
  have hne : (slashes path != 0) = true := by
    rcases slashes_mem h with h | h <;> rw [h] <;> rfl
  have hall : ∀ (parts comps : List (List Char)),
      (∀ part ∈ parts, '/' ∉ part) → (∀ c ∈ comps, IsName c) →
        ∀ c ∈ parts.foldl (pushPart true) comps, IsName c := by
    intro parts
    induction parts with
    | nil => exact fun comps _ hcomps => hcomps
    | cons part parts ih =>
        intro comps hparts hcomps
        refine ih _ (fun q hq => hparts q (List.mem_cons_of_mem _ hq)) ?_
        exact isName_pushPart hcomps (hparts part List.mem_cons_self)
  rw [normParts, hne]
  exact hall _ [] (fun part hpart => not_mem_of_mem_splitOn hpart) nofun

/-- What an absolute path is when it is normalised. -/
def AbsPath.of (path : List Char) (h : path.head? = some '/') : AbsPath where
  slashes := Posix.slashes path
  names := normParts path
  slashes_mem := Posix.slashes_mem h
  isName := isName_normParts h

theorem normpath_eq_text (h : path.head? = some '/') :
    normpath path = (AbsPath.of path h).text := by
  have hne : render (slashes path) (normParts path) ≠ [] := by
    rcases slashes_mem h with h | h <;> rw [h] <;> exact List.cons_ne_nil _ _
  rw [normpath, if_neg hne, AbsPath.text, AbsPath.of]

/-- Names with slashes between them do not begin with a slash. -/
theorem exists_intercalate_eq_cons {names : List (List Char)}
    (hnames : ∀ c ∈ names, IsName c) (hne : names ≠ []) :
    ∃ c tail, ['/'].intercalate names = c :: tail ∧ c ≠ '/' := by
  cases names with
  | nil => exact absurd rfl hne
  | cons name names =>
      obtain ⟨hnil, -, -, hslash⟩ := hnames name List.mem_cons_self
      cases name with
      | nil => exact absurd rfl hnil
      | cons c name =>
          refine ⟨c, _, List.intercalate_cons_cons_left, ?_⟩
          rintro rfl
          exact hslash List.mem_cons_self

theorem head?_intercalate_append {names : List (List Char)}
    (hnames : ∀ c ∈ names, IsName c) (tail : List Char)
    (htail : names = [] → tail.head? ≠ some '/') :
    (['/'].intercalate names ++ tail).head? ≠ some '/' := by
  by_cases hne : names = []
  · rw [hne]
    exact htail hne
  · obtain ⟨c, rest, heq, hc⟩ := exists_intercalate_eq_cons hnames hne
    rw [heq, List.cons_append, List.head?_cons]
    exact fun h => hc (Option.some.inj h)

/-- Joining something that does not begin with a slash. -/
theorem slashes_join (hrel : rel.head? ≠ some '/') (dir : AbsPath) :
    (join dir.text rel).head? = some '/' ∧
      slashes (join dir.text rel) = dir.slashes := by
  have hjoin : ∃ tail, (dir.names = [] → tail.head? ≠ some '/') ∧
      join dir.text rel = dir.text ++ tail := by
    rw [join, if_neg hrel]
    by_cases hnames : dir.names = []
    · -- the text of the root ends with a slash
      have hlast : dir.text.getLast? = some '/' := by
        rw [AbsPath.text, render, hnames, List.intercalate_nil, List.append_nil]
        rcases dir.slashes_mem with h | h <;> rw [h] <;> rfl
      exact ⟨rel, fun _ => hrel, by rw [if_pos (Or.inr hlast)]⟩
    · split
      · exact ⟨rel, fun _ => hrel, rfl⟩
      · exact ⟨'/' :: rel, fun h => absurd h hnames, rfl⟩
  obtain ⟨tail, htail, heq⟩ := hjoin
  have hslashes : slashes (join dir.text rel) = dir.slashes := by
    rw [heq, AbsPath.text, render, List.append_assoc]
    exact slashes_replicate dir.slashes_mem
      (head?_intercalate_append dir.isName tail htail)
  refine ⟨?_, hslashes⟩
  by_contra hne
  rw [slashes_eq_zero_iff.mpr hne] at hslashes
  rcases dir.slashes_mem with h | h <;> omega

/-! ## Texts and names -/

theorem append_cons_isPrefix_iff {α : Type*} {a : α} {c e x y : List α}
    (hc : a ∉ c) (he : a ∉ e) :
    c ++ a :: x <+: e ++ a :: y ↔ c = e ∧ x <+: y := by
  induction c generalizing e with
  | nil =>
      cases e with
      | nil => simp
      | cons b e =>
          have hne : a ≠ b := fun heq => he (heq ▸ List.mem_cons_self)
          simp [List.cons_prefix_cons, hne]
  | cons d c ih =>
      cases e with
      | nil =>
          have hne : d ≠ a := fun heq => hc (heq ▸ List.mem_cons_self)
          simp [List.cons_prefix_cons, hne]
      | cons b e =>
          have hrest := ih (e := e) (fun h => hc (List.mem_cons_of_mem _ h))
            (fun h => he (List.mem_cons_of_mem _ h))
          rw [List.cons_append, List.cons_append, List.cons_prefix_cons, hrest,
            List.cons.injEq, and_assoc]

theorem isPrefix_append_cons_iff {α : Type*} {a : α} {c e y : List α}
    (hc : a ∉ c) : c <+: e ++ a :: y ↔ c <+: e := by
  induction c generalizing e with
  | nil => simp
  | cons d c ih =>
      cases e with
      | nil =>
          have hne : d ≠ a := fun heq => hc (heq ▸ List.mem_cons_self)
          simp [List.cons_prefix_cons, hne]
      | cons b e =>
          rw [List.cons_append, List.cons_prefix_cons, List.cons_prefix_cons,
            ih fun h => hc (List.mem_cons_of_mem _ h)]

theorem intercalate_isPrefix_iff {parent names : List (List Char)}
    {name : List Char} (hparent : ∀ c ∈ parent, IsName c) (hname : IsName name)
    (hnames : ∀ c ∈ names, IsName c) :
    ['/'].intercalate (parent ++ [name]) <+: ['/'].intercalate names ↔
      ∃ ext rest, names = parent ++ (name ++ ext) :: rest := by
  obtain ⟨hnil, -, -, hslash⟩ := hname
  induction parent generalizing names with
  | nil =>
      rw [List.nil_append, List.intercalate_singleton]
      cases names with
      | nil => simp [hnil]
      | cons e rest =>
          have hbegins : name <+: ['/'].intercalate (e :: rest) ↔
              name <+: e := by
            cases rest with
            | nil => rw [List.intercalate_singleton]
            | cons f rest =>
                rw [List.intercalate_cons_cons, List.append_assoc,
                  List.singleton_append, isPrefix_append_cons_iff hslash]
          rw [hbegins]
          constructor
          · rintro ⟨ext, rfl⟩
            exact ⟨ext, rest, rfl⟩
          · rintro ⟨ext, rest', heq⟩
            cases heq
            exact List.prefix_append _ _
  | cons c parent ih =>
      have hc := (hparent c List.mem_cons_self).2.2.2
      have htail : (parent ++ [name]) ≠ [] :=
        List.append_ne_nil_of_right_ne_nil _ (List.cons_ne_nil _ _)
      rw [List.cons_append, List.intercalate_cons_of_ne_nil htail,
        List.append_assoc, List.singleton_append]
      cases names with
      | nil => simp
      | cons e names =>
          have he := (hnames e List.mem_cons_self).2.2.2
          cases names with
          | nil =>
              rw [List.intercalate_singleton]
              refine iff_of_false ?_ ?_
              · rintro ⟨tail, rfl⟩
                exact he (by simp)
              · rintro ⟨ext, rest, heq⟩
                simp at heq
          | cons f names =>
              have hrest := ih
                (fun d hd => hparent d (List.mem_cons_of_mem _ hd))
                (fun d (hd : d ∈ f :: names) =>
                  hnames d (List.mem_cons_of_mem _ hd))
              rw [List.intercalate_cons_of_ne_nil (List.cons_ne_nil _ _),
                List.append_assoc, List.singleton_append,
                append_cons_isPrefix_iff hc he, hrest]
              constructor
              · rintro ⟨rfl, ext, rest, heq⟩
                exact ⟨ext, rest, by rw [heq, List.cons_append]⟩
              · rintro ⟨ext, rest, heq⟩
                rw [List.cons_append, List.cons.injEq] at heq
                exact ⟨heq.1.symm, ext, rest, heq.2⟩

/-- A text begins with the text of a directory exactly when the path is the
directory, is below it, or is beside it. -/
theorem AbsPath.text_isPrefix_iff (hslashes : p.slashes = dir.slashes) :
    dir.text <+: p.text ↔
      p.names = dir.names ∨ p.IsBelow dir ∨ p.IsBeside dir := by
  rw [text, text, render, render, hslashes, List.prefix_append_right_inj]
  rcases List.eq_nil_or_concat dir.names with hnil | ⟨parent, name, hdir⟩
  · rw [hnil, List.intercalate_nil]
    refine iff_of_true (List.nil_prefix) ?_
    by_cases hp : p.names = []
    · exact Or.inl hp
    · exact Or.inr (Or.inl ⟨hslashes, p.names, hp, by rw [hnil]; rfl⟩)
  · have hisName := dir.isName
    rw [hdir] at hisName ⊢
    rw [List.concat_eq_append] at hisName ⊢
    rw [intercalate_isPrefix_iff (fun c hc => hisName c (by simp [hc]))
      (hisName name (by simp)) p.isName]
    constructor
    · rintro ⟨ext, rest, hp⟩
      by_cases hext : ext = []
      · rw [hext, List.append_nil, List.append_cons] at hp
        by_cases hrest : rest = []
        · rw [hrest, List.append_nil] at hp
          exact Or.inl hp
        · exact Or.inr (Or.inl ⟨hslashes, rest, hrest, by rw [hdir, hp]; simp⟩)
      · exact Or.inr (Or.inr ⟨hslashes, parent, name, ext, rest, hext,
          by rw [hdir]; simp, hp⟩)
    · rintro (hp | ⟨-, more, -, hp⟩ | ⟨-, parent', name', ext, rest, -, hdir',
        hp⟩)
      · exact ⟨[], [], by rw [hp, List.append_nil]⟩
      · refine ⟨[], more, ?_⟩
        rw [hp, hdir]
        simp
      · rw [hdir, List.concat_eq_append] at hdir'
        obtain ⟨rfl, hsame⟩ := List.append_inj' hdir' rfl
        cases hsame
        exact ⟨ext, rest, hp⟩

/-- Beside a directory nothing is below it. -/
theorem AbsPath.IsBeside.not_isBelow (h : p.IsBeside dir) : ¬p.IsBelow dir := by
  rintro ⟨-, more, -, hmore⟩
  obtain ⟨-, parent, name, ext, rest, hext, hdir, hp⟩ := h
  rw [hmore, hdir, List.append_assoc, List.singleton_append] at hp
  have htail := List.append_cancel_left hp
  rw [List.cons.injEq] at htail
  exact hext (List.self_eq_append_right.mp htail.1)

theorem AbsPath.text_injective (h : p.text = dir.text) : p = dir := by
  have hhead : ∀ q : AbsPath, (['/'].intercalate q.names).head? ≠ some '/' := by
    intro q
    have happend := head?_intercalate_append q.isName [] nofun
    rwa [List.append_nil] at happend
  have hslashes : p.slashes = dir.slashes := by
    have heq := congrArg Posix.slashes h
    rwa [text, text, render, render, slashes_replicate p.slashes_mem (hhead p),
      slashes_replicate dir.slashes_mem (hhead dir)] at heq
  have htext : ['/'].intercalate p.names = ['/'].intercalate dir.names := by
    rw [text, text, render, render, hslashes] at h
    exact List.append_cancel_left h
  suffices hnames : p.names = dir.names by
    cases p
    cases dir
    cases hslashes
    cases hnames
    rfl
  by_cases hp : p.names = []
  · by_contra hne
    obtain ⟨c, tail, heq, -⟩ := exists_intercalate_eq_cons dir.isName
      fun hdir => hne (hp.trans hdir.symm)
    rw [hp, heq] at htext
    cases htext
  · have hdir : dir.names ≠ [] := by
      intro hdir
      obtain ⟨c, tail, heq, -⟩ := exists_intercalate_eq_cons p.isName hp
      rw [hdir, heq] at htext
      cases htext
    rw [← List.splitOn_intercalate '/' (fun l hl => (p.isName l hl).2.2.2) hp,
      htext,
      List.splitOn_intercalate '/' (fun l hl => (dir.isName l hl).2.2.2) hdir]

end SentinelHub.Support.Posix
