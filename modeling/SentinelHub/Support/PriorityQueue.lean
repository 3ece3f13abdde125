import Mathlib.Order.Lattice
import Mathlib.Data.List.Basic
import Mathlib.Data.List.Pairwise

/-!
# Priority queues and banks of FIFO queues

A priority queue is taken as the list of its waiting elements in the order of
their arrival, from which the first element with the least key is removed.
When the key orders elements first by level and then by arrival, this is the
same as a bank with one FIFO queue per level of which the first non-empty
queue, in the order of the levels, is served.
-/

namespace SentinelHub.Support

variable {α β κ π : Type*}

/-! ## Removing the least element -/

/-- The first element with the least key, and the other elements in order. -/
def popMin [LinearOrder κ] (key : α → κ) : List α → Option (α × List α)
  | [] => none
  | a :: as =>
      match popMin key as with
      | none => some (a, as)
      | some (m, rest) =>
          if key a ≤ key m then some (a, as) else some (m, a :: rest)

section PopMin

variable [LinearOrder κ] {key : α → κ} {l rest : List α} {m : α}

theorem popMin_eq_none_iff : popMin key l = none ↔ l = [] := by
  cases l with
  | nil => simp [popMin]
  | cons a as =>
      rw [popMin]
      cases popMin key as with
      | none => simp
      | some result =>
          simp only [reduceCtorEq, iff_false]
          split <;> exact Option.some_ne_none _

/-- The element removed is less than all elements in front of it and not
greater than the elements behind it. -/
theorem popMin_eq_some (h : popMin key l = some (m, rest)) :
    ∃ front back, l = front ++ m :: back ∧ rest = front ++ back ∧
      (∀ x ∈ front, key m < key x) ∧ ∀ x ∈ back, key m ≤ key x := by
  induction l generalizing m rest with
  | nil => cases h
  | cons a as ih =>
      rw [popMin] at h
      cases hpop : popMin key as with
      | none =>
          rw [hpop] at h
          cases h
          rw [popMin_eq_none_iff] at hpop
          subst hpop
          exact ⟨[], [], rfl, rfl, by simp, by simp⟩
      | some result =>
          obtain ⟨m', rest'⟩ := result
          rw [hpop] at h
          obtain ⟨front, back, rfl, rfl, hfront, hback⟩ := ih hpop
          by_cases hle : key a ≤ key m'
          · simp only [if_pos hle] at h
            cases h
            refine ⟨[], front ++ m' :: back, rfl, rfl, by simp, ?_⟩
            intro x hx
            rw [List.mem_append, List.mem_cons] at hx
            rcases hx with hx | rfl | hx
            · exact hle.trans (hfront x hx).le
            · exact hle
            · exact hle.trans (hback x hx)
          · simp only [if_neg hle] at h
            cases h
            refine ⟨a :: front, back, rfl, rfl, ?_, hback⟩
            intro x hx
            rw [List.mem_cons] at hx
            rcases hx with rfl | hx
            · exact not_le.mp hle
            · exact hfront x hx

theorem popMin_perm (h : popMin key l = some (m, rest)) :
    l.Perm (m :: rest) := by
  obtain ⟨front, back, rfl, rfl, -, -⟩ := popMin_eq_some h
  exact List.perm_middle

theorem popMin_sublist (h : popMin key l = some (m, rest)) :
    rest.Sublist l := by
  obtain ⟨front, back, rfl, rfl, -, -⟩ := popMin_eq_some h
  exact (List.sublist_cons_self m back).append_left front

end PopMin

/-! ## Banks of FIFO queues -/

/-- One FIFO queue for each level. -/
abbrev QueueBank (π α : Type*) := π → List α

namespace QueueBank

variable [DecidableEq π]

/-- An element arrives and goes to the end of the queue of its level. -/
def push (level : α → π) (bank : QueueBank π α) (a : α) : QueueBank π α :=
  Function.update bank (level a) (bank (level a) ++ [a])

/-- The head of the first non-empty queue is served.  The levels are given in
the order in which they are served. -/
def serve (levels : List π) (bank : QueueBank π α) :
    Option (α × QueueBank π α) :=
  match levels.find? fun p => !(bank p).isEmpty with
  | none => none
  | some p =>
      match bank p with
      | [] => none
      | a :: as => some (a, Function.update bank p as)

/-- What happens to a bank from outside. -/
inductive Op (α : Type*)
  | push (a : α)
  | serve

/-- The elements served in the course of some operations, and the bank at the
end; `none` if an empty bank should serve. -/
def run (level : α → π) (levels : List π) :
    QueueBank π α → List (Op α) → Option (List α × QueueBank π α)
  | bank, [] => some ([], bank)
  | bank, .push a :: ops => run level levels (bank.push level a) ops
  | bank, .serve :: ops =>
      match bank.serve levels with
      | none => none
      | some (a, bank) =>
          (run level levels bank ops).map fun (as, bank) => (a :: as, bank)

variable {level : α → π} {levels : List π} {bank bank' bank'' : QueueBank π α}
  {ops ops' : List (Op α)} {served served' : List α}

theorem run_append (h : run level levels bank ops = some (served, bank'))
    (h' : run level levels bank' ops' = some (served', bank'')) :
    run level levels bank (ops ++ ops') = some (served ++ served', bank'') := by
  induction ops generalizing bank served with
  | nil =>
      cases h
      exact h'
  | cons op ops ih =>
      cases op with
      | push a => exact ih h
      | serve =>
          rw [List.cons_append, run]
          rw [run] at h
          cases hserve : bank.serve levels with
          | none =>
              rw [hserve] at h
              cases h
          | some result =>
              obtain ⟨a, next⟩ := result
              rw [hserve] at h
              simp only [Option.map_eq_some_iff, Prod.exists] at h
              obtain ⟨as, last, hrun, heq⟩ := h
              cases heq
              simp only [ih hrun, Option.map_some, List.cons_append]

/-- The bank that holds the elements of a list in their order. -/
def ofList (level : α → π) (l : List α) : QueueBank π α :=
  fun p => l.filter fun a => level a = p

theorem push_ofList (level : α → π) (l : List α) (a : α) :
    (ofList level l).push level a = ofList level (l ++ [a]) := by
  funext p
  by_cases hp : p = level a
  · subst hp
    simp [push, ofList, List.filter_append]
  · have hne : ¬level a = p := fun h => hp h.symm
    simp [push, ofList, List.filter_append, Function.update_of_ne hp, hne]

/-- The element served is the first one of the first level that occurs. -/
theorem serve_ofList {p : π} {before after : List π} {m : α}
    {front back : List α} (hlevels : levels = before ++ p :: after)
    (hm : level m = p) (hfront : ∀ x ∈ front, level x ≠ p)
    (hbefore : ∀ q ∈ before, ∀ x ∈ front ++ m :: back, level x ≠ q) :
    (ofList level (front ++ m :: back)).serve levels =
      some (m, ofList level (front ++ back)) := by
  have hfilter : front.filter (fun a => level a = p) = [] := by
    rw [List.filter_eq_nil_iff]
    intro x hx
    simpa using hfront x hx
  have hqueue : ofList level (front ++ m :: back) p =
      m :: back.filter fun a => level a = p := by
    simp [ofList, List.filter_append, hfilter, hm]
  have hfind : levels.find?
      (fun q => !(ofList level (front ++ m :: back) q).isEmpty) = some p := by
    rw [hlevels, List.find?_append, List.find?_eq_none.mpr, Option.none_or,
      List.find?_cons_of_pos]
    · rw [hqueue]
      rfl
    · intro q hq
      have hempty : ofList level (front ++ m :: back) q = [] := by
        rw [ofList, List.filter_eq_nil_iff]
        intro x hx
        simpa using hbefore q hq x hx
      rw [hempty]
      simp
  rw [serve, hfind]
  simp only [hqueue, Option.some.injEq, Prod.mk.injEq, true_and]
  funext q
  by_cases hq : q = p
  · subst hq
    simp [ofList, List.filter_append, hfilter]
  · have hne : ¬level m = q := fun h => hq (h.symm.trans hm)
    simp [ofList, List.filter_append, Function.update_of_ne hq, hne]

end QueueBank

end SentinelHub.Support
