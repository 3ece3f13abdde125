import Mathlib.Data.List.Basic
import Mathlib.Order.WellFounded

/-!
# Labelled transition systems and their finite runs

A system takes a step under an action chosen by its environment, fails to take
it when the action is not possible in the current state, and otherwise emits
the events an observer could note down.  A run collects these events into one
trace.  The predicate `ok` of a run restricts the steps that were taken, so
that a result which holds under a condition on every step is stated as a
result about the runs of the restricted system.
-/

namespace SentinelHub.Support

/-- States `σ`, actions `α` and emitted events `ε`. -/
structure System (σ α ε : Type*) where
  step : σ → α → Option (σ × List ε)

namespace System

variable {σ α ε : Type*} (M : System σ α ε)

/-- `M.Run ok s tr t`: steps that all satisfy `ok` lead from `s` to `t` and
emit the trace `tr`, oldest event first. -/
inductive Run (ok : σ → α → Prop) : σ → List ε → σ → Prop
  | nil (s : σ) : Run ok s [] s
  | snoc {s t u : σ} {tr evs : List ε} {a : α} :
      Run ok s tr t → ok t a → M.step t a = some (u, evs) →
        Run ok s (tr ++ evs) u

/-- Every run of the system, whatever its steps. -/
abbrev Reaches (s : σ) (tr : List ε) (t : σ) : Prop :=
  M.Run (fun _ _ => True) s tr t

variable {M} {ok : σ → α → Prop} {s t u : σ} {tr tr' evs : List ε}

theorem Run.single {a : α} (hok : ok s a)
    (hstep : M.step s a = some (t, evs)) : M.Run ok s evs t := by
  simpa using Run.snoc (Run.nil s) hok hstep

theorem Run.trans (h₁ : M.Run ok s tr t) (h₂ : M.Run ok t tr' u) :
    M.Run ok s (tr ++ tr') u := by
  induction h₂ with
  | nil => simpa using h₁
  | snoc _ hok hstep ih =>
      rw [← List.append_assoc]
      exact Run.snoc ih hok hstep

/-- A run under a condition is a run under every weaker condition. -/
theorem Run.mono {ok' : σ → α → Prop}
    (hmono : ∀ s a, ok s a → ok' s a) (h : M.Run ok s tr t) :
    M.Run ok' s tr t := by
  induction h with
  | nil => exact Run.nil _
  | snoc _ hok hstep ih => exact Run.snoc ih (hmono _ _ hok) hstep

theorem Run.reaches (h : M.Run ok s tr t) : M.Reaches s tr t :=
  h.mono fun _ _ _ => trivial

/-- What holds at the start and is preserved by every permitted step, also
relative to the trace emitted so far, holds at the end of every run. -/
theorem Run.invariant {I : List ε → σ → Prop} (h : M.Run ok s tr t)
    (hinit : I [] s)
    (hstep : ∀ tr t a u evs, I tr t → ok t a →
      M.step t a = some (u, evs) → I (tr ++ evs) u) :
    I tr t := by
  induction h with
  | nil => exact hinit
  | snoc _ hok hs ih => exact hstep _ _ _ _ _ ih hok hs

/-- An account that every step keeps balanced is balanced over a whole run:
what was there at the start and what has come in is what has gone out and what
is left. -/
theorem Run.account {β : Type*} {income outlay : List ε → List β}
    (h : M.Run ok s tr t) (balance : σ → List β)
    (hincome : ∀ tr tr', income (tr ++ tr') = income tr ++ income tr')
    (houtlay : ∀ tr tr', outlay (tr ++ tr') = outlay tr ++ outlay tr')
    (hstep : ∀ tr t a u evs, M.Run ok s tr t → ok t a →
      M.step t a = some (u, evs) →
        (balance t ++ income evs).Perm (outlay evs ++ balance u)) :
    (balance s ++ income tr).Perm (outlay tr ++ balance t) := by
  induction h with
  | nil =>
      have hin : income [] = [] := by
        simpa using hincome [] []
      have hout : outlay [] = [] := by
        simpa using houtlay [] []
      rw [hin, hout, List.append_nil, List.nil_append]
  | @snoc t u tr evs a hrun hok hs ih =>
      have hnext := hstep tr t a u evs hrun hok hs
      rw [hincome, houtlay, ← List.append_assoc,
        List.append_assoc (outlay tr)]
      have hcarry := ih.append_right (income evs)
      rw [List.append_assoc (outlay tr)] at hcarry
      exact hcarry.trans (hnext.append_left _)

/-- A run whose trace has an event with the property `P` can be split at the
step that emits the first one. -/
theorem Run.exists_first {P : ε → Prop} (h : M.Run ok s tr t)
    (hP : ∃ e ∈ tr, P e) :
    ∃ tr₁ u a evs v tr₂, M.Run ok s tr₁ u ∧ M.step u a = some (v, evs) ∧
      M.Run ok v tr₂ t ∧ tr = tr₁ ++ evs ++ tr₂ ∧ (∀ e ∈ tr₁, ¬P e) ∧
        ∃ e ∈ evs, P e := by
  induction h with
  | nil =>
      obtain ⟨e, he, -⟩ := hP
      cases he
  | @snoc t u tr evs a hrun hok hstep ih =>
      by_cases hbefore : ∃ e ∈ tr, P e
      · obtain ⟨tr₁, u', a', evs', v, tr₂, h₁, h', h₂, rfl, hnone, hevs⟩ :=
          ih hbefore
        exact ⟨tr₁, u', a', evs', v, tr₂ ++ evs, h₁, h', h₂.snoc hok hstep,
          by simp only [List.append_assoc], hnone, hevs⟩
      · obtain ⟨e, he, hPe⟩ := hP
        rw [List.mem_append] at he
        rcases he with he | he
        · exact absurd ⟨e, he, hPe⟩ hbefore
        · refine ⟨tr, t, a, evs, u, [], hrun, hstep, Run.nil u, ?_, ?_, ?_⟩
          · rw [List.append_nil]
          · intro e he hPe
            exact hbefore ⟨e, he, hPe⟩
          · exact ⟨e, he, hPe⟩

/-- Where every step is one of a component or leaves the component alone, a run
is a run of the component. -/
theorem Run.project {τ β δ : Type*} {N : System τ β δ} {f : σ → τ}
    {part : List ε → List δ} (h : M.Run ok s tr t) (hnil : part [] = [])
    (happend : ∀ tr tr', part (tr ++ tr') = part tr ++ part tr')
    (hstep : ∀ s a t evs, ok s a → M.step s a = some (t, evs) →
      (f t = f s ∧ part evs = []) ∨
        ∃ b, N.step (f s) b = some (f t, part evs)) :
    N.Reaches (f s) (part tr) (f t) := by
  induction h with
  | nil =>
      rw [hnil]
      exact Run.nil _
  | @snoc t u tr evs a _ hok hs ih =>
      rw [happend]
      rcases hstep t a u evs hok hs with ⟨hsame, hnone⟩ | ⟨b, hb⟩
      · rw [hsame, hnone, List.append_nil]
        exact ih
      · exact ih.snoc trivial hb

/-- Execute a list of actions, collecting the events, as long as every step is
permitted and possible. -/
def exec (M : System σ α ε) (ok : σ → α → Prop) [∀ s a, Decidable (ok s a)]
    (s : σ) : List α → Option (σ × List ε)
  | [] => some (s, [])
  | a :: as =>
      if ok s a then
        match M.step s a with
        | none => none
        | some (t, evs) =>
            match M.exec ok t as with
            | none => none
            | some (u, tr) => some (u, evs ++ tr)
      else none

theorem exec_run [∀ s a, Decidable (ok s a)] (as : List α)
    (h : M.exec ok s as = some (t, tr)) : M.Run ok s tr t := by
  induction as generalizing s tr with
  | nil =>
      simp only [exec, Option.some.injEq, Prod.mk.injEq] at h
      obtain ⟨rfl, rfl⟩ := h
      exact Run.nil s
  | cons a as ih =>
      rw [exec] at h
      split at h
      next hok =>
        split at h
        · cases h
        next v evs hv =>
          split at h
          · cases h
          next w tr' hw =>
            simp only [Option.some.injEq, Prod.mk.injEq] at h
            obtain ⟨rfl, rfl⟩ := h
            exact (Run.single hok hv).trans (ih hw)
      · cases h

/-! ## Observing more of a system -/

section Observe

variable {δ : Type*} {embed : ε → δ} {notes : σ → α → List δ}

/-- The same system with notes on every step it takes, which depend on the
state before the step and on the action, and go before the events emitted. -/
def observe (M : System σ α ε) (embed : ε → δ) (notes : σ → α → List δ) :
    System σ α δ where
  step s a := (M.step s a).map fun (t, evs) =>
    (t, notes s a ++ evs.map embed)

theorem observe_step_iff {a : α} {obs : List δ} :
    (M.observe embed notes).step s a = some (t, obs) ↔
      ∃ evs, M.step s a = some (t, evs) ∧
        obs = notes s a ++ evs.map embed := by
  simp only [observe, Option.map_eq_some_iff, Prod.exists, Prod.mk.injEq]
  constructor
  · rintro ⟨_, evs, hstep, rfl, rfl⟩
    exact ⟨evs, hstep, rfl⟩
  · rintro ⟨evs, hstep, rfl⟩
    exact ⟨t, evs, hstep, rfl, rfl⟩

/-- Observation changes nothing: without the notes, the observed runs are the
runs of the system. -/
theorem observe_run_iff {proj : δ → Option ε}
    (hembed : ∀ e, proj (embed e) = some e)
    (hnotes : ∀ s a, (notes s a).filterMap proj = []) :
    M.Run ok s evs t ↔
      ∃ obs, (M.observe embed notes).Run ok s obs t ∧
        obs.filterMap proj = evs := by
  have hproj : ∀ evs : List ε, (evs.map embed).filterMap proj = evs := by
    intro evs
    have hcomp : proj ∘ embed = some := funext hembed
    rw [List.filterMap_map, hcomp, List.filterMap_some]
  constructor
  · intro h
    induction h with
    | nil => exact ⟨[], Run.nil _, rfl⟩
    | @snoc t u tr evs a hrun hok hstep ih =>
        obtain ⟨obs, hobs, hevs⟩ := ih
        refine ⟨_, hobs.snoc hok (observe_step_iff.mpr ⟨_, hstep, rfl⟩), ?_⟩
        rw [List.filterMap_append, List.filterMap_append, hnotes, hproj, hevs,
          List.nil_append]
  · rintro ⟨obs, h, rfl⟩
    induction h with
    | nil => exact Run.nil _
    | @snoc t u obs obs' a hrun hok hstep ih =>
        obtain ⟨evs, hevs, rfl⟩ := observe_step_iff.mp hstep
        rw [List.filterMap_append, List.filterMap_append, hnotes, hproj,
          List.nil_append]
        exact ih.snoc hok hevs

end Observe

/-! ## Coming to rest -/

/-- No step that is permitted is possible. -/
def Resting (M : System σ α ε) (ok : σ → α → Prop) (s : σ) : Prop :=
  ∀ a, ok s a → M.step s a = none

section Rest

variable {β : Type*} [LT β] [WellFoundedLT β] {I : σ → Prop} {μ : σ → β}

/-- Where every permitted step goes down, none can be taken for ever. -/
theorem not_endless (hstep : ∀ s a t evs, I s → ok s a →
      M.step s a = some (t, evs) → I t ∧ μ t < μ s)
    {f : ℕ → σ} (hinit : I (f 0)) :
    ¬∀ n, ∃ a evs, ok (f n) a ∧ M.step (f n) a = some (f (n + 1), evs) := by
  intro hendless
  have hinv : ∀ n, I (f n) := by
    intro n
    induction n with
    | zero => exact hinit
    | succ n ih =>
        obtain ⟨a, evs, hok, hs⟩ := hendless n
        exact (hstep _ _ _ _ ih hok hs).1
  have hdown : ∀ n, μ (f (n + 1)) < μ (f n) := by
    intro n
    obtain ⟨a, evs, hok, hs⟩ := hendless n
    exact (hstep _ _ _ _ (hinv n) hok hs).2
  exact (wellFounded_iff_isEmpty_descending_chain.mp
    (wellFounded_lt (α := β))).false ⟨fun n => μ (f n), hdown⟩

/-- Where every permitted step goes down, taking them leads to a rest. -/
theorem exists_resting (hstep : ∀ s a t evs, I s → ok s a →
      M.step s a = some (t, evs) → I t ∧ μ t < μ s) (hinit : I s) :
    ∃ tr t, M.Run ok s tr t ∧ M.Resting ok t := by
  induction hμ : μ s using (wellFounded_lt (α := β)).induction
    generalizing s with
  | h m ih =>
      by_cases hrest : M.Resting ok s
      · exact ⟨[], s, Run.nil s, hrest⟩
      · simp only [Resting, not_forall] at hrest
        obtain ⟨a, hok, hsome⟩ := hrest
        obtain ⟨⟨t, evs⟩, hs⟩ := Option.ne_none_iff_exists'.mp hsome
        obtain ⟨hI, hlt⟩ := hstep s a t evs hinit hok hs
        obtain ⟨tr, u, hrun, hrest⟩ := ih (μ t) (hμ ▸ hlt) hI rfl
        exact ⟨evs ++ tr, u, (Run.single hok hs).trans hrun, hrest⟩

end Rest

end System

end SentinelHub.Support
