import Mathlib.Logic.Relation
import Mathlib.Order.Basic

/-!
# Runs of a transition system

A system is a relation between states, and a run is a path of it. Steps of several parties that
come in any order are one relation: what is said of all runs is said of all interleavings.

- `Invariant step I`: each step keeps `I`; so does each run (`Invariant.run`).
- `Decreases step I size`: each step makes `size` smaller; so no run is longer than the size it
  begins with (`Decreases.length_le`).
- `exists_end` and `ends`: where every state but the last ones has a next one, a run can be
  continued to a last state, and a run that cannot be continued has reached one.
- `Timed`: the system with an alarm that may cut it off. Until then its runs are those of the
  system (`timed_running`), and so is what is in front of the alarm (`Run.timed`).
-/

namespace Runs

open Relation

variable {σ : Type} {step : σ → σ → Prop} {I : σ → Prop} {size : σ → Nat}

/-- Each step keeps `I`. -/
def Invariant (step : σ → σ → Prop) (I : σ → Prop) : Prop := ∀ ⦃s s'⦄, I s → step s s' → I s'

/-- Each step from a state in `I` makes `size` smaller. -/
def Decreases (step : σ → σ → Prop) (I : σ → Prop) (size : σ → Nat) : Prop :=
  ∀ ⦃s s'⦄, I s → step s s' → size s' < size s

/-- A run of `n` steps. -/
inductive Run (step : σ → σ → Prop) : Nat → σ → σ → Prop
  | refl (s : σ) : Run step 0 s s
  | tail {n : Nat} {s s' s'' : σ} : Run step n s s' → step s' s'' → Run step (n + 1) s s''

theorem Run.reflTransGen {n : Nat} {s s' : σ} (h : Run step n s s') : ReflTransGen step s s' := by
  induction h with
  | refl => exact .refl
  | tail _ hstep ih => exact ih.tail hstep

/-- **An invariant holds along every run.** -/
theorem Invariant.run (h : Invariant step I) {s s' : σ} (hs : I s)
    (hrun : ReflTransGen step s s') : I s' := by
  induction hrun with
  | refl => exact hs
  | tail _ hstep ih => exact h ih hstep

/-- **No run is longer** than the size of the state it begins in. -/
theorem Decreases.length_le (hdec : Decreases step I size) (hI : Invariant step I) {n : Nat}
    {s s' : σ} (hs : I s) (hrun : Run step n s s') : n + size s' ≤ size s := by
  induction hrun with
  | refl => exact Nat.le_of_eq (Nat.zero_add _)
  | tail hrun hstep ih =>
    have hlt := hdec (hI.run hs hrun.reflTransGen) hstep
    have hle := ih hs
    omega

/-- Each state in `I` has a next one, or it is a last one. -/
def Progress (step : σ → σ → Prop) (I last : σ → Prop) : Prop :=
  ∀ ⦃s⦄, I s → last s ∨ ∃ s', step s s'

variable {last : σ → Prop}

/-- **A run can be continued to a last state.** -/
theorem exists_end (hprog : Progress step I last) (hdec : Decreases step I size)
    (hI : Invariant step I) {s : σ} (hs : I s) : ∃ s', ReflTransGen step s s' ∧ last s' := by
  -- induction on the size of the state
  induction hn : size s using Nat.strongRecOn generalizing s with
  | ind n ih =>
    rcases hprog hs with hlast | ⟨s', hstep⟩
    · exact ⟨s, .refl, hlast⟩
    · obtain ⟨s'', hrun, hlast⟩ := ih (size s') (hn ▸ hdec hs hstep) (hI hs hstep) rfl
      exact ⟨s'', .head hstep hrun, hlast⟩

/-- **A run that cannot be continued** has reached a last state. -/
theorem ends (hprog : Progress step I last) (hI : Invariant step I) {s s' : σ} (hs : I s)
    (hrun : ReflTransGen step s s') (hstuck : ∀ s'', ¬ step s' s'') : last s' := by
  rcases hprog (hI.run hs hrun) with hlast | ⟨s'', hstep⟩
  · exact hlast
  · exact absurd hstep (hstuck s'')

/-! ## Alarms -/

/-- A state of the system, or the one in which the alarm has gone off. -/
inductive Timed (σ : Type) where
  | running (s : σ)
  | alarmed (s : σ)

/-- The last state of the system. -/
def Timed.state : Timed σ → σ
  | .running s => s
  | .alarmed s => s

/-- A step of the system, or the alarm, which may go off wherever it is set. -/
inductive Timed.Step (step : σ → σ → Prop) (armed : σ → Prop) : Timed σ → Timed σ → Prop
  | step {s s' : σ} (hstep : step s s') : Timed.Step step armed (.running s) (.running s')
  | alarm {s : σ} (harmed : armed s) : Timed.Step step armed (.running s) (.alarmed s)

variable {armed : σ → Prop} {s s' : σ} {t : Timed σ} {n : Nat}

/-- A run goes on until the alarm goes off, which is the last thing that happens. -/
theorem Run.timed (h : Run (Timed.Step step armed) n (.running s) t) :
    (∃ s', t = .running s' ∧ Run step n s s') ∨
      ∃ m s', n = m + 1 ∧ t = .alarmed s' ∧ Run step m s s' ∧ armed s' := by
  generalize ht : Timed.running s = t₀ at h
  induction h with
  | refl => exact .inl ⟨s, ht.symm, .refl s⟩
  | tail _ hstep ih =>
    obtain ⟨s', rfl, hrun⟩ | ⟨_, _, _, rfl, -⟩ := ih ht
    · cases hstep with
      | step hstep => exact .inl ⟨_, rfl, hrun.tail hstep⟩
      | alarm harmed => exact .inr ⟨_, _, rfl, rfl, hrun, harmed⟩
    · cases hstep

theorem exists_run {s s' : σ} (h : ReflTransGen step s s') : ∃ n, Run step n s s' := by
  induction h with
  | refl => exact ⟨0, .refl s⟩
  | tail _ hstep ih =>
    obtain ⟨n, hrun⟩ := ih
    exact ⟨n + 1, hrun.tail hstep⟩

/-- **As long as the alarm has not gone off**, the runs are those of the system. -/
theorem timed_running : ReflTransGen (Timed.Step step armed) (.running s) (.running s') ↔
    ReflTransGen step s s' := by
  constructor
  · intro h
    obtain ⟨n, hrun⟩ := exists_run h
    obtain ⟨s'', heq, hrun⟩ | ⟨_, _, -, heq, -⟩ := hrun.timed
    · cases heq
      exact hrun.reflTransGen
    · cases heq
  · exact fun h => h.lift Timed.running fun _ _ => .step

/-- What is in front of the alarm is a run of the system. -/
theorem timed_last (h : ReflTransGen (Timed.Step step armed) (.running s) t) :
    ReflTransGen step s t.state := by
  obtain ⟨n, hrun⟩ := exists_run h
  obtain ⟨s', rfl, hsteps⟩ | ⟨_, s', -, rfl, hsteps, -⟩ := hrun.timed
  · exact hsteps.reflTransGen
  · exact hsteps.reflTransGen

end Runs
