import Mathlib.Control.Monad.Basic
import Mathlib.Order.Basic

/-!
# Programs with a state

A program that reads and changes a state, and that may not come to its end, because a loop is
cut off. The state it has reached by then is kept.

- `Prog σ α` is the monad of such programs, `exec` a run from a state.
- `Spec P x Q E` says that a run of `x` from a state in `P` ends in `Q` if it comes to its end,
  and in `E` if it is cut off. With `E := fun _ => False` it always comes to its end.
- `Spec.pure`, `Spec.bind`, `Spec.ite` and `Spec.act` are the rules for the parts of a program,
  `Spec.iterate`, `Spec.iterate_total` and `Spec.forTurns` those for loops.
-/

namespace Stateful

/-! ## Programs -/

/-- A program with the state `σ` that returns an `α`. -/
abbrev Prog (σ α : Type) : Type := OptionT (StateM σ) α

variable {σ α β : Type}

/-- The run of a program from the state `s`: what it returns, if it does, and the state. -/
def exec (x : Prog σ α) (s : σ) : Option α × σ := (StateT.run (OptionT.run x) s).run

/-- A step that returns a value and changes the state. -/
def act (f : σ → α × σ) : Prog σ α := modifyGet f

/-- The program is cut off. -/
def cutOff : Prog σ α := OptionT.fail

/-- A loop with the body `body`, which goes on with an `α` or leaves the loop with a `β`. It is
cut off where more than `fuel` turns are needed. -/
def iterate (body : α → Prog σ (α ⊕ β)) : Nat → α → Prog σ β
  | 0, _ => cutOff
  | fuel + 1, a => do
    match ← body a with
    | .inl a => iterate body fuel a
    | .inr b => return b

/-- `for (; i < i₀ + n; i++)`, from `i = i₀`, where a turn can leave the loop with a `β`. -/
def forTurns (body : Nat → α → Prog σ (α ⊕ β)) : Nat → Nat → α → Prog σ (α ⊕ β)
  | _, 0, a => return .inl a
  | i, n + 1, a => do
    match ← body i a with
    | .inl a => forTurns body (i + 1) n a
    | .inr b => return .inr b

/-- The same loop, where no turn leaves it. -/
def forLoop (body : Nat → α → Prog σ α) : Nat → Nat → α → Prog σ α
  | _, 0, a => return a
  | i, n + 1, a => do forLoop body (i + 1) n (← body i a)

@[simp] theorem exec_act (f : σ → α × σ) (s : σ) : exec (act f) s = (some (f s).1, (f s).2) := rfl

/-- One program after the other. -/
theorem exec_bind (x : Prog σ α) (f : α → Prog σ β) (s : σ) : exec (x >>= f) s =
    match exec x s with
    | (some a, s) => exec (f a) s
    | (none, s) => (none, s) := by
  have h : exec x s = (StateT.run (OptionT.run x) s).run := rfl
  show (StateT.run (OptionT.run (x >>= f)) s).run = _
  rw [OptionT.run_bind, Option.elimM, StateT.run_bind, Id.run_bind, h]
  rcases (StateT.run (OptionT.run x) s).run with ⟨_ | a, s'⟩
  · rfl
  · rfl

/-! ## Specifications -/

/-- From a state in `P` the program comes to its end in `Q`, or it is cut off in `E`. -/
def Spec (P : σ → Prop) (x : Prog σ α) (Q : α → σ → Prop) (E : σ → Prop) : Prop :=
  ∀ s, P s → match exec x s with
    | (some a, s) => Q a s
    | (none, s) => E s

namespace Spec

variable {P : σ → Prop} {Q : α → σ → Prop} {E : σ → Prop}

theorem ret {a : α} (h : ∀ s, P s → Q a s) : Spec P (pure a) Q E := h

theorem act {f : σ → α × σ} (h : ∀ s, P s → Q (f s).1 (f s).2) : Spec P (act f) Q E := h

theorem cutOff (h : ∀ s, P s → E s) : Spec P (cutOff : Prog σ α) Q E := h

theorem bind {x : Prog σ α} {f : α → Prog σ β} {R : β → σ → Prop} (hx : Spec P x Q E)
    (hf : ∀ a, Spec (Q a) (f a) R E) : Spec P (x >>= f) R E := by
  intro s hs
  have hx' := hx s hs
  rw [exec_bind]
  rcases h : exec x s with ⟨_ | a, s'⟩
  · rw [h] at hx'
    exact hx'
  · rw [h] at hx'
    exact hf a s' hx'

theorem ite {c : Prop} [Decidable c] {x y : Prog σ α} (hx : c → Spec P x Q E)
    (hy : ¬ c → Spec P y Q E) : Spec P (if c then x else y) Q E := by
  split
  · rename_i h
    exact hx h
  · rename_i h
    exact hy h

theorem pre {P' : σ → Prop} {x : Prog σ α} (hx : Spec P x Q E) (h : ∀ s, P' s → P s) :
    Spec P' x Q E := fun s hs => hx s (h s hs)

theorem post {Q' : α → σ → Prop} {x : Prog σ α} (hx : Spec P x Q E) (h : ∀ a s, Q a s → Q' a s) :
    Spec P x Q' E := by
  intro s hs
  have hx' := hx s hs
  rcases he : exec x s with ⟨_ | a, s'⟩
  · rw [he] at hx'
    exact hx'
  · rw [he] at hx'
    exact h a s' hx'

/-- What is known where the program is cut off can be weakened. -/
theorem cut {E' : σ → Prop} {x : Prog σ α} (hx : Spec P x Q E) (h : ∀ s, E s → E' s) :
    Spec P x Q E' := by
  intro s hs
  have hx' := hx s hs
  rcases he : exec x s with ⟨_ | a, s'⟩
  · rw [he] at hx'
    exact h s' hx'
  · rw [he] at hx'
    exact hx'

/-- What is known of the state alone need not be carried through the program. -/
theorem of_forall {p : Prop} {x : Prog σ α} (h : p → Spec P x Q E) (hP : ∀ s, P s → p) :
    Spec P x Q E := fun s hs => h (hP s hs) s hs

/-! ## Loops -/

/-- What a turn of a loop leaves: the invariant if the loop goes on, or its result. -/
def Turn (I : α → σ → Prop) (R : β → σ → Prop) : α ⊕ β → σ → Prop
  | .inl a => I a
  | .inr b => R b

variable {I : α → σ → Prop} {R : β → σ → Prop}

/-- **The invariant of a loop** holds where it is cut off. -/
theorem iterate {body : α → Prog σ (α ⊕ β)} (hbody : ∀ a, Spec (I a) (body a) (Turn I R) E)
    (hcut : ∀ a s, I a s → E s) : ∀ fuel a, Spec (I a) (iterate body fuel a) R E := by
  intro fuel
  induction fuel with
  | zero => exact fun a => cutOff (hcut a)
  | succ fuel ih =>
    intro a
    refine (hbody a).bind fun r => ?_
    cases r with
    | inl a' => exact ih a'
    | inr b => exact ret fun s hs => hs

/-- **A loop that ends**: each turn that goes on makes `size` smaller, and there is fuel for
that many turns. -/
theorem iterate_total {body : α → Prog σ (α ⊕ β)} (size : α → σ → Nat)
    (hbody : ∀ n a, Spec (fun s => I a s ∧ size a s = n) (body a)
      (Turn (fun a s => I a s ∧ size a s < n) R) E) : ∀ fuel a,
    Spec (fun s => I a s ∧ size a s < fuel) (Stateful.iterate body fuel a) R E := by
  intro fuel
  induction fuel with
  | zero => exact fun a s hs => absurd hs.2 (Nat.not_lt_zero _)
  | succ fuel ih =>
    intro a s hs
    refine (Spec.bind (hbody (size a s) a) fun r => ?_) s ⟨hs.1, rfl⟩
    cases r with
    | inl a' =>
      exact (ih a').pre fun s' hs' =>
        ⟨hs'.1, Nat.lt_of_lt_of_le hs'.2 (Nat.le_of_lt_succ hs.2)⟩
    | inr b => exact ret fun s hs => hs

/-- A `for` loop whose invariant may speak of the turn. -/
theorem forTurns {body : Nat → α → Prog σ (α ⊕ β)} {J : Nat → α → σ → Prop} (m : Nat)
    (hbody : ∀ i < m, ∀ a, Spec (J i a) (body i a) (Turn (J (i + 1)) R) E) : ∀ n i a,
    i + n = m → Spec (J i a) (forTurns body i n a) (Turn (J m) R) E := by
  intro n
  induction n with
  | zero =>
    rintro i a rfl
    exact ret fun s hs => hs
  | succ n ih =>
    intro i a h
    refine (hbody i (by omega) a).bind fun r => ?_
    cases r with
    | inl a' => exact ih (i + 1) a' (by omega)
    | inr b => exact ret fun s hs => hs

theorem forLoop {body : Nat → α → Prog σ α} {J : Nat → α → σ → Prop} (m : Nat)
    (hbody : ∀ i < m, ∀ a, Spec (J i a) (body i a) (J (i + 1)) E) : ∀ n i a,
    i + n = m → Spec (J i a) (forLoop body i n a) (J m) E := by
  intro n
  induction n with
  | zero =>
    rintro i a rfl
    exact ret fun s hs => hs
  | succ n ih =>
    intro i a h
    exact (hbody i (by omega) a).bind fun b => ih (i + 1) b (by omega)

end Spec

end Stateful
