import UnikraftSuite.Lib.Calls

/-!
# Kernels that keep to an interface

An interface says which results a call may have in a state, and what state it leaves. A log keeps
to it if each of its results is one that the state reached by then allows; nothing is asked of the
results that a run does not come to.

- `Known φ`: the state behind the log of a machine and the lines it has written are in `φ`, if the
  log keeps to the interface.
- `Goes φ x ψ`: the program `x` takes machines of which `φ` is known to ones of which `ψ` is, and
  is cut off only where the log does not keep to the interface. There is one rule for each way to
  build a program.
-/

namespace Interfaces

open PyStr Stateful Calls

variable {σ τ α β : Type}

/-- The state behind a call with its result, and the results that a call may have. -/
structure Interface (σ τ : Type) where
  step : τ → σ × Result → τ
  allowed : τ → σ × Result → Prop

variable {I : Interface σ τ} {t₀ : τ} {φ : τ → List Text → Prop}

/-- Each result of the log is allowed. -/
def KeptTo (I : Interface σ τ) (t₀ : τ) (log : List (σ × Result)) : Prop :=
  Along I.step I.allowed t₀ log

instance decidableAlong {ε : Type} {step : τ → ε → τ} {P : τ → ε → Prop}
    [∀ t e, Decidable (P t e)] : (t : τ) → (es : List ε) → Decidable (Along step P t es)
  | _, [] => .isTrue trivial
  | t, e :: es => @instDecidableAnd _ _ _ (decidableAlong (step t e) es)

instance [∀ t e, Decidable (I.allowed t e)] (log : List (σ × Result)) :
    Decidable (KeptTo I t₀ log) :=
  decidableAlong t₀ log

/-- The state behind the log. -/
def behind (I : Interface σ τ) (t₀ : τ) (log : List (σ × Result)) : τ := log.foldl I.step t₀

theorem behind_append (log : List (σ × Result)) (e : σ × Result) :
    behind I t₀ (log ++ [e]) = I.step (behind I t₀ log) e := List.foldl_append

theorem keptTo_append {log : List (σ × Result)} {e : σ × Result} :
    KeptTo I t₀ (log ++ [e]) ↔ KeptTo I t₀ log ∧ I.allowed (behind I t₀ log) e :=
  (along_append log [e] t₀).trans (and_congr_right fun _ => and_iff_left trivial)

/-- The state behind the calls of the machine and its lines are in `φ`, if the calls keep to the
interface. -/
def Known (I : Interface σ τ) (t₀ : τ) (φ : τ → List Text → Prop) (m : Machine σ) : Prop :=
  KeptTo I t₀ m.log → φ (behind I t₀ m.log) m.out

/-- The program goes from `φ` to `ψ`, and it is not cut off. -/
def Goes (I : Interface σ τ) (t₀ : τ) (φ : τ → List Text → Prop) (x : Prog (Machine σ) α)
    (ψ : α → τ → List Text → Prop) : Prop :=
  Spec (Known I t₀ φ) x (fun a => Known I t₀ (ψ a)) (Known I t₀ fun _ _ => False)

namespace Goes

variable {ψ : α → τ → List Text → Prop} {χ : β → τ → List Text → Prop}

theorem ret {a : α} (h : ∀ t out, φ t out → ψ a t out) : Goes I t₀ φ (pure a) ψ :=
  Spec.ret fun _ hm hlog => h _ _ (hm hlog)

theorem bind {x : Prog (Machine σ) α} {f : α → Prog (Machine σ) β} (hx : Goes I t₀ φ x ψ)
    (hf : ∀ a, Goes I t₀ (ψ a) (f a) χ) : Goes I t₀ φ (x >>= f) χ :=
  Spec.bind hx hf

theorem ite {c : Prop} [Decidable c] {x y : Prog (Machine σ) α} (hx : c → Goes I t₀ φ x ψ)
    (hy : ¬ c → Goes I t₀ φ y ψ) : Goes I t₀ φ (if c then x else y) ψ :=
  Spec.ite hx hy

theorem pre {φ' : τ → List Text → Prop} {x : Prog (Machine σ) α} (hx : Goes I t₀ φ x ψ)
    (h : ∀ t out, φ' t out → φ t out) : Goes I t₀ φ' x ψ :=
  Spec.pre hx fun _ hm hlog => h _ _ (hm hlog)

theorem post {ψ' : α → τ → List Text → Prop} {x : Prog (Machine σ) α} (hx : Goes I t₀ φ x ψ)
    (h : ∀ a t out, ψ a t out → ψ' a t out) : Goes I t₀ φ x ψ' :=
  Spec.post hx fun a _ hm hlog => h a _ _ (hm hlog)

/-- A call: its result is allowed, and it leaves the next state. -/
theorem syscall {k : Kernel σ} {c : σ} {ψ : Int → τ → List Text → Prop}
    (h : ∀ t out r, φ t out → I.allowed t (c, r) → ψ r.ret (I.step t (c, r)) out) :
    Goes I t₀ φ (syscall k c) ψ := by
  refine syscall_spec fun m hm hlog => ?_
  obtain ⟨hbefore, hallowed⟩ := keptTo_append.mp hlog
  show ψ _ (behind I t₀ (m.log ++ [(c, k m c)])) m.out
  rw [behind_append]
  exact h _ _ _ (hm hbefore) hallowed

theorem printf {x : Text} {ψ : Unit → τ → List Text → Prop}
    (h : ∀ t out, φ t out → ψ () t (out ++ [x])) : Goes I t₀ φ (printf x) ψ :=
  printf_spec fun _ hm hlog => h _ _ (hm hlog)

theorem errno : Goes I t₀ φ errno fun _ => φ :=
  errno_spec fun _ hm => hm

/-- An exit that is not taken. -/
theorem exitIf {c : Prop} [Decidable c] {msg : Int → Text} (h : ∀ t out, φ t out → ¬ c) :
    Goes I t₀ φ (exitIf c msg) fun _ => φ := by
  refine .ite (fun hc => ?_) fun _ => .ret fun _ _ ht => ht
  refine .bind errno fun e =>
    .bind (.printf (ψ := fun _ _ _ => False) fun t out ht => h t out ht hc)
      fun _ => Spec.cutOff fun m hm hlog => hm hlog

theorem forLoop {body : Nat → α → Prog (Machine σ) α} {ψ : Nat → α → τ → List Text → Prop} {n : Nat}
    (h : ∀ i < n, ∀ a, Goes I t₀ (ψ i a) (body i a) (ψ (i + 1))) (a : α) :
    Goes I t₀ (ψ 0 a) (forLoop body 0 n a) (ψ n) :=
  Spec.forLoop (J := fun i a => Known I t₀ (ψ i a)) n h n 0 a (Nat.zero_add n)

/-- **A run from the start** whose log keeps to the interface comes to its end, in a state in
`ψ`. -/
theorem run {x : Prog (Machine σ) α} (hx : Goes I t₀ (fun t _ => t = t₀) x ψ)
    (hlog : KeptTo I t₀ (exec x .start).2.log) : ∃ a, (exec x .start).1 = some a ∧
      ψ a (behind I t₀ (exec x .start).2.log) (exec x .start).2.out := by
  have hrun := hx .start fun _ => rfl
  rcases he : exec x (.start : Machine σ) with ⟨_ | a, m⟩
  · rw [he] at hrun hlog
    exact (hrun hlog).elim
  · rw [he] at hrun hlog
    exact ⟨a, rfl, hrun hlog⟩

end Goes

end Interfaces
