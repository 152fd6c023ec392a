import UnikraftSuite.Lib.PyStr
import UnikraftSuite.Lib.Stateful

/-!
# System calls in sequence

A process that makes system calls, looks at `errno` and writes lines.

- `Machine` is `errno`, the calls so far with their results, and the lines written. What a call
  returns may depend on all of that. Only a call that returns -1 sets `errno`, so it is always
  that of the last call that has failed (`Machine.Current.made`).
- `Along` says something of each entry of a log, with what the entries before it have made of a
  state.
- `Straight` describes a program whose only branches are exits: when it gets through, what it
  returns, and the calls it makes then. `Straight.prints` is about a line written behind it.
-/

namespace Calls

open PyStr Stateful

/-- The return value of a call, and the `errno` it sets if that is -1. -/
structure Result where
  ret : Int
  errno : Int
  deriving DecidableEq

/-- `errno` after a call. -/
def Result.after (r : Result) (errno : Int) : Int := if r.ret = -1 then r.errno else errno

/-- The `errno` of the last of the calls that has failed. -/
def lastErrno (rs : List Result) : Int := rs.foldl (fun errno r => r.after errno) 0

theorem lastErrno_append (rs : List Result) (r : Result) :
    lastErrno (rs ++ [r]) = r.after (lastErrno rs) :=
  List.foldl_append

/-- `errno`, the calls so far with their results, and the lines written. -/
structure Machine (σ : Type) where
  errno : Int
  log : List (σ × Result)
  out : List Text

variable {σ : Type}

def Machine.start : Machine σ := ⟨0, [], []⟩

/-- The results of the calls so far. -/
def Machine.results (m : Machine σ) : List Result := m.log.map Prod.snd

/-- What a process finds, for each call. -/
abbrev Kernel (σ : Type) : Type := Machine σ → σ → Result

/-- The machine after a call. -/
def Machine.made (m : Machine σ) (c : σ) (r : Result) : Machine σ :=
  { m with errno := r.after m.errno, log := m.log ++ [(c, r)] }

/-- A call, which returns its return value. -/
def syscall (k : Kernel σ) (c : σ) : Prog (Machine σ) Int :=
  act fun m => ((k m c).ret, m.made c (k m c))

/-- The value of `errno`. -/
def errno : Prog (Machine σ) Int := act fun m => (m.errno, m)

/-- `printf` of this line. -/
def printf (x : Text) : Prog (Machine σ) Unit := act fun m => ((), { m with out := m.out ++ [x] })

/-- `if (fd > 0)`, and then the call `c`. -/
def callIf (k : Kernel σ) (fd : Int) (c : σ) : Prog (Machine σ) Unit :=
  if fd > 0 then do
    let _ ← syscall k c
    return ()
  else return ()

@[simp] theorem made_results (m : Machine σ) (c : σ) (r : Result) :
    (m.made c r).results = m.results ++ [r] := by
  simp [Machine.made, Machine.results]

/-- `errno` is that of the last call that has failed. -/
def Machine.Current (m : Machine σ) : Prop := m.errno = lastErrno m.results

theorem Machine.Current.made {m : Machine σ} (h : m.Current) (c : σ) (r : Result) :
    (m.made c r).Current := by
  rw [Current, made_results, lastErrno_append, ← h]
  rfl

section Rules

variable {P E : Machine σ → Prop}

theorem syscall_spec {k : Kernel σ} {c : σ} {Q : Int → Machine σ → Prop}
    (h : ∀ m, P m → Q (k m c).ret (m.made c (k m c))) : Spec P (syscall k c) Q E := .act h

theorem errno_spec {Q : Int → Machine σ → Prop} (h : ∀ m, P m → Q m.errno m) :
    Spec P errno Q E := .act h

theorem printf_spec {x : Text} {Q : Unit → Machine σ → Prop}
    (h : ∀ m, P m → Q () { m with out := m.out ++ [x] }) : Spec P (printf x) Q E := .act h

theorem callIf_spec {k : Kernel σ} (fd : Int) {c : σ} (h : ∀ m r, P m → P (m.made c r)) :
    Spec P (callIf k fd c) (fun _ => P) E :=
  .ite (fun _ => .bind (syscall_spec (Q := fun _ => P) fun m hm => h m _ hm) fun _ =>
    .ret fun _ hm => hm) fun _ => .ret fun _ hm => hm

end Rules

/-! ## Logs -/

section Along

variable {τ ε : Type} {step : τ → ε → τ} {P : τ → ε → Prop}

/-- `P` holds of each entry of a log, with what `step` has made of the entries before it. -/
def Along (step : τ → ε → τ) (P : τ → ε → Prop) : τ → List ε → Prop
  | _, [] => True
  | t, e :: es => P t e ∧ Along step P (step t e) es

theorem along_append (es es' : List ε) : ∀ t, Along step P t (es ++ es') ↔
    Along step P t es ∧ Along step P (es.foldl step t) es' := by
  induction es with
  | nil => exact fun t => (iff_of_eq (true_and _)).symm
  | cons e es ih => exact fun t => (and_congr_right fun _ => ih (step t e)).trans and_assoc.symm

/-- Entries of which `P` holds in any case. -/
theorem along_of_forall {es : List ε} (h : ∀ e ∈ es, ∀ t, P t e) : ∀ t, Along step P t es := by
  induction es with
  | nil => exact fun t => trivial
  | cons e es ih =>
    obtain ⟨he, hes⟩ := List.forall_mem_cons.mp h
    exact fun t => ⟨he t, ih hes (step t e)⟩

/-- Entries that change nothing. -/
theorem foldl_of_forall {es : List ε} (h : ∀ e ∈ es, ∀ t, step t e = t) (t : τ) :
    es.foldl step t = t := by
  induction es with
  | nil => rfl
  | cons e es ih =>
    obtain ⟨he, hes⟩ := List.forall_mem_cons.mp h
    rw [List.foldl_cons, he, ih hes]

end Along

/-! ## Programs whose only branches are exits -/

/-- `if (c) { printf(msg); return; }`, where the message may tell `errno`. -/
def exitIf (c : Prop) [Decidable c] (msg : Int → Text) : Prog (Machine σ) Unit :=
  if c then do
    printf (msg (← errno))
    cutOff
  else return ()

variable {α β : Type}

/-- Where `C` holds, the program returns `a` and has made the calls `ls`, and elsewhere it is cut
off; in both cases it does not write the line `v`. -/
def Straight (v : Text) (x : Prog (Machine σ) α) (C : Prop) (a : α) (ls : List (σ × Result)) :
    Prop :=
  ∀ l, Spec (fun m => m.log = l ∧ v ∉ m.out) x
    (fun b m => (C ∧ b = a) ∧ m.log = l ++ ls ∧ v ∉ m.out) (fun m => ¬ C ∧ v ∉ m.out)

namespace Straight

variable {v : Text} {answer : σ → Result} {C D : Prop} {a : α} {b : β}
  {ls ls' : List (σ × Result)}

theorem congr {x : Prog (Machine σ) α} (hx : Straight v x C a ls) (h : C ↔ D) (hls : ls = ls') :
    Straight v x D a ls' := propext h ▸ hls ▸ hx

theorem ret (a : α) : Straight v (pure a : Prog (Machine σ) α) True a [] :=
  fun _ => .ret fun _ hm => ⟨⟨trivial, rfl⟩, hm.1.trans (List.append_nil _).symm, hm.2⟩

theorem syscall (c : σ) : Straight v (syscall (fun _ c => answer c) c) True (answer c).ret
    [(c, answer c)] :=
  fun _ => syscall_spec fun _ hm => ⟨⟨trivial, rfl⟩, congrArg (· ++ _) hm.1, hm.2⟩

theorem bind {x : Prog (Machine σ) α} {f : α → Prog (Machine σ) β} (hx : Straight v x C a ls)
    (hf : Straight v (f a) D b ls') : Straight v (x >>= f) (C ∧ D) b (ls ++ ls') := by
  intro l
  refine .bind ((hx l).cut fun m hm => ⟨fun h => hm.1 h.1, hm.2⟩) fun a' =>
    .of_forall (p := C ∧ a' = a) (fun ha => ?_) fun m hm => hm.1
  obtain ⟨hC, rfl⟩ := ha
  refine Spec.pre (((hf (l ++ ls)).post fun b' m hm => ?_).cut fun m hm =>
    ⟨fun h => hm.1 h.2, hm.2⟩) fun m hm => hm.2
  rw [← List.append_assoc]
  exact ⟨⟨⟨hC, hm.1.1⟩, hm.1.2⟩, hm.2⟩

theorem exitIf (c : Prop) [Decidable c] {msg : Int → Text} (h : ∀ e, v ≠ msg e) :
    Straight v (exitIf c msg : Prog (Machine σ) Unit) (¬ c) () [] := by
  intro l
  refine .ite (fun hc => .bind (errno_spec (Q := fun _ m => v ∉ m.out) fun m hm => hm.2) fun e =>
    .bind (printf_spec (Q := fun _ m => v ∉ m.out) fun m hm => ?_) fun _ =>
      .cutOff fun m hm => ⟨not_not.mpr hc, hm⟩)
    fun hc => .ret fun m hm => ⟨⟨hc, rfl⟩, hm.1.trans (List.append_nil _).symm, hm.2⟩
  rw [List.mem_append, List.mem_singleton]
  exact not_or.mpr ⟨hm, h e⟩

theorem forLoop {body : Nat → α → Prog (Machine σ) α} {s : Nat → α} {T : Nat → Prop}
    {t : Nat → List (σ × Result)} (h : ∀ i, Straight v (body i (s i)) (T i) (s (i + 1)) (t i))
    (n : Nat) : ∀ i, Straight v (forLoop body i n (s i)) (∀ j < n, T (i + j)) (s (i + n))
      ((List.range' i n).flatMap t) := by
  induction n with
  | zero => exact fun i => (ret (s i)).congr ⟨fun _ _ => nofun, fun _ => trivial⟩ rfl
  | succ n ih =>
    intro i
    have hloop := (h i).bind (ih (i + 1))
    rw [show i + 1 + n = i + (n + 1) by omega] at hloop
    refine hloop.congr ⟨fun ⟨hi, hrest⟩ j hj => ?_,
      fun hall => ⟨hall 0 (by omega), fun j hj => ?_⟩⟩ rfl
    · cases j with
      | zero => exact hi
      | succ j => exact (show i + 1 + j = i + (j + 1) by omega) ▸ hrest j (by omega)
    · exact (show i + 1 + j = i + (j + 1) by omega) ▸ hall (j + 1) (by omega)

/-- The line `v` behind it. -/
theorem prints {x : Prog (Machine σ) α} (h : Straight v x C a ls) :
    (v ∈ (exec (do let _ ← x; printf v) .start).2.out ↔ C) ∧
      (C → (exec (do let _ ← x; printf v) .start).2.log = ls) := by
  have hspec : Spec (· = .start) (do let _ ← x; printf v)
      (fun _ m => (v ∈ m.out ∧ C) ∧ m.log = ls) (fun m => v ∉ m.out ∧ ¬ C) := by
    refine Spec.pre (.bind ((h []).cut fun m hm => hm.symm) fun b => printf_spec fun m hm => ?_)
      fun m hm => hm ▸ ⟨rfl, nofun⟩
    exact ⟨⟨List.mem_append_right _ (List.mem_singleton_self v), hm.1.1⟩, hm.2.1⟩
  have hrun := hspec .start rfl
  rcases he : exec (do let _ ← x; printf v) (.start : Machine σ) with ⟨_ | b, m⟩
  · rw [he] at hrun
    exact ⟨iff_of_false hrun.1 hrun.2, fun hC => absurd hC hrun.2⟩
  · rw [he] at hrun
    exact ⟨iff_of_true hrun.1.1 hrun.1.2, fun _ => hrun.2⟩

end Straight

end Calls
