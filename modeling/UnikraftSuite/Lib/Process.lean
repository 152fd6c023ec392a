import UnikraftSuite.Lib.CStdio

/-!
# C programs that fork

A program is a tree of what it does next: a system call, a line of output, a `fork`. The
tree is executed by one process, and by `fork` by two.

- `Proc` is the type of programs, a monad, so that C functions can be written as `do` blocks.
- `World` is what the programs run in: it answers each call of each process, and it can end
  the process there by a signal; every combination of answers is a world.
- `run` is what a process does in a world, together with all its descendants.

A child that returns from the function that forked it goes on with the rest of the program,
as its parent does; `run_fork` is the rule for that.
-/

namespace Process

open PyStr CStdio

/-! ## Programs -/

/-- A program whose calls are named by `σ`, the call `s` being answered by a `ρ s`, and that
returns an `α`. -/
inductive Proc (σ : Type) (ρ : σ → Type) (α : Type) where
  | ret (a : α)
  | call (s : σ) (k : ρ s → Proc σ ρ α)
  | print (x : Text) (k : Proc σ ρ α)
  /-- The head of a loop: the turn that begins, or `none` at the end of the loop. -/
  | turn (i : Option Nat) (k : Proc σ ρ α)
  /-- `none` in the child; in the parent the number of the child. -/
  | fork (k : Option Nat → Proc σ ρ α)
  | wait (pid : Nat) (k : BitVec 32 → Proc σ ρ α)
  | exit (code : Int)
  | exec (argv : List Text)

variable {σ : Type} {ρ : σ → Type} {α β γ : Type}

/-- One program after the other. After a `fork` both processes go on. -/
def Proc.bind : Proc σ ρ α → (α → Proc σ ρ β) → Proc σ ρ β
  | .ret a, f => f a
  | .call s k, f => .call s fun r => (k r).bind f
  | .print x k, f => .print x (k.bind f)
  | .turn i k, f => .turn i (k.bind f)
  | .fork k, f => .fork fun r => (k r).bind f
  | .wait pid k, f => .wait pid fun status => (k status).bind f
  | .exit code, _ => .exit code
  | .exec argv, _ => .exec argv

instance : Monad (Proc σ ρ) where
  pure := .ret
  bind := .bind

/-- A system call. -/
def call (s : σ) : Proc σ ρ (ρ s) := .call s .ret

/-- `printf` of this text. -/
def printf (x : Text) : Proc σ ρ Unit := .print x (.ret ())

/-- `fork()`, where it succeeds. -/
def fork : Proc σ ρ (Option Nat) := .fork .ret

/-- The three ways in which `fork()` can return. -/
inductive Forked where
  | failed
  | child
  | parent (pid : Nat)
  deriving DecidableEq

/-- `fork()`, where it may fail. -/
def forkIf (succeeds : Bool) : Proc σ ρ Forked :=
  if succeeds then .fork fun
    | none => .ret .child
    | some pid => .ret (.parent pid)
  else .ret .failed

/-- `waitpid(pid, &status, 0)`. -/
def waitpid (pid : Nat) : Proc σ ρ (BitVec 32) := .wait pid .ret

/-- `exit(code)`. -/
def exit (code : Int) : Proc σ ρ α := .exit code

/-- An `exec` that succeeds: the process goes on with another program. -/
def exec (argv : List Text) : Proc σ ρ α := .exec argv

/-- `for (; i < i₀ + n; i++)`, from `i = i₀`. -/
def loop (body : Nat → α → Proc σ ρ α) : Nat → Nat → α → Proc σ ρ α
  | _, 0, a => .turn none (.ret a)
  | i, n + 1, a => .turn (some i) (body i a >>= loop body (i + 1) n)

/-- The same loop, where a turn can leave it by `return`: then it comes to `none`. -/
def loopUntil (body : Nat → α → Proc σ ρ (Option α)) : Nat → Nat → α → Proc σ ρ (Option α)
  | _, 0, a => .turn none (.ret (some a))
  | i, n + 1, a => .turn (some i) (body i a >>= fun
    | none => .ret none
    | some b => loopUntil body (i + 1) n b)

instance : LawfulMonad (Proc σ ρ) := by
  refine LawfulMonad.mk' _ (fun x => ?_) (fun _ _ => rfl) (fun x f g => ?_)
  · induction x with
    | ret a => rfl
    | call s k ih => exact congrArg _ (funext ih)
    | print x k ih => exact congrArg _ ih
    | turn i k ih => exact congrArg _ ih
    | fork k ih => exact congrArg _ (funext ih)
    | wait pid k ih => exact congrArg _ (funext ih)
    | exit code => rfl
    | exec argv => rfl
  · induction x with
    | ret a => rfl
    | call s k ih => exact congrArg _ (funext ih)
    | print x k ih => exact congrArg _ ih
    | turn i k ih => exact congrArg _ ih
    | fork k ih => exact congrArg _ (funext ih)
    | wait pid k ih => exact congrArg _ (funext ih)
    | exit code => rfl
    | exec argv => rfl

section Bind

variable (f : α → Proc σ ρ β)

@[simp] theorem call_bind (s : σ) (k : ρ s → Proc σ ρ β) : call s >>= k = .call s k := rfl

@[simp] theorem printf_bind (x : Text) (k : Unit → Proc σ ρ β) :
    printf x >>= k = .print x (k ()) := rfl

@[simp] theorem fork_bind (k : Option Nat → Proc σ ρ β) : fork >>= k = .fork k := rfl

@[simp] theorem forkIf_true_bind (k : Forked → Proc σ ρ β) : forkIf true >>= k = .fork fun
    | none => k .child
    | some pid => k (.parent pid) := by
  refine congrArg Proc.fork (funext fun r => ?_)
  cases r with
  | none => rfl
  | some pid => rfl

@[simp] theorem forkIf_false_bind (k : Forked → Proc σ ρ β) : forkIf false >>= k = k .failed :=
  rfl

@[simp] theorem waitpid_bind (pid : Nat) (k : BitVec 32 → Proc σ ρ β) :
    waitpid pid >>= k = .wait pid k := rfl

@[simp] theorem exit_bind (code : Int) : exit code >>= f = .exit code := rfl

@[simp] theorem exec_bind (argv : List Text) : exec argv >>= f = .exec argv := rfl

@[simp] theorem ret_bind (a : α) : (.ret a : Proc σ ρ α) >>= f = f a := rfl

@[simp] theorem Proc.call_bind (s : σ) (k : ρ s → Proc σ ρ α) :
    .call s k >>= f = .call s fun r => k r >>= f := rfl

@[simp] theorem Proc.print_bind (x : Text) (k : Proc σ ρ α) :
    .print x k >>= f = .print x (k >>= f) := rfl

@[simp] theorem Proc.turn_bind (i : Option Nat) (k : Proc σ ρ α) :
    .turn i k >>= f = .turn i (k >>= f) := rfl

@[simp] theorem Proc.fork_bind (k : Option Nat → Proc σ ρ α) :
    .fork k >>= f = .fork fun r => k r >>= f := rfl

@[simp] theorem Proc.wait_bind (pid : Nat) (k : BitVec 32 → Proc σ ρ α) :
    .wait pid k >>= f = .wait pid fun status => k status >>= f := rfl

@[simp] theorem Proc.ite_bind (c : Prop) [Decidable c] (x y : Proc σ ρ α) :
    (if c then x else y) >>= f = if c then x >>= f else y >>= f := by
  split <;> rfl

end Bind

/-! ## Ends and wait statuses -/

/-- The end of a process by a signal, with or without a core dump. -/
structure Death where
  sig : Nat
  core : Bool
  valid : 1 ≤ sig ∧ sig ≤ 64
  deriving DecidableEq

/-- How a process has ended; `running` if it never does. -/
inductive Ended where
  | exited (code : Int)
  | killed (d : Death)
  | running
  deriving DecidableEq

/-- The wait status after `exit(code)`: its low byte, in the second byte. -/
def exitStatus (code : Int) : BitVec 32 := (BitVec.ofInt 8 code).setWidth 32 <<< 8

/-- The wait status of a process ended by a signal. -/
def Death.status (d : Death) : BitVec 32 :=
  BitVec.ofNat 32 d.sig ||| if d.core then 0x80 else 0

/-- What `waitpid` stores; it does not return while the process is running. -/
def Ended.status : Ended → Option (BitVec 32)
  | .exited code => some (exitStatus code)
  | .killed d => some d.status
  | .running => none

theorem WEXITSTATUS_exitStatus (code : Int) :
    WEXITSTATUS (exitStatus code) = (BitVec.ofInt 8 code).setWidth 32 := by
  have h : ∀ c : BitVec 8, WEXITSTATUS (c.setWidth 32 <<< 8) = c.setWidth 32 := by decide
  exact h _

theorem not_WIFSIGNALED_exitStatus (code : Int) : ¬ WIFSIGNALED (exitStatus code) := by
  have h : ∀ c : BitVec 8, ¬ WIFSIGNALED (c.setWidth 32 <<< 8) := by decide
  exact h _

/-- What the macros read off the status of a killed process, for every signal. -/
theorem Death.status_macros (d : Death) :
    WTERMSIG d.status = BitVec.ofNat 32 d.sig ∧ WIFSIGNALED d.status ∧
      ¬ WIFEXITED d.status ∧ WEXITSTATUS d.status = 0 := by
  have h : ∀ n < 65, 1 ≤ n → ∀ core : Bool,
      let status : BitVec 32 := BitVec.ofNat 32 n ||| if core then 0x80 else 0
      WTERMSIG status = BitVec.ofNat 32 n ∧ WIFSIGNALED status ∧ ¬ WIFEXITED status ∧
        WEXITSTATUS status = 0 := by decide
  exact h d.sig (by have := d.valid; omega) d.valid.1 d.core

/-! ## Worlds -/

/-- A process, by the numbers of the children that lead to it from the first process. -/
abbrev Path := List Nat

/-- A call returns, or the process is ended there. -/
inductive Answer (ρ : Type) where
  | val (r : ρ)
  | kill (d : Death)

/-- What a process can be seen to do. -/
inductive Event (σ : Type) where
  | called (s : σ)
  | printed (x : Text)
  | turn (i : Option Nat)
  | forked (n : Nat)
  | execed (argv : List Text)
  deriving DecidableEq

namespace Event

/-- What it adds to the output of its process. -/
def text : Event σ → Text
  | .printed x => x
  | _ => []

theorem flatMap_text_printed (xs : List Text) :
    (xs.map fun x => (.printed x : Event σ)).flatMap text = xs.flatten := by
  rw [List.flatMap_map]
  exact List.flatMap_id

/-- Neither the line `v` nor a turn of a loop. -/
def Aside (v : Text) (e : Event σ) : Prop := e ≠ .printed v ∧ ∀ i, e ≠ .turn i

theorem Aside.called {v : Text} (s : σ) : (Event.called s).Aside v :=
  ⟨nofun, fun _ => nofun⟩

theorem Aside.forked {v : Text} (n : Nat) : (Event.forked n : Event σ).Aside v :=
  ⟨nofun, fun _ => nofun⟩

theorem Aside.line {v x : Text} (h : apart v x) :
    (.printed x : Event σ).Aside v :=
  ⟨fun heq => ne_of_apart h (Event.printed.inj heq), fun _ => nofun⟩

end Event

/-- One of the processes that descend from another. -/
structure Descendant (σ : Type) where
  path : Path
  events : List (Event σ)
  ended : Ended

/-- What becomes of a process, with all the processes that descend from it. -/
structure Life (σ : Type) where
  events : List (Event σ)
  ended : Ended
  others : List (Descendant σ)

namespace Life

/-- The end of a process. -/
def ends (e : Ended) : Life σ := ⟨[], e, []⟩

/-- First an event, then the rest. -/
def after (l : Life σ) (e : Event σ) : Life σ := { l with events := e :: l.events }

/-- First some events, then the rest. -/
def afterAll (l : Life σ) (es : List (Event σ)) : Life σ := { l with events := es ++ l.events }

/-- A child is started first. -/
def withChild (l : Life σ) (n : Nat) (p : Path) (child : Life σ) : Life σ where
  events := .forked n :: l.events
  ended := l.ended
  others := ⟨p, child.events, child.ended⟩ :: (child.others ++ l.others)

@[simp] theorem ends_events (e : Ended) : (ends e : Life σ).events = [] := rfl

@[simp] theorem ends_ended (e : Ended) : (ends e : Life σ).ended = e := rfl

@[simp] theorem ends_others (e : Ended) : (ends e : Life σ).others = [] := rfl

@[simp] theorem after_events (l : Life σ) (e : Event σ) :
    (l.after e).events = e :: l.events := rfl

@[simp] theorem after_ended (l : Life σ) (e : Event σ) : (l.after e).ended = l.ended := rfl

@[simp] theorem after_others (l : Life σ) (e : Event σ) : (l.after e).others = l.others := rfl

@[simp] theorem afterAll_events (l : Life σ) (es : List (Event σ)) :
    (l.afterAll es).events = es ++ l.events := rfl

@[simp] theorem afterAll_ended (l : Life σ) (es : List (Event σ)) :
    (l.afterAll es).ended = l.ended := rfl

@[simp] theorem afterAll_others (l : Life σ) (es : List (Event σ)) :
    (l.afterAll es).others = l.others := rfl

section Child

variable (l child : Life σ) (n : Nat) (p : Path)

@[simp] theorem withChild_events :
    (l.withChild n p child).events = .forked n :: l.events := rfl

@[simp] theorem withChild_ended : (l.withChild n p child).ended = l.ended := rfl

@[simp] theorem withChild_others : (l.withChild n p child).others =
    ⟨p, child.events, child.ended⟩ :: (child.others ++ l.others) := rfl

end Child

/-- What the process and all its descendants do satisfies `P`. -/
def All (P : Event σ → Prop) (l : Life σ) : Prop :=
  (∀ e ∈ l.events, P e) ∧ ∀ q ∈ l.others, ∀ e ∈ q.events, P e

section All

variable {P : Event σ → Prop} {l child : Life σ}

theorem All.ends (e : Ended) : (ends e : Life σ).All P := ⟨by simp, by simp⟩

theorem All.after (h : l.All P) {e : Event σ} (he : P e) : (l.after e).All P :=
  ⟨List.forall_mem_cons.mpr ⟨he, h.1⟩, h.2⟩

theorem All.afterAll (h : l.All P) {es : List (Event σ)} (hes : ∀ e ∈ es, P e) :
    (l.afterAll es).All P :=
  ⟨fun e he => (List.mem_append.mp he).elim (hes e) (h.1 e), h.2⟩

theorem All.withChild (h : l.All P) (hc : child.All P) {n : Nat} (hn : P (.forked n)) (p : Path) :
    (l.withChild n p child).All P := by
  refine ⟨List.forall_mem_cons.mpr ⟨hn, h.1⟩, List.forall_mem_cons.mpr ⟨hc.1, fun q hq => ?_⟩⟩
  exact (List.mem_append.mp hq).elim (hc.2 q) (h.2 q)

end All

/-- The process itself prints `x`. -/
def Prints (l : Life σ) (x : Text) : Prop := .printed x ∈ l.events

end Life

/-- An environment: what each call of each process returns, which `printf` is the last thing
a process does, and what becomes of a process that calls `exec`. -/
structure World (σ : Type) (ρ : σ → Type) where
  answer : Path → (s : σ) → Answer (ρ s)
  signal : Path → Text → Option Death
  image : Path → List Text → Life σ

/-- The life of a process that has started the children `kids`. -/
def run (w : World σ ρ) : Proc σ ρ α → Path → List Ended → Life σ
  | .ret _, _, _ => .ends (.exited 0)
  | .call s k, p, kids =>
    match w.answer p s with
    | .val r => (run w (k r) p kids).after (.called s)
    | .kill d => (Life.ends (.killed d)).after (.called s)
  | .print x k, p, kids =>
    match w.signal p x with
    | none => (run w k p kids).after (.printed x)
    | some d => .ends (.killed d)
  | .turn i k, p, kids => (run w k p kids).after (.turn i)
  | .fork k, p, kids =>
    let child := run w (k none) (p ++ [kids.length]) []
    (run w (k (some kids.length)) p (kids ++ [child.ended])).withChild kids.length
      (p ++ [kids.length]) child
  | .wait pid k, p, kids =>
    match kids[pid]?.bind Ended.status with
    | some status => run w (k status) p kids
    | none => .ends .running
  | .exit code, _, _ => .ends (.exited code)
  | .exec argv, p, _ => (w.image p argv).after (.execed argv)

section Run

variable {w : World σ ρ} {p : Path} {kids : List Ended}

@[simp] theorem run_ret (a : α) : run w (.ret a : Proc σ ρ α) p kids = .ends (.exited 0) := rfl

@[simp] theorem run_pure (a : α) : run w (pure a : Proc σ ρ α) p kids = .ends (.exited 0) := rfl

theorem run_call {s : σ} {r : ρ s} (h : w.answer p s = .val r) (k : ρ s → Proc σ ρ α) :
    run w (.call s k) p kids = (run w (k r) p kids).after (.called s) := by
  rw [run, h]

theorem run_call_kill {s : σ} {d : Death} (h : w.answer p s = .kill d) (k : ρ s → Proc σ ρ α) :
    run w (.call s k) p kids = (Life.ends (.killed d)).after (.called s) := by
  rw [run, h]

theorem run_print {x : Text} (h : w.signal p x = none) (k : Proc σ ρ α) :
    run w (.print x k) p kids = (run w k p kids).after (.printed x) := by
  rw [run, h]

theorem run_print_kill {x : Text} {d : Death} (h : w.signal p x = some d) (k : Proc σ ρ α) :
    run w (.print x k) p kids = .ends (.killed d) := by
  rw [run, h]

@[simp] theorem run_turn (i : Option Nat) (k : Proc σ ρ α) :
    run w (.turn i k) p kids = (run w k p kids).after (.turn i) := rfl

/-- **Both processes go on** with the rest of the program. -/
theorem run_fork (k : Option Nat → Proc σ ρ α) : run w (.fork k) p kids =
    (run w (k (some kids.length)) p
      (kids ++ [(run w (k none) (p ++ [kids.length]) []).ended])).withChild kids.length
        (p ++ [kids.length]) (run w (k none) (p ++ [kids.length]) []) := rfl

/-- The parent goes on when the child it has just started is over. -/
theorem run_wait {e : Ended} {status : BitVec 32} (h : e.status = some status)
    (k : BitVec 32 → Proc σ ρ α) : run w (.wait kids.length k) p (kids ++ [e]) =
      run w (k status) p (kids ++ [e]) := by
  simp [run, h]

/-- A process that waits for its first child. -/
theorem run_wait_first {e : Ended} {status : BitVec 32} (h : e.status = some status)
    (k : BitVec 32 → Proc σ ρ α) : run w (.wait 0 k) p [e] = run w (k status) p [e] := by
  simp [run, h]

@[simp] theorem run_exit (code : Int) :
    run w (.exit code : Proc σ ρ α) p kids = .ends (.exited code) := rfl

@[simp] theorem run_exec (argv : List Text) : run w (.exec argv : Proc σ ρ α) p kids =
    (w.image p argv).after (.execed argv) := rfl

end Run

/-! ## What no run of a program does -/

/-- Whatever the calls return, what is done satisfies `P`, by the children as well, and every
value returned satisfies `Q`. -/
def Proc.Always (P : Event σ → Prop) (Q : α → Prop) : Proc σ ρ α → Prop
  | .ret a => Q a
  | .call s k => P (.called s) ∧ ∀ r, (k r).Always P Q
  | .print x k => P (.printed x) ∧ k.Always P Q
  | .turn i k => P (.turn i) ∧ k.Always P Q
  | .fork k => (∀ n, P (.forked n)) ∧ ∀ r, (k r).Always P Q
  | .wait _ k => ∀ status, (k status).Always P Q
  | .exit _ => True
  | .exec _ => False

section Always

variable {P : Event σ → Prop} {Q : α → Prop} {R : β → Prop}

/-- **What all parts of a program keep to**, a run with all its processes keeps to. -/
theorem Proc.Always.run_bind {x : Proc σ ρ α} (hx : x.Always P Q) (w : World σ ρ)
    {f : α → Proc σ ρ β} (hf : ∀ a, Q a → ∀ p kids, (run w (f a) p kids).All P) :
    ∀ p kids, (run w (x >>= f) p kids).All P := by
  induction x with
  | ret a => exact hf a hx
  | call s k ih =>
    intro p kids
    cases h : w.answer p s with
    | val r =>
      rw [Proc.call_bind, run_call h]
      exact (ih r (hx.2 r) p kids).after hx.1
    | kill d =>
      rw [Proc.call_bind, run_call_kill h]
      exact (Life.All.ends _).after hx.1
  | print x k ih =>
    intro p kids
    cases h : w.signal p x with
    | none =>
      rw [Proc.print_bind, run_print h]
      exact (ih hx.2 p kids).after hx.1
    | some d =>
      rw [Proc.print_bind, run_print_kill h]
      exact Life.All.ends _
  | turn i k ih => exact fun p kids => (ih hx.2 p kids).after hx.1
  | fork k ih =>
    intro p kids
    rw [Proc.fork_bind, run_fork]
    exact (ih _ (hx.2 _) _ _).withChild (ih none (hx.2 none) _ _) (hx.1 _) _
  | wait pid k ih =>
    intro p kids
    rw [Proc.wait_bind, run]
    split
    · exact ih _ (hx _) p kids
    · exact Life.All.ends _
  | exit code => exact fun p kids => Life.All.ends _
  | exec argv => exact hx.elim

theorem Proc.Always.run {x : Proc σ ρ α} (hx : x.Always P Q) (w : World σ ρ) (p : Path)
    (kids : List Ended) : (run w x p kids).All P := by
  rw [← bind_pure x]
  exact hx.run_bind w (fun a _ p kids => Life.All.ends _) p kids

theorem Proc.Always.bind {x : Proc σ ρ α} (hx : x.Always P Q) {f : α → Proc σ ρ β}
    (hf : ∀ a, Q a → (f a).Always P R) : (x >>= f).Always P R := by
  induction x with
  | ret a => exact hf a hx
  | call s k ih => exact ⟨hx.1, fun r => ih r (hx.2 r)⟩
  | print x k ih => exact ⟨hx.1, ih hx.2⟩
  | turn i k ih => exact ⟨hx.1, ih hx.2⟩
  | fork k ih => exact ⟨hx.1, fun r => ih r (hx.2 r)⟩
  | wait pid k ih => exact fun status => ih status (hx status)
  | exit code => trivial
  | exec argv => exact hx.elim

theorem Proc.Always.ite {c : Prop} [Decidable c] {x y : Proc σ ρ α} (hx : x.Always P Q)
    (hy : y.Always P Q) : (if c then x else y).Always P Q := by
  split
  · exact hx
  · exact hy

end Always

/-! ## Programs that do not fork -/

/-- The program does not start another one, and each thing it does satisfies `P`. -/
def Proc.Plain (P : Event σ → Prop) : Proc σ ρ α → Prop
  | .ret _ => True
  | .call s k => P (.called s) ∧ ∀ r, (k r).Plain P
  | .print x k => P (.printed x) ∧ k.Plain P
  | .turn i k => P (.turn i) ∧ k.Plain P
  | .fork _ => False
  | .wait _ _ => False
  | .exit _ => True
  | .exec _ => False

theorem Proc.Plain.mono {P Q : Event σ → Prop} (h : ∀ e, P e → Q e) {x : Proc σ ρ α}
    (hx : x.Plain P) : x.Plain Q := by
  induction x with
  | ret a => trivial
  | call s k ih => exact ⟨h _ hx.1, fun r => ih r (hx.2 r)⟩
  | print x k ih => exact ⟨h _ hx.1, ih hx.2⟩
  | turn i k ih => exact ⟨h _ hx.1, ih hx.2⟩
  | fork k => exact hx
  | wait pid k => exact hx
  | exit code => trivial
  | exec argv => exact hx

theorem Proc.Plain.bind {P : Event σ → Prop} {x : Proc σ ρ α} (hx : x.Plain P)
    {f : α → Proc σ ρ β} (hf : ∀ a, (f a).Plain P) : (x >>= f).Plain P := by
  induction x with
  | ret a => exact hf a
  | call s k ih => exact ⟨hx.1, fun r => ih r (hx.2 r)⟩
  | print x k ih => exact ⟨hx.1, ih hx.2⟩
  | turn i k ih => exact ⟨hx.1, ih hx.2⟩
  | fork k => exact hx.elim
  | wait pid k => exact hx.elim
  | exit code => trivial
  | exec argv => exact hx.elim

theorem Proc.Plain.ite {P : Event σ → Prop} {c : Prop} [Decidable c] {x y : Proc σ ρ α}
    (hx : x.Plain P) (hy : y.Plain P) : (if c then x else y).Plain P := by
  split
  · exact hx
  · exact hy

/-- What a program comes to: it returns, or it is the end of the process. -/
inductive Outcome (α : Type) where
  | back (a : α)
  | ends (e : Ended)
  deriving DecidableEq

/-- What a program that does not fork comes to. -/
def outcome (w : World σ ρ) (p : Path) : Proc σ ρ α → Outcome α
  | .ret a => .back a
  | .call s k =>
    match w.answer p s with
    | .val r => outcome w p (k r)
    | .kill d => .ends (.killed d)
  | .print x k =>
    match w.signal p x with
    | none => outcome w p k
    | some d => .ends (.killed d)
  | .turn _ k => outcome w p k
  | .exit code => .ends (.exited code)
  | .fork _ => .ends .running
  | .wait _ _ => .ends .running
  | .exec _ => .ends .running

theorem outcome_call {w : World σ ρ} {p : Path} {s : σ} {r : ρ s} (h : w.answer p s = .val r)
    (k : ρ s → Proc σ ρ α) : outcome w p (.call s k) = outcome w p (k r) := by
  rw [outcome, h]

theorem outcome_call_kill {w : World σ ρ} {p : Path} {s : σ} {d : Death}
    (h : w.answer p s = .kill d) (k : ρ s → Proc σ ρ α) :
    outcome w p (.call s k) = .ends (.killed d) := by
  rw [outcome, h]

theorem outcome_bind (w : World σ ρ) (p : Path) {x : Proc σ ρ α} {a : α}
    (hx : outcome w p x = .back a) (f : α → Proc σ ρ β) :
    outcome w p (x >>= f) = outcome w p (f a) := by
  induction x with
  | ret b =>
    cases hx
    rfl
  | call s k ih =>
    rw [Proc.call_bind, outcome]
    rw [outcome] at hx
    cases h : w.answer p s with
    | val r =>
      rw [h] at hx
      exact ih r hx
    | kill d =>
      rw [h] at hx
      cases hx
  | print x k ih =>
    rw [Proc.print_bind, outcome]
    rw [outcome] at hx
    cases h : w.signal p x with
    | none =>
      rw [h] at hx
      exact ih hx
    | some d =>
      rw [h] at hx
      cases hx
  | turn i k ih => exact ih hx
  | fork k => cases hx
  | wait pid k => cases hx
  | exit code => cases hx
  | exec argv => cases hx

/-- The run of a program that does not fork, in front of the rest `f`. -/
def Outcome.then (w : World σ ρ) (p : Path) (kids : List Ended) (f : α → Proc σ ρ β) :
    Outcome α → Life σ
  | .back a => run w (f a) p kids
  | .ends e => .ends e

/-- **A program that does not fork** does some things, and then the process goes on where it
has returned, or is over. -/
theorem Proc.Plain.run_bind {P : Event σ → Prop} {x : Proc σ ρ α} (hx : x.Plain P)
    (w : World σ ρ) (p : Path) : ∃ evs, (∀ e ∈ evs, P e) ∧
      ∀ (β : Type) (f : α → Proc σ ρ β) (kids : List Ended), run w (x >>= f) p kids =
        ((outcome w p x).then w p kids f).afterAll evs := by
  induction x with
  | ret a => exact ⟨[], by simp, fun β f kids => rfl⟩
  | call s k ih =>
    cases h : w.answer p s with
    | val r =>
      obtain ⟨evs, hevs, hrun⟩ := ih r (hx.2 r)
      refine ⟨.called s :: evs, List.forall_mem_cons.mpr ⟨hx.1, hevs⟩, fun β f kids => ?_⟩
      rw [Proc.call_bind, run_call h, hrun, outcome, h]
      rfl
    | kill d =>
      refine ⟨[.called s], by simpa using hx.1, fun β f kids => ?_⟩
      rw [Proc.call_bind, run_call_kill h, outcome, h]
      rfl
  | print x k ih =>
    cases h : w.signal p x with
    | none =>
      obtain ⟨evs, hevs, hrun⟩ := ih hx.2
      refine ⟨.printed x :: evs, List.forall_mem_cons.mpr ⟨hx.1, hevs⟩, fun β f kids => ?_⟩
      rw [Proc.print_bind, run_print h, hrun, outcome, h]
      rfl
    | some d =>
      refine ⟨[], by simp, fun β f kids => ?_⟩
      rw [Proc.print_bind, run_print_kill h, outcome, h]
      rfl
  | turn i k ih =>
    obtain ⟨evs, hevs, hrun⟩ := ih hx.2
    refine ⟨.turn i :: evs, List.forall_mem_cons.mpr ⟨hx.1, hevs⟩, fun β f kids => ?_⟩
    rw [Proc.turn_bind, run_turn, hrun]
    rfl
  | fork k => exact hx.elim
  | wait pid k => exact hx.elim
  | exit code => exact ⟨[], by simp, fun β f kids => rfl⟩
  | exec argv => exact hx.elim

/-- A line that a program does not print is left to the rest. -/
theorem Proc.Plain.prints_bind {v : Text} {x : Proc σ ρ α} (hx : x.Plain (· ≠ .printed v))
    {w : World σ ρ} {p : Path} {a : α} (hout : outcome w p x = .back a) (f : α → Proc σ ρ β)
    (kids : List Ended) :
    (run w (x >>= f) p kids).Prints v ↔ (run w (f a) p kids).Prints v := by
  obtain ⟨evs, hevs, hrun⟩ := hx.run_bind w p
  rw [hrun, hout, Outcome.then, Life.Prints, Life.Prints, Life.afterAll_events, List.mem_append]
  exact or_iff_right fun hv => hevs _ hv rfl

/-- What a loop makes of `a` if the turn `i` makes `g i a` of it. -/
def turns (g : Nat → α → α) : Nat → Nat → α → α
  | _, 0, a => a
  | i, n + 1, a => turns g (i + 1) n (g i a)

theorem loop_plain {P : Event σ → Prop} {body : Nat → α → Proc σ ρ α}
    (hturn : ∀ i, P (.turn i)) (n : Nat) : ∀ (i : Nat) (a : α),
    (∀ j < i + n, ∀ a, (body j a).Plain P) → (loop body i n a).Plain P := by
  induction n with
  | zero => exact fun i a _ => ⟨hturn none, trivial⟩
  | succ n ih =>
    intro i a h
    exact ⟨hturn _, (h i (by omega) a).bind fun b => ih (i + 1) b fun j hj => h j (by omega)⟩

theorem outcome_loop {body : Nat → α → Proc σ ρ α} {g : Nat → α → α} (w : World σ ρ) (p : Path)
    (n : Nat) : ∀ (i : Nat) (a : α),
    (∀ j < i + n, ∀ a, outcome w p (body j a) = .back (g j a)) →
      outcome w p (loop body i n a) = .back (turns g i n a) := by
  induction n with
  | zero => exact fun i a _ => rfl
  | succ n ih =>
    intro i a h
    rw [loop, outcome, outcome_bind w p (h i (by omega) a)]
    exact ih (i + 1) _ fun j hj => h j (by omega)

/-- What a loop that can be left makes of `a`. -/
def turnsUntil (g : Nat → α → Option α) : Nat → Nat → α → Option α
  | _, 0, a => some a
  | i, n + 1, a => (g i a).bind (turnsUntil g (i + 1) n)

theorem loopUntil_plain {P : Event σ → Prop} {body : Nat → α → Proc σ ρ (Option α)}
    (hturn : ∀ i, P (.turn i)) (hbody : ∀ i a, (body i a).Plain P) (n : Nat) :
    ∀ (i : Nat) (a : α), (loopUntil body i n a).Plain P := by
  induction n with
  | zero => exact fun i a => ⟨hturn none, trivial⟩
  | succ n ih =>
    intro i a
    refine ⟨hturn _, (hbody i a).bind fun b => ?_⟩
    cases b with
    | none => trivial
    | some b => exact ih (i + 1) b

theorem outcome_loopUntil {body : Nat → α → Proc σ ρ (Option α)} {g : Nat → α → Option α}
    (w : World σ ρ) (p : Path) (h : ∀ i a, outcome w p (body i a) = .back (g i a)) (n : Nat) :
    ∀ (i : Nat) (a : α), outcome w p (loopUntil body i n a) = .back (turnsUntil g i n a) := by
  induction n with
  | zero => exact fun i a => rfl
  | succ n ih =>
    intro i a
    rw [loopUntil, outcome, outcome_bind w p (h i a), turnsUntil]
    cases g i a with
    | none => rfl
    | some b => exact ih (i + 1) b

/-- A loop whose turn `i` makes `s (i + 1)` of `s i`, or leaves the loop unless `T i`. -/
theorem turnsUntil_eq {g : Nat → α → Option α} {s : Nat → α} {T : Nat → Prop} [DecidablePred T]
    (hg : ∀ i, g i (s i) = if T i then some (s (i + 1)) else none) (n : Nat) : ∀ i,
    turnsUntil g i n (s i) = if ∀ j < n, T (i + j) then some (s (i + n)) else none := by
  induction n with
  | zero => exact fun i => (if_pos fun j hj => by omega).symm
  | succ n ih =>
    intro i
    rw [turnsUntil, hg]
    by_cases hi : T i
    · rw [if_pos hi, Option.bind_some, ih (i + 1), show i + 1 + n = i + (n + 1) by omega]
      refine if_congr ⟨fun h j hj => ?_, fun h j hj => ?_⟩ rfl rfl
      · cases j with
        | zero => exact hi
        | succ j => exact (show i + 1 + j = i + (j + 1) by omega) ▸ h j (by omega)
      · exact (show i + 1 + j = i + (j + 1) by omega) ▸ h (j + 1) (by omega)
    · rw [if_neg hi, Option.bind_none, if_neg fun h => hi (h 0 (by omega))]

/-! ## Programs without branches -/

/-- A call or a line, at which a signal can end a process. -/
inductive Hurdle (σ : Type) where
  | call (s : σ)
  | line (x : Text)

/-- The signal that ends the process `p` there. -/
def Hurdle.death (w : World σ ρ) (p : Path) : Hurdle σ → Option Death
  | .call s => match w.answer p s with
    | .val _ => none
    | .kill d => some d
  | .line x => w.signal p x

theorem Hurdle.death_val {w : World σ ρ} {p : Path} {s : σ} {r : ρ s}
    (h : w.answer p s = .val r) : (Hurdle.call s).death w p = none := by
  rw [Hurdle.death, h]

theorem Hurdle.death_kill {w : World σ ρ} {p : Path} {s : σ} {d : Death}
    (h : w.answer p s = .kill d) : (Hurdle.call s).death w p = some d := by
  rw [Hurdle.death, h]

/-- The program that only makes these calls and prints these lines. -/
def straight : List (Hurdle σ) → Proc σ ρ Unit
  | [] => .ret ()
  | .call s :: hs => .call s fun _ => straight hs
  | .line x :: hs => .print x (straight hs)

/-- The first signal is the end of it. -/
theorem outcome_straight (w : World σ ρ) (p : Path) (hs : List (Hurdle σ)) :
    outcome w p (straight hs) = match hs.findSome? (Hurdle.death w p) with
      | some d => .ends (.killed d)
      | none => .back () := by
  induction hs with
  | nil => rfl
  | cons h hs ih =>
    cases h with
    | call s =>
      rw [straight, outcome, List.findSome?, Hurdle.death]
      cases w.answer p s with
      | val r => exact ih
      | kill d => rfl
    | line x =>
      rw [straight, outcome, List.findSome?, Hurdle.death]
      cases w.signal p x with
      | none => exact ih
      | some d => rfl

/-- **The first turns of a loop**, as far as they do not fork and come back. -/
theorem run_loop_plain {P : Event σ → Prop} (body : Nat → α → Proc σ ρ α) (w : World σ ρ)
    (p : Path) (hturn : ∀ i, P (.turn (some i))) (n m : Nat) : ∀ (i : Nat) (a : α),
    (∀ j < i + m, ∀ a, (body j a).Plain P ∧ ∃ b, outcome w p (body j a) = .back b) →
    ∃ b evs, (∀ e ∈ evs, P e) ∧ ∀ (β : Type) (f : α → Proc σ ρ β) (kids : List Ended),
      run w (loop body i (m + n) a >>= f) p kids =
        (run w (loop body (i + m) n b >>= f) p kids).afterAll evs := by
  induction m with
  | zero => exact fun i a _ => ⟨a, [], by simp, fun β f kids => by simp [Life.afterAll]⟩
  | succ m ih =>
    intro i a h
    obtain ⟨hplain, b, hb⟩ := h i (by omega) a
    obtain ⟨evs, hevs, hrun⟩ := hplain.run_bind w p
    obtain ⟨c, evs', hevs', hrun'⟩ := ih (i + 1) b fun j hj => h j (by omega)
    refine ⟨c, .turn (some i) :: (evs ++ evs'), ?_, fun β f kids => ?_⟩
    · intro e he
      rcases List.mem_cons.mp he with rfl | he
      · exact hturn i
      · exact (List.mem_append.mp he).elim (hevs e) (hevs' e)
    · rw [show m + 1 + n = m + n + 1 by omega, show i + (m + 1) = i + 1 + m by omega, loop,
        Proc.turn_bind, run_turn, bind_assoc, hrun, hb, Outcome.then, hrun']
      simp [Life.after, Life.afterAll]

end Process
