import UnikraftSuite.Lib.Interface
import Mathlib.Data.Int.Range
import Mathlib.Order.Bounds.Basic
import Mathlib.Data.Set.Insert

/-!
# The descriptors of a process

A descriptor refers to an open file description, which has an access mode and status flags; several
descriptors may refer to one. A new descriptor is the lowest one that is free, for `F_DUPFD` the
lowest from its argument on. The flag `FD_CLOEXEC` belongs to the descriptor.

- `Table` and its operations, with what each leaves of the descriptors, the flags and the rest.
- `Opened`: the descriptors that a sequence of opens gives, in ascending order and without a gap.
- `interface`: what the calls return and do. A descriptor is freed by `close` also where that
  reports an error.
-/

namespace Descriptors

open PyStr Calls Interfaces

/-! ## Flags -/

def O_ACCMODE : BitVec 32 := 0x3

def O_APPEND : BitVec 32 := 0x400

def O_NONBLOCK : BitVec 32 := 0x800

/-- The flags that `F_SETFL` changes. -/
def settable : BitVec 32 := O_APPEND ||| O_NONBLOCK

/-- The flags that are kept with an open file description. -/
def kept : BitVec 32 := O_ACCMODE ||| settable

def EBADF : Int := 9

/-! ## Tables -/

/-- What the descriptors refer to, with the flags of the open file descriptions; descriptions from
`next` on are not in use. -/
structure Table where
  file : Int → Option Nat
  cloexec : Int → Bool
  flags : Nat → BitVec 32
  next : Nat
  nonneg : ∀ {d i}, file d = some i → 0 ≤ d
  old : ∀ {d i}, file d = some i → i < next

variable {t : Table} {d fd a : Int}

/-- The descriptors in use. -/
def Table.used (t : Table) : Set Int := {d | t.file d ≠ none}

theorem Table.mem_used : d ∈ t.used ↔ t.file d ≠ none := .rfl

/-- The lowest free descriptor from `a` on. -/
def Table.Lowest (t : Table) (a d : Int) : Prop :=
  a ≤ d ∧ t.file d = none ∧ ∀ x, a ≤ x → x < d → t.file x ≠ none

instance (t : Table) (a d : Int) : Decidable (t.Lowest a d) :=
  inferInstanceAs (Decidable (a ≤ d ∧ t.file d = none ∧ ∀ x, a ≤ x → x < d → t.file x ≠ none))

theorem Table.lowest_iff : t.Lowest a d ↔ IsLeast {x | a ≤ x ∧ x ∉ t.used} d := by
  constructor
  · rintro ⟨hle, hfree, hbelow⟩
    refine ⟨⟨hle, not_not.mpr hfree⟩, fun x hx => ?_⟩
    by_contra hlt
    exact hx.2 (hbelow x hx.1 (Int.not_le.mp hlt))
  · rintro ⟨⟨hle, hfree⟩, hleast⟩
    refine ⟨hle, not_not.mp hfree, fun x hax hxd hnone => ?_⟩
    exact absurd (hleast ⟨hax, not_not.mpr hnone⟩) (Int.not_le.mpr hxd)

/-- The descriptor `d` refers to this description, or to none. -/
def Table.put (t : Table) (d : Int) (o : Option Nat) (h : ∀ i, o = some i → 0 ≤ d ∧ i < t.next) :
    Table :=
  { t with
    file := Function.update t.file d o
    cloexec := Function.update t.cloexec d false
    nonneg := fun {d' i} hi => by
      by_cases heq : d' = d
      · rw [heq, Function.update_self] at hi
        exact heq ▸ (h i hi).1
      · rw [Function.update_of_ne heq] at hi
        exact t.nonneg hi
    old := fun {d' i} hi => by
      by_cases heq : d' = d
      · rw [heq, Function.update_self] at hi
        exact (h i hi).2
      · rw [Function.update_of_ne heq] at hi
        exact t.old hi }

/-- A new description with the flags `x`, to which no descriptor refers yet. -/
def Table.described (t : Table) (x : BitVec 32) : Table :=
  { t with
    flags := Function.update t.flags t.next (x &&& kept)
    next := t.next + 1
    old := fun hi => Nat.lt_succ_of_lt (t.old hi) }

/-- The descriptor `d` refers to a new description with the flags `x`. -/
def Table.opened (t : Table) (d : Int) (hd : 0 ≤ d) (x : BitVec 32) : Table :=
  (t.described x).put d (some t.next) fun _ hi => ⟨hd, Option.some.inj hi ▸ Nat.lt_succ_self _⟩

/-- The descriptor `d` is freed. -/
def Table.closed (t : Table) (d : Int) : Table := t.put d none nofun

/-- The descriptor `d` refers to what `fd` refers to. -/
def Table.dupped (t : Table) (fd d : Int) (hd : 0 ≤ d) : Table :=
  t.put d (t.file fd) fun _ hi => ⟨hd, t.old hi⟩

/-- `F_SETFL`, which changes the description and so what every descriptor of it reports. -/
def Table.setFlags (t : Table) (d : Int) (x : BitVec 32) : Table :=
  match t.file d with
  | some i =>
    { t with flags := Function.update t.flags i (t.flags i &&& O_ACCMODE ||| x &&& settable) }
  | none => t

/-- `F_SETFD`, which changes the one descriptor. -/
def Table.setCloexec (t : Table) (d : Int) (b : Bool) : Table :=
  { t with cloexec := Function.update t.cloexec d b }

/-- The flags that `F_GETFL` reports. -/
def Table.flagsOf (t : Table) (d : Int) : Option (BitVec 32) := (t.file d).map t.flags

section Put

variable {o : Option Nat} {h : ∀ i, o = some i → 0 ≤ d ∧ i < t.next}

@[simp] theorem Table.file_put_self : (t.put d o h).file d = o := Function.update_self ..

theorem Table.file_put_of_ne (hne : a ≠ d) : (t.put d o h).file a = t.file a :=
  Function.update_of_ne hne ..

@[simp] theorem Table.cloexec_put_self : (t.put d o h).cloexec d = false := Function.update_self ..

theorem Table.cloexec_put_of_ne (hne : a ≠ d) : (t.put d o h).cloexec a = t.cloexec a :=
  Function.update_of_ne hne ..

theorem Table.flagsOf_put_of_ne (hne : a ≠ d) : (t.put d o h).flagsOf a = t.flagsOf a := by
  rw [flagsOf, file_put_of_ne hne]
  rfl

theorem Table.used_put (ho : o ≠ none) : (t.put d o h).used = insert d t.used := by
  ext a
  rw [Set.mem_insert_iff, mem_used, mem_used]
  by_cases heq : a = d
  · rw [heq, file_put_self]
    exact iff_of_true ho (.inl rfl)
  · rw [file_put_of_ne heq, or_iff_right heq]

end Put

@[simp] theorem Table.used_opened (hd : 0 ≤ d) (x : BitVec 32) :
    (t.opened d hd x).used = insert d t.used := used_put (Option.some_ne_none _)

@[simp] theorem Table.used_closed : (t.closed d).used = t.used \ {d} := by
  ext a
  rw [Set.mem_sdiff, mem_used, mem_used, Set.mem_singleton_iff]
  by_cases heq : a = d
  · rw [heq, closed, file_put_self]
    exact iff_of_false (fun h => h rfl) fun h => h.2 rfl
  · rw [closed, file_put_of_ne heq, and_iff_left heq]

@[simp] theorem Table.file_setFlags (x : BitVec 32) : (t.setFlags d x).file = t.file := by
  unfold setFlags
  split
  · rfl
  · rfl

@[simp] theorem Table.cloexec_setFlags (x : BitVec 32) :
    (t.setFlags d x).cloexec = t.cloexec := by
  unfold setFlags
  split
  · rfl
  · rfl

theorem Table.mem_used_of_flagsOf {x : BitVec 32} (h : t.flagsOf d = some x) : d ∈ t.used := by
  intro hnone
  rw [flagsOf, hnone] at h
  cases h

@[simp] theorem Table.flagsOf_opened_self (hd : 0 ≤ d) (x : BitVec 32) :
    (t.opened d hd x).flagsOf d = some (x &&& kept) := by
  rw [flagsOf, opened, file_put_self]
  exact congrArg some (Function.update_self ..)

/-- Another descriptor keeps its flags. -/
theorem Table.flagsOf_opened_of_ne (hd : 0 ≤ d) (x : BitVec 32) (h : fd ≠ d) :
    (t.opened d hd x).flagsOf fd = t.flagsOf fd := by
  rw [opened, flagsOf_put_of_ne h, flagsOf, flagsOf]
  show (t.file fd).map _ = _
  cases hfd : t.file fd with
  | none => rfl
  | some i => exact congrArg some (Function.update_of_ne (t.old hfd).ne ..)

@[simp] theorem Table.flagsOf_dupped_self (hd : 0 ≤ d) :
    (t.dupped fd d hd).flagsOf d = t.flagsOf fd := by
  rw [flagsOf, dupped, file_put_self]
  rfl

theorem Table.flagsOf_dupped_of_ne (hd : 0 ≤ d) (h : a ≠ d) :
    (t.dupped fd d hd).flagsOf a = t.flagsOf a := flagsOf_put_of_ne h

@[simp] theorem Table.cloexec_dupped_self (hd : 0 ≤ d) : (t.dupped fd d hd).cloexec d = false :=
  cloexec_put_self

theorem Table.cloexec_dupped_of_ne (hd : 0 ≤ d) (h : a ≠ d) :
    (t.dupped fd d hd).cloexec a = t.cloexec a := cloexec_put_of_ne h

theorem Table.flagsOf_closed_of_ne (h : a ≠ d) : (t.closed d).flagsOf a = t.flagsOf a :=
  flagsOf_put_of_ne h

theorem Table.flagsOf_setFlags (x : BitVec 32) :
    (t.setFlags d x).flagsOf d = (t.flagsOf d).map fun y => y &&& O_ACCMODE ||| x &&& settable := by
  unfold setFlags flagsOf
  cases hd : t.file d with
  | none => simp [hd]
  | some i => simp [hd]

/-! ## One open after the other -/

/-- The descriptors `fd 0`, …, `fd (n - 1)` that opening files one after the other gives, where
those of `T` were in use at first. -/
structure Opened (T : Set Int) (fd : Nat → Int) (n : Nat) : Prop where
  nonneg : ∀ i < n, 0 ≤ fd i
  free : ∀ i < n, fd i ∉ T
  lt : ∀ i j, i < j → j < n → fd i < fd j
  below : ∀ i < n, ∀ d, 0 ≤ d → d < fd i → d ∈ T ∨ ∃ j < i, d = fd j

variable {T : Set Int} {ds : Nat → Int} {n : Nat}

/-- The descriptors in use then. -/
def inUse (T : Set Int) (ds : Nat → Int) (n : Nat) : Set Int := {d | d ∈ T ∨ ∃ j < n, d = ds j}

theorem Opened.zero (T : Set Int) (ds : Nat → Int) : Opened T ds 0 :=
  ⟨nofun, nofun, nofun, nofun⟩

theorem Opened.congr {ds' : Nat → Int} (h : Opened T ds n) (heq : ∀ i < n, ds' i = ds i) :
    Opened T ds' n where
  nonneg i hi := heq i hi ▸ h.nonneg i hi
  free i hi := heq i hi ▸ h.free i hi
  lt i j hij hj := by
    rw [heq i (hij.trans hj), heq j hj]
    exact h.lt i j hij hj
  below i hi d hd hlt := by
    rw [heq i hi] at hlt
    exact (h.below i hi d hd hlt).imp_right fun ⟨j, hj, hdj⟩ =>
      ⟨j, hj, by rw [heq j (hj.trans hi), hdj]⟩

/-- The next one is above all that came before. -/
theorem Opened.succ (h : Opened T ds n) (hu : t.used = inUse T ds n) (hl : t.Lowest 0 (ds n)) :
    Opened T ds (n + 1) := by
  obtain ⟨⟨hnonneg, hfree⟩, hleast⟩ := Table.lowest_iff.mp hl
  rw [hu] at hfree hleast
  have hnew : ∀ i < n, ds i < ds n := by
    intro i hi
    rcases lt_trichotomy (ds i) (ds n) with hlt | heq | hgt
    · exact hlt
    · exact absurd (.inr ⟨i, hi, heq.symm⟩) hfree
    · -- what is below an earlier one was in use before it
      rcases h.below i hi (ds n) hnonneg hgt with hT | ⟨j, hj, hdj⟩
      · exact absurd (.inl hT) hfree
      · exact absurd (.inr ⟨j, hj.trans hi, hdj⟩) hfree
  refine ⟨fun i hi => ?_, fun i hi => ?_, fun i j hij hj => ?_, fun i hi d hd hlt => ?_⟩
  · rcases Nat.lt_succ_iff_lt_or_eq.mp hi with hi | rfl
    · exact h.nonneg i hi
    · exact hnonneg
  · rcases Nat.lt_succ_iff_lt_or_eq.mp hi with hi | rfl
    · exact h.free i hi
    · exact fun hT => hfree (.inl hT)
  · rcases Nat.lt_succ_iff_lt_or_eq.mp hj with hj | rfl
    · exact h.lt i j hij hj
    · exact hnew i hij
  · rcases Nat.lt_succ_iff_lt_or_eq.mp hi with hi | rfl
    · exact h.below i hi d hd hlt
    · by_contra hno
      exact absurd (hleast ⟨hd, hno⟩) (Int.not_le.mpr hlt)

theorem inUse_succ (T : Set Int) (ds : Nat → Int) (n : Nat) :
    insert (ds n) (inUse T ds n) = inUse T ds (n + 1) := by
  ext d
  rw [Set.mem_insert_iff]
  show d = ds n ∨ (d ∈ T ∨ ∃ j < n, d = ds j) ↔ d ∈ T ∨ ∃ j < n + 1, d = ds j
  rw [Nat.exists_lt_succ_right, or_comm, or_assoc]

/-! ## The calls -/

/-- The descriptors, and the files that there are. -/
structure World where
  table : Table
  names : Text → Bool

/-- The calls; `aside` stands for any that has nothing to do with descriptors. -/
inductive Op where
  | openFile (name : Text) (flags : BitVec 32)
  | close (fd : Int)
  | dupfd (fd arg : Int)
  | getfl (fd : Int)
  | setfl (fd : Int) (flags : BitVec 32)
  | getfd (fd : Int)
  | setfd (fd flags : Int)
  | unlink (name : Text)
  | aside

/-- What a call leaves, where it returns `r`. -/
def World.step (w : World) (e : Op × Result) : World :=
  match e.1 with
  | .openFile name x =>
    if h : 0 ≤ e.2.ret then ⟨w.table.opened e.2.ret h x, Function.update w.names name true⟩ else w
  | .close fd => { w with table := w.table.closed fd }
  | .dupfd fd _ => if h : 0 ≤ e.2.ret then { w with table := w.table.dupped fd e.2.ret h } else w
  | .setfl fd x => if e.2.ret = -1 then w else { w with table := w.table.setFlags fd x }
  | .setfd fd x => if e.2.ret = -1 then w else { w with table := w.table.setCloexec fd (x % 2 = 1) }
  | .unlink name => { w with names := Function.update w.names name false }
  | _ => w

/-- A call on a descriptor, which fails where that is free. -/
def Table.answers (t : Table) (fd : Int) (r : Result) (P : Prop) : Prop :=
  if t.file fd = none then r = ⟨-1, EBADF⟩ else P

instance (t : Table) (fd : Int) (r : Result) (P : Prop) [Decidable P] :
    Decidable (t.answers fd r P) :=
  inferInstanceAs (Decidable (if t.file fd = none then r = ⟨-1, EBADF⟩ else P))

theorem Table.answers_iff {r : Result} {P : Prop} (h : fd ∈ t.used) : t.answers fd r P ↔ P := by
  rw [answers, if_neg h]

/-- What a call may return: the files can be created, and there are free descriptors. -/
def World.allowed (w : World) (e : Op × Result) : Prop :=
  match e.1 with
  | .openFile _ _ => w.table.Lowest 0 e.2.ret
  -- a file may report an error when it is closed
  | .close fd => w.table.answers fd e.2 (e.2.ret = 0 ∨ e.2.ret = -1)
  | .dupfd fd arg => w.table.answers fd e.2 (0 ≤ arg ∧ w.table.Lowest arg e.2.ret)
  | .getfl fd => w.table.answers fd e.2
    (e.2.ret ≠ -1 ∧ w.table.flagsOf fd = some (BitVec.ofInt 32 e.2.ret &&& kept))
  | .setfl fd _ => w.table.answers fd e.2 (e.2.ret = 0)
  | .getfd fd => w.table.answers fd e.2 (e.2.ret = if w.table.cloexec fd then 1 else 0)
  | .setfd fd _ => w.table.answers fd e.2 (e.2.ret = 0)
  | .unlink name => w.names name = true → e.2.ret = 0
  | .aside => True

instance (w : World) : (e : Op × Result) → Decidable (w.allowed e)
  | (.openFile _ _, r) => inferInstanceAs (Decidable (w.table.Lowest 0 r.ret))
  | (.close fd, r) => inferInstanceAs (Decidable (w.table.answers fd r (r.ret = 0 ∨ r.ret = -1)))
  | (.dupfd fd arg, r) =>
    inferInstanceAs (Decidable (w.table.answers fd r (0 ≤ arg ∧ w.table.Lowest arg r.ret)))
  | (.getfl fd, r) => inferInstanceAs (Decidable (w.table.answers fd r
      (r.ret ≠ -1 ∧ w.table.flagsOf fd = some (BitVec.ofInt 32 r.ret &&& kept))))
  | (.setfl fd _, r) => inferInstanceAs (Decidable (w.table.answers fd r (r.ret = 0)))
  | (.getfd fd, r) => inferInstanceAs
      (Decidable (w.table.answers fd r (r.ret = if w.table.cloexec fd then 1 else 0)))
  | (.setfd fd _, r) => inferInstanceAs (Decidable (w.table.answers fd r (r.ret = 0)))
  | (.unlink name, r) => inferInstanceAs (Decidable (w.names name = true → r.ret = 0))
  | (.aside, _) => inferInstanceAs (Decidable True)

/-- The interface, for calls that are these operations. -/
def interface {σ : Type} (op : σ → Op) : Interface σ World where
  step w e := w.step (op e.1, e.2)
  allowed w e := w.allowed (op e.1, e.2)

end Descriptors
