import UnikraftSuite.Syscalls.Fcntl01
import UnikraftSuite.Lib.Descriptors
import UnikraftSuite.CaseVerdict
import Mathlib.Data.Finset.Basic
import Mathlib.Data.Finset.Erase

/-!
# `fcntl01` where descriptors behave as they should

`VerdictEarned` is what the verdict of `fcntl01` says of the kernel. Here is the other direction:
on a kernel whose results keep to the interface of `Descriptors`, the verdict is printed, whichever
descriptors are in use at first. The eight files get ascending descriptors without a gap, so that
the lowest free one is the lowest that has been closed. What is printed gets into the log at the
end of the process, if standard output has not been closed by then.

- `Phase`: the descriptors of the test that are open, at the calls between the two loops.
- `main_goes`: each part of `main` takes one phase to the next.
- `conforming`: when the test is reported as passed, the descriptors and the files afterwards.
-/

namespace Syscalls.Fcntl01

open PyStr CStdio Stateful Calls Interfaces Descriptors
open UnikraftSuite (Entry runTest runTest_eq_one_iff)

def O_CREAT : BitVec 32 := 0x40

/-- The calls as operations on descriptors. -/
def op : Call → Op
  | .openFile fname => .openFile fname (O_WRONLY ||| O_CREAT)
  | .close fd => .close fd
  | .dupfd _ fd arg => .dupfd fd arg
  | .getfl _ fd => .getfl fd
  | .setfl _ fd flags => .setfl fd flags
  | .getfd _ fd => .getfd fd
  | .setfd fd flags => .setfd fd flags
  | .unlink fname => .unlink fname

/-- All calls but `close`. -/
def Call.asked : Call → Bool
  | .close _ => false
  | _ => true

/-- What the process finds. What `close` returns is left open: in `Kernel` a call has one result,
and two of the descriptors are closed twice; the program does not look at it. -/
def posix : Interface Call World where
  step w e := w.step (op e.1, e.2)
  allowed w e := e.1.asked = true → w.allowed (op e.1, e.2)

instance (w : World) (e : Event) : Decidable (posix.allowed w e) :=
  inferInstanceAs (Decidable (e.1.asked = true → w.allowed (op e.1, e.2)))

variable {k : Kernel} {w₀ : World}

/-- The names of the eight files are different. -/
theorem fname_injective {i j : Nat} (hi : i < 8) (hj : j < 8) (h : fname k i = fname k j) :
    i = j := by
  have hstr : ∀ i : Nat, i < 8 → ∀ j : Nat, j < 8 → str (i : Int) = str (j : Int) → i = j := by
    decide
  exact hstr i hi j hj (List.append_cancel_right (List.append_cancel_left h))

/-! ## Opening the files -/

/-- Behind the open of `n` files. -/
structure AfterOpens (k : Kernel) (w₀ : World) (n : Nat) (fd : Nat → Int) (w : World) : Prop where
  opened : Opened w₀.table.used fd n
  used : w.table.used = Descriptors.inUse w₀.table.used fd n
  aside : ∀ d, (∀ i < n, d ≠ fd i) → w.table.file d = w₀.table.file d
  flags : ∀ i < n, w.table.flagsOf (fd i) = some O_WRONLY
  names : ∀ i < n, w.names (fname k i) = true
  others : ∀ name, (∀ i < n, name ≠ fname k i) → w.names name = w₀.names name
  rest : ∀ i, n ≤ i → fd i = k.garbage i

theorem AfterOpens.zero (k : Kernel) (w : World) : AfterOpens k w 0 k.garbage w where
  opened := .zero _ _
  used := by
    ext d
    exact (or_iff_left fun ⟨_, hj, _⟩ => Nat.not_lt_zero _ hj).symm
  aside _ _ := rfl
  flags i hi := absurd hi (Nat.not_lt_zero i)
  names i hi := absurd hi (Nat.not_lt_zero i)
  others _ _ := rfl
  rest _ _ := rfl

theorem inUse_congr {T : Set Int} {ds ds' : Nat → Int} {n : Nat} (h : ∀ i < n, ds' i = ds i) :
    Descriptors.inUse T ds' n = Descriptors.inUse T ds n := by
  ext d
  refine or_congr_right (exists_congr fun j => and_congr_right fun hj => ?_)
  rw [h j hj]

theorem AfterOpens.succ {n : Nat} {fd : Nat → Int} {w : World} (h : AfterOpens k w₀ n fd w)
    {r : Result} (hr : w.allowed (op (.openFile (fname k n)), r)) :
    r.ret ≠ -1 ∧ AfterOpens k w₀ (n + 1) (Function.update fd n r.ret)
      (w.step (op (.openFile (fname k n)), r)) := by
  have hlow : w.table.Lowest 0 r.ret := hr
  have hnonneg : 0 ≤ r.ret := hlow.1
  have hstep : w.step (op (.openFile (fname k n)), r)
      = ⟨w.table.opened r.ret hnonneg (O_WRONLY ||| O_CREAT),
        Function.update w.names (fname k n) true⟩ := dif_pos hnonneg
  have hsame : ∀ i < n, Function.update fd n r.ret i = fd i := fun i hi =>
    Function.update_of_ne hi.ne ..
  have hfree : r.ret ∉ w.table.used := not_not.mpr hlow.2.1
  refine ⟨by omega, ?_, ?_, fun d hd => ?_, fun i hi => ?_, fun i hi => ?_, fun name hname => ?_,
    fun i hi => ?_⟩
  · refine (h.opened.congr hsame).succ (t := w.table) ?_ ?_
    · rw [h.used, inUse_congr hsame]
    · rwa [Function.update_self]
  · rw [hstep, Table.used_opened, h.used, ← inUse_succ, Function.update_self, inUse_congr hsame]
  · have hne : d ≠ r.ret := by
      have hd' := hd n (Nat.lt_succ_self n)
      rwa [Function.update_self] at hd'
    rw [hstep]
    show (w.table.opened r.ret hnonneg _).file d = _
    rw [Table.opened, Table.file_put_of_ne hne]
    refine h.aside d fun i hi => ?_
    rw [← hsame i hi]
    exact hd i (Nat.lt_succ_of_lt hi)
  · rw [hstep]
    rcases Nat.lt_succ_iff_lt_or_eq.mp hi with hi | rfl
    · rw [hsame i hi]
      have hne : fd i ≠ r.ret := fun heq => hfree (heq ▸ h.used ▸ .inr ⟨i, hi, rfl⟩)
      rw [Table.flagsOf_opened_of_ne _ _ hne]
      exact h.flags i hi
    · rw [Function.update_self, Table.flagsOf_opened_self]
      decide
  · rw [hstep]
    show Function.update w.names (fname k n) true (fname k i) = true
    by_cases heq : fname k i = fname k n
    · rw [heq, Function.update_self]
    · rw [Function.update_of_ne heq]
      refine h.names i ((Nat.lt_succ_iff_lt_or_eq.mp hi).resolve_right ?_)
      rintro rfl
      exact heq rfl
  · rw [hstep]
    show Function.update w.names (fname k n) true name = _
    rw [Function.update_of_ne (hname n (Nat.lt_succ_self n))]
    exact h.others name fun i hi => hname i (Nat.lt_succ_of_lt hi)
  · have hne : i ≠ n := by omega
    rw [Function.update_of_ne hne]
    exact h.rest i (by omega)

theorem opens_goes : Goes posix w₀ (fun w _ => AfterOpens k w₀ 0 k.garbage w)
    (forLoop (openTurn k) 0 8 k.garbage) fun fd w _ => AfterOpens k w₀ 8 fd w := by
  refine Goes.forLoop (ψ := fun n fd w _ => AfterOpens k w₀ n fd w) (fun n _ fd => ?_) k.garbage
  refine .bind (.syscall
    (ψ := fun r w _ => r ≠ -1 ∧ AfterOpens k w₀ (n + 1) (Function.update fd n r) w)
    fun w out r hw hr => hw.succ (hr rfl)) fun r => ?_
  exact .bind (.exitIf fun w out hw => hw.1) fun _ => .ret fun w out hw => hw.2

/-! ## Between the two loops -/

variable {fd : Nat → Int} {S : Finset Nat} {w : World}

/-- Of the descriptors of the eight files, those in `S` are in use; all else is as at first. -/
structure Phase (k : Kernel) (w₀ : World) (fd : Nat → Int) (S : Finset Nat) (w : World) : Prop where
  opened : Opened w₀.table.used fd 8
  live : ∀ i < 8, fd i ∈ w.table.used ↔ i ∈ S
  aside : ∀ d, (∀ i < 8, d ≠ fd i) → w.table.file d = w₀.table.file d
  names : ∀ i < 8, w.names (fname k i) = true
  others : ∀ name, (∀ i < 8, name ≠ fname k i) → w.names name = w₀.names name
  rest : ∀ i, 8 ≤ i → fd i = k.garbage i

theorem AfterOpens.phase (h : AfterOpens k w₀ 8 fd w) : Phase k w₀ fd (Finset.range 8) w where
  opened := h.opened
  live i hi := by
    rw [h.used, Finset.mem_range]
    exact iff_of_true (.inr ⟨i, hi, rfl⟩) hi
  aside := h.aside
  names := h.names
  others := h.others
  rest := h.rest

/-- Flags are no part of it. -/
theorem Phase.frame (h : Phase k w₀ fd S w) {t : Table} (hfile : t.file = w.table.file) :
    Phase k w₀ fd S { w with table := t } where
  opened := h.opened
  live i hi := by
    rw [Table.mem_used, hfile]
    exact h.live i hi
  aside d hd := (congrFun hfile d).trans (h.aside d hd)
  names := h.names
  others := h.others
  rest := h.rest

theorem Phase.injective (h : Phase k w₀ fd S w) {i j : Nat} (hi : i < 8) (hj : j < 8)
    (heq : fd i = fd j) : i = j := by
  rcases lt_trichotomy i j with hlt | heq' | hgt
  · exact absurd heq (h.opened.lt i j hlt hj).ne
  · exact heq'
  · exact absurd heq (h.opened.lt j i hgt hi).ne'

/-- Changing what one of the descriptors refers to. -/
theorem Phase.put (h : Phase k w₀ fd S w) {j : Nat} (hj : j < 8) {o : Option Nat}
    {ho : ∀ i, o = some i → 0 ≤ fd j ∧ i < w.table.next} {S' : Finset Nat}
    (hS : ∀ i, i ∈ S' ↔ if i = j then o ≠ none else i ∈ S) :
    Phase k w₀ fd S' { w with table := w.table.put (fd j) o ho } where
  opened := h.opened
  live i hi := by
    rw [hS, Table.mem_used]
    by_cases heq : i = j
    · rw [if_pos heq, heq, Table.file_put_self]
    · rw [if_neg heq, Table.file_put_of_ne fun he => heq (h.injective hi hj he)]
      exact h.live i hi
  aside d hd := (Table.file_put_of_ne (h := ho) (hd j hj)).trans (h.aside d hd)
  names := h.names
  others := h.others
  rest := h.rest

theorem Phase.close (h : Phase k w₀ fd S w) {j : Nat} (hj : j < 8) (r : Result) :
    Phase k w₀ fd (S.erase j) (w.step (op (.close (fd j)), r)) := by
  refine h.put hj fun i => ?_
  rw [Finset.mem_erase]
  by_cases heq : i = j
  · rw [if_pos heq]
    exact iff_of_false (fun hi => hi.1 heq) fun hne => hne rfl
  · rw [if_neg heq]
    exact and_iff_right heq

/-- The lowest free descriptor from `a` on is the first of the eight that has been closed, if
none of those in front of it that are not below `a` has been. -/
theorem Phase.lowest (h : Phase k w₀ fd S w) {j : Nat} (hj : j < 8) (hfree : j ∉ S) {a d : Int}
    (hle : a ≤ fd j) (hfirst : ∀ i < j, a ≤ fd i → i ∈ S) (ha : 0 ≤ a) (hl : w.table.Lowest a d) :
    d = fd j := by
  obtain ⟨⟨had, hd⟩, hleast⟩ := Table.lowest_iff.mp hl
  refine Int.le_antisymm (hleast ⟨hle, fun hu => hfree ((h.live j hj).mp hu)⟩) ?_
  by_contra hlt
  rcases h.opened.below j hj d (ha.trans had) (Int.not_le.mp hlt) with hT | ⟨i, hi, rfl⟩
  · have hne : ∀ i < 8, d ≠ fd i := fun i hi heq => h.opened.free i hi (heq ▸ hT)
    exact hd (Table.mem_used.mpr (h.aside d hne ▸ hT))
  · exact hd ((h.live i (hi.trans hj)).mpr (hfirst i hi had))

/-- The access mode is still that of the file, and `FD_CLOEXEC` is not set for the duplicate. -/
structure Dupped (k : Kernel) (w₀ : World) (fd : Nat → Int) (S : Finset Nat) (w : World) : Prop
    extends Phase k w₀ fd S w where
  flags : w.table.flagsOf (fd 2) = some O_WRONLY
  cloexec : w.table.cloexec (fd 2) = false

/-- An `F_DUPFD` of the second file. -/
theorem Phase.dup (h : Phase k w₀ fd S w) (hone : 1 ∈ S) {j : Nat} (hj : j < 8) (hfree : j ∉ S)
    {a : Int} (hle : a ≤ fd j) (hfirst : ∀ i < j, a ≤ fd i → i ∈ S) {n : Nat} {r : Result}
    (hr : w.allowed (op (.dupfd n (fd 1) a), r)) : r.ret = fd j ∧
      w.step (op (.dupfd n (fd 1) a), r)
        = { w with table := w.table.dupped (fd 1) (fd j) (h.opened.nonneg j hj) } := by
  obtain ⟨ha, hlow⟩ := (Table.answers_iff ((h.live 1 (by decide)).mpr hone)).mp hr
  have hret := h.lowest hj hfree hle hfirst ha hlow
  refine ⟨hret, ?_⟩
  obtain ⟨ret, e⟩ := r
  obtain rfl : ret = fd j := hret
  exact dif_pos (h.opened.nonneg j hj)

theorem Phase.dupped (h : Phase k w₀ fd S w) (hone : 1 ∈ S) {j : Nat} (hj : j < 8) :
    Phase k w₀ fd (insert j S)
      { w with table := w.table.dupped (fd 1) (fd j) (h.opened.nonneg j hj) } := by
  refine h.put hj fun i => ?_
  have hfile : w.table.file (fd 1) ≠ none := (h.live 1 (by decide)).mpr hone
  rw [Finset.mem_insert]
  by_cases heq : i = j
  · rw [if_pos heq]
    exact iff_of_true (.inl heq) hfile
  · rw [if_neg heq, or_iff_right heq]

/-- The first duplicate takes the place of the third file. -/
theorem Phase.dup_first (h : Phase k w₀ fd {0, 1, 6, 7} w)
    (hflags : w.table.flagsOf (fd 1) = some O_WRONLY) {n : Nat} {r : Result}
    (hr : w.allowed (op (.dupfd n (fd 1) 1), r)) :
    r.ret = fd 2 ∧ Dupped k w₀ fd {2, 0, 1, 6, 7} (w.step (op (.dupfd n (fd 1) 1), r)) := by
  have hnonneg := h.opened.nonneg 2 (by decide)
  have hlow : 1 ≤ fd 2 := by
    have h0 := h.opened.nonneg 0 (by decide)
    have h1 := h.opened.lt 0 2 (by decide) (by decide)
    omega
  have hfirst : ∀ i < 2, (1 : Int) ≤ fd i → i ∈ ({0, 1, 6, 7} : Finset Nat) := fun i hi _ =>
    (by decide : ∀ i < 2, i ∈ ({0, 1, 6, 7} : Finset Nat)) i hi
  obtain ⟨hret, hstep⟩ := h.dup (by decide) (by decide) (by decide) hlow hfirst hr
  rw [hstep]
  exact ⟨hret, h.dupped (by decide) (by decide), (Table.flagsOf_dupped_self hnonneg).trans hflags,
    Table.cloexec_dupped_self hnonneg⟩

/-- A later one leaves the first duplicate alone. -/
theorem Dupped.dup (h : Dupped k w₀ fd S w) (hone : 1 ∈ S) {j : Nat} (hj : j < 8) (hne : j ≠ 2)
    (hfree : j ∉ S) {a : Int} (hle : a ≤ fd j) (hfirst : ∀ i < j, a ≤ fd i → i ∈ S) {n : Nat}
    {r : Result} (hr : w.allowed (op (.dupfd n (fd 1) a), r)) :
    r.ret = fd j ∧ Dupped k w₀ fd (insert j S) (w.step (op (.dupfd n (fd 1) a), r)) := by
  obtain ⟨hret, hstep⟩ := h.toPhase.dup hone hj hfree hle hfirst hr
  have hother : fd 2 ≠ fd j := fun heq => hne (h.injective (by decide) hj heq).symm
  have hnonneg := h.opened.nonneg j hj
  rw [hstep]
  exact ⟨hret, h.toPhase.dupped hone hj, (Table.flagsOf_dupped_of_ne hnonneg hother).trans h.flags,
    (Table.cloexec_dupped_of_ne hnonneg hother).trans h.cloexec⟩

theorem closeFour_goes : Goes posix w₀ (fun w _ => AfterOpens k w₀ 8 fd w) (closeFour k fd)
    fun _ w _ => Phase k w₀ fd {0, 1, 6, 7} w ∧ w.table.flagsOf (fd 1) = some O_WRONLY := by
  have hclose : ∀ {S : Finset Nat} (j : Nat), j < 8 → j ≠ 1 → Goes posix w₀
      (fun w _ => Phase k w₀ fd S w ∧ w.table.flagsOf (fd 1) = some O_WRONLY)
      (sys k (.close (fd j)))
        fun _ w _ => Phase k w₀ fd (S.erase j) w ∧ w.table.flagsOf (fd 1) = some O_WRONLY := by
    intro S j hj hne
    refine .syscall fun w out r ⟨h, hflags⟩ _ => ⟨h.close hj r, ?_⟩
    exact (Table.flagsOf_closed_of_ne fun heq => hne (h.injective (by decide) hj heq).symm).trans
      hflags
  have hfour : ((((Finset.range 8).erase 2).erase 3).erase 4).erase 5 = {0, 1, 6, 7} := by decide
  rw [← hfour]
  refine Goes.pre (φ := fun w _ => Phase k w₀ fd (Finset.range 8) w ∧
    w.table.flagsOf (fd 1) = some O_WRONLY) ?_ fun w _ h => ⟨h.phase, h.flags 1 (by decide)⟩
  exact .bind (hclose 2 (by decide) (by decide)) fun _ =>
    .bind (hclose 3 (by decide) (by decide)) fun _ =>
      .bind (hclose 4 (by decide) (by decide)) fun _ =>
        .bind (hclose 5 (by decide) (by decide)) fun _ => .ret fun _ _ h => h

/-- `fd` behind the three `F_DUPFD`. -/
def moved (fd : Nat → Int) : Nat → Int :=
  Function.update (Function.update (Function.update fd 2 (fd 2)) 4 (fd 3)) 8 (fd 5)

theorem dupChecks_goes : Goes posix w₀
    (fun w _ => Phase k w₀ fd {0, 1, 6, 7} w ∧ w.table.flagsOf (fd 1) = some O_WRONLY)
    (dupChecks k fd) fun fd' w _ => fd' = moved fd ∧ Dupped k w₀ fd {5, 3, 2, 0, 1, 6, 7} w := by
  have hone : Goes posix w₀
      (fun w _ => Phase k w₀ fd {0, 1, 6, 7} w ∧ w.table.flagsOf (fd 1) = some O_WRONLY)
      (sys k (.dupfd 0 (fd 1) 1)) fun r w _ => r = fd 2 ∧ Dupped k w₀ fd {2, 0, 1, 6, 7} w :=
    .syscall fun w out r ⟨h, hflags⟩ hr => h.dup_first hflags (hr rfl)
  have htwo : ∀ a, Goes posix w₀ (fun w _ => a = fd 2 ∧ Dupped k w₀ fd {2, 0, 1, 6, 7} w)
      (sys k (.dupfd 1 (fd 1) (fd 3))) fun r w _ =>
        (a = fd 2 ∧ r = fd 3) ∧ Dupped k w₀ fd {3, 2, 0, 1, 6, 7} w := by
    refine fun a => .syscall fun w out r ⟨ha, h⟩ hr => ?_
    have hfirst : ∀ i < 3, fd 3 ≤ fd i → i ∈ ({2, 0, 1, 6, 7} : Finset Nat) := fun i hi _ =>
      (by decide : ∀ i < 3, i ∈ ({2, 0, 1, 6, 7} : Finset Nat)) i hi
    obtain ⟨hret, hnext⟩ := h.dup (by decide) (by decide) (by decide) (by decide) le_rfl hfirst
      (hr rfl)
    exact ⟨⟨ha, hret⟩, hnext⟩
  have hthree : ∀ a b, Goes posix w₀
      (fun w _ => (a = fd 2 ∧ b = fd 3) ∧ Dupped k w₀ fd {3, 2, 0, 1, 6, 7} w)
      (sys k (.dupfd 2 (fd 1) (fd 5))) fun r w _ =>
        ((a = fd 2 ∧ b = fd 3) ∧ r = fd 5) ∧ Dupped k w₀ fd {5, 3, 2, 0, 1, 6, 7} w := by
    refine fun a b => .syscall fun w out r ⟨hab, h⟩ hr => ?_
    have hfirst : ∀ i < 5, fd 5 ≤ fd i → i ∈ ({3, 2, 0, 1, 6, 7} : Finset Nat) := fun i hi hle =>
      absurd hle (Int.not_le.mpr (h.opened.lt i 5 hi (by decide)))
    obtain ⟨hret, hnext⟩ := h.dup (by decide) (by decide) (by decide) (by decide) le_rfl hfirst
      (hr rfl)
    exact ⟨⟨hab, hret⟩, hnext⟩
  have hnonneg : ∀ {S w}, Dupped k w₀ fd S w → ∀ j < 8, 0 ≤ fd j := fun h => h.opened.nonneg
  refine .bind hone fun a => ?_
  refine .bind (.exitIf fun w out ⟨ha, h⟩ => ?_) fun _ => ?_
  · have h2 := hnonneg h 2 (by decide)
    rw [Function.update_self]
    omega
  refine .bind (.exitIf fun w out ⟨ha, h⟩ => ?_) fun _ => ?_
  · rw [Function.update_self]
    omega
  refine .bind (htwo a) fun b => ?_
  refine .bind (.exitIf fun w out ⟨hab, h⟩ => ?_) fun _ => ?_
  · have h3 := hnonneg h 3 (by decide)
    rw [Function.update_self]
    omega
  refine .bind (.exitIf fun w out ⟨hab, h⟩ => ?_) fun _ => ?_
  · rw [Function.update_self]
    omega
  refine .bind (hthree a b) fun c => ?_
  refine .bind (.exitIf fun w out ⟨habc, h⟩ => ?_) fun _ => ?_
  · have h5 := hnonneg h 5 (by decide)
    rw [Function.update_self]
    omega
  refine .bind (.exitIf fun w out ⟨habc, h⟩ => ?_) fun _ => ?_
  · rw [Function.update_self]
    omega
  refine .ret fun w out ⟨⟨⟨ha, hb⟩, hc⟩, h⟩ => ⟨?_, h⟩
  rw [ha, hb, hc]
  rfl

/-! ## The flags of the duplicate -/

/-- The duplicate, with its flags. -/
structure Flagged (k : Kernel) (w₀ : World) (fd fd' : Nat → Int) (x : BitVec 32) (b : Bool)
    (w : World) : Prop where
  eq : fd' = moved fd
  phase : Phase k w₀ fd {5, 3, 2, 0, 1, 6, 7} w
  flags : w.table.flagsOf (fd' 2) = some x
  cloexec : w.table.cloexec (fd' 2) = b

variable {fd' : Nat → Int} {x : BitVec 32} {b : Bool}

theorem getFlags_goes (n : Nat) {mask : BitVec 32} (said : Text) (expected : BitVec 32)
    (hmask : x &&& mask ≠ 0) : Goes posix w₀ (fun w _ => Flagged k w₀ fd fd' x b w)
      (getFlags k n (fd' 2) mask said expected) fun _ w _ => Flagged k w₀ fd fd' x b w := by
  refine .bind (.syscall (ψ := fun r w _ => word r &&& mask ≠ 0 ∧ Flagged k w₀ fd fd' x b w) ?_)
    fun r => .post (.exitIf fun w out h => h.1) fun _ w out h => h.2
  intro w out r h hr
  obtain ⟨-, hret⟩ := (Table.answers_iff (Table.mem_used_of_flagsOf h.flags)).mp (hr rfl)
  refine ⟨fun hzero => hmask ?_, h⟩
  have hx : x = word r.ret &&& kept := Option.some.inj (h.flags.symm.trans hret)
  rw [hx, BitVec.and_assoc, BitVec.and_comm kept, ← BitVec.and_assoc, hzero]
  exact BitVec.zero_and

/-- `F_SETFL` keeps the access mode. -/
theorem setfl_goes (n : Nat) (y : BitVec 32) : Goes posix w₀ (fun w _ => Flagged k w₀ fd fd' x b w)
    (sys k (.setfl n (fd' 2) y)) fun r w _ =>
      r = 0 ∧ Flagged k w₀ fd fd' (x &&& O_ACCMODE ||| y &&& settable) b w := by
  refine .syscall fun w out r h hr => ?_
  have hret : r.ret = 0 := (Table.answers_iff (Table.mem_used_of_flagsOf h.flags)).mp (hr rfl)
  have hne : r.ret ≠ -1 := by omega
  have hstep :
      posix.step w (.setfl n (fd' 2) y, r) = { w with table := w.table.setFlags (fd' 2) y } :=
    if_neg hne
  rw [hstep]
  refine ⟨hret, h.eq, h.phase.frame (Table.file_setFlags y), ?_, ?_⟩
  · rw [Table.flagsOf_setFlags, h.flags]
    rfl
  · rw [Table.cloexec_setFlags]
    exact h.cloexec

theorem flagChecks_goes : Goes posix w₀ (fun w _ => Flagged k w₀ fd fd' O_WRONLY b w)
    (flagChecks k (fd' 2)) fun _ w _ => Flagged k w₀ fd fd' O_WRONLY b w := by
  refine .bind (getFlags_goes 0 _ _ (by decide)) fun _ => ?_
  refine .bind (setfl_goes 1 O_NDELAY) fun r => ?_
  refine .bind (.exitIf fun w out h => by omega) fun _ => ?_
  refine .bind (.pre (getFlags_goes 1 _ _ (by decide)) fun w out h => h.2) fun _ => ?_
  refine .bind (setfl_goes 2 O_APPEND) fun r => ?_
  refine .bind (.exitIf fun w out h => by omega) fun _ => ?_
  refine .bind (.pre (getFlags_goes 2 _ _ (by decide)) fun w out h => h.2) fun _ => ?_
  refine .bind (setfl_goes 3 (O_NDELAY ||| O_APPEND)) fun r => ?_
  refine .bind (.exitIf fun w out h => by omega) fun _ => ?_
  refine .bind (.pre (getFlags_goes 3 _ _ (by decide)) fun w out h => h.2) fun _ => ?_
  refine .bind (setfl_goes 4 0) fun r => ?_
  refine .bind (.exitIf fun w out h => by omega) fun _ => ?_
  exact .pre (getFlags_goes 4 _ _ (by decide)) fun w out h => h.2

theorem getfd_goes (n : Nat) {v : Int} (hv : (if b then 1 else 0) = v) :
    Goes posix w₀ (fun w _ => Flagged k w₀ fd fd' x b w) (sys k (.getfd n (fd' 2)))
      fun r w _ => r = v ∧ Flagged k w₀ fd fd' x b w := by
  refine .syscall fun w out r h hr => ⟨?_, h⟩
  have hret := (Table.answers_iff (Table.mem_used_of_flagsOf h.flags)).mp (hr rfl)
  rw [h.cloexec] at hret
  exact hret.trans hv

theorem cloexecChecks_goes : Goes posix w₀ (fun w _ => Flagged k w₀ fd fd' x false w)
    (cloexecChecks k (fd' 2)) fun _ w _ => Flagged k w₀ fd fd' x true w := by
  have hset : Goes posix w₀ (fun w _ => Flagged k w₀ fd fd' x false w) (sys k (.setfd (fd' 2) 1))
      fun r w _ => r = 0 ∧ Flagged k w₀ fd fd' x true w := by
    refine .syscall fun w out r h hr => ?_
    have hret : r.ret = 0 := (Table.answers_iff (Table.mem_used_of_flagsOf h.flags)).mp (hr rfl)
    have hne : r.ret ≠ -1 := by omega
    have hstep : posix.step w (.setfd (fd' 2) 1, r)
        = { w with table := w.table.setCloexec (fd' 2) true } :=
      if_neg hne
    rw [hstep]
    exact ⟨hret, h.eq, h.phase.frame rfl, h.flags, Function.update_self ..⟩
  refine .bind (getfd_goes (v := 0) 0 rfl) fun r => ?_
  refine .bind (.exitIf fun w out h => by omega) fun _ => ?_
  refine .bind (.exitIf fun w out h => by omega) fun _ => ?_
  refine .bind (.pre hset fun w out h => h.2) fun r => ?_
  refine .bind (.exitIf fun w out h => by omega) fun _ => ?_
  refine .bind (.pre (getfd_goes (v := 1) 1 rfl) fun w out h => h.2) fun r => ?_
  refine .bind (.exitIf fun w out h => by omega) fun _ => ?_
  exact .post (.exitIf fun w out h => by omega) fun _ w out h => h.2

/-! ## Closing and removing everything -/

/-- Behind `n` closes of all that is in `fd'`. -/
structure AfterCloses (k : Kernel) (w₀ : World) (fd fd' : Nat → Int) (n : Nat) (w w₁ : World) :
    Prop where
  eq : fd' = moved fd
  phase : Phase k w₀ fd {5, 3, 2, 0, 1, 6, 7} w₁
  closed : ∀ i < n, w.table.file (fd' i) = none
  left : ∀ d, (∀ i < n, d ≠ fd' i) → w.table.file d = w₁.table.file d
  names : w.names = w₁.names

theorem AfterCloses.succ {n : Nat} {w₁ : World} (h : AfterCloses k w₀ fd fd' n w w₁) (r : Result) :
    AfterCloses k w₀ fd fd' (n + 1) (w.step (op (.close (fd' n)), r)) w₁ := by
  refine ⟨h.eq, h.phase, fun i hi => ?_, fun d hd => ?_, h.names⟩
  · show (w.table.closed (fd' n)).file (fd' i) = none
    by_cases heq : fd' i = fd' n
    · rw [heq, Table.closed, Table.file_put_self]
    · rw [Table.closed, Table.file_put_of_ne heq]
      refine h.closed i ((Nat.lt_succ_iff_lt_or_eq.mp hi).resolve_right ?_)
      rintro rfl
      exact heq rfl
  · show (w.table.closed (fd' n)).file d = _
    rw [Table.closed, Table.file_put_of_ne (hd n (Nat.lt_succ_self n))]
    exact h.left d fun i hi => hd i (Nat.lt_succ_of_lt hi)

theorem moved_of_ne {i : Nat} (h4 : i ≠ 4) (h8 : i ≠ 8) (fd : Nat → Int) : moved fd i = fd i := by
  rw [moved, Function.update_of_ne h8, Function.update_of_ne h4]
  by_cases h2 : i = 2
  · rw [h2, Function.update_self]
  · rw [Function.update_of_ne h2]

/-- Each is one of the eight, or what was there before it was assigned. -/
theorem moved_cases {i : Nat} (hi : i < 10) (fd : Nat → Int) :
    (∃ j < 8, moved fd i = fd j) ∨ moved fd i = fd 9 := by
  by_cases h8 : i = 8
  · exact .inl ⟨5, by decide, by rw [h8]; rfl⟩
  by_cases h4 : i = 4
  · exact .inl ⟨3, by decide, by rw [h4]; rfl⟩
  by_cases h9 : i = 9
  · exact .inr (by rw [h9]; rfl)
  exact .inl ⟨i, by omega, moved_of_ne h4 h8 fd⟩

/-- The descriptors are as at first, but for the one that the last element of `fd` happens to be. -/
theorem AfterCloses.file {w₁ : World} (h : AfterCloses k w₀ fd fd' 10 w w₁) :
    w.table.file = Function.update w₀.table.file (k.garbage 9) none := by
  have hlast : fd' 9 = k.garbage 9 := by
    rw [h.eq, moved_of_ne (by decide) (by decide)]
    exact h.phase.rest 9 (by decide)
  funext d
  by_cases h9 : d = k.garbage 9
  · rw [h9, Function.update_self, ← hlast]
    exact h.closed 9 (by decide)
  rw [Function.update_of_ne h9]
  by_cases hours : ∃ i < 8, d = fd i
  · obtain ⟨i, hi, rfl⟩ := hours
    have hfree : w₀.table.file (fd i) = none := not_not.mp (h.phase.opened.free i hi)
    rw [hfree]
    by_cases h4 : i = 4
    · -- it was closed before, and no duplicate has taken its place
      have hclosed : w₁.table.file (fd i) = none := not_not.mp fun hlive =>
        absurd ((h.phase.live i hi).mp hlive) (by rw [h4]; decide)
      by_cases hagain : ∃ j < 10, fd i = fd' j
      · obtain ⟨j, hj, heq⟩ := hagain
        exact heq ▸ h.closed j hj
      · rw [h.left (fd i) fun j hj heq => hagain ⟨j, hj, heq⟩]
        exact hclosed
    · rw [← moved_of_ne h4 hi.ne fd, ← h.eq]
      exact h.closed i (by omega)
  · have hne : ∀ i < 8, d ≠ fd i := fun i hi heq => hours ⟨i, hi, heq⟩
    rw [h.left d, h.phase.aside d hne]
    intro i hi heq
    rw [h.eq] at heq
    rcases moved_cases hi fd with ⟨j, hj, hmoved⟩ | hmoved
    · exact hne j hj (heq.trans hmoved)
    · exact h9 (heq.trans (hmoved.trans (h.phase.rest 9 (by decide))))

/-- Behind the removal of `n` files. -/
structure AfterUnlinks (k : Kernel) (w₀ : World) (n : Nat) (w : World) : Prop where
  file : w.table.file = Function.update w₀.table.file (k.garbage 9) none
  removed : ∀ i < n, w.names (fname k i) = false
  there : ∀ i < 8, n ≤ i → w.names (fname k i) = true
  others : ∀ name, (∀ i < 8, name ≠ fname k i) → w.names name = w₀.names name

theorem AfterCloses.afterUnlinks {w₁ : World} (h : AfterCloses k w₀ fd fd' 10 w w₁) :
    AfterUnlinks k w₀ 0 w where
  file := h.file
  removed i hi := absurd hi (Nat.not_lt_zero i)
  there i hi _ := h.names ▸ h.phase.names i hi
  others name hname := h.names ▸ h.phase.others name hname

theorem AfterUnlinks.succ {n : Nat} (hn : n < 8) (h : AfterUnlinks k w₀ n w) {r : Result}
    (hr : posix.allowed w (.unlink (fname k n), r)) :
    r.ret = 0 ∧ AfterUnlinks k w₀ (n + 1) (posix.step w (.unlink (fname k n), r)) := by
  refine ⟨hr rfl (h.there n hn le_rfl), h.file, fun i hi => ?_, fun i hi hle => ?_,
    fun name hname => ?_⟩
  · show Function.update w.names (fname k n) false (fname k i) = false
    rcases Nat.lt_succ_iff_lt_or_eq.mp hi with hi | rfl
    · have hne : fname k i ≠ fname k n := fun heq => hi.ne (fname_injective (by omega) hn heq)
      rw [Function.update_of_ne hne]
      exact h.removed i hi
    · rw [Function.update_self]
  · show Function.update w.names (fname k n) false (fname k i) = true
    have hne : fname k i ≠ fname k n := fun heq => by
      have := fname_injective hi hn heq
      omega
    rw [Function.update_of_ne hne]
    exact h.there i hi (by omega)
  · show Function.update w.names (fname k n) false name = _
    rw [Function.update_of_ne (hname n hn)]
    exact h.others name hname

/-! ## The verdict -/

theorem checks_goes : Goes posix w₀ (fun w _ => w = w₀) (checks k)
    fun _ w _ => AfterUnlinks k w₀ 8 w := by
  refine .bind (.pre opens_goes fun w out h => h ▸ .zero k w) fun fd => ?_
  refine .bind closeFour_goes fun _ => .bind dupChecks_goes fun fd' => ?_
  have hflags : Goes posix w₀
      (fun w _ => fd' = moved fd ∧ Dupped k w₀ fd {5, 3, 2, 0, 1, 6, 7} w) (flagChecks k (fd' 2))
        fun _ w _ => Flagged k w₀ fd fd' O_WRONLY false w := by
    refine .pre flagChecks_goes fun w out ⟨hfd, h⟩ => ?_
    have htwo : fd' 2 = fd 2 := by
      rw [hfd]
      exact moved_of_ne (by decide) (by decide) fd
    exact ⟨hfd, h.toPhase, htwo ▸ h.flags, htwo ▸ h.cloexec⟩
  refine .bind hflags fun _ => .bind cloexecChecks_goes fun _ => ?_
  have hcloses : Goes posix w₀ (fun w _ => Flagged k w₀ fd fd' O_WRONLY true w)
      (forLoop (closeTurn k fd') 0 10 ()) fun _ w _ => AfterUnlinks k w₀ 0 w := by
    refine .pre (.post (.forLoop (ψ := fun n _ w _ => ∃ w₁, AfterCloses k w₀ fd fd' n w w₁)
      (fun n _ _ => ?_) ()) fun _ w out ⟨w₁, h⟩ => h.afterUnlinks) fun w out h =>
        ⟨w, h.eq, h.phase, fun i hi => absurd hi (Nat.not_lt_zero i), fun _ _ => rfl, rfl⟩
    refine .bind (.syscall (ψ := fun _ w _ => ∃ w₁, AfterCloses k w₀ fd fd' (n + 1) w w₁)
      fun w out r ⟨w₁, h⟩ _ => ⟨w₁, h.succ r⟩) fun _ => .ret fun _ _ h => h
  refine .bind hcloses fun _ => .forLoop (ψ := fun n _ w _ => AfterUnlinks k w₀ n w)
    (fun n hn _ => ?_) ()
  refine .bind (.syscall (ψ := fun r w _ => r = 0 ∧ AfterUnlinks k w₀ (n + 1) w)
    fun w out r h hr => h.succ hn hr) fun r => ?_
  exact .post (.exitIf fun w out h => by omega) fun _ w out h => h.2

/-- What the test leaves of what it found. -/
structure Restored (k : Kernel) (w₀ w : World) : Prop where
  descriptors : w.table.file = Function.update w₀.table.file (k.garbage 9) none
  removed : ∀ i < 8, w.names (fname k i) = false
  others : ∀ name, (∀ i < 8, name ≠ fname k i) → w.names name = w₀.names name

theorem main_goes : Goes posix w₀ (fun w _ => w = w₀) (main k)
    fun _ w out => verdict ∈ out ∧ Restored k w₀ w :=
  .bind checks_goes fun _ => .printf fun _ out h =>
    ⟨List.mem_append_right out List.mem_cons_self, h.file, h.removed, h.others⟩

/-- What a process leaves in `log.txt`, to which its standard output is redirected. What has been
printed is in a buffer, and is written when the process ends; it gets there if descriptor 1 still
refers to what it referred to at first. -/
def logged (w₀ w : World) (out : Text) : Text :=
  if w₀.table.file 1 ≠ none ∧ w.table.file 1 = w₀.table.file 1 then out else []

/-- Standard output is still open if it was, and is not what the last element of `fd` happens to
hold. -/
theorem Restored.output {w : World} (h : Restored k w₀ w) :
    (w₀.table.file 1 ≠ none ∧ w.table.file 1 = w₀.table.file 1) ↔
      w₀.table.file 1 ≠ none ∧ k.garbage 9 ≠ 1 := by
  rw [h.descriptors]
  refine and_congr_right fun hopen => ?_
  by_cases heq : k.garbage 9 = 1
  · rw [heq, Function.update_self]
    exact iff_of_false hopen.symm fun hne => hne rfl
  · exact iff_of_true (Function.update_of_ne (Ne.symm heq) ..) heq

/-- **Where descriptors behave as they should**, the test is reported as passed exactly if its
standard output was open and is not closed by it; the files are removed, and the descriptors are
as they were, but for the one that the element of `fd` which is never assigned happens to hold:
that is closed. -/
theorem conforming (k : Kernel) (w₀ : World) (h : KeptTo posix w₀ (final k).log) {t : Entry Unit}
    (v : UnikraftSuite.World Unit) {cont : Text} (hs : t.gcc.stdout = some cont)
    (hb : t.gcc.binary = some ())
    (hout : t.exec () = some (logged w₀ (behind posix w₀ (final k).log) (final k).out.flatten)) :
    ((runTest t v).1 = 1 ↔ w₀.table.file 1 ≠ none ∧ k.garbage 9 ≠ 1) ∧
      Restored k w₀ (behind posix w₀ (final k).log) := by
  obtain ⟨_, -, hverdict, hend⟩ := Goes.run main_goes h
  refine ⟨?_, hend⟩
  rw [runTest_eq_one_iff v hs hb hout, ← Restored.output hend, logged]
  split
  · next hopen =>
    have hline : "test succeeded".toList <:+: verdict := by decide
    exact iff_of_true (hline.trans (List.infix_of_mem_flatten hverdict)) hopen
  · next hclosed => exact iff_of_false (by decide) hclosed

/-- A kernel for a process with the three standard descriptors. -/
def Kernel.standard : Kernel where
  answer
    | .openFile fname => ⟨(fname.getD 7 '0').toNat - 45, 0⟩
    | .dupfd 0 _ _ => ⟨5, 0⟩
    | .dupfd 1 _ _ => ⟨6, 0⟩
    | .dupfd _ _ _ => ⟨8, 0⟩
    | .getfl n _ => ⟨(newFlags n ||| O_WRONLY).toNat, 0⟩
    | .getfd n _ => ⟨n, 0⟩
    | _ => ⟨0, 0⟩
  mypid := 42
  garbage := fun _ => 2

/-- Those descriptors, for one open file. -/
def World.standard : World where
  table :=
    { file := fun d => if 0 ≤ d ∧ d < 3 then some 0 else none
      cloexec := fun _ => false
      flags := fun _ => 2
      next := 1
      nonneg := fun h => by
        split at h
        · next hd => exact hd.1
        · cases h
      old := fun h => by
        split at h
        · cases h
          exact Nat.one_pos
        · cases h }
  names := fun _ => false

/-- The test, run from there. -/
def standardTest : Entry Unit where
  name := "fcntl01.c".toList
  isDir := false
  gcc := ⟨some [], some (), false⟩
  exec _ := some (logged World.standard (behind posix World.standard (final .standard).log)
    (final .standard).out.flatten)

/-- The element that is not assigned holds 2: the test passes, and standard error is closed. -/
theorem conforming_standard : (runTest standardTest .init).1 = 1 ∧
    Restored .standard World.standard (behind posix World.standard (final .standard).log) := by
  obtain ⟨hpassed, hend⟩ := conforming .standard World.standard (by decide +kernel)
    (t := standardTest) .init rfl rfl rfl
  exact ⟨hpassed.mpr ⟨by decide, by decide⟩, hend⟩

end Syscalls.Fcntl01
