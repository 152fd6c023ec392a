import UnikraftSuite.Lib.Stateful
import Mathlib.Data.Int.ModEq

/-!
# `brk01`

`verify_brk` moves the break up by two pages less a byte, keeps it there and moves it down
again, and each time it is up it stores a byte at the break itself. That is the first byte that
is not allocated, and it lies in a page of the process only if the break is not at the start of
a page.

- `verifyBrk_spec`: where the break and the stores are, over the whole loop.
- `staysInside_iff`: the starts from which every store is inside.
-/

namespace Syscalls.Brk01

open Stateful

/-! ## The machine -/

/-- The lines of output. -/
inductive Line where
  | testing
  | noSbrk
  | noBrk
  | wrongAddress (cur expected : Int)
  | worksFine
  | testSucceeded
  deriving DecidableEq

/-- A byte stored at `addr`, with the break in force. -/
structure Store where
  addr : Int
  brk : Int
  deriving DecidableEq

/-- The break, the breaks requested so far, the bytes stored and the output. -/
structure Machine where
  brk : Int
  requests : List Int
  stores : List Store
  out : List Line

/-- The return value of `brk(a)` and the break behind it, and the return value of `sbrk(0)`. -/
structure Kernel where
  brk : Machine → Int → Int × Int
  sbrk : Machine → Int

/-- `brk(a)`. -/
def brk (k : Kernel) (a : Int) : Prog Machine Int :=
  act fun m => ((k.brk m a).1, { m with brk := (k.brk m a).2, requests := m.requests ++ [a] })

/-- `sbrk(0)`. -/
def sbrk (k : Kernel) : Prog Machine Int := act fun m => (k.sbrk m, m)

/-- `*((char *)a) = 0;` -/
def store (a : Int) : Prog Machine Unit :=
  act fun m => ((), { m with stores := m.stores ++ [⟨a, m.brk⟩] })

def printf (x : Line) : Prog Machine Unit := act fun m => ((), { m with out := m.out ++ [x] })

/-! ## The program -/

/-- The `switch` over `i % 3`. -/
def newBrk (curBrk inc : Int) (i : Nat) : Int :=
  match i % 3 with
  | 0 => curBrk + inc
  | 1 => curBrk
  | _ => curBrk - inc

/-- A turn of the loop, with `cur_brk`; it may `return`. -/
def turn (k : Kernel) (inc : Int) (i : Nat) (curBrk : Int) : Prog Machine (Int ⊕ Int) := do
  let expected := newBrk curBrk inc i
  let _ ← brk k expected
  let curBrk ← sbrk k
  if curBrk ≠ expected then do
    printf (.wrongAddress curBrk expected)
    return .inr 0
  else do
    if i % 3 = 0 then store curBrk else pure ()
    return .inl curBrk

/-- `verify_brk`. -/
def verifyBrk (k : Kernel) (pageSize : Nat) : Prog Machine Int := do
  let inc : Int := pageSize * 2 - 1
  printf .testing
  let curBrk ← sbrk k
  if curBrk = -1 then do
    printf .noSbrk
    return 0
  else do
    if (← brk k curBrk) ≠ 0 then do
      printf .noBrk
      return 0
    else
      match ← forTurns (turn k inc) 0 33 curBrk with
      | .inr v => return v
      | .inl _ => do
        printf .worksFine
        return 1

def main (k : Kernel) (pageSize : Nat) : Prog Machine Unit := do
  if (← verifyBrk k pageSize) ≠ 0 then printf .testSucceeded else return ()

/-- The machine in front of `main`. -/
def start (b₀ : Nat) : Machine := ⟨b₀, [], [], []⟩

/-! ## What it should do -/

/-- The end of the last page that has a byte below the break. -/
def pageEnd (pageSize : Nat) (brk : Int) : Int := (brk + pageSize - 1) / pageSize * pageSize

/-- Every `brk` sets the break as requested, and `sbrk(0)` tells where it is. -/
structure Exact (k : Kernel) : Prop where
  brk : ∀ m a, k.brk m a = (0, a)
  sbrk : ∀ m, k.sbrk m = m.brk

/-- `verify_brk` returns 1 after the request in front of the loop and its 33 steps, with the
break back at `b₀`; no break is requested outside the range, and no byte is stored behind the
last page. -/
structure StaysInside (pageSize b₀ : Nat) (r : Option Int × Machine) : Prop where
  returns : r.1 = some 1
  steps : r.2.requests.length = 1 + 33
  brk : r.2.brk = b₀
  requests : ∀ a ∈ r.2.requests, (b₀ : Int) ≤ a ∧ a ≤ b₀ + 2 * pageSize - 1
  stores : ∀ s ∈ r.2.stores, s.addr < pageEnd pageSize s.brk

/-! ## The cycle of the break -/

section Cycle

variable {k : Kernel} {pageSize b₀ : Nat}

/-- Where the break is in front of turn `i`. -/
def breakAt (b₀ : Nat) (inc : Int) (i : Nat) : Int := if i % 3 = 0 then b₀ else b₀ + inc

/-- The `switch` follows the cycle. -/
theorem newBrk_breakAt (b₀ : Nat) (inc : Int) (i : Nat) :
    newBrk (breakAt b₀ inc i) inc i = breakAt b₀ inc (i + 1) := by
  have hcases : i % 3 = 0 ∨ i % 3 = 1 ∨ i % 3 = 2 := by omega
  rcases hcases with h | h | h
  · have hnext : ¬ (i + 1) % 3 = 0 := by omega
    simp only [newBrk, breakAt, h, if_pos, if_neg hnext]
  · have hnext : ¬ (i + 1) % 3 = 0 := by omega
    simp only [newBrk, breakAt, h, if_neg hnext]
    simp
  · have hnext : (i + 1) % 3 = 0 := by omega
    have hi : ¬ i % 3 = 0 := by omega
    simp only [newBrk, breakAt, h, if_pos hnext]
    simp

/-- **The invariant** in front of turn `i`: the break is where the cycle has it, and a byte has
been stored where the cycle has it up, in the first turn at the latest. -/
structure Cycling (pageSize b₀ i : Nat) (curBrk : Int) (m : Machine) : Prop where
  cur : curBrk = breakAt b₀ (pageSize * 2 - 1) i
  brk : m.brk = curBrk
  steps : m.requests.length = 1 + i
  requests : ∀ a ∈ m.requests, (b₀ : Int) ≤ a ∧ a ≤ b₀ + 2 * pageSize - 1
  stores : ∀ s ∈ m.stores, s = ⟨b₀ + 2 * pageSize - 1, b₀ + 2 * pageSize - 1⟩
  stored : 0 < i → m.stores ≠ []

theorem breakAt_range (hP : 0 < pageSize) (i : Nat) :
    (b₀ : Int) ≤ breakAt b₀ (pageSize * 2 - 1) i ∧
      breakAt b₀ (pageSize * 2 - 1) i ≤ b₀ + 2 * pageSize - 1 := by
  rw [breakAt]
  split <;> omega

/-- The `brk` of a turn. -/
theorem Cycling.request {i : Nat} {curBrk : Int} {m : Machine} (h : Cycling pageSize b₀ i curBrk m)
    (hP : 0 < pageSize) : ∀ a ∈ m.requests ++ [newBrk curBrk (pageSize * 2 - 1) i],
      (b₀ : Int) ≤ a ∧ a ≤ b₀ + 2 * pageSize - 1 := by
  refine List.forall_mem_append.mpr ⟨h.requests, List.forall_mem_singleton.mpr ?_⟩
  rw [h.cur, newBrk_breakAt]
  exact breakAt_range hP (i + 1)

/-- **One turn**: it does not leave the loop. -/
theorem turn_spec (hk : Exact k) (hP : 0 < pageSize) (i : Nat) (curBrk : Int) :
    Spec (Cycling pageSize b₀ i curBrk) (turn k (pageSize * 2 - 1) i curBrk)
      (Spec.Turn (Cycling pageSize b₀ (i + 1)) fun _ _ => False) (fun _ => False) := by
  intro m hm
  have hnew := hm.cur ▸ newBrk_breakAt b₀ (pageSize * 2 - 1) i
  have hrange := hm.request hP
  have hsteps : (m.requests ++ [newBrk curBrk (pageSize * 2 - 1) i]).length = 1 + (i + 1) := by
    rw [List.length_append, hm.steps]
    rfl
  simp only [turn, exec_bind, brk, sbrk, exec_act, hk.brk, hk.sbrk, ne_eq, not_true_eq_false,
    if_false]
  by_cases hi : i % 3 = 0
  · -- the break has been moved up
    have hnext : ¬ (i + 1) % 3 = 0 := by omega
    have hup : newBrk curBrk (pageSize * 2 - 1) i = b₀ + 2 * pageSize - 1 := by
      rw [hnew, breakAt, if_neg hnext]
      omega
    rw [if_pos hi]
    refine ⟨hnew, rfl, hsteps, hrange, ?_, fun _ => ?_⟩
    · refine List.forall_mem_append.mpr ⟨hm.stores, List.forall_mem_singleton.mpr ?_⟩
      rw [hup]
    · exact List.append_ne_nil_of_right_ne_nil _ (List.cons_ne_nil _ _)
  · rw [if_neg hi]
    exact ⟨hnew, rfl, hsteps, hrange, hm.stores, fun _ => hm.stored (by omega)⟩

/-- **The whole of `verify_brk`.** -/
theorem verifyBrk_spec (hk : Exact k) (hP : 0 < pageSize) :
    Spec (· = start b₀) (verifyBrk k pageSize)
      (fun v m => v = 1 ∧ ∃ cur, Cycling pageSize b₀ 33 cur m) (fun _ => False) := by
  rintro _ rfl
  have hloop : Spec (Cycling pageSize b₀ 0 b₀) (forTurns (turn k (pageSize * 2 - 1)) 0 33 b₀)
      (Spec.Turn (Cycling pageSize b₀ 33) fun _ _ => False) (fun _ => False) :=
    .forTurns 33 (fun i _ cur => turn_spec hk hP i cur) 33 0 b₀ rfl
  have hfirst : Cycling pageSize b₀ 0 b₀ ⟨b₀, [(b₀ : Int)], [], [.testing]⟩ := by
    refine ⟨rfl, rfl, rfl, ?_, nofun, nofun⟩
    exact List.forall_mem_singleton.mpr (breakAt_range hP 0)
  have hcur : ¬ (b₀ : Int) = -1 := by omega
  have h := hloop _ hfirst
  simp only [verifyBrk, exec_bind, printf, brk, sbrk, exec_act, hk.brk, hk.sbrk, start, hcur,
    ne_eq, not_true_eq_false, if_false, List.nil_append]
  generalize exec (forTurns (turn k (pageSize * 2 - 1)) 0 33 (b₀ : Int)) _ = r at h ⊢
  obtain ⟨_ | _ | v, m⟩ := r
  · exact h
  · have hcyc : Cycling pageSize b₀ 33 _ m := h
    exact ⟨rfl, _, hcyc.cur, hcyc.brk, hcyc.steps, hcyc.requests, hcyc.stores, hcyc.stored⟩
  · exact h.elim

end Cycle

/-! ## Where the stores are -/

/-- The break itself lies in a page of the process only if no page starts there. -/
theorem lt_pageEnd_self {pageSize : Nat} (hP : 0 < pageSize) (a : Int) :
    a < pageEnd pageSize a ↔ ¬ (pageSize : Int) ∣ a := by
  have hpos : (0 : Int) < pageSize := by omega
  rw [pageEnd]
  constructor
  · rintro h ⟨c, rfl⟩
    rw [show (pageSize : Int) * c + pageSize - 1 = (pageSize - 1) + pageSize * c by omega,
      Int.add_mul_ediv_left _ _ hpos.ne', Int.ediv_eq_zero_of_lt (by omega) (by omega), zero_add,
      Int.mul_comm] at h
    exact lt_irrefl _ h
  · intro h
    have hdiv := Int.mul_ediv_add_emod (a + pageSize - 1) pageSize
    have hlt := Int.emod_lt_of_pos (a + pageSize - 1) hpos
    rw [Int.mul_comm]
    by_contra hge
    -- then the rounding only takes off what it has added
    exact h ⟨(a + pageSize - 1) / pageSize, by omega⟩

/-- The top of the cycle is at the start of a page for one residue of `b₀`. -/
theorem dvd_top_iff (pageSize b₀ : Nat) :
    (pageSize : Int) ∣ b₀ + 2 * pageSize - 1 ↔ b₀ % pageSize = 1 % pageSize := by
  rw [show (b₀ : Int) + 2 * pageSize - 1 = (b₀ - 1) + pageSize * 2 by omega,
    Int.dvd_add_left (Dvd.intro 2 rfl), ← Int.modEq_iff_dvd, Int.modEq_comm]
  exact Int.natCast_modEq_iff

/-- **`brk01` stays inside its own break range**, where every `brk` does as it is told, if and
only if the initial break is not one byte behind the start of a page. -/
theorem staysInside_iff (k : Kernel) (hk : Exact k) (pageSize b₀ : Nat) (hP : 1 ≤ pageSize) :
    StaysInside pageSize b₀ (exec (verifyBrk k pageSize) (start b₀)) ↔
      b₀ % pageSize ≠ 1 % pageSize := by
  have hspec := verifyBrk_spec hk hP (start b₀) rfl
  rw [ne_eq, ← dvd_top_iff, ← lt_pageEnd_self hP]
  rcases he : exec (verifyBrk k pageSize) (start b₀) with ⟨_ | v, m⟩
  · rw [he] at hspec
    exact hspec.elim
  rw [he] at hspec
  obtain ⟨rfl, cur, hcyc⟩ := hspec
  constructor
  · intro h
    obtain ⟨s, hs⟩ := List.exists_mem_of_ne_nil _ (hcyc.stored (by omega))
    have hstore := h.stores s hs
    rw [hcyc.stores s hs] at hstore
    exact hstore
  · intro h
    refine ⟨rfl, hcyc.steps, hcyc.brk.trans hcyc.cur, hcyc.requests, fun s hs => ?_⟩
    rw [hcyc.stores s hs]
    exact h

/-- The kernel that does as it is told. -/
def Kernel.exact : Kernel := ⟨fun _ a => (0, a), Machine.brk⟩

theorem Kernel.exact_exact : Exact .exact := ⟨fun _ _ => rfl, fun _ => rfl⟩

/-- From an aligned break it stays inside. -/
theorem staysInside_aligned : StaysInside 4096 8192 (exec (verifyBrk .exact 4096) (start 8192)) :=
  (staysInside_iff .exact Kernel.exact_exact 4096 8192 (by decide)).mpr (by decide)

/-- From one byte behind the start of a page the first byte stored is in a page that the process
does not have. -/
theorem not_staysInside_offset : Exact .exact ∧
    ¬ StaysInside 4096 8193 (exec (verifyBrk .exact 4096) (start 8193)) := by
  refine ⟨Kernel.exact_exact, fun h => ?_⟩
  have hstore := h.stores ⟨16384, 16384⟩ (by decide +kernel)
  exact absurd hstore (by decide)

end Syscalls.Brk01
