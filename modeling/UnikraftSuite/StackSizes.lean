import UnikraftSuite.Programs
import Mathlib.Order.Bounds.Basic

/-!
# The stack sizes of `mmap18`

`run_test` should round `PTHREAD_STACK_MIN` up to whole pages, but it divides the page size by
it. What `allocate_stack` computes from a size of whole pages would be right:

- `placed`: if `pthread_stack` is a multiple of the page size, every call of `allocate_stack`
  maps whole pages, at an aligned address and inside the reserved range.
- `stackArithmetic_iff`: it is the least multiple that is large enough for one pair of page
  size and minimum only.
-/

namespace UnikraftSuite

namespace Mmap18

/-! ## Addresses and sizes -/

/-- The arguments `stack_size` and `mapped_size` of the calls of `allocate_stack`, each of them
made in `grow_stack_success` and in `grow_stack_fail`. -/
def Sizes.allocations (z : Sizes) : List (Nat × Nat) :=
  [(z.stackSize, z.pthreadStack), (z.stackSize, z.stackSize / 2)]

/-- `start + reserved_size - mapped_size`, where `allocate_stack` maps with `MAP_FIXED`. -/
def mappingStart (z : Sizes) (stackSize mappedSize : Nat) (start : BitVec 64) : BitVec 64 :=
  start + BitVec.ofNat 64 (z.reserved stackSize) - BitVec.ofNat 64 mappedSize

/-- `n` bytes from `a` on lie in the `size` bytes from `start` on. -/
def Within (start : BitVec 64) (size : Nat) (a : BitVec 64) (n : Nat) : Prop :=
  start.toNat ≤ a.toNat ∧ a.toNat + n ≤ start.toNat + size

/-- A call of `allocate_stack`: whole pages, an aligned mapping, and everything inside the range
that has been reserved, wherever that is. -/
structure Placed (z : Sizes) (stackSize mappedSize : Nat) : Prop where
  stack : z.pageSize ∣ stackSize
  mapped : z.pageSize ∣ mappedSize
  le : mappedSize ≤ stackSize
  aligned : ∀ start : BitVec 64, start.toNat + z.reserved stackSize < 2 ^ 64 →
    z.pageSize ∣ start.toNat → z.pageSize ∣ (mappingStart z stackSize mappedSize start).toNat
  inside : ∀ start : BitVec 64, start.toNat + z.reserved stackSize < 2 ^ 64 →
    Within start (z.reserved stackSize) (stackBottom z stackSize start) stackSize ∧
    Within start (z.reserved stackSize) (mappingStart z stackSize mappedSize start) mappedSize ∧
    Within start (z.reserved stackSize) (stackBottom z stackSize start) z.pageSize

/-- `pthread_stack` is the least multiple of the page size that is at least
`PTHREAD_STACK_MIN`, and every call of `allocate_stack` is as it should be. -/
structure StackArithmetic (z : Sizes) : Prop where
  least : IsLeast {n | z.pageSize ∣ n ∧ z.pthreadStackMin ≤ n} z.pthreadStack
  calls : ∀ c ∈ z.allocations, Placed z c.1 c.2

/-! ## From whole pages -/

/-- `start + reserved_size - n`, as a number. -/
theorem toNat_sub_end {start : BitVec 64} {reserved n : Nat} (hn : n ≤ reserved)
    (h : start.toNat + reserved < 2 ^ 64) :
    (start + BitVec.ofNat 64 reserved - BitVec.ofNat 64 n).toNat
      = start.toNat + (reserved - n) := by
  rw [BitVec.toNat_sub, BitVec.toNat_add, BitVec.toNat_ofNat, BitVec.toNat_ofNat]
  omega

/-- **What follows from whole pages**, for a call with a mapping no larger than the stack. -/
theorem placed {z : Sizes} {stackSize mappedSize : Nat} (hstack : z.pageSize ∣ stackSize)
    (hmapped : z.pageSize ∣ mappedSize) (hle : mappedSize ≤ stackSize) (hpos : 0 < stackSize) :
    Placed z stackSize mappedSize := by
  have hreserved : z.reserved stackSize = 256 * z.pageSize + stackSize := rfl
  have hpage : z.pageSize ≤ stackSize := Nat.le_of_dvd hpos hstack
  refine ⟨hstack, hmapped, hle, fun start h hstart => ?_, fun start h => ?_⟩
  · have hend : z.pageSize ∣ z.reserved stackSize :=
      Nat.dvd_add (Nat.dvd_mul_left _ _) hstack
    rw [mappingStart, toNat_sub_end (by omega) h]
    exact Nat.dvd_add hstart (Nat.dvd_sub hend hmapped)
  · rw [Within, Within, Within, stackBottom, mappingStart, toNat_sub_end (by omega) h,
      toNat_sub_end (by omega) h]
    omega

/-- Each call of `allocate_stack` gets whole pages from a `pthread_stack` of whole pages. -/
theorem placed_allocations {z : Sizes} (h : z.pageSize ∣ z.pthreadStack) :
    ∀ c ∈ z.allocations, Placed z c.1 c.2 := by
  have hpos : 0 < z.pthreadStack := Nat.succ_pos _
  have hstack : z.stackSize = 8 * z.pthreadStack := rfl
  have hhalf : z.stackSize / 2 = 4 * z.pthreadStack := by omega
  have hdvd : z.pageSize ∣ z.stackSize := hstack ▸ Dvd.dvd.mul_left h 8
  refine List.forall_mem_cons.mpr ⟨?_, List.forall_mem_singleton.mpr ?_⟩
  · exact placed hdvd h (by dsimp only; omega) (by dsimp only; omega)
  · exact placed hdvd (hhalf ▸ Dvd.dvd.mul_left h 4) (by dsimp only; omega) (by dsimp only; omega)

/-! ## The size computed -/

/-- The quotient the wrong way round is large enough and of whole pages once only. -/
theorem eq_two_of_least {p m : Nat} (h : IsLeast {n | p ∣ n ∧ m ≤ n} (p / m + 1)) :
    p = 2 ∧ m = 2 := by
  obtain ⟨⟨hdvd, hle⟩, hleast⟩ := h
  have hpage : p ≤ p / m + 1 := Nat.le_of_dvd (Nat.succ_pos _) hdvd
  by_cases hmp : m ≤ p
  · -- one page is enough
    have hone : p / m + 1 ≤ p := hleast ⟨Nat.dvd_refl p, hmp⟩
    have hmul : p / m * m ≤ p := Nat.div_mul_le_self p m
    match m with
    | 0 =>
      have hnone : p / 0 + 1 ≤ 0 := hleast ⟨Nat.dvd_zero p, Nat.le_refl 0⟩
      omega
    | 1 =>
      rw [Nat.div_one] at hone
      omega
    | m + 2 =>
      have htwo : p / (m + 2) * 2 ≤ p / (m + 2) * (m + 2) := Nat.mul_le_mul_left _ (by omega)
      omega
  · -- the quotient is 0, and one byte is not enough
    rw [Nat.div_eq_of_lt (Nat.lt_of_not_le hmp), Nat.zero_add] at hle hdvd
    have hp : p = 1 := Nat.dvd_one.mp hdvd
    omega

/-- **The arithmetic of `mmap18`** is right for a page of two bytes and a minimum of two bytes,
and for no other sizes. -/
theorem stackArithmetic_iff (z : Sizes) :
    StackArithmetic z ↔ z.pageSize = 2 ∧ z.pthreadStackMin = 2 := by
  constructor
  · exact fun h => eq_two_of_least h.least
  · obtain ⟨p, m⟩ := z
    rintro ⟨rfl, rfl⟩
    have hsize : Sizes.pthreadStack ⟨2, 2⟩ = 2 := rfl
    refine ⟨⟨?_, fun n hn => ?_⟩, placed_allocations (by decide)⟩
    · rw [hsize]
      exact ⟨Nat.dvd_refl 2, Nat.le_refl 2⟩
    · rw [hsize]
      exact hn.2

/-- Pages of 4096 bytes and a minimum of 16384: `pthread_stack` is one byte. -/
theorem not_stackArithmetic_pages : ¬ StackArithmetic ⟨4096, 16384⟩ := by
  intro h
  have hle : 16384 ≤ Sizes.pthreadStack ⟨4096, 16384⟩ := h.least.1.2
  exact absurd hle (by decide)

end Mmap18

end UnikraftSuite
