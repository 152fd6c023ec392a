import Mathlib.Algebra.GroupWithZero.Nat
import Mathlib.Data.List.Perm.Basic
import Mathlib.Data.List.Range

/-!
# Cutting a list into chunks

Two ways of cutting a list: `slices m k` takes `k` consecutive slices of the fixed width
`m`, and `cut` takes chunks of given sizes. Both give back the list when the widths add
up to its length (`flatten_slices`, `flatten_cut`), and a list cut to the same lengths is
cut the same way (`List.eq_iff_flatten_eq`).
-/

namespace Chunks

universe u v

variable {α : Type u} {γ : Type v}

/-- `l[a:b]`. -/
def slice (l : List α) (a b : Nat) : List α := (l.take b).drop a

/-- `[l[i*m:(i+1)*m] for i in range(k)]`. -/
def slices (m k : Nat) (l : List α) : List (List α) :=
  (List.range k).map fun i => slice l (i * m) ((i + 1) * m)

theorem map_slice (f : α → γ) (l : List α) (a b : Nat) :
    slice (l.map f) a b = (slice l a b).map f := by
  rw [slice, slice, List.map_drop, List.map_take]

theorem length_slice {l : List α} {a b : Nat} (h : b ≤ l.length) :
    (slice l a b).length = b - a := by
  rw [slice, List.length_drop, List.length_take, Nat.min_eq_left h]

/-- The slices are the list up to the end of the last one. -/
theorem flatten_slices (m : Nat) (l : List α) : ∀ k, (slices m k l).flatten = l.take (k * m)
  | 0 => by simp [slices]
  | k + 1 => by
    have hk := flatten_slices m l k
    unfold slices at hk ⊢
    rw [List.range_succ, List.map_append, List.flatten_append, hk]
    have hle : k * m ≤ (k + 1) * m := Nat.mul_le_mul_right m (Nat.le_succ k)
    have hcut := List.take_append_drop (k * m) (l.take ((k + 1) * m))
    rw [List.take_take, Nat.min_eq_left hle] at hcut
    simpa [slice] using hcut

theorem map_length_slices {m k : Nat} {l : List α} (h : k * m ≤ l.length) :
    (slices m k l).map List.length = List.replicate k m := by
  rw [slices, List.map_map, List.eq_replicate_iff]
  refine ⟨by simp, fun n hn => ?_⟩
  obtain ⟨i, hi, rfl⟩ := List.mem_map.mp hn
  have hle : (i + 1) * m ≤ l.length := (Nat.mul_le_mul_right m (List.mem_range.mp hi)).trans h
  rw [Function.comp_apply, length_slice hle, Nat.succ_mul]
  omega

/-- Chunks of the given sizes. -/
def cut : List Nat → List α → List (List α)
  | [], _ => []
  | s :: ss, l => l.take s :: cut ss (l.drop s)

theorem flatten_cut : ∀ {ss : List Nat} {l : List α}, ss.sum = l.length → (cut ss l).flatten = l
  | [], l, h => (List.length_eq_zero_iff.mp h.symm).symm
  | s :: ss, l, h => by
    have hrest : ss.sum = (l.drop s).length := by
      rw [List.length_drop, ← h, List.sum_cons]
      omega
    rw [cut, List.flatten_cons, flatten_cut hrest, List.take_append_drop]

theorem map_length_cut : ∀ {ss : List Nat} {l : List α}, ss.sum = l.length →
    (cut ss l).map List.length = ss
  | [], _, _ => rfl
  | s :: ss, l, h => by
    rw [List.sum_cons] at h
    have hrest : ss.sum = (l.drop s).length := by
      rw [List.length_drop]
      omega
    rw [cut, List.map_cons, map_length_cut hrest, List.length_take, Nat.min_eq_left (by omega)]

end Chunks
