import Mathlib.Data.List.Perm.Basic
import Mathlib.Data.List.Range
import Mathlib.Logic.Equiv.Basic

/-!
# Exchange sort

The doubly nested loop

    for i in range(n - 1):
        for j in range(i + 1, n):
            if out(l[i], l[j]): l[i], l[j] = l[j], l[i]

over any element type, for any comparison `out` ("these two are out of order").
Nothing is assumed of `out`, so the results here hold for a comparison that is not
an order as well.

- `sort_perm`: the loops permute the list.
- `sort_cons`: one round of the outer loop is a `pass`, which carries an element through
  the list and puts it down wherever it meets one that is `out` of order with it.
- `sort_pairwise_iff`: if elements that are not out of order stand in `le`, the result
  is sorted by `le` exactly when pairs of the input that are out of order are so for `le`.
-/

namespace ExchangeSort

universe u

variable {α : Type u}

/-- The index pairs in the order in which the two loops visit them. -/
def pairs (n : Nat) : List (Nat × Nat) :=
  (List.range (n - 1)).flatMap fun i => (List.range' (i + 1) (n - (i + 1))).map fun j => (i, j)

/-- One turn of the inner loop. -/
def step (out : α → α → Bool) (l : List α) (ij : Nat × Nat) : List α :=
  match l[ij.1]?, l[ij.2]? with
  | some x, some y => if out x y then (l.set ij.1 y).set ij.2 x else l
  | _, _ => l

/-- Both loops. -/
def sort (out : α → α → Bool) (l : List α) : List α :=
  (pairs l.length).foldl (step out) l

/-- The loops visit exactly the pairs `i < j` below `n`. -/
theorem mem_pairs {n i j : Nat} : (i, j) ∈ pairs n ↔ i < j ∧ j < n := by
  simp only [pairs, List.mem_flatMap, List.mem_range, List.mem_map, List.mem_range'_1,
    Prod.mk.injEq]
  constructor
  · rintro ⟨i', hi, j', hj, rfl, rfl⟩
    omega
  · rintro ⟨hij, hj⟩
    exact ⟨i, by omega, j, by omega, rfl, rfl⟩

theorem step_of_lt {out : α → α → Bool} {l : List α} {i j : Nat} (hi : i < l.length)
    (hj : j < l.length) :
    step out l (i, j) = if out l[i] l[j] then (l.set i l[j]).set j l[i] else l := by
  simp only [step, List.getElem?_eq_getElem hi, List.getElem?_eq_getElem hj]

@[simp] theorem length_step (out : α → α → Bool) (l : List α) (ij : Nat × Nat) :
    (step out l ij).length = l.length := by
  unfold step
  split
  · split <;> simp
  · rfl

/-- One turn permutes the list. -/
theorem step_perm (out : α → α → Bool) (l : List α) (ij : Nat × Nat) :
    (step out l ij).Perm l := by
  obtain ⟨i, j⟩ := ij
  by_cases hi : i < l.length
  · by_cases hj : j < l.length
    · rw [step_of_lt hi hj]
      split
      · exact List.set_set_perm hi hj
      · exact List.Perm.refl l
    · rw [step, List.getElem?_eq_none (Nat.not_lt.mp hj)]
      simp
  · rw [step, List.getElem?_eq_none (Nat.not_lt.mp hi)]

theorem foldl_step_perm (out : α → α → Bool) : ∀ (ps : List (Nat × Nat)) (l : List α),
    (ps.foldl (step out) l).Perm l
  | [], l => List.Perm.refl l
  | ij :: ps, l => (foldl_step_perm out ps (step out l ij)).trans (step_perm out l ij)

/-- **The loops permute the list**, whatever the comparison. -/
theorem sort_perm (out : α → α → Bool) (l : List α) : (sort out l).Perm l :=
  foldl_step_perm out _ l

/-- One turn moves the elements by a permutation of the positions. -/
theorem step_reorders (out : α → α → Bool) (l : List α) (ij : Nat × Nat) :
    ∃ σ : Equiv.Perm Nat, ∀ k, (step out l ij)[k]? = l[σ k]? := by
  obtain ⟨i, j⟩ := ij
  unfold step
  split
  · rename_i x y hi hj
    obtain ⟨hi', rfl⟩ := List.getElem?_eq_some_iff.mp hi
    obtain ⟨hj', rfl⟩ := List.getElem?_eq_some_iff.mp hj
    split
    · refine ⟨Equiv.swap i j, fun k => ?_⟩
      rw [Equiv.swap_apply_def]
      -- after the exchange position `j` has the old `i`, and the other way round
      by_cases hkj : k = j
      · subst hkj
        rw [List.getElem?_set_self (by simpa using hj')]
        split <;> simp_all
      · rw [List.getElem?_set_ne (Ne.symm hkj), if_neg hkj]
        by_cases hki : k = i
        · subst hki
          rw [List.getElem?_set_self hi', if_pos rfl, hj]
        · rw [List.getElem?_set_ne (Ne.symm hki), if_neg hki]
    · exact ⟨Equiv.refl Nat, fun k => rfl⟩
  · exact ⟨Equiv.refl Nat, fun k => rfl⟩

/-- Turns compose, and so do their permutations. -/
theorem foldl_step_reorders (out : α → α → Bool) : ∀ (ps : List (Nat × Nat)) (l : List α),
    ∃ σ : Equiv.Perm Nat, ∀ k, (ps.foldl (step out) l)[k]? = l[σ k]?
  | [], _ => ⟨Equiv.refl Nat, fun _ => rfl⟩
  | ij :: ps, l => by
    obtain ⟨σ, hσ⟩ := step_reorders out l ij
    obtain ⟨τ, hτ⟩ := foldl_step_reorders out ps (step out l ij)
    refine ⟨τ.trans σ, fun k => ?_⟩
    rw [List.foldl_cons, hτ, hσ]
    rfl

@[simp] theorem length_sort (out : α → α → Bool) (l : List α) : (sort out l).length = l.length :=
  (sort_perm out l).length_eq

/-! ## Loops over another representation -/

section Represented

variable {σ : Type u} {m : Type u → Type u} [Monad m] [LawfulMonad m] {out : α → α → Bool}
  {turn : σ → Nat × Nat → m σ} {repr : List α → σ}

/-- Turns that do on the representation of a list what `step` does on the list. -/
theorem foldlM_step (hturn : ∀ (l : List α) (i j : Nat), i < l.length → j < l.length →
      turn (repr l) (i, j) = pure (repr (step out l (i, j)))) :
    ∀ (ps : List (Nat × Nat)) (l : List α), (∀ ij ∈ ps, ij.1 < l.length ∧ ij.2 < l.length) →
      ps.foldlM turn (repr l) = pure (repr (ps.foldl (step out) l))
  | [], _, _ => rfl
  | (i, j) :: ps, l, h => by
    obtain ⟨hi, hj⟩ := h (i, j) List.mem_cons_self
    rw [List.foldlM_cons, hturn l i j hi hj, pure_bind, List.foldl_cons]
    refine foldlM_step hturn ps _ fun ij hij => ?_
    rw [length_step]
    exact h ij (List.mem_cons_of_mem _ hij)

/-- **The loops on a representation** of the list sort what is represented. -/
theorem foldlM_pairs (hturn : ∀ (l : List α) (i j : Nat), i < l.length → j < l.length →
      turn (repr l) (i, j) = pure (repr (step out l (i, j)))) (l : List α) :
    (pairs l.length).foldlM turn (repr l) = pure (repr (sort out l)) := by
  refine foldlM_step hturn _ l fun ij hij => ?_
  have h := mem_pairs.mp hij
  exact ⟨h.1.trans h.2, h.2⟩

end Represented

/-! ## Rounds of the outer loop -/

/-- One round: `m` is carried through the list and exchanged with the elements it is out
of order with. The result is the element carried at the end and the list left behind. -/
def pass (out : α → α → Bool) : α → List α → α × List α
  | m, [] => (m, [])
  | m, x :: xs =>
    if out m x then ((pass out x xs).1, m :: (pass out x xs).2)
    else ((pass out m xs).1, x :: (pass out m xs).2)

theorem pass_cons_of_out {out : α → α → Bool} {m x : α} (h : out m x) (xs : List α) :
    pass out m (x :: xs) = ((pass out x xs).1, m :: (pass out x xs).2) := if_pos h

theorem pass_cons_of_not_out {out : α → α → Bool} {m x : α} (h : ¬ out m x) (xs : List α) :
    pass out m (x :: xs) = ((pass out m xs).1, x :: (pass out m xs).2) := if_neg h

/-- A round permutes the list. -/
theorem pass_perm (out : α → α → Bool) : ∀ (l : List α) (m : α),
    ((pass out m l).1 :: (pass out m l).2).Perm (m :: l)
  | [], m => List.Perm.refl _
  | x :: xs, m => by
    by_cases h : out m x
    · rw [pass_cons_of_out h]
      exact (List.Perm.swap m _ _).trans ((pass_perm out xs x).cons m)
    · rw [pass_cons_of_not_out h]
      exact (List.Perm.swap x _ _).trans
        (((pass_perm out xs m).cons x).trans (List.Perm.swap m x xs))

@[simp] theorem length_pass (out : α → α → Bool) (m : α) (l : List α) :
    (pass out m l).2.length = l.length := by
  have h := (pass_perm out l m).length_eq
  simpa using h

/-- What a round carries out and what it leaves behind is what it was given. -/
theorem mem_pass (out : α → α → Bool) {m z : α} {l : List α} :
    z = (pass out m l).1 ∨ z ∈ (pass out m l).2 ↔ z = m ∨ z ∈ l := by
  simpa using (pass_perm out l m).mem_iff (a := z)

/-- The first round compares position `0` with each later one; the others are the
rounds for the tail. -/
theorem pairs_succ (n : Nat) :
    pairs (n + 1) = (List.range n).map (fun j => (0, j + 1))
      ++ (pairs n).map fun ij => (ij.1 + 1, ij.2 + 1) := by
  cases n with
  | zero => rfl
  | succ n =>
    have hshift : ∀ s k, List.range' (s + 1) k = (List.range' s k).map (· + 1) := by
      intro s k
      rw [Nat.add_comm s 1, ← List.map_add_range']
      exact List.map_congr_left fun j _ => Nat.add_comm 1 j
    have hlater : ∀ i, List.range' (i + 1 + 1) (n + 1 + 1 - (i + 1 + 1))
        = (List.range' (i + 1) (n + 1 - (i + 1))).map (· + 1) := by
      intro i
      rw [hshift, show n + 1 + 1 - (i + 1 + 1) = n + 1 - (i + 1) by omega]
    -- the first round compares position 0 with the others; the later rounds are those of the tail
    have hrounds : List.range (n + 1 + 1 - 1) = 0 :: (List.range (n + 1 - 1)).map (· + 1) :=
      List.range_succ_eq_map
    have hfirst : List.range' (0 + 1) (n + 1 + 1 - (0 + 1)) = (List.range (n + 1)).map (· + 1) := by
      rw [hshift, List.range_eq_range']
      rfl
    unfold pairs
    rw [hrounds, List.flatMap_cons, hfirst, List.map_map, List.flatMap_map, List.map_flatMap]
    simp only [hlater, List.map_map, Function.comp_def]

/-- A turn at two later positions leaves the head alone. -/
theorem step_cons (out : α → α → Bool) (m : α) (l : List α) (i j : Nat) :
    step out (m :: l) (i + 1, j + 1) = m :: step out l (i, j) := by
  unfold step
  simp only [List.getElem?_cons_succ]
  split
  · split <;> simp
  · rfl

theorem foldl_step_cons (out : α → α → Bool) (m : α) : ∀ (ps : List (Nat × Nat)) (l : List α),
    (ps.map fun ij => (ij.1 + 1, ij.2 + 1)).foldl (step out) (m :: l) = m :: ps.foldl (step out) l
  | [], _ => rfl
  | (i, j) :: ps, l => by
    rw [List.map_cons, List.foldl_cons, step_cons, foldl_step_cons out m ps, List.foldl_cons]

/-- The first round is a pass: the elements before position `done.length` are already
left behind. -/
theorem foldl_first (out : α → α → Bool) : ∀ (l : List α) (m : α) (done : List α),
    ((List.range' done.length l.length).map fun j => (0, j + 1)).foldl (step out)
        (m :: (done ++ l))
      = (pass out m l).1 :: (done ++ (pass out m l).2)
  | [], m, done => by simp [pass]
  | x :: xs, m, done => by
    have hturn : step out (m :: (done ++ x :: xs)) (0, done.length + 1)
        = if out m x then x :: (done ++ m :: xs) else m :: (done ++ x :: xs) := by
      unfold step
      simp
    have hnext : ∀ y : α, (done ++ [y]).length = done.length + 1 := by simp
    rw [List.length_cons, List.range'_succ, List.map_cons, List.foldl_cons, hturn]
    -- `m` is what stands at the first position by now
    by_cases h : out m x
    · have ih := foldl_first out xs x (done ++ [m])
      rw [hnext, List.append_assoc, List.append_assoc] at ih
      rw [if_pos h, pass_cons_of_out h]
      exact ih
    · have ih := foldl_first out xs m (done ++ [x])
      rw [hnext, List.append_assoc, List.append_assoc] at ih
      rw [if_neg h, pass_cons_of_not_out h]
      exact ih

@[simp] theorem sort_nil (out : α → α → Bool) : sort out [] = [] := rfl

/-- **The loops are passes**: a round over the whole list fixes the first element, and
the remaining rounds sort what the pass leaves behind. -/
theorem sort_cons (out : α → α → Bool) (m : α) (l : List α) :
    sort out (m :: l) = (pass out m l).1 :: sort out (pass out m l).2 := by
  have hround := foldl_first out l m []
  rw [List.nil_append, List.nil_append, List.length_nil, ← List.range_eq_range'] at hround
  rw [sort, List.length_cons, pairs_succ, List.foldl_append, hround, foldl_step_cons, sort,
    length_pass]

/-! ## Sorted by a preorder -/

section Order

variable {out : α → α → Bool} {le : α → α → Prop}

/-- Two elements, in this order, that are exchanged only if `le` puts them the other way
round. -/
def Faithful (out : α → α → Bool) (le : α → α → Prop) (x y : α) : Prop := out x y → le y x

section

variable (hrefl : ∀ x, le x x) (htrans : ∀ {x y z}, le x y → le y z → le x z)
  (hout : ∀ {x y}, ¬ out x y → le x y)

include hrefl htrans hout

/-- A round over a list in which all pairs are faithful carries out a least element, and
the pairs it leaves behind are faithful again. -/
theorem pass_faithful : ∀ (l : List α) (m : α), (m :: l).Pairwise (Faithful out le) →
    (∀ z ∈ (pass out m l).2, le (pass out m l).1 z) ∧ (pass out m l).2.Pairwise (Faithful out le)
  | [], m, _ => ⟨fun _ hz => absurd hz List.not_mem_nil, List.Pairwise.nil⟩
  | x :: xs, m, h => by
    obtain ⟨hm, hxs⟩ := List.pairwise_cons.mp h
    obtain ⟨hx, hrest⟩ := List.pairwise_cons.mp hxs
    by_cases hmx : out m x
    · -- `m` is put down in front of the rest and `x` is carried on
      obtain ⟨hleast, hpairs⟩ := pass_faithful xs x hxs
      have hcx : le (pass out x xs).1 x := by
        rcases (mem_pass out).mpr (.inl rfl) with heq | hmem
        · exact heq ▸ hrefl x
        · exact hleast x hmem
      rw [pass_cons_of_out hmx]
      refine ⟨List.forall_mem_cons.mpr ⟨?_, hleast⟩, List.pairwise_cons.mpr ⟨?_, hpairs⟩⟩
      · exact htrans hcx (hm x List.mem_cons_self hmx)
      · intro z hz
        exact hm z (List.mem_cons.mpr ((mem_pass out).mp (.inr hz)))
    · -- `m` is carried past `x`
      have hskip : (m :: xs).Pairwise (Faithful out le) :=
        List.pairwise_cons.mpr ⟨fun z hz => hm z (List.mem_cons_of_mem _ hz), hrest⟩
      obtain ⟨hleast, hpairs⟩ := pass_faithful xs m hskip
      have hcm : le (pass out m xs).1 m := by
        rcases (mem_pass out).mpr (.inl rfl) with heq | hmem
        · exact heq ▸ hrefl m
        · exact hleast m hmem
      rw [pass_cons_of_not_out hmx]
      refine ⟨List.forall_mem_cons.mpr ⟨?_, hleast⟩, List.pairwise_cons.mpr ⟨?_, hpairs⟩⟩
      · exact htrans hcm (hout hmx)
      · intro z hz
        rcases (mem_pass out).mp (.inr hz) with rfl | hmem
        · exact fun _ => hout hmx
        · exact hx z hmem

end

/-- An unfaithful pair survives every round that carries out a least element. -/
theorem faithful_of_pass (hout : ∀ {x y}, ¬ out x y → le x y) : ∀ (l : List α) (m : α),
    (∀ z ∈ (pass out m l).2, le (pass out m l).1 z) →
    (pass out m l).2.Pairwise (Faithful out le) → (m :: l).Pairwise (Faithful out le)
  | [], m, _, _ => List.pairwise_singleton _ m
  | x :: xs, m, hleast, hpairs => by
    by_cases hmx : out m x
    · rw [pass_cons_of_out hmx] at hleast hpairs
      obtain ⟨hcm, hleast⟩ := List.forall_mem_cons.mp hleast
      obtain ⟨hm, hpairs⟩ := List.pairwise_cons.mp hpairs
      refine List.pairwise_cons.mpr ⟨?_, faithful_of_pass hout xs x hleast hpairs⟩
      intro z hz
      -- `z` is carried out, and then least, or it stays behind `m`
      rcases (mem_pass out).mpr (List.mem_cons.mp hz) with rfl | hmem
      · exact fun _ => hcm
      · exact hm z hmem
    · rw [pass_cons_of_not_out hmx] at hleast hpairs
      obtain ⟨hcx, hleast⟩ := List.forall_mem_cons.mp hleast
      obtain ⟨hx, hpairs⟩ := List.pairwise_cons.mp hpairs
      obtain ⟨hm, hrest⟩ := List.pairwise_cons.mp (faithful_of_pass hout xs m hleast hpairs)
      have hxz : ∀ z ∈ xs, Faithful out le x z := by
        intro z hz
        rcases (mem_pass out (m := m)).mpr (.inr hz) with rfl | hmem
        · exact fun _ => hcx
        · exact hx z hmem
      refine List.pairwise_cons.mpr ⟨?_, List.pairwise_cons.mpr ⟨hxz, hrest⟩⟩
      exact List.forall_mem_cons.mpr ⟨fun h => absurd h hmx, hm⟩

/-- **When the loops sort**: if elements that are not out of order stand in the preorder
`le`, the result is sorted by `le` if and only if no two elements of the input are out of
order without `le` putting them the other way round. -/
theorem sort_pairwise_iff (hrefl : ∀ x, le x x) (htrans : ∀ {x y z}, le x y → le y z → le x z)
    (hout : ∀ {x y}, ¬ out x y → le x y) (l : List α) :
    (sort out l).Pairwise le ↔ l.Pairwise (Faithful out le) := by
  induction hn : l.length generalizing l with
  | zero =>
    rw [List.length_eq_zero_iff.mp hn]
    exact iff_of_true List.Pairwise.nil List.Pairwise.nil
  | succ n ih =>
    obtain ⟨m, l, rfl⟩ := List.exists_cons_of_length_eq_add_one hn
    have hlen : (pass out m l).2.length = n := by
      rw [length_pass]
      exact Nat.succ.inj hn
    have hmem : ∀ z, z ∈ sort out (pass out m l).2 ↔ z ∈ (pass out m l).2 :=
      fun z => (sort_perm out _).mem_iff
    rw [sort_cons, List.pairwise_cons, ih _ hlen]
    simp only [hmem]
    constructor
    · rintro ⟨hleast, hpairs⟩
      exact faithful_of_pass hout l m hleast hpairs
    · exact pass_faithful hrefl htrans hout l m

end Order

end ExchangeSort
