import Mathlib.Logic.Function.Basic

/-!
# Stores that keep the last write

A sequence of writes to named places, and what it leaves of a store: each place holds what has
been written to it last (`last`), or what it held before. Where a program may stop on its way
(`inTurn`), what it has written stays.
-/

namespace LastWrite

universe u v

variable {κ : Type u} {ν : Type v} [DecidableEq κ] {k : κ} {s : κ → Option ν}

/-- The store after the writes. -/
def store (s : κ → Option ν) (ws : List (κ × ν)) : κ → Option ν :=
  ws.foldl (fun s w => Function.update s w.1 (some w.2)) s

/-- What is written to the place last. -/
def last (k : κ) : List (κ × ν) → Option ν
  | [] => none
  | w :: ws => (last k ws).or (if w.1 = k then some w.2 else none)

theorem store_eq (ws : List (κ × ν)) (s : κ → Option ν) : store s ws k = (last k ws).or (s k) := by
  induction ws generalizing s with
  | nil => rfl
  | cons w ws ih =>
    show store (Function.update s w.1 (some w.2)) ws k = _
    rw [ih, last, Option.or_assoc]
    congr 1
    by_cases h : w.1 = k
    · rw [if_pos h, ← h, Function.update_self]
      rfl
    · rw [if_neg h, Function.update_of_ne (Ne.symm h)]
      rfl

theorem last_append (ws ws' : List (κ × ν)) : last k (ws ++ ws') = (last k ws').or (last k ws) := by
  induction ws with
  | nil => rw [List.nil_append, last, Option.or_none]
  | cons w ws ih => rw [List.cons_append, last, last, ih, Option.or_assoc]

/-- A place that nothing is written to. -/
theorem last_eq_none_iff {ws : List (κ × ν)} : last k ws = none ↔ ∀ w ∈ ws, w.1 ≠ k := by
  induction ws with
  | nil => simp [last]
  | cons w ws ih =>
    rw [last, Option.or_eq_none_iff, ih, List.forall_mem_cons, and_comm]
    refine and_congr_left fun _ => ?_
    split
    · next h => exact iff_of_false (Option.some_ne_none _) fun hne => hne h
    · next h => exact iff_of_true rfl h

theorem mem_of_last {ws : List (κ × ν)} {v : ν} (h : last k ws = some v) : (k, v) ∈ ws := by
  induction ws with
  | nil => cases h
  | cons w ws ih =>
    rw [last, Option.or_eq_some_iff] at h
    rcases h with h | ⟨-, h⟩
    · exact List.mem_cons_of_mem w (ih h)
    · split at h
      · next hk =>
        rw [← hk, ← Option.some.inj h]
        exact List.mem_cons_self
      · cases h

/-- Of several blocks of writes, the last one that writes to the place counts. -/
theorem last_flatMap {σ : Type*} (f : σ → List (κ × ν)) (l : List σ) :
    ((∀ a ∈ l, last k (f a) = none) ∧ last k (l.flatMap f) = none) ∨
      ∃ a ∈ l, ∃ v, last k (f a) = some v ∧ last k (l.flatMap f) = some v := by
  induction l with
  | nil => exact .inl ⟨fun a ha => absurd ha List.not_mem_nil, rfl⟩
  | cons a l ih =>
    rw [List.flatMap_cons, last_append]
    rcases ih with ⟨hnone, hl⟩ | ⟨b, hb, v, hv, hl⟩
    · rw [hl, Option.none_or]
      cases ha : last k (f a) with
      | none => exact .inl ⟨List.forall_mem_cons.mpr ⟨ha, hnone⟩, rfl⟩
      | some v => exact .inr ⟨a, List.mem_cons_self, v, ha, rfl⟩
    · rw [hl]
      exact .inr ⟨b, List.mem_cons_of_mem a hb, v, hv, rfl⟩

/-! ## Programs that stop on their way -/

variable {σ : Type*} {ω : Type*} {ε : Type*} (f : σ → List ω × Option ε)

/-- A loop over turns that each do something and may stop the program. -/
def inTurn : List σ → List ω × Option ε
  | [] => ([], none)
  | a :: l =>
    match f a with
    | (ops, none) => (ops ++ (inTurn l).1, (inTurn l).2)
    | (ops, some e) => (ops, some e)

variable {f}

/-- The program stops where the first turn does. -/
theorem inTurn_halt (l : List σ) : (inTurn f l).2 = l.findSome? fun a => (f a).2 := by
  induction l with
  | nil => rfl
  | cons a l ih =>
    rw [inTurn, List.findSome?_cons]
    rcases hf : f a with ⟨ops, _ | e⟩
    · exact ih
    · rfl

theorem inTurn_of_none {l : List σ} (h : ∀ a ∈ l, (f a).2 = none) :
    inTurn f l = (l.flatMap fun a => (f a).1, none) := by
  induction l with
  | nil => rfl
  | cons a l ih =>
    obtain ⟨ha, hl⟩ := List.forall_mem_cons.mp h
    rw [inTurn, List.flatMap_cons, ih hl]
    rcases hf : f a with ⟨ops, _ | e⟩
    · rfl
    · rw [hf] at ha
      cases ha

/-- What it does is done in one of its turns. -/
theorem mem_inTurn {l : List σ} {o : ω} (h : o ∈ (inTurn f l).1) : ∃ a ∈ l, o ∈ (f a).1 := by
  induction l with
  | nil => cases h
  | cons a l ih =>
    rw [inTurn] at h
    rcases hf : f a with ⟨ops, _ | e⟩
    · rw [hf] at h
      rcases List.mem_append.mp h with h | h
      · exact ⟨a, List.mem_cons_self, by rwa [hf]⟩
      · obtain ⟨b, hb, ho⟩ := ih h
        exact ⟨b, List.mem_cons_of_mem a hb, ho⟩
    · rw [hf] at h
      exact ⟨a, List.mem_cons_self, by rwa [hf]⟩

end LastWrite
