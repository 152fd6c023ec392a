import Mathlib.Data.List.Basic

/-!
# Closing parentheses

A text is read from the left with the number of open parentheses. `depthFrom` follows this
number and fails at a parenthesis that closes nothing; `dropClosing` drops the first such
parenthesis, so that a text behind an opening one loses what closes it.
-/

namespace Parens

/-- The number of open parentheses behind a text that begins inside of `d`. -/
def depthFrom : Nat → List Char → Option Nat
  | d, [] => some d
  | d, c :: s =>
    if c = '(' then depthFrom (d + 1) s
    else if c = ')' then (if d = 0 then none else depthFrom (d - 1) s)
    else depthFrom d s

/-- Every parenthesis of the text has its partner in it. -/
def Balanced (s : List Char) : Prop := depthFrom 0 s = some 0

instance (s : List Char) : Decidable (Balanced s) := inferInstanceAs (Decidable (_ = _))

/-- The text, which begins inside of `d` parentheses of its own, without the first
parenthesis that closes none of them. -/
def dropClosing : Nat → List Char → List Char
  | _, [] => []
  | d, c :: s =>
    if c = '(' then c :: dropClosing (d + 1) s
    else if c = ')' then (if d = 0 then s else c :: dropClosing (d - 1) s)
    else c :: dropClosing d s

theorem depthFrom_append (d : Nat) (s t : List Char) :
    depthFrom d (s ++ t) = (depthFrom d s).bind (depthFrom · t) := by
  induction s generalizing d with
  | nil => rfl
  | cons c s ih =>
    simp only [List.cons_append, depthFrom]
    split_ifs <;> first | exact ih _ | rfl

/-- A text that closes nothing outside of it is kept. -/
theorem dropClosing_append {d d' : Nat} {s : List Char} (h : depthFrom d s = some d')
    (t : List Char) : dropClosing d (s ++ t) = s ++ dropClosing d' t := by
  induction s generalizing d with
  | nil => rw [Option.some.inj h, List.nil_append, List.nil_append]
  | cons c s ih =>
    rw [depthFrom] at h
    rw [List.cons_append, dropClosing, List.cons_append]
    split_ifs at h ⊢ <;> rw [ih h]

/-- The parenthesis behind a balanced text is the one that is dropped. -/
theorem dropClosing_close {s : List Char} (h : Balanced s) (t : List Char) :
    dropClosing 0 (s ++ ')' :: t) = s ++ t := by
  rw [dropClosing_append h]
  rfl

/-- Any part of a balanced text that begins it closes nothing outside. -/
theorem Balanced.depthFrom_prefix {s t : List Char} (h : Balanced (s ++ t)) :
    ∃ d, depthFrom 0 s = some d := by
  rw [Balanced, depthFrom_append] at h
  obtain ⟨d, hd, -⟩ := Option.bind_eq_some_iff.mp h
  exact ⟨d, hd⟩

theorem depthFrom_of_not_mem {s : List Char} (ho : '(' ∉ s) (hc : ')' ∉ s) (d : Nat) :
    depthFrom d s = some d := by
  induction s with
  | nil => rfl
  | cons c s ih =>
    rw [List.mem_cons, not_or] at ho hc
    rw [depthFrom, if_neg (Ne.symm ho.1), if_neg (Ne.symm hc.1)]
    exact ih ho.2 hc.2

/-- Only parentheses are dropped, and a word that has none separates the texts. -/
theorem dropClosing_append_word {w : List Char} (ho : '(' ∉ w) (hc : ')' ∉ w) (d : Nat)
    (s t : List Char) : ∃ u v, dropClosing d (s ++ (w ++ t)) = u ++ (w ++ v) ∧
      ∀ x, x ≠ ')' → u.count x = s.count x := by
  induction s generalizing d with
  | nil =>
    refine ⟨[], dropClosing d t, ?_, fun _ _ => rfl⟩
    rw [List.nil_append, dropClosing_append (depthFrom_of_not_mem ho hc d), List.nil_append]
  | cons x s ih =>
    have hkeep : ∀ d, ∃ u v, x :: dropClosing d (s ++ (w ++ t)) = u ++ (w ++ v) ∧
        ∀ y, y ≠ ')' → u.count y = (x :: s).count y := by
      intro d
      obtain ⟨u, v, heq, hcount⟩ := ih d
      refine ⟨x :: u, v, by rw [heq, List.cons_append], fun y hy => ?_⟩
      rw [List.count_cons, List.count_cons, hcount y hy]
    rw [List.cons_append, dropClosing]
    split_ifs with hopen hclose hzero
    · exact hkeep _
    · refine ⟨s, t, rfl, fun y hy => ?_⟩
      rw [List.count_cons_of_ne (hclose ▸ hy.symm)]
    · exact hkeep _
    · exact hkeep _

theorem dropClosing_append_cons {c : Char} (ho : c ≠ '(') (hc : c ≠ ')') (d : Nat)
    (s t : List Char) :
    ∃ u v, dropClosing d (s ++ c :: t) = u ++ c :: v ∧ ∀ x, x ≠ ')' → u.count x = s.count x :=
  dropClosing_append_word (w := [c]) (by simpa using ho.symm) (by simpa using hc.symm) d s t

theorem count_dropClosing {x : Char} (hx : x ≠ ')') (d : Nat) (s : List Char) :
    (dropClosing d s).count x = s.count x := by
  induction s generalizing d with
  | nil => rfl
  | cons c s ih =>
    rw [dropClosing]
    split_ifs with hopen hclose hzero
    · rw [List.count_cons, List.count_cons, ih]
    · rw [List.count_cons_of_ne (hclose ▸ hx.symm)]
    · rw [List.count_cons, List.count_cons, ih]
    · rw [List.count_cons, List.count_cons, ih]

example : dropClosing 0 "f(a, (b)));".toList = "f(a, (b));".toList := by decide

end Parens
