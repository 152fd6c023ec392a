import UnikraftSuite.Lib.PyStr
import Mathlib.Data.List.DropRight

/-!
# Python's `str(n)` and `int(s)` for decimal integers

`str` renders an integer and `int` reads one back. `int` accepts what Python
accepts in ASCII: surrounding white space, one sign, and single underscores
between digits; anything else is a `ValueError`, here `none`. The round trip is
`int_str`.
-/

namespace PyStr

/-- `str(n)`. -/
def str : Int → Text
  | .ofNat n => Nat.toDigits 10 n
  | .negSucc n => '-' :: Nat.toDigits 10 (n + 1)

/-- The ASCII characters `int` strips. -/
def isSpace (c : Char) : Bool :=
  c == ' ' || (9 ≤ c.toNat && c.toNat ≤ 13) || (28 ≤ c.toNat && c.toNat ≤ 31)

/-- `s.strip()`. -/
def strip (s : Text) : Text := (s.dropWhile isSpace).rdropWhile isSpace

instance decidableDigits (w : Text) : Decidable (∀ c ∈ w, c.isDigit) := List.decidableBAll _ w

/-- The value of an unsigned decimal literal: digits, with single underscores
allowed between them. -/
def digitsValue (s : Text) : Option Nat :=
  if ∀ w ∈ split ['_'] s, w ≠ [] ∧ ∀ c ∈ w, c.isDigit then
    some (Nat.ofDigitChars 10 (split ['_'] s).flatten 0)
  else none

/-- `int(s)`; `none` is a `ValueError`. -/
def int (s : Text) : Option Int :=
  match strip s with
  | '-' :: ds => (digitsValue ds).map fun n => -(n : Int)
  | '+' :: ds => (digitsValue ds).map fun n => (n : Int)
  | ds => (digitsValue ds).map fun n => (n : Int)

theorem isDigit_of_mem_str {n : Nat} {c : Char} (h : c ∈ str n) : c.isDigit :=
  Nat.isDigit_of_mem_toDigits (by decide) (by decide) h

theorem str_ne_nil (n : Nat) : str n ≠ [] := Nat.toDigits_ne_nil

/-- A character that is not a digit occurs in no rendering of a natural number. -/
theorem not_mem_str {c : Char} (hc : c.isDigit = false) (n : Nat) : c ∉ str n := by
  intro h
  rw [isDigit_of_mem_str h] at hc
  cases hc

theorem str_injective {m n : Nat} (h : str m = str n) : m = n := by
  have hv := congrArg (fun ds => Nat.ofDigitChars 10 ds 0) h
  simpa [str, Nat.ofDigitChars_toDigits] using hv

theorem isSpace_of_isDigit {c : Char} (h : c.isDigit) : isSpace c = false := by
  have h' : 48 ≤ c.toNat ∧ c.toNat ≤ 57 := Char.isDigit_iff_toNat.mp h
  have hs : c ≠ ' ' := by
    rintro rfl
    exact absurd h (by decide)
  simp only [isSpace, Bool.or_eq_false_iff, Bool.and_eq_false_iff, decide_eq_false_iff_not,
    beq_eq_false_iff_ne]
  refine ⟨⟨hs, ?_⟩, ?_⟩ <;> omega

theorem strip_of_digits {s : Text} (h : ∀ c ∈ s, c.isDigit) : strip s = s := by
  have hl : s.dropWhile isSpace = s := by
    cases s with
    | nil => rfl
    | cons c s =>
      rw [List.dropWhile_cons_of_neg]
      simp [isSpace_of_isDigit (h c List.mem_cons_self)]
  rw [strip, hl, List.rdropWhile_eq_self_iff]
  intro hne
  simp [isSpace_of_isDigit (h _ (List.getLast_mem hne))]

theorem digitsValue_str (n : Nat) : digitsValue (str n) = some n := by
  have hsplit : split ['_'] (str n) = [str n] :=
    split_char_of_not_mem (not_mem_str (by decide) n)
  have hok : ∀ w ∈ split ['_'] (str n), w ≠ [] ∧ ∀ c ∈ w, c.isDigit := by
    intro w hw
    rw [hsplit, List.mem_singleton] at hw
    subst hw
    exact ⟨str_ne_nil n, fun c hc => isDigit_of_mem_str hc⟩
  rw [digitsValue, if_pos hok, hsplit, List.flatten_singleton]
  exact congrArg some (Nat.ofDigitChars_toDigits (by decide) (by decide))

/-- **Round trip**: reading a rendered natural number gives it back. -/
theorem int_str (n : Nat) : int (str n) = some (n : Int) := by
  have hdig : ∀ c ∈ str n, c.isDigit := fun c hc => isDigit_of_mem_str hc
  have hstrip := strip_of_digits hdig
  have hval := digitsValue_str n
  obtain ⟨c, ds, hc⟩ := List.exists_cons_of_ne_nil (str_ne_nil n)
  have hcd : c.isDigit := hdig c (hc ▸ List.mem_cons_self)
  rw [int, hstrip]
  split
  · next ds' heq =>
    rw [hc, List.cons.injEq] at heq
    exact absurd (heq.1 ▸ hcd) (by decide)
  · next ds' heq =>
    rw [hc, List.cons.injEq] at heq
    exact absurd (heq.1 ▸ hcd) (by decide)
  · rw [hval]
    rfl

end PyStr
