import UnikraftSuite.LinePaths
import UnikraftSuite.Provenance
import UnikraftSuite.Overlap

/-!
# What `verfunc` takes of a function

`verfunc` takes the body of a function to be `el.split("{")[1]`, the text between its first
two opening braces.

- `newline_not_mem_verfuncLine`: a rewritten line is one line again, so the lines of an
  output can be counted.
- `convertSegment_of_verify`, `convertSegment_of_plain`, `convertSegment_body`: what becomes
  of a segment, by its kind.
-/

namespace UnikraftSuite

open PyStr Substring Raise

/-! ## A rewritten line is one line -/

theorem newline_not_mem_verfuncLine {line l : Text} (h : '\n' ∉ line)
    (hl : verfuncLine line = .ok l) : '\n' ∉ l := by
  obtain ⟨l', hsafe, rfl⟩ := verfuncLine_eq_ok.mp hl
  have hstart : '\n' ∉ writeAll line := not_mem_replaced (by decide) (by decide) h
  have hcall := not_mem_rewriteSafe (by decide) (by decide) hstart hsafe
  have htest : '\n' ∉ tested "ret = ".toList l' := not_mem_tested (by decide) (by decide) hcall
  exact not_mem_replaced (by decide) (by decide) htest

theorem newline_not_mem_of_mem_split {s line : Text} (h : line ∈ split "\n".toList s) :
    '\n' ∉ line :=
  fun hmem => not_infix_of_mem_split (by decide) h ((List.singleton_infix_iff _ _).mpr hmem)

/-! ## A segment -/

theorem convertSegment_of_struct {el : Text} (h : "struct tst_test test".toList <:+: el) :
    convertSegment el = .ok [] := by
  unfold convertSegment
  exact if_pos h

theorem convertSegment_of_verify {el : Text} (hstruct : ¬ "struct tst_test test".toList <:+: el)
    (h : "verify".toList <:+: (split "\n".toList el).headD []) :
    convertSegment el = (verfunc el).map (· ++ "\n".toList) := by
  unfold convertSegment
  exact (if_neg hstruct).trans (if_pos h)

theorem convertSegment_of_plain {el : Text} (hstruct : ¬ "struct tst_test test".toList <:+: el)
    (h : ¬ "verify".toList <:+: (split "\n".toList el).headD []) :
    convertSegment el
      = ((split "\n".toList el).mapM convertLine).map (·.flatten ++ "\n".toList) := by
  unfold convertSegment
  exact (if_neg hstruct).trans (if_neg h)

/-- Of the test structure nothing comes out ... -/
theorem not_struct_of_converted {el out : Text} (hout : convertSegment el = .ok out)
    (hne : out ≠ []) : ¬ "struct tst_test test".toList <:+: el := by
  intro hin
  rw [convertSegment_of_struct hin] at hout
  exact hne (Except.ok.inj hout).symm

/-- ... and `verfunc` raises on a function without a body. -/
theorem brace_of_converted {el out : Text} (hout : convertSegment el = .ok out)
    (hstruct : ¬ "struct tst_test test".toList <:+: el)
    (h : "verify".toList <:+: (split "\n".toList el).headD []) : '{' ∈ el := by
  by_contra hno
  rw [convertSegment_of_verify hstruct h, verfunc_of_absent hno] at hout
  cases hout

/-- A verify function becomes its header, the declaration of `ret` and its rewritten body. -/
theorem convertSegment_body {el : Text} (hstruct : ¬ "struct tst_test test".toList <:+: el)
    (h : "verify".toList <:+: (split "\n".toList el).headD []) (hbrace : '{' ∈ el) :
    convertSegment el = (bodyText (behind el)).map fun t =>
      upTo el ++ "\x7b\n\tint ret;".toList ++ t ++ "\n".toList := by
  have hfun := verfunc_cut (not_mem_upTo el) (behind el)
  rw [← eq_upTo_behind hbrace] at hfun
  rw [convertSegment_of_verify hstruct h, hfun]
  cases bodyText (behind el) with
  | error e => rfl
  | ok t => rfl

end UnikraftSuite
