import UnikraftSuite.Convert

/-!
# Which texts the segment loop gets through

Every rewriting step of `convert.py` takes the second piece of a split. Behind a test for
the separator there is one, so the only accesses that can fail are the argument of a `SAFE_`
call, when no parenthesis follows (`SafeDefect`), and the body of a function, when there
is no brace.

The lemmas go bottom up: a line (`convertLine_returns_iff`, `verfuncLine_returns_iff`), a
function (`verfunc_returns_iff`), a segment (`convertSegment_returns_iff`), a text
(**`convertText_returns_iff`**).
-/

namespace UnikraftSuite

open PyStr Substring Raise

/-- A text with the separator in it has at least two pieces. -/
theorem split_of_infix {sep s : Text} (hsep : sep ≠ []) (h : sep <:+: s) :
    ∃ a b bs, split sep s = a :: b :: bs := by
  obtain ⟨a, r, rfl, ha⟩ := exists_cut hsep h
  obtain ⟨b, bs, hb⟩ := List.exists_cons_of_ne_nil (split_ne_nil sep r)
  exact ⟨a, b, bs, by rw [split_cut hsep ha, hb]⟩

/-- The line that `replaceFirst` returns. -/
def replaced (sep new line : Text) : Text :=
  if sep <:+: line then (split sep line).headD [] ++ new ++ (split sep line).getD 1 [] else line

/-- Behind the test for the separator nothing is out of range. -/
theorem replaceFirst_eq {sep : Text} (hsep : sep ≠ []) (new line : Text) :
    replaceFirst sep new line = .ok (replaced sep new line) := by
  unfold replaceFirst replaced
  split
  · rename_i h
    obtain ⟨a, b, bs, hsplit⟩ := split_of_infix hsep h
    rw [hsplit]
    rfl
  · rfl

theorem replaced_of_absent {sep new line : Text} (h : ¬ sep <:+: line) :
    replaced sep new line = line := if_neg h

/-- A shorter replacement makes the line shorter. -/
theorem length_replaced {sep new line : Text} (hlen : new.length < sep.length)
    (h : sep <:+: line) : (replaced sep new line).length < line.length := by
  have hsep : sep ≠ [] := by
    rintro rfl
    exact Nat.not_lt_zero _ hlen
  obtain ⟨a, r, rfl, ha⟩ := exists_cut hsep h
  obtain ⟨b, bs, hb⟩ := List.exists_cons_of_ne_nil (split_ne_nil sep r)
  have hb' : b.length ≤ r.length :=
    (infix_of_mem_split (x := b) (s := r) hsep (by rw [hb]; exact List.mem_cons_self)).length_le
  rw [replaced, if_pos h, split_cut hsep ha, hb]
  simp only [List.headD_cons, List.getD_cons_succ, List.getD_cons_zero, List.length_append]
  omega

theorem length_replaced_le {sep new line : Text} (hlen : new.length < sep.length) :
    (replaced sep new line).length ≤ line.length := by
  by_cases h : sep <:+: line
  · exact (length_replaced hlen h).le
  · rw [replaced_of_absent h]

/-- A replacement that shortens leaves the line as it is only if there is none. -/
theorem replaced_eq_self_iff {sep new line : Text} (hlen : new.length < sep.length) :
    replaced sep new line = line ↔ ¬ sep <:+: line := by
  constructor
  · intro heq h
    have hlt := length_replaced hlen h
    rw [heq] at hlt
    exact Nat.lt_irrefl _ hlt
  · exact replaced_of_absent

theorem rewriteTest_returns (pre line : Text) : Returns (rewriteTest pre line) := by
  unfold rewriteTest
  split
  · rename_i h
    obtain ⟨a, b, bs, hsplit⟩ := split_of_infix (by decide) h
    rw [hsplit]
    exact returns_ok _
  · exact returns_pure _

/-- A `SAFE_` without a parenthesis between it and the next `SAFE_`. -/
def SafeDefect (line : Text) : Prop :=
  "SAFE_".toList <:+: line ∧ '(' ∉ (split "SAFE_".toList line).getD 1 []

instance (line : Text) : Decidable (SafeDefect line) := inferInstanceAs (Decidable (_ ∧ _))

theorem rewriteTest_of_absent (pre : Text) {line : Text} (h : ¬ "TEST(".toList <:+: line) :
    rewriteTest pre line = .ok line := if_neg h

theorem rewriteSafe_of_absent {line : Text} (h : ¬ "SAFE_".toList <:+: line) :
    rewriteSafe line = .ok line := if_neg h

/-- What the loop over `aux1` adds when there are more than two pieces. -/
def repeated (arg : Text) (more : List Text) : Text :=
  if more = [] then [] else arg ++ more.flatten

/-- The line that `rewriteSafe` returns, by the pieces of its two splits. -/
theorem rewriteSafe_cut {line before call name arg : Text} {rest more : List Text}
    (hline : split "SAFE_".toList line = before :: call :: rest)
    (hcall : split "(".toList call = name :: arg :: more) :
    rewriteSafe line
      = .ok (before ++ lower name ++ "(".toList ++ arg ++ repeated arg more) := by
  have hin : "SAFE_".toList <:+: line := by
    by_contra h
    rw [split_of_absent h] at hline
    cases hline
  rw [rewriteSafe, if_pos hin, hline]
  show (getIdx (split "(".toList call) 1 >>= fun arg => _) = _
  rw [hcall]
  cases more with
  | nil => exact congrArg Except.ok (List.append_nil _).symm
  | cons y ys => rfl

/-- A line that `rewriteSafe` returns for has such pieces, or no `SAFE_`. -/
theorem rewriteSafe_cases {line l : Text} (h : rewriteSafe line = .ok l) :
    (¬ "SAFE_".toList <:+: line ∧ l = line) ∨
    ∃ before call name arg rest more, split "SAFE_".toList line = before :: call :: rest ∧
      split "(".toList call = name :: arg :: more ∧
      l = before ++ lower name ++ "(".toList ++ arg ++ repeated arg more := by
  by_cases hin : "SAFE_".toList <:+: line
  · obtain ⟨before, call, rest, hline⟩ := split_of_infix (by decide) hin
    by_cases hparen : '(' ∈ call
    · obtain ⟨name, arg, more, hcall⟩ := split_of_infix (by decide : "(".toList ≠ [])
        ((List.singleton_infix_iff _ _).mpr hparen)
      rw [rewriteSafe_cut hline hcall] at h
      exact .inr ⟨before, call, name, arg, rest, more, hline, hcall, (Except.ok.inj h).symm⟩
    · -- without a parenthesis the argument is out of range
      have hone : split "(".toList call = [call] := split_char_of_not_mem hparen
      rw [rewriteSafe, if_pos hin, hline] at h
      obtain ⟨call', hcall, h⟩ := bind_eq_ok.mp h
      cases hcall
      obtain ⟨arg, harg, -⟩ := bind_eq_ok.mp h
      rw [hone] at harg
      cases harg
  · rw [rewriteSafe_of_absent hin] at h
    exact .inl ⟨hin, (Except.ok.inj h).symm⟩

theorem rewriteSafe_returns_iff (line : Text) : Returns (rewriteSafe line) ↔ ¬ SafeDefect line := by
  by_cases h : "SAFE_".toList <:+: line
  · obtain ⟨a, b, bs, hsplit⟩ := split_of_infix (by decide) h
    have hdefect : SafeDefect line ↔ '(' ∉ b := by
      rw [SafeDefect, hsplit]
      exact and_iff_right h
    rw [rewriteSafe, if_pos h, hsplit, hdefect, not_not]
    show Returns (getIdx (split "(".toList b) 1 >>= fun arg => _) ↔ '(' ∈ b
    rw [returns_bind_of_total fun arg => returns_pure _, returns_getIdx]
    by_cases hb : '(' ∈ b
    · have hparen : "(".toList <:+: b := (List.singleton_infix_iff _ _).mpr hb
      obtain ⟨a', b', bs', hsplit'⟩ := split_of_infix (by decide) hparen
      rw [hsplit']
      exact iff_of_true (by simp) hb
    · have hone : split "(".toList b = [b] := split_char_of_not_mem hb
      rw [hone]
      exact iff_of_false (by simp) hb
  · rw [rewriteSafe_of_absent h]
    exact iff_of_true (returns_ok _) fun hd => h hd.1

/-- A line is converted unless it is not passed over and has a defect. -/
theorem convertLine_returns_iff (line : Text) :
    Returns (convertLine line) ↔ skipLine line ∨ ¬ SafeDefect line := by
  unfold convertLine
  split
  · rename_i h
    exact iff_of_true (returns_pure _) (.inl h)
  · rename_i h
    rw [or_iff_right h, ← rewriteSafe_returns_iff]
    refine returns_bind_of_total fun line => ?_
    rw [replaceFirst_eq (by decide), ok_bind, returns_bind_of_total fun line => returns_pure _]
    exact rewriteTest_returns _ _

/-- A line of a verify function after its first `SAFE_WRITE_ALL` became `1`. -/
def writeAll (line : Text) : Text := replaced "SAFE_WRITE_ALL".toList "1".toList line

theorem verfuncLine_returns_iff (line : Text) :
    Returns (verfuncLine line) ↔ ¬ SafeDefect (writeAll line) := by
  rw [verfuncLine, replaceFirst_eq (by decide), ok_bind, ← rewriteSafe_returns_iff]
  refine returns_bind_of_total fun line => ?_
  obtain ⟨line', hline'⟩ := rewriteTest_returns "ret = ".toList line
  rw [hline', ok_bind, replaceFirst_eq (by decide)]
  exact returns_ok _

/-- The text between the first two opening braces. -/
def body (el : Text) : Text := (split "\x7b".toList el).getD 1 []

theorem verfunc_returns_iff (el : Text) :
    Returns (verfunc el)
      ↔ '{' ∈ el ∧ ∀ line ∈ split "\n".toList (body el), ¬ SafeDefect (writeAll line) := by
  by_cases h : '{' ∈ el
  · have hbrace : "\x7b".toList <:+: el := (List.singleton_infix_iff _ _).mpr h
    obtain ⟨a, b, bs, hsplit⟩ := split_of_infix (by decide) hbrace
    rw [verfunc, body, hsplit, and_iff_right h]
    show Returns ((split "\n".toList b).mapM verfuncLine >>= fun body => _)
      ↔ ∀ line ∈ split "\n".toList b, _
    rw [returns_bind_of_total fun body => returns_pure _, returns_mapM]
    exact forall₂_congr fun line _ => verfuncLine_returns_iff line
  · have hone : split "\x7b".toList el = [el] := split_char_of_not_mem h
    rw [verfunc, hone]
    exact iff_of_false (not_returns_error _) fun hel => h hel.1

/-- The segment loop gets through the segment. -/
def SegmentOk (el : Text) : Prop :=
  if "struct tst_test test".toList <:+: el then True
  else if "verify".toList <:+: (split "\n".toList el).headD [] then
    '{' ∈ el ∧ ∀ line ∈ split "\n".toList (body el), ¬ SafeDefect (writeAll line)
  else ∀ line ∈ split "\n".toList el, skipLine line ∨ ¬ SafeDefect line

instance (el : Text) : Decidable (SegmentOk el) := by
  delta SegmentOk
  infer_instance

theorem convertSegment_returns_iff (el : Text) : Returns (convertSegment el) ↔ SegmentOk el := by
  unfold convertSegment SegmentOk
  split
  · exact iff_of_true (returns_pure _) trivial
  · split
    · rw [returns_map, verfunc_returns_iff]
    · rw [returns_map, returns_mapM]
      exact forall₂_congr fun line _ => convertLine_returns_iff line

/-- **The segment loop gets through a text** if and only if it gets through each of its
segments. -/
theorem convertText_returns_iff (file : Text) :
    Returns (convertText file) ↔ ∀ el ∈ split "static ".toList file, SegmentOk el := by
  rw [convertText, returns_bind_of_total fun body => returns_pure _, returns_mapM]
  exact forall₂_congr fun el _ => convertSegment_returns_iff el

end UnikraftSuite
