import UnikraftSuite.LinePaths
import Mathlib.Data.List.DropRight

/-!
# `SAFE_` calls

What should become of a line with calls `SAFE_NAME(args)` is `callsRenamed`: every such name
is put in lower case without its prefix, and nothing else changes. Both paths of the script
cut the line at `SAFE_` and the call at `(`, keep the first call only, and put no further
parenthesis back.

- `callsRenamed_cut`: the line with its last call renamed.
- `count_rewriteSafe_le`: the `SAFE_` step keeps the parentheses only where the call has one.
- `keepsCalls_iff`: both paths rename the calls of a line exactly when it has at most one
  call, with no parenthesis in the arguments or behind, and no other marker.
-/

namespace UnikraftSuite

open PyStr Substring Raise

/-! ## Calls -/

/-- The characters of identifiers. -/
def isIdent (c : Char) : Bool := c.isAlphanum || c == '_'

/-- The text before a parenthesis, with the name at its end renamed if it is `SAFE_NAME`. -/
def renameCallee (p : Text) : Text :=
  let tok := p.rtakeWhile isIdent
  if "SAFE_".toList <+: tok ∧ tok ≠ "SAFE_".toList then
    p.rdropWhile isIdent ++ lower (tok.drop 5)
  else p

/-- The pieces of a line between its parentheses, put together with the callees renamed. -/
def renameCallees : List Text → Text
  | [] => []
  | [p] => p
  | p :: q :: ps => renameCallee p ++ '(' :: renameCallees (q :: ps)

/-- The line with each `SAFE_NAME(` replaced by `name(`. -/
def callsRenamed (line : Text) : Text := renameCallees (split ['('] line)

theorem callsRenamed_of_no_paren {p : Text} (h : '(' ∉ p) : callsRenamed p = p := by
  rw [callsRenamed, split_char_of_not_mem h]
  rfl

theorem callsRenamed_paren {p : Text} (h : '(' ∉ p) (t : Text) :
    callsRenamed (p ++ '(' :: t) = renameCallee p ++ '(' :: callsRenamed t := by
  obtain ⟨q, ps, hq⟩ := List.exists_cons_of_ne_nil (split_ne_nil ['('] t)
  rw [callsRenamed, callsRenamed, split_char_cut h, hq]
  rfl

theorem renameCallee_of_absent {p : Text} (h : ¬ "SAFE_".toList <:+: p) : renameCallee p = p := by
  refine if_neg fun hname => h ?_
  exact hname.1.isInfix.trans (List.rtakeWhile_suffix isIdent p).isInfix

/-- A part of the line without `SAFE_`, up to a parenthesis, stays. -/
theorem callsRenamed_append {a : Text} (h : ¬ "SAFE_".toList <:+: a) (t : Text) :
    callsRenamed (a ++ '(' :: t) = a ++ '(' :: callsRenamed t := by
  induction a using split_induction (by decide : ['('] ≠ []) with
  | last a ha =>
    rw [List.singleton_infix_iff] at ha
    rw [callsRenamed_paren ha, renameCallee_of_absent h]
  | cut u b hu ih =>
    have hu' : '(' ∉ u := firstAt_singleton.mp hu
    have husafe : ¬ "SAFE_".toList <:+: u := fun hin =>
      h (hin.trans (List.prefix_append u _).isInfix)
    have hbsafe : ¬ "SAFE_".toList <:+: b := fun hin =>
      h (hin.trans ((List.suffix_append ['('] b).trans (List.suffix_append u _)).isInfix)
    have hassoc : ∀ w : Text, u ++ (['('] ++ b) ++ w = u ++ '(' :: (b ++ w) := by simp
    rw [hassoc, hassoc, callsRenamed_paren hu', renameCallee_of_absent husafe, ih hbsafe]

theorem callsRenamed_of_absent {line : Text} (h : ¬ "SAFE_".toList <:+: line) :
    callsRenamed line = line := by
  induction line using split_induction (by decide : ['('] ≠ []) with
  | last line hline =>
    rw [List.singleton_infix_iff] at hline
    exact callsRenamed_of_no_paren hline
  | cut u b hu ih =>
    have husafe : ¬ "SAFE_".toList <:+: u := fun hin =>
      h (hin.trans (List.prefix_append u _).isInfix)
    have hbsafe : ¬ "SAFE_".toList <:+: b := fun hin =>
      h (hin.trans ((List.suffix_append ['('] b).trans (List.suffix_append u _)).isInfix)
    show callsRenamed (u ++ '(' :: b) = u ++ '(' :: b
    rw [callsRenamed_paren (firstAt_singleton.mp hu), renameCallee_of_absent husafe, ih hbsafe]

/-- `SAFE_` and `n` make a name that can be called, after the text `a`. -/
def Callee (a n : Text) : Prop :=
  n ≠ [] ∧ (∀ c ∈ n, isIdent c) ∧ ∀ c ∈ a.getLast?, isIdent c = false

theorem rtakeWhile_append {a w : Text} (hw : ∀ c ∈ w, isIdent c)
    (ha : ∀ c ∈ a.getLast?, isIdent c = false) :
    (a ++ w).rtakeWhile isIdent = w ∧ (a ++ w).rdropWhile isIdent = a := by
  have htake : (a ++ w).rtakeWhile isIdent = w := by
    have hw' : ∀ c ∈ w.reverse, isIdent c := fun c hc => hw c (List.mem_reverse.mp hc)
    have hnil : a.reverse.takeWhile isIdent = [] := by
      rcases List.eq_nil_or_concat a with rfl | ⟨a', c, rfl⟩
      · rfl
      · have hc := ha c (by simp)
        simp [hc]
    rw [List.rtakeWhile, List.reverse_append, List.takeWhile_append_of_pos hw', hnil,
      List.append_nil, List.reverse_reverse]
  have hjoin := List.rdropWhile_append_rtakeWhile (p := isIdent) (l := a ++ w)
  rw [htake] at hjoin
  exact ⟨htake, List.append_cancel_right hjoin⟩

/-- The only `SAFE_` of a text begins its last name exactly if the name can be called. -/
theorem renameCallee_cut {a n : Text} (ha : ¬ "SAFE_".toList <:+: a)
    (hn : ¬ "SAFE_".toList <:+: n) :
    (Callee a n → renameCallee (a ++ ("SAFE_".toList ++ n)) = a ++ lower n) ∧
      (¬ Callee a n → renameCallee (a ++ ("SAFE_".toList ++ n)) = a ++ ("SAFE_".toList ++ n)) := by
  constructor
  · rintro ⟨hne, hident, hlast⟩
    have htok : ∀ c ∈ "SAFE_".toList ++ n, isIdent c := by
      intro c hc
      rcases List.mem_append.mp hc with hc | hc
      · exact List.all_eq_true.mp (by decide : "SAFE_".toList.all isIdent) c hc
      · exact hident c hc
    obtain ⟨htake, hdrop⟩ := rtakeWhile_append htok hlast
    have hname : "SAFE_".toList <+: "SAFE_".toList ++ n ∧ "SAFE_".toList ++ n ≠ "SAFE_".toList :=
      ⟨List.prefix_append _ _, fun h => hne (by simpa using h)⟩
    unfold renameCallee
    simp only [htake, hdrop]
    rw [if_pos hname]
    rfl
  · intro hno
    refine if_neg fun ⟨hpre, hne⟩ => hno ?_
    obtain ⟨m, hm⟩ := hpre
    have hjoin := List.rdropWhile_append_rtakeWhile (p := isIdent) (l := a ++ ("SAFE_".toList ++ n))
    rw [← hm] at hjoin
    -- the name begins at the only `SAFE_`
    obtain ⟨hbefore, rfl⟩ := only_occurrence (by decide) (by decide) ha hn hjoin.symm
    refine ⟨fun hnil => hne ?_, fun c hc => ?_, fun c hc => ?_⟩
    · rw [← hm, hnil, List.append_nil]
    · have hmem : c ∈ "SAFE_".toList ++ m := List.mem_append_right _ hc
      rw [hm] at hmem
      exact List.mem_rtakeWhile_imp hmem
    · rw [← hbefore] at hc
      obtain ⟨hnil, rfl⟩ := List.mem_getLast?_eq_getLast hc
      simpa using List.rdropWhile_last_not isIdent _ hnil

/-! ## The last call of a line -/

theorem callee_paren (u b n : Text) : Callee (u ++ '(' :: b) n ↔ Callee b n := by
  refine and_congr_right fun _ => and_congr_right fun _ => ?_
  rcases List.eq_nil_or_concat b with rfl | ⟨b', c, rfl⟩
  · have hparen : isIdent '(' = false := by decide
    simp [hparen]
  · have hassoc : u ++ '(' :: (b' ++ [c]) = (u ++ '(' :: b') ++ [c] := by simp
    rw [List.concat_eq_append, hassoc, List.getLast?_concat, List.getLast?_concat]

/-- The line up to the parenthesis behind its first `SAFE_`. -/
theorem callsRenamed_call {a n : Text} (ha : ¬ "SAFE_".toList <:+: a)
    (hn : ¬ "SAFE_".toList <:+: n) (hparen : '(' ∉ n) (y : Text) :
    (Callee a n → callsRenamed (a ++ ("SAFE_".toList ++ (n ++ '(' :: y)))
        = a ++ (lower n ++ '(' :: callsRenamed y)) ∧
      (¬ Callee a n → callsRenamed (a ++ ("SAFE_".toList ++ (n ++ '(' :: y)))
        = a ++ ("SAFE_".toList ++ (n ++ '(' :: callsRenamed y))) := by
  induction a using split_induction (by decide : ['('] ≠ []) with
  | last a hlast =>
    rw [List.singleton_infix_iff] at hlast
    have hbefore : '(' ∉ a ++ ("SAFE_".toList ++ n) := by simp [hlast, hparen]
    have hassoc : a ++ ("SAFE_".toList ++ (n ++ '(' :: y))
        = (a ++ ("SAFE_".toList ++ n)) ++ '(' :: y := by simp
    obtain ⟨hyes, hno⟩ := renameCallee_cut ha hn
    rw [hassoc, callsRenamed_paren hbefore]
    constructor
    · intro hcallee
      rw [hyes hcallee, List.append_assoc]
    · intro hcallee
      rw [hno hcallee]
      simp
  | cut u b hu ih =>
    have husafe : ¬ "SAFE_".toList <:+: u := fun hin =>
      ha (hin.trans (List.prefix_append u _).isInfix)
    have hbsafe : ¬ "SAFE_".toList <:+: b := fun hin =>
      ha (hin.trans ((List.suffix_append ['('] b).trans (List.suffix_append u _)).isInfix)
    have hassoc : ∀ w : Text, u ++ (['('] ++ b) ++ w = u ++ '(' :: (b ++ w) := by simp
    obtain ⟨hyes, hno⟩ := ih hbsafe
    -- a piece before the last parenthesis changes neither the name nor what is before it
    show (Callee (u ++ '(' :: b) n → _) ∧ (¬ Callee (u ++ '(' :: b) n → _)
    rw [hassoc, hassoc, callsRenamed_append husafe, callee_paren]
    constructor
    · intro hcallee
      rw [hyes hcallee]
    · intro hcallee
      rw [hno hcallee]
      simp

/-- A line whose first `SAFE_` is followed by one parenthesis only. -/
theorem callsRenamed_cut {a n y : Text} (ha : ¬ "SAFE_".toList <:+: a)
    (hn : ¬ "SAFE_".toList <:+: n) (hparen : '(' ∉ n) (hy : '(' ∉ y) :
    (Callee a n → callsRenamed (a ++ ("SAFE_".toList ++ (n ++ '(' :: y)))
        = a ++ (lower n ++ '(' :: y)) ∧
      (¬ Callee a n → callsRenamed (a ++ ("SAFE_".toList ++ (n ++ '(' :: y)))
        = a ++ ("SAFE_".toList ++ (n ++ '(' :: y))) := by
  have h := callsRenamed_call ha hn hparen y
  rwa [callsRenamed_of_no_paren hy] at h

/-! ## Parentheses -/

section Count

variable {c : Char} (hlower : ¬ (97 ≤ c.toNat ∧ c.toNat ≤ 122)) (hsame : c.toLower = c)
  (hsafe : c ∉ "SAFE_".toList)
include hlower hsame hsafe

theorem count_renameCallee (p : Text) : (renameCallee p).count c = p.count c := by
  unfold renameCallee
  dsimp only
  split
  · rename_i hname
    obtain ⟨n, hn⟩ := hname.1
    have hjoin := List.rdropWhile_append_rtakeWhile (p := isIdent) (l := p)
    have hdrop : ("SAFE_".toList ++ n).drop 5 = n := rfl
    conv_rhs => rw [← hjoin]
    rw [← hn, hdrop, List.count_append, List.count_append, List.count_append,
      count_lower hlower hsame, List.count_eq_zero.mpr hsafe, Nat.zero_add]
  · rfl

/-- Renaming calls keeps every character that is neither a letter nor in `SAFE_`. -/
theorem count_callsRenamed (line : Text) : (callsRenamed line).count c = line.count c := by
  induction line using split_induction (by decide : ['('] ≠ []) with
  | last line hline =>
    rw [List.singleton_infix_iff] at hline
    rw [callsRenamed_of_no_paren hline]
  | cut u b hu ih =>
    have hu' : '(' ∉ u := firstAt_singleton.mp hu
    show (callsRenamed (u ++ '(' :: b)).count c = (u ++ '(' :: b).count c
    rw [callsRenamed_paren hu', List.count_append, List.count_append, List.count_cons,
      List.count_cons, ih, count_renameCallee hlower hsame hsafe]

end Count

/-- The `SAFE_` step puts back one parenthesis for the whole call. -/
theorem FirstCall.count_eq {line a n args y : Text} (h : FirstCall line a n args y) :
    line.count '(' = a.count '(' + 1 + args.count '(' + y.count '(' ∧
      (a ++ (lower n ++ '(' :: glued args)).count '(' = a.count '(' + 1 := by
  have hsafe : "SAFE_".toList.count '(' = 0 := by decide
  have hn := List.count_eq_zero.mpr h.name
  have hlower := List.count_eq_zero.mpr (paren_not_mem_lower h.name)
  have hglued := List.count_eq_zero.mpr (paren_not_mem_glued args)
  constructor
  · rw [h.line_eq]
    simp only [List.count_append, List.count_cons_self]
    omega
  · simp only [List.count_append, List.count_cons_self]
    omega

theorem count_rewriteSafe_le {line l : Text} (h : rewriteSafe line = .ok l) :
    l.count '(' ≤ line.count '(' := by
  by_cases hin : "SAFE_".toList <:+: line
  · obtain ⟨a, n, args, y, hcall⟩ := exists_firstCall h hin
    rw [hcall.rewriteSafe_eq] at h
    rw [← Except.ok.inj h]
    have hcount := hcall.count_eq
    omega
  · rw [rewriteSafe_of_absent hin] at h
    rw [Except.ok.inj h]

/-- Where all parentheses are kept the line does not grow. -/
theorem length_rewriteSafe_le {line l : Text} (h : rewriteSafe line = .ok l)
    (hcount : line.count '(' ≤ l.count '(') : l.length ≤ line.length := by
  by_cases hin : "SAFE_".toList <:+: line
  · obtain ⟨a, n, args, y, hcall⟩ := exists_firstCall h hin
    rw [hcall.rewriteSafe_eq] at h
    have hl := Except.ok.inj h
    rw [← hl] at hcount ⊢
    obtain ⟨hline, hkept⟩ := hcall.count_eq
    have hargs : '(' ∉ args := List.count_eq_zero.mp (by omega)
    rw [glued_of_no_paren hargs, hcall.line_eq]
    simp only [List.length_append, List.length_cons, length_lower]
    omega
  · rw [rewriteSafe_of_absent hin] at h
    rw [Except.ok.inj h]

/-! ## Both paths -/

/-- Both paths return the line with its calls renamed. -/
def KeepsCalls (line : Text) : Prop :=
  convertLine line = .ok (callsRenamed line ++ "\n".toList) ∧
    verfuncLine line = .ok (callsRenamed line)

/-- The line has no `SAFE_`, or one only, which begins a name that is called with
arguments without a parenthesis, and no parenthesis follows. -/
def OneCall (line : Text) : Prop :=
  ¬ "SAFE_".toList <:+: line ∨
    ∃ a n x, split "SAFE_".toList line = [a, n ++ '(' :: x] ∧ Callee a n ∧ '(' ∉ x

/-- The line is not passed over, has at most one call, and none of the other markers, before
and after its call is renamed. -/
structure PlainCalls (line : Text) : Prop where
  kept : ¬ skipLine line
  one : OneCall line
  strict : ¬ "SAFE_WRITE_ALL".toList <:+: line
  test : ¬ "TEST(".toList <:+: callsRenamed line
  printf : ¬ "file_printf".toList <:+: callsRenamed line
  ret : ¬ "TST_RET".toList <:+: callsRenamed line

theorem paren_not_mem_callee {a n : Text} (h : Callee a n) : '(' ∉ n := by
  intro hmem
  exact absurd (h.2.1 _ hmem) (by decide)

theorem firstCall_of_split {line a n x : Text}
    (hsplit : split "SAFE_".toList line = [a, n ++ '(' :: x]) (h : Callee a n) :
    FirstCall line a n x [] := by
  have hfree : ∀ p ∈ [a, n ++ '(' :: x], ¬ "SAFE_".toList <:+: p := by
    intro p hp
    exact not_infix_of_mem_split (by decide) (hsplit ▸ hp)
  have hjoin := intercalate_split (by decide : "SAFE_".toList ≠ []) line
  rw [hsplit] at hjoin
  refine ⟨?_, hfree a List.mem_cons_self, paren_not_mem_callee h, hfree _ (by simp), .inl rfl⟩
  rw [← hjoin]
  simp [List.intercalate]

/-- The `SAFE_` step renames the call of such a line. -/
theorem rewriteSafe_of_oneCall {line : Text} (h : OneCall line) :
    rewriteSafe line = .ok (callsRenamed line) := by
  rcases h with hno | ⟨a, n, x, hsplit, hcallee, hx⟩
  · rw [rewriteSafe_of_absent hno, callsRenamed_of_absent hno]
  · have hfirst := firstCall_of_split hsplit hcallee
    have hname := hfirst.not_infix_name
    rw [hfirst.rewriteSafe_eq, glued_of_no_paren hx, hfirst.line_eq, List.append_nil,
      (callsRenamed_cut hfirst.before hname hfirst.name hx).1 hcallee]

theorem OneCall.length_le {line : Text} (h : OneCall line) :
    line.length ≤ (callsRenamed line).length + 5 := by
  rcases h with hno | ⟨a, n, x, hsplit, hcallee, hx⟩
  · rw [callsRenamed_of_absent hno]
    omega
  · have hfirst := firstCall_of_split hsplit hcallee
    have hname := hfirst.not_infix_name
    have hyes := (callsRenamed_cut hfirst.before hname hfirst.name hx).1 hcallee
    have hline := hfirst.line_eq
    rw [List.append_nil] at hline
    rw [hline, hyes]
    have hfive : "SAFE_".toList.length = 5 := rfl
    simp only [List.length_append, List.length_cons, length_lower]
    omega

/-- What the steps behind the `SAFE_` step leave alone. -/
theorem convertRest_eq_self {line : Text} (htest : ¬ "TEST(".toList <:+: line)
    (hprintf : ¬ "file_printf".toList <:+: line) : convertRest line = line := by
  rw [convertRest, replaced_of_absent hprintf, tested_of_absent htest]

theorem verfuncRest_eq_self {line : Text} (htest : ¬ "TEST(".toList <:+: line)
    (hret : ¬ "TST_RET".toList <:+: line) : verfuncRest line = line := by
  rw [verfuncRest, tested_of_absent htest, replaced_of_absent hret]

/-- A line that keeps its parentheses through `convertRest` has no `TEST(`. -/
theorem convertRest_of_count {line : Text}
    (h : line.count '(' ≤ (convertRest line).count '(') :
    convertRest line = replaced "file_printf".toList "fprintf".toList line := by
  have hle : (replaced "file_printf".toList "fprintf".toList line).count '(' ≤ line.count '(' :=
    count_replaced_le (by decide) (by decide)
  refine tested_of_absent fun hin => ?_
  have hlt := count_tested_lt (by decide : '(' ∉ "int ret = ".toList) hin
  unfold convertRest at h
  omega

theorem verfuncRest_of_count {line : Text}
    (h : line.count '(' ≤ (verfuncRest line).count '(') :
    verfuncRest line = replaced "TST_RET".toList "ret".toList line := by
  have hle : (verfuncRest line).count '(' ≤ (tested "ret = ".toList line).count '(' :=
    count_replaced_le (by decide) (by decide)
  rw [verfuncRest, tested_of_absent]
  intro hin
  have hlt := count_tested_lt (by decide : '(' ∉ "ret = ".toList) hin
  omega

/-- When renaming the calls does not give more than the rewritten first call, nothing is behind
that call, and it is the only one. -/
theorem FirstCall.oneCall {line a n args y : Text} (h : FirstCall line a n args y)
    (hargs : '(' ∉ args) (hy : '(' ∉ y)
    (hlen : (callsRenamed line).length ≤ (a ++ (lower n ++ '(' :: args)).length) :
    OneCall line ∧ callsRenamed line = a ++ (lower n ++ '(' :: args) := by
  have hbehind : '(' ∉ args ++ y := by simp [hargs, hy]
  obtain ⟨hyes, hno⟩ := callsRenamed_cut h.before h.not_infix_name h.name hbehind
  rw [← h.line_eq] at hyes hno
  by_cases hcallee : Callee a n
  · have hnil : y = [] := by
      rw [hyes hcallee] at hlen
      simp only [List.length_append, List.length_cons] at hlen
      exact List.length_eq_zero_iff.mp (by omega)
    refine ⟨.inr ⟨a, n, args, ?_, hcallee, hargs⟩, ?_⟩
    · rw [h.line_eq, hnil, List.append_nil,
        split_cut (by decide) (.of_unbordered (by decide) h.before), split_of_absent h.call]
    · rw [hyes hcallee, hnil, List.append_nil]
  · -- a name that is not renamed keeps its `SAFE_`
    rw [hno hcallee, h.line_eq] at hlen
    simp only [List.length_append, List.length_cons, length_lower] at hlen
    have hfive : "SAFE_".toList.length = 5 := rfl
    omega

/-- What the segment loop keeps has one call. -/
theorem oneCall_of_convert {line l : Text} (h : rewriteSafe line = .ok l)
    (heq : convertRest l = callsRenamed line) :
    OneCall line ∧ l = callsRenamed line ∧ ¬ "file_printf".toList <:+: l := by
  have hcount := count_rewriteSafe_le h
  have hkept : l.count '(' ≤ (convertRest l).count '(' := by
    rw [heq, count_callsRenamed (by decide) (by decide) (by decide)]
    exact hcount
  have hrest := convertRest_of_count hkept
  have hlen : (replaced "file_printf".toList "fprintf".toList l).length ≤ l.length :=
    length_replaced_le (by decide)
  rw [heq] at hrest
  -- no parenthesis is lost, so the first call has the only one behind it
  have hall : line.count '(' ≤ l.count '(' := by
    rw [← count_callsRenamed (by decide) (by decide) (by decide), hrest]
    exact count_replaced_le (by decide) (by decide)
  have hself : l = callsRenamed line → ¬ "file_printf".toList <:+: l := by
    intro hl
    refine (replaced_eq_self_iff
      (by decide : "fprintf".toList.length < "file_printf".toList.length)).mp ?_
    rw [← hrest, hl]
  by_cases hin : "SAFE_".toList <:+: line
  · obtain ⟨a, n, args, y, hcall⟩ := exists_firstCall h hin
    obtain ⟨hline, hcalled⟩ := hcall.count_eq
    rw [hcall.rewriteSafe_eq] at h
    have hl := Except.ok.inj h
    rw [← hl, hcalled] at hall
    have hargs : '(' ∉ args := List.count_eq_zero.mp (by omega)
    have hy : '(' ∉ y := List.count_eq_zero.mp (by omega)
    rw [glued_of_no_paren hargs] at hl
    rw [← hrest, ← hl] at hlen
    obtain ⟨hone, hsame⟩ := hcall.oneCall hargs hy hlen
    rw [hl] at hsame
    exact ⟨hone, hsame.symm, hself hsame.symm⟩
  · rw [rewriteSafe_of_absent hin] at h
    have hl : l = callsRenamed line := by
      rw [callsRenamed_of_absent hin, Except.ok.inj h]
    exact ⟨.inl hin, hl, hself hl⟩

/-- A `SAFE_WRITE_ALL` costs more than renaming a call. -/
theorem OneCall.not_strict {line : Text} (h : OneCall line)
    (hlen : (callsRenamed line).length ≤ (writeAll line).length) :
    ¬ "SAFE_WRITE_ALL".toList <:+: line := by
  intro hin
  obtain ⟨a, b, r, hline, -, hb, heq⟩ := replaced_cut (by decide) hin "1".toList
  have hle := h.length_le
  have hb' := hb.length_le
  rw [writeAll, heq] at hlen
  have hline := congrArg List.length hline
  have hmarker : "SAFE_WRITE_ALL".toList.length = 14 := rfl
  have hdigit : "1".toList.length = 1 := rfl
  simp only [List.length_append] at hlen hline
  omega

/-- **The calls of a line are preserved** on both paths if and only if it is plain. -/
theorem keepsCalls_iff (line : Text) : KeepsCalls line ↔ PlainCalls line := by
  constructor
  · rintro ⟨hconvert, hverfunc⟩
    obtain ⟨hkept, l, hl, hrest⟩ := convertLine_eq_ok.mp hconvert
    obtain ⟨s, hs, hrest'⟩ := verfuncLine_eq_ok.mp hverfunc
    obtain ⟨hone, rfl, hprintf⟩ := oneCall_of_convert hl hrest
    have htest : ¬ "TEST(".toList <:+: callsRenamed line := by
      intro hin
      have hlt := count_tested_lt (by decide : '(' ∉ "int ret = ".toList) hin
      rw [convertRest, replaced_of_absent hprintf] at hrest
      rw [hrest] at hlt
      exact Nat.lt_irrefl _ hlt
    -- on the other path parentheses are kept as well, so its line did not grow
    have hstart : (writeAll line).count '(' ≤ line.count '(' :=
      count_replaced_le (by decide) (by decide)
    have hsafe := count_rewriteSafe_le hs
    have hreplaced : replaced "TST_RET".toList "ret".toList s = callsRenamed line := by
      rw [← verfuncRest_of_count, hrest']
      rw [hrest', count_callsRenamed (by decide) (by decide) (by decide)]
      omega
    have hall : (writeAll line).count '(' ≤ s.count '(' := by
      refine hstart.trans ?_
      rw [← count_callsRenamed (by decide) (by decide) (by decide), ← hreplaced]
      exact count_replaced_le (by decide) (by decide)
    have hgrow := length_rewriteSafe_le hs hall
    have hshrink : (callsRenamed line).length ≤ s.length := by
      rw [← hreplaced]
      exact length_replaced_le (by decide)
    have hstrict := hone.not_strict (hshrink.trans hgrow)
    rw [writeAll, replaced_of_absent hstrict, hl] at hs
    rw [← Except.ok.inj hs] at hreplaced
    have hret := (replaced_eq_self_iff (by decide)).mp hreplaced
    exact ⟨hkept, hone, hstrict, htest, hprintf, hret⟩
  · rintro ⟨hkept, hone, hstrict, htest, hprintf, hret⟩
    have hsafe := rewriteSafe_of_oneCall hone
    refine ⟨convertLine_eq_ok.mpr ⟨hkept, _, hsafe, convertRest_eq_self htest hprintf⟩,
      verfuncLine_eq_ok.mpr ⟨_, ?_, verfuncRest_eq_self htest hret⟩⟩
    rw [writeAll, replaced_of_absent hstrict]
    exact hsafe

/-- A call with a parenthesis in its arguments. -/
def pthreadCall : Text :=
  "\t\tSAFE_PTHREAD_CREATE(id0 + i, NULL, f0, (void *)&p0[i]);".toList

/-- The inner parenthesis is lost and the arguments before it are repeated. -/
theorem not_keepsCalls_pthread : ¬ KeepsCalls pthreadCall ∧
    verfuncLine pthreadCall
      = .ok "\t\tpthread_create(id0 + i, NULL, f0, id0 + i, NULL, f0, void *)&p0[i]);".toList := by
  have hrun : verfuncLine pthreadCall
      = .ok "\t\tpthread_create(id0 + i, NULL, f0, id0 + i, NULL, f0, void *)&p0[i]);".toList := by
    decide +kernel
  refine ⟨fun h => ?_, hrun⟩
  have heq := h.2
  rw [hrun] at heq
  exact absurd (Except.ok.inj heq) (by decide +kernel)

end UnikraftSuite
