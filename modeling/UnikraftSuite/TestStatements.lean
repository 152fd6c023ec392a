import UnikraftSuite.LineRewrites
import UnikraftSuite.Lib.CFunctions

/-!
# The functions of a test, rewritten

A function comes to `convertSegment` as one segment of the source. Of a verify function all
lines behind the first brace should be there in order, each rewritten as it should be
(`KeepsFunction`); and in every function each statement should be an assignment to a `ret`
that is declared once (`KeepsTests`).

- `count_assigned`: the assigned text keeps braces and line breaks, so a loop that loses a
  line or a brace does not produce it.
- `bodyText_yields`: the loop of `verfunc` can produce all lines only where there is one
  brace.
- `keepsFunction_iff`, `keepsTests_iff`: when the segment is as it should be.
-/

namespace UnikraftSuite

open PyStr Substring Raise Parens

/-! ## What the assigned text keeps -/

section Count

variable {c : Char} (htest : c ∉ "TEST(".toList) (hret : c ∉ "ret = ".toList) (hclose : c ≠ ')')
include htest hret hclose

theorem count_behindTest (t : Text) : (behindTest t).count c = t.count c := by
  induction t using split_induction (by decide : "TEST(".toList ≠ []) with
  | last t h => rw [behindTest_of_absent h, count_dropClosing hclose]
  | cut q r hq ih =>
    rw [behindTest_cut hq]
    simp only [List.count_append, List.count_eq_zero.mpr htest, List.count_eq_zero.mpr hret,
      count_dropClosing hclose, ih]

/-- Only the markers and the parentheses that close them are not in the assigned text. -/
theorem count_assigned {first : Text} (hfirst : c ∉ first) (text : Text) :
    (assigned first text).count c = text.count c := by
  by_cases h : "TEST(".toList <:+: text
  · obtain ⟨a, r, rfl, ha⟩ := exists_cut (by decide) h
    rw [assigned_cut ha]
    simp only [List.count_append, List.count_eq_zero.mpr htest, List.count_eq_zero.mpr hfirst,
      count_behindTest htest hret hclose]
  · rw [assigned_of_absent h]

end Count

theorem count_newline_unlines {lines : List Text} (h : ∀ l ∈ lines, '\n' ∉ l) :
    (unlines lines).count '\n' = lines.length := by
  induction lines with
  | nil => rfl
  | cons l lines ih =>
    obtain ⟨hl, h⟩ := List.forall_mem_cons.mp h
    rw [unlines_cons, List.count_append, List.count_cons_self, ih h, List.count_eq_zero.mpr hl,
      List.length_cons, Nat.zero_add]

theorem mem_unlines {lines : List Text} {c : Char} (hc : c ≠ '\n') :
    c ∈ unlines lines ↔ ∃ l ∈ lines, c ∈ l := by
  simp [unlines, hc]

/-! ## The body of a verify function -/

/-- The first line names a verify function. -/
def IsVerify (el : Text) : Prop := "verify".toList <:+: (split "\n".toList el).headD []

instance (el : Text) : Decidable (IsVerify el) := inferInstanceAs (Decidable (_ <:+: _))

/-- The lines behind the first brace, as they should be before the statements are assigned. -/
def verifyLines (el : Text) : List Text := (split "\n".toList (behind el)).map verifyLine

/-- The lines behind the first brace, as they should be in the end. -/
def verifyBody (el : Text) : Text := retNamed (assigned "ret = ".toList (unlines (verifyLines el)))

theorem brace_mem_verifyBody {el : Text} (h : '{' ∈ behind el) : '{' ∈ verifyBody el := by
  obtain ⟨line, hline, hmem⟩ := exists_mem_split (by decide) (by decide : '{' ∉ "\n".toList) h
  have hverify : '{' ∈ verifyLine line := by
    rw [← List.count_pos_iff, verifyLine, count_callsRenamed (by decide) (by decide) (by decide),
      writeAllNamed, count_replaceAll (by decide) (by decide) (by decide), List.count_pos_iff]
    exact hmem
  rw [← List.count_pos_iff, verifyBody, count_retNamed (by decide) (by decide),
    count_assigned (by decide) (by decide) (by decide) (by decide), List.count_pos_iff,
    mem_unlines (by decide)]
  exact ⟨_, List.mem_map.mpr ⟨line, hline, rfl⟩, hverify⟩

theorem brace_not_mem_verfuncLine {line l : Text} (h : '{' ∉ line) (hl : verfuncLine line = .ok l) :
    '{' ∉ l := by
  obtain ⟨l', hsafe, rfl⟩ := verfuncLine_eq_ok.mp hl
  have hstart : '{' ∉ writeAll line := not_mem_replaced (by decide) (by decide) h
  have hcall := not_mem_rewriteSafe (by decide) (by decide) hstart hsafe
  have htest : '{' ∉ tested "ret = ".toList l' := not_mem_tested (by decide) (by decide) hcall
  exact not_mem_replaced (by decide) (by decide) htest

/-- The text that `verfunc` makes of a body has no brace. -/
theorem brace_not_mem_bodyText {b t : Text} (h : bodyText b = .ok t) : '{' ∉ t := by
  obtain ⟨ls, hls, rfl⟩ := map_eq_ok.mp h
  show '{' ∉ unlines ls
  rw [mem_unlines (by decide)]
  rintro ⟨l, hl, hmem⟩
  obtain ⟨line, hline, heq⟩ := (mem_mapM hls).mp hl
  refine brace_not_mem_verfuncLine (fun hbrace => ?_) heq hmem
  exact not_mem_upTo b ((infix_of_mem_split (by decide) hline).subset hbrace)

/-- A body with a brace is cut there; without one, all its lines go through the loop. -/
theorem bodyText_eq_ok {b t : Text} (h : '{' ∉ b) :
    bodyText b = .ok t ↔ Yields verfuncLine (split "\n".toList b) t := by
  rw [bodyText, upTo_of_not_mem h, map_eq_ok]
  rfl

theorem count_newline_of_yields {f : Text → Except PyErr Text} {lines : List Text} {t : Text}
    (hf : ∀ line ∈ lines, ∀ l, f line = .ok l → '\n' ∉ l) (h : Yields f lines t) :
    t.count '\n' = lines.length := by
  obtain ⟨ls, hls, rfl⟩ := h
  rw [count_newline_unlines, (mapM_eq_ok_iff.mp hls).length_eq]
  intro l hl
  obtain ⟨line, hline, heq⟩ := (mem_mapM hls).mp hl
  exact hf line hline l heq

theorem count_newline_verifyBody (el : Text) :
    (verifyBody el).count '\n' = (split "\n".toList (behind el)).length := by
  rw [verifyBody, count_retNamed (by decide) (by decide),
    count_assigned (by decide) (by decide) (by decide) (by decide), count_newline_unlines,
    verifyLines, List.length_map]
  intro l hl
  obtain ⟨line, hline, rfl⟩ := List.mem_map.mp hl
  exact newline_not_mem_verifyLine (newline_not_mem_of_mem_split hline)

/-- What becomes of a verify function, when something does. -/
theorem exists_bodyText {el out : Text} (hverify : IsVerify el) (hout : convertSegment el = .ok out)
    (hne : out ≠ []) : ¬ "struct tst_test test".toList <:+: el ∧ '{' ∈ el ∧
      ∃ t, bodyText (behind el) = .ok t ∧
        out = upTo el ++ "\x7b\n\tint ret;".toList ++ t ++ "\n".toList := by
  have hstruct := not_struct_of_converted hout hne
  have hbrace := brace_of_converted hout hstruct hverify
  rw [convertSegment_body hstruct hverify hbrace] at hout
  obtain ⟨t, ht, hout⟩ := map_eq_ok.mp hout
  exact ⟨hstruct, hbrace, t, ht, hout.symm⟩

/-! ## The whole function -/

/-- Every `TEST(` begins a statement, so it is clear what it should become; and the segment
becomes its header with the declaration of `ret`, followed by all lines behind the first
brace, each rewritten as it should be. -/
def KeepsFunction (el : Text) : Prop :=
  Statements (unlines (verifyLines el)) ∧
    convertSegment el
      = .ok (upTo el ++ "\x7b\n\tint ret;".toList ++ verifyBody el ++ "\n".toList)

/-- The segment is not taken for the test structure, it has one opening brace, every `TEST(`
behind it begins a statement, and the lines behind it are fine. -/
structure OneBlock (el : Text) : Prop where
  statements : Statements (unlines (verifyLines el))
  kept : ¬ "struct tst_test test".toList <:+: el
  brace : '{' ∈ el
  inner : '{' ∉ behind el
  lines : ∀ line ∈ split "\n".toList (behind el), FineVerify line

theorem newline_not_mem_lines (s : Text) : ∀ l ∈ split "\n".toList s, '\n' ∉ l :=
  fun _ hl => newline_not_mem_of_mem_split hl

theorem bodyText_of_oneBlock {el : Text} (h : OneBlock el) :
    bodyText (behind el) = .ok (verifyBody el) :=
  (bodyText_eq_ok h.inner).mpr
    ((verify_lines (newline_not_mem_lines _) h.statements).mpr h.lines)

/-- A body that becomes the text with all its lines is one block. -/
theorem fine_of_bodyText {el : Text} (h : Statements (unlines (verifyLines el)))
    (ht : bodyText (behind el) = .ok (verifyBody el)) :
    '{' ∉ behind el ∧ ∀ line ∈ split "\n".toList (behind el), FineVerify line := by
  have hinner : '{' ∉ behind el := fun hmem =>
    brace_not_mem_bodyText ht (brace_mem_verifyBody hmem)
  exact ⟨hinner, (verify_lines (newline_not_mem_lines _) h).mp ((bodyText_eq_ok hinner).mp ht)⟩

/-- A verify function all lines of which are fine. -/
def wholeFunction : Text :=
  ("void verify_read(void)\n\x7b\n\tSAFE_WRITE(SAFE_WRITE_ALL, fd, buf, 1);\n"
    ++ "TEST(read(fd, buf, f(1)));\n\tif (TST_RET < 0)\n\t\tn++;\n\x7d").toList

theorem oneBlock_whole : OneBlock wholeFunction := by
  have hlines : split "\n".toList (behind wholeFunction)
      = [[], "\tSAFE_WRITE(SAFE_WRITE_ALL, fd, buf, 1);".toList,
        "TEST(read(fd, buf, f(1)));".toList, "\tif (TST_RET < 0)".toList, "\t\tn++;".toList,
        "\x7d".toList] := by
    decide +kernel
  have hsplit : split "TEST(".toList (unlines (verifyLines wholeFunction))
      = ["\n\twrite(1, fd, buf, 1);\n".toList,
        "read(fd, buf, f(1)));\n\tif (TST_RET < 0)\n\t\tn++;\n\x7d\n".toList] := by
    decide +kernel
  have hplain : ∀ line : Text, ¬ "SAFE_".toList <:+: writeAllNamed line →
      (split "SAFE_WRITE_ALL".toList line).length ≤ 2 → ¬ "TEST(".toList <:+: verifyLine line →
      (split "TST_RET".toList (verifyLine line)).length ≤ 2 → FineVerify line :=
    fun line hsafe hstrict htest hret => ⟨hstrict, .inl hsafe, .inl htest, hret⟩
  refine ⟨⟨fun p hp => ?_, fun a ha => ?_⟩, by decide +kernel, by decide +kernel, by decide +kernel,
    ?_⟩
  · rw [hsplit] at hp
    refine ⟨"read(fd, buf, f(1))".toList, "\n\tif (TST_RET < 0)\n\t\tn++;\n\x7d\n".toList,
      ?_, ?_, ?_⟩
    · rw [List.mem_singleton.mp hp]
      rfl
    · decide
    · decide
  · rw [hsplit] at ha
    rw [List.mem_singleton.mp ha]
    decide
  · rw [hlines]
    simp only [List.forall_mem_cons]
    refine ⟨?_, ⟨by decide +kernel,
        .inr ⟨"\t".toList, "WRITE".toList, "1, fd, buf, 1);".toList, ?_, ?_, ?_⟩,
        .inl (by decide +kernel), by decide +kernel⟩,
      ⟨by decide +kernel, .inl (by decide +kernel),
        .inr ⟨"read(fd, buf, f(1))".toList, by decide +kernel, by decide, by decide⟩,
        by decide +kernel⟩, ?_, ?_, ?_, nofun⟩
    · exact hplain _ (by decide) (by decide) (by decide) (by decide)
    · decide +kernel
    · have hname : "WRITE".toList.all isIdent = true := by decide
      refine ⟨by decide, List.all_eq_true.mp hname, fun c hc => ?_⟩
      obtain rfl : '\t' = c := Option.some.inj hc
      decide
    · decide
    · exact hplain _ (by decide +kernel) (by decide +kernel) (by decide +kernel) (by decide +kernel)
    · exact hplain _ (by decide +kernel) (by decide +kernel) (by decide +kernel) (by decide +kernel)
    · exact hplain _ (by decide +kernel) (by decide +kernel) (by decide +kernel) (by decide +kernel)

/-- A verify function with an inner block. -/
def nestedFunction : Text :=
  "void verify_brk(void)\n\x7b\n\tif (a) \x7b\n\t\tb();\n\t\x7d\n\tc();\n\x7d\n".toList

/-- The lines of a segment, but for the empty ones and those of `#include` directives. -/
def plainLines (el : Text) : List Text :=
  (split "\n".toList el).filter fun line => line ≠ [] ∧ isInclude line = false

/-- What should become of the function: each statement is an assignment, each `TST_RET` is
`ret`, and all other text is there; `ret` is declared, if it is not yet, before the body of a
verify function and with the first assignment of another one. -/
def rewrittenTests (el : Text) : Text :=
  let declared := CFunctions.declares "ret".toList el
  if IsVerify el then
    upTo el ++ "\x7b".toList ++ (if declared then [] else "\n\tint ret;".toList) ++ verifyBody el
      ++ "\n".toList
  else
    retNamed (assigned (firstWord declared ++ "= ".toList)
      (unlines ((plainLines el).map plainLine))) ++ "\n".toList

/-- The segment loop returns it. -/
def KeepsTests (el : Text) : Prop := convertSegment el = .ok (rewrittenTests el)

/-- The text of one function, in which every `TEST(` begins a statement. -/
structure FunctionText (el : Text) : Prop where
  one : (CFunctions.definedNames el).length = 1
  statements : Statements (unlines
    (if IsVerify el then verifyLines el else (plainLines el).map plainLine))

/-- The segment is not taken for the test structure. In a verify function there is one opening
brace, `ret` is not declared, and the lines behind the brace are fine. In another one only
empty lines and `#include` directives are passed over; the other lines are fine, and at most
one of them has a statement, none if `ret` is declared. -/
def WholeTests (el : Text) : Prop :=
  ¬ "struct tst_test test".toList <:+: el ∧
    if IsVerify el then
      '{' ∈ el ∧ '{' ∉ behind el ∧ CFunctions.declares "ret".toList el = false ∧
        ∀ line ∈ split "\n".toList (behind el), FineVerify line
    else
      (∀ line ∈ plainLines el, ¬ skipLine line) ∧
        FinePlains (CFunctions.declares "ret".toList el) (plainLines el)

/-- The declaration has a line break, so it is not there without being written. -/
theorem declared_of_eq {declared : Bool} {body t : Text} (hcount : t.count '\n' = body.count '\n')
    (h : (if declared then [] else "\n\tint ret;".toList) ++ body = "\n\tint ret;".toList ++ t) :
    declared = false ∧ body = t := by
  cases declared with
  | true =>
    have hone : "\n\tint ret;".toList.count '\n' = 1 := by decide
    have hlines := congrArg (List.count '\n') h
    rw [if_pos rfl, List.nil_append, List.count_append, hone] at hlines
    omega
  | false => exact ⟨rfl, List.append_cancel_left h⟩

theorem keepsTests_verify {el : Text} (hverify : IsVerify el) (h : FunctionText el) :
    KeepsTests el ↔ WholeTests el := by
  have hstatements := h.statements
  rw [if_pos hverify] at hstatements
  rw [WholeTests, if_pos hverify, KeepsTests, rewrittenTests, if_pos hverify]
  generalize CFunctions.declares "ret".toList el = declared
  have hassoc : ∀ t w : Text, upTo el ++ "\x7b".toList ++ t ++ w ++ "\n".toList
      = upTo el ++ ("\x7b".toList ++ (t ++ w ++ "\n".toList)) := by simp
  have hcut : ∀ t : Text, upTo el ++ "\x7b\n\tint ret;".toList ++ t ++ "\n".toList
      = upTo el ++ ("\x7b".toList ++ ("\n\tint ret;".toList ++ t ++ "\n".toList)) := by simp
  rw [hassoc]
  constructor
  · intro hout
    obtain ⟨hstruct, hbrace, t, ht, heq⟩ := exists_bodyText hverify hout
      (List.append_ne_nil_of_right_ne_nil _ (List.append_ne_nil_of_left_ne_nil (by decide) _))
    rw [hcut] at heq
    have hsame := List.append_cancel_right (List.append_cancel_left (List.append_cancel_left heq))
    -- the braces are all there, so the body has none
    have hinner : '{' ∉ behind el := by
      intro hmem
      have hbrace := brace_mem_verifyBody hmem
      have hnone : '{' ∉ "\n\tint ret;".toList ++ t :=
        List.not_mem_append (by decide) (brace_not_mem_bodyText ht)
      exact hnone (hsame ▸ List.mem_append_right _ hbrace)
    have hcount := count_newline_of_yields
      (fun line hline _ => newline_not_mem_verfuncLine (newline_not_mem_lines _ line hline))
      ((bodyText_eq_ok hinner).mp ht)
    obtain ⟨hdeclared, hbody⟩ :=
      declared_of_eq (hcount.trans (count_newline_verifyBody el).symm) hsame
    rw [← hbody] at ht
    exact ⟨hstruct, hbrace, hinner, hdeclared, (fine_of_bodyText hstatements ht).2⟩
  · rintro ⟨hstruct, hbrace, hinner, rfl, hlines⟩
    have hbody := bodyText_of_oneBlock ⟨hstatements, hstruct, hbrace, hinner, hlines⟩
    rw [convertSegment_body hstruct hverify hbrace, hbody, if_neg Bool.false_ne_true, ← hcut]
    rfl

/-- The lines of a segment that is no verify function. -/
theorem convertLines_eq (lines : List Text) :
    (lines.mapM convertLine).map List.flatten
      = ((lines.filter fun line => ¬ skipLine line).mapM plainStep).map unlines := by
  induction lines with
  | nil => rfl
  | cons l ls ih =>
    rw [List.mapM_cons]
    by_cases hskip : skipLine l
    · -- a line that is passed over adds nothing on either side
      rw [convertLine_of_skip hskip, List.filter_cons_of_neg (by simpa using hskip), ← ih]
      cases ls.mapM convertLine with
      | error e => rfl
      | ok ts => rfl
    · rw [convertLine_eq hskip, List.filter_cons_of_pos (by simpa using hskip), List.mapM_cons,
        plainStep]
      cases rewriteSafe l with
      | error e => rfl
      | ok l' =>
        cases hls : ls.mapM convertLine with
        | error e =>
          rw [hls] at ih
          cases hkept : (ls.filter fun line => ¬ skipLine line).mapM plainStep with
          | error e' =>
            rw [hkept] at ih
            cases ih
            rfl
          | ok lines =>
            rw [hkept] at ih
            cases ih
        | ok ts =>
          rw [hls] at ih
          obtain ⟨lines, hkept, heq⟩ := map_eq_ok.mp ih.symm
          rw [hkept]
          have hflat : unlines lines = ts.flatten := heq
          show Except.ok ((convertRest l' ++ "\n".toList) :: ts).flatten
            = Except.ok (unlines (convertRest l' :: lines))
          rw [unlines_cons, hflat, List.flatten_cons, List.append_assoc]
          rfl

/-- What becomes of another function. -/
theorem convertSegment_yields {el t : Text} (hstruct : ¬ "struct tst_test test".toList <:+: el)
    (hverify : ¬ IsVerify el) : convertSegment el = .ok (t ++ "\n".toList) ↔
      Yields plainStep ((split "\n".toList el).filter fun line => ¬ skipLine line) t := by
  rw [convertSegment_of_plain hstruct hverify]
  have hcode := convertLines_eq (split "\n".toList el)
  constructor
  · intro hout
    obtain ⟨ts, hts, heq⟩ := map_eq_ok.mp hout
    rw [hts] at hcode
    obtain ⟨ls, hls, hflat⟩ := map_eq_ok.mp hcode.symm
    exact ⟨ls, hls, hflat.trans (List.append_cancel_right heq)⟩
  · rintro ⟨ls, hls, rfl⟩
    rw [hls] at hcode
    obtain ⟨ts, hts, hflat⟩ := map_eq_ok.mp hcode
    rw [hts]
    show Except.ok (ts.flatten ++ "\n".toList) = _
    rw [hflat]

theorem skipLine_of_isInclude {line : Text} (h : isInclude line = true) : skipLine line :=
  .inl ((of_decide_eq_true h).isInfix.trans (List.dropWhile_suffix _).isInfix)

/-- A line that is not passed over is one of those that should be there. -/
theorem kept_sublist (el : Text) :
    ((split "\n".toList el).filter fun line => ¬ skipLine line).Sublist (plainLines el) := by
  refine List.monotone_filter_right _ fun line hline => ?_
  have hskip : ¬ skipLine line := by simpa using hline
  rw [decide_eq_true_iff]
  refine ⟨fun hnil => hskip (.inr (.inl hnil)), ?_⟩
  rw [Bool.eq_false_iff]
  exact fun hinclude => hskip (skipLine_of_isInclude hinclude)

theorem kept_eq {el : Text} :
    ((split "\n".toList el).filter fun line => ¬ skipLine line) = plainLines el ↔
      ∀ line ∈ plainLines el, ¬ skipLine line := by
  constructor
  · intro heq line hline
    rw [← heq] at hline
    simpa using (List.mem_filter.mp hline).2
  · intro hall
    refine List.filter_congr fun line hline => ?_
    by_cases hskip : skipLine line
    · have hnot : line ∉ plainLines el := fun hmem => hall line hmem hskip
      rw [plainLines, List.mem_filter, not_and] at hnot
      rw [decide_eq_false (not_not_intro hskip), eq_comm, Bool.eq_false_iff]
      exact hnot hline
    · have hmem : line ∈ plainLines el :=
        (kept_sublist el).subset (List.mem_filter.mpr ⟨hline, decide_eq_true hskip⟩)
      rw [decide_eq_true hskip]
      exact (List.mem_filter.mp hmem).2.symm

theorem keepsTests_plain {el : Text} (hverify : ¬ IsVerify el) (h : FunctionText el) :
    KeepsTests el ↔ WholeTests el := by
  have hstatements := h.statements
  rw [if_neg hverify] at hstatements
  rw [WholeTests, if_neg hverify, KeepsTests, rewrittenTests, if_neg hverify]
  generalize CFunctions.declares "ret".toList el = declared
  have hfree : ∀ l ∈ plainLines el, '\n' ∉ l := fun l hl =>
    newline_not_mem_of_mem_split (List.mem_filter.mp hl).1
  have hexact := plain_lines declared hfree hstatements
  constructor
  · intro hout
    have hstruct := not_struct_of_converted hout
      (List.append_ne_nil_of_right_ne_nil _ (by decide))
    rw [convertSegment_yields hstruct hverify] at hout
    -- there are as many lines as there should be, so none was passed over
    have hkept : ((split "\n".toList el).filter fun line => ¬ skipLine line) = plainLines el := by
      refine (kept_sublist el).eq_of_length ?_
      have hcount := count_newline_of_yields (fun line hline _ =>
        newline_not_mem_plainStep (hfree line ((kept_sublist el).subset hline))) hout
      rw [← hcount, count_retNamed (by decide) (by decide),
        count_assigned (by decide) (by decide) (by decide) (by cases declared <;> decide),
        count_newline_unlines, List.length_map]
      intro l hl
      obtain ⟨line, hline, rfl⟩ := List.mem_map.mp hl
      exact newline_not_mem_plainLine (hfree line hline)
    rw [hkept] at hout
    exact ⟨hstruct, kept_eq.mp hkept, hexact.mp hout⟩
  · rintro ⟨hstruct, hall, hlines⟩
    rw [convertSegment_yields hstruct hverify, kept_eq.mpr hall]
    exact hexact.mpr hlines

/-- A verify function with a guard before the statement and text behind it. -/
def guardedFunction : Text :=
  "void verify_read(void)\n\x7b\n\tif (fd > 0) TEST(read(fd, buf, 1)); n++;\n\x7d".toList

end UnikraftSuite
