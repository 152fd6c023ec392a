import UnikraftSuite.FunctionBody
import UnikraftSuite.LinePaths
import UnikraftSuite.Lib.Parens
import UnikraftSuite.Lib.Replace

/-!
# `TEST` statements and `TST_RET`

What should become of the text of a function is `assigned`, with `TST_RET` replaced
everywhere: each `TEST(expr);` becomes the assignment `ret = expr;`, where the expression may
go over several lines, and all text around it stays. The script goes over the lines one by
one instead (`verfuncRest`, `tested`).

- `exists_firstLine`: the assigned text by lines.
- `verfuncRest_firstLine`, `tested_firstLine`: the two loops produce the assigned text of a line
  exactly when a line with a `TEST(` is one whole statement, and as far as they replace the
  `TST_RET` in it.
-/

namespace UnikraftSuite

open PyStr Substring Raise Parens

/-! ## What should come of a text -/

/-- The pieces of text behind the `TEST(`s, as assignments. -/
def assignments : Text → List Text → Text
  | _, [] => []
  | first, p :: ps => first ++ (dropClosing 0 p ++ assignments "ret = ".toList ps)

/-- The text with each `TEST(` replaced by `ret = `, the first of them by `first`, and without
the parentheses that close them. -/
def assigned (first text : Text) : Text :=
  (split "TEST(".toList text).headD []
    ++ assignments first (split "TEST(".toList text).tail

/-- The text with `ret` for every `TST_RET`. -/
def retNamed (text : Text) : Text := replaceAll "TST_RET".toList "ret".toList text

/-- What `assigned` makes of the text behind a `TEST(`. -/
def behindTest (text : Text) : Text :=
  dropClosing 0 ((split "TEST(".toList text).headD [])
    ++ assignments "ret = ".toList (split "TEST(".toList text).tail

theorem assigned_of_absent {first line : Text} (h : ¬ "TEST(".toList <:+: line) :
    assigned first line = line := by
  rw [assigned, split_of_absent h]
  exact List.append_nil line

theorem assigned_cut {a : Text} (h : FirstAt "TEST(".toList a) (first t : Text) :
    assigned first (a ++ ("TEST(".toList ++ t)) = a ++ (first ++ behindTest t) := by
  obtain ⟨p, ps, hp⟩ := List.exists_cons_of_ne_nil (split_ne_nil "TEST(".toList t)
  rw [assigned, split_cut (by decide) h, behindTest, hp]
  rfl

theorem behindTest_of_absent {t : Text} (h : ¬ "TEST(".toList <:+: t) :
    behindTest t = dropClosing 0 t := by
  rw [behindTest, split_of_absent h]
  exact List.append_nil _

theorem behindTest_cut {q : Text} (h : FirstAt "TEST(".toList q) (t : Text) :
    behindTest (q ++ ("TEST(".toList ++ t))
      = dropClosing 0 q ++ ("ret = ".toList ++ behindTest t) := by
  obtain ⟨p, ps, hp⟩ := List.exists_cons_of_ne_nil (split_ne_nil "TEST(".toList t)
  rw [behindTest, split_cut (by decide) h, behindTest, hp]
  rfl

/-! ## What rewriting statements keeps -/

/-- The characters of the macro and of the assignment in its place. -/
def macroChars : Text := "TEST()int ret = ".toList

/-- All characters are kept that are neither in the macro nor in the assignment; and where an
opening parenthesis goes an equality sign comes. -/
structure SameCounts (s t : Text) : Prop where
  chars : ∀ c, c ∉ macroChars → t.count c = s.count c
  signs : t.count '(' + t.count '=' = s.count '(' + s.count '='

theorem SameCounts.refl (s : Text) : SameCounts s s := ⟨fun _ _ => rfl, rfl⟩

theorem SameCounts.append {s t s' t' : Text} (h : SameCounts s t) (h' : SameCounts s' t') :
    SameCounts (s ++ s') (t ++ t') := by
  refine ⟨fun c hc => ?_, ?_⟩
  · rw [List.count_append, List.count_append, h.chars c hc, h'.chars c hc]
  · have hsigns := h.signs
    have hsigns' := h'.signs
    simp only [List.count_append]
    omega

/-- What may stand in the place of `TEST(`. -/
theorem SameCounts.assignment {first : Text} (hchars : first ⊆ macroChars)
    (hsigns : first.count '(' + first.count '=' = 1) : SameCounts "TEST(".toList first := by
  refine ⟨fun c hc => ?_, hsigns⟩
  have htest : "TEST(".toList ⊆ macroChars := by decide
  rw [List.count_eq_zero.mpr fun hmem => hc (hchars hmem),
    List.count_eq_zero.mpr fun hmem => hc (htest hmem)]

theorem SameCounts.dropClosing (d : Nat) (s : Text) : SameCounts s (dropClosing d s) := by
  refine ⟨fun c hc => count_dropClosing ?_ d s, ?_⟩
  · rintro rfl
    exact hc (by decide)
  · rw [count_dropClosing (by decide), count_dropClosing (by decide)]

/-- The parenthesis that closes a statement goes. -/
theorem SameCounts.close (r : Text) : SameCounts (')' :: r) r := SameCounts.dropClosing 0 (')' :: r)

/-! ## By lines -/

/-- The pieces of a text whose first line has no `TEST(`. -/
theorem split_test_line {line : Text} (h : ¬ "TEST(".toList <:+: line) (rest : Text) :
    split "TEST(".toList (line ++ '\n' :: rest)
      = (line ++ '\n' :: (split "TEST(".toList rest).headD []) ::
        (split "TEST(".toList rest).tail := by
  have hsplit :=
    split_append_cons (by decide : "TEST(".toList ≠ []) (c := '\n') (by decide) line rest
  rw [hsplit, split_of_absent h]
  rfl

theorem assigned_line {line : Text} (h : ¬ "TEST(".toList <:+: line) (first rest : Text) :
    assigned first (line ++ '\n' :: rest) = line ++ '\n' :: assigned first rest := by
  rw [assigned, split_test_line h, assigned]
  simp

theorem newline_not_mem_dropClosing {s : Text} (h : '\n' ∉ s) (d : Nat) :
    '\n' ∉ dropClosing d s := by
  rw [← List.count_eq_zero, count_dropClosing (by decide), List.count_eq_zero]
  exact h

/-- Each opening parenthesis of the text is that of a `TEST(`. -/
def OnlyTests (r : Text) : Prop := ∀ p q, r = p ++ '(' :: q → "TEST".toList <:+ p

theorem onlyTests_of_not_mem {r : Text} (h : '(' ∉ r) : OnlyTests r := by
  rintro p q rfl
  exact absurd (List.mem_append_right p List.mem_cons_self) h

theorem OnlyTests.cut {q r : Text} (hq : '(' ∉ q) (h : OnlyTests r) :
    OnlyTests (q ++ ("TEST(".toList ++ r)) := by
  intro p w heq
  have hassoc : q ++ ("TEST(".toList ++ r) = (q ++ "TEST".toList) ++ '(' :: r := by simp
  rw [hassoc] at heq
  rcases append_cons_cases heq with ⟨t, rfl, ht⟩ | ⟨rfl, -⟩ | ⟨t, ht, -⟩
  · exact (h t w ht).trans ((List.suffix_cons _ t).trans (List.suffix_append _ _))
  · exact List.suffix_append _ _
  · have hmem : '(' ∈ q ++ "TEST".toList := ht ▸ List.mem_append_right p List.mem_cons_self
    exact absurd hmem (by simpa using hq)

/-- The first line of what is behind a `TEST(` is a line again; and where all of its opening
parentheses are lost, they were those of statements. -/
theorem behindTest_line {r : Text} (h : '\n' ∉ r) (rest : Text) :
    ∃ x y, behindTest (r ++ '\n' :: rest) = x ++ '\n' :: y ∧ '\n' ∉ x ∧ SameCounts r x ∧
      ('(' ∉ x → OnlyTests r) := by
  induction r using split_induction (by decide : "TEST(".toList ≠ []) with
  | last r hr =>
    rw [behindTest, split_test_line hr]
    obtain ⟨x, y, hline, hcount⟩ := dropClosing_append_cons (c := '\n') (by decide) (by decide) 0 r
      ((split "TEST(".toList rest).headD [])
    refine ⟨x, y ++ assignments "ret = ".toList (split "TEST(".toList rest).tail, ?_, ?_,
      ⟨?_, ?_⟩, fun hx => onlyTests_of_not_mem ?_⟩
    · rw [List.headD_cons, hline, List.append_assoc]
      rfl
    · rw [← List.count_eq_zero, hcount _ (by decide), List.count_eq_zero]
      exact h
    · rintro c hc
      refine hcount c ?_
      rintro rfl
      exact hc (by decide)
    · rw [hcount _ (by decide), hcount _ (by decide)]
    · rwa [← List.count_eq_zero, ← hcount _ (by decide), List.count_eq_zero]
  | cut q r hq ih =>
    simp only [List.mem_append, not_or] at h
    obtain ⟨x, y, hline, hx, hcounts, honly⟩ := ih h.2.2
    refine ⟨dropClosing 0 q ++ ("ret = ".toList ++ x), y, ?_, ?_, ?_, ?_⟩
    · rw [List.append_assoc, List.append_assoc, behindTest_cut hq, hline]
      simp
    · simp only [List.mem_append, not_or]
      exact ⟨newline_not_mem_dropClosing h.1 0, by decide, hx⟩
    · exact (SameCounts.dropClosing 0 q).append
        ((SameCounts.assignment (by decide) (by decide)).append hcounts)
    · simp only [List.mem_append, not_or]
      rintro ⟨hopen, -, hopens⟩
      refine (honly hopens).cut ?_
      rwa [← List.count_eq_zero, ← count_dropClosing (by decide) 0, List.count_eq_zero]

/-! ## Statements -/

/-- What is behind a `TEST(` that begins a statement: an expression, which does not begin with
a semicolon, then the parenthesis that closes it and a semicolon. -/
def Statement (p : Text) : Prop :=
  ∃ e r, p = e ++ ')' :: ';' :: r ∧ Balanced e ∧ e.head? ≠ some ';'

/-- Every `TEST(` of the text begins a statement, so no type stands before it. -/
structure Statements (text : Text) : Prop where
  closed : ∀ p ∈ (split "TEST(".toList text).tail, Statement p
  starts : ∀ a ∈ (split "TEST(".toList text).dropLast, ¬ "int ".toList <:+ a

/-- The text behind a line has the statements of the whole text but for the line's own. -/
theorem Statements.behind_line {line rest : Text} (h : Statements (line ++ '\n' :: rest)) :
    Statements rest := by
  have hsplit :=
    split_append_cons (by decide : "TEST(".toList ≠ []) (c := '\n') (by decide) line rest
  obtain ⟨hclosed, hstarts⟩ := h
  rw [hsplit] at hclosed hstarts
  obtain ⟨b, bs, hb⟩ := List.exists_cons_of_ne_nil (split_ne_nil "TEST(".toList rest)
  rw [hb] at hclosed hstarts
  refine ⟨fun p hp => hclosed p ?_, fun a ha => ?_⟩
  · rw [hb, List.tail_cons] at hp
    cases (split "TEST(".toList line).dropLast with
    | nil => exact hp
    | cons x xs => exact List.mem_append_right _ (List.mem_cons_of_mem _ hp)
  · rw [hb] at ha
    cases bs with
    | nil => exact absurd ha List.not_mem_nil
    | cons c cs =>
      rw [List.dropLast_append_cons] at hstarts
      rw [List.dropLast_cons_cons] at ha
      rcases List.mem_cons.mp ha with rfl | ha
      · intro hsuf
        refine hstarts _ (List.mem_append_right _ List.mem_cons_self) ?_
        exact hsuf.trans ((List.suffix_cons _ a).trans (List.suffix_append _ _))
      · exact hstarts a (List.mem_append_right _ (List.mem_cons_of_mem _ ha))

/-- The first line of the assigned text and the text behind it, by the `TEST(`s of the
line. -/
inductive FirstLine (first rest : Text) : Text → Text → Text → Prop where
  | none {line : Text} (h : ¬ "TEST(".toList <:+: line) :
      FirstLine first rest line line (assigned first rest)
  | closed {a e r : Text} (ha : FirstAt "TEST(".toList a) (hint : ¬ "int ".toList <:+ a)
      (hr : ¬ "TEST(".toList <:+: e ++ ')' :: ';' :: r) (he : Balanced e) :
      FirstLine first rest (a ++ ("TEST(".toList ++ (e ++ ')' :: ';' :: r)))
        (a ++ (first ++ (e ++ ';' :: r))) (assigned "ret = ".toList rest)
  | opened {a r more : Text} {d : Nat} (ha : FirstAt "TEST(".toList a)
      (hint : ¬ "int ".toList <:+ a)
      (hr : ¬ "TEST(".toList <:+: r) (hhead : r.head? ≠ some ';') (hd : depthFrom 0 r = some d) :
      FirstLine first rest (a ++ ("TEST(".toList ++ r)) (a ++ (first ++ r)) more
  | several {a q r x more : Text} (ha : FirstAt "TEST(".toList a) (hq : FirstAt "TEST(".toList q)
      (hstatement : Statement q) (hx : SameCounts r x) (honly : '(' ∉ x → OnlyTests r) :
      FirstLine first rest (a ++ ("TEST(".toList ++ (q ++ ("TEST(".toList ++ r))))
        (a ++ (first ++ (dropClosing 0 q ++ ("ret = ".toList ++ x)))) more

theorem FirstLine.of_absent {first rest line x y : Text} (h : FirstLine first rest line x y)
    (hno : ¬ "TEST(".toList <:+: line) : x = line ∧ y = assigned first rest := by
  cases h with
  | none h => exact ⟨rfl, rfl⟩
  | closed ha | opened ha | several ha => exact absurd ⟨_, _, by rw [List.append_assoc]⟩ hno

theorem FirstLine.counts {first rest line x y : Text} (h : FirstLine first rest line x y)
    (hchars : first ⊆ macroChars) (hsigns : first.count '(' + first.count '=' = 1) :
    SameCounts line x := by
  have hfirst := SameCounts.assignment hchars hsigns
  cases h with
  | none h => exact .refl _
  | @closed a e r =>
    exact (SameCounts.refl a).append (hfirst.append ((SameCounts.refl e).append (.close _)))
  | @opened a r => exact (SameCounts.refl a).append (hfirst.append (.refl r))
  | @several a q r x _ ha hq _ hx _ =>
    exact (SameCounts.refl a).append (hfirst.append ((SameCounts.dropClosing 0 q).append
      ((SameCounts.assignment (by decide) (by decide)).append hx)))

/-- A statement behind the last `TEST(` of a line ends on the line or goes on behind it. -/
theorem Statement.on_line {r rest : Text} (hr : '\n' ∉ r) (h : Statement (r ++ '\n' :: rest)) :
    (∃ e r', r = e ++ ')' :: ';' :: r' ∧ Balanced e) ∨
      (r.head? ≠ some ';' ∧ ∃ d, depthFrom 0 r = some d) := by
  obtain ⟨e, r', heq, he, hhead⟩ := h
  rcases List.append_eq_append_iff.mp heq with ⟨t, rfl, ht⟩ | ⟨t, rfl, ht⟩
  · refine .inr ⟨fun hsemi => hhead ?_, he.depthFrom_prefix⟩
    rw [List.head?_append, hsemi]
    rfl
  · match t with
    | [] => exact .inr ⟨by simpa using hhead, 0, by rw [List.append_nil]; exact he⟩
    | [c] => exact absurd (List.cons.inj (List.cons.inj ht).2).1 (by decide)
    | c :: d :: t =>
      obtain ⟨hclose, ht⟩ := List.cons.inj ht
      obtain ⟨rfl, -⟩ := List.cons.inj ht
      exact .inl ⟨e, t, by rw [hclose], he⟩

theorem exists_firstLine {line rest : Text} (hline : '\n' ∉ line)
    (h : Statements (line ++ '\n' :: rest)) (first : Text) (hfirst : '\n' ∉ first) :
    ∃ x y, assigned first (line ++ '\n' :: rest) = x ++ '\n' :: y ∧ '\n' ∉ x ∧
      FirstLine first rest line x y := by
  by_cases hin : "TEST(".toList <:+: line
  · obtain ⟨a, r, rfl, ha⟩ := exists_cut (by decide) hin
    simp only [List.mem_append, not_or] at hline
    have hassoc : ∀ t, a ++ ("TEST(".toList ++ r) ++ t = a ++ ("TEST(".toList ++ (r ++ t)) := by
      simp
    rw [hassoc] at h ⊢
    obtain ⟨hclosed, hstarts⟩ := h
    rw [split_cut (by decide) ha] at hclosed hstarts
    rw [List.dropLast_cons_of_ne_nil (split_ne_nil _ _)] at hstarts
    have hint := hstarts a List.mem_cons_self
    rw [assigned_cut ha]
    by_cases hr : "TEST(".toList <:+: r
    · -- a second `TEST(` on the line
      obtain ⟨q, r, rfl, hq⟩ := exists_cut (by decide) hr
      simp only [List.mem_append, not_or] at hline
      obtain ⟨x, y, hxy, hx, hcounts, honly⟩ := behindTest_line hline.2.2.2.2 rest
      have hassoc : q ++ ("TEST(".toList ++ r) ++ '\n' :: rest
          = q ++ ("TEST(".toList ++ (r ++ '\n' :: rest)) := by simp
      rw [List.tail_cons, hassoc, split_cut (by decide) hq] at hclosed
      refine ⟨_, y, ?_, ?_, .several ha hq (hclosed q List.mem_cons_self) hcounts honly⟩
      · rw [List.append_assoc, List.append_assoc, behindTest_cut hq, hxy]
        simp
      · simp only [List.mem_append, not_or]
        exact ⟨hline.1, hfirst, newline_not_mem_dropClosing hline.2.2.1 0, by decide, hx⟩
    · rw [split_test_line hr, List.tail_cons] at hclosed
      rw [behindTest, split_test_line hr]
      rcases (hclosed _ List.mem_cons_self).on_line hline.2.2 with ⟨e, r, rfl, he⟩ | ⟨hhead, d, hd⟩
      · refine ⟨_, _, ?_, ?_, .closed ha hint hr he⟩
        · have hassoc : ∀ t, e ++ ')' :: ';' :: r ++ t = e ++ ')' :: (';' :: r ++ t) := by simp
          rw [List.headD_cons, List.tail_cons, hassoc, dropClosing_close he, assigned]
          simp
        · simp only [List.mem_append, List.mem_cons, not_or] at hline ⊢
          exact ⟨hline.1, hfirst, hline.2.2.1, hline.2.2.2.2⟩
      · refine ⟨_, dropClosing d ((split "TEST(".toList rest).headD [])
          ++ assignments "ret = ".toList (split "TEST(".toList rest).tail, ?_, ?_,
          .opened ha hint hr hhead hd⟩
        · rw [List.headD_cons, List.tail_cons, dropClosing_append hd]
          simp [dropClosing]
        · simp only [List.mem_append, not_or]
          exact ⟨hline.1, hfirst, hline.2.2⟩
  · exact ⟨line, _, assigned_line hin first rest, hline, .none hin⟩

/-! ## `TST_RET` -/

theorem retNamed_append_cons {c : Char} (hc : c ∉ "TST_RET".toList) (s t : Text) :
    retNamed (s ++ c :: t) = retNamed s ++ c :: retNamed t :=
  replaceAll_append_cons (by decide) hc s t

theorem retNamed_nil : retNamed [] = [] := rfl

theorem count_retNamed {c : Char} (hc : c ∉ "TST_RET".toList) (hnew : c ∉ "ret".toList)
    (s : Text) : (retNamed s).count c = s.count c :=
  count_replaceAll (by decide) hc hnew s

/-- Each `TST_RET` costs four characters. -/
theorem length_retNamed (s : Text) :
    (retNamed s).length + 4 * (split "TST_RET".toList s).tail.length = s.length := by
  have hlen := length_replaceAll (by decide : "TST_RET".toList ≠ []) "ret".toList s
  have hsep : "TST_RET".toList.length = 7 := rfl
  have hnew : "ret".toList.length = 3 := rfl
  rw [hsep, hnew] at hlen
  rw [retNamed]
  omega

/-- With three pieces or more there are two markers, and `replaced` loses what is behind the
second. -/
theorem replaced_of_several {sep s : Text} (hsep : sep ≠ []) (new : Text)
    (h : 3 ≤ (split sep s).length) :
    ∃ x y r, s = x ++ (sep ++ (y ++ (sep ++ r))) ∧
      ∀ t, replaced sep new (s ++ t) = x ++ new ++ y ∧
        replaceAll sep new (s ++ t)
          = x ++ (new ++ (y ++ (new ++ replaceAll sep new (r ++ t)))) := by
  match hs : split sep s with
  | [] | [_] | [_, _] =>
    rw [hs] at h
    simp at h
  | x :: y :: z :: zs =>
    obtain ⟨r, rfl, hx, hr⟩ := cut_of_split hsep hs
    obtain ⟨r', rfl, hy, -⟩ := cut_of_split hsep hr
    refine ⟨x, y, r', rfl, fun t => ?_⟩
    have hassoc : x ++ (sep ++ (y ++ (sep ++ r'))) ++ t
        = x ++ (sep ++ (y ++ (sep ++ (r' ++ t)))) := by simp
    rw [hassoc]
    constructor
    · rw [replaced, if_pos ⟨x, _, by rw [List.append_assoc]⟩, split_cut hsep hx, split_cut hsep hy]
      rfl
    · rw [replaceAll_cut hsep hx, replaceAll_cut hsep hy]

theorem replaced_eq_replaceAll {sep s : Text} (hsep : sep ≠ []) (new : Text)
    (h : (split sep s).length ≤ 2) : replaced sep new s = replaceAll sep new s := by
  by_cases hin : sep <:+: s
  · obtain ⟨a, b, bs, hsplit⟩ := split_of_infix hsep hin
    rw [hsplit] at h
    obtain rfl := List.length_eq_zero_iff.mp (by simpa using h : bs.length = 0)
    rw [replaced, if_pos hin, replaceAll, hsplit]
    simp [List.intercalate]
  · rw [replaced_of_absent hin, replaceAll_of_absent hin]

theorem replaced_eq_retNamed {s : Text} (h : (split "TST_RET".toList s).length ≤ 2) :
    replaced "TST_RET".toList "ret".toList s = retNamed s :=
  replaced_eq_replaceAll (by decide) _ h

theorem replaced_eq_retNamed_iff {s : Text} :
    replaced "TST_RET".toList "ret".toList s = retNamed s ↔
      (split "TST_RET".toList s).length ≤ 2 := by
  constructor
  · intro heq
    by_contra hmany
    obtain ⟨x, y, r, -, hcut⟩ :=
      replaced_of_several (by decide) "ret".toList (Nat.lt_of_not_le hmany)
    obtain ⟨hcode, hall⟩ := hcut []
    rw [List.append_nil] at hcode hall
    rw [hcode, retNamed, hall] at heq
    simp at heq
  · exact replaced_eq_retNamed

/-- A text that keeps its length has no `TST_RET`. -/
theorem not_infix_of_length_retNamed {s : Text} (h : s.length ≤ (retNamed s).length) :
    ¬ "TST_RET".toList <:+: s := by
  intro hin
  obtain ⟨a, b, bs, hsplit⟩ := split_of_infix (by decide) hin
  have hlen := length_retNamed s
  rw [hsplit, List.tail_cons, List.length_cons] at hlen
  omega

theorem length_split_concat {sep s : Text} (hsep : sep ≠ []) {c : Char} (hc : c ∉ sep) :
    (split sep (s ++ [c])).length = (split sep s).length := by
  have hpos := List.length_pos_iff.mpr (split_ne_nil sep s)
  rw [split_append_cons hsep hc s []]
  simp only [List.length_append, List.length_dropLast, List.length_cons, split_nil, List.tail_cons,
    List.length_nil]
  omega

theorem length_split_skip {sep w : Text} (hsep : sep ≠ []) {c : Char} (hc : c ∉ sep)
    (hw : ¬ sep <:+: w) (t : Text) : (split sep (w ++ c :: t)).length = (split sep t).length := by
  have hpos := List.length_pos_iff.mpr (split_ne_nil sep t)
  rw [split_append_cons hsep hc, split_of_absent hw]
  simp only [List.length_append, List.length_dropLast, List.length_cons, List.length_nil,
    List.length_tail]
  omega

/-! ## A line with a `TEST(` -/

theorem sliceTo_neg_two (s : Text) : sliceTo s (-2) = s.take (s.length - 2) := by
  rw [sliceTo, if_pos (by omega)]
  congr 1
  omega

theorem length_sliceTo_neg_two (s : Text) : (sliceTo s (-2)).length = s.length - 2 := by
  rw [sliceTo_neg_two, List.length_take, Nat.min_eq_left (Nat.sub_le _ 2)]

theorem count_sliceTo_neg_two_le (s : Text) :
    (sliceTo s (-2) ++ [';']).count '=' ≤ s.count '=' := by
  rw [List.count_append, sliceTo_neg_two]
  exact (List.take_sublist _ s).count_le '='

/-- Nothing is left of a text of one character, which is no `TST_RET`. -/
theorem cut_of_short {r : Text} (hshort : r.length ≤ 1) :
    sliceTo r (-2) = [] ∧ retNamed r = r := by
  constructor
  · rw [← List.length_eq_zero_iff, length_sliceTo_neg_two]
    omega
  · refine replaceAll_of_absent fun hin => ?_
    have hlen : "TST_RET".toList.length ≤ 1 := hin.length_le.trans hshort
    exact absurd hlen (by decide)

/-- Two characters less: of a line that ends with the statement these are its last. -/
theorem sliceTo_closed (e : Text) : sliceTo (e ++ [')', ';']) (-2) = e := by
  rw [sliceTo_neg_two, List.length_append]
  exact List.take_left' rfl

theorem sliceTo_closed_more {e r : Text} (hr : r ≠ []) :
    ∃ w, sliceTo (e ++ ')' :: ';' :: r) (-2) = e ++ ')' :: w := by
  obtain ⟨c, r, rfl⟩ := List.exists_cons_of_ne_nil hr
  refine ⟨(';' :: c :: r).take r.length, ?_⟩
  have hlen : (e ++ ')' :: ';' :: c :: r).length - 2 = e.length + (r.length + 1) := by
    simp only [List.length_append, List.length_cons]
    omega
  rw [sliceTo_neg_two, hlen, List.take_length_add_append]
  rfl

/-- On the path of `verfunc` a statement that ends on its line is assigned only if it ends
the line. -/
theorem closed_of_verify {e r : Text}
    (h : replaced "TST_RET".toList "ret".toList (sliceTo (e ++ ')' :: ';' :: r) (-2) ++ [';'])
      = retNamed (e ++ ';' :: r)) : r = [] ∧ (split "TST_RET".toList e).length ≤ 2 := by
  have hassign : retNamed (e ++ ';' :: r) = retNamed e ++ ';' :: retNamed r :=
    retNamed_append_cons (by decide) e r
  by_cases hmany : 3 ≤ (split "TST_RET".toList (sliceTo (e ++ ')' :: ';' :: r) (-2))).length
  · -- the loop stops before the second `TST_RET`, of which the text should keep `ret`
    obtain ⟨x, y, r', -, hcut⟩ := replaced_of_several (by decide) "ret".toList hmany
    obtain ⟨t, ht⟩ : sliceTo (e ++ ')' :: ';' :: r) (-2) <+: e ++ ')' :: ';' :: r :=
      List.take_prefix _ _
    have hall := congrArg List.length (hcut t).2
    rw [ht, ← retNamed, retNamed_append_cons (by decide)] at hall
    have hsemi := retNamed_append_cons (c := ';') (by decide) [] r
    rw [List.nil_append, retNamed_nil, List.nil_append] at hsemi
    rw [hsemi] at hall
    rw [(hcut [';']).1, hassign] at h
    have hlen := congrArg List.length h
    have hret : "ret".toList.length = 3 := rfl
    simp only [List.length_append, List.length_cons] at hall hlen
    omega
  · have hfew : (split "TST_RET".toList (sliceTo (e ++ ')' :: ';' :: r) (-2))).length ≤ 2 := by
      omega
    rw [replaced_eq_retNamed (by rwa [length_split_concat (by decide) (by decide)]), hassign] at h
    by_cases hr : r = []
    · subst hr
      rw [sliceTo_closed] at hfew
      exact ⟨rfl, hfew⟩
    · obtain ⟨w, hw⟩ := sliceTo_closed_more (e := e) hr
      rw [hw, List.append_assoc, List.cons_append, retNamed_append_cons (by decide)] at h
      exact absurd (List.cons.inj (List.append_cancel_left h)).1 (by decide)

/-- A statement that goes on behind its line is not assigned there. -/
theorem not_opened_of_verify {r : Text} (hhead : r.head? ≠ some ';') :
    replaced "TST_RET".toList "ret".toList (sliceTo r (-2) ++ [';']) ≠ retNamed r := by
  intro h
  have hslice := length_sliceTo_neg_two r
  by_cases hmany : 3 ≤ (split "TST_RET".toList (sliceTo r (-2))).length
  · -- the loop stops before the second `TST_RET`, of which the text should keep `ret`
    obtain ⟨x, y, r', -, hcut⟩ := replaced_of_several (by decide) "ret".toList hmany
    obtain ⟨t, ht⟩ : sliceTo r (-2) <+: r := List.take_prefix _ _
    have hall := congrArg List.length (hcut t).2
    rw [ht, ← retNamed, ← h, (hcut [';']).1] at hall
    have hret : "ret".toList.length = 3 := rfl
    simp only [List.length_append] at hall
    omega
  · have hfew : (split "TST_RET".toList (sliceTo r (-2))).length ≤ 2 := by omega
    rw [replaced_eq_retNamed (by rwa [length_split_concat (by decide) (by decide)]),
      retNamed_append_cons (by decide)] at h
    have hlen := congrArg List.length h
    have hr := length_retNamed r
    have hs := length_retNamed (sliceTo r (-2))
    rw [List.length_append, List.length_cons, retNamed_nil, List.length_nil] at hlen
    -- replacing changes a length by a multiple of four, and cutting by one
    obtain ⟨hnil, hsame⟩ := cut_of_short (by omega : r.length ≤ 1)
    rw [hnil, hsame] at h
    rw [← h] at hhead
    exact hhead rfl

/-- On the other path the `TST_RET`s stay, too. -/
theorem closed_of_plain {e r : Text}
    (h : sliceTo (e ++ ')' :: ';' :: r) (-2) ++ [';'] = retNamed (e ++ ';' :: r)) :
    r = [] ∧ ¬ "TST_RET".toList <:+: e := by
  have hlen := congrArg List.length h
  simp only [List.length_append, length_sliceTo_neg_two, List.length_cons, List.length_nil] at hlen
  have hfree : ¬ "TST_RET".toList <:+: e ++ ';' :: r := by
    apply not_infix_of_length_retNamed
    rw [← hlen, List.length_append, List.length_cons]
    omega
  have hsame : retNamed (e ++ ';' :: r) = e ++ ';' :: r := replaceAll_of_absent hfree
  by_cases hr : r = []
  · refine ⟨hr, fun hin => hfree (hin.trans (List.prefix_append e _).isInfix)⟩
  · obtain ⟨w, hw⟩ := sliceTo_closed_more (e := e) hr
    rw [hw, hsame, List.append_assoc, List.cons_append] at h
    exact absurd (List.cons.inj (List.append_cancel_left h)).1 (by decide)

theorem not_opened_of_plain {r : Text} (hhead : r.head? ≠ some ';') :
    sliceTo r (-2) ++ [';'] ≠ retNamed r := by
  intro h
  have hlen := congrArg List.length h
  have hr := length_retNamed r
  rw [List.length_append, length_sliceTo_neg_two, List.length_singleton] at hlen
  obtain ⟨hnil, hsame⟩ := cut_of_short (by omega : r.length ≤ 1)
  rw [hnil, hsame] at h
  rw [← h] at hhead
  exact hhead rfl

/-! ## A line -/

/-- The line is one statement, from its first character to its last. -/
def IsTest (line : Text) : Prop :=
  ∃ e, line = "TEST(".toList ++ (e ++ [')', ';']) ∧ ¬ "TEST(".toList <:+: e ∧ Balanced e

/-- When the left side has at most the equality signs of the right side's end, the first one is
the same. -/
theorem before_equality {p f b c d : Text} (hp : '=' ∉ p) (hf : '=' ∉ f)
    (hcount : c.count '=' ≤ d.count '=') (h : p ++ '=' :: c = b ++ (f ++ '=' :: d)) :
    p = b ++ f ∧ c = d := by
  have hb : '=' ∉ b := by
    have hlen := congrArg (List.count '=') h
    simp only [List.count_append, List.count_cons_self, List.count_eq_zero.mpr hp,
      List.count_eq_zero.mpr hf] at hlen
    rw [← List.count_eq_zero]
    omega
  rw [← List.append_assoc] at h
  exact append_cons_inj_first hp (by simp [hb, hf]) h

theorem split_isTest {e : Text} (he : ¬ "TEST(".toList <:+: e) :
    split "TEST(".toList ("TEST(".toList ++ (e ++ [')', ';'])) = [[], e ++ [')', ';']] := by
  have hfirst : FirstAt "TEST(".toList [] := .of_unbordered (by decide) (by decide)
  have hfree : ¬ "TEST(".toList <:+: e ++ [')', ';'] := by
    rw [infix_append_cons (by decide)]
    exact not_or.mpr ⟨he, by decide⟩
  have hcut := split_cut (by decide) hfirst (e ++ [')', ';'])
  rw [List.nil_append, split_of_absent hfree] at hcut
  exact hcut

/-- A line that is a statement, as it is assigned. -/
theorem tested_isTest {e : Text} (he : ¬ "TEST(".toList <:+: e) (pre : Text) :
    tested pre ("TEST(".toList ++ (e ++ [')', ';'])) = pre ++ (e ++ [';']) := by
  rw [tested, if_pos ⟨[], e ++ [')', ';'], by simp⟩, split_isTest he, ← List.append_assoc]
  show pre ++ sliceTo (e ++ [')', ';']) (-2) ++ [';'] = _
  rw [sliceTo_closed]

/-- The `TST_RET`s of a statement are those of its expression. -/
theorem length_split_isTest (e : Text) :
    (split "TST_RET".toList ("TEST(".toList ++ (e ++ [')', ';']))).length
      = (split "TST_RET".toList e).length := by
  have hopen : "TEST(".toList ++ (e ++ [')', ';'])
      = "TEST".toList ++ '(' :: (e ++ [')'] ++ [';']) := by
    simp
  rw [hopen, length_split_skip (by decide) (by decide) (by decide),
    length_split_concat (by decide) (by decide), length_split_concat (by decide) (by decide)]

theorem ret_infix_isTest {e : Text} :
    "TST_RET".toList <:+: "TEST(".toList ++ (e ++ [')', ';']) ↔ "TST_RET".toList <:+: e := by
  have hopen : "TEST(".toList ++ (e ++ [')', ';'])
      = "TEST".toList ++ '(' :: (e ++ [')', ';']) := rfl
  rw [hopen, infix_append_cons (by decide), infix_append_cons (by decide), or_iff_right (by decide),
    or_iff_left (by decide)]

/-- **The line where a loop agrees with the assigned text**: there is one `TEST(`, with
nothing before it that the loop does not write, and what is behind it is the same. `g` is what
the loop does with the text it keeps. -/
theorem FirstLine.of_eq {rest line x y p f : Text} {g : Text → Text}
    (hg : ∀ s, (g (sliceTo s (-2) ++ [';'])).count '=' ≤ s.count '=') (hp : '=' ∉ p) (hf : '=' ∉ f)
    (hword : ∀ c ∈ f ++ "= ".toList, c ∉ "TST_RET".toList)
    (h : FirstLine (f ++ "= ".toList) rest line x y) (hin : "TEST(".toList <:+: line)
    (heq : p ++ ("= ".toList ++ g (sliceTo ((split "TEST(".toList line).getD 1 []) (-2) ++ [';']))
      = retNamed x) :
    ∃ a r u, line = a ++ ("TEST(".toList ++ r) ∧ ¬ "int ".toList <:+ a ∧ ¬ "TEST(".toList <:+: r ∧
      p = retNamed a ++ f ∧ g (sliceTo r (-2) ++ [';']) = retNamed u ∧
      ((∃ e r', r = e ++ ')' :: ';' :: r' ∧ Balanced e ∧ u = e ++ ';' :: r') ∨
        (u = r ∧ r.head? ≠ some ';')) := by
  have hnamed : ∀ a u, retNamed (a ++ (f ++ "= ".toList ++ u))
      = retNamed a ++ (f ++ '=' :: ' ' :: retNamed u) := by
    intro a u
    rw [retNamed, replaceAll_append (by decide) (by simp) hword]
    simp [retNamed]
  cases h with
  | none h => exact absurd hin h
  | @closed a e r ha hint hr he =>
    rw [split_cut (by decide) ha, split_of_absent hr, hnamed] at heq
    have hcount : (' ' :: g (sliceTo (e ++ ')' :: ';' :: r) (-2) ++ [';'])).count '='
        ≤ (' ' :: retNamed (e ++ ';' :: r)).count '=' := by
      have hle := hg (e ++ ')' :: ';' :: r)
      have hsigns : (e ++ ')' :: ';' :: r).count '=' = (e ++ ';' :: r).count '=' := by simp
      simp only [List.count_cons, count_retNamed (by decide : '=' ∉ "TST_RET".toList) (by decide)]
      omega
    obtain ⟨hbefore, hsame⟩ := before_equality hp hf hcount heq
    exact ⟨a, _, _, rfl, hint, hr, hbefore, (List.cons.inj hsame).2, .inl ⟨e, r, rfl, he, rfl⟩⟩
  | @opened a r _ d ha hint hr hhead hd =>
    rw [split_cut (by decide) ha, split_of_absent hr, hnamed] at heq
    have hcount : (' ' :: g (sliceTo r (-2) ++ [';'])).count '='
        ≤ (' ' :: retNamed r).count '=' := by
      have hle := hg r
      simp only [List.count_cons, count_retNamed (by decide : '=' ∉ "TST_RET".toList) (by decide)]
      omega
    obtain ⟨hbefore, hsame⟩ := before_equality hp hf hcount heq
    exact ⟨a, r, r, rfl, hint, hr, hbefore, (List.cons.inj hsame).2, .inr ⟨rfl, hhead⟩⟩
  | @several a q r z _ ha hq _ _ _ =>
    -- the second assignment has an equality sign that the loop does not write
    rw [split_cut (by decide) ha, split_cut (by decide) hq, hnamed] at heq
    have hle := hg q
    have hcount := congrArg (List.count '=') heq
    have hmore : (retNamed (dropClosing 0 q ++ ("ret = ".toList ++ z))).count '='
        = q.count '=' + (1 + z.count '=') := by
      have hone : "ret = ".toList.count '=' = 1 := by decide
      rw [count_retNamed (by decide) (by decide), List.count_append, List.count_append, hone,
        count_dropClosing (by decide)]
    have hsign : "= ".toList.count '=' = 1 := by decide
    have hget : (a :: q :: split "TEST(".toList r).getD 1 [] = q := rfl
    rw [hget] at hcount
    simp only [List.count_append, List.count_cons, List.count_eq_zero.mpr hp,
      List.count_eq_zero.mpr hf, hmore, hsign] at hcount hle
    simp at hcount
    omega

/-- A line that is a statement becomes an assignment of the assigned text. -/
theorem FirstLine.of_isTest {first rest line x y : Text} (h : FirstLine first rest line x y)
    (hline : IsTest line) : ∃ e, line = "TEST(".toList ++ (e ++ [')', ';']) ∧
      ¬ "TEST(".toList <:+: e ∧ x = first ++ (e ++ [';']) ∧ y = assigned "ret = ".toList rest := by
  obtain ⟨e, heq, he, hbalanced⟩ := hline
  have hsplit := split_isTest he
  rw [← heq] at hsplit
  refine ⟨e, heq, he, ?_⟩
  cases h with
  | none h => exact absurd (heq ▸ List.infix_append' [] _ _) h
  | @closed a e' r ha hint hr he' =>
    rw [split_cut (by decide) ha, split_of_absent hr] at hsplit
    obtain ⟨rfl, hbehind⟩ := List.cons.inj hsplit
    have hdrop := congrArg (dropClosing 0) (List.singleton_inj.mp hbehind)
    rw [dropClosing_close he', dropClosing_close hbalanced] at hdrop
    exact ⟨by rw [hdrop]; rfl, rfl⟩
  | @opened a r _ d ha hint hr hhead hd =>
    rw [split_cut (by decide) ha, split_of_absent hr] at hsplit
    rw [List.singleton_inj.mp (List.cons.inj hsplit).2, depthFrom_append, hbalanced] at hd
    exact absurd hd (by simp [depthFrom])
  | @several a q r z _ ha hq _ _ _ =>
    rw [split_cut (by decide) ha, split_cut (by decide) hq] at hsplit
    exact absurd (List.cons.inj (List.cons.inj hsplit).2).2 (split_ne_nil _ r)

/-- A line that a loop rewrites as a whole: without a `TEST(`, or one statement. -/
def WholeLine (line : Text) : Prop := ¬ "TEST(".toList <:+: line ∨ IsTest line

theorem verfuncRest_of_test_cut {line : Text} (h : "TEST(".toList <:+: line) :
    verfuncRest line = "ret ".toList ++ ("= ".toList ++ replaced "TST_RET".toList "ret".toList
      (sliceTo ((split "TEST(".toList line).getD 1 []) (-2) ++ [';'])) := by
  rw [verfuncRest, tested, if_pos h]
  exact replaced_append_cons (a := "ret =".toList) (c := ' ') (by decide) (by decide) (by decide) _

theorem isTest_of_verfuncRest {rest line x y : Text} (h : FirstLine "ret = ".toList rest line x y)
    (hin : "TEST(".toList <:+: line) (heq : verfuncRest line = retNamed x) :
    IsTest line ∧ (split "TST_RET".toList line).length ≤ 2 := by
  have hcount : ∀ s, (replaced "TST_RET".toList "ret".toList (sliceTo s (-2) ++ [';'])).count '='
      ≤ s.count '=' := fun s =>
    (count_replaced_le (by decide) (by decide)).trans (count_sliceTo_neg_two_le s)
  rw [verfuncRest_of_test_cut hin] at heq
  obtain ⟨a, r, u, rfl, -, hr, hbefore, hsame, hcases⟩ :=
    FirstLine.of_eq (f := "ret ".toList) hcount (by decide) (by decide) (by simp) h hin heq
  -- nothing is before the statement, for the loop would have dropped it
  have hnil : retNamed a = [] := List.append_left_eq_self.mp hbefore.symm
  obtain rfl := (replaceAll_eq_nil (by decide) (by decide)).mp hnil
  rcases hcases with ⟨e, r', rfl, he, rfl⟩ | ⟨rfl, hhead⟩
  · obtain ⟨rfl, hfew⟩ := closed_of_verify hsame
    refine ⟨⟨e, rfl, fun hin => hr (hin.trans (List.prefix_append e _).isInfix), he⟩, ?_⟩
    rw [List.nil_append, length_split_isTest]
    exact hfew
  · exact absurd hsame (not_opened_of_verify hhead)

theorem verfuncRest_of_isTest {rest line x y : Text} (h : FirstLine "ret = ".toList rest line x y)
    (htest : IsTest line) (hfew : (split "TST_RET".toList line).length ≤ 2) :
    verfuncRest line = retNamed x := by
  obtain ⟨e, rfl, he, rfl, -⟩ := h.of_isTest htest
  rw [length_split_isTest] at hfew
  rw [verfuncRest, tested_isTest he]
  refine replaced_eq_retNamed ?_
  have hassign : "ret = ".toList ++ (e ++ [';']) = "ret =".toList ++ ' ' :: (e ++ [';']) := rfl
  rw [hassign, length_split_skip (by decide) (by decide) (by decide),
    length_split_concat (by decide) (by decide)]
  exact hfew

theorem verfuncRest_firstLine {rest line x y : Text}
    (h : FirstLine "ret = ".toList rest line x y) :
    verfuncRest line = retNamed x ↔ WholeLine line ∧ (split "TST_RET".toList line).length ≤ 2 := by
  by_cases hin : "TEST(".toList <:+: line
  · constructor
    · intro heq
      obtain ⟨htest, hfew⟩ := isTest_of_verfuncRest h hin heq
      exact ⟨.inr htest, hfew⟩
    · rintro ⟨hwhole, hfew⟩
      exact verfuncRest_of_isTest h (hwhole.resolve_left (not_not_intro hin)) hfew
  · obtain ⟨rfl, -⟩ := h.of_absent hin
    rw [verfuncRest, tested_of_absent hin, replaced_eq_retNamed_iff]
    exact (and_iff_right (.inl hin)).symm

/-- Text that is all there after `TST_RET`s were replaced, and has no `e`. -/
theorem eq_of_retNamed_eq {a w : Text} (hw : 'e' ∉ w) (h : retNamed a = w) : a = w := by
  by_cases hin : "TST_RET".toList <:+: a
  · obtain ⟨b, c, rfl, hb⟩ := exists_cut (by decide) hin
    rw [retNamed, replaceAll_cut (by decide) hb] at h
    exact absurd (by rw [← h]; simp) hw
  · rwa [retNamed, replaceAll_of_absent hin] at h

/-- What the plain path has yet to write before the equality sign of the next statement. -/
def firstWord (declared : Bool) : Text := if declared then "ret ".toList else "int ret ".toList

theorem isTest_of_tested {declared : Bool} {rest line x y : Text}
    (h : FirstLine (firstWord declared ++ "= ".toList) rest line x y)
    (hin : "TEST(".toList <:+: line) (heq : tested "int ret = ".toList line = retNamed x) :
    declared = false ∧ IsTest line ∧ ¬ "TST_RET".toList <:+: line := by
  have hcut : "int ret ".toList ++ ("= ".toList ++ id (sliceTo
      ((split "TEST(".toList line).getD 1 []) (-2) ++ [';'])) = retNamed x := by
    rw [← heq, tested, if_pos hin, List.append_assoc]
    rfl
  have hword : '=' ∉ firstWord declared ∧
      ∀ c ∈ firstWord declared ++ "= ".toList, c ∉ "TST_RET".toList := by
    cases declared <;> simp [firstWord]
  obtain ⟨a, r, u, rfl, hint, hr, hbefore, hsame, hcases⟩ :=
    FirstLine.of_eq count_sliceTo_neg_two_le (by decide) hword.1 hword.2 h hin hcut
  cases declared with
  | true =>
    -- the second declaration is not in the assigned text
    have hname : retNamed a = "int ".toList :=
      List.append_cancel_right (hbefore.symm : _ ++ "ret ".toList = "int ".toList ++ "ret ".toList)
    rw [eq_of_retNamed_eq (by decide) hname] at hint
    exact absurd (List.suffix_refl _) hint
  | false =>
    have hnil : retNamed a = [] := List.append_left_eq_self.mp hbefore.symm
    obtain rfl := (replaceAll_eq_nil (by decide) (by decide)).mp hnil
    rcases hcases with ⟨e, r', rfl, he, rfl⟩ | ⟨rfl, hhead⟩
    · obtain ⟨rfl, hfree⟩ := closed_of_plain hsame
      refine ⟨rfl, ⟨e, rfl, fun hin => hr (hin.trans (List.prefix_append e _).isInfix), he⟩, ?_⟩
      rw [List.nil_append, ret_infix_isTest]
      exact hfree
    · exact absurd hsame (not_opened_of_plain hhead)

theorem tested_of_isTest {rest line x y : Text}
    (h : FirstLine (firstWord false ++ "= ".toList) rest line x y) (htest : IsTest line)
    (hfree : ¬ "TST_RET".toList <:+: line) : tested "int ret = ".toList line = retNamed x := by
  obtain ⟨e, rfl, he, rfl, -⟩ := h.of_isTest htest
  have hassign : "int ret = ".toList ++ (e ++ [';'])
      = "int ret =".toList ++ ' ' :: (e ++ [';']) := rfl
  rw [tested_isTest he]
  refine (replaceAll_of_absent ?_).symm
  show ¬ "TST_RET".toList <:+: "int ret = ".toList ++ (e ++ [';'])
  rw [hassign, infix_append_cons (by decide), infix_append_cons (by decide), not_or, not_or]
  exact ⟨by decide, fun hin => hfree (ret_infix_isTest.mpr hin), by decide⟩

theorem tested_firstLine {declared : Bool} {rest line x y : Text}
    (h : FirstLine (firstWord declared ++ "= ".toList) rest line x y) :
    tested "int ret = ".toList line = retNamed x ↔
      (WholeLine line ∧ ¬ "TST_RET".toList <:+: line) ∧
        (declared = true → ¬ "TEST(".toList <:+: line) := by
  by_cases hin : "TEST(".toList <:+: line
  · constructor
    · intro heq
      obtain ⟨rfl, htest, hfree⟩ := isTest_of_tested h hin heq
      exact ⟨⟨.inr htest, hfree⟩, nofun⟩
    · rintro ⟨⟨hwhole, hfree⟩, hfirst⟩
      cases declared with
      | true => exact absurd hin (hfirst rfl)
      | false => exact tested_of_isTest h (hwhole.resolve_left (not_not_intro hin)) hfree
  · obtain ⟨rfl, -⟩ := h.of_absent hin
    rw [tested_of_absent hin]
    constructor
    · intro heq
      exact ⟨⟨.inl hin, not_infix_of_length_retNamed (by rw [← heq])⟩, fun _ => hin⟩
    · rintro ⟨⟨-, hfree⟩, -⟩
      exact (replaceAll_of_absent hfree).symm

/-! ## All lines -/

theorem FirstLine.behind {first rest line x y : Text} (h : FirstLine first rest line x y)
    (hline : WholeLine line) :
    y = assigned (if "TEST(".toList <:+: line then "ret = ".toList else first) rest := by
  rcases hline with hno | htest
  · rw [if_neg hno]
    exact (h.of_absent hno).2
  · obtain ⟨e, rfl, -, -, rfl⟩ := h.of_isTest htest
    rw [if_pos (List.prefix_append _ _).isInfix]

theorem newline_not_mem_retNamed {x : Text} (h : '\n' ∉ x) : '\n' ∉ retNamed x := by
  rw [← List.count_eq_zero, count_retNamed (by decide) (by decide), List.count_eq_zero]
  exact h

/-- One statement more, or a declaration before, leaves no other. -/
theorem at_most_one {p : Prop} [Decidable p] (declared : Bool) (n : Nat) :
    n + (if decide p = true then 1 else 0) + declared.toNat ≤ 1 ↔
      (declared = true → ¬ p) ∧ n + (declared || decide p).toNat ≤ 1 := by
  by_cases h : p <;> cases declared <;> simp [h]

end UnikraftSuite
