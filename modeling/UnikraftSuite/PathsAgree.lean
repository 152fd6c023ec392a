import UnikraftSuite.LinePaths

/-!
# Whether the two paths agree

A line with a `SAFE_` call and without the other markers should come out the same from
`verfuncLine` and `convertLine`. They differ before the `SAFE_` step, where `verfunc` first
replaces a `SAFE_WRITE_ALL`, and behind it, where markers may have come about by the
rewriting.

- `writeAll_skip`: a `SAFE_WRITE_ALL` is looked for behind the other calls.
- `test_in_call_iff`, `ret_ne_fprintf`: which markers can come about, and that the two
  paths then differ.
- `pathsAgree_iff`: the paths agree exactly when the first two calls do not begin with
  `SAFE_WRITE_ALL` and no marker comes about (`Plain`), or when two accidents meet
  (`Accident`).
-/

namespace UnikraftSuite

open PyStr Substring Raise

/-! ## `SAFE_WRITE_ALL` -/

theorem writeAll_eq_append : "SAFE_WRITE_ALL".toList = "SAFE_".toList ++ "WRITE_ALL".toList := rfl

/-- A `SAFE_` that does not begin the marker is passed over. -/
theorem writeAll_skip {a t : Text} (ha : ¬ "SAFE_".toList <:+: a)
    (ht : ¬ "WRITE_ALL".toList <+: t) :
    writeAll (a ++ ("SAFE_".toList ++ t)) = a ++ ("SAFE_".toList ++ writeAll t) := by
  have hhere : ¬ "SAFE_WRITE_ALL".toList <+: "SAFE_".toList ++ t := by
    rw [writeAll_eq_append, List.prefix_append_right_inj]
    exact ht
  rw [← List.append_assoc, writeAll, replaced_append (by decide), List.append_assoc]
  · rfl
  intro u hu hne hpre
  rcases List.suffix_or_suffix_of_suffix hu (List.suffix_append a "SAFE_".toList) with h | h
  · -- only the whole of `SAFE_` begins with its first letter
    have hhead : ∀ u ∈ "SAFE_".toList.tails, u = "SAFE_".toList ∨ u.head? ≠ some 'S' := by decide
    rcases hhead u ((List.mem_tails _ _).mpr h) with rfl | hs
    · exact hhere hpre
    · obtain ⟨c, u', rfl⟩ := List.exists_cons_of_ne_nil hne
      obtain ⟨w, hw⟩ := hpre
      exact hs (congrArg some (List.cons.inj hw).1.symm)
  · obtain ⟨a', rfl⟩ := h
    obtain ⟨w, hw⟩ := hu
    rw [← List.append_assoc] at hw
    have hsuf : a' <:+ a := ⟨w, List.append_cancel_right hw⟩
    rw [List.append_assoc] at hpre
    cases a' with
    | nil => exact hhere hpre
    | cons c a' =>
      have hfirst : FirstAt "SAFE_".toList (c :: a') :=
        .of_unbordered (by decide) fun hin => ha (hin.trans hsuf.isInfix)
      refine hfirst.not_begins t ?_
      exact List.IsPrefix.trans ⟨"WRITE_ALL".toList, rfl⟩ hpre

/-- At the marker the line is cut. -/
theorem writeAll_here {a t : Text} (ha : ¬ "SAFE_".toList <:+: a)
    (ht : "WRITE_ALL".toList <+: t) :
    ∃ b, b <:+: t ∧ writeAll (a ++ ("SAFE_".toList ++ t)) = a ++ '1' :: b := by
  obtain ⟨r, rfl⟩ := ht
  have hline : a ++ ("SAFE_".toList ++ ("WRITE_ALL".toList ++ r))
      = a ++ ("SAFE_WRITE_ALL".toList ++ r) := by
    rw [writeAll_eq_append, List.append_assoc]
  have hfirst : FirstAt "SAFE_WRITE_ALL".toList a :=
    .of_unbordered (by decide) fun hin => ha (List.IsInfix.trans (by decide) hin)
  have hin : "SAFE_WRITE_ALL".toList <:+: a ++ ("SAFE_WRITE_ALL".toList ++ r) := ⟨a, r, by simp⟩
  obtain ⟨b, bs, hb⟩ := List.exists_cons_of_ne_nil (split_ne_nil "SAFE_WRITE_ALL".toList r)
  refine ⟨b, (prefix_of_split (by decide) hb).isInfix.trans (List.suffix_append _ r).isInfix, ?_⟩
  rw [hline, writeAll, replaced, if_pos hin, split_cut (by decide) hfirst, hb]
  exact List.append_assoc a ['1'] b

/-! ## Markers that come about -/

/-- A `TEST(` comes about when `TEST` stands before a call without a name. -/
theorem test_in_call_iff {a n g : Text} (ha : ¬ "TEST(".toList <:+: a) (hn : '(' ∉ n)
    (hg : '(' ∉ g) :
    "TEST(".toList <:+: a ++ (lower n ++ '(' :: g) ↔ n = [] ∧ "TEST".toList <:+ a := by
  have hln := paren_not_mem_lower hn
  have htest : "TEST(".toList = "TEST".toList ++ ['('] := rfl
  have hname : "TEST".toList <:+ a ++ lower n ↔ n = [] ∧ "TEST".toList <:+ a := by
    constructor
    · intro h
      have hcapital : 'T' ∉ lower n := not_mem_lower_of_isUpper (by decide) n
      rcases List.suffix_or_suffix_of_suffix h (List.suffix_append a (lower n)) with h' | h'
      · exact absurd (h'.subset (by decide)) hcapital
      · -- a name would end in a capital
        have hends : ∀ u ∈ "TEST".toList.tails, u = [] ∨ 'T' ∈ u := by decide
        have hnil := (hends _ ((List.mem_tails _ _).mpr h')).resolve_right hcapital
        rw [hnil, List.append_nil] at h
        exact ⟨List.map_eq_nil_iff.mp hnil, h⟩
    · rintro ⟨rfl, h⟩
      simpa [lower] using h
  rw [← List.append_assoc, htest, infix_append_last hg, infix_append_of_not_mem hln, ← htest,
    or_iff_right ha, hname]

/-- Replacing a `TST_RET` is not replacing a `file_printf`. -/
theorem ret_ne_fprintf {p r w : Text} :
    replaced "file_printf".toList "fprintf".toList (p ++ ("TST_RET".toList ++ r))
      ≠ p ++ ("ret".toList ++ w) := by
  intro heq
  by_cases hin : "file_printf".toList <:+: p ++ ("TST_RET".toList ++ r)
  · obtain ⟨q, b, r', hline, -, -, hq⟩ := replaced_cut (by decide) hin "fprintf".toList
    rw [hq, List.append_assoc] at heq
    rcases List.append_eq_append_iff.mp hline with ⟨t, rfl, ht⟩ | ⟨t, rfl, ht⟩
    · rw [List.append_assoc] at heq
      have hrest := List.append_cancel_left heq
      cases t with
      | nil => simp at ht
      | cons c t => simp_all
    · rw [List.append_assoc] at heq
      have hrest := List.append_cancel_left heq
      match t with
      | [] => simp at ht
      | [c] => simp at ht
      | c :: d :: t => simp_all
  · rw [replaced_of_absent hin] at heq
    have hhead := List.append_cancel_left heq
    simp at hhead

/-! ## The call after `SAFE_WRITE_ALL` is replaced -/

theorem repeated_of_ne_nil {arg : Text} {more : List Text} (h : more ≠ []) :
    repeated arg more = arg ++ more.flatten := if_neg h

/-- More text behind the arguments is text behind what becomes of them. -/
theorem glued_append_cons {c : Char} (hc : c ≠ '(') (args b : Text) :
    ∃ z, glued (args ++ c :: b) = glued args ++ c :: z := by
  have hsplit := split_append_cons (by decide : "(".toList ≠ []) (c := c) (by simpa using hc) args b
  obtain ⟨q, qs, hq⟩ := List.exists_cons_of_ne_nil (split_ne_nil "(".toList b)
  obtain ⟨p, more, hp⟩ := List.exists_cons_of_ne_nil (split_ne_nil "(".toList args)
  rw [hp, hq] at hsplit
  unfold glued
  rw [hsplit, hp]
  rcases List.eq_nil_or_concat more with rfl | ⟨more', l, rfl⟩
  · exact ⟨q ++ repeated (p ++ c :: q) qs, by simp [repeated]⟩
  · have hlast : (p :: more'.concat l).getLastD [] = l := by
      rw [List.concat_eq_append, ← List.cons_append, List.getLastD_concat]
    have hinit : (p :: more'.concat l).dropLast = p :: more' := by
      rw [List.concat_eq_append, ← List.cons_append, List.dropLast_concat]
    rw [hlast, hinit]
    refine ⟨q ++ qs.flatten, ?_⟩
    show p ++ repeated p (more' ++ (l ++ c :: q) :: qs)
      = p ++ repeated p (more'.concat l) ++ c :: (q ++ qs.flatten)
    rw [repeated_of_ne_nil (by simp), repeated_of_ne_nil (by simp)]
    simp

theorem exists_behind (b : Text) :
    ∃ b' y, b = b' ++ y ∧ ¬ "SAFE_".toList <:+: b' ∧ (y = [] ∨ "SAFE_".toList <+: y) := by
  by_cases h : "SAFE_".toList <:+: b
  · obtain ⟨b', r, rfl, hfirst⟩ := exists_cut (by decide) h
    exact ⟨b', _, rfl, hfirst.absent, .inr (List.prefix_append _ r)⟩
  · exact ⟨b, [], (List.append_nil b).symm, h, .inl rfl⟩

/-- What `rewriteSafe` makes of the call on the path of `verfunc`, when the marker does not
begin at it: the same, or more text behind it when the marker is the next `SAFE_`. -/
theorem rewriteSafe_writeAll {line a n args y : Text} (h : FirstCall line a n args y)
    (hn : ¬ "WRITE_ALL".toList <+: n) :
    ∃ z, '(' ∉ z ∧
      rewriteSafe (writeAll line) = .ok (a ++ (lower n ++ '(' :: (glued args ++ z))) ∧
      (¬ "SAFE_WRITE_ALL".toList <+: y ∧ z = [] ∨
        "SAFE_WRITE_ALL".toList <+: y ∧ ∃ z', z = '1' :: z') := by
  have hbegin : ¬ "WRITE_ALL".toList <+: n ++ '(' :: (args ++ y) := by
    rw [prefix_append_cons (by decide)]
    exact hn
  have hskip := writeAll_skip h.before hbegin
  rw [← h.line_eq] at hskip
  have hassoc : ∀ y : Text, n ++ '(' :: (args ++ y) = (n ++ '(' :: args) ++ y := by simp
  rw [hassoc] at hskip
  by_cases hy : "SAFE_WRITE_ALL".toList <+: y
  · -- the call goes on behind the digit, up to the next `SAFE_`
    have hnext := hy
    obtain ⟨t, rfl⟩ := hy
    obtain ⟨b, -, hhere⟩ := writeAll_here (t := "WRITE_ALL".toList ++ t) h.call
      (List.prefix_append _ t)
    obtain ⟨b', y', rfl, hb', hy'⟩ := exists_behind b
    obtain ⟨z, hz⟩ := glued_append_cons (c := '1') (by decide) args b'
    have hfirst : FirstCall (writeAll line) a n (args ++ '1' :: b') y' := by
      refine ⟨?_, h.before, h.name, ?_, hy'⟩
      · have hy : "SAFE_".toList ++ ("WRITE_ALL".toList ++ t) = "SAFE_WRITE_ALL".toList ++ t := rfl
        rw [hy] at hhere
        rw [hskip, hhere]
        simp
      · rw [← List.cons_append, ← List.append_assoc, infix_append_cons (by decide)]
        exact not_or.mpr ⟨h.call, hb'⟩
    refine ⟨'1' :: z, fun hmem => ?_, ?_, .inr ⟨hnext, z, rfl⟩⟩
    · have hno := paren_not_mem_glued (args ++ '1' :: b')
      rw [hz] at hno
      exact hno (List.mem_append_right _ hmem)
    · rw [hfirst.rewriteSafe_eq, hz]
  · -- the marker is behind the call, so the call itself is the same
    have hcall : ∃ y', writeAll ((n ++ '(' :: args) ++ y) = (n ++ '(' :: args) ++ y' ∧
        (y' = [] ∨ "SAFE_".toList <+: y') := by
      rcases h.behind with rfl | ⟨t, rfl⟩
      · refine ⟨[], ?_, .inl rfl⟩
        rw [List.append_nil]
        exact replaced_of_absent fun hin =>
          h.call (List.IsInfix.trans (List.IsPrefix.isInfix ⟨"WRITE_ALL".toList, rfl⟩) hin)
      · rw [writeAll_eq_append, List.prefix_append_right_inj] at hy
        exact ⟨_, writeAll_skip h.call hy, .inr (List.prefix_append _ _)⟩
    obtain ⟨y', hline, hy'⟩ := hcall
    have hfirst : FirstCall (writeAll line) a n args y' :=
      ⟨by rw [hskip, hline, hassoc], h.before, h.name, h.call, hy'⟩
    refine ⟨[], List.not_mem_nil, ?_, .inl ⟨hy, rfl⟩⟩
    rw [hfirst.rewriteSafe_eq, List.append_nil]

/-! ## Agreement -/

/-- The lines in question: with a `SAFE_`, and without the markers of other rewritings. -/
structure SafeOnly (line : Text) : Prop where
  safe : "SAFE_".toList <:+: line
  test : ¬ "TEST(".toList <:+: line
  ret : ¬ "TST_RET".toList <:+: line
  res : ¬ "tst_res".toList <:+: line
  printf : ¬ "file_printf".toList <:+: line
  incl : ¬ "#include".toList <:+: line

instance (line : Text) : Decidable (SafeOnly line) :=
  decidable_of_iff ("SAFE_".toList <:+: line ∧ ¬ "TEST(".toList <:+: line ∧
      ¬ "TST_RET".toList <:+: line ∧ ¬ "tst_res".toList <:+: line ∧
      ¬ "file_printf".toList <:+: line ∧ ¬ "#include".toList <:+: line)
    ⟨fun ⟨h₁, h₂, h₃, h₄, h₅, h₆⟩ => ⟨h₁, h₂, h₃, h₄, h₅, h₆⟩,
      fun h => ⟨h.safe, h.test, h.ret, h.res, h.printf, h.incl⟩⟩

/-- The loop of `verfunc` and the segment loop produce the same line. -/
def PathsAgree (line : Text) : Prop :=
  ∃ l, verfuncLine line = .ok l ∧ convertLine line = .ok (l ++ "\n".toList)

/-- A first call that both paths rewrite in the same way: neither it nor the next `SAFE_`
begins with `SAFE_WRITE_ALL`, and no other marker comes about by rewriting it. -/
structure PlainCall (a n args y : Text) : Prop where
  here : ¬ "WRITE_ALL".toList <+: n
  next : ¬ "SAFE_WRITE_ALL".toList <+: y
  test : ¬ (n = [] ∧ "TEST".toList <:+ a)
  marks : ∀ m ∈ ["TST_RET".toList, "file_printf".toList],
    ¬ m <:+: a ++ lower n ∧ ¬ m <:+: glued args

/-- The segment loop does not pass the line over, and its first call is plain. -/
def Plain (line : Text) : Prop :=
  ¬ skipLine line ∧ ∃ a n args y, FirstCall line a n args y ∧ PlainCall a n args y

/-- What is left of a line on the path of `verfunc` when a `TEST(` comes about in it: the
assignment of the text behind it. -/
def assignedText (g : Text) : Text :=
  replaced "TST_RET".toList "ret".toList ("ret = ".toList ++ sliceTo g (-2) ++ ";".toList)

/-- The first `SAFE_` begins with `SAFE_WRITE_ALL`, so one path has a digit where the other has
a name. Both lose it when a `TEST(` comes about behind the digit and two `file_printf` come about
before the parenthesis of the call; what is left is the same by accident. -/
def Accident (line : Text) : Prop :=
  ¬ skipLine line ∧ ∃ a n args y u args' y' x₀ x₁ x₂ xs,
    FirstCall line a n args y ∧ "WRITE_ALL".toList <+: n ∧
    FirstCall (writeAll line) (u ++ "TEST".toList) [] args' y' ∧
    split "file_printf".toList (a ++ lower n) = x₀ :: x₁ :: x₂ :: xs ∧
    assignedText (glued args') = x₀ ++ "fprintf".toList ++ x₁

/-- The markers that can come about in the rewritten call. -/
theorem not_mark_iff {m a n g : Text} (hm : m ∈ ["TST_RET".toList, "file_printf".toList]) :
    ¬ m <:+: a ++ (lower n ++ '(' :: g) ↔ ¬ m <:+: a ++ lower n ∧ ¬ m <:+: g := by
  have hparen : ∀ m ∈ ["TST_RET".toList, "file_printf".toList], '(' ∉ m := by decide
  rw [← List.append_assoc, infix_append_cons (hparen m hm), not_or]

theorem pathsAgree_of_plain {line : Text} (hline : SafeOnly line) (h : Plain line) :
    PathsAgree line := by
  obtain ⟨hkept, a, n, args, y, hcall, hplain⟩ := h
  have htest : ¬ "TEST(".toList <:+: a ++ (lower n ++ '(' :: glued args) := by
    rw [test_in_call_iff (hcall.not_infix_before hline.test) hcall.name
      (paren_not_mem_glued args)]
    exact hplain.test
  have hmark : ∀ m ∈ ["TST_RET".toList, "file_printf".toList],
      ¬ m <:+: a ++ (lower n ++ '(' :: glued args) := fun m hm =>
    (not_mark_iff hm).mpr (hplain.marks m hm)
  have hret := hmark _ List.mem_cons_self
  have hprintf := hmark _ (List.mem_cons_of_mem _ List.mem_cons_self)
  obtain ⟨z, -, hsafe, ⟨-, rfl⟩ | ⟨hnext, -⟩⟩ := rewriteSafe_writeAll hcall hplain.here
  · rw [List.append_nil] at hsafe
    refine ⟨_, verfuncLine_eq_ok.mpr ⟨_, hsafe, rfl⟩,
      convertLine_eq_ok.mpr ⟨hkept, _, hcall.rewriteSafe_eq, ?_⟩⟩
    rw [convertRest, replaced_of_absent hprintf, tested_of_absent htest, verfuncRest,
      tested_of_absent htest, replaced_of_absent hret]
  · exact absurd hnext hplain.next

/-! ## Where they differ -/

theorem test_not_mem_replaced {line : Text} (h : ¬ "TEST(".toList <:+: line) :
    ¬ "TEST(".toList <:+: replaced "file_printf".toList "fprintf".toList line := by
  by_cases hin : "file_printf".toList <:+: line
  · obtain ⟨a, b, r, rfl, -, hb, heq⟩ := replaced_cut (by decide) hin "fprintf".toList
    rw [heq, List.append_assoc, infix_append_sep (by simp) (by simp), not_or]
    refine ⟨fun ha => h (ha.trans (List.prefix_append a _).isInfix), fun hb' => h ?_⟩
    exact (hb'.trans hb.isInfix).trans
      ((List.suffix_append _ r).trans (List.suffix_append a _)).isInfix
  · rwa [replaced_of_absent hin]

theorem convertRest_of_no_test {line : Text} (h : ¬ "TEST(".toList <:+: line) :
    convertRest line = replaced "file_printf".toList "fprintf".toList line :=
  tested_of_absent (test_not_mem_replaced h)

theorem verfuncRest_of_no_test {line : Text} (h : ¬ "TEST(".toList <:+: line) :
    verfuncRest line = replaced "TST_RET".toList "ret".toList line := by
  rw [verfuncRest, tested_of_absent h]

/-- A line with a `TEST(` begins with `ret = ` on the path of `verfunc` ... -/
theorem verfuncRest_of_test {line : Text} (h : "TEST(".toList <:+: line) :
    ∃ w, verfuncRest line = 'r' :: w := by
  obtain ⟨-, b, -, -, -, -, heq⟩ := tested_cut h "ret = ".toList
  refine ⟨replaced "TST_RET".toList "ret".toList ("et = ".toList ++ b ++ ";".toList), ?_⟩
  rw [verfuncRest, heq]
  exact replaced_append_cons (a := []) (c := 'r') (by decide) (by decide) (by decide) _

/-- ... and with `int ret = ` on the other. -/
theorem convertRest_of_test {a g : Text} (ha : ¬ "file_printf".toList <:+: a)
    (h : "TEST".toList <:+ a) : ∃ w, convertRest (a ++ '(' :: g) = 'i' :: w := by
  have hin : "TEST(".toList <:+: a ++ '(' :: replaced "file_printf".toList "fprintf".toList g := by
    obtain ⟨u, rfl⟩ := h
    exact ⟨u, replaced "file_printf".toList "fprintf".toList g, by simp⟩
  obtain ⟨-, b, -, -, -, -, heq⟩ := tested_cut hin "int ret = ".toList
  refine ⟨"nt ret = ".toList ++ b ++ ";".toList, ?_⟩
  rw [convertRest, replaced_append_cons (by decide) (by decide) ha, heq]
  rfl

/-- With a `TST_RET` that came about the results differ, whatever follows the call. -/
theorem ret_not_infix {x z : Text}
    (h : replaced "TST_RET".toList "ret".toList (x ++ z)
      = replaced "file_printf".toList "fprintf".toList x) : ¬ "TST_RET".toList <:+: x := by
  intro hin
  obtain ⟨p, r, rfl, hp⟩ := exists_cut (by decide) hin
  obtain ⟨w, -, hw⟩ := replaced_at (by decide) hp "ret".toList (r ++ z)
  have hassoc : p ++ ("TST_RET".toList ++ r) ++ z = p ++ ("TST_RET".toList ++ (r ++ z)) := by simp
  rw [hassoc, hw] at h
  exact ret_ne_fprintf h.symm

/-- A line whose `SAFE_WRITE_ALL` is not at the first call. -/
theorem plain_of_agree {line a n args y l : Text} (hline : SafeOnly line) (hkept : ¬ skipLine line)
    (hcall : FirstCall line a n args y) (hn : ¬ "WRITE_ALL".toList <+: n)
    (hverfunc : verfuncLine line = .ok l)
    (hconvert : convertRest (a ++ (lower n ++ '(' :: glued args)) = l) : Plain line := by
  obtain ⟨s, hs, hrest⟩ := verfuncLine_eq_ok.mp hverfunc
  have hatest : ¬ "TEST(".toList <:+: a := hcall.not_infix_before hline.test
  have haprintf : ¬ "file_printf".toList <:+: a := hcall.not_infix_before hline.printf
  have htests : ∀ g, '(' ∉ g → ("TEST(".toList <:+: a ++ (lower n ++ '(' :: g)
      ↔ n = [] ∧ "TEST".toList <:+ a) := fun g hg => test_in_call_iff hatest hcall.name hg
  obtain ⟨z, hz, hsafe, hznext⟩ := rewriteSafe_writeAll hcall hn
  have hsz := Except.ok.inj (hs.symm.trans hsafe)
  have hgz : '(' ∉ glued args ++ z := by simp [paren_not_mem_glued, hz]
  have htest : ¬ (n = [] ∧ "TEST".toList <:+ a) := by
    intro h
    obtain ⟨w, hw⟩ := verfuncRest_of_test ((htests _ hgz).mpr h)
    rw [← hsz, hrest] at hw
    obtain ⟨rfl, h⟩ := h
    obtain ⟨w', hw'⟩ := convertRest_of_test (g := glued args) haprintf h
    have hsame : convertRest (a ++ '(' :: glued args) = l := hconvert
    rw [hsame, hw] at hw'
    exact absurd (List.cons.inj hw').1 (by decide)
  have hs' : s = (a ++ (lower n ++ '(' :: glued args)) ++ z := by
    rw [hsz]
    simp
  rw [verfuncRest_of_no_test (by rw [hsz, htests _ hgz]; exact htest), hs'] at hrest
  rw [convertRest_of_no_test (by rw [htests _ (paren_not_mem_glued args)]; exact htest)] at hconvert
  have hret := ret_not_infix (hrest.trans hconvert.symm)
  rcases hznext with ⟨hnext, rfl⟩ | ⟨-, z', rfl⟩
  · rw [List.append_nil, replaced_of_absent hret, ← hconvert] at hrest
    have hprintf := (replaced_eq_self_iff (by decide)).mp hrest.symm
    refine ⟨hkept, a, n, args, y, hcall, hn, hnext, htest, fun m hm => ?_⟩
    rw [← not_mark_iff hm]
    rcases List.mem_pair.mp hm with rfl | rfl
    · exact hret
    · exact hprintf
  · -- the text behind the call is still there, so this path's line is longer
    rw [replaced_append_cons (by decide) (by decide) hret, ← hconvert] at hrest
    have hle : (replaced "file_printf".toList "fprintf".toList
        (a ++ (lower n ++ '(' :: glued args))).length
          ≤ (a ++ (lower n ++ '(' :: glued args)).length :=
      length_replaced_le (by decide)
    rw [← hrest, List.length_append, List.length_cons] at hle
    omega

/-- Before the first call nothing changes when a text begins with a foreign character. -/
theorem rewriteSafe_append_cons {a b s : Text} {c : Char} (hc : c ∉ "SAFE_".toList)
    (ha : ¬ "SAFE_".toList <:+: a) (h : rewriteSafe (a ++ c :: b) = .ok s) :
    ∃ s', s = a ++ c :: s' := by
  by_cases hin : "SAFE_".toList <:+: a ++ c :: b
  · obtain ⟨a', n, args, y, hcall⟩ := exists_firstCall h hin
    rw [hcall.rewriteSafe_eq] at h
    rw [← Except.ok.inj h]
    rcases List.append_eq_append_iff.mp hcall.line_eq with ⟨t, rfl, ht⟩ | ⟨t, rfl, ht⟩
    · cases t with
      | nil =>
        have hfirst : c = 'S' := (List.cons.inj ht).1
        exact absurd (by rw [hfirst]; decide) hc
      | cons d t =>
        obtain ⟨rfl, -⟩ := List.cons.inj ht
        exact ⟨t ++ (lower n ++ '(' :: glued args), by simp⟩
    · have hpre : "SAFE_".toList <+: t ++ c :: b := ⟨_, ht⟩
      rw [prefix_append_cons hc] at hpre
      exact absurd (hpre.isInfix.trans (List.suffix_append a' t).isInfix) ha
  · rw [rewriteSafe_of_absent hin] at h
    exact ⟨b, (Except.ok.inj h).symm⟩

/-- The line in which a `TEST(` came about. -/
theorem verfuncRest_unnamed {u g : Text} (hu : ¬ "TEST(".toList <:+: u) (hg : '(' ∉ g) :
    verfuncRest (u ++ "TEST".toList ++ (lower [] ++ '(' :: g)) = assignedText g := by
  have hcut : u ++ "TEST".toList ++ (lower [] ++ '(' :: g) = u ++ ("TEST(".toList ++ g) := by
    rw [List.append_assoc]
    rfl
  have hno : ¬ "TEST(".toList <:+: g := fun hin => hg (hin.subset (by decide))
  rw [hcut, verfuncRest, tested, if_pos ⟨u, g, by simp⟩,
    split_cut (by decide) (.of_unbordered (by decide) hu), split_of_absent hno]
  rfl

/-- No parenthesis is left of it. -/
theorem paren_not_mem_assignedText {g : Text} (hg : '(' ∉ g) : '(' ∉ assignedText g := by
  have hslice : '(' ∉ sliceTo g (-2) := fun hmem => hg (List.mem_of_mem_take hmem)
  refine not_mem_replaced (by decide) (by decide) ?_
  rw [List.mem_append, List.mem_append, not_or, not_or]
  exact ⟨⟨by decide, hslice⟩, by decide⟩

/-- The second piece still has the parenthesis. -/
theorem paren_mem_replaced {u g : Text} (h : (split "file_printf".toList u).length < 3) :
    '(' ∈ replaced "file_printf".toList "fprintf".toList (u ++ '(' :: g) := by
  obtain ⟨w, hw⟩ := exists_replaced_append (c := '(') (by decide) (by decide) h "fprintf".toList g
  rw [hw]
  simp

/-- A line whose `SAFE_WRITE_ALL` is at the first call. -/
structure WriteAllFirst (line a n args y : Text) : Prop where
  call : FirstCall line a n args y
  here : "WRITE_ALL".toList <+: n

/-- On the path of `verfunc` the line has a digit, and no other `TEST(` than before. -/
theorem WriteAllFirst.writeAll_eq {line a n args y : Text} (h : WriteAllFirst line a n args y)
    (htest : ¬ "TEST(".toList <:+: line) :
    ∃ b, writeAll line = a ++ '1' :: b ∧ ¬ "TEST(".toList <:+: writeAll line := by
  obtain ⟨b, hb, hcut⟩ := writeAll_here (t := n ++ '(' :: (args ++ y)) h.call.before
    (h.here.trans (List.prefix_append n _))
  rw [← h.call.line_eq] at hcut
  have hbline : b <:+: line := by
    rw [h.call.line_eq]
    exact hb.trans ((List.suffix_append _ _).trans (List.suffix_append a _)).isInfix
  refine ⟨b, hcut, ?_⟩
  rw [hcut, infix_append_cons (by decide), not_or]
  exact ⟨h.call.not_infix_before htest, fun hin => htest (hin.trans hbline)⟩

/-- On the other path it has a name, and only its `file_printf`s are replaced. -/
theorem WriteAllFirst.convertRest_eq {line a n args y : Text} (h : WriteAllFirst line a n args y)
    (htest : ¬ "TEST(".toList <:+: line) :
    convertRest (a ++ (lower n ++ '(' :: glued args))
      = replaced "file_printf".toList "fprintf".toList (a ++ lower n ++ '(' :: glued args) := by
  have hno : ¬ "TEST(".toList <:+: a ++ (lower n ++ '(' :: glued args) := by
    rw [test_in_call_iff (h.call.not_infix_before htest) h.call.name
      (paren_not_mem_glued args)]
    rintro ⟨rfl, -⟩
    exact absurd h.here (by decide)
  rw [convertRest_of_no_test hno, List.append_assoc]

/-- Only a `TEST(` that came about could drop the digit. -/
theorem WriteAllFirst.test_of_agree {line a n args y s : Text} (h : WriteAllFirst line a n args y)
    (hline : SafeOnly line) (hs : rewriteSafe (writeAll line) = .ok s)
    (hagree : verfuncRest s
      = replaced "file_printf".toList "fprintf".toList (a ++ lower n ++ '(' :: glued args)) :
    "TEST(".toList <:+: s := by
  by_contra hno
  obtain ⟨b, hcut, -⟩ := h.writeAll_eq hline.test
  rw [hcut] at hs
  obtain ⟨s', rfl⟩ := rewriteSafe_append_cons (by decide) h.call.before hs
  have haret : ¬ "TST_RET".toList <:+: a := h.call.not_infix_before hline.ret
  have haprintf : ¬ "file_printf".toList <:+: a := h.call.not_infix_before hline.printf
  obtain ⟨r, rfl⟩ := h.here
  have hname : a ++ lower ("WRITE_ALL".toList ++ r) ++ '(' :: glued args
      = a ++ 'w' :: ("rite_all".toList ++ (lower r ++ '(' :: glued args)) := by
    simp [lower]
  -- neither path changes the first letter behind the text before the call
  rw [verfuncRest_of_no_test hno, replaced_append_cons (by decide) (by decide) haret, hname,
    replaced_append_cons (by decide) (by decide) haprintf] at hagree
  exact absurd (List.cons.inj (List.append_cancel_left hagree)).1 (by decide)

theorem accident_of_agree {line a n args y l : Text} (hline : SafeOnly line)
    (hkept : ¬ skipLine line) (h : WriteAllFirst line a n args y)
    (hverfunc : verfuncLine line = .ok l)
    (hconvert : convertRest (a ++ (lower n ++ '(' :: glued args)) = l) : Accident line := by
  obtain ⟨s, hs, hrest⟩ := verfuncLine_eq_ok.mp hverfunc
  rw [h.convertRest_eq hline.test] at hconvert
  have htest := h.test_of_agree hline hs (hrest.trans hconvert.symm)
  obtain ⟨-, -, hfree⟩ := h.writeAll_eq hline.test
  by_cases hin : "SAFE_".toList <:+: writeAll line
  · obtain ⟨a', n', args', y', hcall⟩ := exists_firstCall hs hin
    have ha' : ¬ "TEST(".toList <:+: a' := hcall.not_infix_before hfree
    have hg := paren_not_mem_glued args'
    rw [hcall.rewriteSafe_eq] at hs
    rw [← Except.ok.inj hs] at htest hrest
    obtain ⟨rfl, u, rfl⟩ := (test_in_call_iff ha' hcall.name hg).mp htest
    have hu : ¬ "TEST(".toList <:+: u := fun hin => ha' (hin.trans (List.prefix_append u _).isInfix)
    rw [verfuncRest_unnamed hu hg, ← hconvert] at hrest
    -- the parenthesis of the call is lost, too, so it is behind two `file_printf`s
    have hthree : 3 ≤ (split "file_printf".toList (a ++ lower n)).length := by
      by_contra hshort
      refine paren_not_mem_assignedText hg ?_
      rw [hrest]
      exact paren_mem_replaced (by omega)
    match hsplit : split "file_printf".toList (a ++ lower n) with
    | [] | [_] | [_, _] =>
      rw [hsplit] at hthree
      simp at hthree
    | x₀ :: x₁ :: x₂ :: xs =>
      refine ⟨hkept, a, n, args, y, u, args', y', x₀, x₁, x₂, xs, h.call, h.here, hcall, hsplit, ?_⟩
      rw [hrest, replaced_cut_of_three (by decide) (by decide) hthree, replaced_of_split hsplit]
  · rw [rewriteSafe_of_absent hin] at hs
    exact absurd (Except.ok.inj hs ▸ htest) hfree

theorem pathsAgree_of_accident {line : Text} (hline : SafeOnly line) (h : Accident line) :
    PathsAgree line := by
  obtain ⟨hkept, a, n, args, y, u, args', y', x₀, x₁, x₂, xs, hcall, hn, hcall', hsplit, heq⟩ := h
  have hfirst : WriteAllFirst line a n args y := ⟨hcall, hn⟩
  obtain ⟨-, -, hfree⟩ := hfirst.writeAll_eq hline.test
  have hu : ¬ "TEST(".toList <:+: u := fun hin =>
    hcall'.not_infix_before hfree (hin.trans (List.prefix_append u _).isInfix)
  have hthree : 3 ≤ (split "file_printf".toList (a ++ lower n)).length := by
    rw [hsplit]
    exact Nat.le_add_left 3 xs.length
  refine ⟨assignedText (glued args'), verfuncLine_eq_ok.mpr ⟨_, hcall'.rewriteSafe_eq, ?_⟩,
    convertLine_eq_ok.mpr ⟨hkept, _, hcall.rewriteSafe_eq, ?_⟩⟩
  · exact verfuncRest_unnamed hu (paren_not_mem_glued args')
  · rw [hfirst.convertRest_eq hline.test, replaced_cut_of_three (by decide) (by decide) hthree,
      replaced_of_split hsplit, heq]

/-- **Where the two paths agree**: on the plain lines, and where two accidents meet. -/
theorem pathsAgree_iff {line : Text} (hline : SafeOnly line) :
    PathsAgree line ↔ Plain line ∨ Accident line := by
  constructor
  · rintro ⟨l, hverfunc, hconvert⟩
    obtain ⟨hkept, l', hsafe, hrest⟩ := convertLine_eq_ok.mp hconvert
    obtain ⟨a, n, args, y, hcall⟩ := exists_firstCall hsafe hline.safe
    rw [hcall.rewriteSafe_eq] at hsafe
    obtain rfl := Except.ok.inj hsafe
    by_cases hn : "WRITE_ALL".toList <+: n
    · exact .inr (accident_of_agree hline hkept ⟨hcall, hn⟩ hverfunc hrest)
    · exact .inl (plain_of_agree hline hkept hcall hn hverfunc hrest)
  · rintro (h | h)
    · exact pathsAgree_of_plain hline h
    · exact pathsAgree_of_accident hline h

theorem pathsAgree_iff_close :
    SafeOnly "\tSAFE_CLOSE(fd);".toList ∧ PathsAgree "\tSAFE_CLOSE(fd);".toList := by
  have hline : SafeOnly "\tSAFE_CLOSE(fd);".toList := by decide +kernel
  refine ⟨hline, (pathsAgree_iff hline).mpr (.inl ⟨by decide +kernel, "\t".toList, "CLOSE".toList,
    "fd);".toList, [], ?_, ?_⟩)⟩
  · exact ⟨by decide, by decide +kernel, by decide, by decide +kernel, .inl rfl⟩
  · exact ⟨by decide, by decide, by decide, by decide +kernel⟩

/-- Both results are cut down to the same text here. -/
example : Accident
    "ret = SAFE_WRITE_ALLFILE_PRINTF;FILE_PRINTF(TESTSAFE_(write_allfprintfXX".toList := by
  refine ⟨by decide +kernel, "ret = ".toList, "WRITE_ALLFILE_PRINTF;FILE_PRINTF".toList,
    "TEST".toList, "SAFE_(write_allfprintfXX".toList, "ret = 1FILE_PRINTF;FILE_PRINTF(".toList,
    "write_allfprintfXX".toList, [], "ret = write_all".toList, ";".toList, [], [],
    ?_, ?_, ?_, ?_, ?_⟩
  · exact ⟨by decide +kernel, by decide +kernel, by decide +kernel, by decide +kernel,
      by decide +kernel⟩
  · decide +kernel
  · exact ⟨by decide +kernel, by decide +kernel, by decide +kernel, by decide +kernel, .inl rfl⟩
  · decide +kernel
  · decide +kernel

/-- A strict write in `setup`: `verfunc` would make `write(1, fd, buf, SIZE);` of it, and the
segment loop makes `write(`. -/
theorem not_pathsAgree_read01 :
    SafeOnly "\tSAFE_WRITE(SAFE_WRITE_ALL, fd, buf, SIZE);".toList ∧
      ¬ PathsAgree "\tSAFE_WRITE(SAFE_WRITE_ALL, fd, buf, SIZE);".toList := by
  have hverfunc : verfuncLine "\tSAFE_WRITE(SAFE_WRITE_ALL, fd, buf, SIZE);".toList
      = .ok "\twrite(1, fd, buf, SIZE);".toList := by
    decide +kernel
  have hconvert : convertLine "\tSAFE_WRITE(SAFE_WRITE_ALL, fd, buf, SIZE);".toList
      = .ok "\twrite(\n".toList := by
    decide +kernel
  refine ⟨by decide +kernel, ?_⟩
  rintro ⟨l, hl, hl'⟩
  rw [hverfunc] at hl
  rw [hconvert, ← Except.ok.inj hl] at hl'
  exact absurd (congrArg List.length (Except.ok.inj hl')) (by decide)

end UnikraftSuite
