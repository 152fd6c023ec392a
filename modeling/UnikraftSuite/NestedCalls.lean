import UnikraftSuite.Assignments
import UnikraftSuite.SafeCalls

/-!
# Calls with a parenthesis in their arguments

Where another parenthesis follows that of a call, the `SAFE_` step drops it and repeats the
text between the two. The repeated text may make up for every character that is lost. The line
is damaged all the same: it can have as many parentheses as it should only if a `TEST(` takes
one of the two. If it takes the second one, then `TEST` is still there where the assignment
should begin; if it takes that of the call, the name was written in small letters.

- `Nested`: what such a line should be before its statements are assigned, and what it is.
- `Nested.not_begin`: no rewriting of statements and of `TST_RET`s leads from one to what
  should come of the other. The cases are the places of the first two `TEST(`s (`test_places`).
- `exists_safeStep`, `SafeStep.printf`: the `SAFE_` step leaves such a line, and the
  `file_printf` step again.
- `SafeStep.verify_ne`, `SafeStep.plain_ne`: so neither path rewrites it as it should be.
-/

namespace UnikraftSuite

open PyStr Substring Raise Parens

/-! ## Where the statements are -/

/-- Where a `TEST(` can be in a text with two parentheses marked. -/
theorem test_places {c e x z a r : Text} (he : '(' ∉ e) (hx : '(' ∉ x)
    (h : c ++ e ++ '(' :: (x ++ '(' :: z) = a ++ ("TEST(".toList ++ r)) :
    (∃ t, c = a ++ ("TEST(".toList ++ t)) ∨
      (c ++ e = a ++ "TEST".toList ∧ r = x ++ '(' :: z) ∨
      (∃ t, x = t ++ "TEST".toList ∧ a = c ++ e ++ '(' :: t) ∨
      ∃ t, a = c ++ e ++ '(' :: (x ++ '(' :: t) := by
  have hassoc : a ++ ("TEST(".toList ++ r) = (a ++ "TEST".toList) ++ '(' :: r := by simp
  rw [hassoc] at h
  rcases append_cons_cases h with ⟨t, ht, hbehind⟩ | ⟨hsame, hr⟩ | ⟨t, ht, -⟩
  · obtain ⟨t, rfl, rfl⟩ := exists_of_append_eq_cons (by decide) ht
    rcases append_cons_cases hbehind with ⟨u, hu, -⟩ | ⟨rfl, -⟩ | ⟨u, rfl, -⟩
    · obtain ⟨u, -, rfl⟩ := exists_of_append_eq_cons (by decide) hu
      exact .inr (.inr (.inr ⟨u, rfl⟩))
    · exact .inr (.inr (.inl ⟨t, rfl, rfl⟩))
    · exact absurd (List.mem_append_right _ List.mem_cons_self) hx
  · exact .inr (.inl ⟨hsame, hr.symm⟩)
  · obtain ⟨t, -, rfl⟩ := exists_of_append_eq_cons he ht
    exact .inl ⟨t, by simp⟩

/-- A line has a `TEST(` only where its parentheses are. -/
theorem test_not_infix_line {c d g : Text} (hd : '(' ∉ d) (hg : '(' ∉ g)
    (hc : ¬ "TEST(".toList <:+: c) (hend : ¬ "TEST".toList <:+ c ++ d) :
    ¬ "TEST(".toList <:+: c ++ d ++ '(' :: g := by
  show ¬ "TEST".toList ++ ['('] <:+: c ++ d ++ '(' :: g
  rw [infix_append_last hg, infix_append_of_not_mem hd]
  exact not_or.mpr ⟨hc, hend⟩

/-! ## Texts with `TST_RET` replaced -/

/-- Where a text goes on with another character, it is another one with `TST_RET` replaced. -/
theorem not_prefix_of_ne {c d : Char} (hne : c ≠ d) (hc : c ∉ "TST_RET".toList)
    (hd : d ∉ "TST_RET".toList) (p w m : Text) :
    ¬ retNamed (p ++ c :: w) <+: retNamed (p ++ d :: m) := by
  rw [retNamed_append_cons hc, retNamed_append_cons hd, List.prefix_append_right_inj,
    List.cons_prefix_cons]
  exact fun h => hne h.1

/-- The same where the other text goes on with `TE`, which may end a `TST_RET` of it. -/
theorem not_prefix_of_kept {d : Char} (hd : d ∉ "TST_RET".toList) (p w m : Text) :
    ¬ retNamed (p ++ d :: w) <+: retNamed (p ++ 'T' :: 'E' :: m) := by
  induction p using split_induction (by decide : "TST_RET".toList ≠ []) with
  | last p hp =>
    have hdT : d ≠ 'T' := fun h => hd (by rw [h]; decide)
    have hsame : retNamed p = p := replaceAll_of_absent hp
    rw [retNamed_append_cons hd, hsame]
    by_cases hin : "TST_RET".toList <:+: p ++ 'T' :: 'E' :: m
    · obtain ⟨u, v, heq, hu⟩ := exists_cut (by decide) hin
      have hcut : retNamed (u ++ ("TST_RET".toList ++ v)) = u ++ ("ret".toList ++ retNamed v) :=
        replaceAll_cut (by decide) hu v
      rw [heq, hcut]
      rcases List.append_eq_append_iff.mp heq with ⟨t, rfl, ht⟩ | ⟨t, rfl, ht⟩
      · cases t with
        | nil => exact absurd (List.cons.inj (List.cons.inj ht).2).1 (by decide)
        | cons c t =>
          rw [← (List.cons.inj ht).1, List.append_assoc, List.prefix_append_right_inj,
            List.cons_append, List.cons_prefix_cons]
          exact fun h => hdT h.1
      · cases t with
        | nil => exact absurd (List.cons.inj (List.cons.inj ht).2).1 (by decide)
        | cons c t =>
          -- `TST_RET` begins before the characters kept, and `ret` is not what `p` has there
          rw [List.append_assoc, List.prefix_append_right_inj, ← (List.cons.inj ht).1]
          exact fun h => absurd (List.cons_prefix_cons.mp h).1 (by decide)
    · have hkept : retNamed (p ++ 'T' :: 'E' :: m) = p ++ 'T' :: 'E' :: m :=
        replaceAll_of_absent hin
      rw [hkept, List.prefix_append_right_inj, List.cons_prefix_cons]
      exact fun h => hdT h.1
  | cut a b ha ih =>
    have hassoc : ∀ t : Text, a ++ ("TST_RET".toList ++ b) ++ t
        = a ++ ("TST_RET".toList ++ (b ++ t)) := by simp
    rw [hassoc, hassoc, retNamed, retNamed, replaceAll_cut (by decide) ha,
      replaceAll_cut (by decide) ha, List.prefix_append_right_inj, List.prefix_append_right_inj]
    exact ih

theorem ret_not_infix_retNamed (s : Text) : ¬ "TST_RET".toList <:+: retNamed s := by
  induction s using split_induction (by decide : "TST_RET".toList ≠ []) with
  | last s hs =>
    rw [retNamed, replaceAll_of_absent hs]
    exact hs
  | cut a b ha ih =>
    rw [retNamed, replaceAll_cut (by decide) ha, infix_append_sep (by simp) (by decide), not_or]
    exact ⟨ha.absent, ih⟩

theorem retNamed_retNamed (s : Text) : retNamed (retNamed s) = retNamed s :=
  replaceAll_of_absent (ret_not_infix_retNamed s)

/-- A `SAFE_` stays when `TST_RET` is replaced. -/
theorem safe_infix_retNamed (s t : Text) :
    "SAFE_".toList <:+: retNamed (s ++ ("SAFE_".toList ++ t)) := by
  have hword : retNamed (s ++ ("S".toList ++ ("AF".toList ++ ("E_".toList ++ t))))
      = retNamed s ++ ("S".toList ++ ("AF".toList ++ ("E_".toList ++ retNamed t))) :=
    replaceAll_append_word (c := 'T') (d := 'T') (by decide) (by decide) (by decide) (by simp)
      (by decide) (by decide) s t
  exact ⟨retNamed s, retNamed t, by rw [List.append_assoc]; exact hword.symm⟩

theorem count_le_of_prefix {c : Char} (hc : c ∉ "TST_RET".toList) (hret : c ∉ "ret".toList)
    {s t : Text} (h : retNamed s <+: retNamed t) : s.count c ≤ t.count c := by
  have hle := h.sublist.count_le c
  rwa [count_retNamed hc hret, count_retNamed hc hret] at hle

theorem prefix_behind_paren {a a' b b' : Text} (hb' : '(' ∉ b')
    (hcount : a'.count '(' ≤ a.count '(')
    (h : retNamed (a ++ '(' :: b) <+: retNamed (a' ++ '(' :: b')) : retNamed b <+: retNamed b' := by
  rw [retNamed_append_cons (by decide), retNamed_append_cons (by decide)] at h
  refine prefix_behind_last ?_ ?_ h
  · rwa [← List.count_eq_zero, count_retNamed (by decide) (by decide), List.count_eq_zero]
  · rwa [count_retNamed (by decide) (by decide), count_retNamed (by decide) (by decide)]

/-! ## The rewritten line -/

/-- What may begin an assignment. -/
structure Assigns (first : Text) : Prop where
  head : ∃ d t, first = d :: t ∧ d ∉ "TST_RET".toList
  opening : '(' ∉ first
  capital : 'F' ∉ first
  sign : first.count '=' = 1

theorem assigns_ret : Assigns "ret = ".toList :=
  ⟨⟨'r', "et = ".toList, rfl, by decide⟩, by decide, by decide, by decide⟩

theorem Assigns.retNamed_append {first : Text} (h : Assigns first) (s t : Text) :
    retNamed s <+: retNamed (s ++ (first ++ t)) := by
  obtain ⟨d, first, rfl, hd⟩ := h.head
  rw [List.cons_append, retNamed_append_cons hd]
  exact List.prefix_append _ _

/-- A call with another parenthesis. Behind `c` the line should go on with `e` and the
parenthesis of the call, `x` and the other parenthesis, and `z`. The script has `d`, the
parenthesis of the call and `g` there. A `TEST` before the other parenthesis is still in `g`,
unless a `p` is missing from there; and a `TEST` before that of the call ends a name whose
`SAFE_` should be kept, which the script has lost. -/
structure Nested (c e d x z g : Text) : Prop where
  name : '(' ∉ e
  called : '(' ∉ d
  between : '(' ∉ x
  lost : '(' ∉ g
  repeats : "TEST".toList <:+ x → x <+: g ∨ g.count 'p' < x.count 'p'
  unnamed : "TEST".toList <:+ c ++ e → ¬ "TEST".toList <:+ c ++ d ∧
    ∃ a n, e = a ++ ("SAFE_".toList ++ (n ++ "TEST".toList)) ∧ d.count 'F' ≤ a.count 'F' ∧
      (OnlyTests (x ++ '(' :: z) → ¬ "SAFE_".toList <:+: g)

/-- The line with its first `TEST(` cut out, as it is assigned. -/
theorem tested_at {a : Text} (ha : FirstAt "TEST(".toList a) (pre r : Text) :
    tested pre (a ++ ("TEST(".toList ++ r))
      = pre ++ (sliceTo ((split "TEST(".toList r).headD []) (-2) ++ [';']) := by
  obtain ⟨q, qs, hq⟩ := List.exists_cons_of_ne_nil (split_ne_nil "TEST(".toList r)
  rw [tested, if_pos ⟨a, r, by simp⟩, split_cut (by decide) ha, hq, List.append_assoc]
  rfl

section Nested

variable {a c e d x z g first pre : Text}

/-- The text behind a `TEST(` of `c`. -/
theorem Nested.behind {t : Text} (h : Nested (a ++ ("TEST(".toList ++ t)) e d x z g) :
    Nested t e d x z g := by
  have hsuf : ∀ w, t ++ w <:+ a ++ ("TEST(".toList ++ t) ++ w := fun w =>
    ⟨a ++ "TEST(".toList, by simp⟩
  refine ⟨h.name, h.called, h.between, h.lost, h.repeats, fun hend => ?_⟩
  obtain ⟨hcode, hname⟩ := h.unnamed (hend.trans (hsuf e))
  exact ⟨fun hin => hcode (hin.trans (hsuf d)), hname⟩

theorem Nested.count (h : Nested c e d x z g) :
    (c ++ d ++ '(' :: g).count '(' = c.count '(' + 1 := by
  simp only [List.count_append, List.count_cons_self, List.count_eq_zero.mpr h.called,
    List.count_eq_zero.mpr h.lost]

theorem Nested.count_tested (h : Nested c e d x z g) (hpre : Assigns pre) :
    (tested pre (c ++ d ++ '(' :: g)).count '(' ≤ c.count '(' + 1 := by
  rw [← h.count]
  exact count_tested_le hpre.opening (by decide)

/-- A `TEST` is kept that the second parenthesis belongs to. -/
theorem Nested.at_second (h : Nested c e d x z g) (hfirst : Assigns first) (hpre : Assigns pre)
    {t : Text} (hx : x = t ++ "TEST".toList) (w : Text) :
    ¬ retNamed (c ++ e ++ '(' :: t ++ (first ++ w))
      <+: retNamed (tested pre (c ++ d ++ '(' :: g)) := by
  intro hin
  by_cases htest : "TEST(".toList <:+: c ++ d ++ '(' :: g
  · -- the parenthesis of the call is lost
    have hle := count_le_of_prefix (c := '(') (by decide) (by decide) hin
    have hlt := count_tested_lt hpre.opening htest
    rw [h.count] at hlt
    simp only [List.count_append, List.count_cons_self] at hle
    omega
  · rw [tested_of_absent htest] at hin
    have hassoc : c ++ e ++ '(' :: t ++ (first ++ w) = (c ++ e) ++ '(' :: (t ++ (first ++ w)) := by
      simp
    rw [hassoc] at hin
    have hcount : (c ++ d).count '(' ≤ (c ++ e).count '(' := by
      rw [List.count_append, List.count_append, List.count_eq_zero.mpr h.called]
      omega
    have hbehind := prefix_behind_paren h.lost hcount hin
    rcases h.repeats ⟨t, hx.symm⟩ with ⟨m, rfl⟩ | hfew
    · obtain ⟨f, first, rfl, hf⟩ := hfirst.head
      rw [hx, List.append_assoc] at hbehind
      exact not_prefix_of_kept hf _ _ _ hbehind
    · have hle := count_le_of_prefix (c := 'p') (by decide) (by decide) hbehind
      have hnone : "TEST".toList.count 'p' = 0 := by decide
      rw [hx] at hfew
      simp only [List.count_append] at hle hfew
      omega

/-- Too many parentheses are before the first `TEST(` when it is behind the second one. -/
theorem Nested.beyond (h : Nested c e d x z g) (hpre : Assigns pre) {t : Text}
    (ha : a = c ++ e ++ '(' :: (x ++ '(' :: t)) (w : Text) :
    ¬ retNamed (a ++ w) <+: retNamed (tested pre (c ++ d ++ '(' :: g)) := by
  intro hin
  have hle := count_le_of_prefix (c := '(') (by decide) (by decide) hin
  have htested := h.count_tested hpre
  rw [ha] at hle
  simp only [List.count_append, List.count_cons_self] at hle
  omega

/-- What the script has before the parenthesis of the call has fewer capitals than it should. -/
theorem Nested.capital (h : Nested c e d x z g) (hname : c ++ e = a ++ "TEST".toList) :
    a.count '(' = c.count '(' ∧ (c ++ d).count 'F' < a.count 'F' := by
  have hparen := congrArg (List.count '(') hname
  have hcapital := congrArg (List.count 'F') hname
  obtain ⟨-, u, n, rfl, hle, -⟩ := h.unnamed ⟨a, hname.symm⟩
  have hzero := List.count_eq_zero.mpr h.name
  have hsafe : "SAFE_".toList.count 'F' = 1 := by decide
  have htest : "TEST".toList.count 'F' = 0 ∧ "TEST".toList.count '(' = 0 := by decide
  rw [List.count_append, hzero, List.count_append] at hparen
  simp only [List.count_append, hsafe, htest] at hcapital ⊢
  omega

/-- No `TEST(` is left when the first one should take the parenthesis of the call. -/
theorem Nested.absent (h : Nested c e d x z g) (ha : FirstAt "TEST(".toList a)
    (hname : c ++ e = a ++ "TEST".toList) : ¬ "TEST(".toList <:+: c ++ d ++ '(' :: g := by
  refine test_not_infix_line h.called h.lost (fun hin => ha.absent ?_)
    (h.unnamed ⟨a, hname.symm⟩).1
  have hall : "TEST(".toList <:+: a ++ "TEST".toList := by
    rw [← hname]
    exact hin.trans (List.prefix_append c e).isInfix
  exact (infix_append_of_not_mem (p := "TEST".toList) (c := '(') (by decide)).mp hall

/-- A `TEST` that should take the parenthesis of the call is in small letters. -/
theorem Nested.at_call (h : Nested c e d x z g) (hfirst : Assigns first)
    (ha : FirstAt "TEST(".toList a) (hname : c ++ e = a ++ "TEST".toList) (pre w : Text) :
    ¬ retNamed (a ++ (first ++ w)) <+: retNamed (tested pre (c ++ d ++ '(' :: g)) := by
  intro hin
  rw [tested_of_absent (h.absent ha hname), retNamed_append_cons (by decide)] at hin
  obtain ⟨hparen, hcapital⟩ := h.capital hname
  have hbefore : retNamed a <+: retNamed (c ++ d) := by
    refine prefix_before ?_ ((hfirst.retNamed_append a w).trans hin)
    rw [count_retNamed (by decide) (by decide), count_retNamed (by decide) (by decide),
      List.count_append]
    omega
  have hle := count_le_of_prefix (c := 'F') (by decide) (by decide) hbefore
  omega

/-- A line with one statement. -/
theorem Nested.one (h : Nested c e d x z g) (hfirst : Assigns first) (hpre : Assigns pre)
    {r r' : Text} (ha : FirstAt "TEST(".toList a)
    (heq : c ++ e ++ '(' :: (x ++ '(' :: z) = a ++ ("TEST(".toList ++ r))
    (hr : r'.count '(' = r.count '(') :
    ¬ retNamed (a ++ (first ++ r')) <+: retNamed (tested pre (c ++ d ++ '(' :: g)) := by
  rcases test_places h.name h.between heq with ⟨t, ht⟩ | ⟨hname, -⟩ | ⟨t, hx, rfl⟩ | ⟨t, ht⟩
  · -- the loop assigns it, too, and has one parenthesis less to begin with
    intro hin
    have hle := count_le_of_prefix (c := '(') (by decide) (by decide) hin
    have htest : "TEST(".toList <:+: c ++ d ++ '(' :: g :=
      ⟨a, t ++ d ++ '(' :: g, by rw [ht]; simp⟩
    have hlt := count_tested_lt hpre.opening htest
    have hcount := congrArg (List.count '(') heq
    have hone : "TEST(".toList.count '(' = 1 := by decide
    rw [h.count] at hlt
    simp only [List.count_append, List.count_cons_self, List.count_eq_zero.mpr hfirst.opening, hr,
      hone] at hle hcount
    omega
  · exact h.at_call hfirst ha hname pre r'
  · exact h.at_second hfirst hpre hx r'
  · exact h.beyond hpre ht _

/-! ## Several statements -/

/-- Behind the last parenthesis of a statement is its text, without what closes it, and then
the next assignment. -/
theorem Statement.behind_paren {b u : Text} (h : Statement (b ++ '(' :: u)) (w : Text) :
    ∃ s t, dropClosing 0 (b ++ '(' :: u) ++ ("ret = ".toList ++ w) = s ++ '(' :: t ∧
      s.count '(' = b.count '(' ∧ u.count 'p' ≤ t.count 'p' ∧
      ∀ m, ¬ retNamed t <+: retNamed (u ++ 'T' :: 'E' :: m) := by
  obtain ⟨e, r, heq, he, -⟩ := h
  rw [heq, dropClosing_close he]
  rcases List.append_eq_append_iff.mp heq with ⟨v, rfl, hv⟩ | ⟨v, rfl, hv⟩
  · cases v with
    | nil => exact absurd (List.cons.inj hv).1 (by decide)
    | cons c v =>
      -- the statement ends behind the parenthesis
      obtain ⟨rfl, rfl⟩ := List.cons.inj hv
      refine ⟨b, v ++ ';' :: (r ++ ("ret = ".toList ++ w)), by simp, rfl, ?_, fun m => ?_⟩
      · have hclose : (')' :: ';' :: r).count 'p' = (';' :: r).count 'p' :=
          List.count_cons_of_ne (by decide)
        have hsemi : ∀ s : Text, (';' :: s).count 'p' = s.count 'p' := fun s =>
          List.count_cons_of_ne (by decide)
        rw [List.append_eq, List.count_append, List.count_append, hclose, hsemi, hsemi,
          List.count_append]
        omega
      · rw [List.append_eq, List.append_assoc]
        exact not_prefix_of_ne (by decide) (by decide) (by decide) _ _ _
  · cases v with
    | nil => exact absurd (List.cons.inj hv).1 (by decide)
    | cons c v =>
      -- it ends before it
      obtain ⟨rfl, hr⟩ := List.cons.inj hv
      rw [hr]
      refine ⟨e ++ v, u ++ ("ret = ".toList ++ w), by simp, ?_, ?_, fun m => ?_⟩
      · have hclose : (')' :: v).count '(' = v.count '(' := List.count_cons_of_ne (by decide)
        rw [List.count_append, List.count_append, hclose]
      · rw [List.count_append]
        omega
      · exact not_prefix_of_kept (d := 'r') (by decide) _ _ _

/-- With two characters less, a text with a `TEST` has its `TE` at least. -/
theorem sliceTo_kept (u g : Text) :
    ∃ m, sliceTo (u ++ ("TEST".toList ++ g)) (-2) = u ++ 'T' :: 'E' :: m := by
  refine ⟨('S' :: 'T' :: g).take g.length, ?_⟩
  have hlen : (u ++ ("TEST".toList ++ g)).length - 2 = u.length + (g.length + 2) := by
    have hfour : "TEST".toList.length = 4 := rfl
    simp only [List.length_append, hfour]
    omega
  rw [sliceTo_neg_two, hlen, List.take_length_add_append]
  rfl

/-- Of the text behind the first `TEST(` the parenthesis of the call is left, or nothing from it
on. -/
theorem Nested.slice (h : Nested c e d x z g) : (sliceTo (c ++ d ++ '(' :: g) (-2)) <+: c ++ d ∨
    ∃ g', sliceTo (c ++ d ++ '(' :: g) (-2) = c ++ d ++ '(' :: g' ∧ g' <+: g ∧
      '(' ∉ g' ++ [';'] := by
  rw [sliceTo_neg_two]
  refine (prefix_append_cons_cases (List.take_prefix _ _)).imp_right ?_
  rintro ⟨g', hslice, hg'⟩
  refine ⟨g', hslice, hg', ?_⟩
  simpa using fun hmem => h.lost (hg'.subset hmem)

theorem Nested.count_code (h : Nested c e d x z g) (hpre : Assigns pre) :
    (pre ++ (c ++ d)).count '(' = c.count '(' := by
  simp only [List.count_append, List.count_eq_zero.mpr hpre.opening,
    List.count_eq_zero.mpr h.called]
  omega

/-- The text behind the first of several `TEST(`s, when the second one takes the second
parenthesis. -/
theorem Nested.second_of_several (h : Nested c e d x z g) (hpre : Assigns pre) {u w : Text}
    (hx : x = u ++ "TEST".toList) (hstatement : Statement (c ++ e ++ '(' :: u)) :
    ¬ retNamed (a ++ (first ++ (dropClosing 0 (c ++ e ++ '(' :: u) ++ ("ret = ".toList ++ w))))
      <+: retNamed (pre ++ (sliceTo ((split "TEST(".toList (c ++ d ++ '(' :: g)).headD []) (-2)
        ++ [';'])) := by
  obtain ⟨s, t, hwanted, hs, hp, hne⟩ := hstatement.behind_paren w
  have hassoc : a ++ (first ++ (s ++ '(' :: t)) = (a ++ first ++ s) ++ '(' :: t := by simp
  rw [hwanted, hassoc]
  intro hin
  have hle := count_le_of_prefix (c := '(') (by decide) (by decide) hin
  have hsemi : [';'].count '(' = 0 := by decide
  have hzero := List.count_eq_zero.mpr h.name
  rw [List.count_append] at hs
  simp only [List.count_append, List.count_cons_self, hsemi,
    List.count_eq_zero.mpr hpre.opening] at hle
  by_cases htest : "TEST(".toList <:+: c ++ d ++ '(' :: g
  · -- the parenthesis of the call is that of the next piece
    obtain ⟨q, r, hcut, hq⟩ := exists_cut (by decide) htest
    have hcount := congrArg (List.count '(') hcut
    have hslice := (List.take_sublist (q.length - 2) q).count_le '('
    have hone : "TEST(".toList.count '(' = 1 := by decide
    rw [hcut, split_cut (by decide) hq, List.headD_cons, sliceTo_neg_two] at hle
    rw [h.count, List.count_append, List.count_append, hone] at hcount
    omega
  · rw [split_of_absent htest, List.headD_cons] at hin hle
    rcases h.slice with hslice | ⟨g', hslice, hg', hfree⟩
    · have hcount := hslice.sublist.count_le '('
      rw [List.count_append, List.count_eq_zero.mpr h.called] at hcount
      omega
    · have hcode : pre ++ (c ++ d ++ '(' :: g' ++ [';']) = (pre ++ (c ++ d)) ++ '(' :: (g' ++ [';'])
          := by simp
      rw [hslice, hcode] at hin
      have hbehind := prefix_behind_paren hfree ?_ hin
      · rcases h.repeats ⟨u, hx.symm⟩ with ⟨m, rfl⟩ | hfew
        · obtain ⟨m', hm'⟩ := sliceTo_kept (c ++ d ++ '(' :: u) m
          have hsame : c ++ d ++ '(' :: (x ++ m) = c ++ d ++ '(' :: u ++ ("TEST".toList ++ m) := by
            rw [hx]
            simp
          rw [hsame, hm', List.append_assoc, List.cons_append] at hslice
          have hg := (List.cons.inj (List.append_cancel_left hslice)).2
          rw [← hg, List.append_assoc] at hbehind
          exact hne _ hbehind
        · have hkept := count_le_of_prefix (c := 'p') (by decide) (by decide) hbehind
          have hpart := hg'.sublist.count_le 'p'
          have hnone : "TEST".toList.count 'p' = 0 ∧ [';'].count 'p' = 0 := by decide
          rw [hx] at hfew
          simp only [List.count_append, hnone] at hkept hfew
          omega
      · rw [h.count_code hpre, List.count_append, List.count_append]
        omega

/-- The `SAFE_` of the name is not in the script's line up to the parenthesis of the call. -/
theorem Nested.name_before (h : Nested c e d x z g) (hfirst : Assigns first) (hpre : Assigns pre)
    (ha : '(' ∉ a) {q : Text} (hname : c ++ e = q ++ "TEST".toList) (w m : Text) :
    ¬ retNamed (a ++ (first ++ (dropClosing 0 q ++ ("ret = ".toList ++ w))))
      <+: retNamed (pre ++ (c ++ d) ++ '(' :: m) := by
  obtain ⟨hparen, hcapital⟩ := h.capital hname
  have hassoc : a ++ (first ++ (dropClosing 0 q ++ ("ret = ".toList ++ w)))
      = (a ++ (first ++ dropClosing 0 q)) ++ ("ret = ".toList ++ w) := by simp
  rw [hassoc, retNamed_append_cons (by decide)]
  intro hin
  have hbefore : retNamed (a ++ (first ++ dropClosing 0 q)) <+: retNamed (pre ++ (c ++ d)) := by
    refine prefix_before ?_ ((assigns_ret.retNamed_append _ w).trans hin)
    rw [count_retNamed (by decide) (by decide), count_retNamed (by decide) (by decide),
      h.count_code hpre]
    simp only [List.count_append, List.count_eq_zero.mpr ha, List.count_eq_zero.mpr hfirst.opening,
      count_dropClosing (by decide : '(' ≠ ')')]
    omega
  have hle := count_le_of_prefix (c := 'F') (by decide) (by decide) hbefore
  simp only [List.count_append, List.count_eq_zero.mpr hpre.capital,
    count_dropClosing (by decide : 'F' ≠ ')')] at hle hcapital
  omega

/-- It should be behind all parentheses up to that of the call. -/
theorem Nested.name_cut (h : Nested c e d x z g) {q : Text} (hname : c ++ e = q ++ "TEST".toList) :
    ∃ u v, dropClosing 0 q = u ++ ("SAFE_".toList ++ v) ∧ u.count '(' = c.count '(' := by
  obtain ⟨-, b, n, rfl, -, -⟩ := h.unnamed ⟨q, hname.symm⟩
  have hb : '(' ∉ b := fun hmem => h.name (List.mem_append_left _ hmem)
  obtain rfl : q = (c ++ b) ++ ("SAFE_".toList ++ n) := by
    have hassoc : c ++ (b ++ ("SAFE_".toList ++ (n ++ "TEST".toList)))
        = (c ++ b) ++ ("SAFE_".toList ++ n) ++ "TEST".toList := by simp
    rw [hassoc] at hname
    exact (List.append_cancel_right hname).symm
  obtain ⟨u, v, hdrop, hu⟩ := dropClosing_append_word (w := "SAFE_".toList) (by decide)
    (by decide) 0 (c ++ b) n
  refine ⟨u, v, hdrop, ?_⟩
  rw [hu '(' (by decide), List.count_append, List.count_eq_zero.mpr hb, Nat.add_zero]

/-- Nor is it behind it, when every parenthesis that follows is that of a statement. -/
theorem Nested.name_behind (h : Nested c e d x z g) (hfirst : Assigns first) (hpre : Assigns pre)
    (ha : '(' ∈ a) {q w g' : Text} (hname : c ++ e = q ++ "TEST".toList)
    (honly : '(' ∉ w → OnlyTests (x ++ '(' :: z)) (hg' : g' <+: g) (hfree : '(' ∉ g' ++ [';']) :
    ¬ retNamed (a ++ (first ++ (dropClosing 0 q ++ ("ret = ".toList ++ w))))
      <+: retNamed (pre ++ (c ++ d) ++ '(' :: (g' ++ [';'])) := by
  obtain ⟨u, v, hdrop, hu⟩ := h.name_cut hname
  obtain ⟨-, -, -, -, -, hsafe⟩ := h.unnamed ⟨q, hname.symm⟩
  -- the last parenthesis of the one text and of the other
  obtain ⟨s, t, hcut, ht⟩ := exists_last_cut (List.mem_append_left (first ++ u) ha)
  have hassoc : a ++ (first ++ (u ++ ("SAFE_".toList ++ v) ++ ("ret = ".toList ++ w)))
      = a ++ (first ++ u) ++ ("SAFE_".toList ++ (v ++ ("ret = ".toList ++ w))) := by simp
  rw [hdrop, hassoc, hcut, List.append_assoc, List.cons_append]
  intro hin
  have hle := count_le_of_prefix (c := '(') (by decide) (by decide) hin
  have hparens := congrArg (List.count '(') hcut
  have hpos := List.count_pos_iff.mpr ha
  have hcode : (pre ++ (c ++ d) ++ '(' :: (g' ++ [';'])).count '(' = c.count '(' + 1 := by
    rw [List.count_append, List.count_cons_self, List.count_eq_zero.mpr hfree, h.count_code hpre]
  rw [hcode] at hle
  simp only [List.count_append, List.count_cons_self, List.count_eq_zero.mpr ht,
    List.count_eq_zero.mpr hfirst.opening, hu] at hle hparens
  have hw : '(' ∉ w := List.count_eq_zero.mp (by omega)
  have hbehind := prefix_behind_paren hfree (by rw [h.count_code hpre]; omega) hin
  have hleft := infix_of_replaceAll (by decide) (by decide) (by simp)
    ((safe_infix_retNamed t _).trans hbehind.isInfix)
  rw [infix_append_cons (by decide)] at hleft
  rcases hleft with hleft | hleft
  · exact hsafe (honly hw) (hleft.trans hg'.isInfix)
  · exact absurd hleft (by decide)

/-- The text behind the first of several `TEST(`s, when the second one takes the parenthesis of
the call. -/
theorem Nested.call_of_several (h : Nested c e d x z g) (hfirst : Assigns first)
    (hpre : Assigns pre) {q w : Text} (hq : FirstAt "TEST(".toList q)
    (hname : c ++ e = q ++ "TEST".toList) (honly : '(' ∉ w → OnlyTests (x ++ '(' :: z)) :
    ¬ retNamed (a ++ (first ++ (dropClosing 0 q ++ ("ret = ".toList ++ w))))
      <+: retNamed (pre ++ (sliceTo ((split "TEST(".toList (c ++ d ++ '(' :: g)).headD []) (-2)
        ++ [';'])) := by
  rw [split_of_absent (h.absent hq hname), List.headD_cons]
  rcases h.slice with hslice | ⟨g', hslice, hg', hfree⟩
  · -- nothing of the call is left
    intro hin
    obtain ⟨-, hcapital⟩ := h.capital hname
    have hle := count_le_of_prefix (c := 'F') (by decide) (by decide) hin
    have hcount := hslice.sublist.count_le 'F'
    have hsemi : [';'].count 'F' = 0 := by decide
    simp only [List.count_append, List.count_eq_zero.mpr hpre.capital, hsemi,
      count_dropClosing (by decide : 'F' ≠ ')')] at hle hcount hcapital
    omega
  · have hcode : pre ++ (c ++ d ++ '(' :: g' ++ [';']) = pre ++ (c ++ d) ++ '(' :: (g' ++ [';'])
        := by simp
    rw [hslice, hcode]
    by_cases ha : '(' ∈ a
    · exact h.name_behind hfirst hpre ha hname honly hg' hfree
    · exact h.name_before hfirst hpre ha hname w _

/-- A line with several statements. -/
theorem Nested.several (h : Nested c e d x z g) (hfirst : Assigns first) (hpre : Assigns pre)
    {q r r' : Text} (ha : FirstAt "TEST(".toList a) (hq : FirstAt "TEST(".toList q)
    (hstatement : Statement q) (honly : '(' ∉ r' → OnlyTests r)
    (heq : c ++ e ++ '(' :: (x ++ '(' :: z)
      = a ++ ("TEST(".toList ++ (q ++ ("TEST(".toList ++ r)))) :
    ¬ retNamed (a ++ (first ++ (dropClosing 0 q ++ ("ret = ".toList ++ r'))))
      <+: retNamed (tested pre (c ++ d ++ '(' :: g)) := by
  rcases test_places h.name h.between heq with ⟨t, rfl⟩ | ⟨hname, -⟩ | ⟨t, hx, rfl⟩ | ⟨t, ht⟩
  · have h := h.behind
    have hassoc : ∀ v w, a ++ ("TEST(".toList ++ t) ++ v ++ '(' :: w
        = a ++ ("TEST(".toList ++ (t ++ v ++ '(' :: w)) := by simp
    rw [hassoc] at heq ⊢
    rw [tested_at ha]
    have heq := List.append_cancel_left (List.append_cancel_left heq)
    rcases test_places h.name h.between heq with ⟨u, rfl⟩ | ⟨hname, rfl⟩ | ⟨u, hx, rfl⟩ | ⟨u, rfl⟩
    · -- the second `TEST(` is lost with its equality sign
      have hassoc : q ++ ("TEST(".toList ++ u) ++ d ++ '(' :: g
          = q ++ ("TEST(".toList ++ (u ++ d ++ '(' :: g)) := by simp
      rw [hassoc, split_cut (by decide) hq, List.headD_cons]
      intro hin
      have hle := count_le_of_prefix (c := '=') (by decide) (by decide) hin
      have hslice := count_sliceTo_neg_two_le q
      have hone : "ret = ".toList.count '=' = 1 := by decide
      rw [List.count_append] at hle
      simp only [List.count_append, hpre.sign, hfirst.sign, hone,
        count_dropClosing (by decide : '=' ≠ ')')] at hle hslice
      omega
    · exact h.call_of_several hfirst hpre hq hname honly
    · exact h.second_of_several hpre hx hstatement
    · -- too many parentheses are before it
      intro hin
      have hle := count_le_of_prefix (c := '(') (by decide) (by decide) hin
      obtain ⟨p, ps, hp⟩ := List.exists_cons_of_ne_nil
        (split_ne_nil "TEST(".toList (t ++ d ++ '(' :: g))
      have hpart := (prefix_of_split (by decide) hp).sublist.count_le '('
      have hslice := (List.take_sublist (p.length - 2) p).count_le '('
      have hsemi : [';'].count '(' = 0 := by decide
      rw [hp, List.headD_cons, sliceTo_neg_two] at hle
      rw [h.count] at hpart
      simp only [List.count_append, List.count_cons_self, List.count_eq_zero.mpr hpre.opening,
        hsemi, count_dropClosing (by decide : '(' ≠ ')')] at hle
      omega
  · exact h.at_call hfirst ha hname pre _
  · exact h.at_second hfirst hpre hx _
  · exact h.beyond hpre ht _

/-- **A nested call is not rewritten as it should be**: what the script makes of its line is
another text, even if it is cut off somewhere. -/
theorem Nested.not_begin (h : Nested c e d x z g) (hfirst : Assigns first) (hpre : Assigns pre)
    {rest y w : Text} (hline : FirstLine first rest (c ++ e ++ '(' :: (x ++ '(' :: z)) y w) :
    ¬ retNamed y <+: retNamed (tested pre (c ++ d ++ '(' :: g)) := by
  generalize hV : c ++ e ++ '(' :: (x ++ '(' :: z) = line at hline
  cases hline with
  | none hno =>
    intro hin
    have hle := count_le_of_prefix (c := '(') (by decide) (by decide) hin
    have htested := h.count_tested hpre
    rw [← hV] at hle
    simp only [List.count_append, List.count_cons_self] at hle
    omega
  | @closed a e r ha _ _ _ => exact h.one hfirst hpre ha hV (by simp)
  | @opened a r _ _ ha _ _ _ _ => exact h.one hfirst hpre ha hV rfl
  | @several a q r r' _ ha hq hstatement _ honly =>
    exact h.several hfirst hpre ha hq hstatement honly hV

end Nested

/-! ## What the `SAFE_` step makes of a nested call -/

theorem OnlyTests.behind {u b : Text} (h : OnlyTests (u ++ '(' :: b)) : OnlyTests b := by
  rintro p q rfl
  have hend := h (u ++ '(' :: p) q (by simp)
  rwa [suffix_append_cons (by decide)] at hend

/-- A `TEST` keeps a `SAFE_` apart. -/
theorem safe_not_infix_append {u t : Text} (hend : "TEST".toList <:+ u)
    (hu : ¬ "SAFE_".toList <:+: u) (ht : ¬ "SAFE_".toList <:+: t) :
    ¬ "SAFE_".toList <:+: u ++ t := by
  obtain ⟨v, rfl⟩ := hend
  have hassoc : v ++ "TEST".toList ++ t = (v ++ "TES".toList) ++ 'T' :: t := by simp
  rw [hassoc, infix_append_cons (by decide), not_or]
  exact ⟨fun hin => hu (hin.trans ⟨[], "T".toList, by simp⟩), ht⟩

/-- Where only statements have parentheses no `SAFE_` is made by dropping them. -/
theorem safe_not_infix_flatten {args : Text} (h : OnlyTests args)
    (hsafe : ¬ "SAFE_".toList <:+: args) :
    ¬ "SAFE_".toList <:+: (split "(".toList args).flatten := by
  induction args using split_induction (by decide : "(".toList ≠ []) with
  | last args hargs =>
    rw [split_of_absent hargs, List.flatten_singleton]
    exact hsafe
  | cut u b hu ih =>
    rw [split_cut (by decide) hu, List.flatten_cons]
    refine safe_not_infix_append (h u b rfl)
      (fun hin => hsafe (hin.trans (List.prefix_append u _).isInfix)) (ih h.behind fun hin => ?_)
    exact hsafe (hin.trans ((List.suffix_append _ b).trans (List.suffix_append u _)).isInfix)

/-- What the `SAFE_` step makes of the arguments: the text `x` up to the parenthesis in them is
there twice, and a `SAFE_` comes up only between the pieces. -/
theorem glued_nested {x m : Text} (hx : '(' ∉ x) (hsafe : ¬ "SAFE_".toList <:+: x ++ '(' :: m) :
    x <+: glued (x ++ '(' :: m) ∧
      (OnlyTests (x ++ '(' :: m) → ¬ "SAFE_".toList <:+: glued (x ++ '(' :: m)) := by
  have hsplit : split "(".toList (x ++ '(' :: m) = x :: split "(".toList m := split_char_cut hx m
  have hglued : glued (x ++ '(' :: m) = x ++ (split "(".toList (x ++ '(' :: m)).flatten := by
    rw [glued, hsplit, List.headD_cons, List.tail_cons, repeated, if_neg (split_ne_nil _ m),
      List.flatten_cons]
  rw [hglued]
  refine ⟨List.prefix_append x _, fun honly => ?_⟩
  exact safe_not_infix_append (honly x m rfl)
    (fun hin => hsafe (hin.trans (List.prefix_append x _).isInfix))
    (safe_not_infix_flatten honly hsafe)

/-- Renaming calls does not touch a text without a `SAFE_`, up to its last parenthesis. -/
theorem OnlyTests.of_renamed {s t : Text} (hsafe : ¬ "SAFE_".toList <:+: s)
    (h : OnlyTests (callsRenamed (s ++ t))) : OnlyTests s := by
  rintro p q rfl
  refine h p (callsRenamed (q ++ t)) ?_
  rw [List.append_assoc, List.cons_append, callsRenamed_append]
  exact fun hin => hsafe (hin.trans (List.prefix_append p _).isInfix)

/-- A line with a nested call, in the parts of `Nested`, behind the `SAFE_` step: the name is
rewritten as it should be, or its `SAFE_` should have stayed. -/
structure SafeStep (c e d x z g : Text) : Prop where
  ends : c = [] ∨ ∃ c', c = c' ++ ['(']
  name : '(' ∉ e
  called : '(' ∉ d
  between : '(' ∉ x
  lost : '(' ∉ g
  repeats : x <+: g
  kept : (e = d ∧ ¬ "TEST".toList <:+ c ++ e) ∨
    ∃ a n, e = a ++ ("SAFE_".toList ++ n) ∧ d.count 'F' = a.count 'F' ∧
      ("TEST".toList <:+ n → ¬ "TEST".toList <:+ c ++ d) ∧
      (OnlyTests (x ++ '(' :: z) → ¬ "SAFE_".toList <:+: g)

/-- A name in small letters does not end a `TEST`. -/
theorem test_not_suffix_lower {a n : Text} (hn : n ≠ []) : ¬ "TEST".toList <:+ a ++ lower n := by
  rintro ⟨u, hu⟩
  have hne : lower n ≠ [] := fun hnil => hn (List.map_eq_nil_iff.mp hnil)
  have hlast := congrArg List.getLast? hu
  rw [List.getLast?_append_of_ne_nil a hne, List.getLast?_append_of_ne_nil u (by decide)] at hlast
  exact not_mem_lower_of_isUpper (by decide) n (List.mem_of_getLast? hlast.symm)

theorem exists_safeStep {line l a n args y : Text} (h : FirstCall line a n args y)
    (hargs : '(' ∈ args) (hl : rewriteSafe line = .ok l) (t : Text) :
    ∃ c e d x z g, callsRenamed (line ++ t) = c ++ e ++ '(' :: (x ++ '(' :: z) ∧
      l = c ++ d ++ '(' :: g ∧ SafeStep c e d x z g := by
  obtain ⟨x, m, rfl, hx⟩ := List.eq_append_cons_of_mem hargs
  obtain ⟨c, b, rfl, hc, hb⟩ : ∃ c b, a = c ++ b ∧ (c = [] ∨ ∃ c', c = c' ++ ['(']) ∧ '(' ∉ b := by
    by_cases ha : '(' ∈ a
    · obtain ⟨c, b, rfl, hb⟩ := exists_last_cut ha
      exact ⟨c ++ ['('], b, by simp, .inr ⟨c, rfl⟩, hb⟩
    · exact ⟨[], a, rfl, .inl rfl, ha⟩
  have hsafe : ¬ "SAFE_".toList <:+: x ++ '(' :: m := fun hin =>
    h.call (hin.trans ((List.suffix_cons _ _).trans (List.suffix_append n _)).isInfix)
  have hxsafe : ¬ "SAFE_".toList <:+: x := fun hin =>
    hsafe (hin.trans (List.prefix_append x _).isInfix)
  obtain ⟨hrepeats, hglued⟩ := glued_nested hx hsafe
  have honly : OnlyTests (x ++ '(' :: callsRenamed (m ++ (y ++ t))) →
      ¬ "SAFE_".toList <:+: glued (x ++ '(' :: m) := by
    intro honly
    refine hglued (.of_renamed (t := y ++ t) hsafe ?_)
    rwa [List.append_assoc, List.cons_append, callsRenamed_append hxsafe]
  have hline : line ++ t
      = (c ++ b) ++ ("SAFE_".toList ++ (n ++ '(' :: (x ++ '(' :: (m ++ (y ++ t))))) := by
    rw [h.line_eq]
    simp
  obtain ⟨hyes, hno⟩ := callsRenamed_call h.before h.not_infix_name h.name
    (x ++ '(' :: (m ++ (y ++ t)))
  rw [callsRenamed_append hxsafe] at hyes hno
  have hlower : '(' ∉ b ++ lower n := by simpa [hb] using paren_not_mem_lower h.name
  rw [h.rewriteSafe_eq] at hl
  have hl : l = c ++ (b ++ lower n) ++ '(' :: glued (x ++ '(' :: m) := by
    rw [← Except.ok.inj hl]
    simp
  by_cases hcallee : Callee (c ++ b) n
  · refine ⟨c, b ++ lower n, b ++ lower n, x, callsRenamed (m ++ (y ++ t)), _, ?_, hl,
      hc, hlower, hlower, hx, paren_not_mem_glued _, hrepeats, .inl ⟨rfl, ?_⟩⟩
    · rw [hline, hyes hcallee]
      simp
    · rw [← List.append_assoc]
      exact test_not_suffix_lower hcallee.1
  · refine ⟨c, b ++ ("SAFE_".toList ++ n), b ++ lower n, x, callsRenamed (m ++ (y ++ t)), _, ?_, hl,
      hc, ?_, hlower, hx, paren_not_mem_glued _, hrepeats,
      .inr ⟨b, n, rfl, ?_, fun hend => ?_, honly⟩⟩
    · rw [hline, hno hcallee]
      simp
    · simp [hb, h.name]
    · rw [List.count_append, List.count_eq_zero.mpr (not_mem_lower_of_isUpper (by decide) n),
        Nat.add_zero]
    · rw [← List.append_assoc]
      refine test_not_suffix_lower ?_
      rintro rfl
      exact absurd hend (by decide)

/-- A `TEST` at the end of the line up to the call is at the end of the name. -/
theorem SafeStep.unnamed {c e d x z g : Text} (h : SafeStep c e d x z g)
    (hend : "TEST".toList <:+ c ++ e) : ¬ "TEST".toList <:+ c ++ d ∧
      ∃ a n, e = a ++ ("SAFE_".toList ++ (n ++ "TEST".toList)) ∧ d.count 'F' = a.count 'F' ∧
        (OnlyTests (x ++ '(' :: z) → ¬ "SAFE_".toList <:+: g) := by
  rcases h.kept with ⟨-, hno⟩ | ⟨a, n, rfl, hcapital, hcode, hglued⟩
  · exact absurd hend hno
  · have hassoc : c ++ (a ++ ("SAFE_".toList ++ n)) = (c ++ a ++ "SAFE".toList) ++ '_' :: n := by
      simp
    rw [hassoc, suffix_append_cons (by decide)] at hend
    obtain ⟨n, rfl⟩ := hend
    exact ⟨hcode (List.suffix_append n _), a, n, rfl, hcapital, hglued⟩

theorem SafeStep.nested {c e d x z g : Text} (h : SafeStep c e d x z g) : Nested c e d x z g := by
  refine ⟨h.name, h.called, h.between, h.lost, fun _ => .inl h.repeats, fun hend => ?_⟩
  obtain ⟨hcode, a, n, he, hcapital, hglued⟩ := h.unnamed hend
  exact ⟨hcode, a, n, he, hcapital.le, hglued⟩

/-! ## The two paths -/

/-- Replacing up to the second marker gives a beginning of what replacing all gives. -/
theorem replaced_prefix {sep : Text} (hsep : sep ≠ []) (new s : Text) :
    replaced sep new s <+: replaceAll sep new s := by
  by_cases hmany : (split sep s).length ≤ 2
  · rw [replaced_eq_replaceAll hsep new hmany]
  · obtain ⟨x, y, r, -, hcut⟩ := replaced_of_several hsep new (Nat.lt_of_not_le hmany)
    obtain ⟨hcode, hall⟩ := hcut []
    rw [List.append_nil] at hcode hall
    rw [hcode, hall]
    exact ⟨new ++ replaceAll sep new (r ++ []), by simp⟩

/-- The line of a verify function with a nested call is not rewritten as it should be. -/
theorem SafeStep.verify_ne {c e d x z g rest y w : Text} (h : SafeStep c e d x z g)
    (hline : FirstLine "ret = ".toList rest (c ++ e ++ '(' :: (x ++ '(' :: z)) y w) :
    verfuncRest (c ++ d ++ '(' :: g) ≠ retNamed y := by
  intro heq
  refine h.nested.not_begin assigns_ret assigns_ret hline ?_
  rw [← heq]
  exact replaced_prefix (by decide) _ _

/-- The text with `fprintf` for every `file_printf`. -/
def printfNamed (s : Text) : Text := replaceAll "file_printf".toList "fprintf".toList s

theorem printfNamed_append_cons {c : Char} (hc : c ∉ "file_printf".toList) (s t : Text) :
    printfNamed (s ++ c :: t) = printfNamed s ++ c :: printfNamed t :=
  replaceAll_append_cons (by decide) hc s t

theorem count_printfNamed {c : Char} (hc : c ∉ "file_printf".toList) (hnew : c ∉ "fprintf".toList)
    (s : Text) : (printfNamed s).count c = s.count c :=
  count_replaceAll (by decide) hc hnew s

/-- The ending `TEST` of a text stays, and was there before. -/
theorem printfNamed_test (s : Text) :
    printfNamed (s ++ "TEST".toList) = printfNamed s ++ "TEST".toList :=
  replaceAll_append_of_last (c := 'f') (by decide) (by decide) s

theorem test_suffix_of_printfNamed {s : Text} (h : "TEST".toList <:+ printfNamed s) :
    "TEST".toList <:+ s := by
  obtain ⟨t, ht⟩ := h
  obtain ⟨s, rfl, -⟩ := replaceAll_eq_append (by decide) (by decide) (by simp) ht.symm
  exact List.suffix_append s _

/-- A second `file_printf` would be missed, with the `p` of its name. -/
theorem single_printf {s : Text}
    (h : (printfNamed s).count 'p' ≤ (replaced "file_printf".toList "fprintf".toList s).count 'p') :
    (split "file_printf".toList s).length ≤ 2 := by
  by_contra hmany
  obtain ⟨x, y, r, -, hcut⟩ :=
    replaced_of_several (by decide) "fprintf".toList (Nat.lt_of_not_le hmany)
  obtain ⟨hcode, hall⟩ := hcut []
  rw [List.append_nil] at hcode hall
  rw [hcode, printfNamed, hall] at h
  have hone : "fprintf".toList.count 'p' = 1 := by decide
  simp only [List.count_append, hone] at h
  omega

/-- The step goes on behind a text, or it stops in it and has lost a `p` of it. -/
theorem printf_append_cons {c : Char} (hc : c ∉ "file_printf".toList) (s t : Text) :
    (∃ w, replaced "file_printf".toList "fprintf".toList (s ++ c :: t)
      = printfNamed s ++ c :: w) ∨
      (replaced "file_printf".toList "fprintf".toList (s ++ c :: t)
          = replaced "file_printf".toList "fprintf".toList s ∧
        (replaced "file_printf".toList "fprintf".toList s).count 'p'
          < (printfNamed s).count 'p') := by
  by_cases hmany : (split "file_printf".toList s).length < 3
  · obtain ⟨w, hw⟩ := exists_replaced_append (by decide) hc hmany "fprintf".toList t
    rw [replaced_eq_replaceAll (by decide) _ (Nat.le_of_lt_succ hmany)] at hw
    exact .inl ⟨w, hw⟩
  · refine .inr ⟨replaced_cut_of_three (by decide) hc (Nat.le_of_not_lt hmany) _, ?_⟩
    by_contra hle
    exact hmany (Nat.lt_succ_of_le (single_printf (Nat.le_of_not_lt hle)))

/-- A `SAFE_` stays, and the text around it is apart. -/
theorem printfNamed_safe (s t : Text) :
    printfNamed (s ++ ("SAFE_".toList ++ t)) = printfNamed s ++ ("SAFE_".toList ++ printfNamed t) :=
  replaceAll_append_word (a := []) (m := "SAFE".toList) (b := "_".toList) (c := 'f') (d := 'f')
    (by decide) (by decide) (by decide) (by simp) (by decide) (by decide) s t

theorem SafeStep.printfNamed_append {c e d x z g : Text} (h : SafeStep c e d x z g) (v : Text) :
    printfNamed (c ++ v) = printfNamed c ++ printfNamed v := by
  have hnil : printfNamed [] = [] := replaceAll_nil (by decide) _
  rcases h.ends with rfl | ⟨c, rfl⟩
  · rw [List.nil_append, hnil, List.nil_append]
  · rw [List.append_assoc, List.singleton_append, printfNamed_append_cons (by decide),
      printfNamed_append_cons (by decide), hnil, List.append_assoc]
    rfl

/-- The step does not stop before the parenthesis of the call when it loses neither a `p` nor an
`F` that should be there. -/
theorem SafeStep.printf_call {c e d x z g : Text} (h : SafeStep c e d x z g)
    (hp : (printfNamed (c ++ e ++ '(' :: (x ++ '(' :: z))).count 'p'
      ≤ (replaced "file_printf".toList "fprintf".toList (c ++ d ++ '(' :: g)).count 'p')
    (hF : (c ++ e ++ '(' :: (x ++ '(' :: z)).count 'F'
      ≤ (replaced "file_printf".toList "fprintf".toList (c ++ d ++ '(' :: g)).count 'F') :
    ∃ g', replaced "file_printf".toList "fprintf".toList (c ++ d ++ '(' :: g)
      = printfNamed c ++ printfNamed d ++ '(' :: g' := by
  rcases printf_append_cons (c := '(') (by decide) (c ++ d) g with ⟨g', hcode⟩ | ⟨hcode, hlost⟩
  · exact ⟨g', by rw [hcode, h.printfNamed_append]⟩
  · exfalso
    rw [hcode] at hp hF
    rcases h.kept with ⟨rfl, -⟩ | ⟨a, n, rfl, hcapital, -⟩
    · rw [printfNamed_append_cons (by decide), List.count_append] at hp
      omega
    · have hle : (replaced "file_printf".toList "fprintf".toList (c ++ d)).count 'F'
          ≤ (c ++ d).count 'F' := count_replaced_le (by decide) (by decide)
      have hone : "SAFE_".toList.count 'F' = 1 := by decide
      simp only [List.count_append, hone, hcapital] at hF hle
      omega

/-- Behind that step there is a nested call still. -/
theorem SafeStep.printf {c e d x z g g' : Text} (h : SafeStep c e d x z g)
    (hcode : replaced "file_printf".toList "fprintf".toList (c ++ d ++ '(' :: g)
      = printfNamed c ++ printfNamed d ++ '(' :: g') :
    Nested (printfNamed c) (printfNamed e) (printfNamed d) (printfNamed x) (printfNamed z) g' := by
  have hopen : ∀ {s}, '(' ∉ s → '(' ∉ printfNamed s := fun hs => by
    rwa [← List.count_eq_zero, count_printfNamed (by decide) (by decide), List.count_eq_zero]
  have hall : printfNamed c ++ printfNamed d ++ '(' :: g'
      <+: printfNamed c ++ printfNamed d ++ '(' :: printfNamed g := by
    rw [← hcode, ← h.printfNamed_append, ← printfNamed_append_cons (by decide)]
    exact replaced_prefix (by decide) _ _
  have hpart : g' <+: printfNamed g :=
    (List.cons_prefix_cons.mp ((List.prefix_append_right_inj _).mp hall)).2
  refine ⟨hopen h.name, hopen h.called, hopen h.between,
    fun hmem => hopen h.lost (hpart.subset hmem), fun hend => ?_, fun hend => ?_⟩
  · obtain ⟨u, rfl⟩ := test_suffix_of_printfNamed hend
    obtain ⟨m, rfl⟩ := h.repeats
    have hline : c ++ d ++ '(' :: (u ++ "TEST".toList ++ m)
        = (c ++ d ++ '(' :: (u ++ "TES".toList)) ++ 'T' :: m := by simp
    have hbefore : printfNamed (c ++ d ++ '(' :: (u ++ "TES".toList))
        = printfNamed c ++ printfNamed d ++ '(' :: (printfNamed u ++ "TES".toList) := by
      have hend : printfNamed (u ++ "TES".toList) = printfNamed u ++ "TES".toList :=
        replaceAll_append_of_last (c := 'f') (by decide) (by decide) u
      rw [printfNamed_append_cons (by decide), h.printfNamed_append, hend]
    rw [printfNamed_test]
    rw [hline] at hcode
    rcases printf_append_cons (c := 'T') (by decide) (c ++ d ++ '(' :: (u ++ "TES".toList)) m with
      ⟨w, hw⟩ | ⟨hstop, hlost⟩
    · rw [hw, hbefore, List.append_assoc] at hcode
      have hsame := (List.cons.inj (List.append_cancel_left hcode)).2
      exact .inl ⟨w, by rw [← hsame]; simp⟩
    · rw [← hstop, hcode, hbefore] at hlost
      have hnone : "TES".toList.count 'p' = 0 ∧ "TEST".toList.count 'p' = 0 := by decide
      simp only [List.count_append, List.count_cons_of_ne (by decide : '(' ≠ 'p'), hnone] at hlost ⊢
      exact .inr (by omega)
  · rw [← h.printfNamed_append] at hend
    obtain ⟨htest, a, n, rfl, hcapital, hglued⟩ := h.unnamed (test_suffix_of_printfNamed hend)
    refine ⟨fun hin => htest (test_suffix_of_printfNamed ?_), printfNamed a, printfNamed n, ?_, ?_,
      fun honly hin => hglued ?_ ?_⟩
    · rwa [h.printfNamed_append]
    · rw [printfNamed_safe, printfNamed_test]
    · rw [count_printfNamed (by decide) (by decide), count_printfNamed (by decide) (by decide)]
      exact hcapital.le
    · rintro p q heq
      refine test_suffix_of_printfNamed (honly (printfNamed p) (printfNamed q) ?_)
      rw [← printfNamed_append_cons (by decide), ← printfNamed_append_cons (by decide), heq]
    · exact infix_of_replaceAll (by decide) (by decide) (by simp) (hin.trans hpart.isInfix)

/-- The line of another function with a nested call is not rewritten as it should be. -/
theorem SafeStep.plain_ne {declared : Bool} {c e d x z g rest y w : Text}
    (h : SafeStep c e d x z g)
    (hline : FirstLine (firstWord declared ++ "= ".toList) rest
      (printfNamed (c ++ e ++ '(' :: (x ++ '(' :: z))) y w)
    (hp : (printfNamed (c ++ e ++ '(' :: (x ++ '(' :: z))).count 'p'
      ≤ (replaced "file_printf".toList "fprintf".toList (c ++ d ++ '(' :: g)).count 'p')
    (hF : (c ++ e ++ '(' :: (x ++ '(' :: z)).count 'F'
      ≤ (replaced "file_printf".toList "fprintf".toList (c ++ d ++ '(' :: g)).count 'F') :
    convertRest (c ++ d ++ '(' :: g) ≠ retNamed y := by
  obtain ⟨g', hcode⟩ := h.printf_call hp hF
  have hpre : Assigns "int ret = ".toList :=
    ⟨⟨'i', "nt ret = ".toList, rfl, by decide⟩, by decide, by decide, by decide⟩
  have hfirst : Assigns (firstWord declared ++ "= ".toList) := by
    cases declared with
    | false => exact hpre
    | true => exact assigns_ret
  rw [printfNamed_append_cons (by decide), printfNamed_append_cons (by decide),
    h.printfNamed_append] at hline
  intro heq
  refine (h.printf hcode).not_begin hfirst hpre hline ?_
  rw [convertRest, hcode] at heq
  rw [heq, retNamed_retNamed]

end UnikraftSuite
