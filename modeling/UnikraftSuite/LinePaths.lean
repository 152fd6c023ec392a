import UnikraftSuite.Statements

/-!
# The two ways a line takes

A line of a verify function goes through `verfuncLine`, every other line through
`convertLine`. Apart from the `SAFE_` step, which may raise, all steps are total: they are
`replaced` and `tested` here, and a line's result is one map over `rewriteSafe`.

- `convertLine_eq`, `verfuncLine_eq`: the two paths in this form.
- `count_replaced_le`, `count_tested_lt`: what the steps lose.
- `replaced_cut`, `tested_cut`: what they make of a line by its pieces.
-/

namespace UnikraftSuite

open PyStr Substring Raise

/-- The line that `rewriteTest` returns. -/
def tested (pre line : Text) : Text :=
  if "TEST(".toList <:+: line then
    pre ++ sliceTo ((split "TEST(".toList line).getD 1 []) (-2) ++ ";".toList
  else line

theorem rewriteTest_eq (pre line : Text) : rewriteTest pre line = .ok (tested pre line) := by
  unfold rewriteTest tested
  split
  · rename_i h
    obtain ⟨a, b, bs, hsplit⟩ := split_of_infix (by decide) h
    rw [hsplit]
    rfl
  · rfl

/-- The steps of the segment loop behind `rewriteSafe`. -/
def convertRest (line : Text) : Text :=
  tested "int ret = ".toList (replaced "file_printf".toList "fprintf".toList line)

/-- The steps of `verfunc` behind `rewriteSafe`. -/
def verfuncRest (line : Text) : Text :=
  replaced "TST_RET".toList "ret".toList (tested "ret = ".toList line)

theorem convertLine_of_skip {line : Text} (h : skipLine line) : convertLine line = .ok [] :=
  if_pos h

theorem convertLine_eq {line : Text} (h : ¬ skipLine line) :
    convertLine line = (rewriteSafe line).map fun l => convertRest l ++ "\n".toList := by
  unfold convertLine
  rw [if_neg h]
  cases rewriteSafe line with
  | error e => rfl
  | ok l =>
    rw [ok_bind, replaceFirst_eq (by decide), ok_bind, rewriteTest_eq]
    rfl

theorem verfuncLine_eq (line : Text) :
    verfuncLine line = (rewriteSafe (writeAll line)).map verfuncRest := by
  rw [verfuncLine, replaceFirst_eq (by decide), ok_bind]
  show (rewriteSafe (writeAll line) >>= fun line => _) = _
  cases rewriteSafe (writeAll line) with
  | error e => rfl
  | ok l =>
    rw [ok_bind, rewriteTest_eq, ok_bind, replaceFirst_eq (by decide)]
    rfl

/-- What the segment loop returns for a line. -/
theorem convertLine_eq_ok {line l : Text} :
    convertLine line = .ok (l ++ "\n".toList) ↔
      ¬ skipLine line ∧ ∃ l', rewriteSafe line = .ok l' ∧ convertRest l' = l := by
  by_cases h : skipLine line
  · rw [convertLine_of_skip h]
    refine iff_of_false ?_ fun h' => h'.1 h
    intro heq
    have hlen := congrArg List.length (Except.ok.inj heq)
    simp at hlen
  · rw [convertLine_eq h, map_eq_ok, and_iff_right h]
    exact exists_congr fun l' => and_congr_right fun _ =>
      ⟨List.append_cancel_right, fun heq => by rw [heq]⟩

theorem verfuncLine_eq_ok {line l : Text} :
    verfuncLine line = .ok l ↔ ∃ l', rewriteSafe (writeAll line) = .ok l' ∧ verfuncRest l' = l := by
  rw [verfuncLine_eq, map_eq_ok]

/-! ## Steps on a cut line -/

theorem tested_of_absent {pre line : Text} (h : ¬ "TEST(".toList <:+: line) :
    tested pre line = line := if_neg h

/-- The marker is replaced where it occurs first, and the text from its second occurrence
on is lost. -/
theorem replaced_cut {sep line : Text} (hsep : sep ≠ []) (h : sep <:+: line) (new : Text) :
    ∃ a b r, line = a ++ (sep ++ r) ∧ FirstAt sep a ∧ b <+: r ∧
      replaced sep new line = a ++ new ++ b := by
  obtain ⟨a, b, bs, hsplit⟩ := split_of_infix hsep h
  obtain ⟨r, hline, ha, hr⟩ := cut_of_split hsep hsplit
  refine ⟨a, b, r, hline, ha, prefix_of_split hsep hr, ?_⟩
  rw [replaced, if_pos h, hsplit]
  rfl

theorem replaced_at {sep a : Text} (hsep : sep ≠ []) (ha : FirstAt sep a) (new r : Text) :
    ∃ b, b <+: r ∧ replaced sep new (a ++ (sep ++ r)) = a ++ (new ++ b) := by
  obtain ⟨b, bs, hb⟩ := List.exists_cons_of_ne_nil (split_ne_nil sep r)
  refine ⟨b, prefix_of_split hsep hb, ?_⟩
  rw [replaced, if_pos ⟨a, r, by simp⟩, split_cut hsep ha, hb]
  exact List.append_assoc a new b

/-- Of the line only a part of what is behind `TEST(` is left. -/
theorem tested_cut {line : Text} (h : "TEST(".toList <:+: line) (pre : Text) :
    ∃ a b r, line = a ++ ("TEST(".toList ++ r) ∧ FirstAt "TEST(".toList a ∧ b <+: r ∧
      tested pre line = pre ++ b ++ ";".toList := by
  obtain ⟨a, b, bs, hsplit⟩ := split_of_infix (by decide) h
  obtain ⟨r, hline, ha, hr⟩ := cut_of_split (by decide) hsplit
  refine ⟨a, sliceTo b (-2), r, hline, ha, ?_, ?_⟩
  · exact (List.take_prefix _ b).trans (prefix_of_split (by decide) hr)
  · rw [tested, if_pos h, hsplit]
    rfl

/-- The text before which no marker begins stays. -/
theorem replaced_append {sep new u t : Text} (hsep : sep ≠ [])
    (h : ∀ u', u' <:+ u → u' ≠ [] → ¬ sep <+: u' ++ t) :
    replaced sep new (u ++ t) = u ++ replaced sep new t := by
  have hsplit := split_append h
  obtain ⟨x, xs, hx⟩ := List.exists_cons_of_ne_nil (split_ne_nil sep t)
  rw [hx] at hsplit
  have hiff : ∀ s y ys, split sep s = y :: ys → (sep <:+: s ↔ ys ≠ []) := by
    intro s y ys hs
    constructor
    · intro hin hnil
      obtain ⟨a, b, bs, hcut⟩ := split_of_infix hsep hin
      rw [hcut, hnil] at hs
      cases hs
    · intro hne
      by_contra hno
      rw [split_of_absent hno] at hs
      exact hne (List.cons.inj hs).2.symm
  have hsame : sep <:+: u ++ t ↔ sep <:+: t := by
    rw [hiff _ _ _ hsplit, hiff _ _ _ hx]
  by_cases hin : sep <:+: t
  · rw [replaced, replaced, if_pos hin, if_pos (hsame.mpr hin), hsplit, hx]
    simp
  · rw [replaced_of_absent hin, replaced_of_absent fun h => hin (hsame.mp h)]

/-- A text without the marker, up to a character foreign to it, stays. -/
theorem replaced_append_cons {sep new a : Text} {c : Char} (hsep : sep ≠ []) (hc : c ∉ sep)
    (ha : ¬ sep <:+: a) (t : Text) :
    replaced sep new (a ++ c :: t) = a ++ c :: replaced sep new t := by
  rw [List.append_cons, replaced_append hsep, ← List.append_cons]
  intro u' hu' hne hpre
  obtain ⟨w, hw⟩ := hu'
  rcases List.eq_nil_or_concat u' with rfl | ⟨v, d, rfl⟩
  · exact hne rfl
  · rw [List.concat_eq_append] at hw hpre
    rw [← List.append_assoc] at hw
    obtain ⟨rfl, hd⟩ := List.append_inj' hw rfl
    obtain rfl := List.singleton_inj.mp hd
    rw [← List.append_cons, prefix_append_cons hc] at hpre
    exact ha (hpre.isInfix.trans (List.suffix_append w v).isInfix)

/-- The first two pieces are kept. -/
theorem replaced_of_split {sep new line a b : Text} {bs : List Text}
    (h : split sep line = a :: b :: bs) : replaced sep new line = a ++ new ++ b := by
  have hin : sep <:+: line := by
    by_contra hno
    rw [split_of_absent hno] at h
    cases h
  rw [replaced, if_pos hin, h]
  rfl

/-- A text cut behind the second marker stays what it is. -/
theorem replaced_cut_of_three {sep new u : Text} {c : Char} (hsep : sep ≠ []) (hc : c ∉ sep)
    (h : 3 ≤ (split sep u).length) (t : Text) :
    replaced sep new (u ++ c :: t) = replaced sep new u := by
  have hsplit := split_append_cons hsep hc u t
  match hu : split sep u with
  | [] | [_] | [_, _] =>
    rw [hu] at h
    simp at h
  | x :: y :: z :: zs =>
    rw [hu] at hsplit
    obtain ⟨r, rfl, -, -⟩ := cut_of_split hsep hu
    rw [replaced, if_pos ⟨x, r ++ c :: t, by simp⟩, hsplit, replaced, if_pos ⟨x, r, by simp⟩, hu]
    rfl

/-- A text cut before its third piece has the rest of the second one before it. -/
theorem exists_replaced_append {sep u : Text} {c : Char} (hsep : sep ≠ []) (hc : c ∉ sep)
    (h : (split sep u).length < 3) (new t : Text) :
    ∃ w, replaced sep new (u ++ c :: t) = replaced sep new u ++ c :: w := by
  match hu : split sep u with
  | [] => exact absurd hu (split_ne_nil sep u)
  | [x] =>
    have habsent : ¬ sep <:+: u := fun hin => by
      obtain ⟨a, b, bs, hcut⟩ := split_of_infix hsep hin
      rw [hu] at hcut
      cases hcut
    exact ⟨_, by rw [replaced_append_cons hsep hc habsent, replaced_of_absent habsent]⟩
  | [x, y] =>
    have hsplit := split_append_cons hsep hc u t
    obtain ⟨r, rfl, -, -⟩ := cut_of_split hsep hu
    rw [hu] at hsplit
    refine ⟨(split sep t).headD [], ?_⟩
    rw [replaced, if_pos ⟨x, r ++ c :: t, by simp⟩, hsplit, replaced, if_pos ⟨x, r, by simp⟩, hu]
    simp
  | x :: y :: z :: zs =>
    rw [hu] at h
    simp only [List.length_cons] at h
    omega

theorem paren_not_mem_lower {s : Text} (h : '(' ∉ s) : '(' ∉ lower s :=
  fun hmem => h (mem_of_mem_lower (by decide) hmem)

/-- What the `SAFE_` step makes of the arguments of a call: its parentheses are lost, and
when there are some the text up to the first of them is repeated. -/
def glued (args : Text) : Text :=
  let pieces := split "(".toList args
  pieces.headD [] ++ repeated (pieces.headD []) pieces.tail

theorem glued_of_no_paren {args : Text} (h : '(' ∉ args) : glued args = args := by
  have hone : split "(".toList args = [args] := split_char_of_not_mem h
  rw [glued, hone]
  exact List.append_nil args

theorem paren_not_mem_glued (args : Text) : '(' ∉ glued args := by
  have hpiece : ∀ x ∈ split "(".toList args, '(' ∉ x := by
    intro x hx hmem
    exact not_infix_of_mem_split (by decide) hx ((List.singleton_infix_iff _ _).mpr hmem)
  obtain ⟨arg, more, hsplit⟩ := List.exists_cons_of_ne_nil (split_ne_nil "(".toList args)
  rw [hsplit] at hpiece
  obtain ⟨harg, hmore⟩ := List.forall_mem_cons.mp hpiece
  rw [glued, hsplit]
  show '(' ∉ arg ++ repeated arg more
  unfold repeated
  split
  · simpa using harg
  · simp only [List.mem_append, List.mem_flatten, not_or, not_exists, not_and]
    exact ⟨harg, harg, hmore⟩

/-- The call that the `SAFE_` step rewrites: the text `a` before it has no `SAFE_`, the name is
`n`, and the arguments end where the line ends or the next `SAFE_` begins. -/
structure FirstCall (line a n args y : Text) : Prop where
  line_eq : line = a ++ ("SAFE_".toList ++ (n ++ '(' :: (args ++ y)))
  before : ¬ "SAFE_".toList <:+: a
  name : '(' ∉ n
  call : ¬ "SAFE_".toList <:+: n ++ '(' :: args
  behind : y = [] ∨ "SAFE_".toList <+: y

/-- A marker that the line has not is not in the text before the call ... -/
theorem FirstCall.not_infix_before {m line a n args y : Text} (h : FirstCall line a n args y)
    (hm : ¬ m <:+: line) : ¬ m <:+: a := by
  intro hin
  refine hm (hin.trans ?_)
  rw [h.line_eq]
  exact (List.prefix_append a _).isInfix

/-- ... and there is no second `SAFE_` in the name. -/
theorem FirstCall.not_infix_name {line a n args y : Text} (h : FirstCall line a n args y) :
    ¬ "SAFE_".toList <:+: n :=
  fun hin => h.call (hin.trans (List.prefix_append n _).isInfix)

theorem FirstCall.split_eq {line a n args y : Text} (h : FirstCall line a n args y) :
    ∃ rest, split "SAFE_".toList line = a :: (n ++ '(' :: args) :: rest := by
  have hassoc : n ++ '(' :: (args ++ y) = (n ++ '(' :: args) ++ y := by simp
  rw [h.line_eq, hassoc, split_cut (by decide) (.of_unbordered (by decide) h.before)]
  rcases h.behind with rfl | ⟨y', rfl⟩
  · rw [List.append_nil, split_of_absent h.call]
    exact ⟨[], rfl⟩
  · rw [split_cut (by decide) (.of_unbordered (by decide) h.call)]
    exact ⟨_, rfl⟩

/-- **The `SAFE_` step**: the first call is rewritten, and what is behind it is lost. -/
theorem FirstCall.rewriteSafe_eq {line a n args y : Text} (h : FirstCall line a n args y) :
    rewriteSafe line = .ok (a ++ (lower n ++ '(' :: glued args)) := by
  obtain ⟨rest, hline⟩ := h.split_eq
  obtain ⟨arg, more, hargs⟩ := List.exists_cons_of_ne_nil (split_ne_nil "(".toList args)
  have hcall : split "(".toList (n ++ '(' :: args) = n :: arg :: more := by
    rw [← hargs]
    exact split_char_cut h.name args
  rw [rewriteSafe_cut hline hcall, glued, hargs]
  simp

/-- A line that the `SAFE_` step gets through has a first call, or no `SAFE_`. -/
theorem exists_firstCall {line l : Text} (h : rewriteSafe line = .ok l)
    (hin : "SAFE_".toList <:+: line) : ∃ a n args y, FirstCall line a n args y := by
  rcases rewriteSafe_cases h with ⟨hno, -⟩ | ⟨a, call, n, arg, rest, more, hline, hcall, -⟩
  · exact absurd hin hno
  · obtain ⟨r, rfl, ha, hr⟩ := cut_of_split (by decide) hline
    obtain ⟨args, rfl, hn, -⟩ := cut_of_split (by decide : "(".toList ≠ []) hcall
    have hfree : ¬ "SAFE_".toList <:+: n ++ '(' :: args :=
      not_infix_of_mem_split (by decide) (by rw [hr]; exact List.mem_cons_self)
    refine ⟨a, n, args, ?_⟩
    cases rest with
    | nil =>
      have hjoin := intercalate_split (by decide : "SAFE_".toList ≠ []) r
      rw [hr, List.intercalate_singleton] at hjoin
      exact ⟨[], by rw [← hjoin]; simp, ha.absent, firstAt_singleton.mp hn, hfree, .inl rfl⟩
    | cons b bs =>
      obtain ⟨r', rfl, -, -⟩ := cut_of_split (by decide) hr
      exact ⟨"SAFE_".toList ++ r', by simp, ha.absent, firstAt_singleton.mp hn, hfree,
        .inr (List.prefix_append _ _)⟩

/-! ## What the steps lose -/

theorem count_replaced_le {sep new line : Text} {c : Char} (hsep : sep ≠ []) (hc : c ∉ new) :
    (replaced sep new line).count c ≤ line.count c := by
  by_cases h : sep <:+: line
  · obtain ⟨a, b, r, rfl, -, hb, heq⟩ := replaced_cut hsep h new
    have hle := hb.sublist.count_le c
    rw [heq]
    simp only [List.count_append, List.count_eq_zero.mpr hc]
    omega
  · rw [replaced_of_absent h]

theorem not_mem_replaced {sep new line : Text} {c : Char} (hsep : sep ≠ []) (hc : c ∉ new)
    (h : c ∉ line) : c ∉ replaced sep new line := by
  have hle : (replaced sep new line).count c ≤ line.count c := count_replaced_le hsep hc
  rw [List.count_eq_zero.mpr h] at hle
  exact List.count_eq_zero.mp (Nat.le_zero.mp hle)

theorem count_tested_le {pre line : Text} {c : Char} (hpre : c ∉ pre) (hc : c ≠ ';') :
    (tested pre line).count c ≤ line.count c := by
  by_cases h : "TEST(".toList <:+: line
  · obtain ⟨a, b, r, rfl, -, hb, heq⟩ := tested_cut h pre
    have hle := hb.sublist.count_le c
    have hsemi : ";".toList.count c = 0 := List.count_eq_zero.mpr (by simpa using hc)
    rw [heq]
    simp only [List.count_append, List.count_eq_zero.mpr hpre, hsemi]
    omega
  · rw [tested_of_absent h]

theorem not_mem_tested {pre line : Text} {c : Char} (hpre : c ∉ pre) (hc : c ≠ ';')
    (h : c ∉ line) : c ∉ tested pre line := by
  have hle : (tested pre line).count c ≤ line.count c := count_tested_le hpre hc
  rw [List.count_eq_zero.mpr h] at hle
  exact List.count_eq_zero.mp (Nat.le_zero.mp hle)

/-- The arguments lose their parentheses only. -/
theorem mem_glued {args : Text} {c : Char} (hc : c ≠ '(') : c ∈ glued args ↔ c ∈ args := by
  have hpieces : c ∈ args ↔ ∃ x ∈ split "(".toList args, c ∈ x :=
    ⟨exists_mem_split (by decide) (by simpa using hc),
      fun ⟨_, hx, hmem⟩ => (infix_of_mem_split (by decide) hx).subset hmem⟩
  obtain ⟨arg, more, hsplit⟩ := List.exists_cons_of_ne_nil (split_ne_nil "(".toList args)
  rw [hpieces, glued, hsplit]
  show c ∈ arg ++ repeated arg more ↔ _
  unfold repeated
  split
  · rename_i hnil
    simp [hnil]
  · simp

/-- The step writes no characters of its own but parentheses and small letters. -/
theorem not_mem_rewriteSafe {line l : Text} {c : Char} (hc : c ≠ '(')
    (hlower : ¬ (97 ≤ c.toNat ∧ c.toNat ≤ 122)) (h : c ∉ line) (hl : rewriteSafe line = .ok l) :
    c ∉ l := by
  by_cases hin : "SAFE_".toList <:+: line
  · obtain ⟨a, n, args, y, hcall⟩ := exists_firstCall hl hin
    rw [hcall.rewriteSafe_eq] at hl
    rw [← Except.ok.inj hl]
    rw [hcall.line_eq] at h
    simp only [List.mem_append, List.mem_cons, not_or] at h ⊢
    refine ⟨h.1, fun hmem => h.2.2.1 (mem_of_mem_lower hlower hmem), hc, ?_⟩
    rw [mem_glued hc]
    exact h.2.2.2.2.1
  · rw [rewriteSafe_of_absent hin] at hl
    exact Except.ok.inj hl ▸ h

/-- A `TEST(` is lost with its parenthesis. -/
theorem count_tested_lt {pre line : Text} (hpre : '(' ∉ pre) (h : "TEST(".toList <:+: line) :
    (tested pre line).count '(' < line.count '(' := by
  obtain ⟨a, b, r, rfl, -, hb, heq⟩ := tested_cut h pre
  have hle := hb.sublist.count_le '('
  have hone : "TEST(".toList.count '(' = 1 := by decide
  have hzero : ";".toList.count '(' = 0 := by decide
  rw [heq]
  simp only [List.count_append, List.count_eq_zero.mpr hpre]
  omega

end UnikraftSuite
