import UnikraftSuite.NestedCalls

/-!
# The lines of a function, rewritten

What a line should be before its statements are assigned is `verifyLine` in a verify function
and `plainLine` in any other one: the calls are renamed, a `SAFE_WRITE_ALL` is `1`, or a
`file_printf` is `fprintf`. The script comes to it by the `SAFE_` step, which loses and
repeats text.

- `safeStep_of_counts`: a `SAFE_` step that loses no characters has renamed the call, as long
  as it repeats none; that it does not is in `NestedCalls`.
- `verify_lines`, `plain_lines`: the two loops rewrite the lines of a function as they should
  exactly when each line is `FineVerify`, or `FinePlain`.
-/

namespace UnikraftSuite

open PyStr Substring Raise Parens

/-! ## What a line should be -/

/-- With each `SAFE_WRITE_ALL` replaced by `1`. -/
def writeAllNamed (line : Text) : Text := replaceAll "SAFE_WRITE_ALL".toList "1".toList line

/-- A line of a verify function before its statements are assigned. -/
def verifyLine (line : Text) : Text := callsRenamed (writeAllNamed line)

/-- A line of another function before its statements are assigned. -/
def plainLine (line : Text) : Text :=
  replaceAll "file_printf".toList "fprintf".toList (callsRenamed line)

/-! ## The `SAFE_` step by counting -/

/-- A `SAFE_` step that repeats nothing and loses no `1`, no parenthesis, no equality sign and
no `F` that the renamed line has, has renamed the only call of the line. -/
theorem safeStep_of_counts {w z l : Text} (hl : rewriteSafe w = .ok l)
    (hflat : ∀ a n args y, FirstCall w a n args y → '(' ∉ args)
    (hz : z = [] ∨ '1' ∈ z) (hone : (w ++ z).count '1' ≤ l.count '1')
    (hsigns : (w ++ z).count '(' + (w ++ z).count '=' ≤ l.count '(' + l.count '=')
    (hsafe : (callsRenamed (w ++ z)).count 'F' ≤ l.count 'F') :
    z = [] ∧ OneCall w ∧ l = callsRenamed w := by
  have hnil : ∀ n, (w ++ z).count '1' = n + z.count '1' → l.count '1' ≤ n → z = [] := by
    intro n hn hle
    refine hz.resolve_right fun hmem => ?_
    have hpos := List.count_pos_iff.mpr hmem
    omega
  by_cases hin : "SAFE_".toList <:+: w
  · obtain ⟨a, n, args, y, hcall⟩ := exists_firstCall hl hin
    have hargs := hflat _ _ _ _ hcall
    rw [hcall.rewriteSafe_eq, glued_of_no_paren hargs] at hl
    have hl := (Except.ok.inj hl).symm
    have hw := hcall.line_eq
    -- how many of a character the line has, and how many are left
    have hline : ∀ c, w.count c = a.count c + ("SAFE_".toList.count c + (n.count c
        + (['('].count c + (args.count c + y.count c)))) := by
      intro c
      rw [hw, List.append_cons]
      simp only [List.count_append]
      omega
    have hleft : ∀ c, l.count c
        = a.count c + ((lower n).count c + (['('].count c + args.count c)) := by
      intro c
      rw [hl, List.append_cons]
      simp only [List.count_append]
      omega
    have hkeep : ∀ c, ¬ (97 ≤ c.toNat ∧ c.toNat ≤ 122) → c.toLower = c →
        (lower n).count c = n.count c := fun c hc hsame => count_lower hc hsame n
    have hztwo : z = [] := by
      refine hnil (w.count '1') List.count_append ?_
      rw [hline, hleft, hkeep '1' (by decide) (by decide)]
      omega
    subst hztwo
    rw [List.append_nil] at hsigns hsafe
    rw [hline, hline, hleft, hleft, hkeep '(' (by decide) (by decide),
      hkeep '=' (by decide) (by decide)] at hsigns
    have hparen : '(' ∉ args ++ y := by
      have hzero : y.count '(' = 0 := by omega
      rw [List.mem_append, not_or]
      exact ⟨hargs, List.count_eq_zero.mp hzero⟩
    obtain ⟨hyes, hno⟩ := callsRenamed_cut hcall.before hcall.not_infix_name hcall.name hparen
    rw [← hw] at hyes hno
    have hcapital : (lower n).count 'F' = 0 :=
      List.count_eq_zero.mpr (not_mem_lower_of_isUpper (by decide) n)
    rw [hleft, hcapital] at hsafe
    by_cases hcallee : Callee a n
    · -- what is behind the arguments would begin with `SAFE_`
      have hbehind : y = [] := by
        refine hcall.behind.resolve_right fun hpre => ?_
        have hpos : 0 < y.count 'F' :=
          List.count_pos_iff.mpr (hpre.subset (by decide : 'F' ∈ "SAFE_".toList))
        rw [hyes hcallee, List.append_cons] at hsafe
        simp only [List.count_append, hcapital] at hsafe
        omega
      subst hbehind
      rw [List.append_nil] at hyes hw
      refine ⟨rfl, .inr ⟨a, n, args, ?_, hcallee, hargs⟩, hl.trans (hyes hcallee).symm⟩
      rw [hw, split_cut (by decide) (.of_unbordered (by decide) hcall.before),
        split_of_absent hcall.call]
    · -- the name stays, with its capitals
      rw [hno hcallee, hline] at hsafe
      have hsign : "SAFE_".toList.count 'F' = 1 := by decide
      omega
  · rw [rewriteSafe_of_absent hin] at hl
    obtain rfl := Except.ok.inj hl
    exact ⟨hnil _ List.count_append le_rfl, .inl hin, (callsRenamed_of_absent hin).symm⟩

/-- An assignment has an equality sign for the parenthesis of the macro. -/
theorem signs_tested_le {pre : Text} (hopen : '(' ∉ pre) (hsign : pre.count '=' = 1)
    (line : Text) :
    (tested pre line).count '(' + (tested pre line).count '='
      ≤ line.count '(' + line.count '=' := by
  by_cases h : "TEST(".toList <:+: line
  · obtain ⟨a, b, r, rfl, -, hb, heq⟩ := tested_cut h pre
    have hparens := hb.sublist.count_le '('
    have hsigns := hb.sublist.count_le '='
    have hmacro : "TEST(".toList.count '(' = 1 := by decide
    have hsemi : ";".toList.count '(' = 0 ∧ ";".toList.count '=' = 0 := by decide
    rw [heq]
    simp only [List.count_append, List.count_eq_zero.mpr hopen, hsign, hsemi]
    omega
  · rw [tested_of_absent h]

/-! ## Lines of a verify function -/

/-- The line is rewritten as it should be: it has at most one `SAFE_WRITE_ALL`, at most one
call and no parenthesis behind that of the call; it has no `TEST(`, or is one statement from
its first character to its last; and it has at most one `TST_RET`. -/
structure FineVerify (line : Text) : Prop where
  strict : (split "SAFE_WRITE_ALL".toList line).length ≤ 2
  call : OneCall (writeAllNamed line)
  whole : WholeLine (verifyLine line)
  ret : (split "TST_RET".toList (verifyLine line)).length ≤ 2

/-- The script stops before the second `SAFE_WRITE_ALL`, and misses a `1`. -/
theorem writeAllNamed_eq_append (line : Text) : ∃ z, writeAllNamed line = writeAll line ++ z ∧
    (z = [] ∨ ∃ t, z = '1' :: t) ∧ (z = [] → (split "SAFE_WRITE_ALL".toList line).length ≤ 2) := by
  by_cases hmany : (split "SAFE_WRITE_ALL".toList line).length ≤ 2
  · refine ⟨[], ?_, .inl rfl, fun _ => hmany⟩
    rw [List.append_nil]
    exact (replaced_eq_replaceAll (by decide) _ hmany).symm
  · obtain ⟨x, y, r, -, hcut⟩ :=
      replaced_of_several (by decide) "1".toList (Nat.lt_of_not_le hmany)
    obtain ⟨hcode, hall⟩ := hcut []
    rw [List.append_nil] at hcode hall
    refine ⟨'1' :: replaceAll "SAFE_WRITE_ALL".toList "1".toList (r ++ []), ?_, .inr ⟨_, rfl⟩,
      nofun⟩
    rw [writeAllNamed, hall, writeAll, hcode]
    simp

theorem count_retNamed_le_of_line {c : Char} (hchars : c ∉ macroChars) (hret : c ∉ "TST_RET".toList)
    {line x l : Text} (hcounts : SameCounts line x) (hle : (retNamed x).count c ≤ l.count c) :
    line.count c ≤ l.count c := by
  have hname : c ∉ "ret".toList := fun hmem =>
    hchars ((by decide : "ret".toList ⊆ macroChars) hmem)
  rwa [count_retNamed hret hname, hcounts.chars c hchars] at hle

theorem signs_retNamed {line x : Text} (hcounts : SameCounts line x) :
    (retNamed x).count '(' + (retNamed x).count '=' = line.count '(' + line.count '=' := by
  rw [count_retNamed (by decide) (by decide), count_retNamed (by decide) (by decide), hcounts.signs]

theorem verfuncLine_of_fine {rest line x y : Text}
    (h : FirstLine "ret = ".toList rest (verifyLine line) x y) (hfine : FineVerify line) :
    verfuncLine line = .ok (retNamed x) := by
  have hall : writeAll line = writeAllNamed line :=
    replaced_eq_replaceAll (by decide) _ hfine.strict
  have hrest := (verfuncRest_firstLine h).mpr ⟨hfine.whole, hfine.ret⟩
  rw [verfuncLine_eq, hall, rewriteSafe_of_oneCall hfine.call, ← hrest]
  rfl

theorem fine_of_verfuncLine {rest line x y : Text}
    (h : FirstLine "ret = ".toList rest (verifyLine line) x y)
    (heq : verfuncLine line = .ok (retNamed x)) :
    FineVerify line := by
  obtain ⟨l, hl, hrest⟩ := verfuncLine_eq_ok.mp heq
  obtain ⟨z, hall, hz, hstrict⟩ := writeAllNamed_eq_append line
  have hcounts := h.counts (by decide) (by decide)
  have hle : ∀ c, c ∉ "ret = ".toList → c ≠ ';' → c ∉ "ret".toList →
      (retNamed x).count c ≤ l.count c := by
    intro c hpre hsemi hret
    rw [← hrest]
    exact (count_replaced_le (by decide) hret).trans (count_tested_le hpre hsemi)
  have hsame : ∀ c, ¬ (97 ≤ c.toNat ∧ c.toNat ≤ 122) → c.toLower = c → c ∉ "SAFE_".toList →
      (verifyLine line).count c = (writeAllNamed line).count c := fun c h₁ h₂ h₃ =>
    count_callsRenamed h₁ h₂ h₃ _
  have hone := count_retNamed_le_of_line (c := '1') (by decide) (by decide) hcounts
    (hle '1' (by decide) (by decide) (by decide))
  have hcapital := count_retNamed_le_of_line (c := 'F') (by decide) (by decide) hcounts
    (hle 'F' (by decide) (by decide) (by decide))
  have hsigns : (writeAllNamed line).count '(' + (writeAllNamed line).count '='
      ≤ l.count '(' + l.count '=' := by
    have htested := signs_tested_le (by decide : '(' ∉ "ret = ".toList) (by decide) l
    have hopen : (retNamed x).count '(' ≤ (tested "ret = ".toList l).count '(' := by
      rw [← hrest]
      exact count_replaced_le (by decide) (by decide)
    have hsign : (retNamed x).count '=' ≤ (tested "ret = ".toList l).count '=' := by
      rw [← hrest]
      exact count_replaced_le (by decide) (by decide)
    have hkept := signs_retNamed hcounts
    rw [hsame '(' (by decide) (by decide) (by decide),
      hsame '=' (by decide) (by decide) (by decide)] at hkept
    omega
  rw [hsame '1' (by decide) (by decide) (by decide)] at hone
  rw [verifyLine] at hcapital
  rw [hall] at hone hcapital hsigns
  have hflat : ∀ a n args y, FirstCall (writeAll line) a n args y → '(' ∉ args := by
    intro a n args y hcall hargs
    obtain ⟨c, e, d, u, t, g, hwanted, rfl, hnested⟩ := exists_safeStep hcall hargs hl z
    rw [verifyLine, hall, hwanted] at h
    exact hnested.verify_ne h hrest
  have hdigit : z = [] ∨ '1' ∈ z := by
    rcases hz with rfl | ⟨t, rfl⟩
    · exact .inl rfl
    · exact .inr List.mem_cons_self
  obtain ⟨rfl, hcall, hrenamed⟩ := safeStep_of_counts hl hflat hdigit hone hsigns hcapital
  rw [List.append_nil] at hall
  -- the line came to the statements as it should
  have hline : l = verifyLine line := by rw [hrenamed, verifyLine, hall]
  rw [hline] at hrest
  obtain ⟨hwhole, hret⟩ := (verfuncRest_firstLine h).mp hrest
  exact ⟨hstrict rfl, hall ▸ hcall, hwhole, hret⟩

/-! ## Loops over lines -/

/-- The lines become the lines of the text, one by one. -/
def Yields (f : Text → Except PyErr Text) (lines : List Text) (text : Text) : Prop :=
  ∃ ls, lines.mapM f = .ok ls ∧ unlines ls = text

theorem yields_cons {f : Text → Except PyErr Text} {line : Text} {lines : List Text} {x y : Text}
    (hf : ∀ l, f line = .ok l → '\n' ∉ l) (hx : '\n' ∉ x) :
    Yields f (line :: lines) (x ++ '\n' :: y) ↔ f line = .ok x ∧ Yields f lines y := by
  constructor
  · rintro ⟨ls, hls, heq⟩
    obtain ⟨l, ls, rfl⟩ : ∃ l ls', ls = l :: ls' := by
      cases ls with
      | nil => exact absurd (mapM_eq_ok_iff.mp hls) nofun
      | cons l ls => exact ⟨l, ls, rfl⟩
    obtain ⟨hl, hls⟩ := List.forall₂_cons.mp (mapM_eq_ok_iff.mp hls)
    rw [unlines_cons] at heq
    obtain ⟨rfl, htail⟩ := append_cons_inj_first (hf l hl) hx heq
    exact ⟨hl, ls, mapM_eq_ok_iff.mpr hls, htail⟩
  · rintro ⟨hl, ls, hls, rfl⟩
    exact ⟨x :: ls, mapM_eq_ok_iff.mpr (.cons hl (mapM_eq_ok_iff.mp hls)), unlines_cons x ls⟩

theorem newline_not_mem_verifyLine {line : Text} (h : '\n' ∉ line) : '\n' ∉ verifyLine line := by
  rw [← List.count_eq_zero, verifyLine, count_callsRenamed (by decide) (by decide) (by decide),
    writeAllNamed, count_replaceAll (by decide) (by decide) (by decide), List.count_eq_zero]
  exact h

/-- **The loop of `verfunc`** rewrites lines as it should where all of them are fine, and nowhere
else. -/
theorem verify_lines {lines : List Text} (hlines : ∀ l ∈ lines, '\n' ∉ l)
    (h : Statements (unlines (lines.map verifyLine))) :
    Yields verfuncLine lines
        (retNamed (assigned "ret = ".toList (unlines (lines.map verifyLine)))) ↔
      ∀ l ∈ lines, FineVerify l := by
  induction lines with
  | nil => exact iff_of_true ⟨[], rfl, rfl⟩ fun l hl => absurd hl List.not_mem_nil
  | cons line lines ih =>
    obtain ⟨hline, hlines⟩ := List.forall_mem_cons.mp hlines
    rw [List.map_cons, unlines_cons] at h ⊢
    obtain ⟨x, y, hxy, hx, hfirst⟩ :=
      exists_firstLine (newline_not_mem_verifyLine hline) h "ret = ".toList (by decide)
    have hbehind : FineVerify line →
        y = assigned "ret = ".toList (unlines (lines.map verifyLine)) :=
      fun hfine => by rw [hfirst.behind hfine.whole, ite_self]
    have ih := ih hlines h.behind_line
    rw [hxy, retNamed_append_cons (by decide), List.forall_mem_cons,
      yields_cons (fun l => newline_not_mem_verfuncLine hline) (newline_not_mem_retNamed hx)]
    constructor
    · rintro ⟨hhead, htail⟩
      have hone := fine_of_verfuncLine hfirst hhead
      rw [hbehind hone] at htail
      exact ⟨hone, ih.mp htail⟩
    · rintro ⟨hhead, htail⟩
      rw [hbehind hhead]
      exact ⟨verfuncLine_of_fine hfirst hhead, ih.mpr htail⟩

/-! ## Lines of another function -/

/-- One turn of the segment loop on a line that is not passed over, without the line break. -/
def plainStep (line : Text) : Except PyErr Text := (rewriteSafe line).map convertRest

/-- The line is rewritten as it should be: it has at most one call and no parenthesis behind
that of the call, and at most one `file_printf`; it has no `TEST(`, or is one statement from
its first character to its last; and it has no `TST_RET`. -/
structure FinePlain (line : Text) : Prop where
  call : OneCall line
  printf : (split "file_printf".toList (callsRenamed line)).length ≤ 2
  whole : WholeLine (plainLine line)
  ret : ¬ "TST_RET".toList <:+: plainLine line

theorem plainStep_of_fine {declared : Bool} {rest line x y : Text}
    (h : FirstLine (firstWord declared ++ "= ".toList) rest (plainLine line) x y)
    (hfine : FinePlain line) (hdeclared : declared = true → ¬ "TEST(".toList <:+: plainLine line) :
    plainStep line = .ok (retNamed x) := by
  have hall : replaced "file_printf".toList "fprintf".toList (callsRenamed line) = plainLine line :=
    replaced_eq_replaceAll (by decide) _ hfine.printf
  have htested := (tested_firstLine h).mpr ⟨⟨hfine.whole, hfine.ret⟩, hdeclared⟩
  rw [plainStep, rewriteSafe_of_oneCall hfine.call, ← htested, ← hall]
  rfl

theorem fine_of_plainStep {declared : Bool} {rest line x y : Text}
    (h : FirstLine (firstWord declared ++ "= ".toList) rest (plainLine line) x y)
    (heq : plainStep line = .ok (retNamed x)) :
    FinePlain line ∧ (declared = true → ¬ "TEST(".toList <:+: plainLine line) := by
  obtain ⟨l, hl, hrest⟩ := map_eq_ok.mp heq
  have hcounts : SameCounts (plainLine line) x := by
    refine h.counts ?_ ?_
    · cases declared <;> decide
    · cases declared <;> decide
  have hle : ∀ c, c ∉ "int ret = ".toList → c ≠ ';' →
      (retNamed x).count c ≤ (replaced "file_printf".toList "fprintf".toList l).count c := by
    intro c hpre hsemi
    rw [← hrest]
    exact count_tested_le hpre hsemi
  have hprintf : ∀ c, c ∉ "fprintf".toList →
      (replaced "file_printf".toList "fprintf".toList l).count c ≤ l.count c := fun c hc =>
    count_replaced_le (by decide) hc
  have hsame : ∀ c, c ∉ "file_printf".toList → c ∉ "fprintf".toList →
      (plainLine line).count c = (callsRenamed line).count c := fun c hc hc' =>
    count_replaceAll (by decide) hc hc' _
  have hone := count_retNamed_le_of_line (c := '1') (by decide) (by decide) hcounts
    ((hle '1' (by decide) (by decide)).trans (hprintf '1' (by decide)))
  have hkept := count_retNamed_le_of_line (c := 'F') (by decide) (by decide) hcounts
    (hle 'F' (by decide) (by decide))
  rw [hsame 'F' (by decide) (by decide)] at hkept
  have hcapital := hkept.trans (hprintf 'F' (by decide))
  have hsigns : line.count '(' + line.count '=' ≤ l.count '(' + l.count '=' := by
    have htested := signs_tested_le (by decide : '(' ∉ "int ret = ".toList) (by decide)
      (replaced "file_printf".toList "fprintf".toList l)
    have hopen := hprintf '(' (by decide)
    have hsign := hprintf '=' (by decide)
    have hsum := signs_retNamed hcounts
    rw [hsame '(' (by decide) (by decide), hsame '=' (by decide) (by decide),
      count_callsRenamed (by decide) (by decide) (by decide),
      count_callsRenamed (by decide) (by decide) (by decide), ← hrest, convertRest] at hsum
    omega
  rw [hsame '1' (by decide) (by decide),
    count_callsRenamed (by decide) (by decide) (by decide)] at hone
  rw [← List.append_nil line] at hone hsigns hcapital
  have hp := count_retNamed_le_of_line (c := 'p') (by decide) (by decide) hcounts
    (hle 'p' (by decide) (by decide))
  have hflat : ∀ a n args y, FirstCall line a n args y → '(' ∉ args := by
    intro a n args y hfirst hargs
    obtain ⟨c, e, d, u, t, g, hwanted, rfl, hnested⟩ := exists_safeStep hfirst hargs hl []
    rw [List.append_nil] at hwanted
    rw [hwanted] at hkept
    rw [plainLine, hwanted] at h hp
    exact hnested.plain_ne h hp hkept hrest
  obtain ⟨-, hcall, hrenamed⟩ := safeStep_of_counts hl hflat (.inl rfl) hone hsigns hcapital
  rw [hrenamed] at hp hrest
  have hsingle := single_printf hp
  -- the line came to the statements as it should
  have hline : convertRest (callsRenamed line) = tested "int ret = ".toList (plainLine line) := by
    rw [convertRest, replaced_eq_replaceAll (by decide) _ hsingle]
    rfl
  rw [hline] at hrest
  obtain ⟨⟨hwhole, hret⟩, hdeclared⟩ := (tested_firstLine h).mp hrest
  exact ⟨⟨hcall, hsingle, hwhole, hret⟩, hdeclared⟩

theorem newline_not_mem_plainLine {line : Text} (h : '\n' ∉ line) : '\n' ∉ plainLine line := by
  rw [← List.count_eq_zero, plainLine, count_replaceAll (by decide) (by decide) (by decide),
    count_callsRenamed (by decide) (by decide) (by decide), List.count_eq_zero]
  exact h

theorem newline_not_mem_plainStep {line l : Text} (h : '\n' ∉ line) (hl : plainStep line = .ok l) :
    '\n' ∉ l := by
  obtain ⟨l', hl', rfl⟩ := map_eq_ok.mp hl
  have hsafe := not_mem_rewriteSafe (by decide) (by decide) h hl'
  exact not_mem_tested (by decide) (by decide) (not_mem_replaced (by decide) (by decide) hsafe)

/-- The lines are fine, and at most one of them has a statement; none if `ret` is declared
otherwise. -/
def FinePlains (declared : Bool) (lines : List Text) : Prop :=
  (∀ l ∈ lines, FinePlain l) ∧
    lines.countP (fun l => "TEST(".toList <:+: plainLine l) + declared.toNat ≤ 1

theorem finePlains_cons {declared : Bool} {line : Text} {lines : List Text} :
    FinePlains declared (line :: lines) ↔
      (FinePlain line ∧ (declared = true → ¬ "TEST(".toList <:+: plainLine line)) ∧
        FinePlains (declared || decide ("TEST(".toList <:+: plainLine line)) lines := by
  rw [FinePlains, FinePlains, List.forall_mem_cons, List.countP_cons, at_most_one declared]
  tauto

/-- **The segment loop** rewrites lines as it should where all of them are fine, and nowhere
else. -/
theorem plain_lines (declared : Bool) {lines : List Text} (hlines : ∀ l ∈ lines, '\n' ∉ l)
    (h : Statements (unlines (lines.map plainLine))) :
    Yields plainStep lines (retNamed
        (assigned (firstWord declared ++ "= ".toList) (unlines (lines.map plainLine)))) ↔
      FinePlains declared lines := by
  induction lines generalizing declared with
  | nil =>
    refine iff_of_true ⟨[], rfl, rfl⟩ ⟨fun l hl => absurd hl List.not_mem_nil, ?_⟩
    cases declared <;> decide
  | cons line lines ih =>
    obtain ⟨hline, hlines⟩ := List.forall_mem_cons.mp hlines
    rw [List.map_cons, unlines_cons] at h ⊢
    obtain ⟨x, y, hxy, hx, hfirst⟩ := exists_firstLine (newline_not_mem_plainLine hline) h
      (firstWord declared ++ "= ".toList) (by cases declared <;> decide)
    -- behind a statement `ret` is declared
    have hbehind : FinePlain line → (declared = true → ¬ "TEST(".toList <:+: plainLine line) →
        y = assigned (firstWord (declared || decide ("TEST(".toList <:+: plainLine line))
          ++ "= ".toList) (unlines (lines.map plainLine)) := by
      intro hfine hdeclared
      rw [hfirst.behind hfine.whole]
      by_cases hin : "TEST(".toList <:+: plainLine line
      · rw [if_pos hin, decide_eq_true hin, Bool.or_true]
        rfl
      · rw [if_neg hin, decide_eq_false hin, Bool.or_false]
    have ih := ih (declared || decide ("TEST(".toList <:+: plainLine line)) hlines h.behind_line
    rw [hxy, retNamed_append_cons (by decide), finePlains_cons,
      yields_cons (fun l => newline_not_mem_plainStep hline) (newline_not_mem_retNamed hx)]
    constructor
    · rintro ⟨hhead, htail⟩
      obtain ⟨hone, hdeclared⟩ := fine_of_plainStep hfirst hhead
      rw [hbehind hone hdeclared] at htail
      exact ⟨⟨hone, hdeclared⟩, ih.mp htail⟩
    · rintro ⟨⟨hhead, hdeclared⟩, htail⟩
      rw [hbehind hhead hdeclared]
      exact ⟨plainStep_of_fine hfirst hhead hdeclared, ih.mpr htail⟩

end UnikraftSuite
