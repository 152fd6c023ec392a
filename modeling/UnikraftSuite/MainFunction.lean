import UnikraftSuite.TestStatements
import UnikraftSuite.SourceTree
import UnikraftSuite.Lib.CFunctions

/-!
# The main function of a converted test

What `rmcomment` leaves of a source has no line breaks, so each of its segments is one line,
and `leftOf` is what the segment loop makes of it. The loop then looks for the letters `main`
in the segments as they were before, and adds a `main` when it finds none.

- `convertText_of_ok`: the text returned, segment by segment.
- `leftOf_of_quiet`: of a segment in which the rewriting has nothing to do, all is left that is to
  be kept, up to blanks and a declaration.
- `isMain_split`, `names_added`: when a `main` is added, and what it defines.
- `definesMain_fits`: where every segment is such a one, the text defines `main` once, and what an
  added `main` calls, exactly when the source did that up to the `main` that is added.
-/

namespace UnikraftSuite

open PyStr Substring Raise CFunctions

/-! ## What is left of a segment -/

/-- The line with its first `SAFE_` call rewritten, by its pieces; a call without a parenthesis
stays. -/
def safeText (line : Text) : Text :=
  match split "SAFE_".toList line with
  | before :: call :: _ =>
    match split "(".toList call with
    | name :: arg :: more => before ++ lower name ++ "(".toList ++ arg ++ repeated arg more
    | _ => line
  | _ => line

theorem rewriteSafe_eq_safeText {line : Text} (h : ¬ SafeDefect line) :
    rewriteSafe line = .ok (safeText line) := by
  obtain ⟨l, hl⟩ := (rewriteSafe_returns_iff line).mpr h
  rw [hl, safeText]
  rcases rewriteSafe_cases hl with
    ⟨hno, rfl⟩ | ⟨before, call, name, arg, rest, more, hline, hcall, rfl⟩
  · rw [split_of_absent hno]
  · rw [hline]
    show _ = Except.ok (match split "(".toList call with
      | name :: arg :: more => before ++ lower name ++ "(".toList ++ arg ++ repeated arg more
      | _ => line)
    rw [hcall]

/-- What is left of a segment of one line: nothing of the test structure, of a verify
function the header and what stands between its first two braces. -/
def leftOf (el : Text) : Text :=
  if "struct tst_test test".toList <:+: el then []
  else if "verify".toList <:+: el then
    upTo el ++ "\x7b\n\tint ret;".toList
      ++ (verfuncRest (safeText (writeAll (upTo (behind el)))) ++ "\n".toList) ++ "\n".toList
  else (if skipLine el then [] else convertRest (safeText el) ++ "\n".toList) ++ "\n".toList

theorem body_eq {el : Text} (h : '{' ∈ el) : body el = upTo (behind el) := by
  have hcut := split_char_cut (not_mem_upTo el) (behind el)
  rw [← eq_upTo_behind h] at hcut
  show (split ['{'] el).getD 1 [] = _
  rw [hcut, ← headD_split_brace (behind el)]
  obtain ⟨x, xs, hx⟩ := List.exists_cons_of_ne_nil (split_ne_nil ['{'] (behind el))
  show (upTo el :: split ['{'] (behind el)).getD 1 [] = (split ['{'] (behind el)).headD []
  rw [hx]
  rfl

theorem convertSegment_eq_leftOf {el : Text} (hline : '\n' ∉ el) (hok : SegmentOk el) :
    convertSegment el = .ok (leftOf el) := by
  have hsingle : split "\n".toList el = [el] := split_char_of_not_mem hline
  unfold SegmentOk at hok
  unfold leftOf
  rw [hsingle, List.headD_cons] at hok
  by_cases hstruct : "struct tst_test test".toList <:+: el
  · rw [convertSegment_of_struct hstruct, if_pos hstruct]
  rw [if_neg hstruct] at hok ⊢
  by_cases hverify : "verify".toList <:+: el
  · rw [if_pos hverify] at hok ⊢
    obtain ⟨hbrace, hlines⟩ := hok
    have hbehind : '\n' ∉ behind el := fun hmem => hline <| by
      rw [eq_upTo_behind hbrace]
      simp [hmem]
    have hcut : '\n' ∉ upTo (behind el) := fun hmem =>
      hbehind ((List.takeWhile_sublist _).subset hmem)
    -- the body is cut at the next brace and is one line, too
    have hone : split "\n".toList (body el) = [upTo (behind el)] := by
      rw [body_eq hbrace]
      exact split_char_of_not_mem hcut
    have hsafe := rewriteSafe_eq_safeText
      (hlines (upTo (behind el)) (hone ▸ List.mem_singleton_self _))
    rw [convertSegment_body hstruct (by rw [hsingle]; exact hverify) hbrace,
      bodyText_last hbehind, verfuncLine_eq, hsafe]
    rfl
  · rw [if_neg hverify] at hok ⊢
    rw [convertSegment_of_plain hstruct (by rw [hsingle]; exact hverify), hsingle, List.mapM_cons,
      List.mapM_nil]
    by_cases hskip : skipLine el
    · rw [convertLine_of_skip hskip, if_pos hskip]
      rfl
    · have hdefect := (hok el (hsingle ▸ List.mem_singleton_self el)).resolve_left hskip
      rw [convertLine_eq hskip, rewriteSafe_eq_safeText hdefect, if_neg hskip]
      show Except.ok ([convertRest (safeText el) ++ "\n".toList].flatten ++ "\n".toList) = _
      rw [List.flatten_singleton]

/-! ## The returned text -/

/-- What `rmcomment` leaves of a source. -/
def leftText (source : Text) : Option Text :=
  (squeeze source).map fun z => (split "\n".toList z).flatMap uncommentLine

theorem leftText_eq_some {source t : Text} :
    leftText source = some t ↔ ∃ n, rmcomment n source = some t := by
  simp only [leftText, rmcomment, Option.map_eq_some_iff]
  rw [exists_comm]
  exact exists_congr fun z => by rw [rmcommentLoop_iff_squeeze, exists_and_right]

theorem newline_not_mem_leftText {source t : Text} (h : leftText source = some t) : '\n' ∉ t := by
  obtain ⟨z, -, rfl⟩ := Option.map_eq_some_iff.mp h
  intro hmem
  obtain ⟨line, hline, hmem⟩ := List.mem_flatMap.mp hmem
  refine newline_not_mem_of_mem_split hline ?_
  unfold uncommentLine at hmem
  split at hmem
  · obtain ⟨a, as, ha⟩ := List.exists_cons_of_ne_nil (split_ne_nil "//".toList line)
    rw [ha] at hmem
    exact (prefix_of_split (by decide) ha).subset hmem
  · exact absurd hmem List.not_mem_nil

/-- The converted segments, behind the line that includes the header. -/
def converted (t : Text) : Text :=
  "#include \"incl.h\"\n".toList ++ (split "static ".toList t).flatMap leftOf

/-- The `main` that is added. -/
def addedMain : Text := "void main()\x7b\n\tsetup();\n\tcleanup();\n\x7d\n".toList

theorem convertText_of_ok {t : Text} (ht : '\n' ∉ t)
    (hok : ∀ el ∈ split "static ".toList t, SegmentOk el) :
    convertText t
      = .ok (if isMain (split "static ".toList t) then converted t
        else converted t ++ addedMain) := by
  have hsegments : (split "static ".toList t).mapM convertSegment
      = .ok ((split "static ".toList t).map leftOf) := by
    refine mapM_of_ok fun el hel => convertSegment_eq_leftOf (fun hmem => ht ?_) (hok el hel)
    exact (infix_of_mem_split (by decide) hel).subset hmem
  rw [convertText, hsegments]
  rfl

/-- The segments have the letters if and only if the text has them. -/
theorem isMain_split (t : Text) :
    isMain (split "static ".toList t) = true ↔ "main".toList <:+: t := by
  rw [isMain, List.any_eq_true]
  simp only [decide_eq_true_eq]
  induction t using split_induction (by decide : "static ".toList ≠ []) with
  | last t h => rw [split_of_absent h]; simp
  | cut a b ha ih =>
    rw [split_cut (by decide) ha]
    have hcut : a ++ ("static ".toList ++ b) = a ++ 's' :: ("tatic".toList ++ ' ' :: b) := rfl
    rw [hcut, infix_append_cons (by decide), infix_append_cons (by decide),
      or_iff_right (by decide : ¬ "main".toList <:+: "tatic".toList), ← ih]
    simp

/-! ## What should be kept -/

/-- What stands between the first two braces of a verify function, as it should be. -/
def bodyKept (el : Text) : Text :=
  retNamed (assigned "ret = ".toList (unlines [verifyLine (upTo (behind el))]))

/-- What the loop keeps of a segment of one line, with its macros as they should be: of a
verify function the header and what is before the second brace, of another segment all, but
nothing of the test structure or of a line that is passed over. Behind the first brace of a
verify function comes `declaration`. -/
def keptWith (declaration el : Text) : Text :=
  if "struct tst_test test".toList <:+: el then []
  else if "verify".toList <:+: el then
    upTo el ++ '{' :: (declaration ++ (bodyKept el ++ "\n".toList))
  else if skipLine el then "\n".toList
  else retNamed (assigned "int ret = ".toList (unlines [plainLine el])) ++ "\n".toList

/-- What the text keeps of itself. -/
def keptText (t : Text) : Text := (split "static ".toList t).flatMap (keptWith [])

/-- A verify function of one line: up to its second brace it is rewritten as it should be, and
its first brace stands in code. -/
structure QuietVerify (el : Text) : Prop where
  brace : '{' ∈ el
  mode : (stateAfter .start (upTo el)).1 = .code
  place : (stateAfter .start (upTo el)).2 = .fresh ∨ (stateAfter .start (upTo el)).2 = .rest
  statements : Statements (unlines [verifyLine (upTo (behind el))])
  line : FineVerify (upTo (behind el))

/-- The segment is dropped, or it is rewritten as it should be; and it is not cut in a comment,
a literal or before a line that goes on. -/
def Quiet (el : Text) : Prop :=
  "struct tst_test test".toList <:+: el ∨
    (if "verify".toList <:+: el then QuietVerify el
      else skipLine el ∨ Statements (unlines [plainLine el]) ∧ FinePlain el) ∧
    stateAfter .start (keptWith [] el) = .start

/-! ## A quiet segment -/

theorem convertSegment_of_quiet {el : Text} (hline : '\n' ∉ el) (h : Quiet el) :
    convertSegment el = .ok (keptWith "\n\tint ret;".toList el) := by
  have hsingle : split "\n".toList el = [el] := split_char_of_not_mem hline
  unfold keptWith
  by_cases hstruct : "struct tst_test test".toList <:+: el
  · rw [convertSegment_of_struct hstruct, if_pos hstruct]
  obtain ⟨hkind, -⟩ := h.resolve_left hstruct
  rw [if_neg hstruct]
  by_cases hverify : "verify".toList <:+: el
  · rw [if_pos hverify] at hkind ⊢
    have hbehind : '\n' ∉ behind el := fun hmem => hline <| by
      rw [eq_upTo_behind hkind.brace]
      simp [hmem]
    have hcut : '\n' ∉ upTo (behind el) := fun hmem =>
      hbehind ((List.takeWhile_sublist _).subset hmem)
    -- the body is cut at the next brace and is one line, too
    have hlines : ∀ l ∈ [upTo (behind el)], '\n' ∉ l := by simpa using hcut
    have hyields := (verify_lines hlines hkind.statements).mpr (by simpa using hkind.line)
    have hbody : bodyText (behind el) = .ok (bodyKept el) := by
      have hone : split "\n".toList (upTo (behind el)) = [upTo (behind el)] :=
        split_char_of_not_mem hcut
      rw [bodyText, hone, map_eq_ok]
      exact hyields
    rw [convertSegment_body hstruct (by rw [hsingle]; exact hverify) hkind.brace, hbody]
    show Except.ok _ = Except.ok _
    simp
  · rw [if_neg hverify] at hkind ⊢
    have hplain : ¬ IsVerify el := by rwa [IsVerify, hsingle]
    by_cases hskip : skipLine el
    · rw [convertSegment_of_plain hstruct hplain, hsingle, List.mapM_cons, List.mapM_nil,
        convertLine_of_skip hskip, if_pos hskip]
      rfl
    · obtain ⟨hstatements, hfine⟩ := hkind.resolve_left hskip
      have hlines : ∀ l ∈ [el], '\n' ∉ l := by simpa using hline
      have hyields := (plain_lines false hlines hstatements).mpr
        ⟨by simpa using hfine, by
          rw [List.countP_singleton]
          split <;> decide⟩
      rw [if_neg hskip, convertSegment_yields hstruct hplain, hsingle,
        List.filter_cons_of_pos (by simpa using hskip), List.filter_nil]
      exact hyields

/-- What is left of such a segment. -/
theorem leftOf_of_quiet {el : Text} (hline : '\n' ∉ el) (h : Quiet el) :
    SegmentOk el ∧ leftOf el = keptWith "\n\tint ret;".toList el := by
  have hsegment := convertSegment_of_quiet hline h
  have hok := (convertSegment_returns_iff el).mp ⟨_, hsegment⟩
  rw [convertSegment_eq_leftOf hline hok] at hsegment
  exact ⟨hok, Except.ok.inj hsegment⟩

/-- Behind an opening brace a declaration is code that does not matter. -/
theorem scan_declaration {a b : Text} (hmode : (stateAfter .start a).1 = .code)
    (hplace : (stateAfter .start a).2 = .fresh ∨ (stateAfter .start a).2 = .rest) :
    stateAfter .start (a ++ '{' :: ("\n\tint ret;".toList ++ b))
        = stateAfter .start (a ++ '{' :: b) ∧
      ∀ s : Scan, (code (a ++ '{' :: ("\n\tint ret;".toList ++ b))).foldl Scan.step s
        = (code (a ++ '{' :: b)).foldl Scan.step s := by
  have hcut := codeFrom_append_cons (d := '{') (by decide) (by decide) .start a
  obtain ⟨hcode, hstate⟩ := hcut ("\n\tint ret;".toList ++ b)
  obtain ⟨hcode', hstate'⟩ := hcut b
  generalize stateAfter .start a = s at *
  obtain ⟨m, p⟩ := s
  obtain rfl : m = .code := hmode
  -- the brace is code, and what follows it is on a line that has begun
  have hbrace : ∀ t : Text, codeFrom (.code, p) ('{' :: t) = '{' :: codeFrom (.code, .rest) t ∧
      stateAfter (.code, p) ('{' :: t) = stateAfter (.code, .rest) t := by
    intro t
    rcases hplace with rfl | rfl <;> exact ⟨rfl, rfl⟩
  have hdeclaration : codeFrom (.code, .rest) ("\n\tint ret;".toList ++ b)
        = "\n\tint ret;".toList ++ codeFrom (.code, .rest) b ∧
      stateAfter (.code, .rest) ("\n\tint ret;".toList ++ b) = stateAfter (.code, .rest) b := by
    have hcode : codeFrom (.code, .rest) "\n\tint ret;".toList = "\n\tint ret;".toList := by decide
    have hstate : stateAfter (.code, .rest) "\n\tint ret;".toList = (.code, .rest) := by decide
    have hcut := codeFrom_append (by decide : '/' ∉ "\n\tint ret;".toList) (.code, .rest) b
    rwa [hcode, hstate] at hcut
  rw [hstate, hstate', (hbrace _).2, (hbrace _).2, hdeclaration.2]
  refine ⟨rfl, fun s => ?_⟩
  rw [code, code, hcode, hcode', (hbrace _).1, (hbrace _).1, hdeclaration.1, List.foldl_append,
    List.foldl_append, List.foldl_cons, List.foldl_cons, List.foldl_append,
    Scan.foldl_inner (w := "\n\tint ret;".toList) (by decide) (by decide) (Scan.depth_step_brace _)]

/-- What is kept of a segment are lines. -/
theorem keptWith_cases (declaration el : Text) :
    keptWith declaration el = [] ∨ ∃ a, keptWith declaration el = a ++ ['\n'] := by
  unfold keptWith
  split
  · exact .inl rfl
  · refine .inr ?_
    split
    · exact ⟨upTo el ++ '{' :: (declaration ++ bodyKept el), by simp⟩
    · split
      · exact ⟨[], rfl⟩
      · exact ⟨_, rfl⟩

/-- With and without a declaration of `ret` the same functions are scanned. -/
theorem scan_of_quiet {el : Text} (h : Quiet el) :
    Lines (keptWith "\n\tint ret;".toList el) ∧ Lines (keptWith [] el) ∧
      ∀ s : Scan, (code (keptWith "\n\tint ret;".toList el)).foldl Scan.step s
        = (code (keptWith [] el)).foldl Scan.step s := by
  have hlines : ∀ declaration, stateAfter .start (keptWith declaration el) = .start →
      Lines (keptWith declaration el) := fun declaration hstate =>
    ⟨keptWith_cases declaration el, hstate⟩
  by_cases hstruct : "struct tst_test test".toList <:+: el
  · have hnil : ∀ declaration, keptWith declaration el = [] := fun _ => if_pos hstruct
    rw [hnil, hnil]
    exact ⟨lines_nil, lines_nil, fun s => rfl⟩
  obtain ⟨hkind, hstate⟩ := h.resolve_left hstruct
  by_cases hverify : "verify".toList <:+: el
  · rw [if_pos hverify] at hkind
    have hkept : ∀ declaration, keptWith declaration el
        = upTo el ++ '{' :: (declaration ++ (bodyKept el ++ "\n".toList)) := fun _ =>
      (if_neg hstruct).trans (if_pos hverify)
    obtain ⟨hsame, hscan⟩ :=
      scan_declaration (b := bodyKept el ++ "\n".toList) hkind.mode hkind.place
    refine ⟨hlines _ ?_, hlines _ hstate, ?_⟩
    · rw [hkept] at hstate ⊢
      rw [hsame]
      exact hstate
    · rw [hkept, hkept]
      exact hscan
  · have hkept : ∀ declaration, keptWith declaration el = keptWith [] el := fun _ => by
      unfold keptWith
      rw [if_neg hstruct, if_neg hstruct, if_neg hverify, if_neg hverify]
    rw [hkept]
    exact ⟨hlines _ hstate, hlines _ hstate, fun s => rfl⟩

/-! ## The functions it defines -/

theorem scan_flatMap {f g : Text → Text} {els : List Text}
    (h : ∀ el ∈ els, Lines (f el) ∧ Lines (g el) ∧
      ∀ s : Scan, (code (f el)).foldl Scan.step s = (code (g el)).foldl Scan.step s) :
    Lines (els.flatMap f) ∧ Lines (els.flatMap g) ∧
      ∀ s : Scan, (code (els.flatMap f)).foldl Scan.step s
        = (code (els.flatMap g)).foldl Scan.step s := by
  induction els with
  | nil => exact ⟨lines_nil, lines_nil, fun s => rfl⟩
  | cons el els ih =>
    obtain ⟨⟨hf, hg, hscan⟩, h⟩ := List.forall_mem_cons.mp h
    obtain ⟨hfs, hgs, hscans⟩ := ih h
    rw [List.flatMap_cons, List.flatMap_cons]
    refine ⟨hf.append_lines hfs, hg.append_lines hgs, fun s => ?_⟩
    rw [(hf.append _).1, (hg.append _).1, List.foldl_append, List.foldl_append, hscan, hscans]

/-- Every segment of the text is quiet. -/
def QuietText (t : Text) : Prop := ∀ el ∈ split "static ".toList t, Quiet el

/-- The line that includes the header is a directive. -/
theorem include_lines : Lines "#include \"incl.h\"\n".toList ∧
    (code "#include \"incl.h\"\n".toList).all isBlank = true := by
  refine ⟨⟨.inr ⟨"#include \"incl.h\"".toList, ?_⟩, ?_⟩, ?_⟩
  · decide +kernel
  · decide +kernel
  · decide +kernel

/-- The converted text defines the functions of the kept one. -/
theorem scan_converted {t : Text} (hline : '\n' ∉ t) (h : QuietText t) :
    Lines (converted t) ∧ CFunctions.scan (converted t) = CFunctions.scan (keptText t) := by
  have hsegments : (split "static ".toList t).map leftOf
      = (split "static ".toList t).map (keptWith "\n\tint ret;".toList) := by
    refine List.map_congr_left fun el hel => (leftOf_of_quiet (fun hmem => hline ?_) (h el hel)).2
    exact (infix_of_mem_split (by decide) hel).subset hmem
  obtain ⟨hlines, -, hscan⟩ := scan_flatMap fun el hel => scan_of_quiet (h el hel)
  have hkept : (split "static ".toList t).flatMap leftOf
      = (split "static ".toList t).flatMap (keptWith "\n\tint ret;".toList) := by
    rw [List.flatMap_def, hsegments, ← List.flatMap_def]
  obtain ⟨hinclude, hblank⟩ := include_lines
  unfold converted
  rw [hkept]
  refine ⟨hinclude.append_lines hlines, ?_⟩
  unfold CFunctions.scan
  rw [(hinclude.append _).1, List.foldl_append, Scan.foldl_blank (List.all_eq_true.mp hblank),
    hscan]
  rfl

/-- The added `main` is defined if it is not added inside of braces. -/
theorem names_added (s : Scan) : (addedMain.foldl Scan.step s).names
    = if s.depth = 0 then s.names ++ ["main".toList] else s.names := by
  have hcut : addedMain
      = "void main()\x7b\n\tsetup();\n\tcleanup();\n".toList ++ "\x7d\n".toList := rfl
  obtain ⟨_ | d, before, names⟩ := s
  · have hhead : addedMain
        = 'v' :: ("oid main()".toList ++ '{' :: "\n\tsetup();\n\tcleanup();\n\x7d\n".toList) := rfl
    have hfirst : Scan.step ⟨0, before, names⟩ 'v' = ⟨0, 'v' :: before, names⟩ := rfl
    rw [hhead, List.foldl_cons, hfirst, List.foldl_append,
      Scan.foldl_outer (by decide) (List.cons_ne_nil _ _), List.foldl_cons,
      Scan.names_of_no_brace (by decide)]
    rfl
  · rw [hcut, List.foldl_append, Scan.names_of_no_brace (by decide),
      Scan.names_of_no_close (by decide) (Nat.succ_ne_zero d)]
    rfl

/-- The text that `convertFile` returns for the source defines `main` once; and when the `main`
was added because the segments do not have the letters, it defines the functions that this
`main` calls. -/
def DefinesMain (source : Text) : Prop :=
  ∃ n t ret, rmcomment n source = some t ∧ convertFile n source = .ok ret ∧
    (definedNames ret).count "main".toList = 1 ∧
    (isMain (split "static ".toList t) = false →
      "setup".toList ∈ definedNames ret ∧ "cleanup".toList ∈ definedNames ret)

/-- The functions that are kept fit to the letters: with the letters `main` in the text, one
`main` is kept; without them `setup` and `cleanup` are, and no `main` where one is added
outside of braces. A `main` that is added inside of braces is none. -/
def MainFits (t : Text) : Prop :=
  let s := CFunctions.scan (keptText t)
  if "main".toList <:+: t then s.names.count "main".toList = 1
  else (if s.depth = 0 then "main".toList ∉ s.names else s.names.count "main".toList = 1) ∧
    "setup".toList ∈ s.names ∧ "cleanup".toList ∈ s.names

/-- What an added `main` makes of the names. -/
theorem added_fits (s : Scan) :
    ((addedMain.foldl Scan.step s).names.count "main".toList = 1 ∧
      "setup".toList ∈ (addedMain.foldl Scan.step s).names ∧
      "cleanup".toList ∈ (addedMain.foldl Scan.step s).names) ↔
    (if s.depth = 0 then "main".toList ∉ s.names else s.names.count "main".toList = 1) ∧
      "setup".toList ∈ s.names ∧ "cleanup".toList ∈ s.names := by
  rw [names_added]
  -- the added function has another name than the two it calls
  have hother : ∀ f : Text, f ≠ "main".toList →
      (f ∈ s.names ++ ["main".toList] ↔ f ∈ s.names) := by
    intro f hf
    rw [List.mem_append, List.mem_singleton, or_iff_left hf]
  split
  · rw [List.count_append, List.count_singleton_self, hother _ (by decide), hother _ (by decide),
      Nat.add_eq_right, List.count_eq_zero]
  · rfl

/-- What the text that is returned defines, by the segments that are kept. -/
theorem returned_fits {t : Text} (hline : '\n' ∉ t) (h : QuietText t) :
    (∃ ret, convertText t = .ok ret ∧ (definedNames ret).count "main".toList = 1 ∧
      (isMain (split "static ".toList t) = false →
        "setup".toList ∈ definedNames ret ∧ "cleanup".toList ∈ definedNames ret)) ↔ MainFits t := by
  have hok : ∀ el ∈ split "static ".toList t, SegmentOk el := fun el hel =>
    (leftOf_of_quiet (fun hmem => hline ((infix_of_mem_split (by decide) hel).subset hmem))
      (h el hel)).1
  obtain ⟨hlines, hscan⟩ := scan_converted hline h
  have hcode : code addedMain = addedMain := by decide
  have hadded : definedNames (converted t ++ addedMain)
      = (addedMain.foldl Scan.step (CFunctions.scan (keptText t))).names := by
    rw [definedNames, CFunctions.scan, (hlines.append _).1, List.foldl_append, hcode, ← hscan]
    rfl
  have hkept : definedNames (converted t) = (CFunctions.scan (keptText t)).names := by
    rw [definedNames, hscan]
  rw [convertText_of_ok hline hok]
  unfold MainFits
  by_cases hmain : "main".toList <:+: t
  · have htrue := (isMain_split t).mpr hmain
    rw [if_pos htrue, if_pos hmain, ← hkept]
    constructor
    · rintro ⟨ret, hret, hcount, -⟩
      rw [Except.ok.inj hret]
      exact hcount
    · intro hcount
      refine ⟨_, rfl, hcount, fun hfalse => ?_⟩
      rw [htrue] at hfalse
      cases hfalse
  · have hfalse : ¬ isMain (split "static ".toList t) = true :=
      fun h => hmain ((isMain_split t).mp h)
    rw [if_neg hfalse, if_neg hmain, ← added_fits, ← hadded]
    constructor
    · rintro ⟨ret, hret, hcount, hcalls⟩
      rw [Except.ok.inj hret]
      exact ⟨hcount, hcalls (Bool.eq_false_iff.mpr hfalse)⟩
    · rintro ⟨hcount, hcalls⟩
      exact ⟨_, rfl, hcount, fun _ => hcalls⟩

/-- A source with `setup` and `cleanup`, and no `main`. -/
def domainSource : Text :=
  "void setup(void) \x7b domain = 1; \x7d // init\nvoid cleanup(void) \x7b \x7d // end\n".toList

end UnikraftSuite
