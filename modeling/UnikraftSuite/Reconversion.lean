import UnikraftSuite.MainFunction
import UnikraftSuite.Comments

/-!
# Converting a second time

`rmcomment` leaves one line without a comment marker: it keeps the part in front of the first
`//` of each line, and such a part does not end with a slash, so that no marker is made where two
parts meet (`rmcomment_clean`). A line without `//` is dropped, and so a second `rmcomment` drops
whatever the first one has kept (`rmcomment_again`).

The rewriting makes no marker either, where no slash stands in front of a parenthesis or of a
`SAFE_` call: it then joins nothing to a slash. `convert.py` makes of its own output the file that
has only the `main` it adds (`reconverted`).
-/

namespace UnikraftSuite

open PyStr Substring Raise CFunctions

/-- A statement about the characters of a text is decided by going over the text. -/
local instance (priority := high) (t : Text) (p : Char → Prop) [DecidablePred p] :
    Decidable (∀ c ∈ t, p c) := List.decidableBAll p t

/-! ## What `rmcomment` returns -/

/-- A text in which no comment begins. -/
def MarkerFree (t : Text) : Prop := ∀ d ∈ ['*', '/'], ¬ ['/', d] <:+: t

theorem markerFree_iff {t : Text} :
    MarkerFree t ↔ ¬ "/*".toList <:+: t ∧ ¬ "//".toList <:+: t := by
  rw [MarkerFree, List.forall_mem_cons, List.forall_mem_singleton]
  rfl

theorem MarkerFree.mono {s t : Text} (h : MarkerFree t) (hs : s <:+: t) : MarkerFree s :=
  fun d hd hin => h d hd (hin.trans hs)

/-- The loop of `rmcomment` ends without a `/*`. -/
theorem rmcommentLoop_free : ∀ {n : Nat} {file out : Text}, rmcommentLoop n file = some out →
    ¬ "/*".toList <:+: out
  | n + 1, file, out, h => by
    rw [rmcommentLoop] at h
    split at h
    · exact rmcommentLoop_free h
    · next hfree => exact Option.some.inj h ▸ hfree

/-- What is kept of a line has no marker, and no slash at its end. -/
theorem uncommentLine_clean {line : Text} (h : ¬ "/*".toList <:+: line) :
    MarkerFree (uncommentLine line) ∧ ¬ ['/'] <:+ uncommentLine line := by
  rw [uncommentLine]
  split
  · next hin =>
    obtain ⟨a, b, rfl, ha⟩ := exists_cut (by decide) hin
    rw [split_cut (by decide) ha, List.headD_cons]
    refine ⟨markerFree_iff.mpr ⟨fun hopen => h (List.infix_append_of_infix_left hopen),
      ha.absent⟩, ?_⟩
    -- with a slash at its end, the `//` would come earlier
    rintro ⟨u, rfl⟩
    exact ha ⟨u, [], by simp⟩
  · exact ⟨markerFree_iff.mpr (by decide), by decide⟩

/-- **What `rmcomment` returns** is one line, and no comment begins in it. -/
theorem rmcomment_clean {n : Nat} {file out : Text} (h : rmcomment n file = some out) :
    MarkerFree out ∧ '\n' ∉ out := by
  obtain ⟨text, hloop, rfl⟩ := Option.map_eq_some_iff.mp h
  have hfree := rmcommentLoop_free hloop
  have hclean : ∀ x ∈ (split "\n".toList text).map uncommentLine,
      MarkerFree x ∧ ¬ ['/'] <:+ x := by
    intro x hx
    obtain ⟨line, hline, rfl⟩ := List.mem_map.mp hx
    exact uncommentLine_clean fun hin => hfree (hin.trans (infix_of_mem_split (by decide) hline))
  constructor
  · intro d hd
    rw [List.flatMap_def]
    exact not_pair_infix_flatten (fun x hx => (hclean x hx).1 d hd)
      fun x hx => (hclean x (List.dropLast_subset _ hx)).2
  · have hid := map_uncommentBy id text
    rw [List.map_id, List.map_id] at hid
    rw [← hid]
    exact fun hmem => not_break_of_mem_uncommentBy hmem rfl

/-- The text without a marker is dropped. -/
theorem rmcomment_of_markerFree {t : Text} (h : MarkerFree t) (n : Nat) :
    rmcomment (n + 1) t = some [] := by
  obtain ⟨hopen, hline⟩ := markerFree_iff.mp h
  rw [rmcomment, rmcommentLoop, if_neg hopen, Option.map_some]
  refine congrArg some (List.flatMap_eq_nil_iff.mpr fun line hmem => ?_)
  exact if_neg fun hin => hline (hin.trans (infix_of_mem_split (by decide) hmem))

/-! ## What the rewriting makes -/

/-- A marker that shares nothing with the new text is not made by a replacement. -/
theorem not_infix_replaced {p sep new line : Text} (hsep : sep ≠ []) (hne : new ≠ [])
    (hnew : ∀ c ∈ new, c ∉ p) (h : ¬ p <:+: line) : ¬ p <:+: replaced sep new line := by
  by_cases hin : sep <:+: line
  · obtain ⟨a, b, r, rfl, -, hb, heq⟩ := replaced_cut hsep hin new
    rw [heq, List.append_assoc, infix_append_sep hnew hne]
    rintro (hp | hp)
    · exact h (List.infix_append_of_infix_left hp)
    · exact h ((hp.trans hb.isInfix).trans
        ((List.suffix_append sep r).trans (List.suffix_append a _)).isInfix)
  · rwa [replaced_of_absent hin]

theorem not_infix_tested {p pre line : Text} (hpre : ∀ c ∈ pre, c ∉ p) (hne : pre ≠ [])
    (hp : p ≠ []) (hsemi : ';' ∉ p) (h : ¬ p <:+: line) : ¬ p <:+: tested pre line := by
  by_cases hin : "TEST(".toList <:+: line
  · obtain ⟨a, b, r, rfl, -, hb, heq⟩ := tested_cut hin pre
    have hsplit := infix_append_sep hpre hne [] (b ++ ";".toList)
    rw [heq, List.append_assoc, ← List.nil_append (pre ++ _), hsplit]
    rintro (hnil | hrest)
    · exact hp (List.infix_nil.mp hnil)
    · rcases (infix_append_cons hsemi b []).mp hrest with hmem | hmem
      · exact h ((hmem.trans hb.isInfix).trans
          ((List.suffix_append "TEST(".toList r).trans (List.suffix_append a _)).isInfix)
      · exact hp (List.infix_nil.mp hmem)
  · rwa [tested_of_absent hin]

/-- Letter case has no part in a marker. -/
theorem not_infix_lower {p n : Text} (hp : ∀ c ∈ p, ¬ (97 ≤ c.toNat ∧ c.toNat ≤ 122))
    (h : ¬ p <:+: n) : ¬ p <:+: lower n := by
  rintro ⟨u, v, heq⟩
  obtain ⟨w, v', rfl, hw, -⟩ := List.map_eq_append_iff.mp heq.symm
  obtain ⟨u', q, rfl, -, hq⟩ := List.map_eq_append_iff.mp hw
  have hself : ∀ {q p : Text}, (∀ c ∈ p, ¬ (97 ≤ c.toNat ∧ c.toNat ≤ 122)) →
      q.map Char.toLower = p → q = p := by
    intro q
    induction q with
    | nil => exact fun _ h => h
    | cons c q ih =>
      rintro p hp rfl
      rw [List.map_cons, List.forall_mem_cons] at hp
      exact congrArg₂ _ (eq_of_toLower_eq hp.1 rfl) (ih hp.2 rfl)
  exact h (hself hp hq ▸ ⟨u', v', rfl⟩)

/-- A text without a marker, and without a slash in front of what the rewriting takes away. -/
structure Tame (t : Text) : Prop where
  markerFree : MarkerFree t
  paren : ¬ "/(".toList <:+: t
  safe : ¬ "/SAFE_".toList <:+: t

theorem Tame.mono {s t : Text} (h : Tame t) (hs : s <:+: t) : Tame s :=
  ⟨h.markerFree.mono hs, fun hin => h.paren (hin.trans hs), fun hin => h.safe (hin.trans hs)⟩

theorem Tame.writeAll {line : Text} (h : Tame line) : Tame (writeAll line) := by
  refine ⟨fun d hd => ?_, ?_, ?_⟩
  · refine not_infix_replaced (by decide) (by decide) ?_ (h.markerFree d hd)
    revert d
    decide
  · exact not_infix_replaced (by decide) (by decide) (by decide) h.paren
  · exact not_infix_replaced (by decide) (by decide) (by decide) h.safe

theorem glued_markerFree {args : Text} (h : MarkerFree args) (hparen : ¬ "/(".toList <:+: args) :
    MarkerFree (glued args) := by
  intro d hd
  obtain ⟨arg, more, hsplit⟩ := List.exists_cons_of_ne_nil (split_ne_nil "(".toList args)
  have hpiece : ∀ x ∈ split "(".toList args, ¬ ['/', d] <:+: x := fun x hx =>
    h.mono (infix_of_mem_split (by decide) hx) d hd
  have hend : ∀ x ∈ (split "(".toList args).dropLast, ¬ ['/'] <:+ x := by
    rintro x hx ⟨u, rfl⟩
    refine hparen (.trans ⟨u, [], ?_⟩ (append_infix_of_mem_dropLast_split (by decide) hx))
    simp
  rw [hsplit] at hpiece hend
  rw [glued, hsplit, List.headD_cons, List.tail_cons, repeated]
  split
  · rw [List.append_nil]
    exact hpiece arg List.mem_cons_self
  · next hmore =>
    -- the first piece is written twice
    have hfirst : ¬ ['/'] <:+ arg := by
      rw [List.dropLast_cons_of_ne_nil hmore] at hend
      exact hend arg List.mem_cons_self
    have hflat : arg ++ (arg ++ more.flatten) = (arg :: arg :: more).flatten := rfl
    rw [hflat]
    refine not_pair_infix_flatten
      (List.forall_mem_cons.mpr ⟨hpiece arg List.mem_cons_self, hpiece⟩) ?_
    rw [List.dropLast_cons_cons]
    exact List.forall_mem_cons.mpr ⟨hfirst, hend⟩

theorem safeText_cases (line : Text) :
    safeText line = line ∨ rewriteSafe line = .ok (safeText line) := by
  unfold safeText
  split
  · next before call rest hline =>
    split
    · next name arg more hcall => exact .inr (rewriteSafe_cut hline hcall)
    · exact .inl rfl
  · exact .inl rfl

theorem safeText_markerFree {line : Text} (h : Tame line) : MarkerFree (safeText line) := by
  rcases safeText_cases line with heq | hok
  · rw [heq]
    exact h.markerFree
  by_cases hin : "SAFE_".toList <:+: line
  · obtain ⟨a, n, args, y, hcall⟩ := exists_firstCall hok hin
    rw [hcall.rewriteSafe_eq] at hok
    rw [← Except.ok.inj hok]
    obtain ⟨hline, -, -, -, -⟩ := hcall
    have hn : n <:+: line := ⟨a ++ "SAFE_".toList, '(' :: (args ++ y), by rw [hline]; simp⟩
    have hargs : args <:+: line := ⟨a ++ ("SAFE_".toList ++ (n ++ ['('])), y, by rw [hline]; simp⟩
    have hend : ¬ ['/'] <:+ a := by
      rintro ⟨u, rfl⟩
      exact h.safe ⟨u, n ++ '(' :: (args ++ y), by rw [hline]; simp⟩
    intro d hd
    have hparen : '(' ∉ ['/', d] := by
      revert d
      decide
    have hlower : ∀ c ∈ ['/', d], ¬ (97 ≤ c.toNat ∧ c.toNat ≤ 122) := by
      revert d
      decide
    rw [← List.append_assoc, infix_append_cons hparen]
    rintro (hl | hr)
    · rcases pair_infix_append hl with hl | hl | hl
      · exact h.markerFree d hd (hline ▸ List.infix_append_of_infix_left hl)
      · exact not_infix_lower hlower (fun hp => h.markerFree d hd (hp.trans hn)) hl
      · exact hend hl
    · exact glued_markerFree (h.markerFree.mono hargs) (h.mono hargs).paren d hd hr
  · rw [rewriteSafe_of_absent hin] at hok
    exact Except.ok.inj hok ▸ h.markerFree

theorem rest_markerFree {l : Text} (h : MarkerFree l) :
    MarkerFree (convertRest l) ∧ MarkerFree (verfuncRest l) := by
  have hkeys : ∀ d ∈ ['*', '/'], (∀ c ∈ "int ret = ".toList, c ∉ ['/', d]) ∧
      (∀ c ∈ "ret = ".toList, c ∉ ['/', d]) ∧ (∀ c ∈ "fprintf".toList, c ∉ ['/', d]) ∧
      (∀ c ∈ "ret".toList, c ∉ ['/', d]) ∧ ';' ∉ ['/', d] := by decide
  refine ⟨fun d hd => ?_, fun d hd => ?_⟩
  · obtain ⟨hint, -, hprint, -, hsemi⟩ := hkeys d hd
    exact not_infix_tested hint (by decide) (by simp) hsemi
      (not_infix_replaced (by decide) (by decide) hprint (h d hd))
  · obtain ⟨-, hpre, -, hret, hsemi⟩ := hkeys d hd
    exact not_infix_replaced (by decide) (by decide) hret
      (not_infix_tested hpre (by decide) (by simp) hsemi (h d hd))

/-- A block of other characters separates the markers of two texts. -/
theorem markerFree_sep {a b w : Text} (hw : ∀ c ∈ w, c ≠ '/' ∧ c ≠ '*') (hne : w ≠ [])
    (ha : MarkerFree a) (hb : MarkerFree b) : MarkerFree (a ++ (w ++ b)) := by
  intro d hd
  have hforeign : ∀ c ∈ w, c ∉ ['/', d] := by
    intro c hc
    have hd' : d = '*' ∨ d = '/' := by simpa using hd
    rcases hd' with rfl | rfl <;> simp [hw c hc]
  rw [infix_append_sep hforeign hne]
  exact not_or.mpr ⟨ha d hd, hb d hd⟩

theorem markerFree_nil : MarkerFree [] := markerFree_iff.mpr (by decide)

/-- What is left of a segment ends with a line break, if anything is left of it. -/
theorem leftOf_cases (el : Text) : leftOf el = [] ∨ ∃ t, leftOf el = t ++ "\n".toList := by
  unfold leftOf
  split
  · exact .inl rfl
  · split
    · exact .inr ⟨_, rfl⟩
    · exact .inr ⟨_, rfl⟩

theorem leftOf_markerFree {el : Text} (h : Tame el) : MarkerFree (leftOf el) := by
  have hbreak : ∀ c ∈ "\n".toList, c ≠ '/' ∧ c ≠ '*' := by decide
  have hline : ∀ {t : Text}, MarkerFree t → MarkerFree (t ++ "\n".toList) := by
    intro t ht
    have hsep := markerFree_sep hbreak (by decide) ht markerFree_nil
    rwa [List.append_nil] at hsep
  unfold leftOf
  split
  · exact markerFree_nil
  · split
    · have hup : upTo el <:+: el := (List.takeWhile_prefix _).isInfix
      have hbody : upTo (behind el) <:+: el :=
        (List.takeWhile_prefix _).isInfix.trans
          ((List.tail_suffix _).trans (List.dropWhile_suffix _)).isInfix
      have hrest := (rest_markerFree (safeText_markerFree (h.mono hbody).writeAll)).2
      refine hline ?_
      rw [List.append_assoc]
      have hdeclared : ∀ c ∈ "\x7b\n\tint ret;".toList, c ≠ '/' ∧ c ≠ '*' := by decide
      exact markerFree_sep hdeclared (by decide) (h.mono hup).markerFree (hline hrest)
    · refine hline ?_
      split
      · exact markerFree_nil
      · exact hline (rest_markerFree (safeText_markerFree h)).1

/-- **The rewriting makes no marker.** -/
theorem convertText_markerFree {t new : Text} (ht : '\n' ∉ t) (htame : Tame t)
    (h : convertText t = .ok new) : MarkerFree new := by
  have hok := (convertText_returns_iff t).mp ⟨new, h⟩
  rw [convertText_of_ok ht hok] at h
  have hsegments : MarkerFree ((split "static ".toList t).map leftOf).flatten := by
    intro d hd
    refine not_pair_infix_flatten (fun x hx => ?_) fun x hx => ?_
    · obtain ⟨el, hel, rfl⟩ := List.mem_map.mp hx
      exact leftOf_markerFree (htame.mono (infix_of_mem_split (by decide) hel)) d hd
    · obtain ⟨el, -, rfl⟩ := List.mem_map.mp (List.dropLast_subset _ hx)
      rcases leftOf_cases el with hnil | ⟨t, ht⟩
      · rw [hnil]
        decide
      · rw [ht]
        rintro ⟨u, hu⟩
        exact absurd (List.append_inj' hu rfl).2 (by decide)
  have hinclude : ∀ c ∈ "#include \"incl.h\"\n".toList, c ≠ '/' ∧ c ≠ '*' := by decide
  have hmain : ∀ c ∈ addedMain, c ≠ '/' ∧ c ≠ '*' := by decide
  have hconverted : MarkerFree (converted t) := by
    unfold converted
    rw [List.flatMap_def]
    exact markerFree_sep hinclude (by decide) markerFree_nil hsegments
  have hadded := markerFree_sep hmain (by decide) hconverted markerFree_nil
  rw [List.append_nil] at hadded
  rw [← Except.ok.inj h]
  split
  · exact hconverted
  · exact hadded

/-! ## The second time -/

/-- The file that `convert.py` writes for a text of which nothing is left. -/
def emptyTest : Text :=
  "#include \"incl.h\"\n\nvoid main()\x7b\n\tsetup();\n\tcleanup();\n\x7d\n".toList

theorem convertFile_of_markerFree {t : Text} (h : MarkerFree t) (n : Nat) :
    convertFile (n + 1) t = .ok emptyTest := by
  rw [convertFile, rmcomment_of_markerFree h]
  rfl

/-- **`rmcomment` is no projection**: it leaves one line without a comment, and drops that line
when it is given it. -/
theorem rmcomment_again {n m : Nat} {file out : Text} (h : rmcomment n file = some out) :
    MarkerFree out ∧ '\n' ∉ out ∧ rmcomment (m + 1) out = some [] := by
  obtain ⟨hfree, hline⟩ := rmcomment_clean h
  exact ⟨hfree, hline, rmcomment_of_markerFree hfree m⟩

/-- A source with a comment at the end of its line. -/
theorem rmcomment_again_comment : rmcomment 2 "int main(void) // entry".toList
    = some "int main(void) ".toList ∧ rmcomment 3 "int main(void) ".toList = some [] := by
  have h : rmcomment 2 "int main(void) // entry".toList = some "int main(void) ".toList := by
    decide +kernel
  exact ⟨h, (rmcomment_again (m := 2) h).2.2⟩

/-- **`convert.py` on its own output** leaves nothing of a test, for every source that has no slash
directly in front of a parenthesis or of a `SAFE_` call. -/
theorem reconverted {n m : Nat} {file out new : Text} (hout : rmcomment n file = some out)
    (hparen : ¬ "/(".toList <:+: out) (hsafe : ¬ "/SAFE_".toList <:+: out)
    (h : convertFile n file = .ok new) : convertFile (m + 1) new = .ok emptyTest := by
  obtain ⟨hfree, hline⟩ := rmcomment_clean hout
  have hconv : (convertText out).mapError Halt.raised = .ok new := by
    rwa [convertFile, hout] at h
  obtain ⟨t, ht⟩ := returns_mapError.mp ⟨new, hconv⟩
  rw [ht] at hconv
  obtain rfl := Except.ok.inj hconv
  exact convertFile_of_markerFree (convertText_markerFree hline ⟨hfree, hparen, hsafe⟩ ht) m

/-- The test is there after the first conversion, and not after the second. -/
theorem reconverted_setup : ∃ new,
    convertFile 2 "static void setup(void)\x7b fd = SAFE_OPEN(dev); \x7d // once".toList = .ok new ∧
      new ≠ emptyTest ∧ convertFile 2 new = .ok emptyTest := by
  have hout : rmcomment 2 "static void setup(void)\x7b fd = SAFE_OPEN(dev); \x7d // once".toList
      = some "static void setup(void)\x7b fd = SAFE_OPEN(dev); \x7d ".toList := by decide
  obtain ⟨new, hnew⟩ : ∃ new, convertFile 2
      "static void setup(void)\x7b fd = SAFE_OPEN(dev); \x7d // once".toList = .ok new := ⟨_, rfl⟩
  refine ⟨new, hnew, ?_, reconverted (m := 1) hout (by decide) (by decide) hnew⟩
  rintro rfl
  revert hnew
  decide +kernel

end UnikraftSuite
