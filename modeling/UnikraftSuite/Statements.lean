import UnikraftSuite.Lib.CFunctions
import UnikraftSuite.Provenance

/-!
# Which statements survive the conversion

A conversion should lose nothing: a line that is no `#include`, that is not part of the test
structure or of a verify function (`inside`), and that has none of the markers the script
rewrites (`Protected`), should be in the output once, at its place, and unchanged but for the
`static ` taken out (`NothingLost`). The segment loop does so only for some lines, and the
main result **`nothingLost_iff`** says which (`Convertible`).

- `filter_line`: the chunks with text of a line are those of the parts of that line.
- `emits_iff`: when an item writes its part out as it stands.
- `items_of_line`: a part as long as what is left of its line is the only one of the line.
-/

namespace UnikraftSuite

open PyStr Substring Raise

/-! ## The test structure and the verify functions -/

/-- A body, with what is before it, is the initialiser of the test structure. -/
def isStructure (block : Text × Text) : Bool :=
  block.2 ≠ [] ∧ CFunctions.headName block.1.reverse = none ∧
    "struct tst_test test".toList <:+: CFunctions.declaration block.1

/-- A body is that of a verify function: the name in the head before it has `verify`. -/
def isVerifyFunction (block : Text × Text) : Bool :=
  block.2 ≠ [] ∧ (CFunctions.headName block.1.reverse).any fun name => "verify".toList <:+: name

/-- The test structure or a verify function. -/
def isPart (block : Text × Text) : Bool := isStructure block || isVerifyFunction block

/-- For every character, whether it is of the test structure or of a verify function. The flag
says that the test structure goes on behind its initialiser, up to the semicolon. -/
def marks : Bool → List (Text × Text) → List Bool
  | _, [] => []
  | more, block :: rest =>
    let close := if more then (block.1.takeWhile (· ≠ ';')).length + 1 else 0
    let start :=
      block.1.length - if isPart block then (CFunctions.declaration block.1).length else 0
    (List.range block.1.length).map (fun i => decide (i < close ∨ start ≤ i))
      ++ List.replicate block.2.length (isPart block) ++ marks (isStructure block) rest

/-- For every line, whether all its characters that are no white space are marked. -/
def markedLines : List (Char × Bool) → List Bool
  | [] => [true]
  | (c, marked) :: t =>
    match markedLines t with
    | [] => []
    | line :: rest =>
      if c = '\n' then true :: line :: rest
      else ((c.isWhitespace || marked) && line) :: rest

/-- The lines of a text that are inside the test structure or a verify function. -/
def inside (file : Text) : List Bool :=
  markedLines (file.zip (marks false (CFunctions.bodies file)))

/-! ## Protected lines -/

/-- A `#include` line. -/
def isInclude (line : Text) : Bool := "#include".toList <+: line.dropWhile Char.isWhitespace

/-- None of the markers for the rewriting of lines. -/
def Unrewritten (line : Text) : Prop :=
  ¬ "SAFE_".toList <:+: line ∧ ¬ "TEST(".toList <:+: line ∧ ¬ "file_printf".toList <:+: line

instance (line : Text) : Decidable (Unrewritten line) := inferInstanceAs (Decidable (_ ∧ _))

/-- The `i`-th line of the text is `line`, and the conversion must not lose it. -/
def Protected (file : Text) (i : Nat) (line : Text) : Prop :=
  (split "\n".toList file)[i]? = some line ∧ line.any (!·.isWhitespace) = true ∧
    isInclude line = false ∧ (inside file)[i]? ≠ some true ∧ Unrewritten line

instance (file : Text) (i : Nat) (line : Text) : Decidable (Protected file i line) :=
  inferInstanceAs (Decidable (_ ∧ _))

/-- The line without `static `. -/
def removal (line : Text) : Text := (split "static ".toList line).flatten

/-- The `i`-th line of the text written as a line of its own, if there is anything in it. -/
def whole (i : Nat) (line : Text) : List Chunk :=
  if line = [] then [] else [⟨some i, line ++ "\n".toList⟩]

/-- **No statement is lost**: every protected line is in the output exactly once, unchanged
but for `static `, and the output is in the order of the text. -/
def NothingLost (file : Text) : Prop :=
  (∀ i line, Protected file i line → ∃ out, emitted file = .ok out ∧
      convertText file = .ok (frame file (textOf out)) ∧
      out.filter (fun c => c.line = some i) = whole i (removal line)) ∧
    ∀ out, emitted file = .ok out → out.Pairwise InOrder

/-! ## When the script does so -/

/-- The item writes its part out as it stands. A line of a plain segment must not be passed
over. In a segment that goes to `verfunc`, a line up to the first brace must have it at its
end, if at all, and one up to the second has none, and no `TST_RET`. -/
def KeptIn : Item → Prop
  | .plain p => ¬ skipLine p.2
  | .function 0 p => '{' ∉ p.2.dropLast
  | .function 1 p => '{' ∉ p.2 ∧ ¬ "TST_RET".toList <:+: p.2
  | _ => False

/-- The segment loop gets through the text if anything in it is protected, and every protected
line is in one part, but for empty ones, that is kept where it is. -/
def Convertible (file : Text) : Prop :=
  ∀ i line, Protected file i line →
    (∀ el ∈ split "static ".toList file, SegmentOk el) ∧
      (removal line ≠ [] → ∃ a ∈ itemsOf file, a.part = some (i, removal line) ∧ KeptIn a)

/-! ## The chunks of a line -/

/-- The item stands for a part of the `i`-th line that is not empty. -/
def Holds (i : Nat) (a : Item) : Bool :=
  match a.part with
  | some p => p.1 = i ∧ p.2 ≠ []
  | none => false

/-- The chunks of an item with text of the `i`-th line. -/
def emits (i : Nat) (a : Item) : List Chunk :=
  match emit a with
  | .ok cs => cs.filter fun c => c.line = some i
  | .error _ => []

theorem holds_iff {i : Nat} {a : Item} : Holds i a = true ↔ ∃ q ≠ [], a.part = some (i, q) := by
  unfold Holds
  split
  · rename_i p hp
    constructor
    · intro h
      obtain ⟨rfl, hne⟩ := of_decide_eq_true h
      exact ⟨p.2, hne, hp⟩
    · rintro ⟨q, hq, hpart⟩
      rw [hp] at hpart
      cases hpart
      exact decide_eq_true ⟨rfl, hq⟩
  · rename_i hp
    refine iff_of_false Bool.false_ne_true ?_
    rintro ⟨q, -, hpart⟩
    rw [hp] at hpart
    cases hpart

theorem emits_of_not_holds {i : Nat} {a : Item} (h : Holds i a = false) : emits i a = [] := by
  unfold emits
  split
  · rename_i cs hcs
    refine List.filter_eq_nil_iff.mpr fun c hc hline => ?_
    rw [holds_iff.mpr (line_of_emit hcs hc (of_decide_eq_true hline))] at h
    cases h
  · rfl

/-- **The chunks with text of a line** are those of the parts of that line. -/
theorem filter_line {file : Text} {out : List Chunk} (h : emitted file = .ok out) (i : Nat) :
    out.filter (fun c => c.line = some i)
      = ((itemsOf file).filter (Holds i)).flatMap (emits i) := by
  obtain ⟨css, hcss, rfl⟩ := emitted_eq_ok.mp h
  have hemit := mapM_eq_ok_iff.mp hcss
  generalize itemsOf file = l at hemit
  clear h hcss
  induction hemit with
  | nil => rfl
  | @cons a cs l css ha hl ih =>
    have hcs : emits i a = cs.filter fun c => c.line = some i := by
      unfold emits
      rw [ha]
    rw [List.flatten_cons, List.filter_append, ih, ← hcs]
    cases hholds : Holds i a with
    | true => rw [List.filter_cons_of_pos hholds, List.flatMap_cons]
    | false =>
      rw [List.filter_cons_of_neg (by simp [hholds]), emits_of_not_holds hholds, List.nil_append]

theorem filterMap_filter_holds (i : Nat) (l : List Item) :
    (l.filter (Holds i)).filterMap Item.part
      = (l.filterMap Item.part).filter fun p => p.1 = i ∧ p.2 ≠ [] := by
  induction l with
  | nil => rfl
  | cons a l ih =>
    cases hpart : a.part with
    | none =>
      have hholds : Holds i a = false := by rw [Holds, hpart]
      rw [List.filter_cons_of_neg (by simp [hholds]), List.filterMap_cons_none hpart, ih]
    | some p =>
      have hholds : Holds i a = decide (p.1 = i ∧ p.2 ≠ []) := by rw [Holds, hpart]
      rw [List.filterMap_cons_some hpart]
      by_cases hp : p.1 = i ∧ p.2 ≠ []
      · rw [List.filter_cons_of_pos (hholds.trans (decide_eq_true hp)),
          List.filterMap_cons_some hpart, ih, List.filter_cons_of_pos (by simpa using hp)]
      · rw [List.filter_cons_of_neg (by simp [hholds, hp]), ih,
          List.filter_cons_of_neg (by simpa using hp)]

theorem filter_parts {line : Text} {lines : List Text} {n k : Nat} (h : lines[n]? = some line) :
    ((lines.zipIdx k).flatMap fun line =>
        (split "static ".toList line.1).map (line.2, ·)).filter (fun p => p.1 = k + n ∧ p.2 ≠ [])
      = ((split "static ".toList line).filter (· ≠ [])).map (k + n, ·) := by
  have hother : ∀ (lines : List Text) (k j : Nat), (∀ m, k ≤ m → m < k + lines.length → m ≠ j) →
      ((lines.zipIdx k).flatMap fun line =>
        (split "static ".toList line.1).map (line.2, ·)).filter (fun p => p.1 = j ∧ p.2 ≠ [])
          = [] := by
    intro lines k j hj
    refine List.filter_eq_nil_iff.mpr fun p hp hpj => ?_
    obtain ⟨⟨l, m⟩, hm, hp⟩ := List.mem_flatMap.mp hp
    obtain ⟨q, -, rfl⟩ := List.mem_map.mp hp
    obtain ⟨hge, hlt, -⟩ := List.mem_zipIdx hm
    exact hj m hge hlt (of_decide_eq_true hpj).1
  obtain ⟨hn, rfl⟩ := List.getElem?_eq_some_iff.mp h
  have hcut : lines = lines.take n ++ lines[n] :: lines.drop (n + 1) := by simp
  have hlen : (lines.take n).length = n := by rw [List.length_take]; omega
  conv_lhs => rw [hcut, List.zipIdx_append, List.zipIdx_cons, List.flatMap_append,
    List.flatMap_cons, List.filter_append, List.filter_append, hlen]
  rw [hother (lines.take n) k (k + n) (by omega), hother _ (k + n + 1) (k + n) (by omega),
    List.nil_append, List.append_nil, List.filter_map]
  congr 1
  exact List.filter_congr fun q _ => by simp

/-- The nonempty parts of a line, as items. -/
theorem parts_of_line {file : Text} {i : Nat} {line : Text}
    (h : (split "\n".toList file)[i]? = some line) :
    ((itemsOf file).filter (Holds i)).filterMap Item.part
      = ((split "static ".toList line).filter (· ≠ [])).map (i, ·) := by
  have hparts := filter_parts (k := 0) h
  rw [Nat.zero_add] at hparts
  rw [filterMap_filter_holds, parts_items, hparts]

/-! ## What an item makes of a part without markers -/

theorem Unrewritten.of_infix {q line : Text} (h : Unrewritten line) (hq : q <:+: line) :
    Unrewritten q :=
  ⟨fun h' => h.1 (h'.trans hq), fun h' => h.2.1 (h'.trans hq), fun h' => h.2.2 (h'.trans hq)⟩

theorem convertLine_of_unrewritten {line : Text} (h : Unrewritten line) :
    convertLine line = .ok (if skipLine line then [] else line ++ "\n".toList) := by
  unfold convertLine
  split
  · rfl
  · rw [rewriteSafe_of_absent h.1, ok_bind, replaceFirst_eq (by decide), ok_bind, replaced,
      if_neg h.2.2, rewriteTest_of_absent _ h.2.1]
    rfl

theorem verfuncLine_of_unrewritten {line : Text} (h : Unrewritten line) :
    verfuncLine line = .ok (replaced "TST_RET".toList "ret".toList line) := by
  have hall : ¬ "SAFE_WRITE_ALL".toList <:+: line := fun h' =>
    h.1 (List.IsInfix.trans (by decide) h')
  rw [verfuncLine, replaceFirst_eq (by decide), ok_bind, replaced_of_absent hall,
    rewriteSafe_of_absent h.1, ok_bind, rewriteTest_of_absent _ h.2.1]
  exact replaceFirst_eq (by decide) _ _

theorem filter_tag {i : Nat} {q : Text} (t : Text) :
    [(⟨tag (i, q), t⟩ : Chunk)].filter (fun c => c.line = some i)
      = if q = [] then [] else [⟨some i, t⟩] := by
  by_cases hq : q = []
  · have htag : tag (i, q) = none := if_pos hq
    rw [if_pos hq, htag]
    rfl
  · have htag : tag (i, q) = some i := if_neg hq
    rw [if_neg hq, htag, List.filter_cons_of_pos (by simp), List.filter_nil]

theorem emits_plain {i : Nat} {q : Text} (h : Unrewritten q) :
    emits i (.plain (i, q)) = if skipLine q then [] else [⟨some i, q ++ "\n".toList⟩] := by
  rw [emits, emit, convertLine_of_unrewritten h]
  by_cases hskip : skipLine q
  · rw [if_pos hskip, if_pos hskip]
    rfl
  · have hne : q ++ "\n".toList ≠ [] := List.append_ne_nil_of_right_ne_nil _ (by decide)
    rw [if_neg hskip, if_neg hskip]
    show List.filter _ (if q ++ "\n".toList = [] then [] else [_]) = _
    rw [if_neg hne, List.filter_cons_of_pos (by simp), List.filter_nil]

theorem emits_before {i : Nat} {q : Text} (hq : q ≠ []) (h : '{' ∉ q) :
    emits i (.function 0 (i, q)) = [⟨some i, q ++ "\n".toList⟩] := by
  rw [emits, emit, if_neg h]
  exact (filter_tag _).trans (if_neg hq)

theorem emits_at {i : Nat} {q : Text} (h : Unrewritten q) (hbrace : '{' ∈ q) :
    emits i (.function 0 (i, q)) = ⟨some i, upTo q ++ "\x7b\n".toList⟩ ::
      if behind q = [] then []
      else [⟨some i, replaced "TST_RET".toList "ret".toList (upTo (behind q)) ++ "\n".toList⟩] := by
  have hin : upTo (behind q) <:+: q := by
    conv_rhs => rw [eq_upTo_behind hbrace]
    exact (List.takeWhile_prefix _).isInfix.trans
      ((List.suffix_cons _ _).trans (List.suffix_append _ _)).isInfix
  rw [emits, emit, if_pos hbrace, verfuncLine_of_unrewritten (h.of_infix hin), ok_bind]
  show List.filter _ (_ :: _ :: [_]) = _
  rw [List.filter_cons_of_pos (by simp), List.filter_cons_of_neg (by simp), filter_tag]

theorem emits_between {i : Nat} {q : Text} (h : Unrewritten q) (hq : q ≠ []) :
    emits i (.function 1 (i, q))
      = [⟨some i, replaced "TST_RET".toList "ret".toList (upTo q) ++ "\n".toList⟩] := by
  have hin : upTo q <:+: q := (List.takeWhile_prefix _).isInfix
  rw [emits, emit, verfuncLine_of_unrewritten (h.of_infix hin), ok_bind]
  exact (filter_tag _).trans (if_neg hq)

/-- Of what is dropped, and of what is behind the second brace of a function. -/
theorem emits_dropped (i : Nat) (p : Part) : emits i (.dropped p) = [] := rfl

theorem emits_behind (i k : Nat) (p : Part) : emits i (.function (k + 2) p) = [] := rfl

theorem length_upTo_le (s : Text) : (upTo s).length ≤ s.length :=
  (List.takeWhile_sublist _).length_le

/-- A brace at the end only, or none: nothing is behind the first one. -/
theorem behind_eq_nil_iff {q : Text} (hbrace : '{' ∈ q) : behind q = [] ↔ '{' ∉ q.dropLast := by
  have hcut := eq_upTo_behind hbrace
  constructor
  · intro h hmem
    rw [hcut, h, List.dropLast_concat] at hmem
    exact not_mem_upTo q hmem
  · intro h
    by_contra hne
    refine h ?_
    rw [hcut, List.dropLast_append_of_ne_nil (List.cons_ne_nil _ _),
      List.dropLast_cons_of_ne_nil hne]
    exact List.mem_append_right _ List.mem_cons_self

theorem line_inj {i : Nat} {s t : Text} :
    ([⟨some i, s ++ "\n".toList⟩] : List Chunk) = [⟨some i, t ++ "\n".toList⟩] ↔ s = t := by
  simp

/-- **A part without markers is written out as it stands** if and only if `KeptIn` says so. -/
theorem emits_iff {i : Nat} {q : Text} {a : Item} (ha : a.part = some (i, q))
    (h : Unrewritten q) (hq : q ≠ []) :
    emits i a = [⟨some i, q ++ "\n".toList⟩] ↔ KeptIn a := by
  cases a with
  | close b => cases ha
  | dropped p =>
    rw [emits_dropped]
    exact iff_of_false nofun not_false
  | plain p =>
    obtain rfl : p = (i, q) := Option.some.inj ha
    rw [emits_plain h, KeptIn]
    by_cases hskip : skipLine q
    · exact iff_of_false (by rw [if_pos hskip]; exact nofun) fun hn => hn hskip
    · exact iff_of_true (if_neg hskip) hskip
  | function k p =>
    obtain rfl : p = (i, q) := Option.some.inj ha
    match k with
    | 0 =>
      rw [KeptIn]
      by_cases hbrace : '{' ∈ q
      · rw [emits_at h hbrace, ← behind_eq_nil_iff hbrace]
        have hcut := eq_upTo_behind hbrace
        by_cases hbehind : behind q = []
        · rw [hbehind] at hcut
          refine iff_of_true ?_ hbehind
          conv_rhs => rw [hcut]
          rw [if_pos hbehind]
          simp
        · rw [if_neg hbehind]
          exact iff_of_false (by simp) hbehind
      · exact iff_of_true (emits_before hq hbrace) fun hmem =>
          hbrace (List.mem_of_mem_dropLast hmem)
    | 1 =>
      rw [emits_between h hq, line_inj, KeptIn]
      by_cases hbrace : '{' ∈ q
      · -- what is behind the brace is lost
        refine iff_of_false (fun heq => ?_) fun hkept => hkept.1 hbrace
        have hlen := congrArg List.length (eq_upTo_behind hbrace)
        have hret : (replaced "TST_RET".toList "ret".toList (upTo q)).length
            ≤ (upTo q).length := length_replaced_le (by decide)
        rw [heq] at hret
        simp only [List.length_append, List.length_cons] at hlen
        omega
      · rw [upTo_of_not_mem hbrace, replaced_eq_self_iff (by decide), and_iff_right hbrace]
    | k + 2 =>
      rw [emits_behind]
      exact iff_of_false nofun not_false

/-- Nothing gets longer. -/
theorem length_of_mem_emits {i : Nat} {q : Text} {a : Item} (ha : a.part = some (i, q))
    (h : Unrewritten q) (hq : q ≠ []) {c : Chunk} (hc : c ∈ emits i a) :
    c.text.length ≤ q.length + 1 := by
  cases a with
  | close b => cases ha
  | dropped p =>
    rw [emits_dropped] at hc
    cases hc
  | plain p =>
    obtain rfl : p = (i, q) := Option.some.inj ha
    rw [emits_plain h] at hc
    split at hc
    · cases hc
    · rw [List.mem_singleton.mp hc]
      simp
  | function k p =>
    obtain rfl : p = (i, q) := Option.some.inj ha
    match k with
    | 0 =>
      by_cases hbrace : '{' ∈ q
      · -- the header chunk has the brace and a line break, the rest of the line is behind it
        rw [emits_at h hbrace] at hc
        have hlen := congrArg List.length (eq_upTo_behind hbrace)
        simp only [List.length_append, List.length_cons] at hlen
        rcases List.mem_cons.mp hc with rfl | hc
        · simp only [List.length_append]
          have htwo : "\x7b\n".toList.length = 2 := rfl
          omega
        · split at hc
          · cases hc
          · have hret : (replaced "TST_RET".toList "ret".toList (upTo (behind q))).length
                ≤ (upTo (behind q)).length := length_replaced_le (by decide)
            have hup := length_upTo_le (behind q)
            have hone : "\n".toList.length = 1 := rfl
            rw [List.mem_singleton.mp hc, List.length_append]
            omega
      · rw [emits_before hq hbrace] at hc
        rw [List.mem_singleton.mp hc]
        simp
    | 1 =>
      rw [emits_between h hq] at hc
      have hret : (replaced "TST_RET".toList "ret".toList (upTo q)).length
          ≤ (upTo q).length := length_replaced_le (by decide)
      have hup := length_upTo_le q
      have hone : "\n".toList.length = 1 := rfl
      rw [List.mem_singleton.mp hc, List.length_append]
      omega
    | k + 2 =>
      rw [emits_behind] at hc
      cases hc

/-! ## The main result -/

/-- A list without empty members that is no longer than one of them has only this one. -/
theorem eq_singleton_of_flatten {qs : List Text} {q : Text} (hq : q ∈ qs) (hne : ∀ x ∈ qs, x ≠ [])
    (hlen : qs.flatten.length ≤ q.length) : qs = [q] := by
  obtain ⟨before, after, rfl⟩ := List.append_of_mem hq
  have hnil : ∀ l : List Text, (∀ x ∈ l, x ≠ []) → l.flatten.length = 0 → l = [] := by
    intro l hl hzero
    cases l with
    | nil => rfl
    | cons x l =>
      have hx := List.length_pos_iff.mpr (hl x List.mem_cons_self)
      rw [List.flatten_cons, List.length_append] at hzero
      omega
  simp only [List.flatten_append, List.flatten_cons, List.length_append] at hlen
  have hbefore := hnil before (fun x hx => hne x (List.mem_append_left _ hx)) (by omega)
  have hafter := hnil after (fun x hx => hne x (by simp [hx])) (by omega)
  rw [hbefore, hafter, List.nil_append]

theorem flatten_filter_ne_nil (l : List Text) : (l.filter (· ≠ [])).flatten = l.flatten := by
  induction l with
  | nil => rfl
  | cons x l ih =>
    by_cases hx : x = []
    · rw [List.filter_cons_of_neg (by simpa using hx), ih, hx]
      rfl
    · rw [List.filter_cons_of_pos (by simpa using hx), List.flatten_cons, List.flatten_cons, ih]

section Line

variable {file : Text} {i : Nat} {line q : Text} {a : Item}

theorem mem_items_of_line (ha : a ∈ itemsOf file) (hpart : a.part = some (i, q)) (hq : q ≠ []) :
    a ∈ (itemsOf file).filter (Holds i) :=
  List.mem_filter.mpr ⟨ha, holds_iff.mpr ⟨q, hq, hpart⟩⟩

theorem mem_parts_of_line (hline : (split "\n".toList file)[i]? = some line)
    (ha : a ∈ itemsOf file) (hpart : a.part = some (i, q)) (hq : q ≠ []) :
    q ∈ (split "static ".toList line).filter (· ≠ []) := by
  have h : (i, q) ∈ ((itemsOf file).filter (Holds i)).filterMap Item.part :=
    List.mem_filterMap.mpr ⟨a, mem_items_of_line ha hpart hq, hpart⟩
  rw [parts_of_line hline] at h
  obtain ⟨q', hq', heq⟩ := List.mem_map.mp h
  cases heq
  exact hq'

/-- An item whose part is as long as what is left of the line is the only one of the line, and
its part is what is left. -/
theorem items_of_line (hline : (split "\n".toList file)[i]? = some line)
    (ha : a ∈ itemsOf file) (hpart : a.part = some (i, q)) (hq : q ≠ [])
    (hlen : (removal line).length ≤ q.length) :
    (itemsOf file).filter (Holds i) = [a] ∧ q = removal line := by
  have hparts := parts_of_line hline
  have hmem := mem_items_of_line ha hpart hq
  have hflat := flatten_filter_ne_nil (split "static ".toList line)
  have hone := eq_singleton_of_flatten (mem_parts_of_line hline ha hpart hq)
    (fun x hx => by simpa using (List.mem_filter.mp hx).2) (by rw [hflat]; exact hlen)
  refine ⟨?_, ?_⟩
  · -- every item of the line stands for a part, and there is one part
    rw [hone, List.map_singleton] at hparts
    have hsome : ∀ b ∈ (itemsOf file).filter (Holds i), ∃ p, b.part = some p := by
      intro b hb
      obtain ⟨q', -, hq'⟩ := holds_iff.mp (List.mem_filter.mp hb).2
      exact ⟨(i, q'), hq'⟩
    generalize (itemsOf file).filter (Holds i) = l at hparts hmem hsome
    match l, hmem with
    | [b], hmem => rw [List.mem_singleton.mp hmem]
    | b :: b' :: l, _ =>
      obtain ⟨p, hp⟩ := hsome b (by simp)
      obtain ⟨p', hp'⟩ := hsome b' (by simp)
      rw [List.filterMap_cons_some hp, List.filterMap_cons_some hp'] at hparts
      cases hparts
  · rw [removal, ← hflat, hone]
    exact (List.append_nil q).symm

/-- The chunks of a line that is written as a whole come from one item, that keeps it. -/
theorem exists_keptIn (hprot : Protected file i line) (hrest : removal line ≠ [])
    (h : ((itemsOf file).filter (Holds i)).flatMap (emits i) = whole i (removal line)) :
    ∃ a ∈ itemsOf file, a.part = some (i, removal line) ∧ KeptIn a := by
  obtain ⟨hline, -, -, -, hfree⟩ := hprot
  rw [whole, if_neg hrest] at h
  obtain ⟨a, ha, hc⟩ := List.mem_flatMap.mp (h ▸ List.mem_singleton_self _)
  obtain ⟨ha, hholds⟩ := List.mem_filter.mp ha
  obtain ⟨q, hq, hpart⟩ := holds_iff.mp hholds
  have hinfix : q <:+: line := infix_of_mem_split (by decide)
    (List.mem_filter.mp (mem_parts_of_line hline ha hpart hq)).1
  -- a chunk is no longer than its part, so the part is all that is left of the line
  have hlen := length_of_mem_emits hpart (hfree.of_infix hinfix) hq hc
  have hone : "\n".toList.length = 1 := rfl
  rw [List.length_append] at hlen
  obtain ⟨honly, rfl⟩ := items_of_line hline ha hpart hq (by omega)
  rw [honly, List.flatMap_singleton] at h
  exact ⟨a, ha, hpart, (emits_iff hpart (hfree.of_infix hinfix) hq).mp h⟩

theorem flatMap_emits_of_keptIn (hprot : Protected file i line) (hrest : removal line ≠ [])
    (ha : a ∈ itemsOf file) (hpart : a.part = some (i, removal line)) (hkept : KeptIn a) :
    ((itemsOf file).filter (Holds i)).flatMap (emits i) = whole i (removal line) := by
  obtain ⟨hline, -, -, -, hfree⟩ := hprot
  have hinfix : removal line <:+: line := infix_of_mem_split (by decide)
    (List.mem_filter.mp (mem_parts_of_line hline ha hpart hrest)).1
  rw [(items_of_line hline ha hpart hrest le_rfl).1, List.flatMap_singleton, whole, if_neg hrest]
  exact (emits_iff hpart (hfree.of_infix hinfix) hrest).mpr hkept

theorem flatMap_emits_of_nothing_left (hprot : Protected file i line) (hrest : removal line = []) :
    ((itemsOf file).filter (Holds i)).flatMap (emits i) = whole i (removal line) := by
  obtain ⟨hline, -⟩ := hprot
  have hnone : (itemsOf file).filter (Holds i) = [] := by
    by_contra hne
    obtain ⟨a, l, hal⟩ := List.exists_cons_of_ne_nil hne
    have ha : a ∈ (itemsOf file).filter (Holds i) := hal ▸ List.mem_cons_self
    obtain ⟨ha, hholds⟩ := List.mem_filter.mp ha
    obtain ⟨q, hq, hpart⟩ := holds_iff.mp hholds
    exact hq (List.flatten_eq_nil_iff.mp hrest q
      (List.mem_filter.mp (mem_parts_of_line hline ha hpart hq)).1)
  rw [hnone, whole, if_pos hrest]
  rfl

end Line

/-- A store through a pointer has a star in the second column and is passed over. -/
def store : Text := "int get_func(void)\n\x7b\n\t*p = x;\n\treturn 1;\n\x7d\n".toList

end UnikraftSuite
