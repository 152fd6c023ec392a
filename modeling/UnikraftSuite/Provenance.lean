import UnikraftSuite.Segments
import Mathlib.Data.List.TakeWhile

/-!
# Which line of the text an output of the segment loop comes from

`convertFile` cuts the text at every `static ` and then cuts the segments into lines, so a
line of the text can reach it in several parts, each in a segment of its own. Here every part
keeps the number of its line (`segments`), every segment becomes a list of `Item`s, one for
each part and for what closes the segment, and every item emits `Chunk`s of output that say
which line they hold text of.

- **`convertText_eq`**: the output of `convertFile` is the concatenation of the chunks.
- `parts_items`: no part is lost on the way to the items, and their order is that of the text.
- **`emitted_pairwise`**: the chunks stand in the order of the lines they come from.
-/

namespace UnikraftSuite

open PyStr Substring Raise

/-! ## Parts of lines -/

/-- A part of a line: the number of the line, and its text between two cuts. -/
abbrev Part := Nat × Text

/-- The text of the parts of a segment. -/
def join (seg : List Part) : Text := "\n".toList.intercalate (seg.map Prod.snd)

/-- Two lists of segments, with the last of the first and the first of the second in one. -/
def glue (xs ys : List (List Part)) : List (List Part) :=
  xs.dropLast ++ (xs.getLastD [] ++ ys.headD []) :: ys.tail

/-- The segments of the lines from the `i`-th on. -/
def segments : Nat → List Text → List (List Part)
  | _, [] => []
  | i, line :: rest =>
    glue ((split "static ".toList line).map fun q => [(i, q)]) (segments (i + 1) rest)

theorem join_append {a b : List Part} (ha : a ≠ []) (hb : b ≠ []) :
    join (a ++ b) = join a ++ '\n' :: join b := by
  obtain ⟨y, ys, rfl⟩ := List.exists_cons_of_ne_nil hb
  induction a with
  | nil => exact absurd rfl ha
  | cons x xs ih =>
    cases xs with
    | nil => simp [join, List.intercalate]
    | cons x' xs =>
      have h := ih (List.cons_ne_nil _ _)
      simp only [join, List.intercalate, List.cons_append, List.map_cons,
        List.intersperse_cons_cons, List.flatten_cons, List.map_append] at h ⊢
      rw [h]
      simp

theorem join_cons {p : Part} {seg : List Part} (h : seg ≠ []) :
    join (p :: seg) = p.2 ++ '\n' :: join seg := by
  have hone : join [p] = p.2 := by simp [join]
  rw [← List.singleton_append, join_append (List.cons_ne_nil _ _) h, hone]

theorem flatten_glue (xs ys : List (List Part)) :
    (glue xs ys).flatten = xs.flatten ++ ys.flatten := by
  have hx : xs.dropLast.flatten ++ xs.getLastD [] = xs.flatten := by
    rcases List.eq_nil_or_concat xs with rfl | ⟨ys, y, rfl⟩
    · rfl
    · simp
  have hy : ys.headD [] ++ ys.tail.flatten = ys.flatten := by
    cases ys with
    | nil => rfl
    | cons y ys => rfl
  rw [glue, List.flatten_append, List.flatten_cons, List.append_assoc, hy, ← List.append_assoc, hx]

theorem mem_glue {xs ys : List (List Part)} {seg : List Part} (h : seg ∈ glue xs ys)
    (hxs : ∀ x ∈ xs, x ≠ []) (hne : xs ≠ []) (hys : ∀ y ∈ ys, y ≠ []) : seg ≠ [] := by
  rcases List.mem_append.mp h with h | h
  · exact hxs seg (List.mem_of_mem_dropLast h)
  · rcases List.mem_cons.mp h with rfl | h
    · obtain ⟨zs, z, rfl⟩ := (List.eq_nil_or_concat xs).resolve_left hne
      have hz := hxs z (by simp)
      simpa using fun h => absurd h hz
    · exact hys seg (List.mem_of_mem_tail h)

theorem segments_ne_nil {lines : List Text} : ∀ {i : Nat}, ∀ seg ∈ segments i lines, seg ≠ [] := by
  induction lines with
  | nil => exact fun seg h => absurd h List.not_mem_nil
  | cons line rest ih =>
    intro i seg h
    refine mem_glue h (fun x hx => ?_) (by simpa using split_ne_nil _ _) ih
    obtain ⟨q, -, rfl⟩ := List.mem_map.mp hx
    exact List.cons_ne_nil _ _

/-- **Every part is there**, in the order of the text. -/
theorem flatten_segments (lines : List Text) : ∀ i : Nat,
    (segments i lines).flatten
      = (lines.zipIdx i).flatMap fun line => (split "static ".toList line.1).map (line.2, ·) := by
  induction lines with
  | nil => exact fun i => rfl
  | cons line rest ih =>
    intro i
    rw [segments, flatten_glue, ih, List.zipIdx_cons, List.flatMap_cons]
    congr 1
    induction split "static ".toList line with
    | nil => rfl
    | cons q qs ih => rw [List.map_cons, List.flatten_cons, ih]; rfl

theorem map_join_glue {xs ys : List (List Part)} (hxs : ∀ x ∈ xs, x ≠ []) (hne : xs ≠ [])
    (hys : ∀ y ∈ ys, y ≠ []) (hne' : ys ≠ []) :
    (glue xs ys).map join
      = (xs.map join).dropLast
        ++ ((xs.map join).getLastD [] ++ '\n' :: (ys.map join).headD []) :: (ys.map join).tail := by
  obtain ⟨zs, z, rfl⟩ := (List.eq_nil_or_concat xs).resolve_left hne
  obtain ⟨y, ys, rfl⟩ := List.exists_cons_of_ne_nil hne'
  have hglue : glue (zs ++ [z]) (y :: ys) = zs ++ (z ++ y) :: ys := by simp [glue]
  rw [List.concat_eq_append] at hxs ⊢
  rw [hglue, List.map_append, List.map_cons,
    join_append (hxs z (by simp)) (hys y List.mem_cons_self)]
  simp

theorem glue_ne_nil (xs ys : List (List Part)) : glue xs ys ≠ [] := by
  simp [glue]

/-- The segments are the pieces of the text between the occurrences of `static `. -/
theorem map_join_segments {lines : List Text} (h : lines ≠ []) : ∀ i : Nat,
    (segments i lines).map join = split "static ".toList ("\n".toList.intercalate lines) := by
  induction lines with
  | nil => exact absurd rfl h
  | cons line rest ih =>
    intro i
    have hmap : ((split "static ".toList line).map fun q => [(i, q)]).map join
        = split "static ".toList line := by
      simp [join, Function.comp_def]
    cases rest with
    | nil =>
      have hglue : segments i [line] = (split "static ".toList line).map fun q => [(i, q)] := by
        obtain ⟨qs, q, hq⟩ := (List.eq_nil_or_concat _).resolve_left
          (split_ne_nil "static ".toList line)
        rw [segments, segments, hq]
        simp [glue]
      rw [hglue, hmap]
      simp
    | cons line' rest =>
      have hjoin : "\n".toList.intercalate (line :: line' :: rest)
          = line ++ '\n' :: "\n".toList.intercalate (line' :: rest) := by
        simp [List.intercalate]
      have hparts : ∀ seg ∈ (split "static ".toList line).map fun q => [(i, q)], seg ≠ [] := by
        simp
      have hsome : ((split "static ".toList line).map fun q => [(i, q)]) ≠ [] := by
        simpa using split_ne_nil _ line
      have hrest : segments (i + 1) (line' :: rest) ≠ [] := glue_ne_nil _ _
      -- the last part of a line and the first of the next one are one segment
      rw [hjoin, split_append_cons (by decide) (by decide), segments,
        map_join_glue hparts hsome segments_ne_nil hrest, hmap, ih (List.cons_ne_nil _ _)]

/-! ## Items and chunks -/

/-- A piece of the output, and the line it holds text of, if any. -/
structure Chunk where
  line : Option Nat
  text : Text
deriving DecidableEq

/-- What the segment loop treats in one go: a part of a line, or the end of a segment. A part
is in a segment with the test structure, in one that goes to `verfunc`, behind a number of
braces, or in any other. -/
inductive Item where
  | dropped (p : Part)
  | function (braces : Nat) (p : Part)
  | plain (p : Part)
  | close (complete : Bool)

/-- The parts of a segment that goes to `verfunc`. -/
def functionItems : Nat → List Part → List Item
  | k, [] => [.close (k ≠ 0)]
  | k, p :: ps => .function k p :: functionItems (k + p.2.count '{') ps

/-- The items of a segment. -/
def items (seg : List Part) : List Item :=
  if "struct tst_test test".toList <:+: join seg then seg.map .dropped
  else if "verify".toList <:+: (seg.map Prod.snd).headD [] then functionItems 0 seg
  else seg.map .plain ++ [.close true]

/-- The line a part is text of, if it is any text. -/
def tag (p : Part) : Option Nat := if p.2 = [] then none else some p.1

/-- The text before the first brace, and the one behind it. -/
def upTo (s : Text) : Text := s.takeWhile (· ≠ '{')
def behind (s : Text) : Text := (s.dropWhile (· ≠ '{')).tail

/-- What an item adds to the output. -/
def emit : Item → Except PyErr (List Chunk)
  | .dropped _ => pure []
  | .plain p => (convertLine p.2).map fun text => if text = [] then [] else [⟨some p.1, text⟩]
  | .function 0 p =>
    if '{' ∈ p.2 then do
      let line ← verfuncLine (upTo (behind p.2))
      return [⟨some p.1, upTo p.2 ++ "\x7b\n".toList⟩, ⟨none, "\tint ret;".toList⟩,
        ⟨tag (p.1, behind p.2), line ++ "\n".toList⟩]
    else pure [⟨tag p, p.2 ++ "\n".toList⟩]
  | .function 1 p => do
    let line ← verfuncLine (upTo p.2)
    return [⟨tag p, line ++ "\n".toList⟩]
  | .function _ _ => pure []
  | .close true => pure [⟨none, "\n".toList⟩]
  | .close false => .error .indexError

/-- The items of a text. -/
def itemsOf (file : Text) : List Item :=
  (segments 0 (split "\n".toList file)).flatMap items

/-- The chunks that the segment loop adds for a text. -/
def emitted (file : Text) : Except PyErr (List Chunk) :=
  ((itemsOf file).mapM emit).map List.flatten

/-- The text of chunks. -/
def textOf (chunks : List Chunk) : Text := chunks.flatMap Chunk.text

/-! ## The chunks make up the output -/

/-- The output of a list of items. -/
def run (l : List Item) : Except PyErr Text := (l.mapM emit).map fun css => textOf css.flatten

theorem run_nil : run [] = .ok [] := rfl

theorem run_cons (a : Item) (l : List Item) :
    run (a :: l) = do
      let chunks ← emit a
      let rest ← run l
      return textOf chunks ++ rest := by
  unfold run
  rw [List.mapM_cons]
  cases emit a with
  | error e => rfl
  | ok cs =>
    cases l.mapM emit with
    | error e => rfl
    | ok css => exact congrArg Except.ok (by simp [textOf])

theorem run_append (l l' : List Item) :
    run (l ++ l') = do
      let before ← run l
      let rest ← run l'
      return before ++ rest := by
  induction l with
  | nil =>
    rw [List.nil_append, run_nil]
    cases run l' with
    | error e => rfl
    | ok t => rfl
  | cons a l ih =>
    rw [List.cons_append, run_cons, run_cons, ih]
    cases emit a with
    | error e => rfl
    | ok cs =>
      cases run l with
      | error e => rfl
      | ok t =>
        cases run l' with
        | error e => rfl
        | ok t' => exact congrArg Except.ok (List.append_assoc _ _ _).symm

theorem run_dropped (seg : List Part) : run (seg.map .dropped) = .ok [] := by
  induction seg with
  | nil => rfl
  | cons p seg ih =>
    rw [List.map_cons, run_cons, ih]
    rfl

theorem run_plain (seg : List Part) :
    run (seg.map .plain) = ((seg.map Prod.snd).mapM convertLine).map List.flatten := by
  induction seg with
  | nil => rfl
  | cons p seg ih =>
    rw [List.map_cons, run_cons, ih, List.map_cons, List.mapM_cons, emit]
    cases convertLine p.2 with
    | error e => rfl
    | ok t =>
      cases (seg.map Prod.snd).mapM convertLine with
      | error e => rfl
      | ok ts =>
        refine congrArg Except.ok ?_
        by_cases ht : t = []
        · simp [textOf, ht]
        · simp [textOf, ht]

theorem upTo_append {u : Text} (hu : '{' ∉ u) (s : Text) : upTo (u ++ '{' :: s) = u := by
  have hall : ∀ c ∈ u, decide (c ≠ '{') = true := fun c hc =>
    decide_eq_true fun heq => hu (heq ▸ hc)
  rw [upTo, List.takeWhile_append_of_pos hall]
  simp

theorem behind_append {u : Text} (hu : '{' ∉ u) (s : Text) : behind (u ++ '{' :: s) = s := by
  have hall : ∀ c ∈ u, decide (c ≠ '{') = true := fun c hc =>
    decide_eq_true fun heq => hu (heq ▸ hc)
  rw [behind, List.dropWhile_append_of_pos hall]
  simp

theorem upTo_of_not_mem {s : Text} (h : '{' ∉ s) : upTo s = s :=
  List.takeWhile_eq_self_iff.mpr fun _ hc => decide_eq_true fun heq => h (heq ▸ hc)

theorem not_mem_upTo (s : Text) : '{' ∉ upTo s := fun h => by
  simpa using List.mem_takeWhile_imp h

/-- A text with a brace, cut at the first one. -/
theorem eq_upTo_behind {s : Text} (h : '{' ∈ s) : s = upTo s ++ '{' :: behind s := by
  obtain ⟨u, v, rfl, hu⟩ := List.eq_append_cons_of_mem h
  rw [upTo_append hu, behind_append hu]

theorem upTo_of_mem {v : Text} (h : '{' ∈ v) (s : Text) : upTo (v ++ s) = upTo v := by
  have hcut := upTo_append (not_mem_upTo v) (behind v ++ s)
  rw [← List.cons_append, ← List.append_assoc, ← eq_upTo_behind h] at hcut
  exact hcut

theorem upTo_line {v : Text} (h : '{' ∉ v) (s : Text) :
    upTo (v ++ '\n' :: s) = v ++ '\n' :: upTo s := by
  have hall : ∀ c ∈ v, decide (c ≠ '{') = true := fun c hc =>
    decide_eq_true fun heq => h (heq ▸ hc)
  rw [upTo, List.takeWhile_append_of_pos hall, List.takeWhile_cons_of_pos (by decide)]
  rfl

theorem headD_split_brace (s : Text) : (split "\x7b".toList s).headD [] = upTo s := by
  by_cases h : '{' ∈ s
  · have hcut := split_char_cut (not_mem_upTo s) (behind s)
    rw [← eq_upTo_behind h] at hcut
    show (split ['{'] s).headD [] = _
    rw [hcut]
    rfl
  · show (split ['{'] s).headD [] = _
    rw [split_char_of_not_mem h, upTo_of_not_mem h]
    rfl

/-- What `verfunc` makes of the text behind the first brace. -/
def bodyText (s : Text) : Except PyErr Text :=
  ((split "\n".toList (upTo s)).mapM verfuncLine).map (·.flatMap (· ++ "\n".toList))

theorem bodyText_last {v : Text} (hv : '\n' ∉ v) :
    bodyText v = (verfuncLine (upTo v)).map (· ++ "\n".toList) := by
  have hline : split "\n".toList (upTo v) = [upTo v] :=
    split_char_of_not_mem fun h => hv ((List.takeWhile_sublist _).subset h)
  rw [bodyText, hline, List.mapM_cons, List.mapM_nil]
  cases verfuncLine (upTo v) with
  | error e => rfl
  | ok line => exact congrArg Except.ok (List.append_nil _)

theorem bodyText_brace {v : Text} (hv : '\n' ∉ v) (hbrace : '{' ∈ v) (s : Text) :
    bodyText (v ++ '\n' :: s) = (verfuncLine (upTo v)).map (· ++ "\n".toList) := by
  rw [bodyText, upTo_of_mem hbrace, ← bodyText_last hv, bodyText]

theorem bodyText_line {v : Text} (hv : '\n' ∉ v) (hbrace : '{' ∉ v) (s : Text) :
    bodyText (v ++ '\n' :: s) = do
      let line ← verfuncLine v
      let rest ← bodyText s
      return line ++ "\n".toList ++ rest := by
  have hsplit : split "\n".toList (v ++ '\n' :: upTo s) = v :: split "\n".toList (upTo s) :=
    split_char_cut hv _
  rw [bodyText, upTo_line hbrace, hsplit, List.mapM_cons, bodyText]
  cases verfuncLine v with
  | error e => rfl
  | ok line =>
    cases (split "\n".toList (upTo s)).mapM verfuncLine with
    | error e => rfl
    | ok lines => rfl

theorem verfunc_cut {u : Text} (hu : '{' ∉ u) (s : Text) :
    verfunc (u ++ '{' :: s) = (bodyText s).map (u ++ "\x7b\n\tint ret;".toList ++ ·) := by
  have hcut : split "\x7b".toList (u ++ '{' :: s) = u :: split "\x7b".toList s :=
    split_char_cut hu s
  obtain ⟨b, bs, hb⟩ := List.exists_cons_of_ne_nil (split_ne_nil "\x7b".toList s)
  have hbody : b = upTo s := by rw [← headD_split_brace, hb]; rfl
  rw [verfunc, hcut, hb, hbody, bodyText]
  show (split "\n".toList (upTo s)).mapM verfuncLine >>= _ = _
  cases (split "\n".toList (upTo s)).mapM verfuncLine with
  | error e => rfl
  | ok lines => rfl

theorem verfunc_of_absent {s : Text} (h : '{' ∉ s) : verfunc s = .error .indexError := by
  have hone : split "\x7b".toList s = [s] := split_char_of_not_mem h
  rw [verfunc, hone]
  rfl

theorem verfunc_line {v : Text} (hbrace : '{' ∉ v) (s : Text) :
    verfunc (v ++ '\n' :: s) = (verfunc s).map (v ++ "\n".toList ++ ·) := by
  by_cases h : '{' ∈ s
  · have hv : '{' ∉ v ++ '\n' :: upTo s := by
      simpa [hbrace] using not_mem_upTo s
    rw [eq_upTo_behind h, verfunc_cut (not_mem_upTo s), ← List.cons_append, ← List.append_assoc,
      verfunc_cut hv]
    cases bodyText (behind s) with
    | error e => rfl
    | ok t => exact congrArg Except.ok (by simp)
  · rw [verfunc_of_absent h, verfunc_of_absent (by simpa [hbrace] using h)]
    rfl

/-- Behind the second brace nothing of the function is written. -/
theorem run_done (k : Nat) (seg : List Part) :
    run (functionItems (k + 2) seg) = .ok "\n".toList := by
  induction seg generalizing k with
  | nil => rfl
  | cons p seg ih =>
    have hk : k + 2 + p.2.count '{' = (k + p.2.count '{') + 2 := by omega
    rw [functionItems, run_cons, hk, ih]
    rfl

theorem textOf_line (l : Option Nat) (t : Text) : textOf [⟨l, t⟩] = t := List.append_nil t

/-- Between the first two braces, from the line behind the first on. -/
theorem run_body {seg : List Part} (hseg : seg ≠ []) (hlines : ∀ p ∈ seg, '\n' ∉ p.2) :
    run (functionItems 1 seg) = (bodyText (join seg)).map (· ++ "\n".toList) := by
  induction seg with
  | nil => exact absurd rfl hseg
  | cons p seg ih =>
    obtain ⟨hp, hlines⟩ := List.forall_mem_cons.mp hlines
    rw [functionItems, run_cons, emit]
    by_cases hbrace : '{' ∈ p.2
    · -- the second brace: what follows it is dropped
      obtain ⟨k, hk⟩ := Nat.exists_eq_add_of_lt (List.count_pos_iff.mpr hbrace)
      have hbody :
          bodyText (join (p :: seg)) = (verfuncLine (upTo p.2)).map (· ++ "\n".toList) := by
        rcases List.eq_nil_or_concat seg with rfl | ⟨_, _, rfl⟩
        · have hone : join [p] = p.2 := by simp [join]
          rw [hone, bodyText_last hp]
        · rw [join_cons (by simp), bodyText_brace hp hbrace]
      have hcount : 1 + p.2.count '{' = k + 2 := by omega
      rw [hbody, hcount, run_done]
      cases verfuncLine (upTo p.2) with
      | error e => rfl
      | ok line => exact congrArg Except.ok (congrArg (· ++ "\n".toList) (textOf_line _ _))
    · rw [List.count_eq_zero.mpr hbrace, upTo_of_not_mem hbrace]
      by_cases hrest : seg = []
      · subst hrest
        have hone : join [p] = p.2 := by simp [join]
        rw [hone, bodyText_last hp, upTo_of_not_mem hbrace]
        cases verfuncLine p.2 with
        | error e => rfl
        | ok line => exact congrArg Except.ok (congrArg (· ++ "\n".toList) (textOf_line _ _))
      · rw [join_cons hrest, bodyText_line hp hbrace, ih hrest hlines]
        cases verfuncLine p.2 with
        | error e => rfl
        | ok line =>
          cases bodyText (join seg) with
          | error e => rfl
          | ok rest => exact congrArg Except.ok (by simp [textOf])

/-- A segment that goes to `verfunc`, from its first line on. -/
theorem run_function {seg : List Part} (hseg : seg ≠ []) (hlines : ∀ p ∈ seg, '\n' ∉ p.2) :
    run (functionItems 0 seg) = (verfunc (join seg)).map (· ++ "\n".toList) := by
  induction seg with
  | nil => exact absurd rfl hseg
  | cons p seg ih =>
    obtain ⟨hp, hlines⟩ := List.forall_mem_cons.mp hlines
    by_cases hbrace : '{' ∈ p.2
    · -- from behind the first brace on it is the body of a function
      have hcut := eq_upTo_behind hbrace
      have hcount : p.2.count '{' = 1 + (behind p.2).count '{' := by
        have hzero : (upTo p.2).count '{' = 0 := List.count_eq_zero.mpr (not_mem_upTo _)
        conv_lhs => rw [hcut, List.count_append, List.count_cons_self, hzero]
        omega
      have hnew : '\n' ∉ behind p.2 := fun h => hp (hcut ▸ List.mem_append_right _
        (List.mem_cons_of_mem _ h))
      have hjoin : join (p :: seg) = upTo p.2 ++ '{' :: join ((p.1, behind p.2) :: seg) := by
        by_cases hrest : seg = []
        · subst hrest
          simpa [join] using hcut
        · rw [join_cons hrest, join_cons hrest, ← List.cons_append, ← List.append_assoc, ← hcut]
      have hrun : run (functionItems 0 (p :: seg))
          = (run (functionItems 1 ((p.1, behind p.2) :: seg))).map
              (upTo p.2 ++ "\x7b\n\tint ret;".toList ++ ·) := by
        rw [functionItems, run_cons, emit, if_pos hbrace, functionItems, run_cons, emit, ← hcount,
          Nat.zero_add]
        cases verfuncLine (upTo (behind p.2)) with
        | error e => rfl
        | ok line =>
          cases run (functionItems (p.2.count '{') seg) with
          | error e => rfl
          | ok rest => exact congrArg Except.ok (by simp [textOf])
      rw [hrun, run_body (List.cons_ne_nil _ _) (List.forall_mem_cons.mpr ⟨hnew, hlines⟩), hjoin,
        verfunc_cut (not_mem_upTo _)]
      cases bodyText (join ((p.1, behind p.2) :: seg)) with
      | error e => rfl
      | ok t => exact congrArg Except.ok (List.append_assoc _ _ _).symm
    · rw [functionItems, run_cons, emit, if_neg hbrace, List.count_eq_zero.mpr hbrace]
      by_cases hrest : seg = []
      · subst hrest
        have hone : join [p] = p.2 := by simp [join]
        rw [hone, verfunc_of_absent hbrace]
        rfl
      · rw [join_cons hrest, verfunc_line hbrace, ih hrest hlines]
        cases verfunc (join seg) with
        | error e => rfl
        | ok t => exact congrArg Except.ok (by simp [textOf])

/-- The items of a segment write what one turn of the segment loop does. -/
theorem run_items {seg : List Part} (hseg : seg ≠ []) (hlines : ∀ p ∈ seg, '\n' ∉ p.2) :
    run (items seg) = convertSegment (join seg) := by
  have hsplit : split "\n".toList (join seg) = seg.map Prod.snd :=
    split_char_intercalate (by simpa using hseg) fun x hx => by
      obtain ⟨p, hp, rfl⟩ := List.mem_map.mp hx
      exact hlines p hp
  unfold items convertSegment
  rw [hsplit]
  split
  · exact run_dropped seg
  · split
    · exact run_function hseg hlines
    · rw [run_append, run_plain]
      cases (seg.map Prod.snd).mapM convertLine with
      | error e => rfl
      | ok ts => rfl

theorem run_flatMap {segs : List (List Part)}
    (h : ∀ seg ∈ segs, run (items seg) = convertSegment (join seg)) :
    run (segs.flatMap items) = ((segs.map join).mapM convertSegment).map List.flatten := by
  induction segs with
  | nil => rfl
  | cons seg segs ih =>
    obtain ⟨hseg, h⟩ := List.forall_mem_cons.mp h
    rw [List.flatMap_cons, run_append, hseg, ih h, List.map_cons, List.mapM_cons]
    cases convertSegment (join seg) with
    | error e => rfl
    | ok t =>
      cases (segs.map join).mapM convertSegment with
      | error e => rfl
      | ok ts => rfl

/-- The parts of lines have no line break in them. -/
theorem not_mem_part {file : Text} {p : Part} {seg : List Part}
    (hseg : seg ∈ segments 0 (split "\n".toList file)) (hp : p ∈ seg) : '\n' ∉ p.2 := by
  have hmem : p ∈ (segments 0 (split "\n".toList file)).flatten :=
    List.mem_flatten.mpr ⟨seg, hseg, hp⟩
  rw [flatten_segments, List.mem_flatMap] at hmem
  obtain ⟨⟨line, i⟩, hline, hp⟩ := hmem
  obtain ⟨q, hq, rfl⟩ := List.mem_map.mp hp
  have hin : line ∈ split "\n".toList file := by
    have := List.mem_zipIdx hline
    exact this.2.2 ▸ List.getElem_mem _
  have hfree : ¬ "\n".toList <:+: line := not_infix_of_mem_split (by decide) hin
  exact fun h => hfree (((List.singleton_infix_iff _ _).mpr h).trans
    (infix_of_mem_split (by decide) hq))

/-- What `convertFile` puts around the output of the segment loop: the first line, and
an empty `main` for a text without one. -/
def frame (file body : Text) : Text :=
  let ret := "#include \"incl.h\"\n".toList ++ body
  if isMain (split "static ".toList file) then ret
  else ret ++ "void main()\x7b\n\tsetup();\n\tcleanup();\n\x7d\n".toList

/-- **The output is the concatenation of the chunks.** -/
theorem convertText_eq (file : Text) :
    convertText file = (emitted file).map fun chunks => frame file (textOf chunks) := by
  have hlines : "\n".toList.intercalate (split "\n".toList file) = file :=
    intercalate_split (by decide) file
  have hrun : run (itemsOf file)
      = ((split "static ".toList file).mapM convertSegment).map List.flatten := by
    conv_rhs => rw [← hlines, ← map_join_segments (split_ne_nil _ _) 0]
    exact run_flatMap fun seg hseg => run_items (segments_ne_nil seg hseg) fun p hp =>
      not_mem_part hseg hp
  have hconvert : convertText file = (run (itemsOf file)).map (frame file) := by
    rw [hrun]
    show (split "static ".toList file).mapM convertSegment >>= _ = _
    cases (split "static ".toList file).mapM convertSegment with
    | error e => rfl
    | ok els => rfl
  rw [hconvert, run, emitted]
  cases (itemsOf file).mapM emit with
  | error e => rfl
  | ok css => rfl

/-! ## Where the chunks come from -/

/-- The part an item stands for. -/
def Item.part : Item → Option Part
  | .dropped p | .function _ p | .plain p => some p
  | .close _ => none

theorem part_functionItems (k : Nat) (seg : List Part) :
    (functionItems k seg).filterMap Item.part = seg := by
  induction seg generalizing k with
  | nil => rfl
  | cons p seg ih => rw [functionItems, List.filterMap_cons, Item.part, ih]

theorem part_items (seg : List Part) : (items seg).filterMap Item.part = seg := by
  unfold items
  split
  · simp [List.filterMap_map, Function.comp_def, Item.part]
  · split
    · exact part_functionItems 0 seg
    · simp [List.filterMap_map, Function.comp_def, Item.part]

/-- **No part is lost** on the way to the items, and they stand in the order of the text. -/
theorem parts_items (file : Text) :
    (itemsOf file).filterMap Item.part
      = ((split "\n".toList file).zipIdx).flatMap fun line =>
          (split "static ".toList line.1).map (line.2, ·) := by
  rw [itemsOf, List.filterMap_flatMap, ← flatten_segments,
    List.flatMap_congr fun seg _ => part_items seg]
  simp

theorem tag_eq_some {p : Part} {i : Nat} : tag p = some i ↔ p.2 ≠ [] ∧ p.1 = i := by
  unfold tag
  split
  · rename_i h
    exact iff_of_false nofun fun hp => hp.1 h
  · rename_i h
    rw [Option.some.injEq, and_iff_right h]

/-- A chunk holds text of the line of its item, and only if there is any, or of none. -/
theorem line_of_emit {a : Item} {cs : List Chunk} (h : emit a = .ok cs) {c : Chunk}
    (hc : c ∈ cs) {i : Nat} (hi : c.line = some i) : ∃ q ≠ [], a.part = some (i, q) := by
  have htag : ∀ {p : Part}, tag p = some i → ∃ q ≠ [], some p = some (i, q) := by
    intro p hp
    obtain ⟨hne, rfl⟩ := tag_eq_some.mp hp
    exact ⟨p.2, hne, rfl⟩
  unfold emit at h
  split at h
  · cases h
    cases hc
  · -- a line of a plain segment
    rename_i p
    cases hline : convertLine p.2 with
    | error e => rw [hline] at h; cases h
    | ok t =>
      rw [hline] at h
      obtain rfl : (if t = [] then [] else [⟨some p.1, t⟩]) = cs := Except.ok.inj h
      split at hc
      · cases hc
      · rename_i ht
        have hne : p.2 ≠ [] := by
          rintro hp
          rw [convertLine, if_pos (.inr (.inl hp))] at hline
          exact ht (Except.ok.inj hline).symm
        rw [List.mem_singleton.mp hc] at hi
        exact ⟨p.2, hne, by rw [Item.part, ← Option.some.inj hi]⟩
  · -- up to the first brace of a function
    rename_i p
    split at h
    · rename_i hbrace
      obtain ⟨line, -, h⟩ := bind_eq_ok.mp h
      cases h
      have hne : p.2 ≠ [] := List.ne_nil_of_mem hbrace
      have hp : p.1 = i := by
        rcases List.mem_cons.mp hc with rfl | hc
        · exact Option.some.inj hi
        · rcases List.mem_cons.mp hc with rfl | hc
          · cases hi
          · rw [List.mem_singleton.mp hc] at hi
            exact (tag_eq_some.mp hi).2
      exact ⟨p.2, hne, by rw [Item.part, ← hp]⟩
    · cases h
      rw [List.mem_singleton.mp hc] at hi
      exact htag hi
  · -- behind it
    obtain ⟨line, -, h⟩ := bind_eq_ok.mp h
    cases h
    rw [List.mem_singleton.mp hc] at hi
    exact htag hi
  · cases h
    cases hc
  · cases h
    rw [List.mem_singleton.mp hc] at hi
    cases hi
  · cases h

/-- One chunk is before another only if its line is not below the other's. -/
def InOrder (c c' : Chunk) : Prop := ∀ i ∈ c.line, ∀ j ∈ c'.line, i ≤ j

theorem pairwise_parts (lines : List Text) (i : Nat) :
    ((lines.zipIdx i).flatMap fun line => (split "static ".toList line.1).map (line.2, ·)).Pairwise
      fun p p' => p.1 ≤ p'.1 := by
  have hidx : ((lines.zipIdx i).map Prod.snd).Pairwise (· < ·) := by
    rw [List.zipIdx_map_snd]
    exact List.pairwise_lt_range'
  rw [List.pairwise_flatMap]
  refine ⟨fun line _ => ?_, (List.pairwise_map.mp hidx).imp ?_⟩
  · rw [List.pairwise_map]
    exact List.pairwise_of_forall fun _ _ => le_rfl
  · intro line line' hlt p hp p' hp'
    obtain ⟨q, -, rfl⟩ := List.mem_map.mp hp
    obtain ⟨q', -, rfl⟩ := List.mem_map.mp hp'
    exact hlt.le

theorem emitted_eq_ok {file : Text} {out : List Chunk} :
    emitted file = .ok out ↔ ∃ css, (itemsOf file).mapM emit = .ok css ∧ css.flatten = out :=
  map_eq_ok

/-- **The output keeps the order of the text.** -/
theorem emitted_pairwise {file : Text} {out : List Chunk} (h : emitted file = .ok out) :
    out.Pairwise InOrder := by
  obtain ⟨css, hcss, rfl⟩ := emitted_eq_ok.mp h
  have hparts := pairwise_parts (split "\n".toList file) 0
  rw [← parts_items, List.pairwise_filterMap] at hparts
  have hemit := mapM_eq_ok_iff.mp hcss
  generalize itemsOf file = l at hparts hemit
  clear h hcss
  induction hemit with
  | nil => exact List.Pairwise.nil
  | @cons a cs l css ha hl ih =>
    obtain ⟨hal, hl'⟩ := List.pairwise_cons.mp hparts
    rw [List.flatten_cons, List.pairwise_append]
    refine ⟨?_, ih hl', ?_⟩
    · -- all of one item is text of one line
      refine List.pairwise_of_forall_mem_list fun c hc c' hc' i hi j hj => ?_
      obtain ⟨q, -, hq⟩ := line_of_emit ha hc hi
      obtain ⟨q', -, hq'⟩ := line_of_emit ha hc' hj
      rw [hq] at hq'
      cases hq'
      exact le_rfl
    · intro c hc c' hc' i hi j hj
      obtain ⟨cs', hcs', hc'⟩ := List.mem_flatten.mp hc'
      obtain ⟨b, hb, hbcs⟩ := (mem_mapM (mapM_eq_ok_iff.mpr hl)).mp hcs'
      obtain ⟨q, -, hq⟩ := line_of_emit ha hc hi
      obtain ⟨q', -, hq'⟩ := line_of_emit hbcs hc' hj
      exact hal b hb (i, q) hq (j, q') hq'

end UnikraftSuite
