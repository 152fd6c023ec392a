import UnikraftSuite.Lib.CLex

/-!
# The functions a C text defines

The `code` of a text is what is neither in comments nor in literals nor in preprocessor
directives, with blanks for the rest. In it a function is defined where its head, a name with
a parameter list, stands before an opening brace that is in no other braces; of the old style,
the declarations of the parameters are in between. `scan` reads a text with the number of open
braces and what stands before the next one; `bodies` cuts it behind its outer braces, and
`declares` looks for the declaration of a variable.
Directives are not carried out: what stands between `#if` and `#endif` is code.

- `codeFrom_append_line`: a text that is cut behind a line break.
- `Scan.names_of_no_brace`, `Scan.names_of_function`: the names a part of a text adds.
-/

namespace CFunctions

open CLex

/-! ## Code -/

/-- Where on a line the machine is: before its first character, behind it, in a directive, or
behind a backslash in a directive. -/
inductive Place where
  | fresh
  | rest
  | directive
  | continued
deriving DecidableEq

/-- White space. -/
def isBlank (c : Char) : Bool := c.isWhitespace

/-- The characters of names. -/
def isWord (c : Char) : Bool := c.isAlphanum || c == '_'

/-- The place behind a character of the kind. -/
def Place.next (p : Place) (kind : Kind) (c : Char) : Place :=
  if kind = .code ∧ c = '\n' then (if p = .continued then .directive else .fresh)
  else if p = .directive ∨ p = .continued then
    (if kind = .code ∧ c = '\\' then .continued else .directive)
  else if p = .rest ∨ kind = .comment ∨ kind = .code ∧ isBlank c then p
  else if kind = .code ∧ c = '#' then .directive
  else .rest

/-- Mode and place. -/
abbrev State := Mode × Place

/-- The state behind the character `c`, given the character after it. -/
def State.next (s : State) (c : Char) (after : Option Char) : State :=
  ((step s.1 c after).2, s.2.next (step s.1 c after).1 c)

/-- The character itself if it is code, else a blank; line breaks stay. -/
def shown (s : State) (c : Char) (after : Option Char) : Char :=
  if c = '\n' ∨ (step s.1 c after).1 = .code ∧ (s.next c after).2 ≠ .directive ∧
      (s.next c after).2 ≠ .continued then c
  else ' '

/-- The code of a text that is entered in a state. -/
def codeFrom : State → List Char → List Char
  | _, [] => []
  | s, c :: t => shown s c t.head? :: codeFrom (s.next c t.head?) t

/-- The state behind the text. -/
def stateAfter : State → List Char → State
  | s, [] => s
  | s, c :: t => stateAfter (s.next c t.head?) t

/-- At the beginning of a text. -/
def State.start : State := (.code, .fresh)

/-- The code of a text. -/
def code (t : List Char) : List Char := codeFrom .start t

/-- A text is the same before any character that does not end a comment marker. -/
theorem next_of_ne {d : Char} (hslash : d ≠ '/') (hstar : d ≠ '*') (s : State) (c : Char) :
    s.next c (some d) = s.next c none ∧ shown s c (some d) = shown s c none := by
  have hstep : step s.1 c (some d) = step s.1 c none := by
    obtain ⟨m, p⟩ := s
    cases m with
    | code => simp [step, hslash, hstar]
    | str | strEsc | chr | chrEsc | line | opening | block | star => rfl
  have hnext : s.next c (some d) = s.next c none := by rw [State.next, State.next, hstep]
  exact ⟨hnext, by rw [shown, shown, hstep, hnext]⟩

/-- Behind such a character nothing depends on what was before it but the state. -/
theorem codeFrom_append_cons {d : Char} (hslash : d ≠ '/') (hstar : d ≠ '*') (s : State)
    (a b : List Char) :
    codeFrom s (a ++ d :: b) = codeFrom s a ++ codeFrom (stateAfter s a) (d :: b) ∧
      stateAfter s (a ++ d :: b) = stateAfter (stateAfter s a) (d :: b) := by
  induction a generalizing s with
  | nil => exact ⟨rfl, rfl⟩
  | cons c a ih =>
    have hhead : s.next c (a ++ d :: b).head? = s.next c a.head? ∧
        shown s c (a ++ d :: b).head? = shown s c a.head? := by
      cases a with
      | nil => exact next_of_ne hslash hstar s c
      | cons _ _ => exact ⟨rfl, rfl⟩
    obtain ⟨hcode, hstate⟩ := ih (s.next c a.head?)
    rw [List.cons_append, codeFrom, stateAfter, codeFrom, stateAfter, hhead.1, hhead.2, hcode,
      hstate]
    exact ⟨rfl, rfl⟩

/-- A character that begins no comment marker is the same whatever comes after it. -/
theorem next_of_ne_slash {c : Char} (hc : c ≠ '/') (s : State) (after after' : Option Char) :
    s.next c after = s.next c after' ∧ shown s c after = shown s c after' := by
  have hstep : step s.1 c after = step s.1 c after' := by
    obtain ⟨m, p⟩ := s
    cases m with
    | code => simp [step, hc]
    | str | strEsc | chr | chrEsc | line | opening | block | star => rfl
  have hnext : s.next c after = s.next c after' := by rw [State.next, State.next, hstep]
  exact ⟨hnext, by rw [shown, shown, hstep, hnext]⟩

/-- Nothing depends on what comes after a text that begins no comment marker. -/
theorem codeFrom_append {w : List Char} (hw : '/' ∉ w) (s : State) (b : List Char) :
    codeFrom s (w ++ b) = codeFrom s w ++ codeFrom (stateAfter s w) b ∧
      stateAfter s (w ++ b) = stateAfter (stateAfter s w) b := by
  induction w generalizing s with
  | nil => exact ⟨rfl, rfl⟩
  | cons c w ih =>
    rw [List.mem_cons, not_or] at hw
    obtain ⟨hnext, hshown⟩ := next_of_ne_slash (Ne.symm hw.1) s (w ++ b).head? w.head?
    obtain ⟨hcode, hstate⟩ := ih hw.2 (s.next c w.head?)
    rw [List.cons_append, codeFrom, codeFrom, stateAfter, stateAfter, hnext, hshown, hcode, hstate]
    exact ⟨rfl, rfl⟩

/-- Behind a line break nothing depends on what was before but the state. -/
theorem codeFrom_append_line (s : State) (a b : List Char) :
    codeFrom s (a ++ ['\n'] ++ b)
        = codeFrom s (a ++ ['\n']) ++ codeFrom (stateAfter s (a ++ ['\n'])) b ∧
      stateAfter s (a ++ ['\n'] ++ b) = stateAfter (stateAfter s (a ++ ['\n'])) b := by
  have hbreak := codeFrom_append_cons (d := '\n') (by decide) (by decide) s a
  have hline : ∀ b, codeFrom (stateAfter s a) ('\n' :: b)
        = shown (stateAfter s a) '\n' none :: codeFrom ((stateAfter s a).next '\n' none) b ∧
      stateAfter (stateAfter s a) ('\n' :: b) = stateAfter ((stateAfter s a).next '\n' none) b := by
    intro b
    obtain ⟨hnext, hshown⟩ :=
      next_of_ne_slash (by decide : '\n' ≠ '/') (stateAfter s a) b.head? none
    rw [codeFrom, stateAfter, hnext, hshown]
    exact ⟨rfl, rfl⟩
  rw [List.append_assoc, List.singleton_append, (hbreak b).1, (hbreak b).2, (hbreak []).1,
    (hbreak []).2, (hline b).1, (hline b).2, (hline []).1, (hline []).2, List.append_assoc]
  exact ⟨rfl, rfl⟩

/-- A text of lines behind which everything is as at the beginning. -/
def Lines (t : List Char) : Prop :=
  (t = [] ∨ ∃ a, t = a ++ ['\n']) ∧ stateAfter .start t = .start

theorem Lines.append {a : List Char} (h : Lines a) (b : List Char) :
    code (a ++ b) = code a ++ code b ∧ stateAfter .start (a ++ b) = stateAfter .start b := by
  obtain ⟨rfl | ⟨a, rfl⟩, hstate⟩ := h
  · exact ⟨rfl, rfl⟩
  · obtain ⟨hcode, hafter⟩ := codeFrom_append_line .start a b
    rw [hstate] at hcode hafter
    exact ⟨hcode, hafter⟩

theorem lines_nil : Lines [] := ⟨.inl rfl, rfl⟩

theorem Lines.append_lines {a b : List Char} (ha : Lines a) (hb : Lines b) : Lines (a ++ b) := by
  refine ⟨?_, (ha.append b).2.trans hb.2⟩
  rcases hb.1 with rfl | ⟨b, rfl⟩
  · rw [List.append_nil]
    exact ha.1
  · exact .inr ⟨a ++ b, by rw [List.append_assoc]⟩

/-! ## Heads -/

/-- What is before the parenthesis that opens a list, in a text that is read backwards from
inside of the list. -/
def beforeOpening : Nat → List Char → Option (List Char)
  | _, [] => none
  | d, c :: s =>
    if c = ')' then beforeOpening (d + 1) s
    else if c = '(' then (if d = 0 then some s else beforeOpening (d - 1) s)
    else beforeOpening d s

/-- What is inside of the last list that a name follows, read backwards: the list of names in
a head of the old style, behind which the declarations begin. -/
def insideNames : Bool → List Char → Option (List Char)
  | _, [] => none
  | word, c :: s =>
    if c = ')' ∧ word then some s else insideNames (if isBlank c then word else isWord c) s

/-- What is before the parameter list in the head that ends a text, read backwards. -/
def beforeList (before : List Char) : Option (List Char) :=
  match before.dropWhile isBlank with
  | ')' :: s => beforeOpening 0 s
  | ';' :: s => (insideNames false s).bind (beforeOpening 0)
  | _ => none

/-- From its name on, a declarator that is read backwards; the name may be in parentheses, also
with a parameter list of its own. -/
def fromName (s : List Char) : List Char :=
  match s.dropWhile isBlank with
  | ')' :: s =>
    match s.dropWhile isBlank with
    | ')' :: s => ((beforeOpening 0 s).getD []).dropWhile isBlank
    | s => s
  | s => s

/-- The head that ends a text, read backwards: its name, and what is before the name. -/
def head (before : List Char) : Option (List Char × List Char) :=
  ((beforeList before).map fun s =>
    (((fromName s).takeWhile isWord).reverse, (fromName s).dropWhile isWord)).filter
      fun h => h.1 ≠ []

/-- The name in the head that ends a text, which is read backwards. -/
def headName (before : List Char) : Option (List Char) := (head before).map Prod.fst

/-- The declaration that ends a text: its head, and what is before its name up to the end of
the declaration before. -/
def declaration (before : List Char) : List Char :=
  let rest := match head before.reverse with
    | some h => h.2
    | none => before.reverse
  (before.drop (rest.dropWhile (· ≠ ';')).length).dropWhile isBlank

/-! ## Bodies -/

/-- The number of braces every character is in; a brace is in itself. -/
def depths : Nat → List Char → List Nat
  | _, [] => []
  | d, c :: t =>
    if c = '{' then (d + 1) :: depths (d + 1) t
    else if c = '}' then d :: depths (d - 1) t
    else d :: depths d t

/-- What is outside of braces, and the body behind it, one by one. -/
def cutBodies : List (Char × Nat) → List (List Char × List Char)
  | [] => []
  | (c, 0) :: t =>
    match cutBodies t with
    | (before, body) :: rest => (c :: before, body) :: rest
    | [] => [([c], [])]
  | (c, _ + 1) :: t =>
    match cutBodies t with
    | ([], body) :: rest => ([], c :: body) :: rest
    | rest => ([], [c]) :: rest

/-- The text cut behind the braces that are in no other braces. -/
def bodies (t : List Char) : List (List Char × List Char) :=
  cutBodies ((code t).zip (depths 0 (code t)))

/-! ## Variables -/

/-- The text without the initialisers in braces, which stand behind an equality sign. -/
def dropInitialisers : Bool → Nat → List Char → List Char
  | _, _, [] => []
  | _, d + 1, c :: t =>
    if c = '{' then dropInitialisers false (d + 2) t
    else if c = '}' then dropInitialisers false d t
    else dropInitialisers false (d + 1) t
  | sign, 0, c :: t =>
    if c = '{' ∧ sign then dropInitialisers false 1 t
    else c :: dropInitialisers (c == '=' || sign && isBlank c) 0 t

/-- What is outside of parentheses; the last one of a list stays. -/
def outside : Nat → List Char → List Char
  | _, [] => []
  | d, c :: t =>
    if c = '(' then outside (d + 1) t
    else if c = ')' ∧ d ≤ 1 then c :: outside 0 t
    else if c = ')' then outside (d - 1) t
    else if d = 0 then c :: outside 0 t
    else outside d t

/-- The names and key words of a text. -/
def words (t : List Char) : List (List Char) := (t.splitOnP (!isWord ·)).filter (· ≠ [])

/-- The words that begin a statement which declares nothing. -/
def statementWords : List (List Char) :=
  ["return", "goto", "else", "do", "if", "for", "while", "switch", "case", "sizeof"].map
    String.toList

/-- The statement begins with the words of a type, and the name is that of a declarator. -/
def statementDeclares (name statement : List Char) : Bool :=
  match (statement.splitOnP (· == ',')).map (List.takeWhile fun c => c ≠ '=' ∧ c ≠ '[') with
  | [] => false
  | first :: more =>
    first.all (fun c => isWord c || isBlank c || c == '*') && 2 ≤ (words first).length &&
      !statementWords.any (· == (words first).headD []) &&
      (first :: more).any fun declarator => (words declarator).getLast? == some name

/-- **A variable of the name is declared** in the text, also as a parameter. -/
def declares (name t : List Char) : Bool :=
  let statements :=
    (dropInitialisers false 0 (code t)).splitOnP
      fun c => c == ';' || c == '{' || c == '}' || c == ':'
  statements.any fun s => statementDeclares name (outside 0 s) ||
    (s.splitOnP fun c => c == '(' || c == ')').any (statementDeclares name)

/-! ## Scanning -/

/-- The open braces, the text before the next one (backwards), and the names so far. -/
structure Scan where
  depth : Nat
  before : List Char
  names : List (List Char)

/-- One character of code. White space behind a body belongs to nothing. -/
def Scan.step (s : Scan) (c : Char) : Scan :=
  match s.depth with
  | 0 =>
    if c = '{' then ⟨1, [], s.names ++ (headName s.before).toList⟩
    else if isBlank c ∧ s.before = [] then s
    else ⟨0, c :: s.before, s.names⟩
  | d + 1 =>
    if c = '{' then ⟨d + 2, [], s.names⟩ else if c = '}' then ⟨d, [], s.names⟩ else s

/-- What has been scanned behind a text. -/
def scan (t : List Char) : Scan := (code t).foldl Scan.step ⟨0, [], []⟩

/-- **The names of the functions a text defines**, in order. -/
def definedNames (t : List Char) : List (List Char) := (scan t).names

/-- White space at the beginning is not scanned. -/
theorem Scan.foldl_blank {w : List Char} (h : ∀ c ∈ w, isBlank c) (names : List (List Char)) :
    w.foldl Scan.step ⟨0, [], names⟩ = ⟨0, [], names⟩ := by
  induction w with
  | nil => rfl
  | cons c w ih =>
    obtain ⟨hblank, h⟩ := List.forall_mem_cons.mp h
    have hc : c ≠ '{' := by
      rintro rfl
      exact absurd hblank (by decide)
    have hstep : Scan.step ⟨0, [], names⟩ c = ⟨0, [], names⟩ :=
      (if_neg hc).trans (if_pos ⟨hblank, rfl⟩)
    rw [List.foldl_cons, hstep, ih h]

/-- Once a declaration has begun, a text without braces is a part of it. -/
theorem Scan.foldl_outer {w : List Char} (h : '{' ∉ w) {before : List Char} (hne : before ≠ [])
    (names : List (List Char)) :
    w.foldl Scan.step ⟨0, before, names⟩ = ⟨0, w.reverse ++ before, names⟩ := by
  induction w generalizing before with
  | nil => rfl
  | cons c w ih =>
    rw [List.mem_cons, not_or] at h
    have hstep : Scan.step ⟨0, before, names⟩ c = ⟨0, c :: before, names⟩ :=
      (if_neg fun heq => h.1 heq.symm).trans (if_neg fun hnil => hne hnil.2)
    rw [List.foldl_cons, hstep, ih h.2 (List.cons_ne_nil _ _), List.reverse_cons, List.append_assoc]
    rfl

/-- A text without opening braces defines nothing. -/
theorem Scan.names_of_no_brace {t : List Char} (h : '{' ∉ t) (s : Scan) :
    (t.foldl Scan.step s).names = s.names := by
  induction t generalizing s with
  | nil => rfl
  | cons c t ih =>
    rw [List.mem_cons, not_or] at h
    rw [List.foldl_cons, ih h.2]
    have hc : c ≠ '{' := fun heq => h.1 heq.symm
    unfold Scan.step
    split
    · rw [if_neg hc]
      split <;> rfl
    · rw [if_neg hc]
      split <;> rfl

/-- Inside of braces nothing is defined until they are closed. -/
theorem Scan.names_of_no_close {t : List Char} (h : '}' ∉ t) {s : Scan} (hs : s.depth ≠ 0) :
    (t.foldl Scan.step s).names = s.names := by
  induction t generalizing s with
  | nil => rfl
  | cons c t ih =>
    rw [List.mem_cons, not_or] at h
    have hc : c ≠ '}' := fun heq => h.1 heq.symm
    obtain ⟨_ | d, before, names⟩ := s
    · exact absurd rfl hs
    · have hstep : (Scan.step ⟨d + 1, before, names⟩ c).depth ≠ 0 ∧
          (Scan.step ⟨d + 1, before, names⟩ c).names = names := by
        show (if c = '{' then _ else if c = '}' then _ else _ : Scan).depth ≠ 0 ∧
          (if c = '{' then _ else if c = '}' then _ else _ : Scan).names = names
        rw [if_neg hc]
        split
        · exact ⟨Nat.succ_ne_zero _, rfl⟩
        · exact ⟨Nat.succ_ne_zero _, rfl⟩
      rw [List.foldl_cons, ih h.2 hstep.1, hstep.2]

/-- Inside of braces a text without braces does not matter. -/
theorem Scan.foldl_inner {w : List Char} (ho : '{' ∉ w) (hc : '}' ∉ w) {s : Scan}
    (hs : s.depth ≠ 0) : w.foldl Scan.step s = s := by
  induction w with
  | nil => rfl
  | cons c w ih =>
    rw [List.mem_cons, not_or] at ho hc
    obtain ⟨_ | d, before, names⟩ := s
    · exact absurd rfl hs
    · have hstep : Scan.step ⟨d + 1, before, names⟩ c = ⟨d + 1, before, names⟩ := by
        show (if c = '{' then _ else if c = '}' then _ else _) = _
        rw [if_neg fun heq => ho.1 heq.symm, if_neg fun heq => hc.1 heq.symm]
      rw [List.foldl_cons, hstep, ih ho.2 hc.2]

/-- Behind an opening brace one is inside of it. -/
theorem Scan.depth_step_brace (s : Scan) : (s.step '{').depth ≠ 0 := by
  obtain ⟨_ | d, before, names⟩ := s
  · exact Nat.one_ne_zero
  · exact Nat.succ_ne_zero _

example :
    declares "ret".toList "\x7bint a[] = \x7b 1, 2 \x7d, *ret = f(a); \x7d".toList = true ∧
      ¬ declares "ret".toList "void f(int a) \x7b if (a) ret = g(a); \x7d".toList := by
  decide +kernel

example : definedNames
    ("int a[] = \x7b 1 \x7d;\n#define f(x) \x7b x\n".toList
      ++ "int (main)(n, g) int n; int (*g)();\n\x7b\n\x7d".toList) = ["main".toList] := by
  decide +kernel

end CFunctions
