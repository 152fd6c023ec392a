import UnikraftSuite.Reset

/-!
# `overlap.py`

`overlap.py` keeps the lines of `order1.txt` whose name, the text before the first `:`,
is one of the names of `order.txt`. It joins these names without a separator and asks
whether the name of the line occurs in the joined text.

- `overlap` is the text the script prints.
- `foldl_overlapLine` writes the loop as a filter.
- `exactOverlap_iff` gives the pairs of files for which no line is kept by accident,
  inside a longer name or across the boundary of two neighbours.
-/

namespace UnikraftSuite

open PyStr Substring

/-! ## The script -/

/-- `red[i].split(",")[0][3:]` for every line of `order.txt`. -/
def orderNames (order : Text) : List Text :=
  (split ['\n'] order).map fun line => ((split [','] line).headD []).drop 3

/-- `line.split(":")[0]`. -/
def lineName (line : Text) : Text := (split [':'] line).headD []

/-- One turn of `for line in red`. -/
def overlapLine (sysc : Text) (out line : Text) : Text :=
  if lineName line <:+: sysc then out ++ (line ++ ['\n']) else out

/-- What `overlap.py` prints; the last line break is `print`'s own. -/
def overlap (order order1 : Text) : Text :=
  (split ['\n'] order1).foldl (overlapLine (orderNames order).flatten) [] ++ ['\n']

/-! ## Lines kept and printed -/

/-- The given lines, each with its line break. -/
def unlines (ls : List Text) : Text := ls.flatMap (· ++ ['\n'])

theorem unlines_cons (l : Text) (ls : List Text) : unlines (l :: ls) = l ++ '\n' :: unlines ls := by
  simp [unlines]

/-- Lines without line breaks can be read back. -/
theorem unlines_inj : ∀ {ls ls' : List Text}, (∀ l ∈ ls, '\n' ∉ l) → (∀ l ∈ ls', '\n' ∉ l) →
    unlines ls = unlines ls' → ls = ls'
  | [], [], _, _, _ => rfl
  | [], l' :: ls', _, _, h => by
    rw [unlines_cons] at h
    exact absurd h.symm (by simp [unlines])
  | l :: ls, [], _, _, h => by
    rw [unlines_cons] at h
    exact absurd h (by simp [unlines])
  | l :: ls, l' :: ls', hl, hl', h => by
    rw [unlines_cons, unlines_cons] at h
    -- both texts are cut at their first line break
    obtain ⟨rfl, hrest⟩ := append_cons_inj_first (hl l List.mem_cons_self)
      (hl' l' List.mem_cons_self) h
    rw [unlines_inj (fun x hx => hl x (List.mem_cons_of_mem _ hx))
      (fun x hx => hl' x (List.mem_cons_of_mem _ hx)) hrest]

/-- The loop appends the lines it keeps, in their order. -/
theorem foldl_overlapLine (sysc : Text) : ∀ (ls : List Text) (out : Text),
    ls.foldl (overlapLine sysc) out
      = out ++ unlines (ls.filter fun l => decide (lineName l <:+: sysc))
  | [], out => by simp [unlines]
  | l :: ls, out => by
    rw [List.foldl_cons, foldl_overlapLine sysc ls, overlapLine]
    by_cases h : lineName l <:+: sysc
    · rw [if_pos h, List.filter_cons_of_pos (by simpa using h), unlines_cons]
      simp
    · rw [if_neg h, List.filter_cons_of_neg (by simpa using h)]

/-! ## The filter -/

/-- The output is the sequence of the lines of `order1.txt` whose name is one of
`order.txt`'s. -/
def ExactOverlap (order order1 : Text) : Prop :=
  overlap order order1
    = unlines ((split ['\n'] order1).filter fun l => decide (lineName l ∈ orderNames order))
      ++ ['\n']

/-- No line of `order1.txt` has a name that occurs in the joined names only inside a name
or across the boundary of neighbours. -/
def NoAccidentalMatch (order order1 : Text) : Prop :=
  ∀ line ∈ split ['\n'] order1,
    lineName line <:+: (orderNames order).flatten → lineName line ∈ orderNames order

/-- **The filter is exact** if and only if no name matches by accident. -/
theorem exactOverlap_iff (order order1 : Text) :
    ExactOverlap order order1 ↔ NoAccidentalMatch order order1 := by
  have hfree : ∀ p : Text → Bool, ∀ l ∈ (split ['\n'] order1).filter p, '\n' ∉ l := by
    intro p l hl hmem
    refine not_infix_of_mem_split (by simp) (List.mem_filter.mp hl).1 ?_
    exact (List.singleton_infix_iff _ _).mpr hmem
  unfold ExactOverlap overlap NoAccidentalMatch
  rw [foldl_overlapLine, List.nil_append, List.append_cancel_right_eq]
  constructor
  · intro h line hline hocc
    have heq := filter_eq_filter_iff.mp (unlines_inj (hfree _) (hfree _) h) line hline
    simpa [hocc] using heq
  · intro h
    congr 1
    refine filter_eq_filter_iff.mpr fun line hline => ?_
    have hiff : lineName line <:+: (orderNames order).flatten ↔ lineName line ∈ orderNames order :=
      ⟨h line hline, List.infix_of_mem_flatten⟩
    simp only [hiff]

/-- `cma` is not a system call of `order.txt`, but it occurs inside `rt_sigprocmask`; its
line is printed. -/
theorem not_exactOverlap_cma :
    ¬ ExactOverlap "\t- rt_sigprocmask, used by 66.36% of the apps".toList "cma: 4".toList := by
  unfold ExactOverlap
  decide

end UnikraftSuite
