import UnikraftSuite.Pipeline
import Mathlib.Data.List.Nodup

/-!
# Which test a log file belongs to

`runTest` appends to one text: a test's name and compiler output when the compiler has
run, and its own output with a `DIVIDER` only when the run fails. `runtest` cuts that text
at every `DIVIDER` and takes the first line of a piece for the name of the test.

- `visitAll_logs` is the text a whole run appends: the records of its tests.
- `logFile_eq_some_iff` says which pieces become files.
- `piece_starts` is the invariant of the text: a piece begins with the name of a test that
  comes first or right after a failing one (`opens`), or it contains what the compiler
  printed for a passing test.

A test that passes or does not compile leaves its piece open for the next test, so
`attributed_iff` finds the files attributed correctly exactly when every test but the last
one fails at run time.
-/

namespace UnikraftSuite

open PyStr

variable {β : Type}

/-! ## What a test leaves in the log -/

/-- How a test ends. -/
inductive Outcome where
  | notCompiled
  | failed
  | passed
deriving DecidableEq

/-- The test's compiler output. -/
def Entry.comp (t : Entry β) : Text := t.gcc.stdout.getD []

/-- The output of the test's own binary. -/
def Entry.out (t : Entry β) : Text := (t.gcc.binary.bind t.exec).getD []

/-- What becomes of a test on its own. -/
def Entry.outcome (t : Entry β) : Outcome :=
  if t.gcc.binary.isNone then .notCompiled
  else if "test succeeded".toList <:+: t.out then .passed
  else .failed

/-- The outputs of the test decode and do not contain the divider. -/
structure Entry.Plain (t : Entry β) : Prop where
  comp_decodes : t.gcc.stdout.isSome
  out_decodes : ∀ a, t.gcc.binary = some a → (t.exec a).isSome
  comp_free : ¬ "DIVIDER".toList <:+: t.comp
  out_free : ¬ "DIVIDER".toList <:+: t.out

/-- The text `runTest` appends to the log. -/
def Entry.record (t : Entry β) : Text :=
  if t.outcome = .failed then compEntry t.name t.comp ++ failEntry t.out
  else compEntry t.name t.comp

/-- From a clean folder `runTest` appends the record of the test and leaves the folder
clean. -/
theorem runTest_logs {t : Entry β} (ht : t.Plain) {w : World β} (hw : w.aout = none) :
    (runTest t w).2.logs = w.logs ++ t.record ∧ (runTest t w).2.aout = none := by
  obtain ⟨cont, hs⟩ := Option.isSome_iff_exists.mp ht.comp_decodes
  have hcomp : t.comp = cont := by rw [Entry.comp, hs, Option.getD_some]
  cases hb : t.gcc.binary with
  | none =>
    have ho : t.outcome = .notCompiled := by rw [Entry.outcome, hb]; rfl
    -- no executable from this test, and none left from an earlier one
    have ha : t.gcc.aout w.aout = none := by rw [hw, Gcc.aout_none, hb]
    rw [runTest_notCompiled hs ha, Entry.record, ho, if_neg (by decide), hcomp]
    exact ⟨rfl, ha⟩
  | some a =>
    obtain ⟨out, hl⟩ := Option.isSome_iff_exists.mp (ht.out_decodes a hb)
    have hout : t.out = out := by rw [Entry.out, hb, Option.bind_some, hl, Option.getD_some]
    have ha := Gcc.aout_of_binary hb w.aout
    by_cases hp : "test succeeded".toList <:+: out
    · have ho : t.outcome = .passed := by
        rw [Entry.outcome, hb, hout, if_pos hp]
        rfl
      rw [runTest_passed hs ha hl hp, Entry.record, ho, if_neg (by decide), hcomp]
      exact ⟨rfl, rfl⟩
    · have ho : t.outcome = .failed := by
        rw [Entry.outcome, hb, hout, if_neg hp]
        rfl
      rw [runTest_failed hs ha hl hp, Entry.record, if_pos ho, hcomp, hout]
      exact ⟨List.append_assoc _ _ _, rfl⟩

/-- The text a sequence of tests leaves. -/
def logText (ts : List (Entry β)) : Text := ts.flatMap Entry.record

theorem runTests_logs : ∀ {ts : List (Entry β)}, (∀ t ∈ ts, t.Plain) → ∀ {w : World β},
    w.aout = none →
    (runTests ts w).2.logs = w.logs ++ logText ts ∧ (runTests ts w).2.aout = none
  | [], _, _, hw => ⟨(List.append_nil _).symm, hw⟩
  | t :: ts, h, w, hw => by
    obtain ⟨ht, hts⟩ := List.forall_mem_cons.mp h
    obtain ⟨hlogs, haout⟩ := runTest_logs ht hw
    obtain ⟨hlogs', haout'⟩ := runTests_logs hts haout
    refine ⟨?_, haout'⟩
    show (runTests ts (runTest t w).2).2.logs = _
    rw [hlogs', hlogs, List.append_assoc]
    rfl

/-- The calls of `runTest` in a run over many folders. -/
def callsOf (folders : List (Folder β)) : List (Entry β) := folders.flatMap Folder.calls

/-- **The log of a run** is the concatenation of the records of its tests. -/
theorem visitAll_logs : ∀ {folders : List (Folder β)}, (∀ folder ∈ folders, folder.aout = none) →
    (∀ t ∈ callsOf folders, t.Plain) → ∀ {w : World β}, w.aout = none →
    (visitAll folders w).logs = w.logs ++ logText (callsOf folders)
  | [], _, _, _, _ => (List.append_nil _).symm
  | folder :: rest, hclean, hplain, w, hw => by
    obtain ⟨hfolder, hrest⟩ := List.forall_mem_cons.mp hclean
    have henter : (folder.enter w).aout = none ∧ (folder.enter w).logs = w.logs := by
      rw [Folder.enter]
      split
      · exact ⟨hw, rfl⟩
      · exact ⟨hfolder, rfl⟩
    rw [callsOf, List.flatMap_cons, List.forall_mem_append] at hplain
    obtain ⟨hlogs, haout⟩ := runTests_logs hplain.1 henter.1
    show (visitAll rest (runTests folder.calls (folder.enter w)).2).logs = _
    rw [visitAll_logs hrest hplain.2 haout, hlogs, henter.2, callsOf, logText, logText,
      callsOf, List.flatMap_cons, logText, List.flatMap_append, List.append_assoc]

/-! ## Pieces and files -/

theorem flatMap_lines (r : Text) :
    (split "\n".toList r).flatMap (fun line => line ++ "\n".toList) = r ++ "\n".toList := by
  induction r using split_induction (by decide : "\n".toList ≠ []) with
  | last r h =>
    rw [split_of_absent h]
    exact List.flatMap_singleton _ _
  | cut a b ha ih =>
    rw [split_cut (by decide) ha, List.flatMap_cons, ih]
    simp only [List.append_assoc]

/-- A piece with a line break becomes a file; its first line is the name. -/
theorem logFile_lines {n : Text} (hn : '\n' ∉ n) (r : Text) :
    logFile (n ++ '\n' :: r) = some (logPath n, r ++ "\n".toList) := by
  have hsplit : split "\n".toList (n ++ '\n' :: r) = n :: split "\n".toList r :=
    split_char_cut hn r
  have hne : n ++ '\n' :: r ≠ [] := by simp
  have hne' : r ++ "\n".toList ≠ [] := List.append_ne_nil_of_right_ne_nil _ (by decide)
  rw [logFile, if_neg hne]
  simp only [hsplit, List.tail_cons, List.headD_cons, flatMap_lines, if_neg hne']

/-- A piece without a line break is passed over. -/
theorem logFile_line {x : Text} (hx : '\n' ∉ x) : logFile x = none := by
  have hsplit : split "\n".toList x = [x] := split_char_of_not_mem hx
  simp only [logFile, hsplit, List.tail_cons, List.flatMap_nil, if_true, ite_self]

theorem logFile_eq_some_iff {piece path text : Text} :
    logFile piece = some (path, text) ↔
      ∃ n r, '\n' ∉ n ∧ piece = n ++ '\n' :: r ∧ path = logPath n ∧ text = r ++ "\n".toList := by
  constructor
  · intro h
    by_cases hmem : '\n' ∈ piece
    · obtain ⟨n, r, rfl, hn⟩ := List.eq_append_cons_of_mem hmem
      rw [logFile_lines hn, Option.some.injEq, Prod.mk.injEq] at h
      exact ⟨n, r, hn, rfl, h.1.symm, h.2.symm⟩
    · rw [logFile_line hmem] at h
      cases h
  · rintro ⟨n, r, hn, rfl, rfl, rfl⟩
    exact logFile_lines hn r

theorem logPath_injective {m n : Text} (h : logPath m = logPath n) : m = n :=
  List.append_cancel_left (List.append_cancel_right h)

/-- The files written for these pieces into an empty directory. -/
def filesOf (pieces : List Text) : LogDir := pieces.foldl writeLog fun _ => none

theorem filesOf_append_singleton (pieces : List Text) (x : Text) :
    filesOf (pieces ++ [x]) = writeLog (filesOf pieces) x := List.foldl_concat _ _ _ _

/-- The last piece that becomes a file is not overwritten. -/
theorem filesOf_last {x path text : Text} (h : logFile x = some (path, text))
    (pieces : List Text) : filesOf (pieces ++ [x]) path = some text := by
  rw [filesOf_append_singleton, writeLog, h]
  exact if_pos rfl

/-- Every file comes from a piece. -/
theorem exists_piece {pieces : List Text} {path text : Text}
    (h : filesOf pieces path = some text) : ∃ x ∈ pieces, logFile x = some (path, text) := by
  induction pieces using List.reverseRecOn with
  | nil => cases h
  | append_singleton pieces x ih =>
    rw [filesOf_append_singleton, writeLog] at h
    have hrest : filesOf pieces path = some text →
        ∃ y ∈ pieces ++ [x], logFile y = some (path, text) := fun h =>
      let ⟨y, hy, hlog⟩ := ih h
      ⟨y, List.mem_append_left _ hy, hlog⟩
    cases hx : logFile x with
    | none =>
      rw [hx] at h
      exact hrest h
    | some file =>
      rw [hx] at h
      by_cases hpath : path = file.1
      · have htext : file.2 = text := Option.some.inj ((if_pos hpath).symm.trans h)
        exact ⟨x, by simp, by rw [hx, hpath, ← htext]⟩
      · exact hrest ((if_neg hpath).symm.trans h)

/-- Every piece that names a file makes it exist. -/
theorem filesOf_isSome {pieces : List Text} {x path text : Text} (hx : x ∈ pieces)
    (h : logFile x = some (path, text)) : (filesOf pieces path).isSome := by
  induction pieces using List.reverseRecOn with
  | nil => cases hx
  | append_singleton pieces y ih =>
    rw [filesOf_append_singleton, writeLog]
    rcases List.mem_append.mp hx with hx | hx
    · cases hy : logFile y with
      | none => exact ih hx
      | some file =>
        show (if path = file.1 then some file.2 else filesOf pieces path).isSome
        split
        · rfl
        · exact ih hx
    · rw [← List.mem_singleton.mp hx, h]
      show (if path = path then some text else filesOf pieces path).isSome
      rw [if_pos rfl]
      rfl

/-! ## Where a piece begins -/

/-- The tests whose name begins a piece: those that come right after a failing test, and
the first one if `fresh`. -/
def opens : Bool → List (Entry β) → List (Entry β)
  | _, [] => []
  | fresh, t :: ts =>
    if fresh then t :: opens (t.outcome == .failed) ts else opens (t.outcome == .failed) ts

theorem opens_true (t : Entry β) (ts : List (Entry β)) :
    opens true (t :: ts) = t :: opens (t.outcome == .failed) ts := rfl

theorem opens_false (t : Entry β) (ts : List (Entry β)) :
    opens false (t :: ts) = opens (t.outcome == .failed) ts := rfl

theorem record_failed {t : Entry β} (h : t.outcome = .failed) :
    t.record = (t.name ++ '\n' :: (t.comp ++ '\n' :: '\n' :: t.out)) ++ "DIVIDER".toList := by
  rw [Entry.record, if_pos h]
  simp [compEntry, failEntry]

theorem record_open {t : Entry β} (h : t.outcome ≠ .failed) :
    t.record = t.name ++ '\n' :: (t.comp ++ ['\n']) := by
  rw [Entry.record, if_neg h]
  simp [compEntry]

/-- A block of lines is free of the divider when its lines are. -/
theorem free_lines {a b : Text} (ha : ¬ "DIVIDER".toList <:+: a)
    (hb : ¬ "DIVIDER".toList <:+: b) : ¬ "DIVIDER".toList <:+: a ++ '\n' :: b := by
  rw [Substring.infix_append_cons (by decide)]
  exact not_or.mpr ⟨ha, hb⟩

theorem free_failed {t : Entry β} (ht : t.Plain) (hname : ¬ "DIVIDER".toList <:+: t.name) :
    ¬ "DIVIDER".toList <:+: t.name ++ '\n' :: (t.comp ++ '\n' :: '\n' :: t.out) := by
  refine free_lines hname (free_lines ht.comp_free ?_)
  have hnil : ¬ "DIVIDER".toList <:+: ([] : Text) := by decide
  exact free_lines hnil ht.out_free

/-- A failing test ends the piece. -/
theorem split_failed {t : Entry β} (ht : t.Plain) (hname : ¬ "DIVIDER".toList <:+: t.name)
    (h : t.outcome = .failed) (s : Text) :
    split "DIVIDER".toList (t.record ++ s)
      = (t.name ++ '\n' :: (t.comp ++ '\n' :: '\n' :: t.out)) :: split "DIVIDER".toList s := by
  rw [record_failed h, List.append_assoc]
  exact split_cut (by decide) (.of_unbordered (by decide) (free_failed ht hname)) s

/-- Any other test leaves the piece open. -/
theorem split_open {t : Entry β} (ht : t.Plain) (h : t.outcome ≠ .failed) (s : Text) :
    split "DIVIDER".toList (t.record ++ s)
      = (split "DIVIDER".toList t.name).dropLast
        ++ ((split "DIVIDER".toList t.name).getLastD []
            ++ '\n' :: (t.comp ++ '\n' :: (split "DIVIDER".toList s).headD []))
        :: (split "DIVIDER".toList s).tail := by
  have hassoc : t.record ++ s = t.name ++ '\n' :: (t.comp ++ '\n' :: s) := by
    rw [record_open h]
    simp
  have hcut : split "DIVIDER".toList (t.comp ++ '\n' :: s)
      = (t.comp ++ '\n' :: (split "DIVIDER".toList s).headD [])
        :: (split "DIVIDER".toList s).tail := by
    rw [split_append_cons (by decide) (by decide), split_of_absent ht.comp_free]
    rfl
  rw [hassoc, split_append_cons (by decide) (by decide), hcut]
  rfl

/-- The tests have names without line breaks, those that did not pass have names without
the divider, and the compiler printed `z` for those that passed. -/
structure Marked (z : Text) (t : Entry β) : Prop where
  plain : t.Plain
  line : '\n' ∉ t.name
  free : t.outcome ≠ .passed → ¬ "DIVIDER".toList <:+: t.name
  mark : t.outcome = .passed → t.comp = z

/-- **What a piece begins with**: the name of a test that comes first or right after a
failing one, unless the piece contains what the compiler printed for a passing test. -/
theorem piece_starts {z : Text} : ∀ {ts : List (Entry β)}, (∀ t ∈ ts, Marked z t) →
    ∀ {n r : Text}, '\n' ∉ n →
      (n ++ '\n' :: r ∈ split "DIVIDER".toList (logText ts) →
        (∃ t ∈ opens true ts, n = t.name) ∨ z <:+: r) ∧
      (n ++ '\n' :: r ∈ (split "DIVIDER".toList (logText ts)).tail →
        (∃ t ∈ opens false ts, n = t.name) ∨ z <:+: r)
  | [], _, n, r, _ => by
    refine ⟨fun h => ?_, fun h => ?_⟩
    · have hnil : n ++ '\n' :: r = [] := List.mem_singleton.mp h
      simp at hnil
    · cases h
  | t :: ts, hts, n, r, hn => by
    obtain ⟨ht, hrest⟩ := List.forall_mem_cons.mp hts
    obtain ⟨ih₁, ih₂⟩ := piece_starts hrest (n := n) (r := r) hn
    have hlog : logText (t :: ts) = t.record ++ logText ts := rfl
    have weaken : ∀ fresh, ((∃ u ∈ opens fresh ts, n = u.name) ∨ z <:+: r) →
        (∃ u ∈ t :: opens fresh ts, n = u.name) ∨ z <:+: r := fun fresh =>
      Or.imp_left fun ⟨u, hu, hname⟩ => ⟨u, List.mem_cons_of_mem _ hu, hname⟩
    -- the own name of a test begins a piece only where the previous piece is closed
    have own : ∀ fresh s, n ++ '\n' :: r = t.name ++ '\n' :: s →
        (∃ u ∈ t :: opens fresh ts, n = u.name) ∨ z <:+: r := fun fresh s h =>
      .inl ⟨t, List.mem_cons_self, (Substring.append_cons_inj_first hn ht.line h).1⟩
    rw [hlog, opens_true, opens_false]
    cases ho : t.outcome with
    | failed =>
      rw [split_failed ht.plain (ht.free (by simp [ho])) ho (logText ts)]
      refine ⟨fun h => ?_, ih₁⟩
      rcases List.mem_cons.mp h with h | h
      · exact own true _ h
      · exact weaken true (ih₁ h)
    | notCompiled =>
      rw [split_open ht.plain (by simp [ho]) (logText ts),
        split_of_absent (ht.free (by simp [ho]))]
      refine ⟨fun h => ?_, ih₂⟩
      rcases List.mem_cons.mp h with h | h
      · exact own false _ h
      · exact weaken false (ih₂ h)
    | passed =>
      -- the name may contain the divider, but no piece of it has a line break
      rw [split_open ht.plain (by simp [ho]) (logText ts), ht.mark ho]
      have fragment : ∀ x ∈ split "DIVIDER".toList t.name, '\n' ∉ x := fun x hx hmem =>
        ht.line ((infix_of_mem_split (by decide) hx).subset hmem)
      have hlast : '\n' ∉ (split "DIVIDER".toList t.name).getLastD [] := by
        refine fragment _ ?_
        obtain ⟨x, xs, hx⟩ := List.exists_cons_of_ne_nil (split_ne_nil "DIVIDER".toList t.name)
        rw [hx, List.getLastD_cons]
        exact List.getLastD_mem_cons
      have key : ∀ h : n ++ '\n' :: r ∈ (split "DIVIDER".toList t.name).dropLast
          ++ ((split "DIVIDER".toList t.name).getLastD []
            ++ '\n' :: (z ++ '\n' :: (split "DIVIDER".toList (logText ts)).headD []))
          :: (split "DIVIDER".toList (logText ts)).tail,
          (∃ u ∈ opens false ts, n = u.name) ∨ z <:+: r := by
        intro h
        rcases List.mem_append.mp h with h | h
        · exact absurd (by simp) (fragment _ (List.mem_of_mem_dropLast h))
        · rcases List.mem_cons.mp h with h | h
          · rw [(Substring.append_cons_inj_first hn hlast h).2]
            exact .inr (List.prefix_append z _).isInfix
          · exact ih₂ h
      exact ⟨fun h => weaken false (key h), fun h => key (List.mem_of_mem_tail h)⟩

theorem opens_subset : ∀ (fresh : Bool) (ts : List (Entry β)), opens fresh ts ⊆ ts
  | _, [] => List.Subset.refl _
  | true, t :: ts => by
    rw [opens_true]
    exact List.cons_subset_cons t (opens_subset _ ts)
  | false, t :: ts => by
    rw [opens_false]
    exact List.subset_cons_of_subset t (opens_subset _ ts)

theorem opens_map {g : Entry β → Entry β} (hg : ∀ t, (g t).outcome = t.outcome) :
    ∀ (fresh : Bool) (ts : List (Entry β)), opens fresh (ts.map g) = (opens fresh ts).map g
  | _, [] => rfl
  | true, t :: ts => by
    rw [List.map_cons, opens_true, opens_true, hg, opens_map hg _ ts, List.map_cons]
  | false, t :: ts => by
    rw [List.map_cons, opens_false, opens_false, hg, opens_map hg _ ts]

/-- A test that begins a piece and has a predecessor comes after a failing test. -/
theorem failed_of_opens {t u : Entry β} {us : List (Entry β)} :
    ∀ (fresh : Bool) (ts : List (Entry β)), (ts ++ t :: u :: us).Nodup →
      u ∈ opens fresh (ts ++ t :: u :: us) → t.outcome = .failed
  | fresh, [], hnodup, hu => by
    obtain ⟨ht, hnodup⟩ := List.nodup_cons.mp hnodup
    -- the test right before `u` decides whether `u` opens a piece
    have hu' : u ∈ opens (t.outcome == .failed) (u :: us) := by
      cases fresh with
      | false => exact hu
      | true =>
        rcases List.mem_cons.mp hu with rfl | hu
        · exact absurd List.mem_cons_self ht
        · exact hu
    by_contra ho
    have hb : (t.outcome == .failed) = false := beq_eq_false_iff_ne.mpr ho
    rw [hb, opens_false] at hu'
    exact (List.nodup_cons.mp hnodup).1 (opens_subset _ us hu')
  | fresh, v :: ts, hnodup, hu => by
    obtain ⟨hv, hnodup⟩ := List.nodup_cons.mp hnodup
    have hu' : u ∈ opens (v.outcome == .failed) (ts ++ t :: u :: us) := by
      cases fresh with
      | false => exact hu
      | true =>
        rcases List.mem_cons.mp hu with rfl | hu
        · exact absurd (by simp) hv
        · exact hu
    exact failed_of_opens _ ts hnodup hu'

/-! ## Attribution -/

/-- The log files for the tests `ts`. -/
def filesFor (ts : List (Entry β)) : LogDir := filesOf (split "DIVIDER".toList (logText ts))

/-- A change of what tests print that keeps how they end. -/
structure Reprint (g : Entry β → Entry β) : Prop where
  name : ∀ t, (g t).name = t.name
  outcome : ∀ t, (g t).outcome = t.outcome
  plain : ∀ t, t.Plain → (g t).Plain

/-- The log files are those of the tests that did not pass; each holds the outputs of its
test, and what other tests print does not change it. -/
structure Separated (ts : List (Entry β)) : Prop where
  files : ∀ path, (filesFor ts path).isSome ↔
    ∃ t ∈ ts, t.outcome ≠ .passed ∧ path = logPath t.name
  own : ∀ t ∈ ts, t.outcome ≠ .passed → ∀ text, filesFor ts (logPath t.name) = some text →
    t.comp <:+: text ∧ (t.outcome = .failed → t.out <:+: text)
  other : ∀ t ∈ ts, t.outcome ≠ .passed → ∀ g, Reprint g → g t = t →
    filesFor (ts.map g) (logPath t.name) = filesFor ts (logPath t.name)

/-- Every test but the last one fails at run time, the last one does not pass, and no name
contains the divider. -/
def Attributable (ts : List (Entry β)) : Prop :=
  (∀ t ∈ ts.dropLast, t.outcome = .failed) ∧
    ∀ t ∈ ts, t.outcome ≠ .passed ∧ ¬ "DIVIDER".toList <:+: t.name

instance (ts : List (Entry β)) : Decidable (Attributable ts) :=
  inferInstanceAs (Decidable (_ ∧ _))

/-- The lines of a test in its log file. -/
def Entry.lines (t : Entry β) : Text :=
  if t.outcome = .failed then t.comp ++ '\n' :: '\n' :: t.out else t.comp ++ ['\n']

theorem split_attributable : ∀ {ts : List (Entry β)}, (∀ t ∈ ts, t.Plain) → Attributable ts →
    ∀ n r : Text, n ++ '\n' :: r ∈ split "DIVIDER".toList (logText ts) ↔
      ∃ t ∈ ts, n ++ '\n' :: r = t.name ++ '\n' :: t.lines
  | [], _, _, n, r => by
    show n ++ '\n' :: r ∈ [[]] ↔ _
    simp
  | t :: ts, hplain, ⟨hfail, hends⟩, n, r => by
    obtain ⟨ht, hrest⟩ := List.forall_mem_cons.mp hplain
    obtain ⟨⟨-, hname⟩, hends'⟩ := List.forall_mem_cons.mp hends
    have hlog : logText (t :: ts) = t.record ++ logText ts := rfl
    by_cases ho : t.outcome = .failed
    · have hfail' : ∀ u ∈ ts.dropLast, u.outcome = .failed := fun u hu => by
        cases ts with
        | nil => cases hu
        | cons v ts => exact hfail u (List.mem_cons_of_mem _ hu)
      rw [hlog, split_failed ht hname ho, List.mem_cons, List.exists_mem_cons_iff,
        split_attributable hrest ⟨hfail', hends'⟩ n r, Entry.lines, if_pos ho]
    · cases ts with
      | nil =>
        rw [hlog, split_open ht ho, split_of_absent hname, List.exists_mem_cons_iff,
          Entry.lines, if_neg ho]
        simp [logText]
      | cons v ts => exact absurd (hfail t List.mem_cons_self) ho

section Runs

variable {ts : List (Entry β)}

/-- The log files of a run whose tests fail one after the other. -/
theorem filesFor_attributable (hplain : ∀ t ∈ ts, t.Plain) (hline : ∀ t ∈ ts, '\n' ∉ t.name)
    (hnames : (ts.map Entry.name).Nodup) (h : Attributable ts) (path text : Text) :
    filesFor ts path = some text ↔
      ∃ t ∈ ts, path = logPath t.name ∧ text = t.lines ++ "\n".toList := by
  have key : ∀ text, filesFor ts path = some text →
      ∃ t ∈ ts, path = logPath t.name ∧ text = t.lines ++ "\n".toList := by
    intro text hfile
    obtain ⟨x, hx, hlog⟩ := exists_piece hfile
    obtain ⟨n, r, hn, rfl, rfl, rfl⟩ := logFile_eq_some_iff.mp hlog
    obtain ⟨t, ht, heq⟩ := (split_attributable hplain h n r).mp hx
    obtain ⟨rfl, rfl⟩ := Substring.append_cons_inj_first hn (hline t ht) heq
    exact ⟨t, ht, rfl, rfl⟩
  refine ⟨key text, ?_⟩
  rintro ⟨t, ht, rfl, rfl⟩
  have hmem := (split_attributable hplain h t.name t.lines).mpr ⟨t, ht, rfl⟩
  obtain ⟨text, htext⟩ := Option.isSome_iff_exists.mp
    (filesOf_isSome hmem (logFile_lines (hline t ht) t.lines))
  obtain ⟨u, hu, hpath, rfl⟩ := key text htext
  have hsame : t = u := List.inj_on_of_nodup_map hnames ht hu (logPath_injective hpath)
  rw [hsame]
  rwa [hsame] at htext

theorem Attributable.map {g : Entry β → Entry β} (hg : Reprint g) (h : Attributable ts) :
    Attributable (ts.map g) := by
  refine ⟨fun t ht => ?_, fun t ht => ?_⟩
  · rw [← List.map_dropLast] at ht
    obtain ⟨u, hu, rfl⟩ := List.mem_map.mp ht
    rw [hg.outcome]
    exact h.1 u hu
  · obtain ⟨u, hu, rfl⟩ := List.mem_map.mp ht
    rw [hg.outcome, hg.name]
    exact h.2 u hu

theorem separated_of_attributable (hplain : ∀ t ∈ ts, t.Plain)
    (hline : ∀ t ∈ ts, '\n' ∉ t.name) (hnames : (ts.map Entry.name).Nodup)
    (h : Attributable ts) : Separated ts := by
  have hfiles := filesFor_attributable hplain hline hnames h
  refine ⟨fun path => ?_, fun t ht _ text htext => ?_, fun t ht _ g hg hgt => ?_⟩
  · rw [Option.isSome_iff_exists]
    constructor
    · rintro ⟨text, htext⟩
      obtain ⟨t, ht, hpath, -⟩ := (hfiles path text).mp htext
      exact ⟨t, ht, (h.2 t ht).1, hpath⟩
    · rintro ⟨t, ht, -, hpath⟩
      exact ⟨_, (hfiles path _).mpr ⟨t, ht, hpath, rfl⟩⟩
  · have hlines := (hfiles _ (t.lines ++ "\n".toList)).mpr ⟨t, ht, rfl, rfl⟩
    rw [hlines] at htext
    rw [← Option.some.inj htext, Entry.lines]
    split
    · refine ⟨List.infix_append_of_infix_left (List.prefix_append _ _).isInfix, fun _ => ?_⟩
      refine List.infix_append_of_infix_left (List.IsSuffix.isInfix ?_)
      exact (List.suffix_append ['\n', '\n'] t.out).trans (List.suffix_append t.comp _)
    · exact ⟨List.infix_append_of_infix_left (List.prefix_append _ _).isInfix,
        fun ho => absurd ho ‹_›⟩
  · -- the run with other printed texts has the same names, so its files are known as well
    have hplain' : ∀ u ∈ ts.map g, u.Plain := fun u hu =>
      let ⟨v, hv, hvu⟩ := List.mem_map.mp hu
      hvu ▸ hg.plain v (hplain v hv)
    have hline' : ∀ u ∈ ts.map g, '\n' ∉ u.name := fun u hu =>
      let ⟨v, hv, hvu⟩ := List.mem_map.mp hu
      hvu ▸ (hg.name v).symm ▸ hline v hv
    have hnames' : ((ts.map g).map Entry.name).Nodup := by
      rw [List.map_map, (funext hg.name : Entry.name ∘ g = Entry.name)]
      exact hnames
    have hmem : t ∈ ts.map g := List.mem_map.mpr ⟨t, ht, hgt⟩
    rw [(filesFor_attributable hplain' hline' hnames' (h.map hg) _ _).mpr ⟨t, hmem, rfl, rfl⟩,
      (hfiles _ _).mpr ⟨t, ht, rfl, rfl⟩]

/-! ## Every other run mixes up its files -/

/-- The same test, but the compiler prints `z`. -/
def Entry.printing (z : Text) (t : Entry β) : Entry β :=
  { t with gcc := { t.gcc with stdout := some z } }

theorem Entry.Plain.printing {t : Entry β} {z : Text} (ht : t.Plain)
    (hz : ¬ "DIVIDER".toList <:+: z) : (t.printing z).Plain :=
  ⟨rfl, ht.out_decodes, hz, ht.out_free⟩

/-- Let the compiler print `z` for the tests that satisfy `q`. -/
theorem reprint_printing (q : Entry β → Prop) [DecidablePred q] {z : Text}
    (hz : ¬ "DIVIDER".toList <:+: z) :
    Reprint fun t => if q t then t.printing z else t := by
  refine ⟨fun t => ?_, fun t => ?_, fun t ht => ?_⟩
  · split <;> rfl
  · split <;> rfl
  · show Entry.Plain (if q t then t.printing z else t)
    split
    · exact ht.printing hz
    · exact ht

/-- The name of a test that has a file is free of the divider. -/
theorem free_name (h : Separated ts) {t : Entry β} (ht : t ∈ ts) (ho : t.outcome ≠ .passed) :
    ¬ "DIVIDER".toList <:+: t.name := by
  obtain ⟨text, htext⟩ := Option.isSome_iff_exists.mp
    ((h.files (logPath t.name)).mpr ⟨t, ht, ho, rfl⟩)
  obtain ⟨x, hx, hlog⟩ := exists_piece htext
  obtain ⟨n, r, hn, rfl, hpath, -⟩ := logFile_eq_some_iff.mp hlog
  rw [logPath_injective hpath]
  intro hname
  exact not_infix_of_mem_split (by decide) hx (hname.trans (List.prefix_append n _).isInfix)

/-- **Tests that did not pass come first or after a failing test**: otherwise the file of
such a test can only come from a piece with the compiler output of a passing test in it,
and grows with that output. -/
theorem mem_opens (hplain : ∀ t ∈ ts, t.Plain) (hline : ∀ t ∈ ts, '\n' ∉ t.name)
    (hnames : (ts.map Entry.name).Nodup) (h : Separated ts) {t : Entry β} (ht : t ∈ ts)
    (ho : t.outcome ≠ .passed) : t ∈ opens true ts := by
  obtain ⟨text, htext⟩ := Option.isSome_iff_exists.mp
    ((h.files (logPath t.name)).mpr ⟨t, ht, ho, rfl⟩)
  -- a compiler output that does not fit into the file
  let z : Text := List.replicate (text.length + 1) 'x'
  have hz : ¬ "DIVIDER".toList <:+: z := fun hd => by
    have hD : 'D' ∈ z := hd.subset (by decide)
    exact absurd (List.eq_of_mem_replicate hD) (by decide)
  let g : Entry β → Entry β := fun u => if u.outcome = .passed then u.printing z else u
  have hg : Reprint g := reprint_printing _ hz
  have hgt : g t = t := if_neg ho
  rw [← h.other t ht ho g hg hgt] at htext
  obtain ⟨x, hx, hlog⟩ := exists_piece htext
  obtain ⟨n, r, hn, rfl, hpath, rfl⟩ := logFile_eq_some_iff.mp hlog
  have hmarked : ∀ u ∈ ts.map g, Marked z u := by
    intro u hu
    obtain ⟨v, hv, rfl⟩ := List.mem_map.mp hu
    refine ⟨hg.plain v (hplain v hv), ?_, fun hov => ?_, fun hov => ?_⟩
    · rw [hg.name]
      exact hline v hv
    · rw [hg.outcome] at hov
      rw [hg.name]
      exact free_name h hv hov
    · rw [hg.outcome] at hov
      show (if v.outcome = .passed then v.printing z else v).comp = z
      rw [if_pos hov]
      rfl
  rcases (piece_starts hmarked hn).1 hx with ⟨u, hu, hname⟩ | hin
  · rw [opens_map hg.outcome] at hu
    obtain ⟨v, hv, rfl⟩ := List.mem_map.mp hu
    have hsame : t.name = v.name := by rw [logPath_injective hpath, hname, hg.name]
    rw [List.inj_on_of_nodup_map hnames ht (opens_subset _ _ hv) hsame]
    exact hv
  · have hlen := hin.length_le
    simp only [z, List.length_replicate, List.length_append] at hlen
    omega

/-- The last piece, when the last test does not end it: its file grows with the compiler
output of that test. -/
theorem filesFor_last (ts : List (Entry β)) (name : Text) : ∃ n s : Text,
    ∀ p : Entry β, p.Plain → p.outcome ≠ .failed → p.name = name →
      filesFor (ts ++ [p]) (logPath n) = some (s ++ p.comp ++ "\n\n".toList) := by
  let pieces := split "DIVIDER".toList (logText ts ++ name)
  have hmem : '\n' ∈ pieces.getLastD [] ++ ['\n'] := by simp
  obtain ⟨n, s, heq, hn⟩ := List.eq_append_cons_of_mem hmem
  refine ⟨n, s, fun p hp ho hname => ?_⟩
  have hlog : logText (ts ++ [p]) = (logText ts ++ name) ++ '\n' :: (p.comp ++ ['\n']) := by
    rw [logText, List.flatMap_append, List.flatMap_singleton, record_open ho, hname]
    simp [logText]
  have hfree : ¬ "DIVIDER".toList <:+: p.comp ++ ['\n'] := free_lines hp.comp_free (by decide)
  have hlast : pieces.getLastD [] ++ '\n' :: (p.comp ++ ['\n'])
      = n ++ '\n' :: (s ++ (p.comp ++ ['\n'])) := by
    have happ := congrArg (· ++ (p.comp ++ ['\n'])) heq
    simpa using happ
  rw [filesFor, hlog, split_append_cons (by decide) (by decide), split_of_absent hfree,
    List.headD_cons, List.tail_cons]
  show filesOf (pieces.dropLast ++ [pieces.getLastD [] ++ '\n' :: (p.comp ++ ['\n'])]) _ = _
  rw [hlast, filesOf_last (logFile_lines hn _)]
  simp

theorem exists_last {q : Entry β → Prop} : ∀ {ts : List (Entry β)}, (∃ t ∈ ts, q t) →
    ∃ us t vs, ts = us ++ t :: vs ∧ q t ∧ ∀ v ∈ vs, ¬ q v
  | [], ⟨_, ht, _⟩ => by cases ht
  | t :: ts, h => by
    by_cases hrest : ∃ u ∈ ts, q u
    · obtain ⟨us, u, vs, rfl, hu, hvs⟩ := exists_last hrest
      exact ⟨t :: us, u, vs, rfl, hu, hvs⟩
    · have hq : q t := ((List.exists_mem_cons_iff _ _ _).mp h).resolve_right hrest
      exact ⟨[], t, ts, rfl, hq, fun v hv hqv => hrest ⟨v, hv, hqv⟩⟩

theorem exists_next_of_mem_dropLast {t : Entry β} (ht : t ∈ ts.dropLast) :
    ∃ us u vs, ts = us ++ t :: u :: vs := by
  have hne : ts ≠ [] := fun h => by simp [h] at ht
  obtain ⟨us, vs, hdrop⟩ := List.append_of_mem ht
  obtain ⟨u, ws, hlast⟩ := List.exists_cons_of_ne_nil
    (List.append_ne_nil_of_right_ne_nil vs (List.cons_ne_nil (ts.getLast hne) []))
  refine ⟨us, u, ws, ?_⟩
  rw [← List.dropLast_append_getLast hne, hdrop, List.append_assoc, List.cons_append, hlast]

/-- No test passes: the last one that does would begin or end up in the last piece. -/
theorem not_passed (hplain : ∀ t ∈ ts, t.Plain) (hline : ∀ t ∈ ts, '\n' ∉ t.name)
    (hnames : (ts.map Entry.name).Nodup) (h : Separated ts) :
    ∀ t ∈ ts, t.outcome ≠ .passed := by
  by_contra hpass
  push Not at hpass
  obtain ⟨us, p, vs, rfl, ho, hvs⟩ := exists_last hpass
  have hp : p ∈ us ++ p :: vs := by simp
  have hof : p.outcome ≠ .failed := by simp [ho]
  cases vs with
  | cons v vs =>
    have hv : v ∈ us ++ p :: v :: vs := by simp
    have hopens := mem_opens hplain hline hnames h hv (hvs v List.mem_cons_self)
    exact hof (failed_of_opens true us (hnames.of_map _) hopens)
  | nil =>
    obtain ⟨n, s, hfile⟩ := filesFor_last us p.name
    have hpfile := hfile p (hplain p hp) hof rfl
    obtain ⟨c, hc, hco, hpath⟩ := (h.files (logPath n)).mp (by rw [hpfile]; rfl)
    have hne : c.name ≠ p.name := fun heq =>
      hco ((List.inj_on_of_nodup_map hnames hc hp heq).symm ▸ ho)
    -- one more character in the compiler output of `p` makes the file of `c` longer
    have hz : ¬ "DIVIDER".toList <:+: p.comp ++ ['x'] := by
      rw [Substring.infix_append_cons (by decide)]
      exact not_or.mpr ⟨(hplain p hp).comp_free, by decide⟩
    let g : Entry β → Entry β := fun u =>
      if u.name = p.name then u.printing (p.comp ++ ['x']) else u
    have hg : Reprint g := reprint_printing _ hz
    have hgp : g p = p.printing (p.comp ++ ['x']) := if_pos rfl
    have hus : us.map g = us := by
      refine List.map_congr_left (g := id) (fun u hu => if_neg fun heq => ?_) |>.trans
        (List.map_id us)
      rw [List.map_append, List.nodup_append] at hnames
      exact hnames.2.2 _ (List.mem_map_of_mem hu) _ (by simp) heq
    have hother := h.other c hc hco g hg (if_neg hne)
    rw [List.map_append, hus, List.map_singleton, hgp, ← hpath, hpfile,
      hfile _ ((hplain p hp).printing hz) hof rfl] at hother
    have hlen := congrArg List.length (Option.some.inj hother)
    have hcomp : (p.printing (p.comp ++ ['x'])).comp = p.comp ++ ['x'] := rfl
    rw [hcomp] at hlen
    simp only [List.length_append, List.length_singleton] at hlen
    omega

/-- **The log files of a sequence of tests** are separated exactly when every test but the
last one fails at run time, the last one does not pass, and no name contains the divider. -/
theorem separated_iff_attributable (hplain : ∀ t ∈ ts, t.Plain)
    (hline : ∀ t ∈ ts, '\n' ∉ t.name) (hnames : (ts.map Entry.name).Nodup) :
    Separated ts ↔ Attributable ts := by
  refine ⟨fun h => ?_, separated_of_attributable hplain hline hnames⟩
  have hpass := not_passed hplain hline hnames h
  refine ⟨fun t ht => ?_, fun t ht => ⟨hpass t ht, free_name h ht (hpass t ht)⟩⟩
  obtain ⟨us, u, vs, rfl⟩ := exists_next_of_mem_dropLast ht
  have hu : u ∈ us ++ t :: u :: vs := by simp
  exact failed_of_opens true us (hnames.of_map _) (mem_opens hplain hline hnames h hu (hpass u hu))

end Runs

/-! ## The log files of a run -/

/-- The files `runtest` leaves in an empty `./logs`. -/
def logDir (report : Text) : LogDir := writeLogs report fun _ => none

/-- The folder with every entry changed. -/
def Folder.map (g : Entry β → Entry β) (folder : Folder β) : Folder β :=
  { folder with entries := folder.entries.map g }

/-- **Attribution**: the log files are those of the tests that did not pass; each holds
the outputs of its test, and no change of what other tests print is seen in it. -/
structure Attributed (folders : List (Folder β)) (report : Text) : Prop where
  files : ∀ path, (logDir report path).isSome ↔
    ∃ t ∈ callsOf folders, t.outcome ≠ .passed ∧ path = logPath t.name
  own : ∀ t ∈ callsOf folders, t.outcome ≠ .passed → ∀ text,
    logDir report (logPath t.name) = some text →
    t.comp <:+: text ∧ (t.outcome = .failed → t.out <:+: text)
  other : ∀ t ∈ callsOf folders, t.outcome ≠ .passed → ∀ g, Reprint g → g t = t →
    ∀ report', brain (folders.map (Folder.map g)) = .ok report' →
    logDir report' (logPath t.name) = logDir report (logPath t.name)

theorem calls_map {g : Entry β → Entry β} (hg : ∀ t, (g t).name = t.name) (folder : Folder β) :
    (folder.map g).calls = folder.calls.map g := by
  have hnames : (folder.entries.map g).map Entry.name = folder.entries.map Entry.name := by
    rw [List.map_map]
    exact congrArg (List.map · _) (funext hg)
  have hunfinished : (folder.map g).unfinished ↔ folder.unfinished := by
    rw [Folder.unfinished, Folder.unfinished, Folder.map, hnames, List.length_map]
  have hfilter : (folder.entries.map g).filter isTest = (folder.entries.filter isTest).map g := by
    rw [List.filter_map]
    congr 2
    funext t
    simp only [Function.comp_apply, isTest, hg]
  by_cases h : folder.unfinished
  · rw [Folder.calls, Folder.calls, if_pos h, if_pos (hunfinished.mpr h), List.map_nil]
  · rw [Folder.calls, Folder.calls, if_neg h, if_neg fun h' => h (hunfinished.mp h')]
    exact hfilter

theorem callsOf_map {g : Entry β → Entry β} (hg : ∀ t, (g t).name = t.name)
    (folders : List (Folder β)) :
    callsOf (folders.map (Folder.map g)) = (callsOf folders).map g := by
  rw [callsOf, callsOf, List.flatMap_map, List.map_flatMap]
  exact congrArg (List.flatMap · _) (funext (calls_map hg))

/-- The log files of a run are those of its calls. -/
theorem logDir_brain {folders : List (Folder β)} (hclean : ∀ folder ∈ folders, folder.aout = none)
    (hplain : ∀ t ∈ callsOf folders, t.Plain) {report : Text} (h : brain folders = .ok report) :
    logDir report = filesFor (callsOf folders) := by
  rw [brain_eq (parseCounts_brain h).1, visitAll_logs hclean hplain rfl] at h
  rw [← Except.ok.inj h, logDir, writeLogs, split_report, List.tail_cons]
  rfl

/-- **Log attribution**: in a run over clean folders whose tests have distinct names, the
log files are attributed correctly if and only if every test but the last one fails at run
time, the last one does not pass, and no name contains the divider. -/
theorem attributed_iff {folders : List (Folder β)} (hclean : ∀ folder ∈ folders, folder.aout = none)
    (hplain : ∀ t ∈ callsOf folders, t.Plain) (hline : ∀ t ∈ callsOf folders, '\n' ∉ t.name)
    (hnames : ((callsOf folders).map Entry.name).Nodup) {report : Text}
    (hreport : brain folders = .ok report) :
    Attributed folders report ↔ Attributable (callsOf folders) := by
  rw [← separated_iff_attributable hplain hline hnames]
  have hlogs := logDir_brain hclean hplain hreport
  have hmap : ∀ g, Reprint g → ∀ report', brain (folders.map (Folder.map g)) = .ok report' →
      logDir report' = filesFor ((callsOf folders).map g) := by
    intro g hg report' hreport'
    rw [← callsOf_map hg.name]
    refine logDir_brain (fun folder hf => ?_) (fun t ht => ?_) hreport'
    · obtain ⟨folder', hf', rfl⟩ := List.mem_map.mp hf
      exact hclean folder' hf'
    · rw [callsOf_map hg.name] at ht
      obtain ⟨u, hu, rfl⟩ := List.mem_map.mp ht
      exact hg.plain u (hplain u hu)
  constructor
  · rintro ⟨hfiles, hown, hother⟩
    rw [hlogs] at hfiles hown hother
    refine ⟨hfiles, hown, fun t ht ho g hg hgt => ?_⟩
    -- the other run has as many folders, so it has a report, too
    have h361 : (folders.map (Folder.map g)).length ≤ 361 := by
      rw [List.length_map]
      exact (parseCounts_brain hreport).1
    rw [← hother t ht ho g hg hgt _ (brain_eq h361), hmap g hg _ (brain_eq h361)]
  · rintro ⟨hfiles, hown, hother⟩
    rw [← hlogs] at hfiles hown hother
    refine ⟨hfiles, hown, fun t ht ho g hg hgt report' hreport' => ?_⟩
    rw [hmap g hg report' hreport', hother t ht ho g hg hgt]

/-- A test that compiles and prints `out`. -/
def testPrinting (name out : Text) : Entry Unit :=
  ⟨name, false, ⟨some [], some (), false⟩, fun _ => some out⟩

/-- A folder of two tests with their `incl.h`. -/
def folderOf (t u : Entry Unit) : Folder Unit :=
  ⟨"read".toList, [t, ⟨"incl.h".toList, false, ⟨some [], none, false⟩, fun _ => none⟩, u], none⟩

theorem plain_testPrinting {name out : Text} (hout : ¬ "DIVIDER".toList <:+: out) :
    (testPrinting name out).Plain :=
  ⟨rfl, fun _ _ => rfl, (by decide : ¬ "DIVIDER".toList <:+: ([] : Text)), hout⟩

/-- Two failing tests. -/
def failingPair : Folder Unit :=
  folderOf (testPrinting "read01.c".toList "EBADF\n".toList)
    (testPrinting "read02.c".toList "EINVAL\n".toList)

theorem attributed_iff_failing :
    ∃ report, brain [failingPair] = .ok report ∧ Attributed [failingPair] report := by
  have h361 : [failingPair].length ≤ 361 := by decide
  refine ⟨_, brain_eq h361, (attributed_iff (by simp [failingPair, folderOf]) ?_ (by decide)
    (by decide) (brain_eq h361)).mpr (by decide)⟩
  show ∀ t ∈ [_, _], Entry.Plain t
  simp only [List.forall_mem_cons]
  exact ⟨plain_testPrinting (by decide), plain_testPrinting (by decide), by simp⟩

/-- A passing test before a failing one. -/
def passFailPair : Folder Unit :=
  folderOf (testPrinting "read01.c".toList "test succeeded\n".toList)
    (testPrinting "read02.c".toList "EINVAL\n".toList)

/-- The failing test has no log file; its output is in the file of the test that passed. -/
theorem not_attributed_passFail :
    ∃ report, brain [passFailPair] = .ok report ∧ ¬ Attributed [passFailPair] report ∧
      logDir report (logPath "read02.c".toList) = none ∧
      logDir report (logPath "read01.c".toList)
        = some "\nread02.c\n\n\nEINVAL\n\n".toList := by
  have h361 : [passFailPair].length ≤ 361 := by decide
  have hplain : ∀ t ∈ callsOf [passFailPair], t.Plain := by
    show ∀ t ∈ [_, _], Entry.Plain t
    simp only [List.forall_mem_cons]
    exact ⟨plain_testPrinting (by decide), plain_testPrinting (by decide), by simp⟩
  have hlogs := logDir_brain (by simp [passFailPair, folderOf]) hplain (brain_eq h361)
  have hnone : filesFor (callsOf [passFailPair]) (logPath "read02.c".toList) = none := by decide
  refine ⟨_, brain_eq h361, fun h => ?_, by rw [hlogs, hnone], by rw [hlogs]; decide⟩
  have hfile := (h.files (logPath "read02.c".toList)).mpr
    ⟨_, List.mem_cons_of_mem _ List.mem_cons_self, by decide, rfl⟩
  rw [hlogs, hnone] at hfile
  cases hfile

end UnikraftSuite
