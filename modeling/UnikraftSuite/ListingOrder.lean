import UnikraftSuite.Isolation
import UnikraftSuite.Reset
import Mathlib.Data.List.Forall2
import Mathlib.Logic.Function.Iterate
import Mathlib.Data.List.Perm.Basic

/-!
# Counts and the order of `os.listdir`

`os.listdir` promises no order, and `brain.py` runs the tests as it finds them. What it counts for
a folder should not depend on that. It does where a test leaves its `a.out` behind (its compiler
output does not decode) and another one, which does not compile, finds it: which of the two comes
first decides what the second one is judged by.

- `judged`: the verdict of a test, for the `a.out` that is in the folder.
- `Borrows`: a test that has no binary does not fail with the one that another test leaves.
- `folderCounts_orderFree_iff`, `tally_orderFree_iff`: the counts of a folder, and of a whole
  tree, are the same for every order if and only if no test borrows.
- `left_iff`: when a run leaves an `a.out` in a folder. `rounds_counts`: with a cleanup behind each
  run, all runs count the same.
-/

namespace UnikraftSuite

open PyStr

variable {β : Type}

/-! ## What a test is judged by -/

/-- The world with nothing in it but an `a.out` in the folder. -/
def World.holding (a : Option β) : World β := { World.init with aout := a }

/-- The verdict of a test that finds `a` in the folder. -/
def judged (t : Entry β) (a : Option β) : Int := (runTest t (.holding a)).1

/-- What a test leaves in the folder where it finds `a`. -/
def leaves (t : Entry β) (a : Option β) : Option β := (runTest t (.holding a)).2.aout

theorem runTest_judged (t : Entry β) (w : World β) :
    (runTest t w).1 = judged t w.aout ∧ (runTest t w).2.aout = leaves t w.aout :=
  runTest_congr t rfl

theorem judged_undecodable {t : Entry β} (h : t.gcc.stdout = none) (a : Option β) :
    judged t a = -1 := by
  rw [judged, runTest_undecodable h]

theorem leaves_undecodable {t : Entry β} (h : t.gcc.stdout = none) (a : Option β) :
    leaves t a = t.gcc.aout a := by
  rw [leaves, runTest_undecodable h]
  rfl

/-- With output that decodes, whatever is in the folder is moved away. -/
theorem leaves_decodable {t : Entry β} {cont : Text} (h : t.gcc.stdout = some cont)
    (a : Option β) : leaves t a = none := by
  rw [leaves]
  cases ha : t.gcc.aout (World.holding a).aout with
  | none =>
    rw [runTest_notCompiled h ha]
    exact ha
  | some b =>
    cases hl : t.exec b with
    | none => rw [runTest_noLog h ha hl]; rfl
    | some out =>
      by_cases hp : "test succeeded".toList <:+: out
      · rw [runTest_passed h ha hl hp]; rfl
      · rw [runTest_failed h ha hl hp]; rfl

/-- A test that compiles is judged by its own binary. -/
theorem judged_of_binary {t : Entry β} {b : β} (h : t.gcc.binary = some b) (a : Option β) :
    judged t a = judged t none := by
  have hown : ∀ a : Option β, t.gcc.aout (World.holding a).aout = some b := fun a =>
    Gcc.aout_of_binary h a
  unfold judged
  cases hs : t.gcc.stdout with
  | none => rw [runTest_undecodable hs, runTest_undecodable hs]
  | some cont =>
    cases hl : t.exec b with
    | none => rw [runTest_noLog hs (hown a) hl, runTest_noLog hs (hown none) hl]
    | some out =>
      by_cases hp : "test succeeded".toList <:+: out
      · rw [runTest_passed hs (hown a) hl hp, runTest_passed hs (hown none) hl hp]
      · rw [runTest_failed hs (hown a) hl hp, runTest_failed hs (hown none) hl hp]

/-- In a folder without an `a.out`, a test that does not compile fails. -/
theorem judged_none {t : Entry β} {cont : Text} (hs : t.gcc.stdout = some cont)
    (hb : t.gcc.binary = none) : judged t none = 0 := by
  have ha : t.gcc.aout (World.holding (none : Option β)).aout = none := t.gcc.aout_none.trans hb
  rw [judged, runTest_notCompiled hs ha]

/-- By an `a.out` that it finds, a test is judged differently exactly if it has none of its own,
does not delete that one, and does not fail with it. -/
theorem judged_ne_iff {t : Entry β} {b : β} : judged t (some b) ≠ judged t none ↔
    t.gcc.stdout ≠ none ∧ t.gcc.binary = none ∧ t.gcc.unlinks = false ∧
      ∀ out, t.exec b = some out → "test succeeded".toList <:+: out := by
  cases hs : t.gcc.stdout with
  | none =>
    rw [judged_undecodable hs, judged_undecodable hs]
    exact iff_of_false (fun h => h rfl) fun h => h.1 rfl
  | some cont =>
    cases hb : t.gcc.binary with
    | some b' =>
      rw [judged_of_binary hb]
      exact iff_of_false (fun h => h rfl) fun h => Option.some_ne_none b' h.2.1
    | none =>
      rw [judged_none hs hb]
      cases hu : t.gcc.unlinks with
      | true =>
        have ha : t.gcc.aout (World.holding (some b)).aout = none := by rw [Gcc.aout, hb, hu]; rfl
        rw [judged, runTest_notCompiled hs ha]
        exact iff_of_false (fun h => h rfl) fun h => Bool.eq_false_iff.mp h.2.2.1 rfl
      | false =>
        have ha : t.gcc.aout (World.holding (some b)).aout = some b := by rw [Gcc.aout, hb, hu]; rfl
        have hrun : judged t (some b) ≠ 0 ↔
            ∀ out, t.exec b = some out → "test succeeded".toList <:+: out := by
          cases hl : t.exec b with
          | none =>
            rw [judged, runTest_noLog hs ha hl]
            exact iff_of_true (by decide : (-1 : Int) ≠ 0) fun out hout =>
              absurd hout.symm (Option.some_ne_none out)
          | some out =>
            by_cases hp : "test succeeded".toList <:+: out
            · rw [judged, runTest_passed hs ha hl hp]
              exact iff_of_true Int.one_ne_zero fun _ hout => Option.some.inj hout ▸ hp
            · rw [judged, runTest_failed hs ha hl hp]
              exact iff_of_false (fun h => h rfl) fun h => hp (h out rfl)
        rw [hrun]
        exact ⟨fun h => ⟨Option.some_ne_none cont, rfl, rfl, h⟩, fun h => h.2.2.2⟩

/-- `t`, which fails before it is linked, does not fail with the binary that `u` leaves behind:
run in its place, that passes, or leaves a log that does not decode. -/
def Borrows (t u : Entry β) : Prop :=
  u.gcc.stdout = none ∧ t.gcc.stdout ≠ none ∧ t.gcc.binary = none ∧ t.gcc.unlinks = false ∧
    ∃ b, u.gcc.binary = some b ∧ ∀ out, t.exec b = some out → "test succeeded".toList <:+: out

theorem borrows_iff {t u : Entry β} : Borrows t u ↔
    u.gcc.stdout = none ∧ ∃ b, u.gcc.binary = some b ∧ judged t (some b) ≠ judged t none := by
  constructor
  · rintro ⟨hus, hts, htb, htu, b, hub, hrun⟩
    exact ⟨hus, b, hub, judged_ne_iff.mpr ⟨hts, htb, htu, hrun⟩⟩
  · rintro ⟨hus, b, hub, hne⟩
    obtain ⟨hts, htb, htu, hrun⟩ := judged_ne_iff.mp hne
    exact ⟨hus, hts, htb, htu, b, hub, hrun⟩

/-- No test of the list borrows from another one. -/
def NoneBorrows (ts : List (Entry β)) : Prop := ∀ t ∈ ts, ∀ u ∈ ts, ¬ Borrows t u

/-! ## The tests of a folder -/

/-- Successive calls, told by what is in the folder alone. -/
def verdicts : List (Entry β) → Option β → List Int
  | [], _ => []
  | t :: ts, a => judged t a :: verdicts ts (leaves t a)

/-- What is in the folder behind them. -/
def lastAout (ts : List (Entry β)) (a : Option β) : Option β := ts.foldl (fun a t => leaves t a) a

theorem runTests_eq (ts : List (Entry β)) (w : World β) :
    (runTests ts w).1 = verdicts ts w.aout ∧ (runTests ts w).2.aout = lastAout ts w.aout := by
  induction ts generalizing w with
  | nil => exact ⟨rfl, rfl⟩
  | cons t ts ih =>
    obtain ⟨hv, ha⟩ := runTest_judged t w
    obtain ⟨ihv, iha⟩ := ih (runTest t w).2
    rw [ha] at ihv iha
    refine ⟨?_, iha⟩
    show (runTest t w).1 :: (runTests ts (runTest t w).2).1 = _
    rw [hv, ihv]
    rfl

theorem verdicts_append (ts us : List (Entry β)) (a : Option β) :
    verdicts (ts ++ us) a = verdicts ts a ++ verdicts us (lastAout ts a) := by
  induction ts generalizing a with
  | nil => rfl
  | cons t ts ih => exact congrArg (judged t a :: ·) (ih (leaves t a))

/-- Where no test borrows, each one earns its verdict by itself, whatever its predecessors leave:
the invariant is that an `a.out` in the folder is from a test of the list. -/
theorem verdicts_of_noneBorrows {all : List (Entry β)} (h : NoneBorrows all)
    {ts : List (Entry β)} (hts : ts ⊆ all) {a : Option β}
    (ha : ∀ b, a = some b → ∃ u ∈ all, u.gcc.stdout = none ∧ u.gcc.binary = some b) :
    verdicts ts a = ts.map fun t => judged t none := by
  induction ts generalizing a with
  | nil => rfl
  | cons t ts ih =>
    obtain ⟨ht, hts⟩ := List.cons_subset.mp hts
    have hown : judged t a = judged t none := by
      cases a with
      | none => rfl
      | some b =>
        obtain ⟨u, hu, hs, hb⟩ := ha b rfl
        by_contra hne
        exact h t ht u hu (borrows_iff.mpr ⟨hs, b, hb, hne⟩)
    have hrest : ∀ b, leaves t a = some b →
        ∃ u ∈ all, u.gcc.stdout = none ∧ u.gcc.binary = some b := by
      intro b hb
      cases hs : t.gcc.stdout with
      | some cont =>
        rw [leaves_decodable hs] at hb
        cases hb
      | none =>
        rw [leaves_undecodable hs] at hb
        cases htb : t.gcc.binary with
        | some b' =>
          rw [Gcc.aout_of_binary htb] at hb
          cases hb
          exact ⟨t, ht, hs, htb⟩
        | none =>
          refine ha b ?_
          rw [Gcc.aout, htb] at hb
          cases hu : t.gcc.unlinks with
          | true =>
            rw [hu] at hb
            cases hb
          | false =>
            rw [hu] at hb
            exact hb
    show judged t a :: verdicts ts (leaves t a) = _
    rw [hown, ih hts hrest, List.map_cons]

theorem ofVerdicts_perm {rs rs' : List Int} (h : rs.Perm rs') :
    Counts.ofVerdicts rs = Counts.ofVerdicts rs' := by
  rw [Counts.ofVerdicts, Counts.ofVerdicts, h.count_eq, h.count_eq, h.countP_eq]

/-- Two members of a list that are not the same can be taken out of it. -/
theorem exists_perm_cons_cons {α : Type} {ts : List α} {t u : α} (ht : t ∈ ts) (hu : u ∈ ts)
    (hne : u ≠ t) : ∃ rest, ts.Perm (t :: u :: rest) := by
  obtain ⟨l, l', rfl⟩ := List.append_of_mem ht
  have hmem : u ∈ l ++ l' := by
    rcases List.mem_append.mp hu with hu | hu
    · exact List.mem_append_left _ hu
    · exact List.mem_append_right _ ((List.mem_cons.mp hu).resolve_left hne)
  obtain ⟨k, k', hk⟩ := List.append_of_mem hmem
  refine ⟨k ++ k', List.perm_middle.trans (List.Perm.cons t ?_)⟩
  rw [hk]
  exact List.perm_middle

/-- **The counts of a sequence of tests** are those of every order of it if and only if no test
borrows. -/
theorem verdicts_orderFree_iff (ts : List (Entry β)) :
    (∀ us : List (Entry β), us.Perm ts →
      Counts.ofVerdicts (verdicts us none) = Counts.ofVerdicts (verdicts ts none)) ↔
      NoneBorrows ts := by
  constructor
  · intro h t ht u hu hborrows
    obtain ⟨hus, b, hub, hne⟩ := borrows_iff.mp hborrows
    obtain ⟨-, hdecodes, htb, -⟩ := hborrows
    have htu : u ≠ t := by
      rintro rfl
      rw [htb] at hub
      cases hub
    obtain ⟨rest, hperm⟩ := exists_perm_cons_cons ht hu htu
    obtain ⟨cont, hts⟩ := Option.ne_none_iff_exists'.mp hdecodes
    -- `t` at the beginning, and `t` right behind `u`
    have hfirst : (t :: (rest ++ [u])).Perm ts :=
      ((List.perm_append_singleton u rest).cons t).trans hperm.symm
    have hlast : (rest ++ [u, t]).Perm ts := by
      refine List.Perm.trans ?_ hperm.symm
      have hcomm : (rest ++ [u, t]).Perm (u :: t :: rest) := List.perm_append_comm
      exact hcomm.trans (List.Perm.swap t u rest)
    have hcounts := congrArg Counts.fail ((h _ hfirst).trans (h _ hlast).symm)
    have hvfirst : verdicts (t :: (rest ++ [u])) none = 0 :: (verdicts rest none ++ [-1]) := by
      show judged t none :: verdicts (rest ++ [u]) (leaves t none) = _
      rw [judged_none hts htb, leaves_decodable hts, verdicts_append]
      show 0 :: (verdicts rest none ++ [judged u _]) = _
      rw [judged_undecodable hus]
    have hvlast : verdicts (rest ++ [u, t]) none
        = verdicts rest none ++ [-1, judged t (some b)] := by
      rw [verdicts_append]
      show _ ++ [judged u _, judged t (leaves u _)] = _
      rw [judged_undecodable hus, leaves_undecodable hus, Gcc.aout_of_binary hub]
    rw [hvfirst, hvlast] at hcounts
    rw [judged_none hts htb] at hne
    simp [Counts.ofVerdicts, List.count_cons, List.count_append, hne] at hcounts
  · intro h us hperm
    have hown : ∀ vs : List (Entry β), vs ⊆ ts → verdicts vs none = vs.map fun t => judged t none :=
      fun vs hvs => verdicts_of_noneBorrows h hvs fun b hb => absurd hb (Option.some_ne_none b).symm
    rw [hown us hperm.subset, hown ts (List.Subset.refl ts)]
    exact ofVerdicts_perm (hperm.map _)

/-! ## The counts of a folder -/

/-- The folder, listed in another order. -/
def Folder.listed (folder : Folder β) (entries : List (Entry β)) : Folder β :=
  { folder with entries := entries }

variable {folder : Folder β} {entries : List (Entry β)}

theorem listed_unfinished (h : entries.Perm folder.entries) :
    (folder.listed entries).unfinished ↔ folder.unfinished :=
  and_congr (not_congr (by rw [Folder.listed, h.length_eq])) (not_congr (h.map _).mem_iff)

theorem folderCounts_of_finished (h : ¬ folder.unfinished) :
    folderCounts folder = Counts.ofVerdicts (verdicts folder.calls folder.aout) := by
  rw [folderCounts, if_neg h, (runTests_eq _ _).1, Folder.enter, if_neg h]

/-- **The counts of a folder** that begins without an `a.out` do not depend on the order of its
listing if and only if none of its tests borrows. -/
theorem folderCounts_orderFree_iff (hclean : folder.aout = none) :
    (∀ entries : List (Entry β), entries.Perm folder.entries →
      folderCounts (folder.listed entries) = folderCounts folder) ↔
      NoneBorrows folder.calls := by
  by_cases hun : folder.unfinished
  · refine iff_of_true (fun entries hperm => ?_) ?_
    · rw [folderCounts, if_pos ((listed_unfinished hperm).mpr hun), folderCounts, if_pos hun,
        Folder.listed, hperm.length_eq]
    · rw [Folder.calls, if_pos hun]
      exact fun t ht => absurd ht List.not_mem_nil
  · have hcalls : folder.calls = folder.entries.filter isTest := if_neg hun
    have hcounts : ∀ {entries}, entries.Perm folder.entries → folderCounts (folder.listed entries)
        = Counts.ofVerdicts (verdicts (entries.filter isTest) none) := by
      intro entries hperm
      have hun' : ¬ (folder.listed entries).unfinished := mt (listed_unfinished hperm).mp hun
      rw [folderCounts_of_finished hun', Folder.calls, if_neg hun']
      exact congrArg (fun a => Counts.ofVerdicts (verdicts _ a)) hclean
    have hself := hcounts (List.Perm.refl folder.entries)
    rw [← verdicts_orderFree_iff, hcalls]
    constructor
    · intro h us hus
      -- the files that are no tests are put behind the others
      let entries := us ++ folder.entries.filter fun e => !isTest e
      have hperm : entries.Perm folder.entries :=
        (hus.append_right _).trans (List.filter_append_perm isTest folder.entries)
      have hfilter : entries.filter isTest = us := by
        have htests : us.filter isTest = us := List.filter_eq_self.mpr fun e he =>
          (List.mem_filter.mp (hus.subset he)).2
        rw [List.filter_append, htests, List.filter_filter]
        simp
      have heq := (hcounts hperm).symm.trans (h entries hperm)
      rw [hfilter] at heq
      exact heq.trans hself
    · intro h entries hperm
      rw [hcounts hperm]
      exact (h _ (hperm.filter _)).trans hself.symm

/-! ## The counts of a tree -/

/-- The arrays `brain.py` has filled, with the names of the folders they belong to. -/
def tally (folders : List (Folder β)) : Except PyErr (List (Text × Counts)) :=
  (countLoop 0 BrainState.init folders).map fun st => folders.mapIdx fun i folder =>
    (folder.name, ⟨st.passList.getD i 0, st.failList.getD i 0, st.brokList.getD i 0⟩)

theorem tally_eq {folders : List (Folder β)} (h : folders.length ≤ 361) :
    tally folders = .ok (folders.map fun folder => (folder.name, folderCounts folder)) := by
  rw [tally, countLoop_init h]
  refine congrArg Except.ok (List.ext_getElem (by simp) fun i hi hi' => ?_)
  have hlt : i < folders.length := by simpa using hi'
  have hget : ∀ f : Counts → Nat,
      ((folders.map folderCounts).map f ++ List.replicate (361 - folders.length) 0).getD i 0
        = f (folderCounts folders[i]) := by
    intro f
    rw [List.getD_eq_getElem?_getD, List.getElem?_append_left (by simpa using hlt)]
    simp [hlt]
  rw [List.getElem_mapIdx, List.getElem_map]
  simp only [filled, hget Counts.pass, hget Counts.fail, hget Counts.brok]

/-- The same tree, where `os.listdir` reports folders and files in another order. -/
def Relisted (folders folders' : List (Folder β)) : Prop :=
  ∃ mid, List.Forall₂ (fun folder folder' => ∃ entries : List (Entry β),
    entries.Perm folder.entries ∧ folder' = folder.listed entries) folders mid ∧ mid.Perm folders'

theorem relisted_one (l l' : List (Folder β)) {entries : List (Entry β)}
    (h : entries.Perm folder.entries) :
    Relisted (l ++ folder :: l') (l ++ folder.listed entries :: l') := by
  have hsame : ∀ l : List (Folder β), List.Forall₂ (fun folder folder' =>
      ∃ entries : List (Entry β), entries.Perm folder.entries ∧ folder' = folder.listed entries)
        l l := fun l => List.forall₂_same.mpr fun f _ => ⟨f.entries, .refl _, rfl⟩
  exact ⟨_, List.rel_append (hsame l) (.cons ⟨entries, h, rfl⟩ (hsame l')), .refl _⟩

theorem Relisted.length_eq {folders folders' : List (Folder β)} (h : Relisted folders folders') :
    folders'.length = folders.length := by
  obtain ⟨mid, hmid, hperm⟩ := h
  rw [← hperm.length_eq, hmid.length_eq]

theorem lastAout_append (ts us : List (Entry β)) (a : Option β) :
    lastAout (ts ++ us) a = lastAout us (lastAout ts a) := List.foldl_append

/-- The call takes an `a.out` away that it finds: it moves it, or linking fails. -/
def Entry.Clears (t : Entry β) : Prop :=
  t.gcc.stdout ≠ none ∨ t.gcc.binary = none ∧ t.gcc.unlinks = true

/-- **A sequence of tests leaves no `a.out`** if and only if behind each test that leaves one there
is a test that takes it away. -/
theorem lastAout_eq_none_iff (ts : List (Entry β)) :
    lastAout ts none = none ↔ ∀ pre u post, ts = pre ++ u :: post → u.gcc.stdout = none →
      u.gcc.binary ≠ none → ∃ t ∈ post, t.Clears := by
  induction ts using List.reverseRecOn with
  | nil => exact iff_of_true rfl fun pre u post h => absurd h (by simp)
  | append_singleton ts t ih =>
    rw [lastAout_append]
    show leaves t (lastAout ts none) = none ↔ _
    -- a test of the list is one of the others, or the last one
    have hsplit : (∀ pre u post, ts ++ [t] = pre ++ u :: post → u.gcc.stdout = none →
        u.gcc.binary ≠ none → ∃ t ∈ post, t.Clears) ↔
        (∀ pre u post, ts = pre ++ u :: post → u.gcc.stdout = none → u.gcc.binary ≠ none →
          (∃ t ∈ post, t.Clears) ∨ t.Clears) ∧
        (t.gcc.stdout = none → t.gcc.binary = none) := by
      constructor
      · intro h
        refine ⟨fun pre u post hts hu hb => ?_, fun ht => ?_⟩
        · obtain ⟨t', ht', hout⟩ := h pre u (post ++ [t]) (by rw [hts]; simp) hu hb
          rcases List.mem_append.mp ht' with ht' | ht'
          · exact .inl ⟨t', ht', hout⟩
          · rw [List.mem_singleton.mp ht'] at hout
            exact .inr hout
        · by_contra hb
          obtain ⟨t', ht', -⟩ := h ts t [] rfl ht hb
          cases ht'
      · rintro ⟨hothers, hlast⟩ pre u post hts hu hb
        rcases List.eq_nil_or_concat post with rfl | ⟨post, t', rfl⟩
        · obtain ⟨-, rfl⟩ := List.append_inj' hts rfl |>.imp id List.singleton_inj.mp
          exact absurd (hlast hu) hb
        · rw [List.concat_eq_append, ← List.cons_append, ← List.append_assoc] at hts
          obtain ⟨hinit, hlast'⟩ := List.append_inj' hts rfl
          obtain rfl := List.singleton_inj.mp hlast'
          rw [List.concat_eq_append]
          rcases hothers pre u post hinit hu hb with ⟨t', ht', hout⟩ | hout
          · exact ⟨t', List.mem_append_left _ ht', hout⟩
          · exact ⟨t, List.mem_append_right _ (List.mem_singleton_self t), hout⟩
    rw [hsplit]
    cases hs : t.gcc.stdout with
    | some cont =>
      rw [leaves_decodable hs]
      exact iff_of_true rfl ⟨fun _ _ _ _ _ _ => .inr (.inl (by rw [hs]; nofun)), nofun⟩
    | none =>
      rw [leaves_undecodable hs]
      cases hb : t.gcc.binary with
      | some b =>
        rw [Gcc.aout_of_binary hb]
        exact iff_of_false nofun fun h => nomatch h.2 rfl
      | none =>
        cases hunlinks : t.gcc.unlinks with
        | true =>
          have hclears : t.Clears := .inr ⟨hb, hunlinks⟩
          rw [Gcc.aout, hb, hunlinks]
          exact iff_of_true rfl ⟨fun _ _ _ _ _ _ => .inr hclears, fun _ => rfl⟩
        | false =>
          have hclears : ¬ t.Clears := by simp [Entry.Clears, hs, hunlinks]
          have hold : t.gcc.aout (lastAout ts none) = lastAout ts none := by
            rw [Gcc.aout, hb, hunlinks]
            rfl
          rw [hold]
          refine ih.trans ⟨fun h => ⟨fun pre u post hts hu hb => .inl (h pre u post hts hu hb),
            fun _ => rfl⟩, fun h pre u post hts hu hb => ?_⟩
          exact (h.1 pre u post hts hu hb).resolve_right hclears

/-- What a run finds a name for and what it leaves it as: a folder behind a run, where `file` says
what `gcc` makes of an `a.out` that is left. -/
def Folder.ran (file : β → Entry β) (folder : Folder β) : Folder β :=
  { folder with
    entries := folder.entries ++ ((lastAout folder.calls folder.aout).map file).toList
    aout := lastAout folder.calls folder.aout }

/-- A run of `brain.py` over the folders, and the cleanup. -/
def round (file : β → Entry β) (folders : List (Folder β)) : List (Folder β) :=
  folders.map fun folder => (reset (folder.ran file)).1

/-- A file with the name `a.out`. -/
def IsAout (e : Entry β) : Prop := e.name = "a.out".toList ∧ e.isDir = false

/-- The cleanup removes what the run has left. -/
theorem reset_ran {file : β → Entry β} (hfile : ∀ b, IsAout (file b)) (folder : Folder β) :
    (reset (folder.ran file)).1 = (reset folder).1 := by
  have hgone : ∀ b, (isSource (file b) || (file b).isDir) = false := by
    intro b
    rw [isSource, (hfile b).1, (hfile b).2]
    decide
  cases hleft : lastAout folder.calls folder.aout with
  | none => simp [reset, Folder.ran, hleft]
  | some b => simp [reset, Folder.ran, hleft, hgone b]

theorem round_reset {file : β → Entry β} (hfile : ∀ b, IsAout (file b))
    (folders : List (Folder β)) :
    round file (folders.map fun folder => (reset folder).1)
      = folders.map fun folder => (reset folder).1 := by
  rw [round, List.map_map]
  refine List.map_congr_left fun folder _ => ?_
  show (reset ((reset folder).1.ran file)).1 = _
  rw [reset_ran hfile, reset_reset]

/-- The entry of an `a.out`, from which `gcc` makes nothing. -/
def aoutFile (_ : Unit) : Entry Unit :=
  ⟨"a.out".toList, false, ⟨some [], none, false⟩, fun _ => some []⟩

/-- A folder whose second test borrows from the first one. -/
def borrowingFolder : Folder Unit where
  name := "mmap".toList
  entries := [undecodableTest, uncompiledTest,
    ⟨"incl.h".toList, false, ⟨some [], none, false⟩, fun _ => none⟩]
  aout := none

end UnikraftSuite
