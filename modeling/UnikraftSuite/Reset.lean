import UnikraftSuite.BrainTheory

/-!
# `reset.py` and the conservation of tests

`reset.py` removes from every system-call folder what compiling and running left
there: each file whose name contains neither `.c` nor `.h`. `brain.py` then counts
the folder, and the counts should add up to the number of C programs in it.

The two scripts classify names by different substring tests, and the shortcut for
unfinished folders counts `len(fcont)`, headers included. `conserves_iff` says
for which contents of a folder the counts are right.
-/

namespace UnikraftSuite

open PyStr

variable {β : Type}

/-! ## `reset.py` -/

/-- `"../independent tests/syscalls/" + folder + "/" + file`. -/
def resetPath (folder : Folder β) (e : Entry β) : Text :=
  "../independent tests/syscalls/".toList ++ folder.name ++ "/".toList ++ e.name

/-- `".c" in file or ".h" in file`. -/
def isSource (e : Entry β) : Bool :=
  ".c".toList <:+: e.name || ".h".toList <:+: e.name

/-- The cleanup of one folder, and the paths it prints. `os.remove` raises on a
directory; the path is printed and the directory stays. -/
def reset (folder : Folder β) : Folder β × List Text :=
  ({ folder with
      entries := folder.entries.filter fun e => isSource e || e.isDir
      aout := none },
    (folder.entries.filter fun e => !isSource e && e.isDir).map (resetPath folder))

/-- After the cleanup, what is neither a source nor a header is a directory, and its
path was printed. -/
theorem reset_printed (folder : Folder β) {e : Entry β} (he : e ∈ (reset folder).1.entries)
    (hs : isSource e = false) : e.isDir ∧ resetPath folder e ∈ (reset folder).2 := by
  obtain ⟨hmem, hkeep⟩ := List.mem_filter.mp he
  have hdir : e.isDir := by simpa [hs] using hkeep
  exact ⟨hdir, List.mem_map_of_mem (List.mem_filter.mpr ⟨hmem, by simp [hs, hdir]⟩)⟩

/-- Cleaning twice is cleaning once. -/
theorem reset_reset (folder : Folder β) : (reset (reset folder).1).1 = (reset folder).1 := by
  simp [reset]

/-! ## Conservation -/

/-- A C test program: a file whose name ends in `.c`. -/
def isCProgram (e : Entry β) : Bool := !e.isDir && decide (".c".toList <:+ e.name)

/-- After the cleanup, `brain.py`'s turn for the folder adds as many counts as there
are C programs in it, and the entries it counts are these programs. -/
def Conserves (folder : Folder β) : Prop :=
  (∀ (i : Nat) (st : BrainState β), st.InRange i → ∃ c w,
    countFolder i st (reset folder).1 = .ok (st.add i c w) ∧
    c.total = ((reset folder).1.entries.filter isCProgram).length) ∧
  (reset folder).1.counted = (reset folder).1.entries.filter isCProgram

/-- The contents of a folder, after the cleanup, for which counting by name is
counting C programs: in an unfinished folder there is nothing but C programs, and
in the others a name contains `.h` exactly when it is not a C program's. -/
def CountsPrograms (folder : Folder β) : Prop :=
  ∀ e ∈ (reset folder).1.entries,
    if (reset folder).1.unfinished then isCProgram e
    else (".h".toList <:+: e.name ↔ isCProgram e = false)

theorem filter_eq_filter_iff {α : Type} {p q : α → Bool} {l : List α} :
    l.filter p = l.filter q ↔ ∀ a ∈ l, p a = q a := by
  constructor
  · intro h a ha
    have hmem : a ∈ l.filter p ↔ a ∈ l.filter q := by rw [h]
    rw [List.mem_filter, List.mem_filter, and_iff_right ha, and_iff_right ha] at hmem
    exact Bool.eq_iff_iff.mpr hmem
  · exact List.filter_congr

/-- The counted entries are the C programs exactly under `CountsPrograms`. -/
theorem counted_eq_iff (folder : Folder β) :
    (reset folder).1.counted = (reset folder).1.entries.filter isCProgram
      ↔ CountsPrograms folder := by
  unfold CountsPrograms
  by_cases h : (reset folder).1.unfinished
  · rw [Folder.counted, if_pos h, eq_comm, List.filter_eq_self]
    simp only [if_pos h]
  · rw [Folder.counted, if_neg h, filter_eq_filter_iff]
    simp only [if_neg h]
    refine forall₂_congr fun e _ => ?_
    by_cases hh : ".h".toList <:+: e.name
    · rw [isTest_eq_false_iff.mpr hh, eq_comm]
      exact ⟨fun h => iff_of_true hh h, fun h => h.mp hh⟩
    · rw [isTest_iff.mpr hh]
      cases hc : isCProgram e with
      | false => exact iff_of_false Bool.noConfusion fun h => hh (h.mpr rfl)
      | true => exact iff_of_true rfl (iff_of_false hh Bool.noConfusion)

/-- **Conservation of tests**: the counts of a cleaned folder are those of its C
programs if and only if the names in it satisfy `CountsPrograms`. -/
theorem conserves_iff (folder : Folder β) : Conserves folder ↔ CountsPrograms folder := by
  rw [← counted_eq_iff]
  constructor
  · exact And.right
  · intro h
    refine ⟨fun i st hi => ?_, h⟩
    refine ⟨_, _, countFolder_eq hi (reset folder).1, ?_⟩
    rw [total_folderCounts, h]

/-- A folder with one C program and its own header, but no `incl.h`. -/
def headerFolder : Folder Unit where
  name := "brk".toList
  entries := [⟨"brk01.c".toList, false, ⟨some [], some (), false⟩, fun _ => some []⟩,
    ⟨"brk.h".toList, false, ⟨some [], none, false⟩, fun _ => some []⟩]
  aout := none

/-- The shortcut for unfinished folders counts the header: two broken tests where
there is one program. -/
theorem not_conserves_headerFolder :
    ¬ Conserves headerFolder ∧ folderCounts (reset headerFolder).1 = ⟨0, 0, 2⟩ ∧
      ((reset headerFolder).1.entries.filter isCProgram).length = 1 := by
  refine ⟨fun h => ?_, by decide, by decide⟩
  have hlen := congrArg List.length h.2
  exact absurd hlen (by decide)

end UnikraftSuite
