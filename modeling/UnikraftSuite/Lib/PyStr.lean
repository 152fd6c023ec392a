import UnikraftSuite.Lib.Substring
import Mathlib.Data.List.Basic
import Mathlib.Algebra.BigOperators.Group.List.Basic

/-!
# Python's string operations on lists of characters

The operations of `str` that scripts use to take texts apart and glue them back
together: `split`, `find`, slices, `lower`, `str(int)` and `int(str)`.

`split` and `find` come in a keyed form (`splitBy κ`, `findBy κ`): the text is a
list over any type `α`, and the separator is compared with what `κ : α → β` reads
off it. With `κ = id` this is the plain operation. With `κ = Prod.fst` it
is the same operation on characters that carry a tag, and `map_splitBy` and
`findBy_eq` say that forgetting the tags commutes with it.

The main rule is `split_cut`: at a first occurrence of the separator a split
yields the text before it and goes on after it. Together with
`split_of_absent` and `exists_cut` it determines the result of every split.
-/

namespace PyStr

open Substring

universe u v

/-- A text, as a list of characters. -/
abbrev Text := List Char

instance : LawfulBEq Text := inferInstanceAs (LawfulBEq (List Char))

variable {α : Type u} {β : Type v} [DecidableEq β]

/-! ## `s.split(sep)` -/

/-- The scanner behind `splitBy`. The counter is the number of characters of a
separator already matched that are still to be passed over. -/
def splitFrom (κ : α → β) (sep : List β) : Nat → List α → List (List α)
  | _, [] => [[]]
  | skip + 1, _ :: s => splitFrom κ sep skip s
  | 0, c :: s =>
    if sep <+: (c :: s).map κ then [] :: splitFrom κ sep (sep.length - 1) s
    else (splitFrom κ sep 0 s).modifyHead (c :: ·)

/-- `s.split(sep)` for a nonempty separator, with the characters of `s` read
through `κ`. -/
def splitBy (κ : α → β) (sep : List β) (s : List α) : List (List α) :=
  splitFrom κ sep 0 s

/-- Python's `s.split(sep)`: the pieces of `s` between the occurrences of `sep`,
found from the left and without overlap. -/
def split (sep s : List β) : List (List β) := splitBy id sep s

theorem splitFrom_skip (κ : α → β) (sep : List β) :
    ∀ (w s : List α), splitFrom κ sep w.length (w ++ s) = splitFrom κ sep 0 s
  | [], _ => rfl
  | _ :: w, s => splitFrom_skip κ sep w s

theorem splitFrom_ne_nil (κ : α → β) (sep : List β) :
    ∀ (skip : Nat) (s : List α), splitFrom κ sep skip s ≠ []
  | 0, [] => List.cons_ne_nil _ _
  | _ + 1, [] => List.cons_ne_nil _ _
  | skip + 1, _ :: s => splitFrom_ne_nil κ sep skip s
  | 0, c :: s => by
    rw [splitFrom]
    split
    · exact List.cons_ne_nil _ _
    · obtain ⟨x, xs, hx⟩ := List.exists_cons_of_ne_nil (splitFrom_ne_nil κ sep 0 s)
      rw [hx]
      exact List.cons_ne_nil _ _

theorem splitBy_ne_nil (κ : α → β) (sep : List β) (s : List α) : splitBy κ sep s ≠ [] :=
  splitFrom_ne_nil κ sep 0 s

theorem split_ne_nil (sep s : List β) : split sep s ≠ [] := splitBy_ne_nil id sep s

@[simp] theorem split_nil (sep : List β) : split sep [] = [[]] := rfl

/-- **Cutting at a first occurrence**: `w` reads as the separator and nothing
before it does, so the split yields `a` and goes on after `w`. -/
theorem splitBy_cut {κ : α → β} {sep : List β} (hsep : sep ≠ []) :
    ∀ {a w b : List α}, w.map κ = sep → FirstAt sep (a.map κ) →
      splitBy κ sep (a ++ (w ++ b)) = a :: splitBy κ sep b
  | [], w, b, hw, _ => by
    cases w with
    | nil => exact absurd hw.symm hsep
    | cons d w =>
      have hpre : sep <+: (d :: (w ++ b)).map κ := by
        rw [← List.cons_append, List.map_append, hw]
        exact List.prefix_append _ _
      have hlen : sep.length - 1 = w.length := by
        rw [← hw, List.length_map]
        rfl
      -- the separator is here: its other characters are skipped
      show splitFrom κ sep 0 (d :: (w ++ b)) = [] :: splitFrom κ sep 0 b
      rw [splitFrom, if_pos hpre, hlen, splitFrom_skip]
  | c :: a, w, b, hw, h => by
    have hpre : ¬ sep <+: (c :: (a ++ (w ++ b))).map κ := by
      rw [List.map_cons, List.map_append, List.map_append, hw]
      exact FirstAt.not_begins h _
    have ih : splitFrom κ sep 0 (a ++ (w ++ b)) = a :: splitFrom κ sep 0 b :=
      splitBy_cut hsep hw (FirstAt.tail h)
    show splitFrom κ sep 0 (c :: (a ++ (w ++ b))) = _
    rw [splitFrom, if_neg hpre, ih]
    rfl

/-- A text in which the separator does not occur is a single piece. -/
theorem splitBy_of_absent {κ : α → β} {sep : List β} :
    ∀ {s : List α}, ¬ sep <:+: s.map κ → splitBy κ sep s = [s]
  | [], _ => rfl
  | c :: s, h => by
    have hpre : ¬ sep <+: (c :: s).map κ := fun hp => h hp.isInfix
    have ih : splitFrom κ sep 0 s = [s] :=
      splitBy_of_absent fun hs => h (hs.trans (List.suffix_cons _ _).isInfix)
    show splitFrom κ sep 0 (c :: s) = _
    rw [splitFrom, if_neg hpre, ih]
    rfl

theorem split_cut {sep a : List β} (hsep : sep ≠ []) (h : FirstAt sep a) (b : List β) :
    split sep (a ++ (sep ++ b)) = a :: split sep b :=
  splitBy_cut hsep (List.map_id sep) (by rwa [List.map_id])

theorem split_of_absent {sep s : List β} (h : ¬ sep <:+: s) : split sep s = [s] :=
  splitBy_of_absent (by rwa [List.map_id])

/-- `split_cut` for a one-character separator. -/
theorem split_char_cut {c : β} {a : List β} (h : c ∉ a) (b : List β) :
    split [c] (a ++ c :: b) = a :: split [c] b :=
  split_cut (List.cons_ne_nil _ _) (firstAt_singleton.mpr h) b

theorem split_char_of_not_mem {c : β} {s : List β} (h : c ∉ s) : split [c] s = [s] :=
  split_of_absent (by rwa [List.singleton_infix_iff])

/-- Induction along the cuts of a split: a text is either free of the separator,
or a first occurrence followed by a shorter text. -/
theorem split_induction {sep : List β} (hsep : sep ≠ []) {motive : List β → Prop}
    (last : ∀ s, ¬ sep <:+: s → motive s)
    (cut : ∀ a b, FirstAt sep a → motive b → motive (a ++ (sep ++ b))) :
    ∀ s, motive s := by
  intro s
  induction hn : s.length using Nat.strongRecOn generalizing s with
  | ind n ih =>
    by_cases h : sep <:+: s
    · obtain ⟨a, b, rfl, ha⟩ := exists_cut hsep h
      refine cut a b ha (ih b.length ?_ b rfl)
      have hpos := List.length_pos_iff.mpr hsep
      simp only [List.length_append] at hn
      omega
    · exact last s h

/-- Joining the pieces of a split restores the text. -/
theorem intercalate_split {sep : List β} (hsep : sep ≠ []) (s : List β) :
    sep.intercalate (split sep s) = s := by
  induction s using split_induction hsep with
  | last s h =>
    rw [split_of_absent h]
    simp [List.intercalate]
  | cut a b ha ih =>
    obtain ⟨x, xs, hx⟩ := List.exists_cons_of_ne_nil (split_ne_nil sep b)
    rw [split_cut hsep ha, hx]
    rw [hx] at ih
    simp only [List.intercalate, List.intersperse_cons_cons, List.flatten_cons] at ih ⊢
    rw [ih]

/-- Joining texts without the character and splitting there again. -/
theorem split_char_intercalate {c : β} : ∀ {l : List (List β)}, l ≠ [] → (∀ x ∈ l, c ∉ x) →
    split [c] ([c].intercalate l) = l
  | [], h, _ => absurd rfl h
  | [x], _, h => by
    rw [List.intercalate_singleton]
    exact split_char_of_not_mem (h x List.mem_cons_self)
  | x :: y :: l, _, h => by
    obtain ⟨hx, hl⟩ := List.forall_mem_cons.mp h
    have hcons : [c].intercalate (x :: y :: l) = x ++ c :: [c].intercalate (y :: l) := by
      simp [List.intercalate]
    rw [hcons, split_char_cut hx, split_char_intercalate (List.cons_ne_nil y l) hl]

/-- The separator occurs in no piece of a split. -/
theorem not_infix_of_mem_split {sep : List β} (hsep : sep ≠ []) {s x : List β}
    (hx : x ∈ split sep s) : ¬ sep <:+: x := by
  induction s using split_induction hsep with
  | last s h =>
    rw [split_of_absent h, List.mem_singleton] at hx
    exact hx ▸ h
  | cut a b ha ih =>
    rw [split_cut hsep ha] at hx
    rcases List.mem_cons.mp hx with rfl | hx
    · exact ha.absent
    · exact ih hx

/-- The pieces of a split occur in the text. -/
theorem infix_of_mem_split {sep : List β} (hsep : sep ≠ []) {s x : List β}
    (hx : x ∈ split sep s) : x <:+: s := by
  induction s using split_induction hsep with
  | last s h =>
    rw [split_of_absent h, List.mem_singleton] at hx
    exact hx ▸ List.infix_refl s
  | cut a b ha ih =>
    rw [split_cut hsep ha] at hx
    rcases List.mem_cons.mp hx with rfl | hx
    · exact (List.prefix_append x _).isInfix
    · exact (ih hx).trans ((List.suffix_append sep b).trans (List.suffix_append a _)).isInfix

/-- Each of them but the last is there with the separator behind it. -/
theorem append_infix_of_mem_dropLast_split {sep : List β} (hsep : sep ≠ []) {s x : List β}
    (hx : x ∈ (split sep s).dropLast) : x ++ sep <:+: s := by
  induction s using split_induction hsep with
  | last s h =>
    rw [split_of_absent h] at hx
    cases hx
  | cut a b ha ih =>
    rw [split_cut hsep ha, List.dropLast_cons_of_ne_nil (split_ne_nil sep b)] at hx
    rw [← List.append_assoc]
    rcases List.mem_cons.mp hx with rfl | hx
    · exact (List.prefix_append _ b).isInfix
    · exact (ih hx).trans (List.suffix_append _ b).isInfix

/-- What is not in the separator is in the pieces. -/
theorem exists_mem_split {sep : List β} (hsep : sep ≠ []) {c : β} (hc : c ∉ sep) {s : List β}
    (h : c ∈ s) : ∃ x ∈ split sep s, c ∈ x := by
  induction s using split_induction hsep with
  | last s hs => exact ⟨s, by rw [split_of_absent hs]; exact List.mem_singleton_self s, h⟩
  | cut a b ha ih =>
    rw [split_cut hsep ha]
    rcases List.mem_append.mp h with h | h
    · exact ⟨a, List.mem_cons_self, h⟩
    · obtain ⟨x, hx, hmem⟩ := ih ((List.mem_append.mp h).resolve_left hc)
      exact ⟨x, List.mem_cons_of_mem a hx, hmem⟩

/-- A text in which no separator begins only makes the first piece longer. -/
theorem split_append {sep t : List β} : ∀ {u : List β},
    (∀ u', u' <:+ u → u' ≠ [] → ¬ sep <+: u' ++ t) →
    split sep (u ++ t) = (split sep t).modifyHead (u ++ ·)
  | [], _ => by
    obtain ⟨x, xs, hx⟩ := List.exists_cons_of_ne_nil (split_ne_nil sep t)
    rw [List.nil_append, hx]
    rfl
  | c :: u, h => by
    have hc : ¬ sep <+: (c :: (u ++ t)).map id := by
      rw [List.map_id]
      exact h (c :: u) (List.suffix_refl _) (List.cons_ne_nil c u)
    have ih : split sep (u ++ t) = (split sep t).modifyHead (u ++ ·) :=
      split_append fun u' hu' hne => h u' (hu'.trans (List.suffix_cons c u)) hne
    show splitFrom id sep 0 (c :: (u ++ t)) = _
    rw [splitFrom, if_neg hc]
    show (split sep (u ++ t)).modifyHead (c :: ·) = _
    obtain ⟨x, xs, hx⟩ := List.exists_cons_of_ne_nil (split_ne_nil sep t)
    rw [ih, hx]
    rfl

/-- A split with two pieces or more was cut at the first separator. -/
theorem cut_of_split {sep s a b : List β} {bs : List (List β)} (hsep : sep ≠ [])
    (h : split sep s = a :: b :: bs) :
    ∃ r, s = a ++ (sep ++ r) ∧ FirstAt sep a ∧ split sep r = b :: bs := by
  by_cases hin : sep <:+: s
  · obtain ⟨a', r, rfl, ha'⟩ := exists_cut hsep hin
    rw [split_cut hsep ha'] at h
    obtain ⟨rfl, hr⟩ := List.cons.inj h
    exact ⟨r, rfl, ha', hr⟩
  · rw [split_of_absent hin] at h
    cases h

/-- Where an unbordered text occurs once, there is one way to cut there. -/
theorem only_occurrence {p a n b m : List β} (hp : p ≠ []) (hu : Unbordered p)
    (ha : ¬ p <:+: a) (hn : ¬ p <:+: n) (h : a ++ (p ++ n) = b ++ (p ++ m)) : b = a ∧ m = n := by
  have hsplit := split_cut hp (.of_unbordered hu ha) n
  rw [split_of_absent hn, h] at hsplit
  have hb : ¬ p <:+: b := by
    intro hin
    obtain ⟨b₁, b₂, rfl, hfirst⟩ := exists_cut hp hin
    obtain ⟨c, d, hcd, hfirst'⟩ := exists_cut (s := b₂ ++ (p ++ m)) hp ⟨b₂, m, by simp⟩
    rw [List.append_assoc, List.append_assoc, split_cut hp hfirst, hcd, split_cut hp hfirst']
      at hsplit
    exact split_ne_nil p d (List.cons.inj (List.cons.inj hsplit).2).2
  rw [split_cut hp (.of_unbordered hu hb)] at hsplit
  obtain rfl := (List.cons.inj hsplit).1
  exact ⟨rfl, (List.append_cancel_left (List.append_cancel_left h)).symm⟩

/-- The first piece of a split begins the text. -/
theorem prefix_of_split {sep s a : List β} {as : List (List β)} (hsep : sep ≠ [])
    (h : split sep s = a :: as) : a <+: s := by
  cases as with
  | nil =>
    have hjoin := intercalate_split hsep s
    rw [h] at hjoin
    exact ⟨[], by simpa using hjoin⟩
  | cons b bs =>
    obtain ⟨r, rfl, -, -⟩ := cut_of_split hsep h
    exact List.prefix_append a _

/-- A character foreign to the separator joins the last piece before it to the first
piece after it. -/
theorem split_append_cons {sep : List β} (hsep : sep ≠ []) {c : β} (hc : c ∉ sep)
    (s t : List β) :
    split sep (s ++ c :: t)
      = (split sep s).dropLast
        ++ ((split sep s).getLastD [] ++ c :: (split sep t).headD []) :: (split sep t).tail := by
  induction s using split_induction hsep with
  -- the piece that goes over the foreign character is the last of `s` and the first of `t`
  | last s h =>
    rw [split_of_absent h]
    show split sep (s ++ c :: t) = (s ++ c :: (split sep t).headD []) :: (split sep t).tail
    induction t using split_induction hsep with
    | last t ht =>
      rw [split_of_absent ht, split_of_absent fun hst => ?_]
      · rfl
      · exact ((infix_append_cons hc s t).mp hst).elim h ht
    | cut a b ha ih =>
      have hfirst : FirstAt sep (s ++ c :: a) := by
        intro hst
        rw [List.append_assoc, List.cons_append] at hst
        exact ((infix_append_cons hc s _).mp hst).elim h ha
      have hassoc : s ++ c :: (a ++ (sep ++ b)) = (s ++ c :: a) ++ (sep ++ b) := by simp
      rw [hassoc, split_cut hsep hfirst, split_cut hsep ha]
      rfl
  | cut a b ha ih =>
    obtain ⟨x, xs, hx⟩ := List.exists_cons_of_ne_nil (split_ne_nil sep b)
    have hassoc : a ++ (sep ++ b) ++ c :: t = a ++ (sep ++ (b ++ c :: t)) := by simp
    rw [hassoc, split_cut hsep ha, split_cut hsep ha, ih, hx]
    rfl

/-- Forgetting the tags of a split is the split of the text without tags. -/
theorem map_splitFrom (κ : α → β) (sep : List β) :
    ∀ (skip : Nat) (s : List α),
      (splitFrom κ sep skip s).map (List.map κ) = splitFrom id sep skip (s.map κ)
  | 0, [] => rfl
  | _ + 1, [] => rfl
  | skip + 1, _ :: s => map_splitFrom κ sep skip s
  | 0, c :: s => by
    have ih := map_splitFrom κ sep 0 s
    show List.map (List.map κ) (splitFrom κ sep 0 (c :: s))
      = splitFrom id sep 0 (κ c :: s.map κ)
    by_cases hpre : sep <+: (c :: s).map κ
    · rw [splitFrom, if_pos hpre, splitFrom, if_pos (by simpa using hpre),
        List.map_cons, map_splitFrom κ sep _ s]
      rfl
    · rw [splitFrom, if_neg hpre, splitFrom, if_neg (by simpa using hpre), ← ih]
      obtain ⟨x, xs, hx⟩ := List.exists_cons_of_ne_nil (splitFrom_ne_nil κ sep 0 s)
      rw [hx]
      rfl

theorem map_splitBy (κ : α → β) (sep : List β) (s : List α) :
    (splitBy κ sep s).map (List.map κ) = split sep (s.map κ) :=
  map_splitFrom κ sep 0 s

/-- The pieces of a split are parts of the text, in order. -/
theorem sublist_of_mem_splitFrom {κ : α → β} {sep : List β} :
    ∀ {skip : Nat} {s x : List α}, x ∈ splitFrom κ sep skip s → x.Sublist s
  | 0, [], _, h => by rw [List.mem_singleton.mp h]
  | _ + 1, [], _, h => by rw [List.mem_singleton.mp h]
  | skip + 1, c :: s, x, h => by
    have hx : x ∈ splitFrom κ sep skip s := h
    exact (sublist_of_mem_splitFrom hx).cons c
  | 0, c :: s, x, h => by
    rw [splitFrom] at h
    split at h
    · rcases List.mem_cons.mp h with rfl | h
      · exact List.nil_sublist _
      · exact (sublist_of_mem_splitFrom h).cons c
    · obtain ⟨y, ys, hy⟩ := List.exists_cons_of_ne_nil (splitFrom_ne_nil κ sep 0 s)
      have hsub : ∀ z ∈ y :: ys, z.Sublist s := fun z hz =>
        sublist_of_mem_splitFrom (hy ▸ hz)
      rw [hy, List.modifyHead_cons] at h
      rcases List.mem_cons.mp h with rfl | h
      · exact (hsub y List.mem_cons_self).cons_cons c
      · exact (hsub x (List.mem_cons_of_mem _ h)).cons c

theorem sublist_of_mem_splitBy {κ : α → β} {sep : List β} {s x : List α}
    (h : x ∈ splitBy κ sep s) : x.Sublist s := sublist_of_mem_splitFrom h

/-! ## `s.find(sub)` and slices -/

/-- `s.find(sub)`, with the characters of `s` read through `κ`: the index of the
first occurrence, or `-1`. -/
def findBy (κ : α → β) (sub : List β) : List α → Int
  | [] => if sub = [] then 0 else -1
  | c :: s =>
    if sub <+: (c :: s).map κ then 0
    else if findBy κ sub s < 0 then -1 else findBy κ sub s + 1

/-- Python's `s.find(sub)`. -/
def find (s sub : List β) : Int := findBy id sub s

/-- Python's `s[:k]`; a negative `k` counts from the end. -/
def sliceTo (s : List α) (k : Int) : List α :=
  s.take (if k < 0 then s.length + k else k).toNat

/-- Python's `s[k:]`; a negative `k` counts from the end. -/
def sliceFrom (s : List α) (k : Int) : List α :=
  s.drop (if k < 0 then s.length + k else k).toNat

@[simp] theorem sliceTo_ofNat (s : List α) (n : Nat) : sliceTo s (n : Int) = s.take n := by
  rw [sliceTo, if_neg (by omega), Int.toNat_natCast]

@[simp] theorem sliceFrom_ofNat (s : List α) (n : Nat) : sliceFrom s (n : Int) = s.drop n := by
  rw [sliceFrom, if_neg (by omega), Int.toNat_natCast]

/-- `s[:-1]` drops the last character. -/
theorem sliceTo_neg_one (s : List α) : sliceTo s (-1) = s.dropLast := by
  rw [sliceTo, if_pos (by omega), List.dropLast_eq_take]
  congr 1
  omega

omit [DecidableEq β] in
theorem map_sliceTo (κ : α → β) (s : List α) (k : Int) :
    (sliceTo s k).map κ = sliceTo (s.map κ) k := by
  rw [sliceTo, sliceTo, List.map_take, List.length_map]

omit [DecidableEq β] in
theorem map_sliceFrom (κ : α → β) (s : List α) (k : Int) :
    (sliceFrom s k).map κ = sliceFrom (s.map κ) k := by
  rw [sliceFrom, sliceFrom, List.map_drop, List.length_map]

/-- The first occurrence is found where it is. -/
theorem findBy_cut {κ : α → β} {sub : List β} (hsub : sub ≠ []) :
    ∀ {a w b : List α}, w.map κ = sub → FirstAt sub (a.map κ) →
      findBy κ sub (a ++ (w ++ b)) = a.length
  | [], w, b, hw, _ => by
    cases w with
    | nil => exact absurd hw.symm hsub
    | cons d w =>
      have hpre : sub <+: (d :: (w ++ b)).map κ := by
        rw [← List.cons_append, List.map_append, hw]
        exact List.prefix_append _ _
      show findBy κ sub (d :: (w ++ b)) = 0
      rw [findBy, if_pos hpre]
  | c :: a, w, b, hw, h => by
    have hpre : ¬ sub <+: (c :: (a ++ (w ++ b))).map κ := by
      rw [List.map_cons, List.map_append, List.map_append, hw]
      exact FirstAt.not_begins h _
    show findBy κ sub (c :: (a ++ (w ++ b))) = ((a.length + 1 : Nat) : Int)
    rw [findBy, if_neg hpre, findBy_cut hsub hw (FirstAt.tail h), if_neg (by omega)]
    rfl

/-- Searching a tagged text is searching the text without its tags. -/
theorem findBy_eq (κ : α → β) (sub : List β) :
    ∀ s : List α, findBy κ sub s = find (s.map κ) sub
  | [] => rfl
  | c :: s => by
    show findBy κ sub (c :: s) = findBy id sub (κ c :: s.map κ)
    rw [findBy, findBy, findBy_eq κ sub s]
    simp only [List.map_cons, List.map_id_fun, id_eq]
    rfl

/-! ## Letter case -/

/-- `s.lower()` where `s` has no letters but those of ASCII; Python lowers all others as well. -/
def lower (s : Text) : Text := s.map Char.toLower

/-- A character that is no lower-case letter comes from itself. -/
theorem eq_of_toLower_eq {c d : Char} (hd : ¬ (97 ≤ d.toNat ∧ d.toNat ≤ 122))
    (h : c.toLower = d) : c = d := by
  unfold Char.toLower at h
  split at h
  · rename_i hup
    have hval := congrArg Char.toNat h
    have hge : 65 ≤ c.toNat := UInt32.le_iff_toNat_le.mp hup.1
    have hle : c.toNat ≤ 90 := UInt32.le_iff_toNat_le.mp hup.2
    have hsum : (c.toNat + 32) % 4294967296 = d.toNat := hval
    omega
  · exact h

theorem mem_of_mem_lower {d : Char} (hd : ¬ (97 ≤ d.toNat ∧ d.toNat ≤ 122)) {s : Text}
    (h : d ∈ lower s) : d ∈ s := by
  obtain ⟨c, hc, heq⟩ := List.mem_map.mp h
  exact eq_of_toLower_eq hd heq ▸ hc

/-- There are no capitals in a lowered text. -/
theorem not_mem_lower_of_isUpper {d : Char} (hd : d.isUpper) (s : Text) : d ∉ lower s := by
  intro h
  obtain ⟨c, -, heq⟩ := List.mem_map.mp h
  have hd' : 65 ≤ d.toNat ∧ d.toNat ≤ 90 := by
    have hval : decide (65 ≤ d.val ∧ d.val ≤ 90) = true := hd
    rw [decide_eq_true_iff] at hval
    exact ⟨UInt32.le_iff_toNat_le.mp hval.1, UInt32.le_iff_toNat_le.mp hval.2⟩
  unfold Char.toLower at heq
  split at heq
  · rename_i hup
    have hge : 65 ≤ c.toNat := UInt32.le_iff_toNat_le.mp hup.1
    have hle : c.toNat ≤ 90 := UInt32.le_iff_toNat_le.mp hup.2
    have hsum : (c.toNat + 32) % 4294967296 = d.toNat := congrArg Char.toNat heq
    omega
  · rename_i hup
    rw [heq] at hup
    exact hup ⟨UInt32.le_iff_toNat_le.mpr hd'.1, UInt32.le_iff_toNat_le.mpr hd'.2⟩

/-- A character that is no letter is neither lost nor made. -/
theorem count_lower {d : Char} (hd : ¬ (97 ≤ d.toNat ∧ d.toNat ≤ 122)) (hsame : d.toLower = d)
    (s : Text) : (lower s).count d = s.count d := by
  induction s with
  | nil => rfl
  | cons c s ih =>
    have hiff : c.toLower = d ↔ c = d :=
      ⟨eq_of_toLower_eq hd, fun h => by rw [h, hsame]⟩
    show (c.toLower :: lower s).count d = (c :: s).count d
    rw [List.count_cons, List.count_cons, ih]
    by_cases h : c = d
    · rw [if_pos (beq_iff_eq.mpr h), if_pos (beq_iff_eq.mpr (hiff.mpr h))]
    · rw [if_neg (by simpa using mt hiff.mp h), if_neg (by simpa using h)]

@[simp] theorem length_lower (s : Text) : (lower s).length = s.length := List.length_map _

end PyStr
