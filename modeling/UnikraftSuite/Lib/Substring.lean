import Mathlib.Data.List.Infix

/-!
# Occurrences of a pattern inside a text

Texts are lists over any alphabet and `p <:+: s` reads "the pattern `p` occurs
in `s`". Three kinds of fact recur whenever a program searches a text that it
has glued together from pieces:

- `infix_append_sep`: a block of characters foreign to the pattern separates
  the text, so the pattern occurs on one side of the block or on the other;
- `Unbordered`: a pattern none of whose proper prefixes is also a suffix cannot
  straddle its own first occurrence (`not_infix_append_dropLast`);
- `exists_cut`: a text in which the pattern occurs has a first occurrence, given
  as a decomposition `a ++ p ++ b` in which `p` does not occur any earlier.
-/

namespace Substring

universe u

variable {α : Type u}

/-! ## Foreign blocks separate -/

/-- A pattern that occurs in a block sharing no character with it is empty. -/
theorem eq_nil_of_infix_foreign {p w : List α} (hw : ∀ c ∈ w, c ∉ p)
    (h : p <:+: w) : p = [] := by
  cases p with
  | nil => rfl
  | cons c p =>
    have hc : c ∈ w := h.subset List.mem_cons_self
    exact absurd List.mem_cons_self (hw c hc)

/-- A nonempty block `w` of characters foreign to `p` separates a text: `p`
occurs in `a ++ w ++ b` only on one side of the block. -/
theorem infix_append_sep {p w : List α} (hw : ∀ c ∈ w, c ∉ p) (hne : w ≠ [])
    (a b : List α) : p <:+: a ++ (w ++ b) ↔ p <:+: a ∨ p <:+: b := by
  constructor
  · intro h
    obtain ⟨d, w', rfl⟩ := List.exists_cons_of_ne_nil hne
    rcases List.infix_append_iff.mp h with h | h | ⟨l₁, l₂, rfl, h₁, h₂⟩
    · exact .inl h
    · -- it begins in `w` or behind it
      rcases List.infix_append_iff.mp h with h | h | ⟨l₁, l₂, rfl, h₁, h₂⟩
      · rw [eq_nil_of_infix_foreign hw h]
        exact .inl (List.nil_infix)
      · exact .inr h
      · cases l₁ with
        | nil => exact .inr h₂.isInfix
        | cons c l₁ =>
          have hc : c ∈ d :: w' := h₁.subset List.mem_cons_self
          exact absurd (List.mem_append_left l₂ List.mem_cons_self) (hw c hc)
    · cases l₂ with
      | nil =>
        rw [List.append_nil]
        exact .inl h₁.isInfix
      | cons c l₂ =>
        have hcd : c = d := (List.cons_prefix_cons.mp h₂).1
        have hmem : c ∈ l₁ ++ c :: l₂ := List.mem_append_right l₁ List.mem_cons_self
        exact absurd hmem (hw c (hcd ▸ List.mem_cons_self))
  · rintro (h | h)
    · exact h.trans (List.prefix_append a _).isInfix
    · exact h.trans ((List.suffix_append w b).trans (List.suffix_append a _)).isInfix

/-- `infix_append_sep` for a single foreign character. -/
theorem infix_append_cons {p : List α} {c : α} (hc : c ∉ p) (a b : List α) :
    p <:+: a ++ c :: b ↔ p <:+: a ∨ p <:+: b := by
  have h := infix_append_sep (p := p) (w := [c]) (by simpa using hc) (by simp) a b
  simpa using h

/-- A prefix stops before a character foreign to it. -/
theorem prefix_append_cons {p a b : List α} {c : α} (hc : c ∉ p) :
    p <+: a ++ c :: b ↔ p <+: a := by
  constructor
  · intro h
    rw [List.append_cons] at h
    rcases List.prefix_or_prefix_of_prefix h (List.prefix_append (a ++ [c]) b) with h' | h'
    · rcases List.prefix_concat_iff.mp h' with rfl | h'
      · exact absurd (by simp) hc
      · exact h'
    · exact absurd (h'.subset (by simp)) hc
  · exact fun h => h.trans (List.prefix_append a _)

/-- A text is cut in only one way at the last occurrence of a character. -/
theorem append_cons_inj_last {c : α} {a a' b b' : List α} (hb : c ∉ b) (hb' : c ∉ b')
    (h : a ++ c :: b = a' ++ c :: b') : a = a' ∧ b = b' := by
  rcases List.append_eq_append_iff.mp h with ⟨t, rfl, ht⟩ | ⟨t, rfl, ht⟩
  · cases t with
    | nil => exact ⟨(List.append_nil a).symm, (List.cons.inj ht).2⟩
    | cons d t =>
      have hmem : c ∈ t ++ c :: b' := List.mem_append_right t List.mem_cons_self
      exact absurd ((List.cons.inj ht).2 ▸ hmem) hb
  · cases t with
    | nil => exact ⟨List.append_nil a', (List.cons.inj ht).2.symm⟩
    | cons d t =>
      have hmem : c ∈ t ++ c :: b := List.mem_append_right t List.mem_cons_self
      exact absurd ((List.cons.inj ht).2 ▸ hmem) hb'

/-- A text is cut in only one way at the first occurrence of a character. -/
theorem append_cons_inj_first {c : α} {a a' b b' : List α} (ha : c ∉ a) (ha' : c ∉ a')
    (h : a ++ c :: b = a' ++ c :: b') : a = a' ∧ b = b' := by
  rcases List.append_eq_append_iff.mp h with ⟨t, rfl, ht⟩ | ⟨t, rfl, ht⟩
  · cases t with
    | nil => exact ⟨(List.append_nil a).symm, (List.cons.inj ht).2⟩
    | cons d t =>
      have hmem : d ∈ a ++ d :: t := List.mem_append_right a List.mem_cons_self
      exact absurd ((List.cons.inj ht).1 ▸ hmem) ha'
  · cases t with
    | nil => exact ⟨List.append_nil a', (List.cons.inj ht).2.symm⟩
    | cons d t =>
      have hmem : d ∈ a' ++ d :: t := List.mem_append_right a' List.mem_cons_self
      exact absurd ((List.cons.inj ht).1 ▸ hmem) ha

/-- What ends a text and does not have the character is behind the character. -/
theorem exists_of_append_eq_cons {c : α} {a b t w : List α} (hw : c ∉ w)
    (h : a ++ w = b ++ c :: t) : ∃ t', t = t' ++ w ∧ a = b ++ c :: t' := by
  rcases List.append_eq_append_iff.mp h with ⟨u, rfl, rfl⟩ | ⟨u, rfl, hu⟩
  · exact absurd (List.mem_append_right u List.mem_cons_self) hw
  · cases u with
    | nil =>
      rw [List.nil_append] at hu
      exact absurd (hu ▸ List.mem_cons_self) hw
    | cons d u =>
      obtain ⟨rfl, rfl⟩ := List.cons.inj hu
      exact ⟨u, rfl, rfl⟩

/-- When a text begins another one and has a character as often, what is behind the last
occurrence there begins what is behind the last one here. -/
theorem prefix_behind_last [DecidableEq α] {c : α} {a a' b b' : List α} (hb' : c ∉ b')
    (hcount : a'.count c ≤ a.count c) (h : a ++ c :: b <+: a' ++ c :: b') : b <+: b' := by
  obtain ⟨t, ht⟩ := h
  rw [List.append_assoc, List.cons_append] at ht
  have hlast : c ∉ b ++ t := by
    have hlen := congrArg (List.count c) ht
    simp only [List.count_append, List.count_cons_self, List.count_eq_zero.mpr hb'] at hlen
    rw [← List.count_eq_zero, List.count_append]
    omega
  exact ⟨t, (append_cons_inj_last hlast hb' ht).2⟩

/-- A suffix begins behind a character foreign to it. -/
theorem suffix_append_cons {p a b : List α} {c : α} (hc : c ∉ p) :
    p <:+ a ++ c :: b ↔ p <:+ b := by
  constructor
  · rintro ⟨u, hu⟩
    obtain ⟨t, rfl, -⟩ := exists_of_append_eq_cons hc hu
    exact List.suffix_append t p
  · exact fun h => h.trans ((List.suffix_cons c b).trans (List.suffix_append a _))

/-- Of two cuts of a text at the same character, one is in front of the other, or they are one. -/
theorem append_cons_cases {c : α} {a a' b b' : List α} (h : a ++ c :: b = a' ++ c :: b') :
    (∃ t, a' = a ++ c :: t ∧ b = t ++ c :: b') ∨ (a = a' ∧ b = b') ∨
      ∃ t, a = a' ++ c :: t ∧ b' = t ++ c :: b := by
  rcases List.append_eq_append_iff.mp h with ⟨t, rfl, ht⟩ | ⟨t, rfl, ht⟩
  · cases t with
    | nil => exact .inr (.inl ⟨(List.append_nil a).symm, (List.cons.inj ht).2⟩)
    | cons d t =>
      obtain ⟨rfl, rfl⟩ := List.cons.inj ht
      exact .inl ⟨t, rfl, rfl⟩
  · cases t with
    | nil => exact .inr (.inl ⟨List.append_nil a', (List.cons.inj ht).2.symm⟩)
    | cons d t =>
      obtain ⟨rfl, rfl⟩ := List.cons.inj ht
      exact .inr (.inr ⟨t, rfl, rfl⟩)

/-- What begins a text is in front of a character, or goes on behind it. -/
theorem prefix_append_cons_cases {c : α} {s a b : List α} (h : s <+: a ++ c :: b) :
    s <+: a ∨ ∃ t, s = a ++ c :: t ∧ t <+: b := by
  obtain ⟨r, hr⟩ := h
  rcases List.append_eq_append_iff.mp hr with ⟨t, rfl, -⟩ | ⟨t, rfl, ht⟩
  · exact .inl (List.prefix_append s t)
  · cases t with
    | nil => exact .inl (by simp)
    | cons d t =>
      obtain ⟨rfl, rfl⟩ := List.cons.inj ht
      exact .inr ⟨t, rfl, List.prefix_append t r⟩

/-- It is in front of it when it has the character no more often. -/
theorem prefix_before [DecidableEq α] {c : α} {s a b : List α} (hcount : s.count c ≤ a.count c)
    (h : s <+: a ++ c :: b) : s <+: a := by
  refine (prefix_append_cons_cases h).resolve_right ?_
  rintro ⟨t, rfl, -⟩
  rw [List.count_append, List.count_cons_self] at hcount
  omega

/-- A text with the character has a last occurrence of it. -/
theorem exists_last_cut {c : α} {s : List α} (h : c ∈ s) : ∃ a b, s = a ++ c :: b ∧ c ∉ b := by
  obtain ⟨b, a, hrev, hb⟩ := List.eq_append_cons_of_mem (List.mem_reverse.mpr h)
  refine ⟨a.reverse, b.reverse, ?_, fun hmem => hb (List.mem_reverse.mp hmem)⟩
  rw [← List.reverse_reverse s, hrev]
  simp

/-- A pattern ends at the last occurrence of its last character, or before it. -/
theorem infix_append_last {p u g : List α} {c : α} (hg : c ∉ g) :
    p ++ [c] <:+: u ++ c :: g ↔ p ++ [c] <:+: u ∨ p <:+ u := by
  constructor
  · rintro ⟨x, r, hx⟩
    by_cases hr : c ∈ r
    · obtain ⟨r₁, r₂, rfl, hr₂⟩ := exists_last_cut hr
      rw [← List.append_assoc] at hx
      exact .inl ⟨x, r₁, (append_cons_inj_last hr₂ hg hx).1⟩
    · have hassoc : x ++ (p ++ [c]) ++ r = (x ++ p) ++ c :: r := by simp
      rw [hassoc] at hx
      exact .inr ⟨x, (append_cons_inj_last hr hg hx).1⟩
  · rintro (h | ⟨x, rfl⟩)
    · exact List.infix_append_of_infix_left h
    · exact ⟨x, g, by simp⟩

/-- What does not have the last character of a pattern does not complete it. -/
theorem infix_append_of_not_mem {p u v : List α} {c : α} (hv : c ∉ v) :
    p ++ [c] <:+: u ++ v ↔ p ++ [c] <:+: u := by
  constructor
  · rintro ⟨x, r, hx⟩
    rcases List.append_eq_append_iff.mp hx with ⟨t, rfl, -⟩ | ⟨t, ht, rfl⟩
    · exact ⟨x, t, rfl⟩
    · rcases List.eq_nil_or_concat t with rfl | ⟨t, d, rfl⟩
      · rw [List.append_nil] at ht
        exact ⟨x, [], by rw [List.append_nil, ht]⟩
      · rw [List.concat_eq_append, ← List.append_assoc, ← List.append_assoc] at ht
        have hd := List.singleton_inj.mp (List.append_inj' ht rfl).2
        exact absurd (by simp [hd]) hv
  · exact List.infix_append_of_infix_left

/-! ## Unbordered patterns -/

/-- No nonempty proper prefix of `p` is also a suffix of `p`. -/
def Unbordered (p : List α) : Prop :=
  ∀ l ∈ p.inits, l ≠ [] → l <:+ p → l = p

instance [DecidableEq α] (p : List α) : Decidable (Unbordered p) :=
  inferInstanceAs (Decidable (∀ l ∈ p.inits, l ≠ [] → l <:+ p → l = p))

/-- An unbordered pattern that does not occur in `a` does not begin inside `a`
when `a` is followed by the pattern itself. -/
theorem not_infix_append_dropLast {p a : List α} (hu : Unbordered p) (ha : ¬ p <:+: a) :
    ¬ p <:+: a ++ p.dropLast := by
  intro h
  have hp : p ≠ [] := fun hp => ha (hp ▸ List.nil_infix)
  have hlen : p.dropLast.length < p.length := by
    rw [List.length_dropLast]
    exact Nat.sub_lt (List.length_pos_iff.mpr hp) Nat.one_pos
  rcases List.infix_append_iff.mp h with h | h | ⟨l₁, l₂, hl, h₁, h₂⟩
  · exact ha h
  · exact absurd h.length_le (Nat.not_le.mpr hlen)
  · cases l₂ with
    | nil =>
      rw [List.append_nil] at hl
      exact ha (hl ▸ h₁.isInfix)
    | cons c l₂ =>
      have hpre : c :: l₂ <+: p := h₂.trans (List.dropLast_prefix p)
      have hsuf : c :: l₂ <:+ p := ⟨l₁, hl.symm⟩
      have heq := hu _ ((List.mem_inits _ _).mpr hpre) (List.cons_ne_nil _ _) hsuf
      exact absurd (heq ▸ h₂.length_le) (Nat.not_le.mpr hlen)

/-! ## First occurrences -/

/-- The occurrence of `p` after `a` is the first one in `a ++ p ++ _`. -/
def FirstAt (p a : List α) : Prop := ¬ p <:+: a ++ p.dropLast

/-- For a one-character pattern the first occurrence is the one before which the
character does not occur. -/
theorem firstAt_singleton {c : α} {a : List α} : FirstAt [c] a ↔ c ∉ a := by
  show ¬ [c] <:+: a ++ [] ↔ c ∉ a
  rw [List.append_nil, List.singleton_infix_iff]

theorem FirstAt.of_unbordered {p a : List α} (hu : Unbordered p) (ha : ¬ p <:+: a) :
    FirstAt p a := not_infix_append_dropLast hu ha

theorem FirstAt.absent {p a : List α} (h : FirstAt p a) : ¬ p <:+: a :=
  fun hp => h (List.infix_append_of_infix_left hp)

/-- Nothing of the text up to the first occurrence can be matched earlier. -/
theorem FirstAt.not_begins {p a : List α} {c : α} (h : FirstAt p (c :: a)) (b : List α) :
    ¬ p <+: c :: (a ++ (p ++ b)) := by
  intro hpre
  refine h (List.IsPrefix.isInfix ?_)
  have hself : c :: a ++ p.dropLast <+: c :: (a ++ (p ++ b)) := by
    rw [List.cons_append, List.cons_prefix_cons]
    refine ⟨rfl, (List.prefix_append_right_inj a).mpr ?_⟩
    exact (List.dropLast_prefix p).trans (List.prefix_append p b)
  refine List.prefix_of_prefix_length_le hpre hself ?_
  simp only [List.length_append, List.length_cons, List.length_dropLast]
  omega

theorem FirstAt.tail {p a : List α} {c : α} (h : FirstAt p (c :: a)) : FirstAt p a :=
  fun hp => h (hp.trans (List.suffix_cons c _).isInfix)

/-- A pattern that occurs in a text has a first occurrence. -/
theorem exists_cut {p : List α} (hp : p ≠ []) :
    ∀ {s : List α}, p <:+: s → ∃ a b, s = a ++ (p ++ b) ∧ FirstAt p a
  | [], h => absurd (List.infix_nil.mp h) hp
  | c :: s, h => by
    by_cases hpre : p <+: c :: s
    · obtain ⟨b, hb⟩ := hpre
      refine ⟨[], b, hb.symm, fun hd => ?_⟩
      have hlen := hd.length_le
      have hpos := List.length_pos_iff.mpr hp
      simp only [List.nil_append, List.length_dropLast] at hlen
      omega
    · have hs : p <:+: s := (List.infix_cons_iff.mp h).resolve_left hpre
      obtain ⟨a, b, rfl, ha⟩ := exists_cut hp hs
      refine ⟨c :: a, b, rfl, fun hd => ?_⟩
      rcases List.infix_cons_iff.mp hd with hd | hd
      · refine hpre (hd.trans ?_)
        exact List.cons_prefix_cons.mpr ⟨rfl, (List.prefix_append_right_inj a).mpr
          ((List.dropLast_prefix p).trans (List.prefix_append p b))⟩
      · exact ha hd

/-! ## Patterns of two characters -/

/-- A pattern of two characters is in one of two texts, or it is where they meet. -/
theorem pair_infix_append {c d : α} {a b : List α} (h : [c, d] <:+: a ++ b) :
    [c, d] <:+: a ∨ [c, d] <:+: b ∨ [c] <:+ a := by
  rcases List.infix_append_iff.mp h with h | h | ⟨l, m, hcut, hl, hm⟩
  · exact .inl h
  · exact .inr (.inl h)
  · rcases l with _ | ⟨c', _ | ⟨d', l⟩⟩
    · exact .inr (.inl (hcut ▸ hm.isInfix))
    · rw [(List.cons.inj hcut).1]
      exact .inr (.inr hl)
    · have hnil := (List.append_eq_nil_iff.mp (List.cons.inj (List.cons.inj hcut).2).2.symm).1
      rw [hnil, ← (List.cons.inj hcut).1, ← (List.cons.inj (List.cons.inj hcut).2).1] at hl
      exact .inl hl.isInfix

/-- It is not made where pieces meet, as long as no piece but the last ends with its first
character. -/
theorem not_pair_infix_flatten {c d : α} : ∀ {pieces : List (List α)},
    (∀ x ∈ pieces, ¬ [c, d] <:+: x) → (∀ x ∈ pieces.dropLast, ¬ [c] <:+ x) →
      ¬ [c, d] <:+: pieces.flatten
  | [], _, _ => by simp
  | [x], h, _ => by simpa using h
  | x :: y :: pieces, h, hend => by
    rw [List.forall_mem_cons] at h
    rw [List.dropLast_cons_cons, List.forall_mem_cons] at hend
    intro hin
    rcases pair_infix_append hin with hin | hin | hsuf
    · exact h.1 hin
    · exact not_pair_infix_flatten h.2 hend.2 hin
    · exact hend.1 hsuf

end Substring
