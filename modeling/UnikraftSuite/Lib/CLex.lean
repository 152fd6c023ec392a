import Mathlib.Data.List.Infix

/-!
# Comments and literals of a C text

What a C compiler takes for a comment, character by character: a machine with one
character of lookahead gives every character a `Kind` (`kinds`), and `strip` keeps the
characters that are not part of a comment. Comment markers inside string and character
literals are not comments; a literal ends at the line break at the latest, and a block
comment that is not closed goes on to the end.

Up to its first comment marker a text is kept as it is (`kindsFrom_unmarked`), and in a
line comment nothing is kept up to the line break (`kindsFrom_line`).
-/

namespace CLex

/-- Where the machine is. -/
inductive Mode where
  | code
  | str
  | strEsc
  | chr
  | chrEsc
  | line
  | opening
  | block
  | star
deriving DecidableEq

/-- What a character belongs to. -/
inductive Kind where
  | code
  | literal
  | comment
deriving DecidableEq

/-- One step: the kind of the character `c`, given the character after it. -/
def step : Mode → Char → Option Char → Kind × Mode
  | .code, c, next =>
    if c = '/' ∧ next = some '*' then (.comment, .opening)
    else if c = '/' ∧ next = some '/' then (.comment, .line)
    else if c = '"' then (.literal, .str)
    else if c = '\'' then (.literal, .chr)
    else (.code, .code)
  | .str, c, _ =>
    if c = '\\' then (.literal, .strEsc)
    else if c = '\n' then (.code, .code)
    else if c = '"' then (.literal, .code)
    else (.literal, .str)
  | .strEsc, _, _ => (.literal, .str)
  | .chr, c, _ =>
    if c = '\\' then (.literal, .chrEsc)
    else if c = '\n' then (.code, .code)
    else if c = '\'' then (.literal, .code)
    else (.literal, .chr)
  | .chrEsc, _, _ => (.literal, .chr)
  | .line, c, _ => if c = '\n' then (.code, .code) else (.comment, .line)
  | .opening, _, _ => (.comment, .block)
  | .block, c, _ => if c = '*' then (.comment, .star) else (.comment, .block)
  | .star, c, _ =>
    if c = '/' then (.comment, .code)
    else if c = '*' then (.comment, .star)
    else (.comment, .block)

/-- The kinds of the characters of a text that is entered in a mode. -/
def kindsFrom : Mode → List Char → List Kind
  | _, [] => []
  | m, c :: t => (step m c t.head?).1 :: kindsFrom (step m c t.head?).2 t

/-- The kinds of the characters of a text. -/
def kinds (t : List Char) : List Kind := kindsFrom .code t

/-- The elements that do not belong to a comment. -/
def keep {α : Type} : List Kind → List α → List α
  | k :: ks, x :: xs => if k = .comment then keep ks xs else x :: keep ks xs
  | _, _ => []

/-- **The text without its comments.** -/
def strip (t : List Char) : List Char := keep (kinds t) t

/-- No comment marker begins inside a literal. -/
def MarkersOutsideLiterals (t : List Char) : Prop :=
  ∀ a b, ("/*".toList <+: b ∨ "//".toList <+: b) → t = a ++ b →
    (kinds t)[a.length]? ≠ some .literal

/-! ## Keeping -/

variable {α : Type}

theorem keep_append {ks ks' : List Kind} {xs xs' : List α} (h : ks.length = xs.length) :
    keep (ks ++ ks') (xs ++ xs') = keep ks xs ++ keep ks' xs' := by
  induction ks generalizing xs with
  | nil =>
    rw [List.length_nil] at h
    rw [List.length_eq_zero_iff.mp h.symm]
    rfl
  | cons k ks ih =>
    cases xs with
    | nil => cases h
    | cons x xs =>
      rw [List.cons_append, List.cons_append, keep, keep, ih (Nat.succ.inj h)]
      split
      · rfl
      · rfl

theorem keep_all {ks : List Kind} {xs : List α} (h : ks.length = xs.length)
    (hk : ∀ k ∈ ks, k ≠ .comment) : keep ks xs = xs := by
  induction ks generalizing xs with
  | nil =>
    rw [List.length_nil] at h
    rw [List.length_eq_zero_iff.mp h.symm]
    rfl
  | cons k ks ih =>
    cases xs with
    | nil => cases h
    | cons x xs =>
      obtain ⟨hhead, htail⟩ := List.forall_mem_cons.mp hk
      rw [keep, if_neg hhead, ih (Nat.succ.inj h) htail]

theorem keep_none {xs : List α} : keep (List.replicate xs.length .comment) xs = [] := by
  induction xs with
  | nil => rfl
  | cons x xs ih =>
    show keep (.comment :: List.replicate xs.length .comment) (x :: xs) = []
    rw [keep, if_pos rfl, ih]

theorem map_keep {β : Type} (f : α → β) : ∀ (ks : List Kind) (xs : List α),
    (keep ks xs).map f = keep ks (xs.map f)
  | [], _ => rfl
  | _ :: _, [] => rfl
  | k :: ks, x :: xs => by
    rw [List.map_cons, keep, keep, ← map_keep f ks xs]
    split
    · rfl
    · rfl

/-! ## The first comment marker -/

/-- No comment marker begins in `a`, also when a slash follows. -/
def Unmarked (a : List Char) : Prop :=
  ¬ "/*".toList <:+: a ++ ['/'] ∧ ¬ "//".toList <:+: a ++ ['/']

instance (a : List Char) : Decidable (Unmarked a) := inferInstanceAs (Decidable (_ ∧ _))

/-- A text has a first comment marker or none. -/
theorem first_marker : ∀ t : List Char,
    (¬ "/*".toList <:+: t ∧ ¬ "//".toList <:+: t) ∨
    ∃ a b, t = a ++ b ∧ Unmarked a ∧ ("/*".toList <+: b ∨ "//".toList <+: b)
  | [] => .inl ⟨by decide, by decide⟩
  | c :: t => by
    by_cases hhere : "/*".toList <+: c :: t ∨ "//".toList <+: c :: t
    · exact .inr ⟨[], c :: t, rfl, by decide, hhere⟩
    · obtain ⟨hblock, hline⟩ := not_or.mp hhere
      rcases first_marker t with ⟨h₁, h₂⟩ | ⟨a, b, rfl, ⟨ha₁, ha₂⟩, hb⟩
      · refine .inl ⟨fun h => ?_, fun h => ?_⟩
        · exact (List.infix_cons_iff.mp h).elim hblock h₁
        · exact (List.infix_cons_iff.mp h).elim hline h₂
      · have hslash : ['/'] <+: b := hb.elim (List.IsPrefix.trans (by decide))
          (List.IsPrefix.trans (by decide))
        have hpre : c :: (a ++ ['/']) <+: c :: (a ++ b) :=
          List.cons_prefix_cons.mpr ⟨rfl, (List.prefix_append_right_inj a).mpr hslash⟩
        refine .inr ⟨c :: a, b, rfl, ⟨fun h => ?_, fun h => ?_⟩, hb⟩
        · exact (List.infix_cons_iff.mp h).elim (fun h => hblock (h.trans hpre)) ha₁
        · exact (List.infix_cons_iff.mp h).elim (fun h => hline (h.trans hpre)) ha₂

/-- The first comment marker is at one place only. -/
theorem Unmarked.le {a a' b b' : List Char} (h : a ++ b = a' ++ b') (ha' : Unmarked a')
    (hb : "/*".toList <+: b ∨ "//".toList <+: b) (hb' : ['/'] <+: b') :
    a'.length ≤ a.length := by
  by_contra hlt
  rcases List.append_eq_append_iff.mp h with ⟨d, rfl, rfl⟩ | ⟨d, rfl, -⟩
  · have hd : 0 < d.length := by
      rw [List.length_append] at hlt
      omega
    have hpre : d ++ ['/'] <+: d ++ b' := (List.prefix_append_right_inj d).mpr hb'
    have key : ∀ m : List Char, m.length = 2 → m <+: d ++ b' → m <:+: a ++ d ++ ['/'] := by
      intro m hm hmb
      have hshort : m <+: d ++ ['/'] := List.prefix_of_prefix_length_le hmb hpre (by
        rw [hm, List.length_append, List.length_singleton]
        omega)
      rw [List.append_assoc]
      exact hshort.isInfix.trans (List.suffix_append a _).isInfix
    rcases hb with hb | hb
    · exact ha'.1 (key _ rfl hb)
    · exact ha'.2 (key _ rfl hb)
  · rw [List.length_append] at hlt
    omega

theorem Unmarked.unique {a a' b b' : List Char} (h : a ++ b = a' ++ b') (ha : Unmarked a)
    (ha' : Unmarked a') (hb : "/*".toList <+: b ∨ "//".toList <+: b)
    (hb' : "/*".toList <+: b' ∨ "//".toList <+: b') : a = a' ∧ b = b' := by
  have hslash : ∀ {b : List Char}, ("/*".toList <+: b ∨ "//".toList <+: b) → ['/'] <+: b :=
    fun hb => hb.elim (List.IsPrefix.trans (by decide)) (List.IsPrefix.trans (by decide))
  have hlen : a.length = a'.length :=
    Nat.le_antisymm (ha.le h.symm hb' (hslash hb)) (ha'.le h hb (hslash hb'))
  exact List.append_inj h hlen

/-- The modes outside comments. -/
def Mode.outside : Mode → Bool
  | .code | .str | .strEsc | .chr | .chrEsc => true
  | _ => false

/-- Outside comments, a character that does not begin a marker is kept. -/
theorem step_outside {m : Mode} (hm : m.outside) {c : Char} {next : Option Char}
    (h : ¬ (c = '/' ∧ (next = some '*' ∨ next = some '/'))) :
    (step m c next).1 ≠ .comment ∧ (step m c next).2.outside := by
  cases m with
  | code =>
    have h₁ : ¬ (c = '/' ∧ next = some '*') := fun ⟨hc, hn⟩ => h ⟨hc, .inl hn⟩
    have h₂ : ¬ (c = '/' ∧ next = some '/') := fun ⟨hc, hn⟩ => h ⟨hc, .inr hn⟩
    simp only [step, if_neg h₁, if_neg h₂]
    split
    · exact ⟨by decide, rfl⟩
    · split
      · exact ⟨by decide, rfl⟩
      · exact ⟨by decide, rfl⟩
  | str | chr =>
    simp only [step]
    split
    · exact ⟨by decide, rfl⟩
    · split
      · exact ⟨by decide, rfl⟩
      · split
        · exact ⟨by decide, rfl⟩
        · exact ⟨by decide, rfl⟩
  | strEsc | chrEsc => exact ⟨Kind.noConfusion, rfl⟩
  | line | opening | block | star => cases hm

/-- **Up to the first marker nothing is a comment.** -/
theorem kindsFrom_unmarked {b : List Char} : ∀ {m : Mode}, m.outside → ∀ {a : List Char},
    ¬ "/*".toList <:+: a ++ b.take 1 → ¬ "//".toList <:+: a ++ b.take 1 →
      ∃ ks m', kindsFrom m (a ++ b) = ks ++ kindsFrom m' b ∧ ks.length = a.length ∧
        (∀ k ∈ ks, k ≠ .comment) ∧ m'.outside
  | m, hm, [], _, _ => ⟨[], m, rfl, rfl, by simp, hm⟩
  | m, hm, c :: a, h₁, h₂ => by
    have hpair : ∀ d, (a ++ b).head? = some d → [c, d] <:+: c :: (a ++ b.take 1) := by
      intro d hd
      cases a with
      | nil =>
        obtain ⟨b', rfl⟩ := List.head?_eq_some_iff.mp hd
        exact List.infix_refl _
      | cons e a =>
        rw [← Option.some.inj hd]
        exact ⟨[], a ++ b.take 1, rfl⟩
    -- two characters that open a comment would be a marker, also over the border to `b`
    have hnext : ¬ (c = '/' ∧ ((a ++ b).head? = some '*' ∨ (a ++ b).head? = some '/')) := by
      rintro ⟨rfl, hnext | hnext⟩
      · exact h₁ (hpair '*' hnext)
      · exact h₂ (hpair '/' hnext)
    obtain ⟨hkind, hmode⟩ := step_outside hm hnext
    obtain ⟨ks, m', hks, hlen, hno, hm'⟩ := kindsFrom_unmarked (a := a) hmode
      (fun h => h₁ (h.trans (List.suffix_cons c _).isInfix))
      (fun h => h₂ (h.trans (List.suffix_cons c _).isInfix))
    refine ⟨(step m c (a ++ b).head?).1 :: ks, m', ?_, congrArg Nat.succ hlen,
      List.forall_mem_cons.mpr ⟨hkind, hno⟩, hm'⟩
    rw [List.cons_append, kindsFrom, hks]
    rfl

/-- A text without markers is kept as it is. -/
theorem keep_kinds_unmarked {t : List Char} (h₁ : ¬ "/*".toList <:+: t)
    (h₂ : ¬ "//".toList <:+: t) {xs : List α} (hxs : xs.length = t.length) :
    keep (kinds t) xs = xs := by
  obtain ⟨ks, m, hks, hlen, hno, -⟩ := kindsFrom_unmarked (b := []) (m := .code) rfl
    (a := t) (by simpa using h₁) (by simpa using h₂)
  rw [List.append_nil] at hks
  have hk : kinds t = ks ++ [] := hks
  rw [hk, List.append_nil]
  exact keep_all (hlen.trans hxs.symm) hno

/-- A line comment goes on to the line break. -/
theorem kindsFrom_line {r : List Char} : ∀ {t : List Char}, '\n' ∉ t →
    kindsFrom .line (t ++ r) = List.replicate t.length .comment ++ kindsFrom .line r
  | [], _ => rfl
  | c :: t, h => by
    have hc : c ≠ '\n' := fun hc => h (hc ▸ List.mem_cons_self)
    have hstep : step .line c (t ++ r).head? = (.comment, .line) := if_neg hc
    rw [List.cons_append, kindsFrom, hstep, kindsFrom_line fun ht => h (List.mem_cons_of_mem _ ht)]
    rfl

theorem kindsFrom_break (r : List Char) :
    kindsFrom .line ('\n' :: r) = .code :: kindsFrom .code r := rfl

/-- At the first marker of a text without markers in literals the machine reads code. -/
theorem kinds_marker {a b : List Char} (hlit : MarkersOutsideLiterals (a ++ b)) (ha : Unmarked a)
    (hb : "/*".toList <+: b ∨ "//".toList <+: b) :
    ∃ ks, kinds (a ++ b) = ks ++ kindsFrom .code b ∧ ks.length = a.length ∧
      ∀ k ∈ ks, k ≠ .comment := by
  have hslash : ['/'] <+: b := hb.elim (List.IsPrefix.trans (by decide))
    (List.IsPrefix.trans (by decide))
  have hkind := hlit a b hb rfl
  obtain ⟨b', rfl⟩ := hslash
  obtain ⟨ks, m, hks, hlen, hno, hm⟩ := kindsFrom_unmarked (b := ['/'] ++ b') (m := .code) rfl
    ha.1 ha.2
  refine ⟨ks, ?_, hlen, hno⟩
  rw [kinds, hks, ← hlen, List.getElem?_append_right (Nat.le_refl _), Nat.sub_self] at hkind
  cases m with
  | code => exact hks
  | str | strEsc | chr | chrEsc => exact absurd rfl hkind
  | line | opening | block | star => cases hm

/-- Without a line break, a line comment is all that is left of the text. -/
theorem kindsFrom_lineComment {b : List Char} (hb : "//".toList <+: b) (hn : '\n' ∉ b) :
    kindsFrom .code b = List.replicate b.length .comment := by
  obtain ⟨r, rfl⟩ := hb
  have hopen :
      kindsFrom .code ("//".toList ++ r) = .comment :: kindsFrom .line ('/' :: r ++ []) := by
    rw [List.append_nil]
    rfl
  have hr : '\n' ∉ '/' :: r := fun h => hn (List.mem_cons_of_mem '/' h)
  rw [hopen, kindsFrom_line hr, kindsFrom, List.append_nil]
  rfl

/-- The line break after a line comment is kept. -/
theorem break_mem_strip {a b : List Char} (hlit : MarkersOutsideLiterals (a ++ b))
    (ha : Unmarked a) (hb : "//".toList <+: b) (hn : '\n' ∈ a ++ b) : '\n' ∈ strip (a ++ b) := by
  obtain ⟨ks, hks, hlen, hno⟩ := kinds_marker hlit ha (.inr hb)
  rw [strip, hks, keep_append hlen, keep_all hlen hno, List.mem_append]
  by_cases hna : '\n' ∈ a
  · exact .inl hna
  · refine .inr ?_
    obtain ⟨r, rfl⟩ := hb
    have hr : '\n' ∈ '/' :: r := by simpa [hna] using hn
    obtain ⟨r₁, r₂, hcut, hr₁⟩ := List.eq_append_cons_of_mem hr
    have hopen : kindsFrom .code ("//".toList ++ r) = .comment :: kindsFrom .line ('/' :: r) := rfl
    have hcons : "//".toList ++ r = '/' :: '/' :: r := rfl
    rw [hopen, hcons, hcut, kindsFrom_line hr₁, kindsFrom_break, keep, if_pos rfl,
      keep_append List.length_replicate, keep_none]
    exact List.mem_cons_self

end CLex
