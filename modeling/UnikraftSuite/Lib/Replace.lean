import UnikraftSuite.Lib.PyStr

/-!
# Replacing every occurrence

`replaceAll sep new s` is Python's `s.replace(sep, new)`: the pieces of the split at `sep`,
joined by `new`.

- `replaceAll_append_cons`, `replaceAll_append`: a character foreign to the separator splits
  the work.
- `replaceAll_append_word`, `infix_of_replaceAll`: what is there before and behind.
- `length_replaceAll`, `count_replaceAll`: what is lost.
- `replaceAll_eq_append`: an ending that is foreign to both patterns was there before.
-/

namespace PyStr

open Substring

variable {β : Type*} [DecidableEq β]

/-- Python's `s.replace(sep, new)`. -/
def replaceAll (sep new s : List β) : List β := new.intercalate (split sep s)

theorem replaceAll_of_absent {sep new s : List β} (h : ¬ sep <:+: s) :
    replaceAll sep new s = s := by
  rw [replaceAll, split_of_absent h, List.intercalate_singleton]

theorem replaceAll_cut {sep new a : List β} (hsep : sep ≠ []) (h : FirstAt sep a) (b : List β) :
    replaceAll sep new (a ++ (sep ++ b)) = a ++ (new ++ replaceAll sep new b) := by
  obtain ⟨x, xs, hx⟩ := List.exists_cons_of_ne_nil (split_ne_nil sep b)
  rw [replaceAll, split_cut hsep h, replaceAll, hx, List.intercalate_cons_cons, List.append_assoc]

/-- A character foreign to the separator stays, and the texts around it are apart. -/
theorem replaceAll_append_cons {sep new : List β} (hsep : sep ≠ []) {c : β} (hc : c ∉ sep)
    (s t : List β) :
    replaceAll sep new (s ++ c :: t) = replaceAll sep new s ++ c :: replaceAll sep new t := by
  induction s using split_induction hsep with
  | last s h =>
    obtain ⟨x, xs, hx⟩ := List.exists_cons_of_ne_nil (split_ne_nil sep t)
    rw [replaceAll_of_absent h, replaceAll, split_append_cons hsep hc, split_of_absent h,
      replaceAll, hx]
    show new.intercalate ((s ++ c :: x) :: xs) = s ++ c :: new.intercalate (x :: xs)
    cases xs with
    | nil => rw [List.intercalate_singleton, List.intercalate_singleton]
    | cons y ys =>
      rw [List.intercalate_cons_cons, List.intercalate_cons_cons]
      simp
  | cut a b ha ih =>
    have hassoc : a ++ (sep ++ b) ++ c :: t = a ++ (sep ++ (b ++ c :: t)) := by simp
    rw [hassoc, replaceAll_cut hsep ha, ih, replaceAll_cut hsep ha]
    simp

theorem replaceAll_nil {sep : List β} (hsep : sep ≠ []) (new : List β) :
    replaceAll sep new [] = [] :=
  replaceAll_of_absent fun h => hsep (List.infix_nil.mp h)

theorem replaceAll_cons {sep new : List β} (hsep : sep ≠ []) {c : β} (hc : c ∉ sep) (t : List β) :
    replaceAll sep new (c :: t) = c :: replaceAll sep new t := by
  have h : replaceAll sep new ([] ++ c :: t) = replaceAll sep new [] ++ c :: replaceAll sep new t :=
    replaceAll_append_cons hsep hc [] t
  rwa [replaceAll_nil hsep, List.nil_append, List.nil_append] at h

/-- A word of foreign characters stays. -/
theorem replaceAll_append {sep new w : List β} (hsep : sep ≠ []) (hne : w ≠ [])
    (hw : ∀ c ∈ w, c ∉ sep) (s t : List β) :
    replaceAll sep new (s ++ (w ++ t)) = replaceAll sep new s ++ (w ++ replaceAll sep new t) := by
  obtain ⟨c, w, rfl⟩ := List.exists_cons_of_ne_nil hne
  obtain ⟨hc, hrest⟩ := List.forall_mem_cons.mp hw
  have hrest : replaceAll sep new (w ++ t) = w ++ replaceAll sep new t := by
    clear hne hw
    induction w with
    | nil => rfl
    | cons d w ih =>
      obtain ⟨hd, hw⟩ := List.forall_mem_cons.mp hrest
      rw [List.cons_append, replaceAll_cons hsep hd, ih hw]
      rfl
  rw [List.cons_append, replaceAll_append_cons hsep hc, hrest, List.cons_append]

/-- A text in which no separator begins stays, whatever follows. -/
theorem replaceAll_append_of_head {sep new b : List β} {d : β} (hd : sep.head? = some d)
    (hb : d ∉ b) (t : List β) : replaceAll sep new (b ++ t) = b ++ replaceAll sep new t := by
  have hnone : ∀ b', b' <:+ b → b' ≠ [] → ¬ sep <+: b' ++ t := by
    rintro (_ | ⟨c, b'⟩) hb' hne hpre
    · exact hne rfl
    · obtain ⟨sep, rfl⟩ := List.head?_eq_some_iff.mp hd
      exact hb ((List.cons_prefix_cons.mp hpre).1 ▸ hb'.subset List.mem_cons_self)
  obtain ⟨x, xs, hx⟩ := List.exists_cons_of_ne_nil (split_ne_nil sep t)
  rw [replaceAll, split_append hnone, replaceAll, hx]
  show new.intercalate ((b ++ x) :: xs) = b ++ new.intercalate (x :: xs)
  cases xs with
  | nil => rw [List.intercalate_singleton, List.intercalate_singleton]
  | cons y ys =>
    rw [List.intercalate_cons_cons, List.intercalate_cons_cons]
    simp

/-- A text in which no separator ends stays behind the one before it. -/
theorem replaceAll_append_of_last {sep new a : List β} {c : β} (hc : sep.getLast? = some c)
    (ha : c ∉ a) (s : List β) : replaceAll sep new (s ++ a) = replaceAll sep new s ++ a := by
  obtain ⟨p, rfl⟩ := List.getLast?_eq_some_iff.mp hc
  have hsep : p ++ [c] ≠ [] := by simp
  induction s using split_induction hsep with
  | last s h =>
    rw [replaceAll_of_absent h, replaceAll_of_absent]
    rwa [infix_append_of_not_mem ha]
  | cut u s hu ih =>
    have hassoc : u ++ ((p ++ [c]) ++ s) ++ a = u ++ ((p ++ [c]) ++ (s ++ a)) := by simp
    rw [hassoc, replaceAll_cut hsep hu, replaceAll_cut hsep hu, ih]
    simp

/-- **A word that no separator overlaps stays**: none ends in its beginning, none begins in its
end, and what is between is foreign to the separator. -/
theorem replaceAll_append_word {sep new a m b : List β} {c d : β} (hc : sep.getLast? = some c)
    (ha : c ∉ a) (hne : m ≠ []) (hm : ∀ x ∈ m, x ∉ sep) (hd : sep.head? = some d) (hb : d ∉ b)
    (s t : List β) : replaceAll sep new (s ++ (a ++ (m ++ (b ++ t))))
      = replaceAll sep new s ++ (a ++ (m ++ (b ++ replaceAll sep new t))) := by
  have hsep : sep ≠ [] := by
    rintro rfl
    cases hd
  rw [← List.append_assoc, replaceAll_append hsep hne hm, replaceAll_append_of_last hc ha,
    replaceAll_append_of_head hd hb, List.append_assoc]

/-- A pattern foreign to what is put in was in the text before. -/
theorem infix_of_replaceAll {p sep new s : List β} (hsep : sep ≠ []) (hne : new ≠ [])
    (hnew : ∀ c ∈ new, c ∉ p) (h : p <:+: replaceAll sep new s) : p <:+: s := by
  induction s using split_induction hsep with
  | last s hs => rwa [replaceAll_of_absent hs] at h
  | cut a b ha ih =>
    rw [replaceAll_cut hsep ha, infix_append_sep hnew hne] at h
    rcases h with h | h
    · exact h.trans (List.prefix_append a _).isInfix
    · exact (ih h).trans ((List.suffix_append sep b).trans (List.suffix_append a _)).isInfix

theorem length_replaceAll {sep : List β} (hsep : sep ≠ []) (new s : List β) :
    (replaceAll sep new s).length + (split sep s).tail.length * sep.length
      = s.length + (split sep s).tail.length * new.length := by
  induction s using split_induction hsep with
  | last s h =>
    rw [replaceAll_of_absent h, split_of_absent h]
    simp
  | cut a b ha ih =>
    have hlen : (split sep b).length = (split sep b).tail.length + 1 := by
      rw [List.length_tail]
      have hpos := List.length_pos_iff.mpr (split_ne_nil sep b)
      omega
    rw [replaceAll_cut hsep ha, split_cut hsep ha, List.tail_cons, hlen]
    simp only [List.length_append, Nat.add_mul, Nat.one_mul]
    omega

theorem count_replaceAll {sep new : List β} (hsep : sep ≠ []) {c : β} (hc : c ∉ sep)
    (hnew : c ∉ new) (s : List β) : (replaceAll sep new s).count c = s.count c := by
  induction s using split_induction hsep with
  | last s h => rw [replaceAll_of_absent h]
  | cut a b ha ih =>
    rw [replaceAll_cut hsep ha]
    simp only [List.count_append, List.count_eq_zero.mpr hc, List.count_eq_zero.mpr hnew, ih]

/-- A character foreign to both patterns comes from the text. -/
theorem replaceAll_eq_concat {sep new : List β} (hsep : sep ≠ []) (hnew : new ≠ []) {c : β}
    (hc : c ∉ sep) (hc' : c ∉ new) {s t : List β} (h : replaceAll sep new s = t ++ [c]) :
    ∃ s', s = s' ++ [c] ∧ replaceAll sep new s' = t := by
  induction s using split_induction hsep generalizing t with
  | last s hs =>
    rw [replaceAll_of_absent hs] at h
    refine ⟨t, h, replaceAll_of_absent fun hin => hs (hin.trans ?_)⟩
    exact (h ▸ List.prefix_append t _).isInfix
  | cut a b ha ih =>
    rw [replaceAll_cut hsep ha] at h
    rcases List.eq_nil_or_concat (replaceAll sep new b) with hb | ⟨r, d, hb⟩
    · -- the last character would be one of `new`
      obtain ⟨n, d, hn⟩ := (List.eq_nil_or_concat new).resolve_left hnew
      rw [hb, List.append_nil, hn, List.concat_eq_append, ← List.append_assoc] at h
      have hd := List.singleton_inj.mp (List.append_inj' h rfl).2
      exact absurd (by simp [hn, hd]) hc'
    · rw [List.concat_eq_append] at hb
      rw [hb, ← List.append_assoc, ← List.append_assoc] at h
      obtain ⟨hr, hd⟩ := List.append_inj' h rfl
      obtain rfl := List.singleton_inj.mp hd
      obtain ⟨b', rfl, hb'⟩ := ih hb
      refine ⟨a ++ (sep ++ b'), by simp, ?_⟩
      rw [replaceAll_cut hsep ha, hb', ← hr, List.append_assoc]

/-- What is foreign to both patterns ends a text if it ends the replaced one. -/
theorem replaceAll_eq_append {sep new : List β} (hsep : sep ≠ []) (hnew : new ≠ []) {w : List β}
    (hw : ∀ c ∈ w, c ∉ sep ∧ c ∉ new) {s t : List β} (h : replaceAll sep new s = t ++ w) :
    ∃ s', s = s' ++ w ∧ replaceAll sep new s' = t := by
  induction w using List.reverseRecOn generalizing s with
  | nil => exact ⟨s, (List.append_nil s).symm, by rw [h, List.append_nil]⟩
  | append_singleton w c ih =>
    obtain ⟨hc, hc'⟩ := hw c (List.mem_append_right w List.mem_cons_self)
    rw [← List.append_assoc] at h
    obtain ⟨s', rfl, hs'⟩ := replaceAll_eq_concat hsep hnew hc hc' h
    obtain ⟨s'', rfl, hs''⟩ := ih (fun d hd => hw d (List.mem_append_left _ hd)) hs'
    exact ⟨s'', by rw [List.append_assoc], hs''⟩

theorem replaceAll_eq_nil {sep new : List β} (hsep : sep ≠ []) (hnew : new ≠ []) {s : List β} :
    replaceAll sep new s = [] ↔ s = [] := by
  constructor
  · intro h
    by_cases hin : sep <:+: s
    · obtain ⟨a, b, rfl, ha⟩ := exists_cut hsep hin
      rw [replaceAll_cut hsep ha] at h
      simp [hnew] at h
    · rwa [replaceAll_of_absent hin] at h
  · rintro rfl
    exact replaceAll_nil hsep new

end PyStr
