import UnikraftSuite.RmcommentLoop
import UnikraftSuite.Lib.CLex
import Mathlib.Data.List.Nodup

/-!
# What `rmcomment` does to comments

`rmcomment` is compared with `CLex.strip`. On characters that carry their position, the
characters it keeps are those outside comments for very few texts:

- with a block comment, the loop removes the character before its first marker
  (`not_strips_block`);
- a line break is never kept, and a line without a `//` is dropped;
- what remains are texts of one line that begin their first comment with `//`, as long as
  the loop leaves that marker alone (`runs_append`).

`strips_iff` states this for every text on which the loop ends.
-/

namespace UnikraftSuite

open PyStr Substring CLex

variable {α : Type} {κ : α → Char}

/-! ## The lines -/

theorem uncommentLineBy_subset (line : List α) : uncommentLineBy κ line ⊆ line := by
  rw [uncommentLineBy]
  split
  · obtain ⟨x, xs, hx⟩ := List.exists_cons_of_ne_nil (splitBy_ne_nil κ "//".toList line)
    have hmem : x ∈ splitBy κ "//".toList line := hx ▸ List.mem_cons_self
    rw [hx]
    exact (sublist_of_mem_splitBy hmem).subset
  · exact List.nil_subset _

/-- Nothing is invented. -/
theorem uncommentBy_subset (file : List α) : uncommentBy κ file ⊆ file := by
  intro e he
  obtain ⟨line, hline, he⟩ := List.mem_flatMap.mp he
  exact (sublist_of_mem_splitBy hline).subset (uncommentLineBy_subset line he)

/-- No line break is kept. -/
theorem not_break_of_mem_uncommentBy {file : List α} {e : α} (he : e ∈ uncommentBy κ file) :
    κ e ≠ '\n' := by
  obtain ⟨line, hline, he⟩ := List.mem_flatMap.mp he
  have hmem : line.map κ ∈ split "\n".toList (file.map κ) := by
    rw [← map_splitBy]
    exact List.mem_map_of_mem hline
  have hfree := not_infix_of_mem_split (by decide) hmem
  intro hbreak
  have hin : κ e ∈ line.map κ := List.mem_map_of_mem (uncommentLineBy_subset line he)
  rw [hbreak] at hin
  exact hfree ((List.singleton_infix_iff _ _).mpr hin)

theorem uncommentBy_line {file : List α} (h : '\n' ∉ file.map κ) :
    uncommentBy κ file = uncommentLineBy κ file := by
  have hfree : ¬ "\n".toList <:+: file.map κ := fun hin => h (hin.subset (by decide))
  rw [uncommentBy, splitBy_of_absent hfree, List.flatMap_singleton]

/-- A text without `//` is dropped. -/
theorem uncommentBy_unmarked {file : List α} (h : ¬ "//".toList <:+: file.map κ) :
    uncommentBy κ file = [] := by
  rw [uncommentBy, List.flatMap_eq_nil_iff]
  intro line hline
  have hmem : line.map κ ∈ split "\n".toList (file.map κ) := by
    rw [← map_splitBy]
    exact List.mem_map_of_mem hline
  exact if_neg fun hin => h (hin.trans (infix_of_mem_split (by decide) hmem))

theorem uncommentLineBy_cut {a s : List α} (ha : FirstAt "//".toList (a.map κ))
    (hs : "//".toList <+: s.map κ) : uncommentLineBy κ (a ++ s) = a := by
  obtain ⟨r, hr⟩ := hs
  obtain ⟨w, s', rfl, hw, rfl⟩ := List.map_eq_append_iff.mp hr.symm
  have hin : "//".toList <:+: (a ++ (w ++ s')).map κ := by
    rw [List.map_append, List.map_append, hw]
    exact ⟨a.map κ, s'.map κ, List.append_assoc _ _ _⟩
  rw [uncommentLineBy, if_pos hin, splitBy_cut (by decide) hw ha, List.headD_cons]

/-- A line with `//` is cut in front of it. -/
theorem exists_uncommentLineBy {line : List α} (h : "//".toList <:+: line.map κ) :
    ∃ s, line = uncommentLineBy κ line ++ s ∧ "//".toList <+: s.map κ := by
  obtain ⟨a, b, heq, hfirst⟩ := exists_cut (by decide) h
  obtain ⟨a', s, rfl, rfl, hs⟩ := List.map_eq_append_iff.mp heq
  have hpre : "//".toList <+: s.map κ := ⟨b, hs.symm⟩
  exact ⟨s, by rw [uncommentLineBy_cut hfirst hpre], hpre⟩

/-! ## The loop behind an unmarked text -/

/-- A `/*` is not made across the end of an unmarked text. -/
theorem opener_append {a s : List α} (ha : Unmarked (a.map κ))
    (h : "/*".toList <:+: (a ++ s).map κ) : "/*".toList <:+: s.map κ := by
  rw [List.map_append] at h
  rcases List.infix_append_iff.mp h with h | h | ⟨l₁, l₂, hl, h₁, h₂⟩
  · exact absurd (List.infix_append_of_infix_left h) ha.1
  · exact h
  · cases l₁ with
    | nil => exact hl ▸ h₂.isInfix
    | cons c l₁ =>
      cases l₁ with
      | nil =>
        -- the unmarked text would end with a slash
        obtain ⟨u, hu⟩ := h₁
        have hc : c = '/' := (List.cons.inj hl).1.symm
        refine absurd ?_ ha.2
        rw [← hu, hc]
        exact ⟨u, [], by simp⟩
      | cons d l₁ =>
        have hnil : l₁ ++ l₂ = [] := ((List.cons.inj (List.cons.inj hl).2).2).symm
        rw [(List.append_eq_nil_iff.mp hnil).1] at h₁
        rw [(List.append_eq_nil_iff.mp hnil).2, List.append_nil,
          (List.append_eq_nil_iff.mp hnil).1] at hl
        exact absurd (List.infix_append_of_infix_left (hl ▸ h₁.isInfix)) ha.1

theorem Runs.unique {file z z' : List α} (h : Runs κ file z) (h' : Runs κ file z') : z = z' :=
  Option.some.inj ((runs_iff_squeeze.mp h).symm.trans (runs_iff_squeeze.mp h'))

/-- What the loop does behind an unmarked text it does also after it. -/
theorem Runs.append {a s z : List α} (ha : Unmarked (a.map κ)) :
    Runs κ s z → Runs κ (a ++ s) (a ++ z) := by
  rintro ⟨n, hn⟩
  induction n generalizing s with
  | zero => cases hn
  | succ n ih =>
    rcases opener_cases κ s with h | ⟨y, y', b, rfl, hy, hy'⟩ | ⟨c, x, y, y', b, rfl, hy, hy', hc⟩
    · rw [loopBy, if_neg h] at hn
      rw [runs_of_free fun hin => h (opener_append ha hin), Option.some.inj hn]
    · exact absurd ⟨n + 1, hn⟩ (not_runs_start hy hy' b z)
    · rw [loopBy, if_pos (opener_infix' hy hy' c x b), stepBy_cut hy hy' hc] at hn
      have hfree : ¬ "/*".toList <:+: ((a ++ c) ++ [x]).map κ := by
        rw [List.append_assoc]
        exact fun hin => hc (opener_append ha hin)
      rw [← List.append_assoc, runs_cut hy hy' hfree, List.append_assoc]
      exact ih hn

/-- **Behind an unmarked text** the loop works on its own, or it takes the last character
of that text away. -/
theorem runs_append {a s z : List α} (ha : Unmarked (a.map κ)) (h : Runs κ (a ++ s) z) :
    (∃ z', Runs κ s z' ∧ z = a ++ z') ∨ ∃ s', s'.Sublist s ∧ z.Sublist (a.dropLast ++ s') := by
  obtain ⟨n, hn⟩ := h
  induction n generalizing s with
  | zero => cases hn
  | succ n ih =>
    rcases opener_cases κ s with h | ⟨y, y', b, rfl, hy, hy'⟩ | ⟨c, x, y, y', b, rfl, hy, hy', hc⟩
    · rw [loopBy, if_neg fun hin => h (opener_append ha hin)] at hn
      exact .inl ⟨s, (runs_of_free h).mpr rfl, (Option.some.inj hn).symm⟩
    · -- the opener is right behind `a`, and the loop takes its last character along
      rcases List.eq_nil_or_concat a with rfl | ⟨a', x, rfl⟩
      · exact absurd ⟨n + 1, hn⟩ (not_runs_start hy hy' b z)
      · have hx : ¬ "/*".toList <:+: (a' ++ [x]).map κ := fun hin =>
          ha.1 (List.infix_append_of_infix_left (by rwa [List.concat_eq_append]))
        have hassoc : a'.concat x ++ y :: y' :: b = a' ++ x :: y :: y' :: b := by simp
        rw [hassoc] at hn
        have hruns : Runs κ (a' ++ y' :: b) z := (runs_cut hy hy' hx).mp ⟨n + 1, hn⟩
        refine .inr ⟨y' :: b, List.sublist_cons_self _ _, ?_⟩
        rw [List.concat_eq_append, List.dropLast_concat]
        exact hruns.sublist
    · -- the opener is further behind: one turn, and the rest by induction
      have hfree : ¬ "/*".toList <:+: ((a ++ c) ++ [x]).map κ := by
        rw [List.append_assoc]
        exact fun hin => hc (opener_append ha hin)
      rw [← List.append_assoc, loopBy, if_pos (opener_infix' hy hy' (a ++ c) x b),
        stepBy_cut hy hy' hfree, List.append_assoc] at hn
      have hsub : (c ++ y' :: b).Sublist (c ++ x :: y :: y' :: b) :=
        (List.Sublist.refl c).append (((List.Sublist.refl _).cons y).cons x)
      rcases ih hn with ⟨z', hz', rfl⟩ | ⟨s', hs', hz⟩
      · exact .inl ⟨z', (runs_cut hy hy' hc).mpr hz', rfl⟩
      · exact .inr ⟨s', hs'.trans hsub, hz⟩

theorem map_settle (κ : α → Char) : ∀ st : List α,
    (settle κ st).map (List.map κ) = settle id (st.map κ)
  | [] => rfl
  | [y] => by
    rw [List.map_singleton, settle, settle]
    show _ = if κ y = '/' then none else some [κ y]
    split
    · rfl
    · rfl
  | y :: x :: st => by
    rw [List.map_cons, List.map_cons, settle, settle]
    show _ = if κ y = '/' then settle id (st.map κ) else some (κ y :: κ x :: st.map κ)
    split
    · exact map_settle κ st
    · rfl

theorem map_squeezeBy (κ : α → Char) : ∀ (file st : List α),
    (squeezeBy κ st file).map (List.map κ) = squeezeBy id (st.map κ) (file.map κ)
  | [], st => by
    rw [squeezeBy, List.map_nil, squeezeBy, Option.map_some, List.map_reverse]
  | c :: file, st => by
    rw [List.map_cons, squeezeBy, squeezeBy]
    show _ = if κ c = '*' then _ else _
    split
    · rw [← map_settle]
      cases settle κ st with
      | none => rfl
      | some st' => exact map_squeezeBy κ file (c :: st')
    · exact map_squeezeBy κ file (c :: st)

/-- The machine on plain characters. -/
theorem squeeze_eq_some_iff {file : List α} {z : Text} :
    squeeze (file.map κ) = some z ↔ ∃ z', Runs κ file z' ∧ z'.map κ = z := by
  have hmap : squeeze (file.map κ) = (squeezeBy κ [] file).map (List.map κ) :=
    (map_squeezeBy κ file []).symm
  rw [hmap, Option.map_eq_some_iff]
  exact exists_congr fun z' => and_congr_left fun _ => runs_iff_squeeze.symm

/-! ## What is kept -/

/-- One line that is empty or has a `//` for its first comment marker, where the loop, run
on the comment alone, leaves a text that still begins with `//`; or the comment is the whole
line and the loop leaves no `//` in it. -/
def CommentOnly (t : Text) : Prop :=
  '\n' ∉ t ∧ (t = [] ∨ ∃ a s z, t = a ++ s ∧ Unmarked a ∧ "//".toList <+: s ∧
    squeeze s = some z ∧ ("//".toList <+: z ∨ a = [] ∧ ¬ "//".toList <:+: z))

/-- What comes before the first marker is kept. -/
theorem subset_keep {a s : List α} (ha : Unmarked (a.map κ)) (hs : ['/'] <+: s.map κ) :
    a ⊆ keep (kinds ((a ++ s).map κ)) (a ++ s) := by
  obtain ⟨r, hr⟩ := hs
  obtain ⟨ks, m, hks, hlen, hno, -⟩ := kindsFrom_unmarked (b := ['/'] ++ r) (m := .code) rfl
    ha.1 ha.2
  rw [List.length_map] at hlen
  rw [List.map_append, ← hr, kinds, hks, keep_append hlen, keep_all hlen hno]
  exact List.subset_append_left _ _

/-- A character is in front of the rest at one place only. -/
theorem not_mem_of_nodup {a s s' z : List α} {x : α} (hnodup : (a ++ [x] ++ s).Nodup)
    (hs' : s'.Sublist s) (hz : z.Sublist (a ++ s')) : x ∉ z := by
  intro hx
  rw [List.append_assoc, List.nodup_append] at hnodup
  obtain ⟨-, htail, hdisj⟩ := hnodup
  rcases List.mem_append.mp (hz.subset hx) with hx | hx
  · exact hdisj x hx x List.mem_cons_self rfl
  · exact (List.nodup_cons.mp htail).1 (hs'.subset hx)

/-- A block comment that comes first takes the character before it along. -/
theorem not_strips_block {a s z : List α} (hnodup : (a ++ s).Nodup) (ha : Unmarked (a.map κ))
    (hs : "/*".toList <+: s.map κ) (h : Runs κ (a ++ s) z) :
    uncommentBy κ z ≠ keep (kinds ((a ++ s).map κ)) (a ++ s) := by
  obtain ⟨r, hr⟩ := hs
  obtain ⟨w, b, rfl, hw, -⟩ := List.map_eq_append_iff.mp hr.symm
  obtain ⟨y, w, rfl, hy, hw⟩ := List.map_eq_cons_iff.mp hw
  obtain ⟨y', w, rfl, hy', hw⟩ := List.map_eq_cons_iff.mp hw
  obtain rfl := List.map_eq_nil_iff.mp hw
  have hend : ∀ z', ¬ Runs κ ([y, y'] ++ b) z' := not_runs_start hy hy' b
  rcases runs_append ha h with ⟨z', hz', -⟩ | ⟨s', hs', hz⟩
  · exact absurd hz' (hend z')
  · rcases List.eq_nil_or_concat a with rfl | ⟨a', x, rfl⟩
    · exact absurd h (hend z)
    · rw [List.concat_eq_append] at hnodup hz ha ⊢
      rw [List.dropLast_concat] at hz
      intro hkeep
      have hslash : ['/'] <+: ([y, y'] ++ b).map κ := by
        rw [← hr]
        exact List.prefix_append ['/'] _
      have hx : x ∈ uncommentBy κ z := hkeep ▸ subset_keep ha hslash (by simp)
      exact not_mem_of_nodup hnodup hs' hz (uncommentBy_subset z hx)

/-- Where the first marker is `//`, everything before it is kept, and in one line nothing
else. -/
theorem keep_lineComment {a s : List α} (hlit : MarkersOutsideLiterals ((a ++ s).map κ))
    (ha : Unmarked (a.map κ)) (hs : "//".toList <+: s.map κ) (hn : '\n' ∉ (a ++ s).map κ) :
    keep (kinds ((a ++ s).map κ)) (a ++ s) = a := by
  rw [List.map_append] at hlit hn ⊢
  obtain ⟨ks, hks, hlen, hno⟩ := kinds_marker hlit ha (.inr hs)
  have hns : '\n' ∉ s.map κ := fun h => hn (List.mem_append_right _ h)
  rw [List.length_map] at hlen
  rw [hks, keep_append hlen, keep_all hlen hno, kindsFrom_lineComment hs hns, List.length_map,
    keep_none, List.append_nil]

/-- Line breaks are not kept by `rmcomment`, those after a line comment are no part of it. -/
theorem not_strips_break {a s z : List α} (hlit : MarkersOutsideLiterals ((a ++ s).map κ))
    (ha : Unmarked (a.map κ)) (hs : "//".toList <+: s.map κ) (hn : '\n' ∈ (a ++ s).map κ) :
    uncommentBy κ z ≠ keep (kinds ((a ++ s).map κ)) (a ++ s) := by
  intro hkeep
  rw [List.map_append] at hlit hn
  have hmem := break_mem_strip hlit ha hs hn
  rw [CLex.strip, ← List.map_append, ← map_keep, ← hkeep] at hmem
  obtain ⟨e, he, hbreak⟩ := List.mem_map.mp hmem
  exact not_break_of_mem_uncommentBy he hbreak

/-- The line with a comment for which the loop leaves `z`. -/
theorem uncommentBy_iff {a s z : List α} (hnodup : (a ++ s).Nodup) (ha : Unmarked (a.map κ))
    (hn : '\n' ∉ (a ++ s).map κ) (h : Runs κ (a ++ s) z) :
    uncommentBy κ z = a ↔
      ∃ z', Runs κ s z' ∧ ("//".toList <+: z'.map κ ∨ a = [] ∧ ¬ "//".toList <:+: z'.map κ) := by
  have hnz : '\n' ∉ z.map κ := fun hmem => hn ((h.sublist.map κ).subset hmem)
  rw [uncommentBy_line hnz]
  constructor
  · intro heq
    by_cases hin : "//".toList <:+: z.map κ
    · obtain ⟨r, hcut, hr⟩ := exists_uncommentLineBy hin
      rw [heq] at hcut
      rcases runs_append ha h with ⟨z', hz', hzz'⟩ | ⟨s', hs', hz⟩
      · rw [List.append_cancel_left (hcut.symm.trans hzz')] at hr
        exact ⟨z', hz', .inl hr⟩
      · rcases List.eq_nil_or_concat a with rfl | ⟨a', x, rfl⟩
        · exact ⟨z, h, .inl (by rwa [hcut])⟩
        · -- the loop ate the last character before the marker, which should be kept
          rw [List.concat_eq_append] at hnodup hz hcut
          rw [List.dropLast_concat] at hz
          have hx : x ∈ z := by
            rw [hcut]
            simp
          exact absurd hx (not_mem_of_nodup hnodup hs' hz)
    · have hnil : uncommentLineBy κ z = [] := if_neg hin
      have ha' : a = [] := heq.symm.trans hnil
      subst ha'
      exact ⟨z, h, .inr ⟨rfl, hin⟩⟩
  · rintro ⟨z', hz', hpre | ⟨rfl, hin⟩⟩
    · rw [h.unique (hz'.append ha)]
      exact uncommentLineBy_cut ha.2 hpre
    · rw [h.unique hz']
      exact if_neg hin

/-- **What `rmcomment` keeps** of tagged characters is what is outside comments exactly for
the texts described by `CommentOnly`. -/
theorem uncommentBy_eq_keep_iff {file z : List α} (hnodup : file.Nodup)
    (hlit : MarkersOutsideLiterals (file.map κ)) (h : Runs κ file z) :
    uncommentBy κ z = keep (kinds (file.map κ)) file ↔ CommentOnly (file.map κ) := by
  rcases first_marker (file.map κ) with ⟨h₁, h₂⟩ | ⟨a, s, heq, ha, hs⟩
  · -- no comment at all: everything has to be kept, and nothing is
    rw [(runs_of_free h₁).mp h, uncommentBy_unmarked h₂,
      keep_kinds_unmarked h₁ h₂ (List.length_map κ).symm]
    constructor
    · rintro rfl
      exact ⟨by simp, .inl rfl⟩
    · rintro ⟨-, hnil | ⟨a, s, z, heq, -, hs, -⟩⟩
      · exact (List.map_eq_nil_iff.mp hnil).symm
      · exact absurd (heq ▸ hs.isInfix.trans (List.suffix_append a s).isInfix) h₂
  · obtain ⟨a, s, rfl, rfl, rfl⟩ := List.map_eq_append_iff.mp heq
    rcases hs with hs | hs
    · refine iff_of_false (not_strips_block hnodup ha hs h) ?_
      rintro ⟨-, hnil | ⟨a', s', z', heq', ha', hs', -⟩⟩
      · obtain ⟨r, hr⟩ := hs
        rw [List.map_append, ← hr] at hnil
        simp at hnil
      · rw [List.map_append] at heq'
        obtain ⟨-, rfl⟩ := Unmarked.unique heq' ha ha' (.inl hs) (.inr hs')
        obtain ⟨r, hr⟩ := hs
        obtain ⟨r', hr'⟩ := hs'
        have hclash := hr.trans hr'.symm
        simp at hclash
    · by_cases hn : '\n' ∈ (a ++ s).map κ
      · exact iff_of_false (not_strips_break hlit ha hs hn) fun hc => hc.1 hn
      · rw [keep_lineComment hlit ha hs hn, uncommentBy_iff hnodup ha hn h]
        constructor
        · rintro ⟨z', hz', hpre⟩
          refine ⟨hn, .inr ⟨a.map κ, s.map κ, z'.map κ, List.map_append, ha, hs, ?_, ?_⟩⟩
          · exact squeeze_eq_some_iff.mpr ⟨z', hz', rfl⟩
          · exact hpre.imp_right fun ⟨ha', hin⟩ => ⟨ha' ▸ rfl, hin⟩
        · rintro ⟨-, hnil | ⟨a', s', z', heq', ha', hs', hsq, hpre⟩⟩
          · obtain ⟨r, hr⟩ := hs
            rw [List.map_append, ← hr] at hnil
            simp at hnil
          · rw [List.map_append] at heq'
            obtain ⟨rfl, rfl⟩ := Unmarked.unique heq' ha ha' (.inr hs) (.inr hs')
            obtain ⟨z'', hz'', rfl⟩ := squeeze_eq_some_iff.mp hsq
            exact ⟨z'', hz'', hpre.imp_right fun ⟨ha', hin⟩ => ⟨List.map_eq_nil_iff.mp ha', hin⟩⟩

/-! ## `rmcomment` -/

/-- The characters `rmcomment` keeps are those outside comments, each at its place. -/
def Strips (n : Nat) (t : Text) : Prop :=
  rmcommentBy Prod.fst n t.zipIdx = some (keep (kinds t) t.zipIdx)

theorem nodup_zipIdx (t : Text) : t.zipIdx.Nodup := by
  refine List.Nodup.of_map Prod.snd ?_
  rw [List.zipIdx_map_snd]
  exact List.nodup_range'

/-- The result of `rmcomment` is what is kept of the characters with their positions. -/
theorem rmcomment_eq_some {t out : Text} {n : Nat} (h : rmcomment n t = some out) :
    ∃ z, Runs Prod.fst t.zipIdx z ∧
      rmcommentBy Prod.fst n t.zipIdx = some (uncommentBy Prod.fst z) ∧
      (uncommentBy Prod.fst z).map Prod.fst = out := by
  have hmap := map_rmcommentBy Prod.fst n t.zipIdx
  rw [List.zipIdx_map_fst, h, Option.map_eq_some_iff] at hmap
  obtain ⟨y, hy, hout⟩ := hmap
  obtain ⟨z, hz, rfl⟩ := Option.map_eq_some_iff.mp hy
  exact ⟨z, ⟨n, hz⟩, hy, hout⟩

/-- Texts without `/*`: comparing the texts is enough. -/
theorem uncomment_eq_strip_iff {t : Text} (hlit : MarkersOutsideLiterals t)
    (h₁ : ¬ "/*".toList <:+: t) : uncommentBy id t = CLex.strip t ↔ CommentOnly t := by
  rcases first_marker t with ⟨-, h₂⟩ | ⟨a, s, rfl, ha, hs | hs⟩
  · have h₂' : ¬ "//".toList <:+: t.map id := by rwa [List.map_id]
    rw [uncommentBy_unmarked h₂', CLex.strip, keep_kinds_unmarked h₁ h₂ rfl]
    constructor
    · rintro rfl
      exact ⟨by simp, .inl rfl⟩
    · rintro ⟨-, rfl | ⟨a, s, z, rfl, -, hs, -⟩⟩
      · rfl
      · exact absurd (hs.isInfix.trans (List.suffix_append a s).isInfix) h₂
  · exact absurd (hs.isInfix.trans (List.suffix_append a s).isInfix) h₁
  · rw [← List.map_id (a ++ s)] at hlit
    rw [← List.map_id a] at ha
    rw [← List.map_id s] at hs
    by_cases hn : '\n' ∈ (a ++ s).map id
    · -- the script drops the line break behind the comment
      have hne := not_strips_break (z := a ++ s) hlit ha hs hn
      rw [List.map_id] at hne hn
      exact iff_of_false hne fun hc => hc.1 hn
    · have hkeep := keep_lineComment hlit ha hs hn
      rw [uncommentBy_line hn, uncommentLineBy_cut ha.2 hs, CLex.strip]
      rw [List.map_id] at hkeep hn ha hs
      refine iff_of_true hkeep.symm ⟨hn, .inr ⟨a, s, s, rfl, ha, hs, ?_, .inl hs⟩⟩
      have hfree : ¬ "/*".toList <:+: s.map id := by
        rw [List.map_id]
        exact fun hin => h₁ (hin.trans (List.suffix_append a s).isInfix)
      exact runs_iff_squeeze.mp ((runs_of_free hfree).mpr rfl)

/-- **Comment removal**: on every text on which the loop ends and whose markers are outside
literals, `rmcomment` keeps exactly the characters outside comments if and only if the text
is one line that is empty or has its first comment behind a `//` that survives the loop.
The result is then the text without its comments; without any `/*` there is no other way
to get that text. -/
theorem strips_iff {t : Text} (hlit : MarkersOutsideLiterals t) {n : Nat} {out : Text}
    (hout : rmcomment n t = some out) :
    (Strips n t ↔ CommentOnly t) ∧ (Strips n t → out = CLex.strip t) ∧
      (¬ "/*".toList <:+: t → (out = CLex.strip t ↔ CommentOnly t)) := by
  obtain ⟨z, hz, hrm, hmap⟩ := rmcomment_eq_some hout
  have hfst : t.zipIdx.map Prod.fst = t := List.zipIdx_map_fst 0 t
  refine ⟨?_, fun hstrips => ?_, fun hfree => ?_⟩
  · have key := uncommentBy_eq_keep_iff (nodup_zipIdx t) (by rwa [hfst]) hz
    rw [hfst] at key
    rw [Strips, hrm, Option.some.injEq, key]
  · rw [Strips, hrm, Option.some.injEq] at hstrips
    rw [← hmap, hstrips, map_keep, hfst, CLex.strip]
  · have hz' : z = t.zipIdx := (runs_of_free (by rwa [hfst])).mp hz
    have hid := map_uncommentBy id t
    rw [List.map_id, List.map_id] at hid
    rw [← uncomment_eq_strip_iff hlit hfree, ← hmap, hz', map_uncommentBy, hfst, hid]

/-- A text without literals has no markers in them. -/
theorem markersOutsideLiterals {t : Text} (h : Kind.literal ∉ kinds t) : MarkersOutsideLiterals t :=
  fun _ _ _ _ hlit => h (List.mem_of_getElem? hlit)

theorem strips_iff_note : Strips 1 "int x; // note".toList := by
  have hlit : MarkersOutsideLiterals "int x; // note".toList :=
    markersOutsideLiterals (by decide)
  have hout : rmcomment 1 "int x; // note".toList = some "int x; ".toList := by decide
  refine (strips_iff hlit hout).1.mpr ⟨by decide, .inr ?_⟩
  exact ⟨"int x; ".toList, "// note".toList, "// note".toList, rfl, by decide, by decide,
    by decide, .inl (by decide)⟩

/-- A line without a comment is lost. -/
theorem not_strips_line :
    MarkersOutsideLiterals "int x;\n".toList ∧ rmcomment 1 "int x;\n".toList = some [] ∧
      CLex.strip "int x;\n".toList = "int x;\n".toList ∧ ¬ Strips 1 "int x;\n".toList := by
  refine ⟨markersOutsideLiterals (by decide), by decide, by decide, ?_⟩
  rw [Strips]
  decide

end UnikraftSuite
