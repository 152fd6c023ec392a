import UnikraftSuite.Convert
import Mathlib.Data.List.TakeWhile

/-!
# The loop of `rmcomment`

A turn of the loop removes the slash of the first `/*` together with the character before
it; when there is no such character it removes nothing and the text still begins with `/*`.
The star stays, so a turn can bring a new slash in front of it.

- The loop is followed on characters with tags (`rmcommentBy`), which tells where the
  characters of the result come from; `map_rmcommentBy` forgets the tags.
- `Runs` is the result of the loop, for whatever number of turns it takes, with one rule
  for each case: `runs_of_free`, `runs_cut`, `not_runs_start`.
- **`runs_iff_squeeze`**: the loop is a machine that reads the text once from left to
  right and keeps what is left of it on a stack. A star takes pairs off the stack as long as
  there is a slash on top, and the loop does not end exactly when such a slash is the
  only thing left.
- `rmcommentLoop_ends_iff`: this happens at the first star or not at all, so the texts in
  question are those with a slash at every other position up to their first star.
-/

namespace UnikraftSuite

open PyStr Substring

variable {α : Type}

/-! ## Tagged characters -/

/-- `rmcommentStep` on characters read through `κ`. -/
def stepBy (κ : α → Char) (file : List α) : List α :=
  sliceTo file (findBy κ "/*".toList file - 1) ++ sliceFrom file (findBy κ "/*".toList file + 1)

def loopBy (κ : α → Char) : Nat → List α → Option (List α)
  | 0, _ => none
  | n + 1, file =>
    if "/*".toList <:+: file.map κ then loopBy κ n (stepBy κ file) else some file

def uncommentLineBy (κ : α → Char) (line : List α) : List α :=
  if "//".toList <:+: line.map κ then (splitBy κ "//".toList line).headD [] else []

/-- The lines of a file without their line comments, as `rmcomment` joins them. -/
def uncommentBy (κ : α → Char) (file : List α) : List α :=
  (splitBy κ "\n".toList file).flatMap (uncommentLineBy κ)

def rmcommentBy (κ : α → Char) (n : Nat) (file : List α) : Option (List α) :=
  (loopBy κ n file).map (uncommentBy κ)

variable {κ : α → Char}

theorem map_stepBy (κ : α → Char) (file : List α) :
    (stepBy κ file).map κ = rmcommentStep (file.map κ) := by
  rw [stepBy, findBy_eq, List.map_append, map_sliceTo, map_sliceFrom]
  rfl

theorem map_loopBy (κ : α → Char) : ∀ (n : Nat) (file : List α),
    (loopBy κ n file).map (List.map κ) = rmcommentLoop n (file.map κ)
  | 0, _ => rfl
  | n + 1, file => by
    rw [loopBy, rmcommentLoop]
    split
    · rw [map_loopBy κ n, map_stepBy]
    · rfl

theorem map_uncommentLineBy (κ : α → Char) (line : List α) :
    (uncommentLineBy κ line).map κ = uncommentLine (line.map κ) := by
  rw [uncommentLineBy, uncommentLine, ← map_splitBy]
  split
  · cases splitBy κ "//".toList line with
    | nil => rfl
    | cons a l => rfl
  · rfl

theorem map_uncommentBy (κ : α → Char) (file : List α) :
    (uncommentBy κ file).map κ = (split "\n".toList (file.map κ)).flatMap uncommentLine := by
  rw [uncommentBy, List.map_flatMap, ← map_splitBy, List.flatMap_map]
  congr 1
  funext line
  exact map_uncommentLineBy κ line

/-- **Forgetting the tags** of the result is `rmcomment`. -/
theorem map_rmcommentBy (κ : α → Char) (n : Nat) (file : List α) :
    (rmcommentBy κ n file).map (List.map κ) = rmcomment n (file.map κ) := by
  rw [rmcommentBy, rmcomment, ← map_loopBy, Option.map_map, Option.map_map]
  congr 1
  funext z
  exact map_uncommentBy κ z

/-! ## One turn -/

/-- The texts with a `/*`: it is at the start, or after a character. -/
theorem opener_cases (κ : α → Char) (file : List α) :
    ¬ "/*".toList <:+: file.map κ ∨
    (∃ y y' b, file = y :: y' :: b ∧ κ y = '/' ∧ κ y' = '*') ∨
    ∃ a x y y' b, file = a ++ x :: y :: y' :: b ∧ κ y = '/' ∧ κ y' = '*' ∧
      ¬ "/*".toList <:+: (a ++ [x]).map κ := by
  by_cases h : "/*".toList <:+: file.map κ
  · obtain ⟨a, b, heq, hfirst⟩ := exists_cut (by decide) h
    obtain ⟨a', c, rfl, rfl, hc⟩ := List.map_eq_append_iff.mp heq
    obtain ⟨w, b', rfl, hw, rfl⟩ := List.map_eq_append_iff.mp hc
    obtain ⟨y, w, rfl, hy, hw⟩ := List.map_eq_cons_iff.mp hw
    obtain ⟨y', w, rfl, hy', hw⟩ := List.map_eq_cons_iff.mp hw
    obtain rfl := List.map_eq_nil_iff.mp hw
    rcases List.eq_nil_or_concat a' with rfl | ⟨a', x, rfl⟩
    · exact .inr (.inl ⟨y, y', b', rfl, hy, hy'⟩)
    · rw [List.concat_eq_append] at hfirst
      exact .inr (.inr ⟨a', x, y, y', b', by simp, hy, hy', hfirst.absent⟩)
  · exact .inl h

theorem opener_infix {y y' : α} (hy : κ y = '/') (hy' : κ y' = '*') (a b : List α) :
    "/*".toList <:+: (a ++ y :: y' :: b).map κ := by
  refine ⟨a.map κ, b.map κ, ?_⟩
  rw [List.map_append, List.map_cons, List.map_cons, hy, hy']
  simp

theorem opener_infix' {y y' : α} (hy : κ y = '/') (hy' : κ y' = '*') (a : List α) (x : α)
    (b : List α) : "/*".toList <:+: (a ++ x :: y :: y' :: b).map κ := by
  rw [List.append_cons]
  exact opener_infix hy hy' (a ++ [x]) b

/-- A turn removes the slash and the character before it. -/
theorem stepBy_cut {a b : List α} {x y y' : α} (hy : κ y = '/') (hy' : κ y' = '*')
    (ha : ¬ "/*".toList <:+: (a ++ [x]).map κ) :
    stepBy κ (a ++ x :: y :: y' :: b) = a ++ y' :: b := by
  have hw : [y, y'].map κ = "/*".toList := by
    rw [List.map_cons, List.map_cons, hy, hy']
    rfl
  have hassoc : a ++ x :: y :: y' :: b = (a ++ [x]) ++ ([y, y'] ++ b) := by simp
  have hfind : findBy κ "/*".toList (a ++ x :: y :: y' :: b) = ((a.length + 1 : Nat) : Int) := by
    rw [hassoc, findBy_cut (by decide) hw (.of_unbordered (by decide) ha)]
    simp
  have hpred : ((a.length + 1 : Nat) : Int) - 1 = (a.length : Nat) := by omega
  have hsucc : ((a.length + 1 : Nat) : Int) + 1 = (a.length + 2 : Nat) := by omega
  rw [stepBy, hfind, hpred, hsucc, sliceTo_ofNat, sliceFrom_ofNat, List.take_left]
  have hdrop : (a ++ x :: y :: y' :: b).drop (a.length + 2) = y' :: b := by
    rw [← List.drop_drop, List.drop_left]
    rfl
  rw [hdrop]

/-- A turn on a text that begins with `/*` leaves one that begins with `/*`. -/
theorem stepBy_start {b : List α} {y y' : α} (hy : κ y = '/') (hy' : κ y' = '*') :
    ∃ b', stepBy κ (y :: y' :: b) = y :: y' :: b' := by
  have hw : [y, y'].map κ = "/*".toList := by
    rw [List.map_cons, List.map_cons, hy, hy']
    rfl
  have hfirst : FirstAt "/*".toList (([] : List α).map κ) :=
    .of_unbordered (by decide) (by simp)
  have hfind : findBy κ "/*".toList (y :: y' :: b) = 0 := findBy_cut (by decide) hw hfirst
  have hstep : stepBy κ (y :: y' :: b) = (y :: y' :: b).dropLast ++ y' :: b := by
    rw [stepBy, hfind]
    show sliceTo _ (-1) ++ sliceFrom _ ((1 : Nat) : Int) = _
    rw [sliceTo_neg_one, sliceFrom_ofNat]
    rfl
  cases b with
  | nil => exact ⟨[], hstep⟩
  | cons c b => exact ⟨(c :: b).dropLast ++ y' :: c :: b, hstep⟩

/-! ## The loop -/

/-- The loop ends with `z`. -/
def Runs (κ : α → Char) (file z : List α) : Prop := ∃ n, loopBy κ n file = some z

theorem runs_of_free {file z : List α} (h : ¬ "/*".toList <:+: file.map κ) :
    Runs κ file z ↔ z = file := by
  constructor
  · rintro ⟨n, hn⟩
    cases n with
    | zero => cases hn
    | succ n =>
      rw [loopBy, if_neg h] at hn
      exact (Option.some.inj hn).symm
  · rintro rfl
    exact ⟨1, by rw [loopBy, if_neg h]⟩

theorem runs_step {file z : List α} (h : "/*".toList <:+: file.map κ) :
    Runs κ file z ↔ Runs κ (stepBy κ file) z := by
  constructor
  · rintro ⟨n, hn⟩
    cases n with
    | zero => cases hn
    | succ n =>
      rw [loopBy, if_pos h] at hn
      exact ⟨n, hn⟩
  · rintro ⟨n, hn⟩
    exact ⟨n + 1, by rwa [loopBy, if_pos h]⟩

theorem runs_cut {a b z : List α} {x y y' : α} (hy : κ y = '/') (hy' : κ y' = '*')
    (ha : ¬ "/*".toList <:+: (a ++ [x]).map κ) :
    Runs κ (a ++ x :: y :: y' :: b) z ↔ Runs κ (a ++ y' :: b) z := by
  rw [runs_step (opener_infix' hy hy' a x b), stepBy_cut hy hy' ha]

/-- A text that begins with `/*` keeps the loop going. -/
theorem not_runs_start {y y' : α} (hy : κ y = '/') (hy' : κ y' = '*') (b z : List α) :
    ¬ Runs κ (y :: y' :: b) z := by
  rintro ⟨n, hn⟩
  induction n generalizing b with
  | zero => cases hn
  | succ n ih =>
    obtain ⟨b', hstep⟩ := stepBy_start (b := b) hy hy'
    have hin : "/*".toList <:+: (y :: y' :: b).map κ := opener_infix hy hy' [] b
    rw [loopBy, if_pos hin, hstep] at hn
    exact ih b' hn

/-- What the loop leaves is a part of the text, in order. -/
theorem Runs.sublist {file z : List α} : Runs κ file z → z.Sublist file := by
  rintro ⟨n, hn⟩
  induction n generalizing file with
  | zero => cases hn
  | succ n ih =>
    rcases opener_cases κ file with
      h | ⟨y, y', b, rfl, hy, hy'⟩ | ⟨a, x, y, y', b, rfl, hy, hy', ha⟩
    · rw [loopBy, if_neg h] at hn
      rw [Option.some.inj hn]
    · exact absurd ⟨n + 1, hn⟩ (not_runs_start hy hy' b z)
    · rw [loopBy, if_pos (opener_infix' hy hy' a x b), stepBy_cut hy hy' ha] at hn
      refine (ih hn).trans ((List.Sublist.refl a).append ?_)
      exact ((List.Sublist.refl (y' :: b)).cons y).cons x

/-! ## The loop as a stack machine -/

/-- What a star leaves of the stack; `none` if it runs into the start of the text. -/
def settle (κ : α → Char) : List α → Option (List α)
  | [] => some []
  | [y] => if κ y = '/' then none else some [y]
  | y :: x :: st => if κ y = '/' then settle κ st else some (y :: x :: st)

/-- Read the text from left to right, with what is left of it on a stack. -/
def squeezeBy (κ : α → Char) : List α → List α → Option (List α)
  | st, [] => some st.reverse
  | st, c :: file =>
    if κ c = '*' then (settle κ st).bind fun st => squeezeBy κ (c :: st) file
    else squeezeBy κ (c :: st) file

/-- The machine on a plain text. -/
def squeeze (file : Text) : Option Text := squeezeBy id [] file

/-- No `/*` is made by a character that is not a star or does not follow a slash. -/
theorem free_push {st : List α} {c : α} (h : ¬ "/*".toList <:+: st.reverse.map κ)
    (hc : κ c = '*' → ∀ y ∈ st.head?, κ y ≠ '/') :
    ¬ "/*".toList <:+: (c :: st).reverse.map κ := by
  intro hin
  rw [List.reverse_cons, List.map_append, List.map_singleton] at hin
  rcases List.infix_concat_iff.mp hin with ⟨u, hu⟩ | hin
  · have hu' : (u ++ ['/']) ++ ['*'] = st.reverse.map κ ++ [κ c] := by
      rw [← hu, List.append_assoc]
      rfl
    obtain ⟨hst, hstar⟩ := List.append_inj' hu' rfl
    have hrev : st.map κ = '/' :: u.reverse := by
      rw [← List.reverse_reverse (st.map κ), ← List.map_reverse, ← hst, List.reverse_append]
      rfl
    obtain ⟨y, st', rfl, hy, -⟩ := List.map_eq_cons_iff.mp hrev
    exact hc (List.singleton_inj.mp hstar).symm y rfl hy
  · exact h hin

theorem free_tail {st : List α} {c : α} (h : ¬ "/*".toList <:+: (c :: st).reverse.map κ) :
    ¬ "/*".toList <:+: st.reverse.map κ := by
  intro hin
  rw [List.reverse_cons, List.map_append] at h
  exact h (List.infix_append_of_infix_left hin)

/-- After `settle` a star can be pushed. -/
theorem free_settle {c : α} : ∀ {st st' : List α}, ¬ "/*".toList <:+: st.reverse.map κ →
    settle κ st = some st' → ¬ "/*".toList <:+: (c :: st').reverse.map κ
  | [], st', h, hst => by
    rw [← Option.some.inj hst]
    exact free_push h fun _ y hy => by cases hy
  | [y], st', h, hst => by
    rw [settle] at hst
    split at hst
    · cases hst
    · rename_i hy
      rw [← Option.some.inj hst]
      exact free_push h fun _ y' hy' => Option.some.inj hy' ▸ hy
  | y :: x :: st, st', h, hst => by
    rw [settle] at hst
    split at hst
    · exact free_settle (free_tail (free_tail h)) hst
    · rename_i hy
      rw [← Option.some.inj hst]
      exact free_push h fun _ y' hy' => Option.some.inj hy' ▸ hy

/-- A star is read: the loop takes the pairs off the stack that `settle` takes. -/
theorem runs_star {file z : List α} {c : α} (hc : κ c = '*') : ∀ (st : List α),
    ¬ "/*".toList <:+: st.reverse.map κ →
    (Runs κ (st.reverse ++ c :: file) z ↔
      ∃ st', settle κ st = some st' ∧ Runs κ (st'.reverse ++ c :: file) z)
  | [], _ => ⟨fun h => ⟨[], rfl, h⟩, fun ⟨_, hst, h⟩ => Option.some.inj hst ▸ h⟩
  | [y], _ => by
    rw [settle]
    split
    · rename_i hy
      exact iff_of_false (not_runs_start hy hc file z) fun ⟨_, hst, _⟩ => by cases hst
    · exact ⟨fun h => ⟨_, rfl, h⟩, fun ⟨_, hst, h⟩ => Option.some.inj hst ▸ h⟩
  | y :: x :: st, h => by
    rw [settle]
    split
    · rename_i hy
      -- one iteration takes the slash and the character before it
      have hassoc : (y :: x :: st).reverse ++ c :: file = st.reverse ++ x :: y :: c :: file := by
        simp
      have hx : ¬ "/*".toList <:+: (st.reverse ++ [x]).map κ := by
        rw [← List.reverse_cons]
        exact free_tail h
      rw [hassoc, runs_cut hy hc hx]
      exact runs_star hc st (free_tail (free_tail h))
    · exact ⟨fun h => ⟨_, rfl, h⟩, fun ⟨_, hst, h⟩ => Option.some.inj hst ▸ h⟩

/-- The loop and the machine agree from any stack that is free of `/*`. -/
theorem runs_iff_squeezeBy {z : List α} : ∀ (file st : List α),
    ¬ "/*".toList <:+: st.reverse.map κ →
    (Runs κ (st.reverse ++ file) z ↔ squeezeBy κ st file = some z)
  | [], st, h => by
    rw [List.append_nil, runs_of_free h, squeezeBy, Option.some.injEq]
    exact eq_comm
  | c :: file, st, h => by
    have hpush : ∀ st : List α, st.reverse ++ c :: file = (c :: st).reverse ++ file := fun st => by
      rw [List.reverse_cons, List.append_assoc]
      rfl
    rw [squeezeBy]
    by_cases hc : κ c = '*'
    · rw [if_pos hc, runs_star hc st h, Option.bind_eq_some_iff]
      refine exists_congr fun st' => and_congr_right fun hst => ?_
      rw [hpush, runs_iff_squeezeBy file (c :: st') (free_settle h hst)]
    · have hfree := free_push (c := c) h fun hstar => absurd hstar hc
      rw [if_neg hc, hpush, runs_iff_squeezeBy file (c :: st) hfree]

/-- **The loop is the machine**, and ends exactly when the machine does. -/
theorem runs_iff_squeeze {file z : List α} : Runs κ file z ↔ squeezeBy κ [] file = some z :=
  runs_iff_squeezeBy file [] (by simp)

/-! ## Without tags -/

theorem rmcommentLoop_eq (n : Nat) (file : Text) : rmcommentLoop n file = loopBy id n file := by
  have h := map_loopBy id n file
  rw [List.map_id] at h
  rw [← h]
  cases loopBy id n file with
  | none => rfl
  | some z => exact congrArg some (List.map_id z)

theorem rmcommentLoop_iff_squeeze {text z : Text} :
    squeeze text = some z ↔ ∃ n, rmcommentLoop n text = some z := by
  rw [squeeze, ← runs_iff_squeeze, Runs]
  exact exists_congr fun n => by rw [rmcommentLoop_eq]

/-! ## When the loop ends -/

/-- A star runs into the start of the text when slashes and other characters alternate
on the stack, a slash at either end. -/
theorem settle_eq_none_iff : ∀ {st : List α},
    settle κ st = none ↔ st.length % 2 = 1 ∧ ∀ i y, st[2 * i]? = some y → κ y = '/'
  | [] => by simp [settle]
  | [y] => by
    have hone : (∀ i z, [y][2 * i]? = some z → κ z = '/') ↔ κ y = '/' := by
      constructor
      · intro h
        exact h 0 y rfl
      · intro h i z hz
        obtain ⟨hi, rfl⟩ := List.getElem?_eq_some_iff.mp hz
        simpa using h
    rw [hone, settle]
    by_cases hy : κ y = '/' <;> simp [hy]
  | y :: x :: st => by
    have hlen : (y :: x :: st).length % 2 = st.length % 2 := by
      rw [List.length_cons, List.length_cons]
      omega
    -- the machine takes two characters at a time, so only even positions matter
    have hpairs : (∀ i z, (y :: x :: st)[2 * i]? = some z → κ z = '/')
        ↔ κ y = '/' ∧ ∀ i z, st[2 * i]? = some z → κ z = '/' := by
      constructor
      · intro h
        exact ⟨h 0 y rfl, fun i => h (i + 1)⟩
      · rintro ⟨hy, h⟩ i z hz
        cases i with
        | zero => exact Option.some.inj hz ▸ hy
        | succ i => exact h i z hz
    rw [hlen, hpairs, settle]
    by_cases hy : κ y = '/'
    · rw [if_pos hy, settle_eq_none_iff]
      simp [hy]
    · simp [hy]

/-- What a star leaves has no slash on top, so the next star leaves it alone. -/
theorem settle_settle : ∀ {st st' : List α}, settle κ st = some st' → settle κ st' = some st'
  | [], st', h => Option.some.inj h ▸ rfl
  | [y], st', h => by
    rw [settle] at h
    split at h
    · cases h
    · rename_i hy
      rw [← Option.some.inj h, settle, if_neg hy]
  | y :: x :: st, st', h => by
    rw [settle] at h
    split at h
    · exact settle_settle h
    · rename_i hy
      rw [← Option.some.inj h, settle, if_neg hy]

/-- Above a star there is enough for the next one: it stops at the star, or behind it. -/
theorem settle_above {c : α} {st : List α} (hc : κ c ≠ '/') (hst : settle κ st = some st) :
    ∀ above : List α, ∃ st', settle κ (above ++ c :: st) = some st'
  | [] => by
    cases st with
    | nil => exact ⟨[c], by rw [List.nil_append, settle, if_neg hc]⟩
    | cons x st => exact ⟨c :: x :: st, by rw [List.nil_append, settle, if_neg hc]⟩
  | [y] => by
    by_cases hy : κ y = '/'
    · exact ⟨st, by rw [List.singleton_append, settle, if_pos hy, hst]⟩
    · exact ⟨y :: c :: st, by rw [List.singleton_append, settle, if_neg hy]⟩
  | y :: x :: above => by
    by_cases hy : κ y = '/'
    · obtain ⟨st', hst'⟩ := settle_above hc hst above
      exact ⟨st', by rw [List.cons_append, List.cons_append, settle, if_pos hy, hst']⟩
    · exact ⟨y :: x :: (above ++ c :: st), by
        rw [List.cons_append, List.cons_append, settle, if_neg hy]⟩

/-- Once a star has been read the machine does not fail any more. -/
theorem squeezeBy_total {c : α} {st : List α} (hc : κ c = '*') (hst : settle κ st = some st) :
    ∀ (file above : List α), ∃ z, squeezeBy κ (above ++ c :: st) file = some z := by
  intro file
  induction file generalizing c st with
  | nil => exact fun above => ⟨_, rfl⟩
  | cons d file ih =>
    intro above
    rw [squeezeBy]
    by_cases hd : κ d = '*'
    · have hne : κ c ≠ '/' := by
        rw [hc]
        decide
      obtain ⟨st', hst'⟩ := settle_above hne hst above
      rw [if_pos hd, hst', Option.bind_some]
      exact ih hd (settle_settle hst') []
    · rw [if_neg hd]
      exact ih hc hst (d :: above)

/-- Characters other than stars are pushed. -/
theorem squeezeBy_push {u : List α} (hu : ∀ c ∈ u, κ c ≠ '*') (file : List α) : ∀ st : List α,
    squeezeBy κ st (u ++ file) = squeezeBy κ (u.reverse ++ st) file := by
  induction u with
  | nil => exact fun _ => rfl
  | cons c u ih =>
    intro st
    obtain ⟨hc, hu⟩ := List.forall_mem_cons.mp hu
    rw [List.cons_append, squeezeBy, if_neg hc, ih hu, List.reverse_cons, List.append_assoc]
    rfl

/-- The text before the first star. -/
def beforeStar (text : Text) : Text := text.takeWhile (· ≠ '*')

/-- There is a star, and before the first one every other character is a slash, beginning
and ending with one. -/
def SlashesToStar (text : Text) : Prop :=
  '*' ∈ text ∧ (beforeStar text).length % 2 = 1 ∧
    ∀ i y, (beforeStar text)[2 * i]? = some y → y = '/'

/-- Reading a list of odd length backwards keeps the even positions. -/
theorem even_positions_reverse {P : α → Prop} {u : List α} (hodd : u.length % 2 = 1)
    (h : ∀ i y, u[2 * i]? = some y → P y) : ∀ i y, u.reverse[2 * i]? = some y → P y := by
  intro i y hy
  have hi : 2 * i < u.length := by
    obtain ⟨hi, -⟩ := List.getElem?_eq_some_iff.mp hy
    rwa [List.length_reverse] at hi
  have hmirror : u.length - 1 - 2 * i = 2 * (u.length / 2 - i) := by omega
  rw [List.getElem?_reverse hi, hmirror] at hy
  exact h _ y hy

theorem beforeStar_append {u : Text} (hu : '*' ∉ u) (b : Text) :
    beforeStar (u ++ '*' :: b) = u := by
  have hall : ∀ c ∈ u, decide (c ≠ '*') = true := fun c hc =>
    decide_eq_true fun heq => hu (heq ▸ hc)
  rw [beforeStar, List.takeWhile_append_of_pos hall]
  simp

/-- The machine fails at the first star or not at all. -/
theorem squeeze_eq_none_iff (text : Text) : squeeze text = none ↔ SlashesToStar text := by
  unfold SlashesToStar squeeze
  by_cases hstar : '*' ∈ text
  · obtain ⟨u, b, rfl, hu⟩ := List.eq_append_cons_of_mem hstar
    -- up to the first star everything is pushed; then the star settles the stack
    have hread : squeezeBy id [] (u ++ '*' :: b)
        = (settle id u.reverse).bind fun st => squeezeBy id ('*' :: st) b := by
      rw [squeezeBy_push (κ := id) (fun c hc h => hu (h ▸ hc)), List.append_nil, squeezeBy]
      exact if_pos rfl
    rw [hread, and_iff_right hstar, beforeStar_append hu]
    cases hst : settle id u.reverse with
    | none =>
      obtain ⟨hodd, hslash⟩ := settle_eq_none_iff.mp hst
      have hback := even_positions_reverse hodd hslash
      rw [List.reverse_reverse] at hback
      rw [List.length_reverse] at hodd
      exact iff_of_true rfl ⟨hodd, hback⟩
    | some st =>
      -- the first star gets through, and no later one fails
      obtain ⟨z, hz⟩ := squeezeBy_total (κ := id) (c := '*') rfl (settle_settle hst) b []
      refine iff_of_false ?_ ?_
      · rw [Option.bind_some, ← List.nil_append ('*' :: st), hz]
        exact Option.some_ne_none z
      · rintro ⟨hodd, hslash⟩
        have hnone : settle id u.reverse = none :=
          settle_eq_none_iff.mpr ⟨by rwa [List.length_reverse], even_positions_reverse hodd hslash⟩
        rw [hnone] at hst
        cases hst
  · have hwhole : squeezeBy id [] text = some text := by
      have hpush := squeezeBy_push (κ := id) (u := text) (fun c hc h => hstar (h ▸ hc)) [] []
      rw [List.append_nil, List.append_nil] at hpush
      rw [hpush, squeezeBy, List.reverse_reverse]
    rw [hwhole]
    exact iff_of_false (Option.some_ne_none text) fun h => hstar h.1

/-- **Termination**: the loop of `rmcomment` ends if and only if the text does not have a
slash at every other position up to its first star. -/
theorem rmcommentLoop_ends_iff (text : Text) :
    (∃ n z, rmcommentLoop n text = some z) ↔ ¬ SlashesToStar text := by
  rw [← squeeze_eq_none_iff, ← ne_eq, Option.ne_none_iff_exists', exists_comm]
  exact exists_congr fun z => rmcommentLoop_iff_squeeze.symm

/-- A text that begins with a comment. -/
theorem not_rmcommentLoop_ends_comment :
    ¬ ∃ n z, rmcommentLoop n "/* Copyright */\nint main(void)\n".toList = some z := by
  have hnone : squeeze "/* Copyright */\nint main(void)\n".toList = none := by decide
  rintro ⟨n, z, h⟩
  rw [rmcommentLoop_iff_squeeze.mpr ⟨n, h⟩] at hnone
  cases hnone

end UnikraftSuite
