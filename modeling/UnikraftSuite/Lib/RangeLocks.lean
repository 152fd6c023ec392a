import Mathlib.Data.Set.Basic
import Mathlib.Logic.Relation
import Mathlib.Logic.Function.Basic

/-!
# Locks on ranges of a file

Advisory record locks, as `fcntl` sets them. A lock belongs to an owner (a process, or an open
file description), and an owner has at most one lock on a byte, of the type it has set last.

- `Table` is the locks of all owners, byte by byte; `Table.set` sets or removes those of one
  owner on a range, whatever it had there, and `Table.drop` removes all of an owner.
- `Table.Blocked` says that another owner has a conflicting lock, so that `F_SETLKW` waits.
- `Table.Compatible` is the invariant: no two owners have conflicting locks on a byte
  (`Compatible.set`). A write lock excludes every lock of another owner (`Compatible.alone`).
- `Table.Reports` is what `F_GETLK` reports: a lock in the way, as far as it reaches.
- `Sleeps` says who sleeps on whose lock. A call of `F_SETLKW` that would close a circle
  (`Sleeps.Leads`) fails with `EDEADLK`; without those there is never one
  (`Sleeps.Acyclic.sleep`).
-/

namespace RangeLocks

/-- The type of a lock that is set. -/
inductive LType where
  | rdlck
  | wrlck
  deriving DecidableEq

/-- The bytes from `start` on, `len` of them. -/
structure Range where
  start : Nat
  len : Nat
  deriving DecidableEq

instance : Membership Nat Range := ⟨fun r b => r.start ≤ b ∧ b < r.start + r.len⟩

theorem Range.mem_iff {r : Range} {b : Nat} : b ∈ r ↔ r.start ≤ b ∧ b < r.start + r.len := Iff.rfl

instance (b : Nat) (r : Range) : Decidable (b ∈ r) := inferInstanceAs (Decidable (_ ∧ _))

/-- Two ranges have a byte in common. -/
def Range.Meets (r r' : Range) : Prop := ∃ b ∈ r, b ∈ r'

theorem Range.meets_iff {r r' : Range} :
    r.Meets r' ↔ max r.start r'.start < min (r.start + r.len) (r'.start + r'.len) := by
  constructor
  · rintro ⟨b, hb, hb'⟩
    exact lt_of_le_of_lt (max_le hb.1 hb'.1) (lt_min hb.2 hb'.2)
  · intro h
    obtain ⟨h₁, h₂⟩ := Nat.lt_min.mp h
    exact ⟨_, ⟨le_max_left _ _, h₁⟩, le_max_right _ _, h₂⟩

instance (r r' : Range) : Decidable (r.Meets r') := decidable_of_iff _ Range.meets_iff.symm

variable {ω : Type}

/-- The lock each owner has on each byte. -/
abbrev Table (ω : Type) : Type := ω → Nat → Option LType

/-- Two locks conflict if one of them is a write lock. -/
def Conflict (t t' : Option LType) : Prop :=
  t ≠ none ∧ t' ≠ none ∧ (t = some .wrlck ∨ t' = some .wrlck)

theorem conflict_some {t t' : LType} :
    Conflict (some t) (some t') ↔ t = .wrlck ∨ t' = .wrlck := by
  simp [Conflict]

theorem Conflict.symm {t t' : Option LType} (h : Conflict t t') : Conflict t' t :=
  ⟨h.2.1, h.1, h.2.2.symm⟩

namespace Table

/-- No locks. -/
def empty : Table ω := fun _ _ => none

/-- `F_SETLK` with `l_type = t`, where `none` is `F_UNLCK`. -/
def set [DecidableEq ω] (T : Table ω) (o : ω) (r : Range) (t : Option LType) : Table ω :=
  fun o' b => if o' = o ∧ b ∈ r then t else T o' b

/-- All locks of an owner are removed, as when a file is closed. -/
def drop [DecidableEq ω] (T : Table ω) (o : ω) : Table ω :=
  fun o' b => if o' = o then none else T o' b

/-- Another owner has a lock in the range that conflicts with one of type `t`. -/
def Blocked (T : Table ω) (o : ω) (r : Range) (t : LType) : Prop :=
  ∃ o' ≠ o, ∃ b ∈ r, Conflict (some t) (T o' b)

/-- No two owners have conflicting locks on a byte. -/
def Compatible (T : Table ω) : Prop := ∀ o o' b, o ≠ o' → ¬ Conflict (T o b) (T o' b)

variable {T : Table ω} {o o' : ω} {r : Range} {t : Option LType} {b : Nat}

section Set

variable [DecidableEq ω]

theorem set_self (h : b ∈ r) : T.set o r t o b = t := if_pos ⟨rfl, h⟩

theorem set_outside (h : b ∉ r) : T.set o r t o' b = T o' b := if_neg fun hb => h hb.2

theorem set_other (h : o' ≠ o) : T.set o r t o' b = T o' b := if_neg fun hb => h hb.1

theorem drop_self : T.drop o o b = none := if_pos rfl

theorem drop_other (h : o' ≠ o) : T.drop o o' b = T o' b := if_neg h

end Set

theorem compatible_empty : (empty : Table ω).Compatible := fun _ _ _ _ h => h.1 rfl

namespace Compatible

/-- A write lock excludes every lock of another owner. -/
theorem alone (h : T.Compatible) (hw : T o b = some .wrlck) (ho : o' ≠ o) : T o' b = none := by
  by_contra hne
  exact h o o' b ho.symm ⟨hw ▸ nofun, hne, .inl hw⟩

/-- Removing locks keeps the table compatible. -/
theorem of_le {T' : Table ω} (h : T.Compatible) (hle : ∀ o b, T' o b = none ∨ T' o b = T o b) :
    T'.Compatible := by
  intro o₁ o₂ b hne hc
  rcases hle o₁ b with h₁ | h₁
  · exact hc.1 h₁
  · rcases hle o₂ b with h₂ | h₂
    · exact hc.2.1 h₂
    · rw [h₁, h₂] at hc
      exact h o₁ o₂ b hne hc

variable [DecidableEq ω]

/-- So does setting a lock that is not blocked. -/
theorem set (h : T.Compatible) {t : LType} (hfree : ¬ T.Blocked o r t) :
    (T.set o r (some t)).Compatible := by
  have hnew : ∀ o' ≠ o, ∀ b ∈ r, ¬ Conflict (some t) (T o' b) :=
    fun o' ho b hb hc => hfree ⟨o', ho, b, hb, hc⟩
  intro o₁ o₂ b hne hc
  by_cases hb : b ∈ r
  · by_cases h₁ : o₁ = o
    · subst h₁
      rw [set_self hb, set_other hne.symm] at hc
      exact hnew o₂ hne.symm b hb hc
    · by_cases h₂ : o₂ = o
      · subst h₂
        rw [set_self hb, set_other hne] at hc
        exact hnew o₁ hne b hb hc.symm
      · rw [set_other h₁, set_other h₂] at hc
        exact h o₁ o₂ b hne hc
  · rw [set_outside hb, set_outside hb] at hc
    exact h o₁ o₂ b hne hc

theorem unset (h : T.Compatible) : (T.set o r none).Compatible := by
  refine h.of_le fun o' b => ?_
  unfold Table.set
  split
  · exact .inl rfl
  · exact .inr rfl

theorem drop (h : T.Compatible) : (T.drop o).Compatible := by
  refine h.of_le fun o' b => ?_
  unfold Table.drop
  split
  · exact .inl rfl
  · exact .inr rfl

end Compatible

end Table

/-! ## What is reported -/

/-- A lock, as `F_GETLK` describes it. -/
structure Lock (ω : Type) where
  type : LType
  range : Range
  owner : ω

namespace Table

variable {T : Table ω} {x : Lock ω} {r : Range} {t : LType}

/-- The owner has it, and not on the byte in front of it or on the one behind it. -/
structure Has (T : Table ω) (x : Lock ω) : Prop where
  all : ∀ b ∈ x.range, T x.owner b = some x.type
  start : ∀ b, b + 1 = x.range.start → T x.owner b ≠ some x.type
  stop : T x.owner (x.range.start + x.range.len) ≠ some x.type

/-- `F_GETLK` may report it to `o`, who asks for the range and the type. -/
structure Reports (T : Table ω) (o : ω) (r : Range) (t : LType) (x : Lock ω) : Prop where
  has : T.Has x
  other : x.owner ≠ o
  meets : ∃ b ∈ r, b ∈ x.range
  conflict : Conflict (some t) (some x.type)

/-- Where an owner has one lock, that is the lock it has. -/
theorem Has.eq_of_one (h : T.Has x) {b : Nat} (hb : b ∈ x.range)
    (hone : ∀ b, T x.owner b = if b ∈ r then some t else none) : x.type = t ∧ x.range = r := by
  have hin : ∀ b ∈ x.range, b ∈ r ∧ x.type = t := by
    intro b hb
    have hall := h.all b hb
    rw [hone] at hall
    split at hall
    · next hr => exact ⟨hr, (Option.some.inj hall).symm⟩
    · cases hall
  have htype := (hin b hb).2
  have hout : ∀ b, T x.owner b ≠ some x.type → b ∉ r := fun b hne hr =>
    hne (by rw [hone, if_pos hr, htype])
  have hstop := hout _ h.stop
  have hfirst := (hin x.range.start ⟨le_rfl, lt_of_le_of_lt hb.1 hb.2⟩).1
  have hlast : x.range.start + x.range.len - 1 ∈ r := by
    refine (hin _ ?_).1
    rw [Range.mem_iff] at hb ⊢
    omega
  have hstart : x.range.start ≤ r.start := by
    by_contra hlt
    refine hout (x.range.start - 1) (h.start _ (by omega)) ?_
    rw [Range.mem_iff] at hfirst ⊢
    omega
  rcases x with ⟨type, ⟨start, len⟩, owner⟩
  rcases r with ⟨start', len'⟩
  simp only [Range.mem_iff] at hb hfirst hlast hstop hstart
  refine ⟨htype, ?_⟩
  rw [Range.mk.injEq]
  omega

theorem has_of_one {o : ω} (hone : ∀ b, T o b = if b ∈ r then some t else none) :
    T.Has ⟨t, r, o⟩ where
  all b hb := (hone b).trans (if_pos hb)
  start b hb := by
    have hout : b ∉ r := by
      rw [Range.mem_iff]
      show ¬ (r.start ≤ b ∧ _)
      have hb : b + 1 = r.start := hb
      omega
    rw [hone, if_neg hout]
    exact nofun
  stop := by
    have hout : r.start + r.len ∉ r := fun h => Nat.lt_irrefl _ h.2
    show T o (r.start + r.len) ≠ some t
    rw [hone, if_neg hout]
    exact nofun

/-- What is reported is in the way. -/
theorem Reports.blocked {o : ω} (h : T.Reports o r t x) : T.Blocked o r t := by
  obtain ⟨b, hb, hbx⟩ := h.meets
  exact ⟨x.owner, h.other, b, hb, h.has.all b hbx ▸ h.conflict⟩

/-- A lock that is in the way is reported, if it is all that its owner has. -/
theorem reports_of_one {o o' : ω} {r' : Range} {t' : LType}
    (hone : ∀ b, T o b = if b ∈ r then some t else none) (hne : o ≠ o') (hmeets : r'.Meets r)
    (hconflict : Conflict (some t') (some t)) : T.Reports o' r' t' ⟨t, r, o⟩ :=
  ⟨has_of_one hone, hne, hmeets, hconflict⟩

end Table

/-! ## Sleeping -/

/-- The owner `o'` has a lock in the range that conflicts with one of type `t`. -/
def Table.Stops (T : Table ω) (o : ω) (r : Range) (t : LType) (o' : ω) : Prop :=
  o' ≠ o ∧ ∃ b ∈ r, Conflict (some t) (T o' b)

theorem Table.blocked_iff_stops {T : Table ω} {o : ω} {r : Range} {t : LType} :
    T.Blocked o r t ↔ ∃ o', T.Stops o r t o' := .rfl

/-- Whose lock each owner sleeps on, that waits for one. -/
abbrev Sleeps (ω : Type) : Type := ω → Option ω

/-- `o` sleeps on a lock of an owner that sleeps on one of the next, and so on up to `o'`. -/
def Sleeps.Leads (w : Sleeps ω) : ω → ω → Prop := Relation.TransGen fun o o' => w o = some o'

/-- Nobody waits for himself. -/
def Sleeps.Acyclic (w : Sleeps ω) : Prop := ∀ o, ¬ w.Leads o o

variable {w w' : Sleeps ω} {o o' : ω}

/-- Then somebody sleeps on a lock of the last one, and the first one sleeps, too. -/
theorem Sleeps.Leads.ne_none (h : w.Leads o o') : w o ≠ none := by
  obtain ⟨x, hx, -⟩ := Relation.TransGen.head'_iff.mp h
  exact hx ▸ Option.some_ne_none x

theorem Sleeps.acyclic_none : Acyclic (fun _ : ω => none) := fun _ h => h.ne_none rfl

/-- Who wakes up does no harm. -/
theorem Sleeps.Acyclic.of_le (h : w.Acyclic) (hle : ∀ o o', w' o = some o' → w o = some o') :
    w'.Acyclic := fun o hcircle => h o (hcircle.lift id hle)

/-- **Who sleeps without closing a circle** leaves none behind. -/
theorem Sleeps.Acyclic.sleep [DecidableEq ω] (h : w.Acyclic) (hne : o' ≠ o)
    (hno : ¬ w.Leads o' o) : Acyclic (Function.update w o (some o')) := by
  -- a path of the new graph is one of the old graph, or it goes over the new edge once
  have hcut : ∀ {x z : ω}, Leads (Function.update w o (some o')) x z →
      w.Leads x z ∨ (x = o ∨ w.Leads x o) ∧ (o' = z ∨ w.Leads o' z) := by
    intro x z hpath
    induction hpath using Relation.TransGen.head_induction_on with
    | @single x hxz =>
      by_cases hx : x = o
      · rw [hx, Function.update_self] at hxz
        exact .inr ⟨.inl hx, .inl (Option.some.inj hxz)⟩
      · rw [Function.update_of_ne hx] at hxz
        exact .inl (.single hxz)
    | @head x y hxy _ ih =>
      by_cases hx : x = o
      · rw [hx, Function.update_self] at hxy
        obtain rfl := Option.some.inj hxy
        refine .inr ⟨.inl hx, .inr (ih.resolve_right ?_)⟩
        rintro ⟨heq | hleads, -⟩
        · exact hne heq
        · exact hno hleads
      · rw [Function.update_of_ne hx] at hxy
        refine ih.imp (fun hyz => .head hxy hyz) (And.imp_left fun hyo => .inr ?_)
        rcases hyo with rfl | hyo
        · exact .single hxy
        · exact .head hxy hyo
  intro x hcircle
  rcases hcut hcircle with hold | ⟨rfl | hxo, rfl | hox⟩
  · exact h x hold
  · exact hne rfl
  · exact hno hox
  · exact hno hxo
  · exact hno (hox.trans hxo)

end RangeLocks
