import Mathlib.Data.List.Forall2

/-!
# Programs that may raise

A program that may raise an exception is a value of `Except ε α`. The rules
here take a sequence or a loop of such programs apart: a sequence returns when
both parts return (`bind_eq_ok`), and a loop that collects results (`List.mapM`)
or threads a state (`List.foldlM`) returns when every turn does.
-/

namespace Raise

universe u v w

variable {ε : Type u} {α β : Type v} {γ : Type v}

/-- The program ends without an exception. -/
def Returns (x : Except ε α) : Prop := ∃ a, x = .ok a

theorem returns_ok (a : α) : Returns (.ok a : Except ε α) := ⟨a, rfl⟩

theorem not_returns_error (e : ε) : ¬ Returns (.error e : Except ε α) := by
  rintro ⟨a, ha⟩
  cases ha

theorem returns_pure (a : α) : Returns (pure a : Except ε α) := ⟨a, rfl⟩

@[simp] theorem ok_bind (a : α) (f : α → Except ε γ) : (Except.ok a >>= f) = f a := rfl

@[simp] theorem error_bind (e : ε) (f : α → Except ε γ) :
    (Except.error e >>= f) = .error e := rfl

/-- A sequence returns what its second part returns on the result of the first. -/
theorem bind_eq_ok {x : Except ε α} {f : α → Except ε γ} {c : γ} :
    x >>= f = .ok c ↔ ∃ a, x = .ok a ∧ f a = .ok c := by
  cases x with
  | error e =>
    constructor
    · intro h
      cases h
    · rintro ⟨a, ha, -⟩
      cases ha
  | ok a =>
    constructor
    · exact fun h => ⟨a, rfl, h⟩
    · rintro ⟨b, hb, hf⟩
      cases hb
      exact hf

theorem returns_bind {x : Except ε α} {f : α → Except ε γ} :
    Returns (x >>= f) ↔ ∃ a, x = .ok a ∧ Returns (f a) := by
  constructor
  · rintro ⟨c, hc⟩
    obtain ⟨a, ha, hf⟩ := bind_eq_ok.mp hc
    exact ⟨a, ha, c, hf⟩
  · rintro ⟨a, ha, c, hf⟩
    exact ⟨c, bind_eq_ok.mpr ⟨a, ha, hf⟩⟩

theorem map_eq_ok {x : Except ε α} {f : α → γ} {c : γ} :
    x.map f = .ok c ↔ ∃ a, x = .ok a ∧ f a = c := by
  cases x with
  | error e =>
    constructor
    · intro h
      cases h
    · rintro ⟨a, ha, -⟩
      cases ha
  | ok a =>
    constructor
    · exact fun h => ⟨a, rfl, Except.ok.inj h⟩
    · rintro ⟨b, hb, rfl⟩
      cases hb
      rfl

theorem returns_map {x : Except ε α} {f : α → γ} : Returns (x.map f) ↔ Returns x := by
  cases x with
  | error e => exact iff_of_false (not_returns_error e) (not_returns_error e)
  | ok a => exact iff_of_true (returns_ok (f a)) (returns_ok a)

theorem returns_mapError {δ : Type u} {x : Except ε α} {f : ε → δ} :
    Returns (x.mapError f) ↔ Returns x := by
  cases x with
  | error e => exact iff_of_false (not_returns_error _) (not_returns_error e)
  | ok a => exact iff_of_true (returns_ok a) (returns_ok a)

/-- A sequence whose second part never raises. -/
theorem returns_bind_of_total {x : Except ε α} {f : α → Except ε γ} (h : ∀ a, Returns (f a)) :
    Returns (x >>= f) ↔ Returns x := by
  rw [returns_bind]
  exact exists_congr fun a => and_iff_left (h a)

/-! ## Loops that collect -/

section Loops

variable {σ : Type w}

/-- A collecting loop whose turns all return. -/
theorem mapM_of_ok {f : σ → Except ε γ} {g : σ → γ} :
    ∀ {l : List σ}, (∀ a ∈ l, f a = .ok (g a)) → l.mapM f = .ok (l.map g)
  | [], _ => List.mapM_nil
  | a :: l, h => by
    rw [List.mapM_cons, h a List.mem_cons_self,
      mapM_of_ok fun b hb => h b (List.mem_cons_of_mem a hb)]
    rfl

/-- A collecting loop that changes every result. -/
theorem mapM_map {f : σ → Except ε β} {g : β → γ} :
    ∀ l : List σ, (l.mapM fun a => (f a).map g) = (l.mapM f).map (List.map g)
  | [] => rfl
  | a :: l => by
    rw [List.mapM_cons, List.mapM_cons, mapM_map l]
    cases f a with
    | error e => rfl
    | ok b =>
      cases l.mapM f with
      | error e => rfl
      | ok bs => rfl

/-- What a collecting loop returns, turn by turn. -/
theorem mapM_eq_ok_iff {f : σ → Except ε γ} :
    ∀ {l : List σ} {r : List γ},
      l.mapM f = .ok r ↔ List.Forall₂ (fun a c => f a = .ok c) l r
  | [], r => by
    rw [List.mapM_nil]
    constructor
    · intro h
      cases h
      exact .nil
    · intro h
      cases h
      rfl
  | a :: l, r => by
    rw [List.mapM_cons, bind_eq_ok]
    constructor
    · rintro ⟨c, hc, h⟩
      obtain ⟨cs, hcs, h⟩ := bind_eq_ok.mp h
      cases h
      exact .cons hc (mapM_eq_ok_iff.mp hcs)
    · intro h
      cases h with
      | cons hc h => exact ⟨_, hc, bind_eq_ok.mpr ⟨_, mapM_eq_ok_iff.mpr h, rfl⟩⟩

/-- What is in the result of a collecting loop. -/
theorem mem_mapM {f : σ → Except ε γ} :
    ∀ {l : List σ} {r : List γ}, l.mapM f = .ok r → ∀ {c : γ}, c ∈ r ↔ ∃ a ∈ l, f a = .ok c
  | [], r, h, c => by
    cases h
    simp
  | a :: l, r, h, c => by
    rw [List.mapM_cons] at h
    obtain ⟨d, hd, h⟩ := bind_eq_ok.mp h
    obtain ⟨ds, hds, h⟩ := bind_eq_ok.mp h
    cases h
    rw [List.mem_cons, mem_mapM hds]
    constructor
    · rintro (rfl | ⟨b, hb, hbc⟩)
      · exact ⟨a, List.mem_cons_self, hd⟩
      · exact ⟨b, List.mem_cons_of_mem a hb, hbc⟩
    · rintro ⟨b, hb, hbc⟩
      rcases List.mem_cons.mp hb with rfl | hb
      · rw [hd] at hbc
        exact .inl (Except.ok.inj hbc).symm
      · exact .inr ⟨b, hb, hbc⟩

/-- A collecting loop returns if and only if every turn does. -/
theorem returns_mapM {f : σ → Except ε γ} :
    ∀ {l : List σ}, Returns (l.mapM f) ↔ ∀ a ∈ l, Returns (f a)
  | [] => iff_of_true (returns_pure []) (by simp)
  | a :: l => by
    rw [List.mapM_cons, returns_bind, List.forall_mem_cons, ← returns_mapM (l := l)]
    constructor
    · rintro ⟨c, hc, h⟩
      obtain ⟨cs, hcs, -⟩ := returns_bind.mp h
      exact ⟨⟨c, hc⟩, cs, hcs⟩
    · rintro ⟨⟨c, hc⟩, cs, hcs⟩
      exact ⟨c, hc, returns_bind.mpr ⟨cs, hcs, returns_pure _⟩⟩

/-- A collecting loop whose turns raise nothing but `e` raises `e` unless all return. -/
theorem mapM_eq_error {f : σ → Except ε γ} {e : ε} :
    ∀ {l : List σ}, (∀ a ∈ l, f a = .error e ∨ Returns (f a)) →
      ¬ (∀ a ∈ l, Returns (f a)) → l.mapM f = .error e
  | [], _, h => absurd (by simp) h
  | a :: l, hl, h => by
    rw [List.mapM_cons]
    rcases hl a List.mem_cons_self with herr | ⟨c, hc⟩
    · rw [herr, error_bind]
    · have htail : ¬ ∀ b ∈ l, Returns (f b) :=
        fun hb => h (List.forall_mem_cons.mpr ⟨⟨c, hc⟩, hb⟩)
      rw [hc, ok_bind, mapM_eq_error (fun b hb => hl b (List.mem_cons_of_mem a hb)) htail,
        error_bind]

/-! ## Loops that thread a state -/

/-- What every turn of a loop keeps. -/
theorem foldlM_invariant {f : γ → σ → Except ε γ} (P : γ → Prop)
    (hstep : ∀ s a t, P s → f s a = .ok t → P t) :
    ∀ {l : List σ} {s t : γ}, P s → l.foldlM f s = .ok t → P t
  | [], s, t, hs, h => by
    cases h
    exact hs
  | a :: l, s, t, hs, h => by
    rw [List.foldlM_cons] at h
    obtain ⟨s', hs', h⟩ := bind_eq_ok.mp h
    exact foldlM_invariant P hstep (hstep s a s' hs hs') h

/-- A loop whose turns compute something without looking at the state, and then change the
state by it, is a collecting loop followed by the changes. -/
theorem foldlM_map {g : σ → Except ε β} {upd : γ → β → γ} (l : List σ) (s : γ) :
    (l.foldlM (fun s a => (g a).map (upd s)) s) = (l.mapM g).map (List.foldl upd s) := by
  induction l generalizing s with
  | nil => rfl
  | cons a l ih =>
    rw [List.foldlM_cons, List.mapM_cons]
    cases g a with
    | error e => rfl
    | ok b =>
      show l.foldlM (fun s a => (g a).map (upd s)) (upd s b) = _
      rw [ih]
      cases l.mapM g with
      | error e => rfl
      | ok bs => rfl

end Loops

end Raise
