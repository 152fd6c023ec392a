import UnikraftSuite.Syscalls.Fcntl17Control

/-!
# Locks and answers in `fcntl17`

What there is to find out by where the children are.

- `Answers`: what `F_SETLKW` has returned. First one of the two is refused; the other one gets its
  lock when that has exited.
- `Locked`: the locks. A child has locked its range from `F_SETLK` on, and the one of `F_SETLKW`
  if that was granted.
- `Mailed`: what the parent has not read yet.
-/

namespace Syscalls.Fcntl17

open RangeLocks

variable {s s' : State} {c d : Child} {pc : Pc} {l : List (Child × Int)}

/-! ## The answers of `F_SETLKW` -/

/-- The parent has told two of the children to go on, at least. -/
def Main.Late : Main → Prop
  | .forking _ | .freeing _ | .waiting _ | .testing _ | .resuming .two | .resuming .three => False
  | _ => True

theorem Main.late_of_sent {m : Main} (h2 : 2 ≤ m.sent .two) (h3 : 2 ≤ m.sent .three) : m.Late := by
  cases m with
  | forking d | freeing d | waiting d | testing d =>
    cases d <;> exact absurd h3 (by decide)
  | resuming d =>
    cases d with
    | one => exact trivial
    | two => exact absurd h3 (by decide)
    | three => exact absurd h3 (by decide)
  | _ => exact trivial

/-- When a child is told to go on, all of them have their first lock. -/
theorem Main.least_of_sent {m : Main} (h : 2 ≤ m.sent c) (d : Child) : 4 ≤ m.least d := by
  cases m with
  | forking e | freeing e | waiting e | testing e =>
    cases c <;> cases e <;> exact absurd h (by decide)
  | joining e => cases d <;> cases e <;> decide
  | judging | finished pass => exact (by decide : 4 ≤ 10)
  | _ => exact Nat.le_refl 4

/-- A child that has been let go for the first time, and has not told so yet, is the one that the
parent waits for. -/
theorem Main.eq_waiting {m : Main} (hsent : 1 ≤ m.sent c) (hleast : m.least c ≤ 3) :
    m = .waiting c := by
  cases m with
  | forking d | freeing d | waiting d | testing d | joining d =>
    cases c <;> cases d <;> first | rfl | exact absurd hsent (by decide) |
      exact absurd hleast (by decide)
  | judging | finished pass => exact absurd hleast (by decide : ¬ 10 ≤ 3)
  | _ => exact absurd hleast (by decide : ¬ 4 ≤ 3)

/-- The one that is refused waits for the end, and the other one gets its lock behind that. -/
inductive Answers (pc : Child → Pc) : List (Child × Int) → Prop
  | none (h : ∀ c ≠ .one, (pc c).stage ≤ 6) : Answers pc []
  | refused {v w d : Child} (hv : v ≠ .one) (hw : w ≠ .one) (hne : v ≠ w) (hpv : 7 ≤ (pc v).stage)
    (hpw : pc w = .blocked d) : Answers pc [(v, EDEADLK)]
  | granted {v w : Child} (hv : v ≠ .one) (hw : w ≠ .one) (hne : v ≠ w) (hpv : pc v = .exited 1)
    (hpw : 7 ≤ (pc w).stage) : Answers pc [(v, EDEADLK), (w, 0)]

theorem Child.eq_or_eq {v w : Child} (hv : v ≠ .one) (hw : w ≠ .one) (hne : v ≠ w) (hc : c ≠ .one) :
    c = v ∨ c = w := by
  cases c <;> cases v <;> cases w <;> simp_all

theorem Child.exists_other (hc : c ≠ .one) : ∃ v ≠ c, v ≠ .one := by
  cases c with
  | one => exact absurd rfl hc
  | two => exact ⟨.three, nofun, nofun⟩
  | three => exact ⟨.two, nofun, nofun⟩

theorem Child.second_ne_none : c.second ≠ none ↔ c ≠ .one := by
  cases c <;> decide

theorem State.Asks.ne_one {r : Range} (h : s.Asks c r) : c ≠ .one :=
  Child.second_ne_none.mp (h.1 ▸ Option.some_ne_none r)

/-- A child goes on, but not out of `F_SETLKW`. -/
theorem Answers.goto {pcs : Child → Pc} (h : Answers pcs l) {old : Pc} (hold : pcs c = old)
    (hb : ∀ d, old ≠ .blocked d) (he : ∀ status, old ≠ .exited status)
    (h6 : c ≠ .one → old.stage ≤ 6 → pc.stage ≤ 6) (h7 : old.stage ≤ pc.stage) :
    Answers (Function.update pcs c pc) l := by
  cases h with
  | none h =>
    refine .none fun d hd => ?_
    by_cases heq : d = c
    · rw [heq, Function.update_self]
      rw [heq] at hd
      exact h6 hd (hold ▸ h c hd)
    · rw [Function.update_of_ne heq]
      exact h d hd
  | @refused v w d hv hw hne hpv hpw =>
    have hwc : w ≠ c := fun heq => hb d (hold.symm.trans (heq ▸ hpw))
    refine .refused hv hw hne ?_ (by rwa [Function.update_of_ne hwc])
    by_cases heq : v = c
    · rw [heq, hold] at hpv
      rw [heq, Function.update_self]
      exact hpv.trans h7
    · rwa [Function.update_of_ne heq]
  | @granted v w hv hw hne hpv hpw =>
    have hvc : v ≠ c := fun heq => he 1 (hold.symm.trans (heq ▸ hpv))
    refine .granted hv hw hne (by rwa [Function.update_of_ne hvc]) ?_
    by_cases heq : w = c
    · rw [heq, hold] at hpw
      rw [heq, Function.update_self]
      exact hpw.trans h7
    · rwa [Function.update_of_ne heq]

/-- A child sleeps, for the first time or again. -/
theorem Answers.sleep {pcs : Child → Pc} (h : Answers pcs l) (hc : c ≠ .one)
    (hstage : (pcs c).stage ≤ 6) : Answers (Function.update pcs c (.blocked d)) l := by
  cases h with
  | none h =>
    refine .none fun e he => ?_
    by_cases heq : e = c
    · rw [heq, Function.update_self]
      exact Nat.le_refl 6
    · rw [Function.update_of_ne heq]
      exact h e he
  | @refused v w e hv hw hne hpv hpw =>
    have hvc : v ≠ c := fun heq => absurd (hpv.trans (heq ▸ hstage)) (by decide)
    have hwc : c = w := (Child.eq_or_eq hv hw hne hc).resolve_left hvc.symm
    refine .refused hv hw hne (by rwa [Function.update_of_ne hvc]) (d := d) ?_
    rw [hwc, Function.update_self]
  | @granted v w hv hw hne hpv hpw =>
    exfalso
    rcases Child.eq_or_eq hv hw hne hc with rfl | rfl
    · rw [hpv] at hstage
      exact absurd hstage (by decide)
    · exact absurd (hpw.trans hstage) (by decide)

theorem Answers.stage_of_mem {pcs : Child → Pc} (h : Answers pcs l) {x : Child × Int} (hx : x ∈ l) :
    x.1 ≠ .one ∧ 7 ≤ (pcs x.1).stage ∧ (x.2 = 0 ∨ x.2 = EDEADLK) := by
  cases h with
  | none h => cases hx
  | refused hv hw hne hpv hpw =>
    rw [List.mem_singleton.mp hx]
    exact ⟨hv, hpv, .inr rfl⟩
  | granted hv hw hne hpv hpw =>
    rcases List.mem_cons.mp hx with rfl | hx
    · exact ⟨hv, by rw [hpv]; decide, .inr rfl⟩
    · rw [List.mem_singleton.mp hx]
      exact ⟨hw, hpw, .inl rfl⟩

/-- Once there is an answer, both have gone on. -/
theorem Answers.six_le {pcs : Child → Pc} (h : Answers pcs l) (hsome : l ≠ []) (hc : c ≠ .one) :
    6 ≤ (pcs c).stage := by
  cases h with
  | none h => exact absurd rfl hsome
  | refused hv hw hne hpv hpw =>
    rcases Child.eq_or_eq hv hw hne hc with rfl | rfl
    · exact Nat.le_of_succ_le hpv
    · rw [hpw]
      exact Nat.le_refl 6
  | granted hv hw hne hpv hpw =>
    rcases Child.eq_or_eq hv hw hne hc with rfl | rfl
    · rw [hpv]
      exact (by decide : 6 ≤ 10)
    · exact Nat.le_of_succ_le hpw

theorem Control.late (h : Control s) (hanswers : Answers s.pc s.answers) (hne : s.answers ≠ []) :
    s.main.Late := by
  have hsent : ∀ c ≠ .one, 2 ≤ s.main.sent c := by
    intro c hc
    have hreceived := (Pc.received_le_of_stage (s.pc c)).2.1
    have hmail := (h.mail c).1
    have := hanswers.six_le hne hc
    omega
  exact Main.late_of_sent (hsent .two nofun) (hsent .three nofun)

/-! ## The locks -/

/-- The child has the lock of `F_SETLK`. -/
def Child.HasFirst (c : Child) (pc : Pc) : Prop :=
  3 ≤ pc.stage ∧ pc.stage < 10 ∧ (c = .one → pc.stage < 8)

theorem hasFirst_iff (hc : c ≠ .one) : c.HasFirst pc ↔ 3 ≤ pc.stage ∧ pc.stage < 10 :=
  ⟨fun h => ⟨h.1, h.2.1⟩, fun h => ⟨h.1, h.2, fun heq => absurd heq hc⟩⟩

theorem hasFirst_of_lt (h3 : 3 ≤ pc.stage) (h8 : pc.stage < 8) : c.HasFirst pc :=
  ⟨h3, by omega, fun _ => h8⟩

/-- The child has locked the byte. -/
def State.Held (s : State) (c : Child) (b : Nat) : Prop :=
  (b ∈ c.first ∧ c.HasFirst (s.pc c)) ∨
    ((c, 0) ∈ s.answers ∧ (s.pc c).stage < 10 ∧ ∃ r, c.second = some r ∧ b ∈ r)

/-- The locks are those, and the parent has none. -/
structure Locked (s : State) : Prop where
  child : ∀ c b, s.locks (some c) b = some .wrlck ↔ s.Held c b
  write : ∀ c b, s.locks (some c) b = none ∨ s.locks (some c) b = some .wrlck
  parent : ∀ b, s.locks none b = none

theorem Locked.start : Locked .start where
  child c b := by
    refine iff_of_false nofun ?_
    rintro (⟨-, hstage, -⟩ | ⟨hmem, -⟩)
    · exact absurd hstage (by decide : ¬ 3 ≤ 0)
    · cases hmem
  write _ _ := .inl rfl
  parent _ := rfl

theorem held_congr (hpc : s'.pc d = s.pc d) (hmem : (d, 0) ∈ s'.answers ↔ (d, 0) ∈ s.answers)
    (b : Nat) : s'.Held d b ↔ s.Held d b := by
  rw [State.Held, State.Held, hpc, hmem]

/-- A step of the child `c`, which may change its locks. -/
theorem Locked.change (h : Locked s) (hpc : s'.pc = Function.update s.pc c pc)
    (hmem : ∀ d ≠ c, (d, 0) ∈ s'.answers ↔ (d, 0) ∈ s.answers)
    (hlocks : ∀ o ≠ some c, ∀ b, s'.locks o b = s.locks o b)
    (hself : ∀ b, (s'.locks (some c) b = some .wrlck ↔ s'.Held c b) ∧
      (s'.locks (some c) b = none ∨ s'.locks (some c) b = some .wrlck)) : Locked s' where
  child d b := by
    by_cases heq : d = c
    · exact heq ▸ (hself b).1
    · rw [hlocks _ (fun he => heq (Option.some.inj he)), held_congr ?_ (hmem d heq)]
      · exact h.child d b
      · rw [hpc, Function.update_of_ne heq]
  write d b := by
    by_cases heq : d = c
    · exact heq ▸ (hself b).2
    · rw [hlocks _ fun he => heq (Option.some.inj he)]
      exact h.write d b
  parent b := (hlocks none nofun b).trans (h.parent b)

/-- A step that has nothing to do with locks. -/
theorem Locked.goto (h : Locked s) {old : Pc} (hold : s.pc c = old)
    (hpc : s'.pc = Function.update s.pc c pc)
    (hmem : ∀ d, (d, 0) ∈ s'.answers ↔ (d, 0) ∈ s.answers) (hlocks : s'.locks = s.locks)
    (hfirst : c.HasFirst pc ↔ c.HasFirst old) (hten : pc.stage < 10 ↔ old.stage < 10) :
    Locked s' := by
  refine h.change hpc (fun d _ => hmem d) (fun o _ b => by rw [hlocks]) fun b => ⟨?_, ?_⟩
  · rw [hlocks, h.child, State.Held, State.Held, hpc, Function.update_self, hold, hfirst, hten,
      hmem]
  · rw [hlocks]
    exact h.write c b

/-- The child unlocks everything. -/
theorem Locked.drop (h : Locked s) (hpc : s'.pc = Function.update s.pc c pc)
    (hmem : s'.answers = s.answers) (hlocks : s'.locks = s.locks.drop (some c))
    (hfirst : ¬ c.HasFirst pc) (hsecond : pc.stage < 10 → c.second = none) : Locked s' := by
  refine h.change hpc (fun d _ => by rw [hmem]) (fun o ho b => ?_) fun b => ⟨?_, .inl ?_⟩
  · rw [hlocks]
    exact Table.drop_other ho
  · rw [hlocks, Table.drop_self, State.Held, hpc, Function.update_self]
    refine iff_of_false nofun ?_
    rintro (⟨-, h⟩ | ⟨-, hten, r, hr, -⟩)
    · exact hfirst h
    · rw [hsecond hten] at hr
      cases hr
  · rw [hlocks]
    exact Table.drop_self

/-- The child locks a range. -/
theorem Locked.set (h : Locked s) {r : Range} (hpc : s'.pc = Function.update s.pc c pc)
    (hmem : ∀ d ≠ c, (d, 0) ∈ s'.answers ↔ (d, 0) ∈ s.answers)
    (hlocks : s'.locks = s.locks.set (some c) r (some .wrlck))
    (hheld : ∀ b, s'.Held c b ↔ b ∈ r ∨ s.Held c b) : Locked s' := by
  refine h.change hpc hmem (fun o ho b => ?_) fun b => ?_
  · rw [hlocks]
    exact Table.set_other ho
  · rw [hlocks, hheld]
    by_cases hb : b ∈ r
    · rw [Table.set_self hb]
      exact ⟨iff_of_true rfl (.inl hb), .inr rfl⟩
    · rw [Table.set_outside hb, or_iff_right hb]
      exact ⟨h.child c b, h.write c b⟩

/-- If a lock is in the way, it is the lock of a child. -/
theorem Locked.blocked_iff (h : Locked s) {r : Range} :
    s.locks.Blocked (some c) r .wrlck ↔ ∃ d, s.locks.Stops (some c) r .wrlck (some d) := by
  rw [Table.blocked_iff_stops]
  constructor
  · rintro ⟨o, hstops⟩
    cases o with
    | none =>
      obtain ⟨-, b, -, -, hconflict, -⟩ := hstops
      exact absurd (h.parent b) hconflict
    | some d => exact ⟨d, hstops⟩
  · rintro ⟨d, hstops⟩
    exact ⟨some d, hstops⟩

theorem first_div {b : Nat} (h : b ∈ c.first) : b / 8 = c.rank := by
  cases c with
  | _ =>
    rw [Range.mem_iff] at h
    simp only [Child.first, lock1, lock2, lock3] at h
    simp only [Child.rank]
    omega

theorem first_disjoint {b : Nat} (hc : b ∈ c.first) (hd : b ∈ d.first) : c = d := by
  have hrank : c.rank = d.rank := (first_div hc).symm.trans (first_div hd)
  cases c <;> cases d <;> first | rfl | cases hrank

/-- What each of the two asks for is what the other one has locked. -/
theorem second_meets {v w : Child} (hv : v ≠ .one) (hw : w ≠ .one) (hne : v ≠ w) {r : Range}
    (hr : w.second = some r) : ∃ b ∈ r, b ∈ v.first := by
  cases w with
  | one => exact absurd rfl hw
  | two =>
    cases hr
    cases v with
    | three => exact ⟨17, by decide, by decide⟩
    | one => exact absurd rfl hv
    | two => exact absurd rfl hne
  | three =>
    cases hr
    cases v with
    | two => exact ⟨9, by decide, by decide⟩
    | one => exact absurd rfl hv
    | three => exact absurd rfl hne

/-- A lock in the way of a child is that of another one. -/
theorem Locked.stops_iff (h : Locked s) {r : Range} :
    s.locks.Stops (some c) r .wrlck (some d) ↔ d ≠ c ∧ ∃ b ∈ r, s.Held d b := by
  constructor
  · rintro ⟨hd, b, hb, -, hconflict, -⟩
    exact ⟨fun heq => hd (congrArg some heq), b, hb,
      (h.child d b).mp ((h.write d b).resolve_left hconflict)⟩
  · rintro ⟨hd, b, hb, hheld⟩
    exact ⟨fun heq => hd (Option.some.inj heq), b, hb, nofun, (h.child d b).mpr hheld ▸ nofun,
      .inl rfl⟩

/-- While the lock of `v` is there, it is in the way of `w`. -/
theorem Locked.stops (h : Locked s) {v w : Child} (hv : v ≠ .one) (hw : w ≠ .one) (hne : v ≠ w)
    (hfirst : v.HasFirst (s.pc v)) {r : Range} (hr : w.second = some r) :
    s.locks.Stops (some w) r .wrlck (some v) := by
  obtain ⟨b, hb, hbv⟩ := second_meets hv hw hne hr
  exact h.stops_iff.mpr ⟨hne, b, hb, .inl ⟨hbv, hfirst⟩⟩

/-! ## The messages to the parent -/

/-- The parent has been told about the deadlock. -/
def Main.past : Main → Bool
  | .checking _ | .ignoring | .stopping _ | .joining _ | .judging | .finished _ => true
  | _ => false

/-- The message for the first `parent_wait` about a child. -/
def firstMail (m : Main) (pcs : Child → Pc) : List Int :=
  match m with
  | .waiting c => if 4 ≤ (pcs c).stage then [0] else []
  | _ => []

/-- The answers that the children have told. -/
def told (pcs : Child → Pc) (l : List (Child × Int)) : List Int :=
  (l.filter fun x => decide (8 ≤ (pcs x.1).stage)).map Prod.snd

structure Mailed (s : State) : Prop where
  mail : s.toParent = firstMail s.main s.pc ++ (told s.pc s.answers).drop s.main.past.toNat
  past : s.main.past = true → told s.pc s.answers ≠ []
  locked : ∀ c arg, s.pc c = .locked arg → arg = 0
  answered : ∀ c arg, s.pc c = .answered arg → (c, arg) ∈ s.answers

/-- A message to a child does not make the parent hear more or less. -/
theorem Main.past_of_sends {m m' : Main} {arg : Int} (h : m.sends = some (c, arg, m')) :
    m'.past = m.past ∧ (∀ d, m ≠ .waiting d) ∧
      ((m = .freeing c ∧ m' = .waiting c) ∨ ∀ d, m' ≠ .waiting d) := by
  cases m with
  | freeing d =>
    cases h
    exact ⟨rfl, nofun, .inl ⟨rfl, rfl⟩⟩
  | resuming d | stopping d =>
    cases d with
    | _ =>
      cases h
      exact ⟨rfl, nofun, .inr nofun⟩
  | _ => cases h

theorem firstMail_eq_nil {m : Main} {pcs : Child → Pc} (h : ∀ c, m ≠ .waiting c) :
    firstMail m pcs = [] := by
  cases m with
  | waiting c => exact absurd rfl (h c)
  | _ => rfl

theorem firstMail_update {m : Main} {pcs : Child → Pc} (h : 4 ≤ pc.stage ↔ 4 ≤ (pcs c).stage) :
    firstMail m (Function.update pcs c pc) = firstMail m pcs := by
  cases m with
  | waiting d =>
    by_cases heq : d = c
    · simp only [firstMail, heq, Function.update_self, h]
    · simp only [firstMail, Function.update_of_ne heq]
  | _ => rfl

theorem told_update {pcs : Child → Pc}
    (h : ∀ arg, (c, arg) ∈ l → (8 ≤ pc.stage ↔ 8 ≤ (pcs c).stage)) :
    told (Function.update pcs c pc) l = told pcs l := by
  refine congrArg (List.map Prod.snd) (List.filter_congr fun x hx => ?_)
  by_cases heq : x.1 = c
  · rw [heq, Function.update_self, decide_eq_decide]
    exact h x.2 (heq ▸ hx)
  · rw [Function.update_of_ne heq]

theorem told_cons (pcs : Child → Pc) (c : Child) (arg : Int) (l : List (Child × Int)) :
    told pcs ((c, arg) :: l) = if 8 ≤ (pcs c).stage then arg :: told pcs l else told pcs l := by
  by_cases h : 8 ≤ (pcs c).stage
  · rw [told, List.filter_cons_of_pos (by exact decide_eq_true h), if_pos h]
    rfl
  · rw [told, List.filter_cons_of_neg (by exact mt of_decide_eq_true h), if_neg h]
    rfl

theorem told_append (pcs : Child → Pc) (c : Child) (arg : Int) (l : List (Child × Int)) :
    told pcs (l ++ [(c, arg)]) = told pcs l ++ if 8 ≤ (pcs c).stage then [arg] else [] := by
  induction l with
  | nil => exact told_cons pcs c arg []
  | cons x l ih =>
    rw [List.cons_append, told_cons, told_cons, ih]
    split
    · rfl
    · rfl

/-- An answer is not told at once. -/
theorem told_answer {pcs : Child → Pc} {arg : Int} (hold : (pcs c).stage < 8)
    (hpc : pc.stage < 8) : told (Function.update pcs c pc) (l ++ [(c, arg)]) = told pcs l := by
  rw [told_append, Function.update_self, if_neg (Nat.not_le.mpr hpc), List.append_nil]
  exact told_update fun _ _ => iff_of_false (Nat.not_le.mpr hpc) (Nat.not_le.mpr hold)

/-- A child goes on, and tells nothing. -/
theorem Mailed.goto (h : Mailed s) {old : Pc} (hold : s.pc c = old) (hmain : s'.main = s.main)
    (hpc : s'.pc = Function.update s.pc c pc) (hto : s'.toParent = s.toParent)
    (hfour : 4 ≤ pc.stage ↔ 4 ≤ old.stage) (htold : told s'.pc s'.answers = told s.pc s.answers)
    (hmem : ∀ x ∈ s.answers, x ∈ s'.answers) (hlocked : ∀ arg, pc = .locked arg → arg = 0)
    (hanswered : ∀ arg, pc = .answered arg → (c, arg) ∈ s'.answers) : Mailed s' where
  mail := by
    rw [hto, htold, hmain, hpc, firstMail_update (hold ▸ hfour)]
    exact h.mail
  past := by
    rw [htold, hmain]
    exact h.past
  locked := by
    rw [hpc, Function.forall_update_iff s.pc fun _ pc => ∀ arg, pc = .locked arg → arg = 0]
    exact ⟨hlocked, fun d _ => h.locked d⟩
  answered := by
    rw [hpc, Function.forall_update_iff s.pc fun d pc => ∀ arg, pc = .answered arg →
      (d, arg) ∈ s'.answers]
    exact ⟨hanswered, fun d _ arg hd => hmem _ (h.answered d arg hd)⟩

/-- The parent goes on, and hears nothing. -/
theorem Mailed.main (h : Mailed s) {m : Main} (hmain : s'.main = m)
    (hfirst : firstMail m s.pc = firstMail s.main s.pc) (hpast : m.past = s.main.past)
    (hpc : s'.pc = s.pc) (hto : s'.toParent = s.toParent) (hanswers : s'.answers = s.answers) :
    Mailed s' where
  mail := by
    rw [hto, hmain, hpc, hanswers, hfirst, hpast]
    exact h.mail
  past := by
    rw [hmain, hpc, hanswers, hpast]
    exact h.past
  locked := by
    rw [hpc]
    exact h.locked
  answered := by
    rw [hpc, hanswers]
    exact h.answered

/-- What has been told begins with the deadlock. -/
theorem Answers.head_told {pcs : Child → Pc} (h : Answers pcs l) (hne : told pcs l ≠ []) :
    ∃ rest, told pcs l = EDEADLK :: rest := by
  cases h with
  | none h => exact absurd rfl hne
  | @refused v w d hv hw hvw hpv hpw =>
    by_cases hstage : 8 ≤ (pcs v).stage
    · exact ⟨_, (told_cons pcs v EDEADLK []).trans (if_pos hstage)⟩
    · exact absurd ((told_cons pcs v EDEADLK []).trans (if_neg hstage)) hne
  | @granted v w hv hw hvw hpv hpw =>
    refine ⟨_, (told_cons pcs v EDEADLK _).trans (if_pos ?_)⟩
    rw [hpv]
    exact (by decide : 8 ≤ 10)

/-- The answer that is told is the last one. -/
theorem Answers.tell {pcs : Child → Pc} (h : Answers pcs l) {arg : Int}
    (hpc : pcs c = .answered arg) (hmem : (c, arg) ∈ l) :
    told (Function.update pcs c .stopping) l = told pcs l ++ [arg] := by
  have hseven : ¬ 8 ≤ (pcs c).stage := by
    rw [hpc]
    exact (by decide : ¬ 8 ≤ 7)
  have hlast : ∀ {l : List (Child × Int)}, (∀ arg, (c, arg) ∉ l) →
      told (Function.update pcs c .stopping) (l ++ [(c, arg)]) =
        told pcs (l ++ [(c, arg)]) ++ [arg] := by
    intro l hl
    rw [told_append, told_append, told_update fun arg hmem => absurd hmem (hl arg), if_neg hseven,
      Function.update_self, List.append_nil]
    rfl
  cases h with
  | none h => cases hmem
  | refused hv hw hvw hpv hpw =>
    cases List.mem_singleton.mp hmem
    exact hlast (l := []) fun _ h => List.not_mem_nil h
  | @granted v w hv hw hvw hpv hpw =>
    have hcv : c ≠ v := by
      rintro rfl
      rw [hpv] at hpc
      cases hpc
    rcases List.mem_cons.mp hmem with h | h
    · exact absurd (congrArg Prod.fst h) hcv
    · cases List.mem_singleton.mp h
      exact hlast (l := [(v, EDEADLK)]) fun arg h =>
        hcv (congrArg Prod.fst (List.mem_singleton.mp h))

end Syscalls.Fcntl17
