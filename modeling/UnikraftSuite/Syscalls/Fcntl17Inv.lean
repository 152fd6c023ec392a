import UnikraftSuite.Syscalls.Fcntl17Locks

/-!
# The invariant of `fcntl17`

- `Inv.of_grant` and `Inv.of_deadlock`: what a lock that is granted, and a deadlock that is found,
  say about the other child.
- `Inv.acyclic`: the children do not sleep in a circle.
- `Inv.step`: each step of the parent or of a child keeps the invariant.
-/

namespace Syscalls.Fcntl17

open RangeLocks Runs

variable {s s' : State} {c d : Child} {pc : Pc}

/-! ## What holds in every state -/

/-- What the child asks for with `F_SETLKW` is what the other one has locked first. -/
def Child.Wants (c d : Child) : Prop := d ≠ c ∧ ∃ r, c.second = some r ∧ r.Meets d.first

theorem Child.Wants.ne_one (h : c.Wants d) : c ≠ .one := by
  obtain ⟨-, r, hr, -⟩ := h
  exact Child.second_ne_none.mp (hr ▸ Option.some_ne_none r)

structure Inv (s : State) : Prop where
  control : Control s
  answers : Answers s.pc s.answers
  locked : Locked s
  mailed : Mailed s
  compatible : s.locks.Compatible
  wants : ∀ c d, s.pc c = .blocked d → c.Wants d
  acyclic : s.sleeps.Acyclic
  fail : s.fail = false
  verdict : s.main ≠ .finished false

theorem Inv.start : Inv .start where
  control := .start
  answers := .none fun _ _ => Nat.zero_le 6
  locked := .start
  mailed :=
    { mail := rfl
      past := nofun
      locked := nofun
      answered := nofun }
  compatible := Table.compatible_empty
  wants := nofun
  acyclic := Sleeps.acyclic_none
  fail := rfl
  verdict := nofun

/-- When there is an answer, all children have had their first lock. -/
theorem Inv.four_le (h : Inv s) (hne : s.answers ≠ []) (c : Child) :
    4 ≤ (s.pc c).stage := by
  have hsix := h.answers.six_le hne (c := .two) nofun
  have hreceived := (Pc.received_le_of_stage (s.pc .two)).2.1
  have hmail := (h.control.mail .two).1
  exact (Main.least_of_sent (c := .two) (by omega) c).trans (h.control.least c)

theorem Inv.answers_eq_nil (h : Inv s) (hlate : ¬ s.main.Late) : s.answers = [] := by
  by_contra hne
  exact hlate (h.control.late h.answers hne)

/-- The parent hears the child it waits for, and nobody else. -/
theorem Inv.waiting (h : Inv s) (hmain : s.main = .waiting c) :
    s.toParent = if 4 ≤ (s.pc c).stage then [0] else [] := by
  have hnil : s.answers = [] := h.answers_eq_nil (by rw [hmain]; exact id)
  rw [h.mailed.mail, hmain, hnil]
  exact List.append_nil _

/-- And about the deadlock, the one that it is about. -/
theorem Inv.answer (h : Inv s) (hmain : s.main = .answer) :
    s.toParent = told s.pc s.answers := by
  rw [h.mailed.mail, hmain]
  rfl

/-- Nobody has exited while the parent reads. -/
theorem Control.not_all_exited (h : Control s) {f : Int → Bool} {m : Main}
    (hm : s.main.hears = some (f, m)) : ¬ ∀ c, ∃ status, s.pc c = .exited status := by
  intro hexited
  obtain ⟨status, hpc⟩ := hexited .one
  have hmail := (h.mail .one).1
  rw [hpc] at hmail
  have hending := Main.ending_of_sent hmail
  rcases Main.hears_spec hm with ⟨c, hmain, -⟩ | ⟨hmain, -⟩
  · rwa [hmain] at hending
  · rwa [hmain] at hending

/-- `F_SETLK` does not fail. -/
theorem Inv.not_refused (h : Inv s) (hpc : s.pc c = .locking) :
    ¬ s.locks.Blocked (some c) c.first .wrlck := by
  rw [h.locked.blocked_iff]
  rintro ⟨d, hstops⟩
  obtain ⟨hd, b, hb, ⟨hbd, -⟩ | ⟨hmem, -⟩⟩ := h.locked.stops_iff.mp hstops
  · exact hd (first_disjoint hbd hb)
  · have hfour := h.four_le (List.ne_nil_of_mem hmem) c
    rw [hpc] at hfour
    exact absurd hfour (by decide : ¬ 4 ≤ 2)

/-- The first lock of a child that has not been answered is there. -/
theorem Inv.hasFirst (h : Inv s) (hc : 5 ≤ (s.pc c).stage) {d : Child} (hd : d ≠ .one)
    (hten : (s.pc d).stage < 10) : d.HasFirst (s.pc d) := by
  have hreceived := (Pc.received_le_of_stage (s.pc c)).2.1
  have hmail := (h.control.mail c).1
  have hleast := (Main.least_of_sent (c := c) (by omega) d).trans (h.control.least d)
  exact ⟨Nat.le_of_succ_le hleast, hten, fun heq => absurd heq hd⟩

/-- The lock is not granted before the other child has been refused, and has exited. -/
theorem Inv.of_grant (h : Inv s) {r : Range} (hasks : s.Asks c r)
    (hfree : ¬ s.locks.Blocked (some c) r .wrlck) :
    ∃ v ≠ c, v ≠ .one ∧ s.answers = [(v, EDEADLK)] ∧ s.pc v = .exited 1 := by
  have hc := hasks.ne_one
  have hstage := hasks.stage
  have hgone : ∀ v ≠ c, v ≠ .one → 10 ≤ (s.pc v).stage := by
    intro v hvc hv
    by_contra hten
    have hfirst := h.hasFirst hstage.1 hv (Nat.not_le.mp hten)
    exact hfree (h.locked.blocked_iff.mpr ⟨v, h.locked.stops hv hc hvc hfirst hasks.1⟩)
  have hanswers := h.answers
  generalize hl : s.answers = l at hanswers
  cases hanswers with
  | none hsix =>
    obtain ⟨v, hvc, hv⟩ := Child.exists_other hc
    exact absurd ((hgone v hvc hv).trans (hsix v hv)) (by simp)
  | @refused v w d hv hw hne hpv hpw =>
    have hvc : v ≠ c := by
      rintro rfl
      omega
    obtain ⟨status, hexited⟩ := Pc.exited_of_stage (hgone v hvc hv)
    exact ⟨v, hvc, hv, rfl, h.control.status v status (.inr hexited) ▸ hexited⟩
  | @granted v w hv hw hne hpv hpw =>
    rcases Child.eq_or_eq hv hw hne hc with rfl | rfl
    · rw [hpv] at hstage
      exact absurd hstage.2.1 (by simp)
    · omega

/-- When one of the two is told about the deadlock, there is one: nobody has been told before, and
the other one waits for it. -/
theorem Inv.of_deadlock (h : Inv s) {r : Range} (hasks : s.Asks c r)
    (hstops : s.locks.Stops (some c) r .wrlck (some d)) (hcircle : s.sleeps.Leads d c) :
    s.answers = [] ∧ d ≠ c ∧ d ≠ .one ∧ ∃ e, s.pc d = .blocked e := by
  obtain ⟨e, hsleeps⟩ := Option.ne_none_iff_exists'.mp hcircle.ne_none
  have hpd := Pc.eq_of_asleep hsleeps
  have hdc : d ≠ c := (h.locked.stops_iff.mp hstops).1
  have hd := (h.wants d e hpd).ne_one
  refine ⟨?_, hdc, hd, e, hpd⟩
  -- one of the two would have gone on with its answer
  have hnot : ∀ v ≠ .one, ¬ 7 ≤ (s.pc v).stage := by
    intro v hv
    rcases Child.eq_or_eq hasks.ne_one hd hdc.symm hv with rfl | rfl
    · exact fun hseven => absurd (hseven.trans hasks.stage.2.1) (by decide)
    · rw [hpd]
      exact (by decide : ¬ 7 ≤ 6)
  by_contra hsome
  obtain ⟨x, hx⟩ := List.exists_mem_of_ne_nil _ hsome
  exact hnot x.1 (h.answers.stage_of_mem hx).1 (h.answers.stage_of_mem hx).2.1

/-- The lock that is in the way of a child is the first one of another child. -/
theorem Inv.stops_iff (h : Inv s) (hstage : (s.pc c).stage ≤ 6) {r : Range}
    (hr : c.second = some r) : s.locks.Stops (some c) r .wrlck (some d) ↔
      d ≠ c ∧ r.Meets d.first ∧ d.HasFirst (s.pc d) := by
  have hc : c ≠ .one := Child.second_ne_none.mp (hr ▸ Option.some_ne_none r)
  have hnone : (d, 0) ∉ s.answers := by
    intro hmem
    have hanswers := h.answers
    generalize s.answers = l at hanswers hmem
    cases hanswers with
    | none hsix => cases hmem
    | refused hv hw hne hpv hpw =>
      cases (congrArg Prod.snd (List.mem_singleton.mp hmem) : 0 = EDEADLK)
    | granted hv hw hne hpv hpw =>
      rcases Child.eq_or_eq hv hw hne hc with rfl | rfl
      · rw [hpv] at hstage
        exact absurd hstage (by decide)
      · exact absurd (hpw.trans hstage) (by decide)
  rw [h.locked.stops_iff]
  refine and_congr_right fun _ => ⟨?_, ?_⟩
  · rintro ⟨b, hb, ⟨hbd, hfirst⟩ | ⟨hmem, -⟩⟩
    · exact ⟨⟨b, hb, hbd⟩, hfirst⟩
    · exact absurd hmem hnone
  · rintro ⟨⟨b, hb, hbd⟩, hfirst⟩
    exact ⟨b, hb, .inl ⟨hbd, hfirst⟩⟩

/-- A child that is born has not been before. -/
theorem Control.unborn (h : Control s) (hmain : s.main = .forking c) : (s.pc c).stage ≤ 1 := by
  have hmail := (h.mail c).1
  rw [hmain] at hmail
  exact (Pc.received_le_of_stage (s.pc c)).1.mpr (Nat.le_zero.mp hmail)

theorem Inv.answers_step (h : Inv s) (hstep : Step s s') :
    Answers s'.pc s'.answers := by
  have hanswers := h.answers
  cases hstep with
  | fork hmain =>
    have hone := h.control.unborn hmain
    exact hanswers.goto rfl (by rintro d hpc; simp [hpc, Pc.stage] at hone)
      (by rintro status hpc; simp [hpc, Pc.stage] at hone) (fun _ _ => by simp) hone
  | @receive c pc arg rest hpc harg =>
    rw [if_neg (h.control.receive hpc harg).1]
    cases hold : s.pc c with
    | starting | holding =>
      rw [hold] at hpc
      cases hpc
      exact hanswers.goto hold (by simp) (by simp) (by simp) (by simp)
    | stopping =>
      rw [hold] at hpc
      cases hpc
      exact hanswers.goto hold (by simp) (by simp) (fun _ h => absurd h (by simp)) (by simp)
    | _ =>
      rw [hold] at hpc
      cases hpc
  | lock hpc hfree => exact hanswers.goto hpc (by simp) (by simp) (by simp) (by simp)
  | refuse hpc hblocked => exact absurd hblocked (h.not_refused hpc)
  | tell htells =>
    rcases Pc.tells_spec htells with ⟨hpc, rfl⟩ | ⟨hpc, rfl⟩
    · exact hanswers.goto hpc (by simp) (by simp) (fun _ _ => by simp) (Nat.le_succ 3)
    · exact hanswers.goto hpc (by simp) (by simp) (fun _ h => absurd h (Nat.not_succ_le_self 6))
        (Nat.le_succ 7)
  | unlock hpc hsecond =>
    exact hanswers.goto hpc (by simp) (by simp)
      (fun hone => absurd hsecond (Child.second_ne_none.mpr hone)) (by simp)
  | sleep hasks hstops hopen => exact hanswers.sleep hasks.ne_one hasks.stage.2.1
  | @grant c r hasks hfree =>
    obtain ⟨v, hvc, hv, heq, hexited⟩ := h.of_grant hasks hfree
    show Answers (Function.update s.pc c _) (s.answers ++ [(c, 0)])
    rw [heq]
    refine .granted hv hasks.ne_one hvc ?_ ?_
    · rwa [Function.update_of_ne hvc]
    · rw [Function.update_self]
      exact Nat.le_refl 7
  | @deadlock c d r hasks hstops hcircle =>
    obtain ⟨heq, hdc, hd, e, hpd⟩ := h.of_deadlock hasks hstops hcircle
    show Answers (Function.update s.pc c _) (s.answers ++ [(c, EDEADLK)])
    rw [heq]
    refine .refused hasks.ne_one hd hdc.symm ?_ (d := e) ?_
    · rw [Function.update_self]
      exact Nat.le_refl 7
    · rwa [Function.update_of_ne hdc]
  | exit hpc =>
    exact hanswers.goto hpc (by simp) (by simp) (fun _ h => absurd h (by simp [Pc.stage]))
      (Nat.le_succ 9)
  | _ => exact hanswers

theorem Inv.locked_step (h : Inv s) (hstep : Step s s') : Locked s' := by
  have hlocked := h.locked
  cases hstep with
  | @fork c hmain =>
    have hone := h.control.unborn hmain
    have hborn : Locked (s.goto c .starting) := by
      refine hlocked.goto rfl rfl (fun _ => .rfl) rfl (iff_of_false ?_ ?_) ?_
      · exact fun hfirst => absurd hfirst.1 (by simp)
      · exact fun hfirst => absurd (hfirst.1.trans hone) (by simp)
      · exact iff_of_true (by simp) (lt_of_le_of_lt hone (by simp))
    exact ⟨hborn.child, hborn.write, hborn.parent⟩
  | @receive c pc arg rest hpc harg =>
    rw [if_neg (h.control.receive hpc harg).1]
    have hgone : Locked (s.goto c pc) := by
      cases hold : s.pc c with
      | starting | holding | stopping =>
        rw [hold] at hpc
        cases hpc
        exact hlocked.goto hold rfl (fun _ => .rfl) rfl
          (by cases c <;> simp [Child.HasFirst, Pc.stage]) (by simp)
      | _ =>
        rw [hold] at hpc
        cases hpc
    exact ⟨hgone.child, hgone.write, hgone.parent⟩
  | @lock c hpc hfree =>
    have hnone : (c, 0) ∉ s.answers := by
      intro hmem
      have hseven := (h.answers.stage_of_mem hmem).2.1
      rw [hpc] at hseven
      exact absurd hseven (by simp)
    refine hlocked.set rfl (fun _ _ => .rfl) rfl fun b => ?_
    have hnot : ¬ s.Held c b := by
      rintro (⟨-, hthree, -⟩ | ⟨hmem, -⟩)
      · rw [hpc] at hthree
        exact absurd hthree (by simp)
      · exact hnone hmem
    rw [or_iff_left hnot]
    show (b ∈ c.first ∧ c.HasFirst (Function.update s.pc c _ c)) ∨ ((c, 0) ∈ s.answers ∧ _) ↔ _
    rw [or_iff_left fun hmem => hnone hmem.1, Function.update_self]
    exact and_iff_left ⟨Nat.le_refl 3, by decide, fun _ => by decide⟩
  | refuse hpc hblocked => exact absurd hblocked (h.not_refused hpc)
  | @tell c arg pc htells =>
    have hgone : Locked (s.goto c pc) := by
      rcases Pc.tells_spec htells with ⟨hpc, rfl⟩ | ⟨hpc, rfl⟩
      · exact hlocked.goto hpc rfl (fun _ => .rfl) rfl
          (iff_of_true (hasFirst_of_lt (by simp) (by simp))
            (hasFirst_of_lt (Nat.le_refl 3) (by decide : 3 < 8)))
          (iff_of_true (by simp) (by decide : 3 < 10))
      · have hc := (h.answers.stage_of_mem (h.mailed.answered c arg hpc)).1
        refine hlocked.goto hpc rfl (fun _ => .rfl) rfl ?_
          (iff_of_true (by simp) (by decide : 7 < 10))
        rw [hasFirst_iff hc, hasFirst_iff hc]
        exact iff_of_true (by simp) (by decide : 3 ≤ 7 ∧ 7 < 10)
    exact ⟨hgone.child, hgone.write, hgone.parent⟩
  | @unlock c hpc hsecond =>
    refine hlocked.drop rfl rfl rfl (fun hfirst => ?_) fun _ => hsecond
    have hone : c = .one := by
      by_contra hc
      exact Child.second_ne_none.mpr hc hsecond
    exact absurd (hfirst.2.2 hone) (by simp)
  | sleep hasks hstops hopen =>
    have hstage := hasks.stage
    exact hlocked.goto rfl rfl (fun _ => .rfl) rfl
      (iff_of_true (hasFirst_of_lt (by simp) (by simp)) (hasFirst_of_lt (by omega) (by omega)))
      (iff_of_true (by simp) (by omega))
  | @grant c r hasks hfree =>
    have hstage := hasks.stage
    have hnone : (c, 0) ∉ s.answers := by
      intro hmem
      have hseven : 7 ≤ (s.pc c).stage := (h.answers.stage_of_mem hmem).2.1
      omega
    refine hlocked.set rfl (fun d hd => ?_) rfl fun b => ?_
    · show (d, 0) ∈ s.answers ++ [(c, 0)] ↔ _
      rw [List.mem_append, or_iff_left]
      exact fun hmem => hd (congrArg Prod.fst (List.mem_singleton.mp hmem))
    · show (b ∈ c.first ∧ c.HasFirst (Function.update s.pc c _ c)) ∨
        ((c, 0) ∈ s.answers ++ [(c, 0)] ∧ (Function.update s.pc c _ c).stage < 10 ∧ _) ↔
        b ∈ r ∨ (b ∈ c.first ∧ c.HasFirst (s.pc c)) ∨ ((c, 0) ∈ s.answers ∧ _)
      have hnew : (c, 0) ∈ s.answers ++ [(c, 0)] := List.mem_append_right _ List.mem_cons_self
      rw [Function.update_self, hasks.1]
      have hfirst : c.HasFirst (s.pc c) := hasFirst_of_lt (by omega) (by omega)
      have hfirst' : c.HasFirst (.answered 0) := hasFirst_of_lt (by simp) (by simp)
      simp only [hfirst, hfirst', hnone, hnew, Pc.stage]
      simp [or_comm]
  | @deadlock c d r hasks hstops hcircle =>
    have hstage := hasks.stage
    refine hlocked.goto rfl rfl (fun d => ?_) rfl
      (iff_of_true (hasFirst_of_lt (by simp) (by simp)) (hasFirst_of_lt (by omega) (by omega)))
      (iff_of_true (by simp) (by omega))
    show (d, 0) ∈ s.answers ++ [(c, EDEADLK)] ↔ _
    rw [List.mem_append, or_iff_left]
    intro hmem
    cases (congrArg Prod.snd (List.mem_singleton.mp hmem) : 0 = EDEADLK)
  | exit hpc =>
    exact hlocked.drop rfl rfl rfl (fun hfirst => absurd hfirst.2.1 (Nat.lt_irrefl 10))
      fun hten => absurd hten (Nat.lt_irrefl 10)
  | _ => exact ⟨hlocked.child, hlocked.write, hlocked.parent⟩

/-- The child that has its first lock is the one that the parent waits for. -/
theorem Inv.main_of_locked (h : Inv s) {arg : Int} (hpc : s.pc c = .locked arg) :
    s.main = .waiting c := by
  have hmail := (h.control.mail c).1
  have hleast := h.control.least c
  rw [hpc] at hmail hleast
  exact Main.eq_waiting hmail hleast

theorem Inv.mailed_tell (h : Inv s) {arg : Int} (htells : (s.pc c).tells = some (arg, pc)) :
    Mailed { s.goto c pc with toParent := s.toParent ++ [arg] } := by
  have hmailed := h.mailed
  have hquiet : (∀ a, pc ≠ .locked a) ∧ ∀ a, pc ≠ .answered a := by
    rcases Pc.tells_spec htells with ⟨-, rfl⟩ | ⟨-, rfl⟩
    · exact ⟨nofun, nofun⟩
    · exact ⟨nofun, nofun⟩
  have hlocked : ∀ d a, Function.update s.pc c pc d = .locked a → a = 0 := by
    rw [Function.forall_update_iff s.pc fun _ pc => ∀ a, pc = .locked a → a = 0]
    exact ⟨fun a heq => absurd heq (hquiet.1 a), fun d _ => hmailed.locked d⟩
  have hanswered : ∀ d a, Function.update s.pc c pc d = .answered a → (d, a) ∈ s.answers := by
    rw [Function.forall_update_iff s.pc fun d pc => ∀ a, pc = .answered a → (d, a) ∈ s.answers]
    exact ⟨fun a heq => absurd heq (hquiet.2 a), fun d _ => hmailed.answered d⟩
  rcases Pc.tells_spec htells with ⟨hpc, rfl⟩ | ⟨hpc, rfl⟩
  · have hm := h.main_of_locked hpc
    have hnil : s.answers = [] := h.answers_eq_nil (by rw [hm]; exact id)
    have hto := h.waiting hm
    rw [hpc, if_neg (by exact (by decide : ¬ 4 ≤ 3))] at hto
    refine ⟨?_, ?_, hlocked, hanswered⟩
    · show s.toParent ++ [arg] = firstMail s.main (Function.update s.pc c .holding) ++
        (told (Function.update s.pc c .holding) s.answers).drop s.main.past.toNat
      rw [hto, hm, hnil, hmailed.locked c arg hpc]
      show _ = (if 4 ≤ (Function.update s.pc c .holding c).stage then [0] else []) ++ _
      rw [Function.update_self]
      rfl
    · show s.main.past = true → _
      rw [hm]
      exact nofun
  · have htold := h.answers.tell hpc (hmailed.answered c arg hpc)
    refine ⟨?_, ?_, hlocked, hanswered⟩
    · show s.toParent ++ [arg] = firstMail s.main (Function.update s.pc c .stopping) ++
        (told (Function.update s.pc c .stopping) s.answers).drop s.main.past.toNat
      have hlen : s.main.past.toNat ≤ (told s.pc s.answers).length := by
        cases hpast : s.main.past with
        | false => exact Nat.zero_le _
        | true => exact List.length_pos_iff.mpr (hmailed.past hpast)
      rw [htold, hmailed.mail, List.append_assoc, List.drop_append_of_le_length hlen,
        firstMail_update (by rw [hpc]; exact iff_of_true (by simp) (by decide : 4 ≤ 7))]
    · show s.main.past = true → told (Function.update s.pc c .stopping) s.answers ≠ []
      rw [htold]
      exact fun _ => List.append_ne_nil_of_right_ne_nil _ (List.cons_ne_nil _ _)

theorem Inv.mailed_step (h : Inv s) (hstep : Step s s') : Mailed s' := by
  have hmailed := h.mailed
  cases hstep with
  | @fork c hmain =>
    have hone := h.control.unborn hmain
    have hborn : Mailed (s.goto c .starting) :=
      hmailed.goto rfl rfl rfl rfl (iff_of_false (by simp) (by omega))
        (told_update fun _ _ => iff_of_false (by simp) (by omega)) (fun _ => id) nofun nofun
    refine hborn.main rfl ?_ ?_ rfl rfl rfl
    · show _ = firstMail s.main _
      rw [hmain]
      cases c <;> rfl
    · show _ = s.main.past
      rw [hmain]
      cases c <;> rfl
  | @send c arg m hmain =>
    obtain ⟨hpast, hne, hm⟩ := Main.past_of_sends hmain
    refine hmailed.main rfl ?_ hpast rfl rfl rfl
    rw [firstMail_eq_nil hne]
    rcases hm with ⟨hm, rfl⟩ | hm
    · -- the child has not been let go before
      have hmail := (h.control.mail c).1
      rw [hm] at hmail
      have hone := (Pc.received_le_of_stage (s.pc c)).1.mpr
        (Nat.le_zero.mp (hmail.trans (if_neg (Nat.lt_irrefl _)).le))
      exact if_neg (by omega)
    · exact firstMail_eq_nil hm
  | @hear f m arg rest hmain harg =>
    rcases Main.hears_spec hmain with ⟨c, hm, rfl, -⟩ | ⟨hm, rfl, -⟩
    · have hto := h.waiting hm
      have hnil : s.answers = [] := h.answers_eq_nil (by rw [hm]; exact id)
      rw [harg] at hto
      split at hto
      · obtain ⟨-, rfl⟩ := List.cons.inj hto
        refine ⟨?_, nofun, hmailed.locked, hmailed.answered⟩
        show [] = [] ++ (told s.pc s.answers).drop 0
        rw [hnil]
        rfl
      · cases hto
    · have hto := h.answer hm
      rw [harg] at hto
      refine ⟨?_, fun _ => hto ▸ List.cons_ne_nil arg rest, hmailed.locked, hmailed.answered⟩
      show rest = [] ++ (told s.pc s.answers).drop 1
      rw [← hto]
      rfl
  | hearNobody errno hmain hnone hexited =>
    exact absurd hexited (h.control.not_all_exited hmain)
  | @test c ok hmain hok =>
    refine hmailed.main rfl ?_ ?_ rfl rfl rfl
    · rw [hmain]
      cases c <;> rfl
    · rw [hmain]
      cases c <;> rfl
  | @check c hmain | @join c status hmain hexited =>
    refine hmailed.main rfl ?_ ?_ rfl rfl rfl
    · rw [hmain]
      cases c <;> rfl
    · rw [hmain]
      cases c <;> rfl
  | ignore hmain | judge hmain =>
    exact hmailed.main rfl (by rw [hmain]; rfl) (by rw [hmain]; rfl) rfl rfl rfl
  | @receive c pc arg rest hpc harg =>
    rw [if_neg (h.control.receive hpc harg).1]
    have hgone : Mailed (s.goto c pc) := by
      cases hold : s.pc c with
      | starting | holding | stopping =>
        rw [hold] at hpc
        cases hpc
        exact hmailed.goto hold rfl rfl rfl (by simp)
          (told_update fun _ _ => by rw [hold]; decide) (fun _ => id) nofun nofun
      | _ =>
        rw [hold] at hpc
        cases hpc
    exact ⟨hgone.mail, hgone.past, hgone.locked, hgone.answered⟩
  | lock hpc hfree =>
    exact hmailed.goto hpc rfl rfl rfl (by simp) (told_update fun _ _ => by rw [hpc]; decide)
      (fun _ => id) (fun _ heq => (Pc.locked.inj heq).symm) nofun
  | refuse hpc hblocked => exact absurd hblocked (h.not_refused hpc)
  | tell htells => exact h.mailed_tell htells
  | @unlock c hpc hsecond =>
    refine hmailed.goto hpc rfl rfl rfl (by simp) (told_update fun arg hmem => ?_) (fun _ => id)
      nofun nofun
    exact absurd hsecond (Child.second_ne_none.mpr (h.answers.stage_of_mem hmem).1)
  | sleep hasks hstops hopen =>
    have hstage := hasks.stage
    exact hmailed.goto rfl rfl rfl rfl (iff_of_true (by simp) (by omega))
      (told_update fun _ _ => iff_of_false (by simp) (by omega)) (fun _ => id) nofun nofun
  | @grant c r hasks hfree =>
    have hstage := hasks.stage
    refine hmailed.goto rfl rfl rfl rfl (iff_of_true (by simp) (by omega)) ?_
      (fun _ => List.mem_append_left _) nofun fun arg heq => ?_
    · exact told_answer (by omega) (by simp)
    · cases heq
      exact List.mem_append_right _ List.mem_cons_self
  | @deadlock c d r hasks hstops hcircle =>
    have hstage := hasks.stage
    refine hmailed.goto rfl rfl rfl rfl (iff_of_true (by simp) (by omega)) ?_
      (fun _ => List.mem_append_left _) nofun fun arg heq => ?_
    · exact told_answer (by omega) (by simp)
    · cases heq
      exact List.mem_append_right _ List.mem_cons_self
  | exit hpc =>
    exact hmailed.goto hpc rfl rfl rfl (iff_of_true (by decide : 4 ≤ 10) (by decide : 4 ≤ 9))
      (told_update fun _ _ => by
        rw [hpc]
        exact iff_of_true (by decide : 8 ≤ 10) (by decide : 8 ≤ 9))
      (fun _ => id) nofun nofun

/-- A child goes on, and does not sleep then. -/
theorem Inv.wakes (h : Inv s) (hpc : s'.pc = Function.update s.pc c pc)
    (hawake : pc.asleep = none) :
    (∀ v w, s'.pc v = .blocked w → v.Wants w) ∧ s'.sleeps.Acyclic := by
  have hsame : ∀ v w, s'.pc v = .blocked w → s.pc v = .blocked w := by
    intro v w hv
    rw [hpc] at hv
    by_cases heq : v = c
    · rw [heq, Function.update_self] at hv
      rw [hv] at hawake
      cases hawake
    · rwa [Function.update_of_ne heq] at hv
  refine ⟨fun v w hv => h.wants v w (hsame v w hv), h.acyclic.of_le fun v w hv => ?_⟩
  rw [State.sleeps, hsame v w (Pc.eq_of_asleep hv)]
  rfl

theorem Inv.sleeps_step (h : Inv s) (hstep : Step s s') :
    (∀ v w, s'.pc v = .blocked w → v.Wants w) ∧ s'.sleeps.Acyclic := by
  cases hstep with
  | fork hmain | lock hpc hfree | unlock hpc hsecond | grant hasks hfree
  | deadlock hasks hstops hcircle | exit hpc | refuse hpc hblocked => exact h.wakes rfl rfl
  | @receive c pc arg rest hpc harg =>
    rw [if_neg (h.control.receive hpc harg).1]
    refine h.wakes rfl ?_
    cases hold : s.pc c with
    | starting | holding | stopping =>
      rw [hold] at hpc
      cases hpc
      rfl
    | _ =>
      rw [hold] at hpc
      cases hpc
  | tell htells =>
    rcases Pc.tells_spec htells with ⟨hpc, rfl⟩ | ⟨hpc, rfl⟩
    · exact h.wakes rfl rfl
    · exact h.wakes rfl rfl
  | @sleep c d r hasks hstops hopen =>
    obtain ⟨hdc, hmeets, -⟩ := (h.stops_iff hasks.stage.2.1 hasks.1).mp hstops
    have hsleeps : (s.goto c (.blocked d)).sleeps = Function.update s.sleeps c (some d) :=
      Function.comp_update Pc.asleep s.pc c (.blocked d)
    refine ⟨?_, hsleeps ▸ h.acyclic.sleep hdc hopen⟩
    show ∀ v w, Function.update s.pc c (.blocked d) v = .blocked w → v.Wants w
    rw [Function.forall_update_iff s.pc fun v pc => ∀ w, pc = .blocked w → v.Wants w]
    exact ⟨fun w hw => Pc.blocked.inj hw ▸ ⟨hdc, r, hasks.1, hmeets⟩, fun v _ => h.wants v⟩
  | _ => exact ⟨h.wants, h.acyclic⟩

theorem Inv.compatible_step (h : Inv s) (hstep : Step s s') :
    s'.locks.Compatible := by
  cases hstep with
  | lock hpc hfree => exact h.compatible.set hfree
  | grant hasks hfree => exact h.compatible.set hfree
  | unlock hpc hsecond => exact h.compatible.drop
  | exit hpc => exact h.compatible.drop
  | _ => exact h.compatible

/-- No lock is granted by `F_SETLKW` before the children may exit. -/
theorem Inv.not_granted (h : Inv s) (hending : ¬ s.main.Ending) : (c, 0) ∉ s.answers := by
  intro hmem
  have hanswers := h.answers
  generalize s.answers = l at hanswers hmem
  cases hanswers with
  | none hsix => cases hmem
  | refused hv hw hne hpv hpw =>
    cases (congrArg Prod.snd (List.mem_singleton.mp hmem) : 0 = EDEADLK)
  | @granted v w hv hw hne hpv hpw =>
    have hmail := (h.control.mail v).1
    rw [hpv] at hmail
    exact hending (Main.ending_of_sent hmail)

/-- Until then, `do_test` finds the lock of a child that has it. -/
theorem Inv.doTest (h : Inv s) (hending : ¬ s.main.Ending) (hfirst : c.HasFirst (s.pc c))
    {ok : Bool} (hok : DoTest s.locks c ok) : ok = true := by
  have hheld : ∀ d b, s.Held d b → b ∈ d.first := by
    rintro d b (⟨hb, -⟩ | ⟨hmem, -⟩)
    · exact hb
    · exact absurd hmem (h.not_granted hending)
  have hone : ∀ b, s.locks (some c) b = if b ∈ c.first then some .wrlck else none := by
    intro b
    split
    · next hb => exact (h.locked.child c b).mpr (.inl ⟨hb, hfirst⟩)
    · next hb =>
      exact (h.locked.write c b).resolve_right fun hw => hb (hheld c b ((h.locked.child c b).mp hw))
  cases hok with
  | unlocked hnone =>
    refine absurd ?_ (hnone ⟨.wrlck, c.first, some c⟩)
    refine ⟨Table.has_of_one hone, nofun, ⟨c.first.start, ?_, ?_⟩, nofun, nofun, .inr rfl⟩
    · cases c <;> decide
    · cases c <;> decide
  | @found x hx =>
    obtain ⟨b, hb, hbx⟩ := hx.meets
    have howner : x.owner = some c := by
      cases hd : x.owner with
      | none => exact absurd hd hx.other
      | some d =>
        have hall := hx.has.all b hbx
        rw [hd] at hall
        have hw : s.locks (some d) b = some .wrlck :=
          (h.locked.write d b).resolve_left (hall ▸ Option.some_ne_none _)
        rw [first_disjoint hb (hheld d b ((h.locked.child d b).mp hw))]
    have hthe := hx.has.eq_of_one hbx (howner ▸ hone)
    exact decide_eq_true ⟨hthe.1, hthe.2, howner⟩

/-- `do_test` finds the lock that it asks about. -/
theorem Inv.test_ok (h : Inv s) (hmain : s.main = .testing c) {ok : Bool}
    (hok : DoTest s.locks c ok) : ok = true := by
  refine h.doTest (by rw [hmain]; exact id) ?_ hok
  have hmail := (h.control.mail c).1
  have hleast := h.control.least c
  rw [hmain] at hmail hleast
  have hreceived := (Pc.received_le_of_stage (s.pc c)).2.1.mpr
    (hmail.trans (if_pos (Nat.le_refl _)).le)
  have hfour := (if_pos (Nat.le_refl _)).ge.trans hleast
  exact hasFirst_of_lt (by omega) (by omega)

/-- And it does so when it is called again, where its result is not used. -/
theorem Inv.check_ok (h : Inv s) (hmain : s.main = .checking c) (hc : c ≠ .one) {ok : Bool}
    (hok : DoTest s.locks c ok) : ok = true := by
  have hmail := (h.control.mail c).1
  have hleast := h.control.least c
  rw [hmain] at hmail hleast
  have hreceived := (Pc.received_le_of_stage (s.pc c)).2.2.1.mpr hmail
  refine h.doTest (by rw [hmain]; exact id) ((hasFirst_iff hc).mpr ⟨?_, by omega⟩) hok
  exact Nat.le_of_succ_le hleast

theorem Inv.fail_step (h : Inv s) (hstep : Step s s') : s'.fail = false := by
  have hfail := h.fail
  cases hstep with
  | @hear f m arg rest hmain harg =>
    have hfalse : f arg = false := by
      rcases Main.hears_spec hmain with ⟨c, hm, -, hf⟩ | ⟨hm, -, hf⟩
      · have hto := h.waiting hm
        rw [harg] at hto
        split at hto
        · rwa [(List.cons.inj hto).1]
        · cases hto
      · have hto := h.answer hm
        rw [harg] at hto
        obtain ⟨rest', hhead⟩ := h.answers.head_told (hto ▸ List.cons_ne_nil arg rest)
        rwa [(List.cons.inj (hto.trans hhead)).1]
    show (s.fail || f arg) = false
    rw [hfail, hfalse]
    rfl
  | hearNobody errno hmain hnone hexited =>
    exact absurd hexited (h.control.not_all_exited hmain)
  | @test c ok hmain hok =>
    show (s.fail || !ok) = false
    rw [h.test_ok hmain hok, hfail]
    rfl
  | _ => exact hfail

theorem Inv.verdict_step (h : Inv s) (hstep : Step s s') : s'.main ≠ .finished false := by
  cases hstep with
  | @fork c hmain | @check c hmain | @join c status hmain hexited | @test c ok hmain hok =>
    cases c with
    | _ => exact nofun
  | @send c arg m hmain =>
    rintro (rfl : m = _)
    cases hm : s.main with
    | freeing d | resuming d | stopping d =>
      rw [hm] at hmain
      cases d with
      | _ => cases hmain
    | _ =>
      rw [hm] at hmain
      cases hmain
  | hear hmain harg | hearNobody errno hmain hnone hexited =>
    rcases Main.hears_spec hmain with ⟨c, -, rfl, -⟩ | ⟨-, rfl, -⟩
    · exact nofun
    · exact nofun
  | ignore hmain => exact nofun
  | judge hmain =>
    show Main.finished (!s.fail) ≠ _
    rw [h.fail]
    exact nofun
  | _ => exact h.verdict

theorem Inv.step (h : Inv s) (hstep : Step s s') : Inv s' where
  control := by
    refine h.control.step (fun c hmain hto => ?_) hstep
    by_contra hfour
    rw [h.waiting hmain, if_neg hfour] at hto
    exact hto rfl
  answers := h.answers_step hstep
  locked := h.locked_step hstep
  mailed := h.mailed_step hstep
  compatible := h.compatible_step hstep
  wants := (h.sleeps_step hstep).1
  acyclic := (h.sleeps_step hstep).2
  fail := h.fail_step hstep
  verdict := h.verdict_step hstep

theorem Inv.of_run (h : Relation.ReflTransGen Step .start s) : Inv s :=
  Invariant.run (I := Inv) (fun _ _ => Inv.step) Inv.start h

end Syscalls.Fcntl17
