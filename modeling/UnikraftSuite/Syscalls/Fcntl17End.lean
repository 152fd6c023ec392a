import UnikraftSuite.Syscalls.Fcntl17Inv

/-!
# How `fcntl17` ends

- `deadlock_detected`: what holds in any order of the steps.
- `completes`: no order of the steps gets stuck or goes on for ever, and how it ends if the alarm
  does not go off.
- `either_refused`: each of the two may be the one that is refused.
-/

namespace Syscalls.Fcntl17

open RangeLocks Runs Relation

variable {s s' : State} {c d : Child} {pc : Pc}

/-! ## The end -/

/-- The number of steps that the parent has in front of it. -/
def Main.left : Main → Nat
  | .forking c => 27 - c.rank
  | .freeing c => 24 - 3 * c.rank
  | .waiting c => 23 - 3 * c.rank
  | .testing c => 22 - 3 * c.rank
  | .resuming .two => 15
  | .resuming .three => 14
  | .resuming .one => 13
  | .answer => 12
  | .checking c => 11 - c.rank
  | .ignoring => 8
  | .stopping c => 7 - c.rank
  | .joining c => 4 - c.rank
  | .judging => 1
  | .finished _ => 0

/-- And a child at most, where an exit and the call that unlocks count for three. -/
def Pc.left : Pc → Nat
  | .exited _ => 0
  | pc => 12 - pc.stage

instance (c : Child) (pc : Pc) : Decidable (c.HasFirst pc) := inferInstanceAs (Decidable (_ ∧ _))

/-- A child that sleeps on a lock that is gone looks again. -/
def State.woken (s : State) (c : Child) : Nat :=
  match s.pc c with
  | .blocked d => if d.HasFirst (s.pc d) then 0 else 1
  | _ => 0

def State.size (s : State) : Nat :=
  s.main.left + ((s.pc .one).left + s.woken .one) + ((s.pc .two).left + s.woken .two) +
    ((s.pc .three).left + s.woken .three)

theorem woken_le_one (s : State) (c : Child) : s.woken c ≤ 1 := by
  unfold State.woken
  split
  · split
    · exact Nat.zero_le 1
    · exact Nat.le_refl 1
  · exact Nat.zero_le 1

theorem woken_of_awake (h : (s.pc c).asleep = none) : s.woken c = 0 := by
  unfold State.woken
  split
  · next hpc =>
    rw [hpc] at h
    cases h
  · rfl

theorem woken_of_blocked (h : s.pc c = .blocked d) :
    s.woken c = if d.HasFirst (s.pc d) then 0 else 1 := by
  unfold State.woken
  rw [h]

/-- A child goes on, where each of the others may look again for it. -/
theorem State.size_lt (k : Nat) (hmain : s'.main.left ≤ s.main.left)
    (hpc : ∀ d ≠ c, s'.pc d = s.pc d) (hwoken : ∀ d ≠ c, s'.woken d ≤ s.woken d + k)
    (hlt : (s'.pc c).left + s'.woken c + 2 * k < (s.pc c).left + s.woken c) : s'.size < s.size := by
  have hother : ∀ d ≠ c, (s'.pc d).left + s'.woken d ≤ (s.pc d).left + s.woken d + k := by
    intro d hd
    have hle := hwoken d hd
    rw [hpc d hd]
    omega
  simp only [State.size]
  cases c with
  | one =>
    have htwo := hother .two nofun
    have hthree := hother .three nofun
    omega
  | two =>
    have hone := hother .one nofun
    have hthree := hother .three nofun
    omega
  | three =>
    have hone := hother .one nofun
    have htwo := hother .two nofun
    omega

/-- Nobody looks again for a child that keeps its lock. -/
theorem woken_le (hpc : s'.pc = Function.update s.pc c pc)
    (hfirst : c.HasFirst (s.pc c) → c.HasFirst pc) (hne : d ≠ c) : s'.woken d ≤ s.woken d := by
  have hsame : s'.pc d = s.pc d := by rw [hpc, Function.update_of_ne hne]
  cases ha : (s.pc d).asleep with
  | none =>
    rw [woken_of_awake (hsame ▸ ha)]
    exact Nat.zero_le _
  | some e =>
    have hd := Pc.eq_of_asleep ha
    rw [woken_of_blocked (hsame.trans hd), woken_of_blocked hd]
    have hkeep : e.HasFirst (s.pc e) → e.HasFirst (s'.pc e) := by
      rw [hpc]
      by_cases he : e = c
      · rw [he, Function.update_self]
        exact hfirst
      · rw [Function.update_of_ne he]
        exact id
    split
    · exact Nat.zero_le _
    · next hgone =>
      rw [if_neg (mt hkeep hgone)]

/-- A child goes on, and keeps its lock. -/
theorem State.size_goto {old : Pc} (hold : s.pc c = old) (hmain : s'.main.left ≤ s.main.left)
    (hpc : s'.pc = Function.update s.pc c pc) (hawake : pc.asleep = none)
    (hfirst : c.HasFirst old → c.HasFirst pc) (hlt : pc.left < old.left) : s'.size < s.size := by
  have hself : s'.pc c = pc := by rw [hpc, Function.update_self]
  refine State.size_lt (c := c) 0 hmain (fun d hd => by rw [hpc, Function.update_of_ne hd])
    (fun d hd => woken_le hpc (hold ▸ hfirst) hd) ?_
  rw [woken_of_awake (hself ▸ hawake), hself, hold]
  exact Nat.lt_add_right _ hlt

/-- A child goes on that has no lock any more. -/
theorem State.size_drop {old : Pc} (hold : s.pc c = old) (hmain : s'.main = s.main)
    (hpc : s'.pc = Function.update s.pc c pc) (hawake : pc.asleep = none)
    (hlt : pc.left + 2 < old.left) : s'.size < s.size := by
  have hself : s'.pc c = pc := by rw [hpc, Function.update_self]
  refine State.size_lt (c := c) 1 (hmain ▸ Nat.le_refl _)
    (fun d hd => by rw [hpc, Function.update_of_ne hd])
    (fun d _ => (woken_le_one s' d).trans (Nat.le_add_left 1 _)) ?_
  rw [woken_of_awake (hself ▸ hawake), hself, hold]
  exact Nat.lt_add_right _ hlt

/-- The parent goes on. -/
theorem State.size_main {m m' : Main} (hold : s.main = m) (hmain : s'.main = m')
    (hlt : m'.left < m.left) (hpc : s'.pc = s.pc) : s'.size < s.size := by
  have hwoken : ∀ c, s'.woken c = s.woken c := fun c => by simp only [State.woken, hpc]
  simp only [State.size, hwoken, hpc, hold, hmain]
  omega

theorem Main.left_of_sends {m m' : Main} {arg : Int} (h : m.sends = some (c, arg, m')) :
    m'.left < m.left := by
  cases m with
  | freeing d | resuming d | stopping d =>
    cases d with
    | _ =>
      cases h
      decide
  | _ => cases h

theorem Main.left_of_hears {m m' : Main} {f : Int → Bool} (h : m.hears = some (f, m')) :
    m'.left < m.left := by
  rcases Main.hears_spec h with ⟨c, rfl, rfl, -⟩ | ⟨rfl, rfl, -⟩
  · cases c <;> decide
  · decide

theorem Pc.left_of_asks {r : Range} (h : s.Asks c r) : 6 ≤ (s.pc c).left := by
  obtain ⟨-, hpc | ⟨d, hpc, -⟩⟩ := h
  · rw [hpc]
    exact Nat.le_succ 6
  · rw [hpc]
    exact Nat.le_refl 6

/-- A child sleeps, which it has not done before, or on another lock, for the one is gone. -/
theorem Inv.size_sleep (h : Inv s) {r : Range} (hasks : s.Asks c r)
    (hstops : s.locks.Stops (some c) r .wrlck (some d)) :
    (s.goto c (.blocked d)).size < s.size := by
  have hstage := hasks.stage
  obtain ⟨hdc, -, hfirst⟩ := (h.stops_iff hstage.2.1 hasks.1).mp hstops
  have hself : (s.goto c (.blocked d)).pc c = .blocked d := Function.update_self ..
  have hd : (s.goto c (.blocked d)).pc d = s.pc d := Function.update_of_ne hdc ..
  refine State.size_lt (c := c) 0 (Nat.le_refl _) (fun e he => Function.update_of_ne he ..)
    (fun e he => woken_le rfl (fun _ => hasFirst_of_lt (by simp) (by simp)) he) ?_
  rw [woken_of_blocked hself, hself, hd, if_pos hfirst]
  obtain ⟨hsecond, hpc | ⟨e, hpc, hgone⟩⟩ := hasks
  · rw [hpc]
    exact Nat.lt_add_right _ (by decide : 6 < 7)
  · have hnot : ¬ e.HasFirst (s.pc e) := by
      intro hheld
      obtain ⟨hne, r', hr', hmeets⟩ := h.wants c e hpc
      obtain rfl := Option.some.inj (hr'.symm.trans hsecond)
      exact hgone ((h.stops_iff hstage.2.1 hsecond).mpr ⟨hne, hmeets, hheld⟩)
    rw [woken_of_blocked hpc, if_neg hnot, hpc]
    exact Nat.lt_succ_self 6

theorem decreases : Decreases Step Inv State.size := by
  intro s s' h hstep
  cases hstep with
  | @fork c hmain =>
    have hlt : (c.next .forking (.freeing .one)).left ≤ s.main.left := by
      rw [hmain]
      cases c <;> decide
    have hone := h.control.unborn hmain
    cases hpc : s.pc c with
    | unborn =>
      exact State.size_goto hpc hlt rfl rfl (fun hfirst => absurd hfirst.1 (by simp))
        (by decide : 11 < 12)
    | starting =>
      have hlt : (c.next .forking (.freeing .one)).left < s.main.left := by
        rw [hmain]
        cases c <;> decide
      refine State.size_main rfl rfl hlt ?_
      show Function.update s.pc c .starting = s.pc
      rw [← hpc, Function.update_eq_self]
    | _ =>
      rw [hpc] at hone
      exact absurd hone (by simp)
  | send hmain => exact State.size_main rfl rfl (Main.left_of_sends hmain) rfl
  | hear hmain harg => exact State.size_main rfl rfl (Main.left_of_hears hmain) rfl
  | hearNobody errno hmain hnone hexited =>
    exact State.size_main rfl rfl (Main.left_of_hears hmain) rfl
  | @test c ok hmain hok =>
    have hlt : (c.next .freeing (.resuming .two)).left < (Main.testing c).left := by
      cases c <;> decide
    exact State.size_main hmain rfl hlt rfl
  | @check c hmain =>
    have hlt : (c.next .checking .ignoring).left < (Main.checking c).left := by cases c <;> decide
    exact State.size_main hmain rfl hlt rfl
  | ignore hmain => exact State.size_main hmain rfl (by exact (by decide : 7 < 8)) rfl
  | @join c status hmain hexited =>
    have hlt : (c.next .joining .judging).left < (Main.joining c).left := by cases c <;> decide
    exact State.size_main hmain rfl hlt rfl
  | judge hmain => exact State.size_main hmain rfl Nat.zero_lt_one rfl
  | @receive c pc arg rest hpc harg =>
    rw [if_neg (h.control.receive hpc harg).1]
    cases hold : s.pc c with
    | starting | holding | stopping =>
      rw [hold] at hpc
      cases hpc
      exact State.size_goto hold (Nat.le_refl _) rfl rfl
        (by cases c <;> simp [Child.HasFirst]) (by simp [Pc.left])
    | _ =>
      rw [hold] at hpc
      cases hpc
  | lock hpc hfree | refuse hpc hblocked =>
    exact State.size_goto hpc (Nat.le_refl _) rfl rfl (fun hfirst => absurd hfirst.1 (by simp))
      (by simp [Pc.left])
  | @tell c arg pc htells =>
    rcases Pc.tells_spec htells with ⟨hpc, rfl⟩ | ⟨hpc, rfl⟩
    · exact State.size_goto hpc (Nat.le_refl _) rfl rfl
        (fun _ => hasFirst_of_lt (by simp) (by simp)) (by simp [Pc.left])
    · have hc := (h.answers.stage_of_mem (h.mailed.answered c arg hpc)).1
      exact State.size_goto hpc (Nat.le_refl _) rfl rfl
        (fun _ => (hasFirst_iff hc).mpr (by simp)) (by simp [Pc.left])
  | unlock hpc hsecond => exact State.size_drop hpc rfl rfl rfl (by decide)
  | sleep hasks hstops hopen => exact h.size_sleep hasks hstops
  | grant hasks hfree | deadlock hasks hstops hcircle =>
    exact State.size_goto rfl (Nat.le_refl _) rfl rfl
      (fun _ => hasFirst_of_lt (by simp) (by simp)) (Nat.lt_of_succ_le (Pc.left_of_asks hasks))
  | exit hpc => exact State.size_drop hpc rfl rfl rfl (by decide : 0 + 2 < 3)

/-- The program is at its end: the children have exited, and one of the two has been refused its
lock, and the other one has got it. -/
structure State.Done (s : State) : Prop where
  pass : s.main = .finished true
  exited : ∀ c, s.pc c = .exited 1
  unlocked : ∀ o b, s.locks o b = none
  answers : ∃ v w, v ≠ .one ∧ w ≠ .one ∧ v ≠ w ∧ s.answers = [(v, EDEADLK), (w, 0)]

/-- A step in which nothing is answered, and nobody but the first child gets to `F_SETLKW` or
behind it. -/
def Quiet (s s' : State) : Prop :=
  s'.answers = s.answers ∧ ∀ c ≠ .one, s'.pc c = s.pc c ∨ (s'.pc c).stage ≤ 5

theorem quiet_goto (hanswers : s'.answers = s.answers) (hpc : s'.pc = Function.update s.pc c pc)
    (hstage : pc.stage ≤ 5) : Quiet s s' := by
  refine ⟨hanswers, fun d _ => ?_⟩
  rw [hpc]
  by_cases heq : d = c
  · rw [heq, Function.update_self]
    exact .inr hstage
  · rw [Function.update_of_ne heq]
    exact .inl rfl

/-- A child gets as far as in front of `F_SETLKW`, if it does not wait for a message. -/
theorem Inv.moves_early (h : Inv s) (hborn : 1 ≤ (s.pc c).stage) (hfour : (s.pc c).stage ≤ 4)
    (hmail : (s.pc c).freed ≠ none → (s.pc c).received < s.main.sent c) :
    ∃ s', Step s s' ∧ Quiet s s' := by
  cases hpc : s.pc c with
  | starting | holding =>
    have hlt := hmail (by rw [hpc]; exact nofun)
    obtain ⟨arg, rest, harg⟩ := (h.control.mail c).exists_cons hlt (s.main.sent_le c)
    have hstep := Step.receive (s := s) (c := c) (by rw [hpc]; rfl) harg
    refine ⟨_, hstep, quiet_goto rfl rfl ?_⟩
    rw [if_neg (h.control.receive (by rw [hpc]; rfl) harg).1]
    decide
  | locking =>
    exact ⟨_, .lock hpc (h.not_refused hpc), quiet_goto rfl rfl (by decide : 3 ≤ 5)⟩
  | locked arg =>
    have htells : (s.pc c).tells = some (arg, .holding) := by rw [hpc]; rfl
    exact ⟨_, .tell htells, quiet_goto rfl rfl (by decide : 4 ≤ 5)⟩
  | _ =>
    rw [hpc] at hborn hfour
    simp at hborn hfour

/-- A child that asks gets its lock, sleeps or is refused. -/
theorem Inv.moves_asking (h : Inv s) {r : Range} (hasks : s.Asks c r) : ∃ s', Step s s' := by
  by_cases hblocked : s.locks.Blocked (some c) r .wrlck
  · obtain ⟨d, hstops⟩ := h.locked.blocked_iff.mp hblocked
    by_cases hcircle : s.sleeps.Leads d c
    · exact ⟨_, .deadlock hasks hstops hcircle⟩
    · exact ⟨_, .sleep hasks hstops hcircle⟩
  · exact ⟨_, .grant hasks hblocked⟩

/-- A child goes on if it does not sleep and is not in front of a message. -/
theorem Inv.moves (h : Inv s) (hborn : 1 ≤ (s.pc c).stage) (hten : (s.pc c).stage < 10)
    (hawake : (s.pc c).asleep = none)
    (hmail : (s.pc c).freed ≠ none → (s.pc c).received < s.main.sent c) : ∃ s', Step s s' := by
  cases hpc : s.pc c with
  | unborn =>
    rw [hpc] at hborn
    exact absurd hborn (by decide)
  | starting | locking | locked arg | holding =>
    obtain ⟨s', hstep, -⟩ := h.moves_early hborn (by simp [hpc]) hmail
    exact ⟨s', hstep⟩
  | stopping =>
    have hlt := hmail (by rw [hpc]; exact nofun)
    obtain ⟨arg, rest, harg⟩ := (h.control.mail c).exists_cons hlt (s.main.sent_le c)
    exact ⟨_, .receive (by rw [hpc]; rfl) harg⟩
  | answered arg => exact ⟨_, .tell (by rw [hpc]; rfl)⟩
  | resuming =>
    cases hsecond : c.second with
    | none => exact ⟨_, .unlock hpc hsecond⟩
    | some r => exact h.moves_asking ⟨hsecond, .inl hpc⟩
  | blocked d =>
    rw [hpc] at hawake
    cases hawake
  | leaving status => exact ⟨_, .exit hpc⟩
  | exited status =>
    rw [hpc] at hten
    exact absurd hten (Nat.lt_irrefl 10)

/-- Where a child sleeps, somebody goes on: it has been woken, or the one that it sleeps on goes
on, or the one that that one sleeps on. There are no more of them in a circle. -/
theorem Inv.moves_asleep (h : Inv s) (hpc : s.pc c = .blocked d)
    (hawake : ∀ e, e.HasFirst (s.pc e) → (s.pc e).asleep = none → ∃ s', Step s s') :
    ∃ s', Step s s' := by
  have hnext : ∀ {v w : Child}, s.pc v = .blocked w →
      (∃ s', Step s s') ∨ ∃ x, s.pc w = .blocked x := by
    intro v w hv
    obtain ⟨hne, r, hr, hmeets⟩ := h.wants v w hv
    by_cases hstops : s.locks.Stops (some v) r .wrlck (some w)
    · have hsix : (s.pc v).stage ≤ 6 := by rw [hv]; exact Nat.le_refl 6
      have hfirst := ((h.stops_iff hsix hr).mp hstops).2.2
      cases ha : (s.pc w).asleep with
      | none => exact .inl (hawake w hfirst ha)
      | some x => exact .inr ⟨x, Pc.eq_of_asleep ha⟩
    · exact .inl (h.moves_asking ⟨hr, .inr ⟨w, hv, hstops⟩⟩)
  rcases hnext hpc with hmoves | ⟨e, hd⟩
  · exact hmoves
  rcases hnext hd with hmoves | ⟨x, he⟩
  · exact hmoves
  have hc := h.wants c d hpc
  have hd' := h.wants d e hd
  have hec : e = c :=
    (Child.eq_or_eq hc.ne_one hd'.ne_one hc.1.symm (h.wants e x he).ne_one).resolve_right hd'.1
  have hsleeps : ∀ {v w : Child}, s.pc v = .blocked w → s.sleeps v = some w := fun hv =>
    congrArg Pc.asleep hv
  exact absurd (.tail (.single (hsleeps hpc)) (hsleeps (hec ▸ hd))) (h.acyclic c)

/-- A child that has its first lock, and has not been answered, has been told to go on. -/
theorem mail_of_stage (hfour : 4 ≤ (s.pc c).stage) (hseven : (s.pc c).stage ≤ 7)
    (hsent : 2 ≤ s.main.sent c) (hfreed : (s.pc c).freed ≠ none) :
    (s.pc c).received < s.main.sent c := by
  cases hpc : s.pc c with
  | holding => exact hsent
  | starting | stopping =>
    rw [hpc] at hfour hseven
    simp at hfour hseven
  | _ =>
    rw [hpc] at hfreed
    exact absurd rfl hfreed

/-- Until the first answer, one of the children goes on. -/
theorem Inv.progress_none (h : Inv s) (hsix : ∀ c ≠ .one, (s.pc c).stage ≤ 6)
    (hfour : ∀ c, 4 ≤ (s.pc c).stage) (hsent : ∀ c, 2 ≤ s.main.sent c) :
    ∃ s', Step s s' := by
  have hawake : ∀ c, (s.pc c).stage ≤ 7 → (s.pc c).asleep = none → ∃ s', Step s s' := by
    intro c hseven ha
    have hborn := hfour c
    exact h.moves (by omega) (by omega) ha (mail_of_stage hborn hseven (hsent c))
  cases ha : (s.pc .two).asleep with
  | none => exact hawake .two (Nat.le_succ_of_le (hsix .two nofun)) ha
  | some d =>
    refine h.moves_asleep (Pc.eq_of_asleep ha) fun e hfirst ha' => hawake e ?_ ha'
    by_cases he : e = .one
    · exact Nat.le_of_lt_succ (hfirst.2.2 he)
    · exact Nat.le_succ_of_le (hsix e he)

/-- While the parent waits for the message about the deadlock, it comes. -/
theorem Inv.progress_answer (h : Inv s) (hmain : s.main = .answer) :
    ∃ s', Step s s' := by
  have hto := h.answer hmain
  have hleast : ∀ c, 4 ≤ (s.pc c).stage := fun c => by
    have := h.control.least c
    rwa [hmain] at this
  cases htold : told s.pc s.answers with
  | cons arg rest =>
    exact ⟨_, .hear (by rw [hmain]; rfl) (hto.trans htold)⟩
  | nil =>
    have hanswers := h.answers
    generalize hl : s.answers = l at hanswers htold
    cases hanswers with
    | none hsix => exact h.progress_none hsix hleast fun c => by rw [hmain]; exact Nat.le_refl 2
    | @refused v w d hv hw hne hpv hpw =>
      rw [told_cons] at htold
      have hseven : (s.pc v).stage = 7 := by
        split at htold
        · cases htold
        · omega
      have hpc : ∃ arg, s.pc v = .answered arg := by
        cases hpc : s.pc v with
        | answered arg => exact ⟨arg, rfl⟩
        | _ => simp [hpc, Pc.stage] at hseven
      obtain ⟨arg, hpc⟩ := hpc
      exact ⟨_, .tell (by rw [hpc]; rfl)⟩
    | @granted v w hv hw hne hpv hpw =>
      rw [told_cons, if_pos (by rw [hpv]; exact (by decide : 8 ≤ 10))] at htold
      cases htold

/-- While the parent waits for a child, somebody goes on. -/
theorem Inv.progress_joining (h : Inv s) (hmain : s.main = .joining c) :
    ∃ s', Step s s' := by
  have hsent : ∀ d, s.main.sent d = 3 := fun d => by rw [hmain]; rfl
  have hleast : ∀ d, 4 ≤ (s.pc d).stage := fun d =>
    (Main.least_of_sent (c := c) ((by decide : 2 ≤ 3).trans (hsent c).ge) d).trans
      (h.control.least d)
  have hawake : ∀ d, (s.pc d).stage < 10 → (s.pc d).asleep = none → ∃ s', Step s s' := by
    intro d hten ha
    have hborn := hleast d
    refine h.moves (by omega) hten ha fun hfreed => ?_
    rw [hsent]
    cases hpc : s.pc d with
    | starting | holding | stopping => decide
    | _ =>
      rw [hpc] at hfreed
      exact absurd rfl hfreed
  by_cases hten : 10 ≤ (s.pc c).stage
  · obtain ⟨status, hexited⟩ := Pc.exited_of_stage hten
    exact ⟨_, .join hmain hexited⟩
  cases ha : (s.pc c).asleep with
  | none => exact hawake c (Nat.not_le.mp hten) ha
  | some d =>
    exact h.moves_asleep (Pc.eq_of_asleep ha) fun e hfirst ha' => hawake e hfirst.2.1 ha'

/-- While the parent waits for the first message of a child, it comes. -/
theorem Inv.progress_waiting (h : Inv s) (hmain : s.main = .waiting c) :
    ∃ s', Step s s' ∧ Quiet s s' := by
  have hto := h.waiting hmain
  split at hto
  · have hhears : ∃ f, s.main.hears = some (f, .testing c) := by
      rw [hmain]
      cases c with
      | _ => exact ⟨_, rfl⟩
    obtain ⟨f, hhears⟩ := hhears
    exact ⟨_, .hear hhears hto, rfl, fun _ _ => .inl rfl⟩
  · next hfour =>
    have hleast := h.control.least c
    rw [hmain] at hleast
    have hborn : 1 ≤ (s.pc c).stage := (if_neg (Nat.lt_irrefl _)).ge.trans hleast
    refine h.moves_early hborn (by omega) fun hfreed => ?_
    have hstarting : s.pc c = .starting := by
      cases hpc : s.pc c with
      | _ => simp_all [Pc.stage, Pc.freed]
    rw [hstarting, hmain]
    exact (Nat.lt_succ_self 0).trans_le (if_pos (Nat.le_refl _)).ge

theorem Inv.done (h : Inv s) {pass : Bool} (hmain : s.main = .finished pass) :
    State.Done s := by
  have hexited : ∀ c, s.pc c = .exited 1 := by
    intro c
    have hleast := h.control.least c
    rw [hmain] at hleast
    obtain ⟨status, hpc⟩ := Pc.exited_of_stage hleast
    exact h.control.status c status (.inr hpc) ▸ hpc
  refine ⟨?_, hexited, fun o b => ?_, ?_⟩
  · cases pass with
    | false => exact absurd hmain h.verdict
    | true => exact hmain
  · cases o with
    | none => exact h.locked.parent b
    | some c =>
      refine (h.locked.write c b).resolve_right fun hw => ?_
      have hten : (s.pc c).stage < 10 :=
        ((h.locked.child c b).mp hw).elim (fun hfirst => hfirst.2.2.1) fun hsecond => hsecond.2.1
      rw [hexited c] at hten
      exact absurd hten (Nat.lt_irrefl 10)
  · have hanswers := h.answers
    generalize s.answers = l at hanswers
    cases hanswers with
    | none hsix =>
      have htwo := hsix .two nofun
      rw [hexited] at htwo
      exact absurd htwo (by decide)
    | @refused v w d hv hw hne hpv hpw =>
      rw [hexited w] at hpw
      cases hpw
    | @granted v w hv hw hne hpv hpw => exact ⟨v, w, hv, hw, hne, rfl⟩

/-- `do_test` returns. -/
theorem exists_test (T : Table Proc) (c : Child) : ∃ ok, DoTest T c ok := by
  by_cases hx : ∃ x, T.Reports none c.first .rdlck x
  · obtain ⟨x, hx⟩ := hx
    exact ⟨_, .found hx⟩
  · exact ⟨_, .unlocked fun x hx' => hx ⟨x, hx'⟩⟩

/-- The parent goes on if it does not wait for a child. -/
theorem main_moves (hwaiting : ∀ c, s.main ≠ .waiting c) (hanswer : s.main ≠ .answer)
    (hjoining : ∀ c, s.main ≠ .joining c) (hfinished : ∀ pass, s.main ≠ .finished pass) :
    ∃ s', Step s s' ∧ Quiet s s' := by
  have hquiet : ∀ {s' : State}, s'.answers = s.answers → s'.pc = s.pc → Quiet s s' :=
    fun ha hpc => ⟨ha, fun c _ => .inl (congrFun hpc c)⟩
  cases hmain : s.main with
  | forking c => exact ⟨_, .fork hmain, quiet_goto rfl rfl (by decide : 1 ≤ 5)⟩
  | freeing c => exact ⟨_, .send (by rw [hmain]; rfl), hquiet rfl rfl⟩
  | testing c =>
    obtain ⟨ok, hok⟩ := exists_test s.locks c
    exact ⟨_, .test hmain hok, hquiet rfl rfl⟩
  | resuming c | stopping c =>
    cases c with
    | _ => exact ⟨_, .send (by rw [hmain]; rfl), hquiet rfl rfl⟩
  | checking c => exact ⟨_, .check hmain, hquiet rfl rfl⟩
  | ignoring => exact ⟨_, .ignore hmain, hquiet rfl rfl⟩
  | judging => exact ⟨_, .judge hmain, hquiet rfl rfl⟩
  | waiting c => exact absurd hmain (hwaiting c)
  | answer => exact absurd hmain hanswer
  | joining c => exact absurd hmain (hjoining c)
  | finished pass => exact absurd hmain (hfinished pass)

theorem progress : Progress Step Inv State.Done := by
  intro s h
  cases hmain : s.main with
  | waiting c =>
    obtain ⟨s', hstep, -⟩ := h.progress_waiting hmain
    exact .inr ⟨s', hstep⟩
  | answer => exact .inr (h.progress_answer hmain)
  | joining c => exact .inr (h.progress_joining hmain)
  | finished pass => exact .inl (h.done hmain)
  | _ =>
    obtain ⟨s', hstep, -⟩ := main_moves (s := s) (by simp [hmain])
      (by simp [hmain]) (by simp [hmain]) (by simp [hmain])
    exact .inr ⟨s', hstep⟩

/-! ## Which one is refused -/

/-- Nobody has been answered, `v` has not called `F_SETLKW` yet, and `w` sleeps on nobody else. -/
structure Early (v w : Child) (s : State) : Prop where
  answers : s.answers = []
  late : (s.pc v).stage ≤ 5
  sleeps : ∀ x, s.pc w = .blocked x → x = v

theorem Early.quiet {v w : Child} (h : Early v w s) (hv : v ≠ .one) (hw : w ≠ .one)
    (hquiet : Quiet s s') : Early v w s' where
  answers := hquiet.1.trans h.answers
  late := by
    rcases hquiet.2 v hv with heq | hstage
    · exact heq ▸ h.late
    · exact hstage
  sleeps x hx := by
    rcases hquiet.2 w hw with heq | hstage
    · exact h.sleeps x (heq ▸ hx)
    · rw [hx] at hstage
      exact absurd hstage (by simp)

/-- Then it goes on until `w` sleeps on `v`, which is in front of its call, and the first child has
unlocked: there is no other lock that `v` could find first. -/
theorem progress_early {v w : Child} (hv : v ≠ .one) (hw : w ≠ .one) (hne : w ≠ v) :
    Progress (fun s s' => Step s s' ∧ Early v w s') (fun s => Inv s ∧ Early v w s)
      fun s => s.pc v = .resuming ∧ s.pc w = .blocked v ∧ 8 ≤ (s.pc .one).stage := by
  rintro s ⟨h, hearly⟩
  have hstep : (∃ s', Step s s' ∧ Quiet s s') → ∃ s', Step s s' ∧ Early v w s' :=
    fun ⟨s', hstep, hquiet⟩ => ⟨s', hstep, hearly.quiet hv hw hquiet⟩
  have hpast : s.main.past ≠ true := fun hpast =>
    h.mailed.past hpast (by rw [hearly.answers]; rfl)
  cases hmain : s.main with
  | waiting c => exact .inr (hstep (h.progress_waiting hmain))
  | answer =>
    have hsix : ∀ c ≠ .one, (s.pc c).stage ≤ 6 := by
      have hanswers := h.answers
      rw [hearly.answers] at hanswers
      cases hanswers with
      | none hsix => exact hsix
    have hfour : ∀ c, 4 ≤ (s.pc c).stage := fun c => by
      have := h.control.least c
      rwa [hmain] at this
    have hsent : ∀ c, 2 ≤ s.main.sent c := fun c => by rw [hmain]; exact Nat.le_refl 2
    -- whoever has not come that far goes on
    have hgo : ∀ c, (s.pc c).stage ≤ 4 → ∃ s', Step s s' ∧ Quiet s s' := fun c hle =>
      h.moves_early (Nat.le_of_lt (Nat.lt_of_lt_of_le (by decide) (hfour c))) hle
        (mail_of_stage (hfour c) (by omega) (hsent c))
    by_cases hv4 : (s.pc v).stage ≤ 4
    · exact .inr (hstep (hgo v hv4))
    by_cases hw4 : (s.pc w).stage ≤ 4
    · exact .inr (hstep (hgo w hw4))
    by_cases hone4 : (s.pc .one).stage ≤ 4
    · exact .inr (hstep (hgo .one hone4))
    have hpv : s.pc v = .resuming := by
      have hv5 := hearly.late
      cases hpc : s.pc v with
      | resuming => rfl
      | _ => simp [hpc] at hv4 hv5
    have hfirst : v.HasFirst (s.pc v) := by rw [hpv]; exact hasFirst_of_lt (by decide) (by decide)
    have hw6 := hsix w hw
    cases hpw : s.pc w with
    | resuming =>
      obtain ⟨r, hr⟩ := Option.ne_none_iff_exists'.mp (Child.second_ne_none.mpr hw)
      have hstops := h.locked.stops hv hw hne.symm hfirst hr
      have hopen : ¬ s.sleeps.Leads v w := fun hleads =>
        hleads.ne_none (by rw [State.sleeps, hpv]; rfl)
      refine .inr ⟨_, .sleep ⟨hr, .inl hpw⟩ hstops hopen, hearly.answers, ?_, fun x hx => ?_⟩
      · show (Function.update s.pc w (.blocked v) v).stage ≤ 5
        rw [Function.update_of_ne hne.symm]
        exact hearly.late
      · change Function.update s.pc w (.blocked v) w = .blocked x at hx
        rw [Function.update_self] at hx
        exact (Pc.blocked.inj hx).symm
    | blocked x =>
      obtain rfl := hearly.sleeps x hpw
      by_cases hone : 8 ≤ (s.pc .one).stage
      · exact .inl ⟨hpv, hpw, hone⟩
      cases hpo : s.pc .one with
      | resuming =>
        refine .inr (hstep ⟨_, .unlock hpo rfl, rfl, fun c hc => .inl ?_⟩)
        exact Function.update_of_ne hc ..
      | blocked x => exact absurd rfl (h.wants .one x hpo).ne_one
      | answered arg =>
        have hmem := h.mailed.answered .one arg hpo
        rw [hearly.answers] at hmem
        cases hmem
      | _ => simp [hpo] at hone hone4
    | _ => simp [hpw] at hw4 hw6
  | joining c | finished pass =>
    rw [hmain] at hpast
    exact absurd rfl hpast
  | _ =>
    exact .inr (hstep (main_moves (by simp [hmain]) (by simp [hmain]) (by simp [hmain])
      (by simp [hmain])))

/-- An answer is not taken back. -/
theorem prefix_of_run (h : ReflTransGen Step s s') : s.answers <+: s'.answers := by
  induction h with
  | refl => exact List.prefix_rfl
  | tail _ hstep ih =>
    refine ih.trans ?_
    cases hstep with
    | grant hasks hfree | deadlock hasks hstops hcircle => exact List.prefix_append _ _
    | _ => exact List.prefix_rfl

/-- **One of the two is told about the deadlock**, whatever order the steps come in, as long as the
alarm does not go off and also when it does; the other one gets its lock only behind the end of
that. No two children have conflicting locks, none dies while the parent handles that, `do_test`
would find the locks also where its result is not used, and the block does not fail. -/
theorem deadlock_detected {t : Timed State} (h : Reaches t) :
    t.state.locks.Compatible ∧ t.state.caught = false ∧ Answers t.state.pc t.state.answers ∧
      (∀ c ≠ .one, ∀ ok, t.state.main = .checking c → DoTest t.state.locks c ok → ok = true) ∧
      t.state.main ≠ .finished false :=
  have hinv := Inv.of_run (timed_last h)
  ⟨hinv.compatible, hinv.control.calm, hinv.answers,
    fun _ hc _ hmain hok => hinv.check_ok hmain hc hok, hinv.verdict⟩

/-- A state at the end. -/
theorem deadlock_detected_done :
    ∃ s : State, s.Done ∧ s.locks.Compatible ∧ s.caught = false ∧ Answers s.pc s.answers := by
  obtain ⟨s, hrun, hdone⟩ := exists_end progress decreases (fun _ _ => Inv.step) Inv.start
  have hreaches : Reaches (.running s) := timed_running.mpr hrun
  obtain ⟨hcompatible, hcalm, hanswers, -⟩ := deadlock_detected hreaches
  exact ⟨s, hdone, hcompatible, hcalm, hanswers⟩

/-- **The program comes to its end**: no run is longer than 63 steps, and the alarm; and as long as
that does not go off, a run can be continued to the end, and has reached it if it cannot go on. -/
theorem completes {n : Nat} {t : Timed State} (h : Run TimedStep n (.running .start) t) :
    n ≤ 64 ∧ ((∃ s, t = .alarmed s ∧ s.Armed) ∨ ∃ s, t = .running s ∧
      (∃ s', ReflTransGen TimedStep t (.running s') ∧ s'.Done) ∧
      ((∀ t', ¬ TimedStep t t') → s.Done)) := by
  have hkeep : Invariant Step Inv := fun _ _ => Inv.step
  have hle : ∀ {m : Nat} {s : State}, Run Step m .start s → m ≤ 63 := by
    intro m s hrun
    have hlen := decreases.length_le hkeep .start hrun
    have hsize : State.start.size = 63 := rfl
    omega
  obtain ⟨s, rfl, hrun⟩ | ⟨m, s, rfl, rfl, hrun, harmed⟩ := h.timed
  · refine ⟨Nat.le_succ_of_le (hle hrun), .inr ⟨s, rfl, ?_, fun hstuck => ?_⟩⟩
    · obtain ⟨s', hrun', hdone⟩ := exists_end progress decreases hkeep (.of_run hrun.reflTransGen)
      exact ⟨s', timed_running.mpr hrun', hdone⟩
    · exact ends progress hkeep .start hrun.reflTransGen fun s' hstep => hstuck _ (.step hstep)
  · exact ⟨Nat.succ_le_succ (hle hrun), .inl ⟨s, rfl, harmed⟩⟩

theorem completes_start : ∃ s : State, s.Done := by
  obtain ⟨_, h, -⟩ | ⟨_, -, ⟨s, -, hdone⟩, -⟩ := (completes (.refl (Timed.running State.start))).2
  · cases h
  · exact ⟨s, hdone⟩

/-- **It may be either of the two**, and not only the third child, as the comment in front of the
last `parent_wait` has it: the one that calls `F_SETLKW` while the other one sleeps on its lock. -/
theorem either_refused (v : Child) (hv : v ≠ .one) :
    ∃ s w, Reaches (.running s) ∧ s.Done ∧ s.answers = [(v, EDEADLK), (w, 0)] := by
  obtain ⟨w, hwv, hw⟩ := Child.exists_other hv
  have hkeep : Invariant (fun s s' => Step s s' ∧ Early v w s') fun s => Inv s ∧ Early v w s :=
    fun _ _ h hstep => ⟨h.1.step hstep.1, hstep.2⟩
  have hdec : Decreases (fun s s' => Step s s' ∧ Early v w s') (fun s => Inv s ∧ Early v w s)
      State.size := fun _ _ h hstep => decreases h.1 hstep.1
  have hstart : Inv .start ∧ Early v w .start := ⟨.start, rfl, Nat.zero_le 5, nofun⟩
  obtain ⟨s, hrun, hpv, hpw, -⟩ := exists_end (progress_early hv hw hwv) hdec hkeep hstart
  obtain ⟨hinv, hearly⟩ := hkeep.run hstart hrun
  obtain ⟨r, hr⟩ := Option.ne_none_iff_exists'.mp (Child.second_ne_none.mpr hv)
  have hfirst : w.HasFirst (s.pc w) := by rw [hpw]; exact hasFirst_of_lt (by simp) (by simp)
  have hcircle : s.sleeps.Leads w v := .single (congrArg Pc.asleep hpw)
  have hstep : Step s _ :=
    .deadlock ⟨hr, .inl hpv⟩ (hinv.locked.stops hw hv hwv hfirst hr) hcircle
  obtain ⟨s', hrun', hdone⟩ := exists_end progress decreases (fun _ _ => Inv.step) (hinv.step hstep)
  obtain ⟨v', w', -, -, -, heq⟩ := hdone.answers
  have hprefix := prefix_of_run hrun'
  have hsteps : ReflTransGen Step .start s := hrun.lift id fun _ _ h => h.1
  refine ⟨s', w', timed_running.mpr (hsteps.trans (.head hstep hrun')), hdone, ?_⟩
  rw [heq] at hprefix
  change s.answers ++ [(v, EDEADLK)] <+: _ at hprefix
  rw [hearly.answers] at hprefix
  rw [heq, (List.cons_prefix_cons.mp hprefix).1]

/-- The second child, as the message of the parent has it. -/
theorem either_refused_two :
    ∃ s w, Reaches (.running s) ∧ s.Done ∧ s.answers = [(.two, EDEADLK), (w, 0)] :=
  either_refused .two (by decide)

end Syscalls.Fcntl17
