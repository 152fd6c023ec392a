import UnikraftSuite.Syscalls.Fcntl17
import Mathlib.Data.List.TakeDrop

/-!
# Where everyone is in `fcntl17`

The parent sends each child the messages of one `script`, and a child does not go on without its
next one. So the place of the parent bounds those of the children from both sides: a child has
received no more than has been sent (`Main.sent`), and the parent has heard of it what it has
waited for (`Main.least`).

- `Control` is this invariant; each step keeps it (`Control.step`).
-/

namespace Syscalls.Fcntl17

open RangeLocks

variable {s s' : State} {c d : Child} {pc : Pc}

/-! ## How far everyone is -/

/-- How far a child is. -/
@[simp] def Pc.stage : Pc → Nat
  | .unborn => 0
  | .starting => 1
  | .locking => 2
  | .locked _ => 3
  | .holding => 4
  | .resuming => 5
  | .blocked _ => 6
  | .answered _ => 7
  | .stopping => 8
  | .leaving _ => 9
  | .exited _ => 10

/-- The number of messages it has received. -/
def Pc.received : Pc → Nat
  | .unborn | .starting => 0
  | .locking | .locked _ | .holding => 1
  | .resuming | .blocked _ | .answered _ | .stopping => 2
  | .leaving _ | .exited _ => 3

/-- The messages that a child receives. -/
def script : List Int := [0, 0, STOP]

def Child.rank : Child → Nat
  | .one => 0
  | .two => 1
  | .three => 2

/-- The number of messages that the parent has sent to a child. -/
def Main.sent (m : Main) (c : Child) : Nat :=
  match m with
  | .forking _ => 0
  | .freeing d => if c.rank < d.rank then 1 else 0
  | .waiting d | .testing d => if c.rank ≤ d.rank then 1 else 0
  | .resuming .two => 1
  | .resuming .three => if c = .two then 2 else 1
  | .resuming .one => if c = .one then 1 else 2
  | .answer | .checking _ | .ignoring => 2
  | .stopping d => if c.rank < d.rank then 3 else 2
  | .joining _ | .judging | .finished _ => 3

/-- How far a child is at least. -/
def Main.least (m : Main) (c : Child) : Nat :=
  match m with
  | .forking d => if c.rank < d.rank then 1 else 0
  | .freeing d | .waiting d => if c.rank < d.rank then 4 else 1
  | .testing d => if c.rank ≤ d.rank then 4 else 1
  | .joining d => if c.rank < d.rank then 10 else 4
  | .judging | .finished _ => 10
  | _ => 4

/-- The children may exit: `SIGCHLD` is not handled any more. -/
def Main.Ending : Main → Prop
  | .stopping _ | .joining _ | .judging | .finished _ => True
  | _ => False

theorem Pc.received_le_of_stage (pc : Pc) :
    (pc.stage ≤ 1 ↔ pc.received = 0) ∧ (pc.stage ≤ 4 ↔ pc.received ≤ 1) ∧
      (pc.stage ≤ 8 ↔ pc.received ≤ 2) ∧ pc.received ≤ 3 := by
  cases pc with
  | _ => simp [stage, received]

theorem Pc.exited_of_stage {pc : Pc} (h : 10 ≤ pc.stage) : ∃ status, pc = .exited status := by
  cases pc with
  | exited status => exact ⟨status, rfl⟩
  | _ => simp [stage] at h

theorem Pc.eq_of_asleep {pc : Pc} (h : pc.asleep = some d) : pc = .blocked d := by
  cases pc with
  | blocked e => exact congrArg Pc.blocked (Option.some.inj h)
  | _ => cases h

theorem Pc.freed_spec {pc pc' : Pc} (h : pc.freed = some pc') :
    pc'.received = pc.received + 1 ∧ pc'.stage = pc.stage + 1 := by
  cases pc with
  | starting | holding | stopping =>
    cases h
    exact ⟨rfl, rfl⟩
  | _ => cases h

theorem Pc.tells_spec {pc pc' : Pc} {arg : Int} (h : pc.tells = some (arg, pc')) :
    (pc = .locked arg ∧ pc' = .holding) ∨ (pc = .answered arg ∧ pc' = .stopping) := by
  cases pc with
  | locked a =>
    cases h
    exact .inl ⟨rfl, rfl⟩
  | answered a =>
    cases h
    exact .inr ⟨rfl, rfl⟩
  | _ => cases h

/-- A message of the parent is the next one of the script. -/
theorem Main.sends_spec {m m' : Main} {c : Child} {arg : Int} (h : m.sends = some (c, arg, m')) :
    (∀ d, m'.sent d = m.sent d + if d = c then 1 else 0) ∧ (∀ d, m'.least d = m.least d) ∧
      script[m.sent c]? = some arg ∧ (m'.Ending → m.Ending) := by
  cases m with
  | freeing d | resuming d | stopping d =>
    cases d with
    | _ =>
      cases h
      exact ⟨fun d => by cases d <;> rfl, fun d => by cases d <;> rfl, rfl, id⟩
  | _ => cases h

/-- `parent_wait` is about the first child that has not been heard, or about the deadlock. -/
theorem Main.hears_spec {m m' : Main} {f : Int → Bool} (h : m.hears = some (f, m')) :
    (∃ c, m = .waiting c ∧ m' = .testing c ∧ f 0 = false) ∨
      (m = .answer ∧ m' = .checking .two ∧ f EDEADLK = false) := by
  cases m with
  | waiting c =>
    cases c with
    | _ =>
      cases h
      exact .inl ⟨_, rfl, rfl, rfl⟩
  | answer =>
    cases h
    exact .inr ⟨rfl, rfl, rfl⟩
  | _ => cases h

/-! ## Messages on their way -/

/-- The first `sent` messages of the script without the first `received` ones. -/
def Mail (sent received : Nat) (l : List Int) : Prop :=
  received ≤ sent ∧ l = (script.take sent).drop received

theorem Mail.send {sent received : Nat} {l : List Int} {arg : Int} (h : Mail sent received l)
    (harg : script[sent]? = some arg) : Mail (sent + 1) received (l ++ [arg]) := by
  obtain ⟨hle, rfl⟩ := h
  have hlen : (script.take sent).length = sent :=
    List.length_take_of_le (Nat.le_of_lt (List.getElem?_eq_some_iff.mp harg).1)
  refine ⟨by omega, ?_⟩
  rw [List.take_add_one, harg, List.drop_append_of_le_length (by omega)]
  rfl

/-- The next message is that of the script. -/
theorem Mail.receive {sent received : Nat} {l : List Int} {arg : Int}
    (h : Mail sent received (arg :: l)) :
    Mail sent (received + 1) l ∧ script[received]? = some arg := by
  obtain ⟨hle, heq⟩ := h
  have hlt : received < (script.take sent).length := by
    by_contra hge
    rw [List.drop_of_length_le (Nat.not_lt.mp hge)] at heq
    cases heq
  rw [List.drop_eq_getElem_cons hlt] at heq
  obtain ⟨harg, hl⟩ := List.cons.inj heq
  have hlt' : received < sent := lt_of_lt_of_le hlt (List.length_take_le _ _)
  refine ⟨⟨hlt', hl⟩, ?_⟩
  rw [harg, List.getElem_take]
  exact List.getElem?_eq_getElem _

theorem Mail.exists_cons {sent received : Nat} {l : List Int} (h : Mail sent received l)
    (hlt : received < sent) (hsent : sent ≤ 3) : ∃ arg rest, l = arg :: rest := by
  have hlen : received < (script.take sent).length := by
    rw [List.length_take_of_le hsent]
    exact hlt
  exact ⟨_, _, h.2.trans (List.drop_eq_getElem_cons hlen)⟩

/-- None of them is the one that `child_wait` looks for, and so no child exits with 0. -/
theorem ne_shortStop_of_script {n : Nat} {arg : Int} (h : script[n]? = some arg) :
    arg ≠ shortStop :=
  (by decide : ∀ arg ∈ script, arg ≠ shortStop) arg (List.mem_of_getElem? h)

/-! ## Where everyone is -/

/-- The messages to the children, and how far they are. -/
structure Control (s : State) : Prop where
  mail : ∀ c, Mail (s.main.sent c) (s.pc c).received (s.toChild c)
  least : ∀ c, s.main.least c ≤ (s.pc c).stage
  handler : s.handler = true → ¬ s.main.Ending
  calm : s.caught = false
  status : ∀ c status, s.pc c = .leaving status ∨ s.pc c = .exited status → status = 1

theorem Main.sent_le (m : Main) (c : Child) : m.sent c ≤ 3 := by
  cases m with
  | forking d | freeing d | waiting d | testing d | resuming d | checking d | stopping d
  | joining d =>
    cases c <;> cases d <;> decide
  | answer | ignoring => exact (by decide : 2 ≤ 3)
  | judging | finished pass => exact Nat.le_refl 3

/-- A child that has received its last message finds the parent at the end. -/
theorem Main.ending_of_sent {m : Main} (h : 3 ≤ m.sent c) : m.Ending := by
  cases m with
  | stopping d | joining d | judging | finished pass => exact trivial
  | forking d | freeing d | waiting d | testing d | resuming d | checking d =>
    cases c <;> cases d <;> exact absurd h (by decide)
  | answer | ignoring => exact absurd h (by decide : ¬ 3 ≤ 2)

theorem Control.start : Control .start where
  mail c := ⟨Nat.le_refl 0, rfl⟩
  least c := by cases c <;> exact Nat.le_refl 0
  handler _ := id
  calm := rfl
  status c status h := by rcases h with h | h <;> cases h

/-- A child goes on without a message. -/
theorem Control.goto (h : Control s) {old : Pc} (hold : s.pc c = old) (hmain : s'.main = s.main)
    (hhandler : s'.handler = s.handler) (hcaught : s'.caught = false) (hto : s'.toChild = s.toChild)
    (hpc : s'.pc = Function.update s.pc c pc) (hreceived : pc.received = old.received)
    (hstage : old.stage ≤ pc.stage)
    (hstatus : ∀ status, pc = .leaving status ∨ pc = .exited status → status = 1) : Control s' where
  mail := by
    rw [hpc, hmain, hto, Function.forall_update_iff s.pc fun d pc =>
      Mail (s.main.sent d) pc.received (s.toChild d), hreceived, ← hold]
    exact ⟨h.mail c, fun d _ => h.mail d⟩
  least := by
    rw [hpc, hmain, Function.forall_update_iff s.pc fun d pc => s.main.least d ≤ pc.stage]
    exact ⟨(h.least c).trans (hold ▸ hstage), fun d _ => h.least d⟩
  handler := by
    rw [hmain, hhandler]
    exact h.handler
  calm := hcaught
  status := by
    rw [hpc, Function.forall_update_iff s.pc fun d pc => ∀ status,
      pc = .leaving status ∨ pc = .exited status → status = 1]
    exact ⟨hstatus, fun d _ => h.status d⟩

/-- The parent goes on without a message to a child. -/
theorem Control.main (h : Control s) {m : Main} (hmain : s'.main = m)
    (hsent : ∀ d, m.sent d = s.main.sent d) (hleast : ∀ d, m.least d ≤ (s.pc d).stage)
    (hhandler : s'.handler = true → s.handler = true ∧ (m.Ending → s.main.Ending))
    (hcaught : s'.caught = s.caught) (hto : s'.toChild = s.toChild) (hpc : s'.pc = s.pc) :
    Control s' where
  mail d := by
    rw [hmain, hto, hpc, hsent]
    exact h.mail d
  least d := by
    rw [hmain, hpc]
    exact hleast d
  handler htrue := by
    rw [hmain]
    exact fun hending => h.handler (hhandler htrue).1 ((hhandler htrue).2 hending)
  calm := hcaught.trans h.calm
  status := by
    rw [hpc]
    exact h.status

/-- The child has exited, so the parent does not handle `SIGCHLD`. -/
theorem Control.handler_eq (h : Control s) (hstage : 9 ≤ (s.pc c).stage) : s.handler = false := by
  have hreceived : 3 ≤ (s.pc c).received := by
    have := (Pc.received_le_of_stage (s.pc c)).2.2.1
    omega
  exact Bool.eq_false_iff.mpr fun htrue =>
    h.handler htrue (Main.ending_of_sent (hreceived.trans (h.mail c).1))

/-- The parent has got a message of the child it waits for, or one about the deadlock. -/
theorem Control.hears (h : Control s) {f : Int → Bool} {m : Main} (hm : s.main.hears = some (f, m))
    (hfour : ∀ c, s.main = .waiting c → 4 ≤ (s.pc c).stage) : (∀ d, m.sent d = s.main.sent d) ∧
      (∀ d, m.least d ≤ (s.pc d).stage) ∧ (m.Ending → s.main.Ending) := by
  rcases Main.hears_spec hm with ⟨c, hmain, rfl, -⟩ | ⟨hmain, rfl, -⟩
  · refine ⟨fun d => hmain ▸ rfl, fun d => ?_, False.elim⟩
    have hd := h.least d
    rw [hmain] at hd
    by_cases heq : d.rank ≤ c.rank
    · rcases Nat.eq_or_lt_of_le heq with heq | hlt
      · have hdc : d = c := by cases d <;> cases c <;> first | rfl | cases heq
        exact (if_pos heq.le).trans_le (hdc ▸ hfour c hmain)
      · exact (if_pos hlt.le).trans_le ((if_pos hlt).ge.trans hd)
    · exact (if_neg heq).trans_le ((if_neg fun hlt => heq hlt.le).ge.trans hd)
  · refine ⟨fun d => hmain ▸ rfl, fun d => ?_, False.elim⟩
    have hd := h.least d
    rwa [hmain] at hd

/-- A child receives the next message of the script, and does not take it for the one to stop. -/
theorem Control.receive (h : Control s) {arg : Int} {rest : List Int}
    (hpc : (s.pc c).freed = some pc) (harg : s.toChild c = arg :: rest) : arg ≠ shortStop ∧
      Control { s.goto c pc with toChild := Function.update s.toChild c rest } := by
  have hmail := h.mail c
  rw [harg] at hmail
  obtain ⟨hmail, hscript⟩ := hmail.receive
  obtain ⟨hreceived, hstage⟩ := Pc.freed_spec hpc
  refine ⟨ne_shortStop_of_script hscript, fun d => ?_, fun d => ?_, h.handler, h.calm, ?_⟩
  · show Mail (s.main.sent d) (Function.update s.pc c pc d).received
      (Function.update s.toChild c rest d)
    by_cases heq : d = c
    · rw [heq, Function.update_self, Function.update_self, hreceived]
      exact hmail
    · rw [Function.update_of_ne heq, Function.update_of_ne heq]
      exact h.mail d
  · show s.main.least d ≤ (Function.update s.pc c pc d).stage
    by_cases heq : d = c
    · rw [heq, Function.update_self, hstage]
      exact Nat.le_succ_of_le (h.least c)
    · rw [Function.update_of_ne heq]
      exact h.least d
  · show ∀ d status, Function.update s.pc c pc d = .leaving status ∨
      Function.update s.pc c pc d = .exited status → status = 1
    rw [Function.forall_update_iff s.pc fun d pc => ∀ status,
      pc = .leaving status ∨ pc = .exited status → status = 1]
    refine ⟨fun status hleaving => ?_, fun d _ => h.status d⟩
    cases hold : s.pc c with
    | starting | holding =>
      rw [hold] at hpc
      cases hpc
      rcases hleaving with hleaving | hleaving <;> cases hleaving
    | stopping =>
      rw [hold] at hpc
      cases hpc
      rcases hleaving with hleaving | hleaving
      · exact (Pc.leaving.inj hleaving).symm
      · cases hleaving
    | _ =>
      rw [hold] at hpc
      cases hpc

/-- The child is in front of `F_SETLKW` or in it. -/
theorem State.Asks.stage {r : Range} (h : s.Asks c r) :
    5 ≤ (s.pc c).stage ∧ (s.pc c).stage ≤ 6 ∧ (s.pc c).received = 2 := by
  obtain ⟨-, hpc | ⟨d, hpc, -⟩⟩ := h
  · rw [hpc]
    decide
  · rw [hpc]
    exact ⟨Nat.le_succ 5, Nat.le_refl 6, rfl⟩

theorem Control.step (h : Control s)
    (htold : ∀ c, s.main = .waiting c → s.toParent ≠ [] → 4 ≤ (s.pc c).stage)
    (hstep : Step s s') : Control s' := by
  cases hstep with
  | @fork c hmain =>
    have hzero : (s.pc c).received = 0 := Nat.le_zero.mp (by
      have := (h.mail c).1
      rwa [hmain] at this)
    have hborn : Control (s.goto c .starting) :=
      h.goto rfl rfl rfl h.calm rfl rfl hzero.symm
        ((Pc.received_le_of_stage (s.pc c)).1.mpr hzero) (by simp)
    refine hborn.main rfl (fun d => ?_) (fun d => ?_) (fun ht => ⟨ht, ?_⟩) rfl rfl rfl
    · show _ = s.main.sent d
      rw [hmain]
      cases c <;> cases d <;> rfl
    · by_cases heq : d = c
      · show _ ≤ (Function.update s.pc c .starting d).stage
        rw [heq, Function.update_self]
        cases c <;> exact Nat.le_refl 1
      · refine le_of_eq_of_le ?_ (hborn.least d)
        show _ = s.main.least d
        rw [hmain]
        cases c <;> cases d <;> first | rfl | exact absurd rfl heq
    · cases c <;> exact False.elim
  | @send c arg m hmain =>
    obtain ⟨hsent, hleast, harg, hending⟩ := Main.sends_spec hmain
    refine ⟨fun d => ?_, fun d => (hleast d).trans_le (h.least d),
      fun ht hend => h.handler ht (hending hend), h.calm, h.status⟩
    show Mail (m.sent d) (s.pc d).received (Function.update s.toChild c (s.toChild c ++ [arg]) d)
    rw [hsent]
    by_cases heq : d = c
    · rw [heq, Function.update_self, if_pos rfl]
      exact (h.mail c).send harg
    · rw [Function.update_of_ne heq, if_neg heq]
      exact h.mail d
  | hear hmain harg =>
    have hne : s.toParent ≠ [] := harg ▸ List.cons_ne_nil _ _
    obtain ⟨hsent, hleast, hending⟩ := h.hears hmain fun c hc => htold c hc hne
    exact h.main rfl hsent hleast (fun ht => ⟨ht, hending⟩) rfl rfl rfl
  | hearNobody errno hmain hnone hexited =>
    obtain ⟨hsent, hleast, hending⟩ := h.hears hmain fun c _ => by
      obtain ⟨status, hpc⟩ := hexited c
      rw [hpc]
      exact (by decide : 4 ≤ 10)
    exact h.main rfl hsent hleast (fun ht => ⟨ht, hending⟩) rfl rfl rfl
  | @test c ok hmain hok =>
    refine h.main rfl (fun d => ?_) (fun d => ?_) (fun ht => ⟨ht, ?_⟩) rfl rfl rfl
    · rw [hmain]
      cases c <;> cases d <;> rfl
    · refine le_of_eq_of_le ?_ (h.least d)
      rw [hmain]
      cases c <;> cases d <;> rfl
    · cases c <;> exact False.elim
  | @check c hmain =>
    refine h.main rfl (fun d => ?_) (fun d => ?_) (fun ht => ⟨ht, ?_⟩) rfl rfl rfl
    · rw [hmain]
      cases c <;> cases d <;> rfl
    · refine le_of_eq_of_le ?_ (h.least d)
      rw [hmain]
      cases c <;> cases d <;> rfl
    · cases c <;> exact False.elim
  | ignore hmain =>
    refine h.main rfl (fun d => ?_) (fun d => ?_) (fun ht => absurd ht Bool.false_ne_true) rfl rfl
      rfl
    · rw [hmain]
      cases d <;> rfl
    · refine le_of_eq_of_le ?_ (h.least d)
      rw [hmain]
      cases d <;> rfl
  | @join c status hmain hexited =>
    refine h.main rfl (fun d => ?_) (fun d => ?_) (fun ht => ⟨ht, fun _ => hmain ▸ trivial⟩) rfl
      rfl rfl
    · rw [hmain]
      cases c <;> cases d <;> rfl
    · by_cases heq : d = c
      · have hten : (c.next .joining .judging).least c ≤ 10 := by cases c <;> decide
        rw [heq, hexited]
        exact hten
      · refine le_of_eq_of_le ?_ (h.least d)
        rw [hmain]
        cases c <;> cases d <;> first | rfl | exact absurd rfl heq
  | judge hmain =>
    refine h.main rfl (fun d => hmain ▸ rfl) (fun d => ?_)
      (fun ht => ⟨ht, fun _ => hmain ▸ trivial⟩) rfl rfl rfl
    have hd := h.least d
    rwa [hmain] at hd
  | receive hpc harg =>
    obtain ⟨hne, hnext⟩ := h.receive hpc harg
    rw [if_neg hne]
    exact hnext
  | lock hpc hfree => exact h.goto hpc rfl rfl h.calm rfl rfl rfl (Nat.le_succ 2) (by simp)
  | refuse hpc hblocked => exact h.goto hpc rfl rfl h.calm rfl rfl rfl (Nat.le_succ 2) (by simp)
  | tell htells =>
    rcases Pc.tells_spec htells with ⟨hpc, rfl⟩ | ⟨hpc, rfl⟩
    · exact h.goto hpc rfl rfl h.calm rfl rfl rfl (Nat.le_succ 3) (by simp)
    · exact h.goto hpc rfl rfl h.calm rfl rfl rfl (Nat.le_succ 7) (by simp)
  | unlock hpc hsecond =>
    exact h.goto hpc rfl rfl h.calm rfl rfl rfl (by decide) (by simp)
  | sleep hasks hstops hopen =>
    exact h.goto rfl rfl rfl h.calm rfl rfl hasks.stage.2.2.symm hasks.stage.2.1 (by simp)
  | grant hasks hfree =>
    exact h.goto rfl rfl rfl h.calm rfl rfl hasks.stage.2.2.symm
      (Nat.le_succ_of_le hasks.stage.2.1) (by simp)
  | deadlock hasks hstops hcircle =>
    exact h.goto rfl rfl rfl h.calm rfl rfl hasks.stage.2.2.symm
      (Nat.le_succ_of_le hasks.stage.2.1) (by simp)
  | @exit c status hpc =>
    have hcaught : (s.caught || s.handler) = false := by
      rw [h.calm, h.handler_eq (c := c) (by rw [hpc]; exact Nat.le_refl 9)]
      rfl
    refine h.goto hpc rfl rfl hcaught rfl rfl rfl (Nat.le_succ 9) fun status' hstatus => ?_
    refine h.status c status' (.inl (hpc.trans ?_))
    rcases hstatus with hstatus | hstatus
    · cases hstatus
    · rw [Pc.exited.inj hstatus]

end Syscalls.Fcntl17
