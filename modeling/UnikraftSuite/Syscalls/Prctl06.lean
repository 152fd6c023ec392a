import UnikraftSuite.Lib.Stateful
import Mathlib.Data.List.Perm.Basic

/-!
# The `cp` of `prctl06`

`cp` copies a file in two nested loops, which share the counter `nread`: what has been read,
and what of it is still to be written. It has one exit for everything that can fail, which
closes the descriptors and restores `errno`.

- `cp_faithful`: no byte is lost or written twice, however short the reads and writes are.
- `cp_returns`: it returns if every write gets on or fails.
- `cp_errorPath`: every descriptor is closed once, and `errno` is that of the first failure.
-/

namespace Syscalls.Prctl06

open Stateful

/-! ## The machine -/

abbrev Byte := BitVec 8

def EINTR : Int := 4

/-- The return value of a call, and `errno` behind it. -/
structure Result where
  ret : Int
  errno : Int

/-- The calls; `write` is of `n` bytes from `buf + outPtr` on. -/
inductive Call where
  | openFrom
  | openTo
  | read (fd : Int)
  | write (fd : Int) (outPtr : Nat) (n : Int)
  | close (fd : Int)
  deriving DecidableEq

/-- A call that has been made. -/
abbrev Event := Call × Result

/-- What a descriptor is open on. -/
inductive File where
  | source
  | destination
  deriving DecidableEq

/-- The memory of the process, its descriptors, what is left of the source, what the
destination has got, and all calls so far. -/
structure Machine where
  errno : Int
  buf : List Byte
  files : Int → Option File
  rest : List Byte
  written : List Byte
  log : List Event

/-- The result of each call, which may depend on everything that has happened. -/
abbrev Kernel := Machine → Call → Result

/-- An `open` that does not fail. -/
def Machine.link (m : Machine) (fd : Int) (file : File) : Machine :=
  if fd < 0 then m else { m with files := Function.update m.files fd (some file) }

/-- What a call does. Only a `read` from the source and a `write` to the destination move
bytes, and a descriptor is free behind a `close` also if that fails. -/
def Machine.after (m : Machine) (c : Call) (r : Result) : Machine :=
  let m := { m with errno := r.errno, log := m.log ++ [(c, r)] }
  match c with
  | .openFrom => m.link r.ret .source
  | .openTo => m.link r.ret .destination
  | .read fd =>
    if m.files fd = some .source then
      let bytes := m.rest.take r.ret.toNat
      { m with buf := bytes ++ m.buf.drop bytes.length, rest := m.rest.drop r.ret.toNat }
    else m
  | .write fd outPtr _ =>
    if m.files fd = some .destination then
      { m with written := m.written ++ (m.buf.drop outPtr).take r.ret.toNat }
    else m
  | .close fd => { m with files := Function.update m.files fd none }

/-- A call, which returns its return value. -/
def syscall (k : Kernel) (c : Call) : Prog Machine Int :=
  act fun m => ((k m c).ret, m.after c (k m c))

def errno : Prog Machine Int := act fun m => (m.errno, m)

def setErrno (v : Int) : Prog Machine Unit := act fun m => ((), { m with errno := v })

/-! ## The program -/

/-- How the `do … while` ends. -/
inductive Drain where
  | drained
  | outError
  deriving DecidableEq

/-- One turn of the `do … while`, with `nread` and `out_ptr`. -/
def writeTurn (k : Kernel) (fdTo : Int) (v : Int × Nat) :
    Prog Machine ((Int × Nat) ⊕ Drain) := do
  let (nread, outPtr) := v
  let nwritten ← syscall k (.write fdTo outPtr nread)
  if nwritten ≥ 0 then
    let nread := nread - nwritten
    let outPtr := outPtr + nwritten.toNat
    return if nread > 0 then .inl (nread, outPtr) else .inr .drained
  else if (← errno) ≠ EINTR then return .inr .outError
  else return if nread > 0 then .inl (nread, outPtr) else .inr .drained

/-- One turn of the `while`; it is left with the last `nread`, or by `goto out_error`. -/
def readTurn (k : Kernel) (fuel : Nat) (fdFrom fdTo : Int) (_ : Unit) :
    Prog Machine (Unit ⊕ Option Int) := do
  let nread ← syscall k (.read fdFrom)
  if nread > 0 then
    match ← iterate (writeTurn k fdTo) fuel (nread, 0) with
    | .drained => return .inl ()
    | .outError => return .inr none
  else return .inr (some nread)

/-- `if (fd >= 0) close(fd);` -/
def closeIf (k : Kernel) (fd : Int) : Prog Machine Unit :=
  if fd ≥ 0 then do
    let _ ← syscall k (.close fd)
    return ()
  else return ()

/-- What stands behind the label `out_error`. -/
def outError (k : Kernel) (fdFrom fdTo : Int) : Prog Machine Int := do
  let savedErrno ← errno
  let _ ← syscall k (.close fdFrom)
  closeIf k fdTo
  setErrno savedErrno
  return -1

/-- What stands behind the `while`. -/
def finish (k : Kernel) (fdFrom fdTo nread : Int) : Prog Machine Int := do
  if nread = 0 then
    if (← syscall k (.close fdTo)) < 0 then outError k fdFrom (-1)
    else
      let _ ← syscall k (.close fdFrom)
      return 0
  else outError k fdFrom fdTo

/-- `cp`, as far as `fuel` turns of each loop lead. -/
def cp (k : Kernel) (fuel : Nat) : Prog Machine Int := do
  let fdFrom ← syscall k .openFrom
  if fdFrom < 0 then return -1
  else
    let fdTo ← syscall k .openTo
    if fdTo < 0 then outError k fdFrom fdTo
    else
      match ← iterate (readTurn k fuel fdFrom fdTo) fuel () with
      | none => outError k fdFrom fdTo
      | some nread => finish k fdFrom fdTo nread

/-- The machine in front of a call of `cp`; the contents of `buf` are not initialised, and
neither file is open. -/
def start (source buf : List Byte) (errno : Int) : Machine :=
  ⟨errno, buf, fun _ => none, source, [], []⟩

section After

variable (m : Machine) (r : Result) (fd : Int) (file : File)

@[simp] theorem link_log : (m.link fd file).log = m.log := by
  unfold Machine.link
  split <;> rfl

@[simp] theorem link_errno : (m.link fd file).errno = m.errno := by
  unfold Machine.link
  split <;> rfl

@[simp] theorem link_rest : (m.link fd file).rest = m.rest := by
  unfold Machine.link
  split <;> rfl

@[simp] theorem link_written : (m.link fd file).written = m.written := by
  unfold Machine.link
  split <;> rfl

@[simp] theorem after_log (c : Call) : (m.after c r).log = m.log ++ [(c, r)] := by
  cases c with
  | openFrom => exact link_log _ _ _
  | openTo => exact link_log _ _ _
  | read fd =>
    unfold Machine.after
    dsimp only
    split <;> rfl
  | write fd outPtr n =>
    unfold Machine.after
    dsimp only
    split <;> rfl
  | close fd => rfl

@[simp] theorem after_errno (c : Call) : (m.after c r).errno = r.errno := by
  cases c with
  | openFrom => exact link_errno _ _ _
  | openTo => exact link_errno _ _ _
  | read fd =>
    unfold Machine.after
    dsimp only
    split <;> rfl
  | write fd outPtr n =>
    unfold Machine.after
    dsimp only
    split <;> rfl
  | close fd => rfl

@[simp] theorem after_read_files : (m.after (.read fd) r).files = m.files := by
  unfold Machine.after
  dsimp only
  split <;> rfl

@[simp] theorem after_write_files (outPtr : Nat) (n : Int) :
    (m.after (.write fd outPtr n) r).files = m.files := by
  unfold Machine.after
  dsimp only
  split <;> rfl

/-- A `write` takes nothing from the source. -/
@[simp] theorem after_write_rest (outPtr : Nat) (n : Int) :
    (m.after (.write fd outPtr n) r).rest = m.rest := by
  unfold Machine.after
  dsimp only
  split <;> rfl

variable {m fd}

/-- A `read` from the source. -/
theorem after_read (h : m.files fd = some .source) :
    (m.after (.read fd) r).buf = m.rest.take r.ret.toNat ++
        m.buf.drop (m.rest.take r.ret.toNat).length ∧
      (m.after (.read fd) r).rest = m.rest.drop r.ret.toNat ∧
      (m.after (.read fd) r).written = m.written := by
  unfold Machine.after
  dsimp only
  rw [if_pos h]
  exact ⟨rfl, rfl, rfl⟩

/-- A `write` to the destination. -/
theorem after_write (h : m.files fd = some .destination) (outPtr : Nat) (n : Int) :
    (m.after (.write fd outPtr n) r).buf = m.buf ∧
      (m.after (.write fd outPtr n) r).written =
        m.written ++ (m.buf.drop outPtr).take r.ret.toNat := by
  unfold Machine.after
  dsimp only
  rw [if_pos h]
  exact ⟨rfl, rfl⟩

end After

/-- The rule for a call. -/
theorem syscall_spec {k : Kernel} {c : Call} {P E : Machine → Prop} {Q : Int → Machine → Prop}
    (h : ∀ m, P m → Q (k m c).ret (m.after c (k m c))) : Spec P (syscall k c) Q E :=
  .act h

/-! ## What is copied -/

/-- What the last `read` has delivered. -/
def lastRead (log : List Event) : Int :=
  log.foldl (fun n e => match e.1 with
    | .read _ => e.2.ret
    | _ => n) 0

/-- No `write` takes more from `buf` than the last `read` has delivered. -/
def Confined (log : List Event) : Prop :=
  ∀ before fd (outPtr : Nat) n r after, log = before ++ (.write fd outPtr n, r) :: after →
    0 < n ∧ outPtr + n ≤ lastRead before

/-- An `open` gives a descriptor that is not open. A `read` from the source delivers from 1 to
4096 of the next bytes, 0 at the end only, or fails; a `write` to the destination takes at most
what is asked for, or fails. Nothing is said of other descriptors. -/
structure Obeys (k : Kernel) : Prop where
  openTo : ∀ m, 0 ≤ (k m .openTo).ret → m.files (k m .openTo).ret = none
  read : ∀ m fd, m.files fd = some .source →
    (k m (.read fd)).ret = -1 ∨ ((k m (.read fd)).ret = 0 ∧ m.rest = []) ∨
      (1 ≤ (k m (.read fd)).ret ∧ (k m (.read fd)).ret ≤ 4096 ∧
        (k m (.read fd)).ret ≤ m.rest.length)
  write : ∀ m fd outPtr n, m.files fd = some .destination → (k m (.write fd outPtr n)).ret = -1 ∨
    (0 ≤ (k m (.write fd outPtr n)).ret ∧ (k m (.write fd outPtr n)).ret ≤ n)

theorem confined_nil : Confined [] := by
  intro before fd outPtr n r after h
  simp at h

/-- One more call. -/
theorem Confined.append {log : List Event} (h : Confined log) {e : Event}
    (he : ∀ fd (outPtr : Nat) n, e.1 = .write fd outPtr n → 0 < n ∧ outPtr + n ≤ lastRead log) :
    Confined (log ++ [e]) := by
  intro before fd outPtr n r after heq
  rcases List.eq_nil_or_concat after with rfl | ⟨after', x, rfl⟩
  · obtain ⟨rfl, hlast⟩ := List.append_inj' heq rfl
    cases hlast
    exact he fd outPtr n rfl
  · rw [List.concat_eq_append, ← List.cons_append, ← List.append_assoc] at heq
    exact h _ _ _ _ _ _ (List.append_inj' heq rfl).1

/-- A call that is no `write`. -/
theorem Confined.other {m : Machine} (h : Confined m.log) {c : Call} (r : Result)
    (hc : ∀ fd outPtr n, c ≠ .write fd outPtr n) : Confined (m.after c r).log := by
  rw [after_log]
  exact h.append fun fd outPtr n heq => absurd heq (hc fd outPtr n)

theorem lastRead_write (log : List Event) (fd : Int) (outPtr : Nat) (n : Int) (r : Result) :
    lastRead (log ++ [(.write fd outPtr n, r)]) = lastRead log := by
  rw [lastRead, List.foldl_append]
  rfl

theorem lastRead_read (log : List Event) (fd : Int) (r : Result) :
    lastRead (log ++ [(.read fd, r)]) = r.ret := by
  rw [lastRead, List.foldl_append]
  rfl

/-- The two descriptors are the ones of the source and of the destination. -/
@[mk_iff]
structure Linked (fdFrom fdTo : Int) (m : Machine) : Prop where
  source : m.files fdFrom = some .source
  destination : m.files fdTo = some .destination

/-- The machine behind both calls of `open`. -/
theorem linked_opened {k : Kernel} (hk : Obeys k) {m : Machine} {fdFrom : Int}
    (hfrom : m.files fdFrom = some .source) (hto : ¬ (k m .openTo).ret < 0) :
    Linked fdFrom (k m .openTo).ret (m.after .openTo (k m .openTo)) := by
  have hne : fdFrom ≠ (k m .openTo).ret := by
    rintro rfl
    rw [hk.openTo m (by omega)] at hfrom
    cases hfrom
  have hfiles : (m.after .openTo (k m .openTo)).files =
      Function.update m.files (k m .openTo).ret (some .destination) :=
    congrArg Machine.files (if_neg hto)
  rw [linked_iff, hfiles]
  exact ⟨(Function.update_of_ne hne _ _).trans hfrom, Function.update_self _ _ _⟩

section Copy

variable (source : List Byte)

/-- Everything that has been read is written. -/
def Copied (m : Machine) : Prop := m.written ++ m.rest = source ∧ Confined m.log

variable (fdFrom fdTo : Int)

/-- **The invariant of the inner loop**: what is written, the pending part of the buffer and
what has not been read make up the source. -/
structure Pending (v : Int × Nat) (m : Machine) : Prop where
  linked : Linked fdFrom fdTo m
  bytes : m.written ++ (m.buf.drop v.2).take v.1.toNat ++ m.rest = source
  within : v.2 + v.1 ≤ lastRead m.log
  confined : Confined m.log

/-- At the head of the inner loop something is pending. -/
def AtHead (v : Int × Nat) (m : Machine) : Prop := 0 < v.1 ∧ Pending source fdFrom fdTo v m

/-- The invariant of the outer loop. -/
def Copying (m : Machine) : Prop := Linked fdFrom fdTo m ∧ Copied source m

/-- How the inner loop leaves the machine. -/
def Drained : Drain → Machine → Prop
  | .drained, m => Copying source fdFrom fdTo m
  | .outError, m => Confined m.log

/-- How the outer loop leaves the machine, with the last result of `read` or by an error. -/
def ReadOut (r : Option Int) (m : Machine) : Prop :=
  (r = some 0 → m.written = source) ∧ Confined m.log

variable {source fdFrom fdTo} {k : Kernel}

/-- A write moves bytes from the buffer to the destination. -/
theorem Pending.write {v : Int × Nat} {m : Machine} (h : Pending source fdFrom fdTo v m)
    (hpos : 0 < v.1) {r : Result} (hle : r.ret ≤ v.1) :
    Pending source fdFrom fdTo (v.1 - r.ret.toNat, v.2 + r.ret.toNat)
      (m.after (.write fdTo v.2 v.1) r) := by
  obtain ⟨hbuf, hwritten⟩ := after_write r h.linked.destination v.2 v.1
  refine ⟨?_, ?_, ?_, ?_⟩
  · rw [linked_iff, after_write_files]
    exact ⟨h.linked.source, h.linked.destination⟩
  · have hbytes := h.bytes
    have hv : v.1.toNat = r.ret.toNat + (v.1 - r.ret.toNat).toNat := by omega
    rw [hv, List.take_add, List.drop_drop, ← List.append_assoc] at hbytes
    rw [hbuf, hwritten, after_write_rest]
    exact hbytes
  · rw [after_log, lastRead_write]
    have hwithin := h.within
    show ((v.2 + r.ret.toNat : Nat) : Int) + (v.1 - r.ret.toNat) ≤ _
    omega
  · rw [after_log]
    refine h.confined.append fun fd' outPtr n heq => ?_
    cases heq
    exact ⟨hpos, h.within⟩

/-- Nothing is pending any more. -/
theorem Pending.copying {v : Int × Nat} {m : Machine} (h : Pending source fdFrom fdTo v m)
    (hv : ¬ v.1 > 0) : Copying source fdFrom fdTo m := by
  have hzero : v.1.toNat = 0 := by omega
  have hbytes := h.bytes
  rw [hzero, List.take_zero, List.append_nil] at hbytes
  exact ⟨h.linked, hbytes, h.confined⟩

/-- The condition of the `do … while`. -/
theorem turn_of_pending {v : Int × Nat} {m : Machine} (h : Pending source fdFrom fdTo v m) :
    Spec.Turn (AtHead source fdFrom fdTo) (Drained source fdFrom fdTo)
      (if v.1 > 0 then .inl v else .inr Drain.drained) m := by
  split
  · rename_i hv
    exact ⟨hv, h⟩
  · rename_i hv
    exact h.copying hv

/-- One turn of the inner loop. -/
theorem writeTurn_spec (hk : Obeys k) (v : Int × Nat) :
    Spec (AtHead source fdFrom fdTo v) (writeTurn k fdTo v)
      (Spec.Turn (AtHead source fdFrom fdTo) (Drained source fdFrom fdTo))
      (fun m => Confined m.log) := by
  obtain ⟨nread, outPtr⟩ := v
  refine .bind (syscall_spec (Q := fun w m =>
    Pending source fdFrom fdTo (nread - w.toNat, outPtr + w.toNat) m) fun m hm => ?_) fun w => ?_
  · have hpos : 0 < nread := hm.1
    refine hm.2.write hpos ?_
    rcases hk.write m fdTo outPtr nread hm.2.linked.destination with h | h
    · show _ ≤ nread
      omega
    · exact h.2
  · refine .ite (fun hw => .ret fun m hm => ?_) fun hw => ?_
    · have hnread : nread - (w.toNat : Int) = nread - w := by omega
      rw [hnread] at hm
      exact turn_of_pending hm
    · -- nothing has been written
      have hzero : w.toNat = 0 := by omega
      refine .bind (.act (Q := fun _ m => Pending source fdFrom fdTo (nread, outPtr) m)
        fun m hm => ?_) fun e => .ite (fun _ => .ret fun m hm => hm.confined) fun _ =>
          .ret fun m hm => turn_of_pending hm
      simpa [hzero] using hm

/-- **The inner loop** writes what the `read` has delivered. -/
theorem writeLoop_spec (hk : Obeys k) (fuel : Nat) (v : Int × Nat) :
    Spec (AtHead source fdFrom fdTo v) (iterate (writeTurn k fdTo) fuel v)
      (Drained source fdFrom fdTo) (fun m => Confined m.log) :=
  .iterate (writeTurn_spec hk) (fun _ _ hm => hm.2.confined) fuel v

/-- One turn of the outer loop. -/
theorem readTurn_spec (hk : Obeys k) (fuel : Nat) (u : Unit) :
    Spec (Copying source fdFrom fdTo) (readTurn k fuel fdFrom fdTo u)
      (Spec.Turn (fun _ => Copying source fdFrom fdTo) (ReadOut source))
      (fun m => Confined m.log) := by
  refine .bind (syscall_spec (Q := fun nread m =>
    if nread > 0 then AtHead source fdFrom fdTo (nread, 0) m
    else ReadOut source (some nread) m) fun m hm => ?_) fun nread => ?_
  · obtain ⟨hlinked, hbytes, hconfined⟩ := hm
    have hlog := hconfined.other (k m (.read fdFrom)) (c := .read fdFrom) fun _ _ _ => nofun
    obtain ⟨hbuf, hrest, hwritten⟩ := after_read (k m (.read fdFrom)) hlinked.source
    rcases hk.read m fdFrom hlinked.source with hr | ⟨hr, hend⟩ | ⟨h1, -, hle⟩
    · rw [if_neg (by omega)]
      refine ⟨fun h => ?_, hlog⟩
      rw [hr] at h
      cases h
    · rw [if_neg (by omega)]
      refine ⟨fun _ => ?_, hlog⟩
      rw [hend, List.append_nil] at hbytes
      exact hwritten.trans hbytes
    · have hpos : (k m (.read fdFrom)).ret > 0 := by omega
      rw [if_pos hpos]
      refine ⟨hpos, ?_, ?_, ?_, hlog⟩
      · rw [linked_iff, after_read_files]
        exact ⟨hlinked.source, hlinked.destination⟩
      · have htake : (m.rest.take (k m (.read fdFrom)).ret.toNat).length =
            (k m (.read fdFrom)).ret.toNat := by
          rw [List.length_take]
          omega
        rw [hwritten, hbuf, hrest, List.drop_zero, List.take_left' htake, List.append_assoc,
          List.take_append_drop]
        exact hbytes
      · rw [after_log, lastRead_read]
        simp
  · refine .ite (fun hpos => ?_) fun hpos => .ret fun m hm => ?_
    · simp only [if_pos hpos]
      refine .bind (writeLoop_spec hk fuel _) fun d => ?_
      cases d with
      | drained => exact .ret fun m hm => hm
      | outError => exact .ret fun m hm => ⟨nofun, hm⟩
    · rw [if_neg hpos] at hm
      exact hm

/-- **The outer loop** reads and writes the whole source. -/
theorem readLoop_spec (hk : Obeys k) (fuel : Nat) :
    Spec (Copying source fdFrom fdTo) (iterate (readTurn k fuel fdFrom fdTo) fuel ())
      (ReadOut source) (fun m => Confined m.log) :=
  .iterate (readTurn_spec hk fuel) (fun _ _ hm => hm.2.2) fuel ()

/-- Closing changes no bytes. -/
theorem close_spec (fd : Int) (w : List Byte) (E : Machine → Prop) :
    Spec (fun m => m.written = w ∧ Confined m.log) (syscall k (.close fd))
      (fun _ m => m.written = w ∧ Confined m.log) E :=
  syscall_spec fun _ hm => ⟨hm.1, hm.2.other _ fun _ _ _ => nofun⟩

theorem outError_spec (fdFrom fdTo : Int) :
    Spec (fun m => Confined m.log) (outError k fdFrom fdTo)
      (fun v m => (v = 0 → m.written = source) ∧ Confined m.log) (fun m => Confined m.log) := by
  have hclose : ∀ fd, Spec (fun m => Confined m.log) (syscall k (.close fd))
      (fun _ m => Confined m.log) (fun m => Confined m.log) := fun fd =>
    syscall_spec fun m hm => hm.other _ fun _ _ _ => nofun
  refine .bind (.act fun m hm => hm) fun savedErrno => .bind (hclose fdFrom) fun _ =>
    .bind (Q := fun _ m => Confined m.log) ?_ fun _ =>
      .bind (Q := fun _ m => Confined m.log) (.act fun m hm => hm) fun _ =>
        .ret fun m hm => ⟨nofun, hm⟩
  exact .ite (fun _ => .bind (hclose fdTo) fun _ => .ret fun m hm => hm)
    fun _ => .ret fun m hm => hm

/-- The first `open`, which gives the descriptor of the source. -/
theorem openFrom_spec (E : Machine → Prop) : Spec (Copied source) (syscall k .openFrom)
    (fun fdFrom m => (¬ fdFrom < 0 → m.files fdFrom = some .source) ∧ Copied source m) E := by
  refine syscall_spec fun m hm => ⟨fun hfrom => ?_, ?_, hm.2.other _ fun _ _ _ => nofun⟩
  · have hfiles : (m.after .openFrom (k m .openFrom)).files =
        Function.update m.files (k m .openFrom).ret (some .source) :=
      congrArg Machine.files (if_neg hfrom)
    rw [hfiles]
    exact Function.update_self _ _ _
  · show (Machine.link _ _ _).written ++ (Machine.link _ _ _).rest = source
    rw [link_written, link_rest]
    exact hm.1

/-- The second `open`, which gives a descriptor of its own. -/
theorem openTo_spec (hk : Obeys k) (fdFrom : Int) (E : Machine → Prop) :
    Spec (fun m => m.files fdFrom = some .source ∧ Copied source m) (syscall k .openTo)
      (fun fdTo m => (¬ fdTo < 0 → Linked fdFrom fdTo m) ∧ Copied source m) E := by
  refine syscall_spec fun m hm => ⟨fun hto => linked_opened hk hm.1 hto, ?_,
    hm.2.2.other _ fun _ _ _ => nofun⟩
  show (Machine.link _ _ _).written ++ (Machine.link _ _ _).rest = source
  rw [link_written, link_rest]
  exact hm.2.1

/-- `cp` from its start. -/
theorem cp_spec (hk : Obeys k) (fuel : Nat) :
    Spec (Copied source) (cp k fuel) (fun v m => (v = 0 → m.written = source) ∧ Confined m.log)
      (fun m => Confined m.log) := by
  refine .bind (openFrom_spec _) fun fdFrom => .ite
    (fun _ => .ret fun m hm => ⟨nofun, hm.2.2⟩) fun hfrom => Spec.pre
      (.bind (openTo_spec hk fdFrom _) fun fdTo => .ite
        (fun _ => (outError_spec fdFrom fdTo).pre fun m hm => hm.2.2) fun hto => Spec.pre
          (.bind (readLoop_spec hk fuel) fun r => ?_) fun m hm => ⟨hm.1 hto, hm.2⟩)
      fun m hm => ⟨hm.1 hfrom, hm.2⟩
  cases r with
  | none => exact (outError_spec fdFrom fdTo).pre fun m hm => hm.2
  | some nread =>
    refine .ite (fun hzero => ?_) fun _ => (outError_spec fdFrom fdTo).pre fun m hm => hm.2
    subst hzero
    refine Spec.pre (.bind (close_spec fdTo source _) fun ret => .ite
      (fun _ => (outError_spec fdFrom (-1)).pre fun m hm => hm.2) fun _ =>
        .bind (close_spec fdFrom source _) fun _ => .ret fun m hm => ⟨fun _ => hm.1, hm.2⟩)
      fun m hm => ⟨hm.1 rfl, hm.2⟩

end Copy

/-- **`cp` copies faithfully**: whenever it returns 0 the destination has got the bytes of the
source, and at no time does a `write` take more than the last `read` has delivered. -/
theorem cp_faithful {k : Kernel} (hk : Obeys k) (source buf : List Byte) (errno : Int)
    (fuel : Nat) :
    ((exec (cp k fuel) (start source buf errno)).1 = some 0 →
      (exec (cp k fuel) (start source buf errno)).2.written = source) ∧
    Confined (exec (cp k fuel) (start source buf errno)).2.log := by
  have hstart : Copied source (start source buf errno) := ⟨rfl, confined_nil⟩
  have h := cp_spec hk fuel _ hstart
  rcases he : exec (cp k fuel) (start source buf errno) with ⟨_ | v, m⟩
  · rw [he] at h
    exact ⟨nofun, h⟩
  · rw [he] at h
    exact ⟨fun hv => h.1 (Option.some.inj hv), h.2⟩

/-- Reads by two bytes; every other write is interrupted, and the others take one byte. -/
def Kernel.stuttering : Kernel := fun m c =>
  match c with
  | .openFrom => ⟨3, 0⟩
  | .openTo => if m.files 4 = none then ⟨4, 0⟩ else ⟨-1, 24⟩
  | .read _ => if m.rest = [] then ⟨0, 0⟩ else ⟨min 2 m.rest.length, 0⟩
  | .write _ _ n => if 0 < n ∧ m.log.length % 2 = 0 then ⟨1, 0⟩ else ⟨-1, EINTR⟩
  | .close _ => ⟨0, 0⟩

theorem obeys_stuttering : Obeys Kernel.stuttering where
  openTo m h := by
    rw [Kernel.stuttering] at h ⊢
    by_cases hfree : m.files 4 = none
    · rw [if_pos hfree]
      exact hfree
    · rw [if_neg hfree] at h
      exact absurd h (by decide)
  read m fd _ := by
    rw [Kernel.stuttering]
    by_cases h : m.rest = []
    · rw [if_pos h]
      exact .inr (.inl ⟨rfl, h⟩)
    · have hpos := List.length_pos_iff.mpr h
      rw [if_neg h]
      refine .inr (.inr ?_)
      dsimp only
      omega
  write m fd outPtr n _ := by
    rw [Kernel.stuttering]
    split
    · rename_i h
      exact .inr ⟨by decide, h.1⟩
    · exact .inl rfl

theorem cp_faithful_stuttering :
    (exec (cp .stuttering 9) (start [7, 8, 9] [] 0)).1 = some 0 ∧
      (exec (cp .stuttering 9) (start [7, 8, 9] [] 0)).2.written = [7, 8, 9] :=
  have h := cp_faithful obeys_stuttering [7, 8, 9] [] 0 9
  ⟨by decide, h.1 (by decide)⟩

/-! ## That it returns -/

/-- Every `write` takes something, or fails and is not just interrupted. -/
def Progress (k : Kernel) : Prop := ∀ m fd outPtr n, 0 < n →
  0 < (k m (.write fd outPtr n)).ret ∨
    ((k m (.write fd outPtr n)).ret < 0 ∧ (k m (.write fd outPtr n)).errno ≠ EINTR)

section Returns

variable {k : Kernel}

/-- What the inner loop does not touch. -/
def Unread (rest : List Byte) (files : Int → Option File) (m : Machine) : Prop :=
  m.rest = rest ∧ m.files = files

/-- A turn of the inner loop that goes on has made `nread` smaller, and has not read. -/
theorem writeTurn_progress (hp : Progress k) (fdTo : Int) (rest : List Byte)
    (files : Int → Option File) (n : Nat) (v : Int × Nat) :
    Spec (fun m => (0 < v.1 ∧ Unread rest files m) ∧ v.1.toNat = n) (writeTurn k fdTo v)
      (Spec.Turn (fun v m => (0 < v.1 ∧ Unread rest files m) ∧ v.1.toNat < n)
        fun _ => Unread rest files) (fun _ => False) := by
  obtain ⟨nread, outPtr⟩ := v
  refine .bind (syscall_spec (Q := fun w (m : Machine) => (0 < w ∨ w < 0 ∧ m.errno ≠ EINTR) ∧
    Unread rest files m ∧ nread.toNat = n) fun m hm => ?_) fun w =>
      .ite (fun hw => ?_) fun hw => ?_
  · obtain ⟨⟨hpos, hrest, hfiles⟩, hn⟩ := hm
    rw [after_errno, Unread, after_write_rest, after_write_files]
    exact ⟨hp m fdTo outPtr nread hpos, ⟨hrest, hfiles⟩, hn⟩
  · refine .ret fun m hm => ?_
    obtain ⟨hw', hunread, hn⟩ := hm
    split
    · rename_i hgo
      refine ⟨⟨hgo, hunread⟩, ?_⟩
      show (nread - w).toNat < n
      omega
    · exact hunread
  · refine .bind (.act (Q := fun e (m : Machine) => e ≠ EINTR ∧ Unread rest files m)
      fun m hm => ?_) fun e => .ite (fun _ => .ret fun m hm => hm.2) fun he =>
        .ret fun m hm => absurd hm.1 he
    obtain ⟨hw', hunread, -⟩ := hm
    exact ⟨(hw'.resolve_left (by omega)).2, hunread⟩

/-- The source is open, and there is fuel for what is left of it. -/
def Readable (fuel : Nat) (fdFrom : Int) (m : Machine) : Prop :=
  m.files fdFrom = some .source ∧ m.rest.length < fuel

/-- A turn of the outer loop that goes on has read something. -/
theorem readTurn_progress (hk : Obeys k) (hp : Progress k) (fuel : Nat) (fdFrom fdTo : Int)
    (n : Nat) (u : Unit) : Spec (fun m => Readable fuel fdFrom m ∧ m.rest.length = n)
      (readTurn k fuel fdFrom fdTo u)
      (Spec.Turn (fun _ m => Readable fuel fdFrom m ∧ m.rest.length < n) fun _ _ => True)
      (fun _ => False) := by
  refine .bind (syscall_spec (Q := fun nread (m : Machine) => nread > 0 →
    nread.toNat < fuel ∧ Readable fuel fdFrom m ∧ m.rest.length < n) fun m hm hpos => ?_)
      fun nread => .ite (fun hpos m hm => ?_) fun _ => .ret fun m hm => trivial
  · obtain ⟨⟨hsource, hlt⟩, rfl⟩ := hm
    have hrest : (m.after (.read fdFrom) (k m (.read fdFrom))).rest.length =
        m.rest.length - (k m (.read fdFrom)).ret.toNat := by
      rw [(after_read (k m (.read fdFrom)) hsource).2.1, List.length_drop]
    rw [Readable, after_read_files, hrest]
    rcases hk.read m fdFrom hsource with hr | ⟨hr, -⟩ | ⟨-, -, hle⟩
    · omega
    · omega
    · exact ⟨by omega, ⟨hsource, by omega⟩, by omega⟩
  · -- the inner loop reads nothing
    obtain ⟨hfuel, ⟨hsource, hlt⟩, hrest⟩ := hm hpos
    have hloop : Spec (fun m' => (0 < nread ∧ Unread m.rest m.files m') ∧ nread.toNat < fuel)
        (iterate (writeTurn k fdTo) fuel (nread, 0)) (fun _ => Unread m.rest m.files)
        (fun _ => False) :=
      .iterate_total (fun v _ => v.1.toNat) (writeTurn_progress hp fdTo m.rest m.files) fuel
        (nread, 0)
    refine (hloop.bind fun d => ?_) m ⟨⟨hpos, rfl, rfl⟩, hfuel⟩
    cases d with
    | drained =>
      refine .ret fun m' ⟨hm', hfiles⟩ => ?_
      rw [← hm'] at hlt hrest
      exact ⟨⟨(congrFun hfiles fdFrom).trans hsource, hlt⟩, hrest⟩
    | outError => exact .ret fun m' hm' => trivial

/-- What is not a loop always returns. -/
theorem outError_returns (fdFrom fdTo : Int) : Spec (fun _ => True) (outError k fdFrom fdTo)
    (fun _ _ => True) (fun _ => False) :=
  .bind (.act fun _ h => h) fun _ => .bind (syscall_spec fun _ h => h) fun _ =>
    .bind (.ite (fun _ => .bind (syscall_spec fun _ h => h) fun _ => .ret fun _ h => h)
      fun _ => .ret fun _ h => h) fun _ => .bind (.act fun _ h => h) fun _ => .ret fun _ h => h

/-- **`cp` returns**, with fuel for the length of the source, if every write gets on or
fails. -/
theorem cp_returns (hk : Obeys k) (hp : Progress k) (source buf : List Byte) (errno : Int)
    {fuel : Nat} (hfuel : source.length < fuel) :
    ∃ v, (exec (cp k fuel) (start source buf errno)).1 = some v := by
  have hreturns : Spec (Copied source) (cp k fuel) (fun _ _ => True) (fun _ => False) := by
    refine .bind (openFrom_spec _) fun fdFrom => .ite (fun _ => .ret fun _ _ => trivial)
      fun hfrom => Spec.pre (.bind (openTo_spec hk fdFrom _) fun fdTo => .ite
        (fun _ => (outError_returns fdFrom fdTo).pre fun _ _ => trivial) fun hto => ?_)
        fun m hm => ⟨hm.1 hfrom, hm.2⟩
    refine Spec.pre (.bind (.iterate_total (fun _ m => m.rest.length)
      (readTurn_progress hk hp fuel fdFrom fdTo) fuel ()) fun r => ?_) fun m hm => ?_
    · cases r with
      | none => exact outError_returns fdFrom fdTo
      | some nread =>
        refine .ite (fun _ => .bind (syscall_spec fun _ h => h) fun _ => .ite
          (fun _ => outError_returns fdFrom (-1)) fun _ => .bind (syscall_spec fun _ h => h)
            fun _ => .ret fun _ h => h) fun _ => outError_returns fdFrom fdTo
    · have hlength := congrArg List.length hm.2.1
      rw [List.length_append] at hlength
      exact ⟨⟨(hm.1 hto).source, by omega⟩, by omega⟩
  have h := hreturns (start source buf errno) ⟨rfl, confined_nil⟩
  rcases he : exec (cp k fuel) (start source buf errno) with ⟨_ | v, m⟩
  · rw [he] at h
    exact h.elim
  · exact ⟨v, rfl⟩

end Returns

/-! ## Descriptors and failures -/

/-- The descriptor that a call has opened. -/
def opens : Event → List Int
  | (.openFrom, r) => if r.ret < 0 then [] else [r.ret]
  | (.openTo, r) => if r.ret < 0 then [] else [r.ret]
  | _ => []

/-- The descriptor that a call is to close. -/
def closes : Event → List Int
  | (.close fd, _) => [fd]
  | _ => []

/-- The call has failed, and was not a `write` that was interrupted. -/
def Fails (e : Event) : Prop :=
  e.2.ret < 0 ∧ match e.1 with
    | .write _ _ _ => e.2.errno ≠ EINTR
    | _ => True

/-- The first failure has left this `errno`, and behind it there are only the closes of the
cleanup. -/
def Caused (errno : Int) (log : List Event) : Prop :=
  ∃ before e after, log = before ++ e :: after ∧ Fails e ∧ (∀ x ∈ before, ¬ Fails x) ∧
    (∀ x ∈ after, ∃ fd, x.1 = .close fd) ∧ errno = e.2.errno

/-- Where `cp` has returned, each descriptor opened is closed once and no other one, and where
it returns -1, `errno` is that of the call that has failed. -/
structure ErrorPath (ret : Int) (m : Machine) : Prop where
  closed : (m.log.flatMap closes).Perm (m.log.flatMap opens)
  errno : ret = -1 → Caused m.errno m.log

/-- These descriptors are open. -/
def Held (fds : List Int) (log : List Event) : Prop :=
  (log.flatMap opens).Perm (log.flatMap closes ++ fds)

/-- Nothing has failed. -/
def Quiet (log : List Event) : Prop := ∀ e ∈ log, ¬ Fails e

/-- One more call. -/
theorem Held.append {fds fds' : List Int} {log : List Event} (h : Held fds log) {e : Event}
    (he : (fds ++ opens e).Perm (closes e ++ fds')) : Held fds' (log ++ [e]) := by
  rw [Held, List.flatMap_append, List.flatMap_append, List.flatMap_singleton,
    List.flatMap_singleton, List.append_assoc]
  refine (h.append_right _).trans ?_
  rw [List.append_assoc]
  exact he.append_left _

theorem Quiet.append {log : List Event} (h : Quiet log) {e : Event} (he : ¬ Fails e) :
    Quiet (log ++ [e]) :=
  List.forall_mem_append.mpr ⟨h, List.forall_mem_singleton.mpr he⟩

/-- The call that fails first. -/
theorem Quiet.caused {log : List Event} (h : Quiet log) {e : Event} (he : Fails e) :
    Caused e.2.errno (log ++ [e]) :=
  ⟨log, e, [], rfl, he, h, nofun, rfl⟩

/-- A close of the cleanup. -/
theorem Caused.append {v : Int} {log : List Event} (h : Caused v log) (fd : Int) (r : Result) :
    Caused v (log ++ [(.close fd, r)]) := by
  obtain ⟨before, e, after, rfl, he, hbefore, hafter, hv⟩ := h
  refine ⟨before, e, after ++ [(.close fd, r)], by simp, he, hbefore, ?_, hv⟩
  exact List.forall_mem_append.mpr ⟨hafter, List.forall_mem_singleton.mpr ⟨fd, rfl⟩⟩

/-- As long as nothing has failed. -/
def Going (fds : List Int) (m : Machine) : Prop := Held fds m.log ∧ Quiet m.log

/-- In front of the cleanup. -/
def Broken (fds : List Int) (m : Machine) : Prop := Held fds m.log ∧ Caused m.errno m.log

/-- Behind a call that returns `n`. -/
def Made (c : Call) (fds : List Int) (n : Int) (m : Machine) : Prop :=
  (Fails (c, ⟨n, m.errno⟩) → Broken fds m) ∧ (¬ Fails (c, ⟨n, m.errno⟩) → Going fds m)

variable {k : Kernel} {E : Machine → Prop}

theorem made_spec {c : Call} (fds : List Int) (fds' : Int → List Int)
    (hc : ∀ r, (fds ++ opens (c, r)).Perm (closes (c, r) ++ fds' r.ret)) :
    Spec (Going fds) (syscall k c) (fun n => Made c (fds' n) n) E := by
  refine syscall_spec fun m hm => ?_
  have hheld : Held (fds' (k m c).ret) (m.after c (k m c)).log := by
    rw [after_log]
    exact hm.1.append (hc _)
  rw [Made, after_errno]
  refine ⟨fun hf => ⟨hheld, ?_⟩, fun hf => ⟨hheld, ?_⟩⟩
  · rw [after_log, after_errno]
    exact hm.2.caused hf
  · rw [after_log]
    exact hm.2.append hf

/-- A call that returns no negative number has not failed. -/
theorem Made.going {c : Call} {fds : List Int} {n : Int} {m : Machine} (h : Made c fds n m)
    (hn : ¬ n < 0) : Going fds m :=
  h.2 fun hf => hn hf.1

/-- The descriptors that the cleanup closes. -/
def cleaned (fdFrom fdTo : Int) : List Int := fdFrom :: if fdTo ≥ 0 then [fdTo] else []

/-- The cleanup has still these descriptors to close, and `errno` will be `v`. -/
def Cleaning (v : Int) (fds : List Int) (m : Machine) : Prop := Held fds m.log ∧ Caused v m.log

/-- A `close` of the cleanup. -/
theorem cleanup_spec (fd v : Int) (fds : List Int) :
    Spec (Cleaning v (fd :: fds)) (syscall k (.close fd)) (fun _ => Cleaning v fds) E := by
  refine syscall_spec fun m hm => ?_
  rw [Cleaning, after_log]
  refine ⟨hm.1.append ?_, hm.2.append fd _⟩
  show ((fd :: fds) ++ []).Perm (fd :: fds)
  rw [List.append_nil]

/-- **The cleanup** closes what is open and keeps `errno`. -/
theorem cleanup_errorPath (fdFrom fdTo : Int) :
    Spec (Broken (cleaned fdFrom fdTo)) (outError k fdFrom fdTo) ErrorPath E := by
  refine .bind (.act (Q := fun v => Cleaning v (cleaned fdFrom fdTo)) fun m hm => hm)
    fun savedErrno => .bind (cleanup_spec fdFrom savedErrno _) fun _ =>
      .bind (Q := fun _ => Cleaning savedErrno []) ?_ fun _ =>
        .bind (Q := fun _ => Broken []) (.act fun m hm => hm) fun _ => .ret fun m hm => ?_
  · refine .ite (fun hfd => ?_) fun hfd => ?_
    · rw [if_pos hfd]
      exact .bind (cleanup_spec fdTo savedErrno []) fun _ => .ret fun m hm => hm
    · rw [if_neg hfd]
      exact .ret fun m hm => hm
  · have hclosed := hm.1
    rw [Held, List.append_nil] at hclosed
    exact ⟨hclosed.symm, fun _ => hm.2⟩

/-- What is known where the inner loop is left. -/
def DrainExit (fds : List Int) : Drain → Machine → Prop
  | .drained => Going fds
  | .outError => Broken fds

/-- What is known where the outer loop is left, with the last result of `read` or by an
error. -/
def ReadExit (fds : List Int) : Option Int → Machine → Prop
  | none => Broken fds
  | some nread => if nread = 0 then Going fds else Broken fds

/-- One turn of the inner loop. -/
theorem writeTurn_errorPath (fds : List Int) (fdTo : Int) (v : Int × Nat) :
    Spec (Going fds) (writeTurn k fdTo v) (Spec.Turn (fun _ => Going fds) (DrainExit fds)) E := by
  obtain ⟨nread, outPtr⟩ := v
  refine .bind (made_spec fds (fun _ => fds) fun r => ?_) fun w => ?_
  · exact .of_eq (List.append_nil fds)
  have hloop : ∀ (v : Int × Nat) (m : Machine), Going fds m →
      Spec.Turn (fun _ => Going fds) (DrainExit fds)
        (if v.1 > 0 then .inl v else .inr Drain.drained) m := by
    intro v m hm
    split
    · exact hm
    · exact hm
  refine .ite (fun hw => .ret fun m hm => ?_) fun hw =>
    .bind (.act (Q := fun e m => e = m.errno ∧ Made (.write fdTo outPtr nread) fds w m)
      fun m hm => ⟨rfl, hm⟩) fun e => .ite (fun he => .ret fun m hm => ?_)
        fun he => .ret fun m hm => ?_
  · exact hloop (nread - w, outPtr + w.toNat) m (hm.going (by omega))
  · obtain ⟨rfl, hm⟩ := hm
    have hneg : w < 0 := by omega
    exact hm.1 ⟨hneg, he⟩
  · obtain ⟨rfl, hm⟩ := hm
    exact hloop (nread, outPtr) m (hm.2 fun hf => he hf.2)

/-- One turn of the outer loop. -/
theorem readTurn_errorPath (fds : List Int) (fuel : Nat) (fdFrom fdTo : Int) (u : Unit) :
    Spec (Going fds) (readTurn k fuel fdFrom fdTo u)
      (Spec.Turn (fun _ => Going fds) (ReadExit fds)) (fun _ => True) := by
  refine .bind (made_spec fds (fun _ => fds) fun r => .of_eq (List.append_nil fds))
    fun nread => .ite (fun hpos => ?_) fun hpos => .ret fun m hm => ?_
  · refine Spec.pre (.bind (.iterate (writeTurn_errorPath fds fdTo) (fun _ _ _ => trivial) fuel _)
      fun d => ?_) fun m hm => hm.going (by omega)
    cases d with
    | drained => exact .ret fun m hm => hm
    | outError => exact .ret fun m hm => hm
  · show (if nread = 0 then Going fds else Broken fds) m
    split
    · exact hm.going (by omega)
    · have hneg : nread < 0 := by omega
      exact hm.1 ⟨hneg, trivial⟩

/-- What stands behind the `while`. -/
theorem finish_errorPath (fdFrom fdTo nread : Int) (hto : ¬ fdTo < 0) :
    Spec (ReadExit [fdFrom, fdTo] (some nread)) (finish k fdFrom fdTo nread) ErrorPath E := by
  have hcleaned : cleaned fdFrom fdTo = [fdFrom, fdTo] := by
    rw [cleaned, if_pos (by omega)]
  refine .ite (fun hzero => ?_) fun hzero => ?_
  · -- `fd_to` is closed first here, and only `fd_from` is left if that fails
    refine Spec.pre (.bind (made_spec [fdFrom, fdTo] (fun _ => [fdFrom])
      fun r => .swap fdTo fdFrom []) fun ret => .ite (fun hret => ?_) fun hret => ?_)
        fun m hm => ?_
    · exact (cleanup_errorPath fdFrom (-1)).pre fun m hm => hm.1 ⟨hret, trivial⟩
    · refine Spec.pre (.bind (made_spec [fdFrom] (fun _ => [])
        fun r => .refl _) fun ret' => .ret fun m hm => ?_) fun m hm => hm.going hret
      have hheld : Held [] m.log := by
        by_cases hf : Fails (.close fdFrom, ⟨ret', m.errno⟩)
        · exact (hm.1 hf).1
        · exact (hm.2 hf).1
      rw [Held, List.append_nil] at hheld
      exact ⟨hheld.symm, nofun⟩
    · rwa [ReadExit, if_pos hzero] at hm
  · refine (cleanup_errorPath fdFrom fdTo).pre fun m hm => ?_
    rw [ReadExit, if_neg hzero] at hm
    exact hcleaned ▸ hm

theorem cp_errorPath_spec (fuel : Nat) : Spec (Going []) (cp k fuel) ErrorPath fun _ => True := by
  refine .bind (made_spec [] (fun n => if n < 0 then [] else [n]) fun r => .refl _)
    fun fdFrom => .ite (fun hfrom => .ret fun m hm => ?_) fun hfrom => ?_
  · -- nothing has been opened
    obtain ⟨hheld, hcaused⟩ := hm.1 ⟨hfrom, trivial⟩
    rw [if_pos hfrom, Held, List.append_nil] at hheld
    exact ⟨hheld.symm, fun _ => hcaused⟩
  refine Spec.pre (.bind (made_spec [fdFrom]
    (fun n => fdFrom :: if n < 0 then [] else [n]) fun r => .refl _) fun fdTo =>
      .ite (fun hto => ?_) fun hto => ?_) fun m hm => ?_
  · refine (cleanup_errorPath fdFrom fdTo).pre fun m hm => ?_
    have hbroken := hm.1 ⟨hto, trivial⟩
    rw [if_pos hto] at hbroken
    rw [cleaned, if_neg (by omega)]
    exact hbroken
  · refine Spec.pre (.bind (.iterate (readTurn_errorPath [fdFrom, fdTo] fuel fdFrom fdTo)
      (fun _ _ _ => trivial) fuel ()) fun r => ?_) fun m hm => ?_
    · cases r with
      | none =>
        refine (cleanup_errorPath fdFrom fdTo).pre fun m hm => ?_
        rw [cleaned, if_pos (by omega)]
        exact hm
      | some nread => exact finish_errorPath fdFrom fdTo nread hto
    · have hgoing := hm.going hto
      rwa [if_neg hto] at hgoing
  · have hgoing := hm.going hfrom
    rwa [if_neg hfrom] at hgoing

/-- **The error path of `cp`**: on every path on which it returns, each descriptor opened is
closed once and no other one, and with -1 `errno` is that of the call whose failure was the
cause, whatever the closes of the cleanup report. -/
theorem cp_errorPath (k : Kernel) (source buf : List Byte) (errno : Int) (fuel : Nat) (v : Int)
    (h : (exec (cp k fuel) (start source buf errno)).1 = some v) :
    ErrorPath v (exec (cp k fuel) (start source buf errno)).2 := by
  have hstart : Going [] (start source buf errno) := ⟨.refl _, nofun⟩
  have hspec := cp_errorPath_spec (k := k) fuel _ hstart
  rcases he : exec (cp k fuel) (start source buf errno) with ⟨_ | v', m⟩
  · rw [he] at h
    cases h
  · rw [he] at h hspec
    cases h
    exact hspec

/-- The disk is full (28), and both closes of the cleanup fail with another error (5). -/
def Kernel.noSpace : Kernel := fun _ c =>
  match c with
  | .openFrom => ⟨3, 0⟩
  | .openTo => ⟨4, 0⟩
  | .read _ => ⟨1, 0⟩
  | .write _ _ _ => ⟨-1, 28⟩
  | .close _ => ⟨-1, 5⟩

theorem cp_errorPath_noSpace : (exec (cp .noSpace 2) (start [7] [] 0)).2.errno = 28 ∧
    ErrorPath (-1) (exec (cp .noSpace 2) (start [7] [] 0)).2 :=
  ⟨by decide, cp_errorPath .noSpace [7] [] 0 2 (-1) (by decide)⟩

end Syscalls.Prctl06
