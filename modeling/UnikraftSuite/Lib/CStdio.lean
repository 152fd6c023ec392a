import UnikraftSuite.Lib.PyInt

/-!
# What a C program leaves in the file it is redirected to

A program whose standard output is a file writes through a buffer that is copied by
`fork` and written out by `exit`, but lost when the process is killed:

- `Stdio` is the buffer of a process together with the file it shares with its children;
- `ptr` is `%p` (for `%d` and `%zu` see `PyStr.str`), and the `W…` functions take a wait
  status apart;
- `Quiet p` says that the pattern `p` does not occur. A conversion prints characters
  foreign to most patterns, so a line is quiet when its constant parts are
  (`Quiet.hole`), and a text of whole lines when its lines are (`Quiet.lines`);
- `Stdio.Sound`: what children write out is a copy of the parent's buffer and their own
  lines, so a pattern that no child prints is in the file only if the parent printed it.
-/

namespace CStdio

open PyStr Substring

/-! ## Conversions -/

/-- `%p`. -/
def ptr (p : BitVec 64) : Text :=
  if p = 0 then "(nil)".toList else "0x".toList ++ Nat.toDigits 16 p.toNat

/-- The characters `%p` can print. -/
def ptrChars : Text := "0123456789abcdefx(nil)".toList

theorem mem_toDigits_sixteen {c : Char} {n : Nat} (h : c ∈ Nat.toDigits 16 n) : c ∈ ptrChars := by
  have hdigit : ∀ d < 16, d.digitChar ∈ ptrChars := by decide
  induction n using Nat.strongRecOn with
  | ind n ih =>
    rcases Nat.lt_or_ge n 16 with hn | hn
    · rw [Nat.toDigits_of_lt_base hn, List.mem_singleton] at h
      exact h ▸ hdigit n hn
    · rw [Nat.toDigits_of_base_le (by decide) hn, List.mem_append] at h
      rcases h with h | h
      · exact ih (n / 16) (by omega) h
      · rw [List.mem_singleton.mp h]
        exact hdigit (n % 16) (Nat.mod_lt n (by decide))

theorem mem_ptr {c : Char} {p : BitVec 64} (h : c ∈ ptr p) : c ∈ ptrChars := by
  rw [ptr] at h
  split at h
  · exact (by decide : "(nil)".toList ⊆ ptrChars) h
  · rcases List.mem_append.mp h with h | h
    · exact (by decide : "0x".toList ⊆ ptrChars) h
    · exact mem_toDigits_sixteen h

theorem ptr_ne_nil (p : BitVec 64) : ptr p ≠ [] := by
  rw [ptr]
  split
  · decide
  · exact List.append_ne_nil_of_left_ne_nil (by decide) _

theorem mem_str {c : Char} {k : Int} (h : c ∈ str k) : c.isDigit ∨ c = '-' := by
  cases k with
  | ofNat n => exact .inl (isDigit_of_mem_str h)
  | negSucc n =>
    rcases List.mem_cons.mp h with h | h
    · exact .inr h
    · exact .inl (isDigit_of_mem_str (n := n + 1) h)

theorem str_int_ne_nil (k : Int) : str k ≠ [] := by
  cases k with
  | ofNat n => exact str_ne_nil n
  | negSucc n => exact List.cons_ne_nil _ _

/-! ## Beginnings of lines -/

/-- `x` begins with a character, and `v` with another one. -/
def apart (v x : Text) : Bool := x.head?.any fun c => v.head?.any fun d => c != d

/-- What a line begins with does not depend on what it is continued by. -/
theorem apart_append {v x : Text} (h : apart v x) (y : Text) : apart v (x ++ y) := by
  cases x with
  | nil => cases h
  | cons c x => exact h

theorem ne_of_apart {v x : Text} (h : apart v x) : x ≠ v := by
  rintro rfl
  cases x with
  | nil => cases h
  | cons c x => simp [apart] at h

/-! ## Wait statuses -/

/-- `WTERMSIG(status)`. -/
def WTERMSIG (status : BitVec 32) : BitVec 32 := status &&& 0x7f

/-- `WIFEXITED(status)`. -/
def WIFEXITED (status : BitVec 32) : Prop := WTERMSIG status = 0

/-- `WEXITSTATUS(status)`. -/
def WEXITSTATUS (status : BitVec 32) : BitVec 32 := (status &&& 0xff00) >>> 8

/-- `WIFSIGNALED(status)`: `((signed char) ((status & 0x7f) + 1) >> 1) > 0`. -/
def WIFSIGNALED (status : BitVec 32) : Prop :=
  0 < ((BitVec.setWidth 8 (WTERMSIG status) + 1).sshiftRight 1).toInt

instance (status : BitVec 32) : Decidable (WIFEXITED status) :=
  inferInstanceAs (Decidable (_ = _))

instance (status : BitVec 32) : Decidable (WIFSIGNALED status) :=
  inferInstanceAs (Decidable (_ < _))

/-! ## Patterns that do not occur -/

/-- The pattern does not occur in the text. -/
def Quiet (p x : Text) : Prop := ¬ p <:+: x

instance (p x : Text) : Decidable (Quiet p x) := inferInstanceAs (Decidable (¬ _))

/-- A text is quiet for a pattern when it is for a part of the pattern. -/
theorem Quiet.of_part {p q x : Text} (hq : q <:+: p) (h : Quiet q x) : Quiet p x :=
  fun hp => h (hq.trans hp)

/-- A conversion of foreign characters keeps the parts of a line apart. -/
theorem Quiet.hole {p a w b : Text} (hw : ∀ c ∈ w, c ∉ p) (hne : w ≠ []) (ha : Quiet p a)
    (hb : Quiet p b) : Quiet p (a ++ (w ++ b)) := fun h =>
  ((infix_append_sep hw hne a b).mp h).elim ha hb

/-- `Quiet.hole` for `%d`. -/
theorem Quiet.int {p a b : Text} (hp : ∀ c ∈ p, c.isDigit = false ∧ c ≠ '-') (k : Int)
    (ha : Quiet p a) (hb : Quiet p b) : Quiet p (a ++ (str k ++ b)) := by
  refine ha.hole (fun c hc hcp => ?_) (str_int_ne_nil k) hb
  rcases mem_str hc with h | h
  · rw [(hp c hcp).1] at h
    cases h
  · exact (hp c hcp).2 h

/-- `Quiet.hole` for `%p`. -/
theorem Quiet.ptr {p a b : Text} (hp : ∀ c ∈ p, c ∉ ptrChars) (q : BitVec 64)
    (ha : Quiet p a) (hb : Quiet p b) : Quiet p (a ++ (ptr q ++ b)) :=
  ha.hole (fun c hc hcp => hp c hcp (mem_ptr hc)) (ptr_ne_nil q) hb

/-- A text that is empty or ends with a line break. -/
def Lines (x : Text) : Prop := x = [] ∨ ['\n'] <:+ x

instance (x : Text) : Decidable (Lines x) := inferInstanceAs (Decidable (_ ∨ _))

/-- A text ends with a line break if its last part does. -/
theorem ends_append (x : Text) {y : Text} (h : ['\n'] <:+ y) : ['\n'] <:+ x ++ y :=
  h.trans (List.suffix_append x y)

theorem Lines.of_last {x y : Text} (h : ['\n'] <:+ y) : Lines (x ++ y) := .inr (ends_append x h)

theorem Lines.append {x y : Text} (hx : Lines x) (hy : Lines y) : Lines (x ++ y) := by
  rcases hy with rfl | hy
  · rwa [List.append_nil]
  · exact .of_last hy

/-- Whole lines do not run into what is printed after them. -/
theorem Lines.infix_append_iff {p x : Text} (hp : '\n' ∉ p) (hne : p ≠ []) (hx : Lines x)
    (y : Text) : p <:+: x ++ y ↔ p <:+: x ∨ p <:+: y := by
  rcases hx with rfl | ⟨z, rfl⟩
  · rw [List.nil_append, List.infix_nil, or_iff_right hne]
  · have hz : p <:+: z ++ ['\n'] ↔ p <:+: z := by
      rw [infix_append_cons hp, List.infix_nil, or_iff_left hne]
    rw [List.append_assoc, hz]
    exact infix_append_cons hp z y

theorem Quiet.lines {p x y : Text} (hp : '\n' ∉ p) (hne : p ≠ []) (hx : Lines x)
    (hqx : Quiet p x) (hqy : Quiet p y) : Quiet p (x ++ y) := fun h =>
  ((hx.infix_append_iff hp hne y).mp h).elim hqx hqy

/-! ## Buffers, `fork` and `exit` -/

/-- The buffer of a process and the file behind it. -/
structure Stdio where
  file : Text
  buf : Text

/-- No output yet. -/
def Stdio.init : Stdio := ⟨[], []⟩

/-- `printf`. -/
def Stdio.printf (s : Stdio) (x : Text) : Stdio := { s with buf := s.buf ++ x }

/-- The buffer is written out when the process exits. -/
def Stdio.exit (s : Stdio) : Text := s.file ++ s.buf

/-- A forked child prints `x` and exits. It writes out its copy of the buffer, too. -/
def Stdio.child (s : Stdio) (x : Text) : Stdio := { s with file := s.file ++ (s.buf ++ x) }

/-- Everything printed so far are whole lines, and the pattern is in the file only if it
is in the buffer. -/
structure Stdio.Sound (p : Text) (s : Stdio) : Prop where
  file_lines : Lines s.file
  buf_lines : Lines s.buf
  file_quiet : Quiet p s.buf → Quiet p s.file

theorem Stdio.Sound.init {p : Text} (hne : p ≠ []) : (Stdio.init).Sound p :=
  ⟨.inl rfl, .inl rfl, fun _ h => hne (List.infix_nil.mp h)⟩

theorem Stdio.Sound.printf {p x : Text} {s : Stdio} (hs : s.Sound p) (hx : Lines x) :
    (s.printf x).Sound p :=
  ⟨hs.file_lines, hs.buf_lines.append hx, fun h =>
    hs.file_quiet fun hb => h (List.infix_append_of_infix_left hb)⟩

theorem Stdio.Sound.child {p x : Text} {s : Stdio} (hp : '\n' ∉ p) (hne : p ≠ [])
    (hs : s.Sound p) (hx : Lines x) (hq : Quiet p x) : (s.child x).Sound p := by
  refine ⟨hs.file_lines.append (hs.buf_lines.append hx), hs.buf_lines, fun h => ?_⟩
  exact (hs.file_quiet h).lines hp hne hs.file_lines (h.lines hp hne hs.buf_lines hq)

/-- **The file of a process**: the pattern is in it exactly when the process itself
printed it. -/
theorem Stdio.Sound.exit_iff {p : Text} {s : Stdio} (hp : '\n' ∉ p) (hne : p ≠ [])
    (hs : s.Sound p) : p <:+: s.exit ↔ p <:+: s.buf := by
  rw [Stdio.exit, hs.file_lines.infix_append_iff hp hne]
  refine or_iff_right_of_imp fun hfile => ?_
  by_contra hbuf
  exact hs.file_quiet hbuf hfile

end CStdio
