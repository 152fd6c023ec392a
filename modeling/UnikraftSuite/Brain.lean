import UnikraftSuite.Lib.PyErr
import UnikraftSuite.Lib.PyInt

/-!
# `brain.py`: compiling, running and counting the tests

`brain.py` runs inside the container. It walks over the system-call folders,
compiles every test with `gcc`, runs the binary, and judges the test by what the
program printed. The counts and the collected log go to `out.txt`, separated by
the word `DIVIDER`.

The environment is a parameter throughout: an `Entry` says what `gcc` makes of a
file (`Gcc`) and what running a binary leaves in `log.txt` (`exec`). A file
whose bytes do not decode as text is `none`, and reading it raises. `World` is
what persists between two calls of `runTest`: the global `logs`, and the files
`comp.txt`, `log.txt`, `/root/a.out` and the `a.out` of the folder.
-/

namespace UnikraftSuite

open PyStr

variable {β : Type}

/-- The effect of one `gcc` command. -/
structure Gcc (β : Type) where
  /-- What is redirected to `comp.txt`; `none` if it does not decode as text. -/
  stdout : Option Text
  /-- The `a.out` it writes; `none` if the test does not compile. -/
  binary : Option β
  /-- Whether it is linking that fails then: `ld` deletes an `a.out` that is there. -/
  unlinks : Bool

/-- The `a.out` behind the command, for the one before it. -/
def Gcc.aout (g : Gcc β) (old : Option β) : Option β :=
  g.binary <|> if g.unlinks then none else old

/-- A name that `os.listdir` reports in a system-call folder, with what compiling
and running the file does. -/
structure Entry (β : Type) where
  name : Text
  isDir : Bool
  gcc : Gcc β
  /-- What running a binary right after compiling this file leaves in `log.txt`. -/
  exec : β → Option Text

/-- A system-call folder, in the order of `os.listdir`. -/
structure Folder (β : Type) where
  name : Text
  entries : List (Entry β)
  /-- An `a.out` that is in the folder from the start. -/
  aout : Option β

/-- What one call of `runTest` leaves to the next. -/
structure World (β : Type) where
  /-- The global variable `logs`. -/
  logs : Text
  /-- `/root/comp.txt`. -/
  comp : Option Text
  /-- `a.out` in the folder of the test. -/
  aout : Option β
  /-- `/root/a.out`. -/
  rootAout : Option β
  /-- `/root/log.txt`. -/
  log : Option Text

/-- The world in which `brain.py` starts. -/
def World.init : World β := ⟨[], none, none, none, none⟩

/-! ## `runTest` -/

/-- The lines `runTest` logs after compiling: `name + "\n" + cont + "\n"`. -/
def compEntry (name cont : Text) : Text := name ++ "\n".toList ++ cont ++ "\n".toList

/-- The lines `runTest` logs after a run that did not succeed. -/
def failEntry (cont : Text) : Text := "\n".toList ++ cont ++ "DIVIDER".toList

/-- `runTest(name, path)`: the returned verdict and the world it leaves. -/
def runTest (t : Entry β) (w : World β) : Int × World β :=
  -- gcc overwrites comp.txt, and a.out only when the test compiles
  let w := { w with comp := t.gcc.stdout, aout := t.gcc.aout w.aout }
  match w.comp with
  | none => (-1, w)
  | some cont =>
    let w := { w with logs := w.logs ++ compEntry t.name cont }
    match w.aout with
    | none => (0, w)
    | some a =>
      let w := { w with aout := none, rootAout := some a, log := t.exec a }
      match w.log with
      | none => (-1, w)
      | some cont =>
        if "test succeeded".toList <:+: cont then (1, w)
        -- `log` is True on every path that gets here, so `name` is not logged again
        else (0, { w with logs := w.logs ++ failEntry cont })

/-! ## The loop over the folders -/

/-- The three counters and what `runTest` keeps. -/
structure BrainState (β : Type) where
  passList : List Nat
  failList : List Nat
  brokList : List Nat
  world : World β

/-- `[0] * 361` three times. -/
def BrainState.init : BrainState β :=
  ⟨List.replicate 361 0, List.replicate 361 0, List.replicate 361 0, World.init⟩

/-- `l[i] += n`. -/
def incr (l : List Nat) (i n : Nat) : Except PyErr (List Nat) :=
  if i < l.length then .ok (l.modify i (· + n)) else .error .indexError

/-- One turn of `for file in fcont`. -/
def countFile (i : Nat) (st : BrainState β) (file : Entry β) :
    Except PyErr (BrainState β) :=
  if ".h".toList <:+: file.name then .ok st
  else
    let res := (runTest file st.world).1
    let st := { st with world := (runTest file st.world).2 }
    if res = 0 then
      (incr st.failList i 1).map fun l => { st with failList := l }
    else if res = 1 then
      (incr st.passList i 1).map fun l => { st with passList := l }
    else
      (incr st.brokList i 1).map fun l => { st with brokList := l }

/-- `len(fcont) != 1 and "incl.h" not in fcont`: the folder is counted as broken
without running anything. -/
def Folder.unfinished (folder : Folder β) : Prop :=
  folder.entries.length ≠ 1 ∧ "incl.h".toList ∉ folder.entries.map Entry.name

instance (folder : Folder β) : Decidable folder.unfinished :=
  inferInstanceAs (Decidable (_ ∧ _))

/-- One turn of `for i in range(len(syscalls))`. -/
def countFolder (i : Nat) (st : BrainState β) (folder : Folder β) :
    Except PyErr (BrainState β) :=
  if folder.unfinished then
    -- all names count, headers and directories included
    (incr st.brokList i folder.entries.length).map fun l => { st with brokList := l }
  else
    folder.entries.foldlM (countFile i)
      { st with world := { st.world with aout := folder.aout } }

/-- The loop over `syscalls`, from index `i` on. -/
def countLoop : Nat → BrainState β → List (Folder β) → Except PyErr (BrainState β)
  | _, st, [] => .ok st
  | i, st, folder :: rest => (countFolder i st folder).bind fun st => countLoop (i + 1) st rest

/-! ## The report -/

/-- `for i in range(n): out += str(l[i]) + " "`. -/
def countLine (l : List Nat) (n : Nat) : Except PyErr Text :=
  (List.range n).foldlM (fun out i =>
    match l[i]? with
    | some k => .ok (out ++ (str (k : Nat) ++ " ".toList))
    | none => .error .indexError) []

/-- The text written to `out.txt`. -/
def report (n : Nat) (passList failList brokList : List Nat) (logs : Text) :
    Except PyErr Text := do
  let p ← countLine passList n
  let f ← countLine failList n
  let b ← countLine brokList n
  return p ++ "\n".toList ++ f ++ "\n".toList ++ b ++ ("DIVIDER".toList ++ logs)

/-- `brain.py` from start to end. -/
def brain (syscalls : List (Folder β)) : Except PyErr Text := do
  let st ← countLoop 0 BrainState.init syscalls
  report syscalls.length st.passList st.failList st.brokList st.world.logs

end UnikraftSuite
