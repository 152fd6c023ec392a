import UnikraftSuite.Brain
import UnikraftSuite.Lib.ExchangeSort
import Mathlib.Algebra.Order.Floor.Ring
import Mathlib.Data.Rat.Floor

/-!
# `runtest`: reading the report

`runtest` runs on the host. It splits the report on `DIVIDER`, writes a log file for
every piece after the first, and reads the three lines of counts in the first piece.
With graphs enabled it turns the counts into percentages, sorts seven parallel
arrays by them, and labels every system call with its counts.

The report is taken as `read()` returns it, that is with line breaks normalised to
`\n`, and `is not ""` compares texts. Percentages are rational numbers.
-/

namespace UnikraftSuite

open PyStr

/-! ## The log files -/

/-- The directory `./logs`, as the contents of its files by path. -/
abbrev LogDir := Text → Option Text

/-- `"./logs/" + name + ".log"`. -/
def logPath (name : Text) : Text := "./logs/".toList ++ name ++ ".log".toList

/-- The path and the text that a piece of the report is written to; `none` when the
piece is skipped. -/
def logFile (piece : Text) : Option (Text × Text) :=
  if piece = [] then none
  else
    let logcont := split "\n".toList piece
    let logcontent := logcont.tail.flatMap fun line => line ++ "\n".toList
    if logcontent = [] then none
    else some (logPath (logcont.headD []), logcontent)

/-- `open(path, "w").write(text)`. -/
def LogDir.write (dir : LogDir) (path text : Text) : LogDir :=
  fun q => if q = path then some text else dir q

/-- One turn of the loop over the pieces. -/
def writeLog (dir : LogDir) (piece : Text) : LogDir :=
  match logFile piece with
  | some (path, text) => dir.write path text
  | none => dir

/-- The log files written for a report. -/
def writeLogs (report : Text) (dir : LogDir) : LogDir :=
  (split "DIVIDER".toList report).tail.foldl writeLog dir

/-! ## The counts -/

/-- `for num in line: if num is not "": l.append(int(num))`. -/
def parseLine (line : Text) : Except PyErr (List Int) :=
  ((split " ".toList line).filter (· ≠ [])).mapM fun num =>
    match int num with
    | some k => .ok k
    | none => .error .valueError

/-- The lists `p`, `f` and `b`. -/
structure ReportCounts where
  p : List Int
  f : List Int
  b : List Int
deriving DecidableEq

/-- The numbers of the first piece of the report. -/
def parseCounts (report : Text) : Except PyErr ReportCounts := do
  let content := split "DIVIDER".toList report
  let cont := split "\n".toList (content.headD [])
  let p ← parseLine (← getIdx cont 0)
  let f ← parseLine (← getIdx cont 1)
  let b ← parseLine (← getIdx cont 2)
  return ⟨p, f, b⟩

/-! ## Percentages -/

/-- One turn of the percentage loop: the values appended to `pp`, `fp` and `bp`. -/
def percentage (c : ReportCounts) (i : Nat) : Except PyErr (Rat × Rat × Rat) := do
  let p ← getIdx c.p i
  let f ← getIdx c.f i
  let b ← getIdx c.b i
  let tot := p + f + b
  if tot = 0 then .error .zeroDivisionError
  else return ((p : Rat) / tot * 100, (f : Rat) / tot * 100, (b : Rat) / tot * 100)

/-- The percentage loop. -/
def percentages (c : ReportCounts) : Except PyErr (List (Rat × Rat × Rat)) :=
  (List.range c.p.length).mapM (percentage c)

/-- `int(x)` on a rational number: truncation towards zero. -/
def truncate (x : Rat) : Int := if x < 0 then ⌈x⌉ else ⌊x⌋

/-- The three bars of the total plot. -/
def totalWeight (c : ReportCounts) : Except PyErr (Rat × Rat × Rat) :=
  let tot := c.p.sum + c.f.sum + c.b.sum
  if tot = 0 then .error .zeroDivisionError
  else
    let weight := fun s : Int => (truncate ((s : Rat) / tot * 10000) : Rat) / 100
    .ok (weight c.p.sum, weight c.f.sum, weight c.b.sum)

/-! ## Sorting and labelling -/

/-- The seven parallel arrays. -/
structure Arrays where
  pp : List Rat
  fp : List Rat
  bp : List Rat
  syscalls : List Text
  p : List Int
  f : List Int
  b : List Int

/-- `aux = l[i]; l[i] = l[j]; l[j] = aux`. -/
def swapAt {α : Type} (l : List α) (i j : Nat) : Except PyErr (List α) := do
  let x ← getIdx l i
  let y ← getIdx l j
  return (l.set i y).set j x

/-- The body of the `if`: all seven arrays are exchanged at `i` and `j`. -/
def Arrays.exchange (a : Arrays) (i j : Nat) : Except PyErr Arrays := do
  let pp ← swapAt a.pp i j
  let fp ← swapAt a.fp i j
  let bp ← swapAt a.bp i j
  let syscalls ← swapAt a.syscalls i j
  let p ← swapAt a.p i j
  let f ← swapAt a.f i j
  let b ← swapAt a.b i j
  return ⟨pp, fp, bp, syscalls, p, f, b⟩

/-- One turn of the inner sorting loop. -/
def sortTurn (a : Arrays) (ij : Nat × Nat) : Except PyErr Arrays := do
  let bi ← getIdx a.bp ij.1
  let bj ← getIdx a.bp ij.2
  let pi ← getIdx a.pp ij.1
  let pj ← getIdx a.pp ij.2
  if bi > bj ∨ pi < pj then a.exchange ij.1 ij.2 else return a

/-- Both sorting loops. -/
def sortArrays (a : Arrays) : Except PyErr Arrays :=
  (ExchangeSort.pairs a.bp.length).foldlM sortTurn a

/-- The label of a system call: `name: p/f/b`. -/
def label (name : Text) (p f b : Int) : Text :=
  name ++ ": ".toList ++ (str p ++ "/".toList) ++ (str f ++ "/".toList) ++ str b

/-- The labelling loop. -/
def labels (a : Arrays) : Except PyErr (List Text) :=
  (List.range a.syscalls.length).mapM fun i => do
    let name ← getIdx a.syscalls i
    let p ← getIdx a.p i
    let f ← getIdx a.f i
    let b ← getIdx a.b i
    return label name p f b

end UnikraftSuite
