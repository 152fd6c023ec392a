import UnikraftSuite.Lib.PyErr
import UnikraftSuite.Lib.PyStr

/-!
# `convert.py`: from an original test to an independent one

`convert.py` goes over the folders of original tests. Every C file it finds in a folder is
freed of comments (`rmcomment`), cut at every `static ` into segments, and rewritten line by
line (`convertFile`); functions with `verify` in their first line are rewritten by `verfunc`.

Loops that may not end take a number of turns, and running out of it is `Halt.outOfFuel`;
`rmcomment` then has no result. Directories are trees of `Node`s, and a file whose bytes do
not decode as text is `none`. The texts are taken to have no letters but those of ASCII, which
are the only ones that `lower` changes here.
-/

namespace UnikraftSuite

open PyStr

/-! ## `rmcomment` -/

/-- One turn of `while("/*" in file)`. -/
def rmcommentStep (file : Text) : Text :=
  -- at index 0 the first slice ends at -1, so it is all but the last character
  let beg := sliceTo file (find file "/*".toList - 1)
  let «end» := sliceFrom file (find file "/*".toList + 1)
  beg ++ «end»

/-- The loop, with at most `n` turns of its condition. -/
def rmcommentLoop : Nat → Text → Option Text
  | 0, _ => none
  | n + 1, file => if "/*".toList <:+: file then rmcommentLoop n (rmcommentStep file) else some file

/-- What a line contributes to the file: `if("//" in line): file += line.split("//")[0]`. -/
def uncommentLine (line : Text) : Text :=
  if "//".toList <:+: line then (split "//".toList line).headD [] else []

/-- `rmcomment(file)`. -/
def rmcomment (n : Nat) (file : Text) : Option Text :=
  (rmcommentLoop n file).map fun file => (split "\n".toList file).flatMap uncommentLine

/-! ## Rewriting a line -/

/-- `if(sep in line): aux = line.split(sep); line = aux[0] + new + aux[1]`. -/
def replaceFirst (sep new line : Text) : Except PyErr Text :=
  if sep <:+: line then do
    let aux := split sep line
    let rest ← getIdx aux 1
    return aux.headD [] ++ new ++ rest
  else pure line

/-- `if("SAFE_" in line): …`, the same in `verfunc` and `convertFile`. -/
def rewriteSafe (line : Text) : Except PyErr Text :=
  if "SAFE_".toList <:+: line then do
    let aux := split "SAFE_".toList line
    let aux1 := split "(".toList (← getIdx aux 1)
    let arg ← getIdx aux1 1
    let line := aux.headD [] ++ lower (aux1.headD []) ++ "(".toList ++ arg
    -- the loop starts at index 1, which is in the line already, and adds no parentheses
    return if aux1.length > 2 then line ++ (aux1.drop 1).flatten else line
  else pure line

/-- `if("TEST(" in line): line = pre + line.split("TEST(")[1][:-2] + ";"`. -/
def rewriteTest (pre line : Text) : Except PyErr Text :=
  if "TEST(".toList <:+: line then do
    let arg ← getIdx (split "TEST(".toList line) 1
    -- `[:-2]` cuts the last two characters, whatever they are
    return pre ++ sliceTo arg (-2) ++ ";".toList
  else pure line

/-- One turn of the loop in `verfunc`: the rewritten line. -/
def verfuncLine (line : Text) : Except PyErr Text := do
  let line ← replaceFirst "SAFE_WRITE_ALL".toList "1".toList line
  let line ← rewriteSafe line
  let line ← rewriteTest "ret = ".toList line
  -- the step for `tst_res` only prints
  replaceFirst "TST_RET".toList "ret".toList line

/-- `verfunc(el)`. -/
def verfunc (el : Text) : Except PyErr Text := do
  let head := (split "\x7b".toList el).headD [] ++ "\x7b\n\tint ret;".toList
  -- the body ends at the second brace
  let lines := split "\n".toList (← getIdx (split "\x7b".toList el) 1)
  let body ← lines.mapM verfuncLine
  return head ++ body.flatMap fun line => line ++ "\n".toList

/-! ## `convertFile` -/

/-- The lines that are passed over: `#include` lines, empty lines, and lines whose second
character is a star. -/
def skipLine (line : Text) : Prop :=
  "#include".toList <:+: line ∨ line = [] ∨ line.length > 1 ∧ line.getD 1 ' ' = '*'

instance (line : Text) : Decidable (skipLine line) := inferInstanceAs (Decidable (_ ∨ _))

/-- One turn of `for line in lines`: the text added to `ret`. -/
def convertLine (line : Text) : Except PyErr Text :=
  if skipLine line then pure []
  else do
    let line ← rewriteSafe line
    let line ← replaceFirst "file_printf".toList "fprintf".toList line
    let line ← rewriteTest "int ret = ".toList line
    return line ++ "\n".toList

/-- One turn of `for el in els`: the text added to `ret`. -/
def convertSegment (el : Text) : Except PyErr Text :=
  if "struct tst_test test".toList <:+: el then pure []
  else if "verify".toList <:+: (split "\n".toList el).headD [] then
    (verfunc el).map (· ++ "\n".toList)
  else ((split "\n".toList el).mapM convertLine).map (·.flatten ++ "\n".toList)

/-- `isMain(els)`. -/
def isMain (els : List Text) : Bool := els.any fun el => "main".toList <:+: el

/-- `convertFile` after `rmcomment`. -/
def convertText (file : Text) : Except PyErr Text := do
  let els := split "static ".toList file
  let ret := "#include \"incl.h\"\n".toList ++ (← els.mapM convertSegment).flatten
  return if isMain els then ret
    else ret ++ "void main()\x7b\n\tsetup();\n\tcleanup();\n\x7d\n".toList

/-- How a run of `convert.py` stops early. -/
inductive Halt where
  | raised (e : PyErr)
  | outOfFuel
deriving DecidableEq

/-- `convertFile(file)`. -/
def convertFile (n : Nat) (file : Text) : Except Halt Text :=
  match rmcomment n file with
  | none => .error .outOfFuel
  | some file => (convertText file).mapError .raised

/-! ## The tree of original tests -/

/-- A file or a directory; `none` is a file that does not decode. -/
inductive Node where
  | file (name : Text) (text : Option Text)
  | dir (name : Text) (children : List Node)

def Node.name : Node → Text
  | .file name _ => name
  | .dir name _ => name

/-- One turn of the loop in `getFiles`. -/
def getFile (files : List (Text × Text)) : Node → Except PyErr (List (Text × Text))
  | .file name text =>
    match text with
    | some text => .ok (if ".c".toList <:+: name then files ++ [(text, name)] else files)
    -- the name is printed, and the run goes on
    | none => .ok files
  | .dir name _ => if ".c".toList <:+: name then .error .isADirectoryError else .ok files

/-- `getFiles(path)`: the texts and names of the C files of a folder. -/
def getFiles (content : List Node) : Except PyErr (List (Text × Text)) :=
  content.foldlM getFile []

/-- What has been created under `./independent tests/syscalls`: folders, and files by
folder and name, in the order they were written. -/
structure Output where
  folders : List Text
  files : List ((Text × Text) × Text)

/-- `convertFiles(path)`. -/
def convertFiles (n : Nat) (out : Output) : Node → Except Halt Output
  | .file _ _ => .error (.raised .notADirectoryError)
  | .dir folder content => do
    let files ← (getFiles content).mapError Halt.raised
    let out := if folder ∈ out.folders then out else { out with folders := out.folders ++ [folder] }
    files.foldlM (fun out file => do
      let newfile ← convertFile n file.1
      return { out with files := out.files ++ [((folder, file.2), newfile)] }) out

/-- `convert.py` from start to end, for the contents of `./original tests`. -/
def convert (n : Nat) (folders : List Node) : Except Halt Output :=
  folders.foldlM (convertFiles n) ⟨[], []⟩

end UnikraftSuite
