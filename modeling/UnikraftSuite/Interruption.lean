import UnikraftSuite.SourceTree
import UnikraftSuite.Lib.LastWrite
import Mathlib.Data.Finset.Lattice.Lemmas
import Mathlib.Data.List.Forall2
import Mathlib.Data.List.Perm.Basic

/-!
# Interrupted runs of `convert.py`

`convert.py` changes the tree of independent tests while it goes over the originals, and it may
stop at any moment: it raises an exception, or it is killed. This module follows it from one
operation on the disk to the next, where `open(…, "w")` empties a file before it is written.

- `convertOps_halt`: the run ends as `convert` does.
- `interrupted_file`: at every moment a file is what it was before, or empty, or the conversion of
  the original of its name.
- `converges`: after any number of runs that were cut short, a complete one gives what it would
  have given without them, in whichever order the folders are listed each time.
-/

namespace UnikraftSuite

open PyStr Raise LastWrite

/-! ## The disk -/

/-- The folders and files under `./independent tests/syscalls`, files by folder and name. -/
@[ext] structure Disk where
  folders : Finset Text
  file : Text × Text → Option Text

/-- An operation on it. -/
inductive Op where
  /-- `os.makedirs`, for a folder that is not there. -/
  | makedirs (folder : Text)
  /-- The file has this text from now on. -/
  | put (path : Text × Text) (text : Text)

def Op.folder : Op → Option Text
  | .makedirs folder => some folder
  | .put _ _ => none

def Op.write : Op → Option ((Text × Text) × Text)
  | .makedirs _ => none
  | .put path text => some (path, text)

def Disk.step (disk : Disk) : Op → Disk
  | .makedirs folder => { disk with folders := insert folder disk.folders }
  | .put path text => { disk with file := Function.update disk.file path (some text) }

/-- The disk after the operations. -/
def Disk.after (disk : Disk) (ops : List Op) : Disk := ops.foldl Disk.step disk

theorem Disk.after_file (disk : Disk) (ops : List Op) :
    (disk.after ops).file = store disk.file (ops.filterMap Op.write) := by
  induction ops generalizing disk with
  | nil => rfl
  | cons op ops ih =>
    show ((disk.step op).after ops).file = _
    rw [ih]
    cases op with
    | makedirs folder => rfl
    | put path text => rfl

theorem Disk.after_folders (disk : Disk) (ops : List Op) :
    (disk.after ops).folders = disk.folders ∪ (ops.filterMap Op.folder).toFinset := by
  induction ops generalizing disk with
  | nil => simp [Disk.after]
  | cons op ops ih =>
    show ((disk.step op).after ops).folders = _
    rw [ih]
    cases op with
    | makedirs folder =>
      show insert folder disk.folders ∪ _ = disk.folders ∪ (folder :: _).toFinset
      rw [List.toFinset_cons, Finset.insert_union, Finset.union_insert]
    | put path text => rfl

/-! ## The operations of a run -/

/-- The turn of `convertFiles` for one file: `convertFile`, then the file is opened and written. -/
def fileOps (n : Nat) (folder : Text) (file : Text × Text) : List Op × Option Halt :=
  match convertFile n file.1 with
  | .error e => ([], some e)
  | .ok newfile => ([.put (folder, file.2) [], .put (folder, file.2) newfile], none)

/-- `convertFiles(path)`: nothing is made before all files of the folder are read. -/
def folderOps (n : Nat) : Node → List Op × Option Halt
  | .file _ _ => ([], some (.raised .notADirectoryError))
  | .dir folder content =>
    match getFiles content with
    | .error e => ([], some (.raised e))
    | .ok files => (.makedirs folder :: (inTurn (fileOps n folder) files).1,
        (inTurn (fileOps n folder) files).2)

/-- `convert.py` from start to end. -/
def convertOps (n : Nat) (folders : List Node) : List Op × Option Halt :=
  inTurn (folderOps n) folders

/-- How a computation stops, if it does. -/
def raised {ε α : Type} : Except ε α → Option ε
  | .error e => some e
  | .ok _ => none

theorem raised_eq_none_iff {ε α : Type} {x : Except ε α} : raised x = none ↔ Returns x := by
  cases x with
  | error e => exact iff_of_false (Option.some_ne_none e) (not_returns_error e)
  | ok a => exact iff_of_true rfl (returns_ok a)

theorem raised_map {ε α β : Type} (x : Except ε α) (f : α → β) : raised (x.map f) = raised x := by
  cases x with
  | error e => rfl
  | ok a => rfl

theorem raised_mapM {ε α β : Type} (f : α → Except ε β) (l : List α) :
    raised (l.mapM f) = l.findSome? fun a => raised (f a) := by
  induction l with
  | nil => rfl
  | cons a l ih =>
    rw [List.mapM_cons, List.findSome?_cons, ← ih]
    cases f a with
    | error e => rfl
    | ok b =>
      cases l.mapM f with
      | error e => rfl
      | ok bs => rfl

theorem fileOps_halt (n : Nat) (folder : Text) (file : Text × Text) :
    (fileOps n folder file).2 = raised (convertFile n file.1) := by
  rw [fileOps]
  cases convertFile n file.1 with
  | error e => rfl
  | ok newfile => rfl

theorem folderOps_halt (n : Nat) (top : Node) :
    (folderOps n top).2 = raised (folderFiles n top) := by
  cases top with
  | file name text => rfl
  | dir folder content =>
    rw [folderOps, folderFiles]
    cases getFiles content with
    | error e => rfl
    | ok files =>
      show (inTurn (fileOps n folder) files).2 = raised (Except.map (folder, ·)
        (files.mapM fun file => (convertFile n file.1).map (((folder, file.2), ·))))
      rw [inTurn_halt, raised_map, raised_mapM]
      simp only [fileOps_halt, raised_map]

/-- **The run ends as `convert` does**, with the same exception if it raises one. -/
theorem convertOps_halt (n : Nat) (folders : List Node) :
    (convertOps n folders).2 = raised (convert n folders) := by
  rw [convertOps, inTurn_halt, convert_eq, raised_map, raised_mapM]
  simp only [folderOps_halt]

/-! ## Every moment of a run -/

/-- The C file with this path below `./original tests`, as `convert.py` reads it. -/
def Original (folders : List Node) (path : Text × Text) (text : Text) : Prop :=
  ∃ top ∈ folders, top.name = path.1 ∧ (text, path.2) ∈ top.children.filterMap listed

variable {n : Nat} {folders folders' : List Node}

theorem put_of_mem_fileOps {folder text : Text} {file path : Text × Text}
    (h : Op.put path text ∈ (fileOps n folder file).1) :
    path = (folder, file.2) ∧ ∃ newfile, convertFile n file.1 = .ok newfile ∧
      (text = [] ∨ text = newfile) := by
  rw [fileOps] at h
  cases hnew : convertFile n file.1 with
  | error e =>
    rw [hnew] at h
    cases h
  | ok newfile =>
    rw [hnew] at h
    rcases List.mem_cons.mp h with h | h
    · cases h
      exact ⟨rfl, newfile, rfl, .inl rfl⟩
    · have heq := Op.put.inj (List.mem_singleton.mp h)
      exact ⟨heq.1, newfile, rfl, .inr heq.2⟩

theorem folder_of_mem_fileOps {folder : Text} {file : Text × Text} {op : Op}
    (h : op ∈ (fileOps n folder file).1) : op.folder = none := by
  rw [fileOps] at h
  split at h
  · cases h
  · rcases List.mem_cons.mp h with rfl | h
    · rfl
    · rw [List.mem_singleton.mp h]
      rfl

/-- What is written is written for an original. -/
theorem put_of_mem_convertOps {path : Text × Text} {text : Text}
    (h : Op.put path text ∈ (convertOps n folders).1) :
    ∃ source, Original folders path source ∧ ∃ newfile, convertFile n source = .ok newfile ∧
      (text = [] ∨ text = newfile) := by
  obtain ⟨top, htop, hop⟩ := mem_inTurn h
  cases top with
  | file name source => cases hop
  | dir folder content =>
    rw [folderOps] at hop
    by_cases hopen : ∀ child ∈ content, ¬ Unopenable child
    · rw [getFiles_eq hopen] at hop
      rcases List.mem_cons.mp hop with hop | hop
      · cases hop
      · obtain ⟨file, hfile, hop⟩ := mem_inTurn hop
        obtain ⟨hpath, newfile, hnew, htext⟩ := put_of_mem_fileOps hop
        exact ⟨file.1, ⟨_, htop, (congrArg Prod.fst hpath).symm, hpath ▸ hfile⟩, newfile, hnew,
          htext⟩
    · cases hfiles : getFiles content with
      | ok files => exact absurd (returns_getFiles.mp ⟨files, hfiles⟩) hopen
      | error e =>
        rw [hfiles] at hop
        cases hop

/-- What is made is a folder of the tree. -/
theorem folder_of_mem_convertOps {op : Op} {name : Text} (h : op ∈ (convertOps n folders).1)
    (hname : op.folder = some name) : name ∈ folders.map Node.name := by
  obtain ⟨top, htop, hop⟩ := mem_inTurn h
  refine List.mem_map.mpr ⟨top, htop, ?_⟩
  cases top with
  | file name' source => cases hop
  | dir folder content =>
    rw [folderOps] at hop
    cases hfiles : getFiles content with
    | error e =>
      rw [hfiles] at hop
      cases hop
    | ok files =>
      rw [hfiles] at hop
      rcases List.mem_cons.mp hop with rfl | hop
      · exact Option.some.inj hname
      · obtain ⟨file, -, hop⟩ := mem_inTurn hop
        rw [folder_of_mem_fileOps hop] at hname
        cases hname

theorem mem_filterMap_write {ops : List Op} {path : Text × Text} {text : Text} :
    (path, text) ∈ ops.filterMap Op.write ↔ Op.put path text ∈ ops := by
  rw [List.mem_filterMap]
  constructor
  · rintro ⟨op, hop, h⟩
    cases op with
    | makedirs folder => cases h
    | put path text =>
      cases h
      exact hop
  · exact fun h => ⟨_, h, rfl⟩

/-- **At every moment** of a run, also of one that raises an exception, a file is what it was, or
it is the empty or the converted file of an original with its name. -/
theorem interrupted_file (disk : Disk) (k : Nat) (path : Text × Text) :
    (convertOps n folders).2 = raised (convert n folders) ∧
    ((disk.after ((convertOps n folders).1.take k)).file path = disk.file path ∨
      ∃ source, Original folders path source ∧ ∃ newfile, convertFile n source = .ok newfile ∧
        ((disk.after ((convertOps n folders).1.take k)).file path = some [] ∨
          (disk.after ((convertOps n folders).1.take k)).file path = some newfile)) := by
  refine ⟨convertOps_halt n folders, ?_⟩
  rw [Disk.after_file, store_eq]
  cases hlast : last path (((convertOps n folders).1.take k).filterMap Op.write) with
  | none => exact .inl (Option.none_or)
  | some text =>
    have hput := List.mem_of_mem_take (mem_filterMap_write.mp (mem_of_last hlast))
    obtain ⟨source, horiginal, newfile, hnew, htext⟩ := put_of_mem_convertOps hput
    refine .inr ⟨source, horiginal, newfile, hnew, ?_⟩
    rw [Option.some_or]
    exact htext.imp (congrArg some) (congrArg some)

/-! ## A complete run -/

theorem fileOps_complete {folder : Text} {file : Text × Text}
    (h : Returns (convertFile n file.1)) : (fileOps n folder file).2 = none := by
  rw [fileOps_halt, raised_eq_none_iff]
  exact h

/-- The operations of a complete run, folder by folder and file by file. -/
theorem convertOps_complete (h : Returns (convert n folders)) :
    convertOps n folders = (folders.flatMap fun top => .makedirs top.name ::
      (top.children.filterMap listed).flatMap fun file => (fileOps n top.name file).1, none) := by
  have hreturns := returns_convert.mp h
  have hfolder : ∀ top ∈ folders, folderOps n top = (.makedirs top.name ::
      (top.children.filterMap listed).flatMap fun file => (fileOps n top.name file).1, none) := by
    intro top htop
    obtain ⟨⟨name, content, rfl⟩, hopen, hfiles⟩ := hreturns top htop
    have hopen' : ∀ child ∈ content, ¬ Unopenable child := hopen
    rw [folderOps, getFiles_eq hopen']
    have hrun := inTurn_of_none (f := fileOps n name) (l := content.filterMap listed)
      fun file hfile => fileOps_complete (hfiles file hfile)
    exact congrArg (fun r => (Op.makedirs name :: r.1, r.2)) hrun
  rw [convertOps, inTurn_of_none fun top htop => congrArg Prod.snd (hfolder top htop)]
  refine congrArg (·, none) ?_
  rw [List.flatMap_def, List.flatMap_def]
  exact congrArg _ (List.map_congr_left fun top htop => congrArg Prod.fst (hfolder top htop))

theorem last_fileOps {folder : Text} {file path : Text × Text} {newfile : Text}
    (h : convertFile n file.1 = .ok newfile) :
    last path ((fileOps n folder file).1.filterMap Op.write)
      = if (folder, file.2) = path then some newfile else none := by
  rw [fileOps, h]
  show ((none.or (if (folder, file.2) = path then some newfile else none)).or
    (if (folder, file.2) = path then some [] else none)) = _
  by_cases hpath : (folder, file.2) = path
  · rw [if_pos hpath, if_pos hpath]
    rfl
  · rw [if_neg hpath, if_neg hpath]
    rfl

theorem writes_complete (h : Returns (convert n folders)) :
    (convertOps n folders).1.filterMap Op.write = folders.flatMap fun top =>
      (top.children.filterMap listed).flatMap fun file =>
        (fileOps n top.name file).1.filterMap Op.write := by
  rw [convertOps_complete h, List.filterMap_flatMap]
  simp only [List.filterMap_cons, Op.write, List.filterMap_flatMap]

/-- What a complete run leaves at the path of an original, or of no original. -/
theorem completed_file (h : Returns (convert n folders)) (disk : Disk) (path : Text × Text) :
    ((∀ source, ¬ Original folders path source) ∧
      (disk.after (convertOps n folders).1).file path = disk.file path) ∨
    ∃ source newfile, Original folders path source ∧ convertFile n source = .ok newfile ∧
      (disk.after (convertOps n folders).1).file path = some newfile := by
  have hreturns := returns_convert.mp h
  rw [Disk.after_file, store_eq, writes_complete h]
  rcases last_flatMap (k := path) (fun top : Node => (top.children.filterMap listed).flatMap
    fun file => (fileOps n top.name file).1.filterMap Op.write) folders with
    ⟨hnone, hlast⟩ | ⟨top, htop, newfile, hblock, hlast⟩
  · rw [hlast, Option.none_or]
    refine .inl ⟨?_, rfl⟩
    rintro source ⟨top, htop, hname, hfile⟩
    obtain ⟨newfile, hnew⟩ := (hreturns top htop).2.2 _ hfile
    -- the converted original is written there
    refine last_eq_none_iff.mp (hnone top htop) (path, newfile) ?_ rfl
    refine List.mem_flatMap.mpr ⟨_, hfile, mem_of_last ?_⟩
    rw [last_fileOps hnew]
    exact if_pos (congrArg (·, path.2) hname)
  · rw [hlast]
    rcases last_flatMap (k := path) (fun file => (fileOps n top.name file).1.filterMap Op.write)
      (top.children.filterMap listed) with ⟨-, hnone⟩ | ⟨file, hfile, newfile', hwritten, hlast'⟩
    · rw [hnone] at hblock
      cases hblock
    · obtain ⟨newfile'', hnew⟩ := (hreturns top htop).2.2 file hfile
      rw [hlast'] at hblock
      rw [last_fileOps hnew] at hwritten
      split at hwritten
      · next hpath =>
        refine .inr ⟨file.1, newfile'', ⟨top, htop, congrArg Prod.fst hpath, ?_⟩, hnew, ?_⟩
        · rw [← hpath]
          exact hfile
        · rw [← Option.some.inj hblock, ← Option.some.inj hwritten]
          rfl
      · cases hwritten

theorem completed_folders (h : Returns (convert n folders)) (disk : Disk) :
    (disk.after (convertOps n folders).1).folders
      = disk.folders ∪ (folders.map Node.name).toFinset := by
  have hmade : ∀ (name : Text) (files : List (Text × Text)),
      (files.flatMap fun file => (fileOps n name file).1).filterMap Op.folder = [] := by
    intro name files
    refine List.filterMap_eq_nil_iff.mpr fun op hop => ?_
    obtain ⟨file, -, hop⟩ := List.mem_flatMap.mp hop
    exact folder_of_mem_fileOps hop
  rw [Disk.after_folders, convertOps_complete h, List.filterMap_flatMap]
  simp only [List.filterMap_cons, Op.folder, hmade]
  rw [← List.map_eq_flatMap]

/-! ## Listing orders -/

/-- The same folder, with its files listed in another order. -/
inductive SameFolder : Node → Node → Prop where
  | file (name : Text) (text : Option Text) : SameFolder (.file name text) (.file name text)
  | dir (name : Text) {content content' : List Node} (h : content.Perm content') :
    SameFolder (.dir name content) (.dir name content')

/-- The same tree of originals, where `os.listdir` reports folders and files in another order. -/
def SameTree (folders folders' : List Node) : Prop :=
  ∃ mid, List.Forall₂ SameFolder folders mid ∧ mid.Perm folders'

theorem SameFolder.name_eq {top top' : Node} (h : SameFolder top top') : top'.name = top.name := by
  cases h with
  | file name text => rfl
  | dir name h => rfl

theorem SameFolder.children_perm {top top' : Node} (h : SameFolder top top') :
    top.children.Perm top'.children := by
  cases h with
  | file name text => exact List.Perm.refl _
  | dir name h => exact h

theorem SameFolder.symm {top top' : Node} (h : SameFolder top top') : SameFolder top' top := by
  cases h with
  | file name text => exact .file name text
  | dir name h => exact .dir name h.symm

theorem exists_of_forall₂ {R : Node → Node → Prop} {l l' : List Node} (h : List.Forall₂ R l l') :
    ∀ a' ∈ l', ∃ a ∈ l, R a a' := by
  induction h with
  | nil => exact fun a ha => absurd ha List.not_mem_nil
  | cons hab _ ih =>
    refine List.forall_mem_cons.mpr ⟨⟨_, List.mem_cons_self, hab⟩, fun a' ha' => ?_⟩
    obtain ⟨a, ha, hR⟩ := ih a' ha'
    exact ⟨a, List.mem_cons_of_mem _ ha, hR⟩

/-- Each folder of the one listing is in the other, with the same files. -/
theorem SameTree.exists_folder (h : SameTree folders folders') :
    (∀ top' ∈ folders', ∃ top ∈ folders, SameFolder top top') ∧
      ∀ top ∈ folders, ∃ top' ∈ folders', SameFolder top' top := by
  obtain ⟨mid, hmid, hperm⟩ := h
  refine ⟨fun top' htop' => exists_of_forall₂ hmid top' (hperm.mem_iff.mpr htop'),
    fun top htop => ?_⟩
  obtain ⟨top', htop', hsame⟩ := exists_of_forall₂ hmid.flip top htop
  exact ⟨top', hperm.mem_iff.mp htop', hsame.symm⟩

theorem SameTree.names_perm (h : SameTree folders folders') :
    (folders.map Node.name).Perm (folders'.map Node.name) := by
  obtain ⟨mid, hmid, hperm⟩ := h
  have hmap : ∀ {l l' : List Node}, List.Forall₂ SameFolder l l' →
      l.map Node.name = l'.map Node.name := by
    intro l l' h
    induction h with
    | nil => rfl
    | cons hab _ ih => exact congrArg₂ List.cons hab.name_eq.symm ih
  exact hmap hmid ▸ hperm.map _

theorem SameTree.original_iff (h : SameTree folders folders') {path : Text × Text} {text : Text} :
    Original folders path text ↔ Original folders' path text := by
  have hstep : ∀ {l l' : List Node}, (∀ top ∈ l, ∃ top' ∈ l', SameFolder top' top) →
      Original l path text → Original l' path text := by
    rintro l l' hl ⟨top, htop, hname, hfile⟩
    obtain ⟨top', htop', hsame⟩ := hl top htop
    refine ⟨top', htop', hsame.name_eq ▸ hname, ?_⟩
    exact (hsame.children_perm.filterMap listed).mem_iff.mpr hfile
  exact ⟨hstep h.exists_folder.2, hstep h.exists_folder.1⟩

theorem SameTree.returns (h : SameTree folders folders') (hret : Returns (convert n folders)) :
    Returns (convert n folders') := by
  rw [returns_convert] at hret ⊢
  intro top' htop'
  obtain ⟨top, htop, hsame⟩ := h.exists_folder.1 top' htop'
  obtain ⟨⟨name, content, rfl⟩, hopen, hfiles⟩ := hret top htop
  obtain ⟨_, content', hperm⟩ : ∃ name' content', top' = .dir name' content' := by
    cases hsame with
    | dir name h => exact ⟨_, _, rfl⟩
  refine ⟨⟨_, content', hperm⟩, fun child hchild => ?_, fun file hfile => ?_⟩
  · exact hopen child (hsame.children_perm.mem_iff.mpr hchild)
  · exact hfiles file ((hsame.children_perm.filterMap listed).mem_iff.mpr hfile)

/-- Where names are different, an original is found at one place only. -/
theorem Original.unique (hnames : WellNamed folders) {path : Text × Text} {text text' : Text}
    (h : Original folders path text) (h' : Original folders path text') : text = text' := by
  obtain ⟨top, htop, hname, hfile⟩ := h
  obtain ⟨top', htop', hname', hfile'⟩ := h'
  obtain rfl := List.inj_on_of_nodup_map hnames.1 htop htop' (hname.trans hname'.symm)
  have hchild := List.inj_on_of_nodup_map (hnames.2 top htop) (mem_listed.mp hfile).2
    (mem_listed.mp hfile').2 rfl
  cases hchild
  rfl

/-! ## Runs that were cut short -/

/-- A run that is cut short changes the files of originals only, and makes their folders only. -/
theorem interrupted_aside (h : SameTree folders folders') (disk : Disk) (k : Nat) :
    (∀ path, (∀ source, ¬ Original folders path source) →
      (disk.after ((convertOps n folders').1.take k)).file path = disk.file path) ∧
    (disk.after ((convertOps n folders').1.take k)).folders ∪ (folders.map Node.name).toFinset
      = disk.folders ∪ (folders.map Node.name).toFinset := by
  constructor
  · intro path hnone
    rw [Disk.after_file, store_eq]
    cases hlast : last path (((convertOps n folders').1.take k).filterMap Op.write) with
    | none => exact Option.none_or
    | some text =>
      have hput := List.mem_of_mem_take (mem_filterMap_write.mp (mem_of_last hlast))
      obtain ⟨source, horiginal, -⟩ := put_of_mem_convertOps hput
      exact absurd (h.original_iff.mpr horiginal) (hnone source)
  · rw [Disk.after_folders, Finset.union_assoc]
    congr 1
    rw [Finset.union_eq_right]
    intro name hname
    rw [List.mem_toFinset] at hname ⊢
    obtain ⟨op, hop, hmakes⟩ := List.mem_filterMap.mp hname
    exact h.names_perm.mem_iff.mpr (folder_of_mem_convertOps (List.mem_of_mem_take hop) hmakes)

/-- The disk after attempts that were cut short, each with its listing of the originals and the
number of operations it came to. -/
def attempted (n : Nat) (disk : Disk) (attempts : List (List Node × Nat)) : Disk :=
  attempts.foldl (fun disk attempt => disk.after ((convertOps n attempt.1).1.take attempt.2)) disk

theorem attempted_aside {attempts : List (List Node × Nat)}
    (h : ∀ attempt ∈ attempts, SameTree folders attempt.1) (disk : Disk) :
    (∀ path, (∀ source, ¬ Original folders path source) →
      (attempted n disk attempts).file path = disk.file path) ∧
    (attempted n disk attempts).folders ∪ (folders.map Node.name).toFinset
      = disk.folders ∪ (folders.map Node.name).toFinset := by
  induction attempts generalizing disk with
  | nil => exact ⟨fun _ _ => rfl, rfl⟩
  | cons attempt attempts ih =>
    obtain ⟨hfirst, hrest⟩ := List.forall_mem_cons.mp h
    obtain ⟨hfile, hfolders⟩ := interrupted_aside (n := n) hfirst disk attempt.2
    obtain ⟨hfile', hfolders'⟩ := ih hrest (disk.after ((convertOps n attempt.1).1.take attempt.2))
    exact ⟨fun path hnone => (hfile' path hnone).trans (hfile path hnone), hfolders'.trans hfolders⟩

/-- **Running it again is enough**: after any attempts that were cut short, a run that gets through
leaves the disk as if it had been the only one, whichever listings the attempts and the run saw. -/
theorem converges (hnames : WellNamed folders) (hret : Returns (convert n folders))
    (attempts : List (List Node × Nat))
    (hattempts : ∀ attempt ∈ attempts, SameTree folders attempt.1)
    (h : SameTree folders folders') (disk : Disk) :
    (convertOps n folders').2 = none ∧
      (attempted n disk attempts).after (convertOps n folders').1
        = disk.after (convertOps n folders).1 := by
  have hret' := h.returns hret
  obtain ⟨hfile, hfolders⟩ := attempted_aside (n := n) hattempts disk
  refine ⟨congrArg Prod.snd (convertOps_complete hret'), Disk.ext ?_ (funext fun path => ?_)⟩
  · rw [completed_folders hret', completed_folders hret, ← hfolders]
    exact congrArg _ (List.toFinset_eq_of_perm _ _ h.names_perm.symm)
  · rcases completed_file hret disk path with
      ⟨hnone, hend⟩ | ⟨source, newfile, horiginal, hnew, hend⟩
    · rcases completed_file hret' (attempted n disk attempts) path with
        ⟨-, hend'⟩ | ⟨source, newfile, horiginal, -, -⟩
      · rw [hend, hend', hfile path hnone]
      · exact absurd (h.original_iff.mpr horiginal) (hnone source)
    · rcases completed_file hret' (attempted n disk attempts) path with
        ⟨hnone, -⟩ | ⟨source', newfile', horiginal', hnew', hend'⟩
      · exact absurd (h.original_iff.mp horiginal) (hnone source)
      · obtain rfl := horiginal.unique hnames (h.original_iff.mpr horiginal')
        rw [hend, hend', Except.ok.inj (hnew.symm.trans hnew')]

/-- Killed when it has emptied the file, and run again when the folder is listed the other way. -/
theorem converges_access :
    ((attempted 2 ⟨∅, fun _ => none⟩ [(access, 2)]).after (convertOps 2
      [.dir "access".toList [.file "Makefile".toList none,
        .file "access01.c".toList (some "int x; // note".toList)]]).1)
      = (Disk.after ⟨∅, fun _ => none⟩ (convertOps 2 access).1) := by
  have hrefl : SameTree access access :=
    ⟨access, .cons (.dir _ (List.Perm.refl _)) .nil, List.Perm.refl _⟩
  refine (converges (by decide) ⟨_, rfl⟩ [(access, 2)] (List.forall_mem_singleton.mpr hrefl) ?_ _).2
  exact ⟨_, .cons (.dir _ (List.Perm.swap _ _ [])) .nil, List.Perm.refl _⟩

end UnikraftSuite
