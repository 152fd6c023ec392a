import UnikraftSuite.RmcommentLoop
import UnikraftSuite.Segments
import Mathlib.Data.List.Nodup
import Mathlib.Data.List.Pairwise

/-!
# Which trees of tests are converted as a whole

`convert.py` should convert every C source of the tree, and none should keep it from going on
(`Covered`). The loops over the folders and over the files of a folder change the output
only after they have converted something (`convert_eq`), so a run returns if and only if every
conversion does, and it writes what they give, folder by folder.

The main result **`covered_iff`** says on which trees that is enough (`Coverable`): the ones
without sources below the first level, on whose files `convertFile` returns.
-/

namespace UnikraftSuite

open PyStr Raise

/-! ## One file -/

/-- `convertFile` returns on the text: the loop of `rmcomment` ends, and the segment loop gets
through every segment of what is left. -/
def TextOk (text : Text) : Prop :=
  ∃ z, squeeze text = some z ∧
    ∀ el ∈ split "static ".toList ((split "\n".toList z).flatMap uncommentLine), SegmentOk el

theorem rmcommentLoop_mono {n m : Nat} (hnm : n ≤ m) {file z : Text}
    (h : rmcommentLoop n file = some z) : rmcommentLoop m file = some z := by
  induction n generalizing m file with
  | zero => cases h
  | succ n ih =>
    obtain ⟨m, rfl⟩ : ∃ m', m = m' + 1 := ⟨m - 1, by omega⟩
    rw [rmcommentLoop] at h ⊢
    split
    · rename_i hopen
      rw [if_pos hopen] at h
      exact ih (by omega) h
    · rename_i hopen
      rwa [if_neg hopen] at h

theorem convertFile_mono {n m : Nat} (hnm : n ≤ m) {text : Text}
    (h : Returns (convertFile n text)) : Returns (convertFile m text) := by
  unfold convertFile rmcomment at h ⊢
  cases hz : rmcommentLoop n text with
  | none =>
    rw [hz] at h
    exact absurd h (not_returns_error _)
  | some z =>
    rw [hz] at h
    rw [rmcommentLoop_mono hnm hz]
    exact h

/-- With some number of turns a file is converted if and only if its text is fine. -/
theorem exists_returns_convertFile (text : Text) :
    (∃ n, Returns (convertFile n text)) ↔ TextOk text := by
  have hloop : ∀ z, squeeze text = some z ↔ ∃ n, rmcommentLoop n text = some z :=
    fun _ => rmcommentLoop_iff_squeeze
  have hconvert : ∀ n z, rmcommentLoop n text = some z → (Returns (convertFile n text) ↔
      ∀ el ∈ split "static ".toList ((split "\n".toList z).flatMap uncommentLine),
        SegmentOk el) := by
    intro n z hz
    rw [← convertText_returns_iff, convertFile, rmcomment, hz]
    exact returns_mapError
  constructor
  · rintro ⟨n, h⟩
    cases hz : rmcommentLoop n text with
    | none =>
      rw [convertFile, rmcomment, hz] at h
      exact absurd h (not_returns_error _)
    | some z => exact ⟨z, (hloop z).mpr ⟨n, hz⟩, (hconvert n z hz).mp h⟩
  · rintro ⟨z, hz, hok⟩
    obtain ⟨n, hn⟩ := (hloop z).mp hz
    exact ⟨n, (hconvert n z hn).mpr hok⟩

/-- One number of turns is enough for all files of a list. -/
theorem exists_returns_all {texts : List Text} (h : ∀ text ∈ texts, TextOk text) :
    ∃ n, ∀ text ∈ texts, Returns (convertFile n text) := by
  induction texts with
  | nil => exact ⟨0, fun text ht => absurd ht List.not_mem_nil⟩
  | cons text texts ih =>
    obtain ⟨hhead, htail⟩ := List.forall_mem_cons.mp h
    obtain ⟨n, hn⟩ := ih htail
    obtain ⟨m, hm⟩ := (exists_returns_convertFile text).mpr hhead
    refine ⟨max n m, List.forall_mem_cons.mpr ⟨convertFile_mono (Nat.le_max_right n m) hm, ?_⟩⟩
    exact fun text ht => convertFile_mono (Nat.le_max_left n m) (hn text ht)

/-! ## One folder -/

/-- The text and the name of a file that `getFiles` returns. -/
def listed : Node → Option (Text × Text)
  | .file name (some text) => if ".c".toList <:+: name then some (text, name) else none
  | .file _ none => none
  | .dir _ _ => none

/-- `getFiles` opens it, and it is a directory. -/
def Unopenable : Node → Prop
  | .dir name _ => ".c".toList <:+: name
  | .file _ _ => False

theorem getFile_of_openable {node : Node} (h : ¬ Unopenable node) (files : List (Text × Text)) :
    getFile files node = .ok (files ++ (listed node).toList) := by
  cases node with
  | dir name children =>
    have hname : ¬ ".c".toList <:+: name := h
    rw [getFile, if_neg hname, listed]
    exact congrArg Except.ok (List.append_nil files).symm
  | file name text =>
    cases text with
    | none => exact congrArg Except.ok (List.append_nil files).symm
    | some text =>
      by_cases hname : ".c".toList <:+: name
      · rw [getFile, listed, if_pos hname, if_pos hname]
        rfl
      · rw [getFile, listed, if_neg hname, if_neg hname]
        exact congrArg Except.ok (List.append_nil files).symm

theorem getFile_of_unopenable {node : Node} (h : Unopenable node) (files : List (Text × Text)) :
    getFile files node = .error .isADirectoryError := by
  cases node with
  | dir name children => exact if_pos h
  | file name text => exact absurd h not_false

/-- What `getFiles` returns: the readable files with `.c` in their name. -/
theorem getFiles_eq {content : List Node} (h : ∀ node ∈ content, ¬ Unopenable node) :
    getFiles content = .ok (content.filterMap listed) := by
  have hloop : ∀ (content : List Node) (files : List (Text × Text)),
      (∀ node ∈ content, ¬ Unopenable node) →
        content.foldlM getFile files = .ok (files ++ content.filterMap listed) := by
    intro content
    induction content with
    | nil => exact fun files _ => congrArg Except.ok (List.append_nil files).symm
    | cons node content ih =>
      intro files h
      obtain ⟨hnode, h⟩ := List.forall_mem_cons.mp h
      rw [List.foldlM_cons, getFile_of_openable hnode, ok_bind, ih _ h]
      cases hlisted : listed node with
      | none => rw [List.filterMap_cons_none hlisted]; simp
      | some file => rw [List.filterMap_cons_some hlisted]; simp
  exact hloop content [] h

theorem returns_getFiles {content : List Node} :
    Returns (getFiles content) ↔ ∀ node ∈ content, ¬ Unopenable node := by
  refine ⟨fun h node hnode hbad => ?_, fun h => ⟨_, getFiles_eq h⟩⟩
  have hloop : ∀ files, ¬ Returns (content.foldlM getFile files) := by
    clear h
    induction content with
    | nil => cases hnode
    | cons node' content ih =>
      intro files h
      rw [List.foldlM_cons, returns_bind] at h
      obtain ⟨files', hstep, h⟩ := h
      rcases List.mem_cons.mp hnode with rfl | hnode
      · rw [getFile_of_unopenable hbad] at hstep
        cases hstep
      · exact ih hnode files' h
  exact hloop [] h

/-- What `convertFiles` writes for a folder, and the name of the folder. -/
def folderFiles (n : Nat) : Node → Except Halt (Text × List ((Text × Text) × Text))
  | .file _ _ => .error (.raised .notADirectoryError)
  | .dir folder content => do
    let files ← (getFiles content).mapError Halt.raised
    let written ← files.mapM fun file => (convertFile n file.1).map (((folder, file.2), ·))
    return (folder, written)

/-- The output after a folder. -/
def Output.add (out : Output) (folder : Text × List ((Text × Text) × Text)) : Output :=
  ⟨if folder.1 ∈ out.folders then out.folders else out.folders ++ [folder.1],
    out.files ++ folder.2⟩

theorem foldl_write (out : Output) (written : List ((Text × Text) × Text)) :
    written.foldl (fun out file => { out with files := out.files ++ [file] }) out
      = { out with files := out.files ++ written } := by
  induction written generalizing out with
  | nil => rw [List.append_nil]; rfl
  | cons file written ih => rw [List.foldl_cons, ih]; simp

/-- A folder is converted before anything of it is written. -/
theorem convertFiles_eq (n : Nat) (out : Output) (node : Node) :
    convertFiles n out node = (folderFiles n node).map out.add := by
  cases node with
  | file name text => rfl
  | dir folder content =>
    rw [convertFiles, folderFiles]
    cases getFiles content with
    | error e => rfl
    | ok files =>
      -- the folder is made first, if it is not there yet
      let out' := if folder ∈ out.folders then out
        else { out with folders := out.folders ++ [folder] }
      have hturn : ∀ (out : Output) (file : Text × Text),
          (do let newfile ← convertFile n file.1
              return { out with files := out.files ++ [((folder, file.2), newfile)] })
            = ((convertFile n file.1).map (((folder, file.2), ·))).map fun file =>
                { out with files := out.files ++ [file] } := by
        intro out file
        cases convertFile n file.1 with
        | error e => rfl
        | ok newfile => rfl
      show List.foldlM _ out' files = _
      simp only [hturn]
      rw [foldlM_map]
      show _ = Except.map out.add (List.mapM _ files >>= fun written => pure (folder, written))
      cases files.mapM fun file => (convertFile n file.1).map (((folder, file.2), ·)) with
      | error e => rfl
      | ok written =>
        refine congrArg Except.ok ((foldl_write out' written).trans ?_)
        rw [Output.add]
        by_cases hfolder : folder ∈ out.folders
        · simp [out', hfolder]
        · simp [out', hfolder]

/-- **A run converts folder by folder**, and fails where a folder does. -/
theorem convert_eq (n : Nat) (folders : List Node) :
    convert n folders = (folders.mapM (folderFiles n)).map (List.foldl Output.add ⟨[], []⟩) := by
  rw [convert, ← foldlM_map]
  congr 1
  funext out node
  exact convertFiles_eq n out node

theorem files_foldl_add (out : Output) (written : List (Text × List ((Text × Text) × Text))) :
    (written.foldl Output.add out).files = out.files ++ written.flatMap Prod.snd := by
  induction written generalizing out with
  | nil => exact (List.append_nil _).symm
  | cons folder written ih =>
    rw [List.foldl_cons, ih, List.flatMap_cons, Output.add, List.append_assoc]

/-- What is written for a folder, if it is converted. -/
theorem folderFiles_eq_ok {n : Nat} {top : Node} {written : Text × List ((Text × Text) × Text)} :
    folderFiles n top = .ok written ↔ ∃ folder content, top = .dir folder content ∧
      (∀ child ∈ content, ¬ Unopenable child) ∧ written.1 = folder ∧
      (content.filterMap listed).mapM (fun file =>
        (convertFile n file.1).map (((folder, file.2), ·))) = .ok written.2 := by
  cases top with
  | file name text =>
    constructor
    · intro h
      cases h
    · rintro ⟨folder, content, h, -⟩
      cases h
  | dir folder content =>
    rw [folderFiles]
    by_cases hopen : ∀ child ∈ content, ¬ Unopenable child
    · rw [getFiles_eq hopen]
      show ((content.filterMap listed).mapM (fun file =>
          (convertFile n file.1).map (((folder, file.2), ·))) >>= fun written =>
        pure (folder, written)) = .ok written ↔ _
      rw [bind_eq_ok]
      constructor
      · rintro ⟨files, hfiles, h⟩
        cases h
        exact ⟨folder, content, rfl, hopen, rfl, hfiles⟩
      · rintro ⟨folder', content', h, -, hfolder, hfiles⟩
        cases h
        exact ⟨written.2, hfiles, by rw [← hfolder]; rfl⟩
    · -- a child that cannot be opened raises before any text is converted
      refine iff_of_false (fun h => ?_) ?_
      · obtain ⟨files, hfiles, -⟩ := bind_eq_ok.mp h
        exact hopen (returns_getFiles.mp (returns_mapError.mp ⟨files, hfiles⟩))
      · rintro ⟨folder', content', h, hopen', -⟩
        cases h
        exact hopen hopen'

/-! ## The sources of a tree -/

def Node.children : Node → List Node
  | .file _ _ => []
  | .dir _ children => children

/- The C sources in a node and in the nodes of a list, at any depth: their names and texts. -/
mutual

def Node.sources : Node → List (Text × Option Text)
  | .file name text => if ".c".toList <:+ name then [(name, text)] else []
  | .dir _ children => sourcesIn children

def sourcesIn : List Node → List (Text × Option Text)
  | [] => []
  | node :: rest => node.sources ++ sourcesIn rest

end

theorem sourcesIn_eq (nodes : List Node) : sourcesIn nodes = nodes.flatMap Node.sources := by
  induction nodes with
  | nil => rfl
  | cons node nodes ih => rw [sourcesIn, ih, List.flatMap_cons]

/-- The entries of `./original tests` and of its folders have different names. -/
def WellNamed (folders : List Node) : Prop :=
  (folders.map Node.name).Nodup ∧ ∀ top ∈ folders, (top.children.map Node.name).Nodup

/-- Every C source is readable text. -/
def AllReadable (folders : List Node) : Prop :=
  ∀ top ∈ folders, ∀ source ∈ top.sources, source.2 ≠ none

instance (folders : List Node) : Decidable (WellNamed folders) :=
  inferInstanceAs (Decidable (_ ∧ ∀ top ∈ folders, _))

instance (folders : List Node) : Decidable (AllReadable folders) :=
  inferInstanceAs (Decidable (∀ top ∈ folders, ∀ source ∈ top.sources, source.2 ≠ none))

/-- The path of the converted file of a source: the top-level folder and the name. -/
def target (top : Node) (source : Text × Option Text) : Text × Text := (top.name, source.1)

/-- **The conversion covers the tree**: no exception is raised, and every source has a
converted file of its own. -/
def Covered (n : Nat) (folders : List Node) : Prop :=
  ∃ out, convert n folders = .ok out ∧
    (∀ top ∈ folders, ∀ source ∈ top.sources, ∃ text newfile, source.2 = some text ∧
      convertFile n text = .ok newfile ∧ (target top source, newfile) ∈ out.files) ∧
    (folders.flatMap fun top => top.sources.map (target top)).Nodup

/-- The trees that are covered. -/
structure Coverable (folders : List Node) : Prop where
  folder : ∀ top ∈ folders, ∃ name content, top = .dir name content
  openable : ∀ top ∈ folders, ∀ child ∈ top.children, ¬ Unopenable child
  flat : ∀ top ∈ folders, ∀ name content, .dir name content ∈ top.children →
    sourcesIn content = []
  texts : ∀ top ∈ folders, ∀ file ∈ top.children.filterMap listed, TextOk file.1

theorem mem_listed {content : List Node} {text name : Text} :
    (text, name) ∈ content.filterMap listed ↔
      ".c".toList <:+: name ∧ .file name (some text) ∈ content := by
  rw [List.mem_filterMap]
  constructor
  · rintro ⟨node, hnode, h⟩
    unfold listed at h
    split at h
    · split at h
      · rename_i hname
        cases h
        exact ⟨hname, hnode⟩
      · cases h
    · cases h
    · cases h
  · rintro ⟨hname, hnode⟩
    exact ⟨_, hnode, if_pos hname⟩

mutual

theorem suffix_of_mem_sources : ∀ (node : Node) {source : Text × Option Text},
    source ∈ node.sources → ".c".toList <:+ source.1
  | .file name text, source, h => by
    rw [Node.sources] at h
    split at h
    · rename_i hname
      rwa [List.mem_singleton.mp h]
    · cases h
  | .dir _ children, _, h => suffix_of_mem_sourcesIn children h

theorem suffix_of_mem_sourcesIn : ∀ (nodes : List Node) {source : Text × Option Text},
    source ∈ sourcesIn nodes → ".c".toList <:+ source.1
  | [], _, h => absurd h List.not_mem_nil
  | node :: rest, _, h => (List.mem_append.mp h).elim (suffix_of_mem_sources node)
      (suffix_of_mem_sourcesIn rest)

end

/-- Without sources below the first level, a source is a file of the folder. -/
theorem mem_sources_of_flat {content : List Node}
    (hflat : ∀ name content', .dir name content' ∈ content → sourcesIn content' = [])
    {source : Text × Option Text} (h : source ∈ sourcesIn content) :
    ".c".toList <:+ source.1 ∧ .file source.1 source.2 ∈ content := by
  rw [sourcesIn_eq] at h
  obtain ⟨child, hchild, h⟩ := List.mem_flatMap.mp h
  cases child with
  | dir name content' =>
    rw [Node.sources, hflat name content' hchild] at h
    cases h
  | file name text =>
    rw [Node.sources] at h
    split at h
    · rename_i hname
      rw [List.mem_singleton.mp h]
      exact ⟨hname, hchild⟩
    · cases h

theorem names_sublist_of_flat {content : List Node}
    (hflat : ∀ name content', .dir name content' ∈ content → sourcesIn content' = []) :
    ((sourcesIn content).map Prod.fst).Sublist (content.map Node.name) := by
  induction content with
  | nil => exact List.Sublist.slnil
  | cons child content ih =>
    have htail := ih fun name content' h => hflat name content' (List.mem_cons_of_mem _ h)
    rw [sourcesIn, List.map_append, List.map_cons]
    cases child with
    | dir name content' =>
      rw [Node.sources, hflat name content' List.mem_cons_self]
      exact htail.cons _
    | file name text =>
      rw [Node.sources]
      split
      · exact htail.cons_cons _
      · exact htail.cons _

/-! ## The main result -/

variable {n : Nat} {folders : List Node}

theorem returns_convert : Returns (convert n folders) ↔
    ∀ top ∈ folders, (∃ name content, top = .dir name content) ∧
      (∀ child ∈ top.children, ¬ Unopenable child) ∧
      ∀ file ∈ top.children.filterMap listed, Returns (convertFile n file.1) := by
  rw [convert_eq, returns_map, returns_mapM]
  refine forall₂_congr fun top _ => ?_
  constructor
  · rintro ⟨written, h⟩
    obtain ⟨folder, content, rfl, hopen, -, hfiles⟩ := folderFiles_eq_ok.mp h
    refine ⟨⟨folder, content, rfl⟩, hopen, fun file hfile => ?_⟩
    exact returns_map.mp (returns_mapM.mp ⟨_, hfiles⟩ file hfile)
  · rintro ⟨⟨folder, content, rfl⟩, hopen, hfiles⟩
    obtain ⟨written, hwritten⟩ := returns_mapM.mpr fun file hfile =>
      returns_map (f := (((folder, file.2), ·) : Text → (Text × Text) × Text)).mpr
        (hfiles file hfile)
    exact ⟨(folder, written), folderFiles_eq_ok.mpr ⟨folder, content, rfl, hopen, rfl, hwritten⟩⟩

/-- What a run writes, and where. -/
theorem mem_files {out : Output} (h : convert n folders = .ok out) {path : Text × Text}
    {newfile : Text} :
    (path, newfile) ∈ out.files ↔ ∃ top ∈ folders, top.name = path.1 ∧
      ∃ text, (text, path.2) ∈ top.children.filterMap listed ∧
        convertFile n text = .ok newfile := by
  rw [convert_eq, map_eq_ok] at h
  obtain ⟨written, hwritten, rfl⟩ := h
  rw [files_foldl_add, List.nil_append, List.mem_flatMap]
  constructor
  · rintro ⟨w, hw, hmem⟩
    obtain ⟨top, htop, hfolder⟩ := (mem_mapM hwritten).mp hw
    obtain ⟨folder, content, rfl, -, -, hfiles⟩ := folderFiles_eq_ok.mp hfolder
    obtain ⟨⟨text, name⟩, hfile, hconvert⟩ := (mem_mapM hfiles).mp hmem
    obtain ⟨newfile', hnew, heq⟩ := map_eq_ok.mp hconvert
    cases heq
    exact ⟨_, htop, rfl, text, hfile, hnew⟩
  · rintro ⟨top, htop, hname, text, hfile, hnew⟩
    obtain ⟨w, hfolder⟩ := returns_mapM.mp ⟨written, hwritten⟩ top htop
    obtain ⟨folder, content, rfl, -, -, hfiles⟩ := folderFiles_eq_ok.mp hfolder
    refine ⟨w, (mem_mapM hwritten).mpr ⟨_, htop, hfolder⟩, (mem_mapM hfiles).mpr ⟨_, hfile, ?_⟩⟩
    exact map_eq_ok.mpr ⟨newfile, hnew, congrArg (·, newfile) (Prod.ext hname rfl)⟩

/-- A source below the first level has no converted file of its own. -/
theorem sourcesIn_eq_nil {out : Output} (hout : convert n folders = .ok out)
    (hnames : WellNamed folders)
    (hwritten : ∀ top ∈ folders, ∀ source ∈ top.sources, ∃ newfile,
      (target top source, newfile) ∈ out.files)
    (hown : (folders.flatMap fun top => top.sources.map (target top)).Nodup)
    {top : Node} (htop : top ∈ folders) {name : Text} {content : List Node}
    (hdir : .dir name content ∈ top.children) : sourcesIn content = [] := by
  by_contra hne
  obtain ⟨source, hsource⟩ := List.exists_mem_of_ne_nil _ hne
  obtain ⟨folder, children, rfl⟩ := (returns_convert.mp ⟨out, hout⟩ top htop).1
  have hdirSource : source ∈ (Node.dir name content).sources := hsource
  have hmem : source ∈ (Node.dir folder children).sources := by
    rw [Node.sources, sourcesIn_eq]
    exact List.mem_flatMap.mpr ⟨_, hdir, hdirSource⟩
  obtain ⟨newfile, hnew⟩ := hwritten _ htop source hmem
  obtain ⟨top', htop', hname, text, hfile, -⟩ := (mem_files hout).mp hnew
  obtain rfl : top' = .dir folder children := List.inj_on_of_nodup_map hnames.1 htop' htop hname
  obtain ⟨-, hfile⟩ := mem_listed.mp hfile
  -- the file that was written is the one of another source, a file of the folder
  have hsuffix := suffix_of_mem_sources (.dir name content) hdirSource
  have hfileSource : (source.1, some text) ∈ (Node.file source.1 (some text)).sources := by
    rw [Node.sources, if_pos hsuffix]
    exact List.mem_singleton_self _
  have hfolder := (List.nodup_flatMap.mp hown).1 _ htop
  rw [Node.sources, sourcesIn_eq, List.map_flatMap, List.nodup_flatMap] at hfolder
  have hsymm : Std.Symm (Function.onFun List.Disjoint fun node : Node =>
      node.sources.map (target (.dir folder children))) :=
    ⟨fun _ _ h _ hx hx' => h hx' hx⟩
  have hdisjoint := hfolder.2.forall hdir hfile nofun
  exact hdisjoint (List.mem_map_of_mem hdirSource) (List.mem_map.mpr ⟨_, hfileSource, rfl⟩)

/-- **The conversion covers a tree** of readable sources if and only if the tree is
`Coverable`. -/
theorem covered_iff (hnames : WellNamed folders) (hread : AllReadable folders) :
    (∃ n, Covered n folders) ↔ Coverable folders := by
  constructor
  · rintro ⟨n, out, hout, hwritten, hown⟩
    have hreturns := returns_convert.mp ⟨out, hout⟩
    exact {
      folder := fun top htop => (hreturns top htop).1
      openable := fun top htop => (hreturns top htop).2.1
      flat := fun top htop name content hdir => sourcesIn_eq_nil hout hnames
        (fun top htop source hsource =>
          have ⟨_, newfile, _, _, hnew⟩ := hwritten top htop source hsource
          ⟨newfile, hnew⟩) hown htop hdir
      texts := fun top htop file hfile =>
        (exists_returns_convertFile file.1).mp ⟨n, (hreturns top htop).2.2 file hfile⟩ }
  · intro h
    have htexts : ∀ text ∈ (folders.flatMap fun top => top.children.filterMap listed).map Prod.fst,
        TextOk text := by
      intro text htext
      obtain ⟨file, hfile, rfl⟩ := List.mem_map.mp htext
      obtain ⟨top, htop, hfile⟩ := List.mem_flatMap.mp hfile
      exact h.texts top htop file hfile
    -- one number of iterations that is enough for all texts
    obtain ⟨n, hn⟩ := exists_returns_all htexts
    have hconvert : ∀ top ∈ folders, ∀ file ∈ top.children.filterMap listed,
        Returns (convertFile n file.1) := fun top htop file hfile =>
      hn file.1 (List.mem_map.mpr ⟨file, List.mem_flatMap.mpr ⟨top, htop, hfile⟩, rfl⟩)
    obtain ⟨out, hout⟩ := returns_convert.mpr fun top htop =>
      ⟨h.folder top htop, h.openable top htop, hconvert top htop⟩
    refine ⟨n, out, hout, fun top htop source hsource => ?_, ?_⟩
    · obtain ⟨folder, content, rfl⟩ := h.folder top htop
      obtain ⟨hname, hfile⟩ := mem_sources_of_flat (h.flat _ htop) hsource
      obtain ⟨text, htext⟩ := Option.ne_none_iff_exists'.mp (hread _ htop source hsource)
      have hlisted : (text, source.1) ∈ content.filterMap listed :=
        mem_listed.mpr ⟨hname.isInfix, htext ▸ hfile⟩
      obtain ⟨newfile, hnew⟩ := hconvert _ htop _ hlisted
      exact ⟨text, newfile, htext, hnew, (mem_files hout).mpr ⟨_, htop, rfl, text, hlisted, hnew⟩⟩
    · -- no file is written twice: names differ within a folder, and folders have different names
      rw [List.nodup_flatMap]
      refine ⟨fun top htop => ?_, (List.pairwise_map.mp hnames.1).imp fun hne => ?_⟩
      · obtain ⟨folder, content, rfl⟩ := h.folder top htop
        have hsub := names_sublist_of_flat (h.flat _ htop)
        have hnodup := (hsub.nodup (hnames.2 _ htop)).map
          (f := Prod.mk folder) fun _ _ heq => (Prod.mk.inj heq).2
        rwa [List.map_map] at hnodup
      · rintro path hpath hpath'
        obtain ⟨_, -, rfl⟩ := List.mem_map.mp hpath
        obtain ⟨_, -, heq⟩ := List.mem_map.mp hpath'
        exact hne (congrArg Prod.fst heq).symm

/-- A folder with a source and a file that is none. -/
def access : List Node :=
  [.dir "access".toList [.file "access01.c".toList (some "int x; // note".toList),
    .file "Makefile".toList none]]

theorem covered_access : ∃ n, Covered n access := by
  have htext : TextOk "int x; // note".toList := ⟨"int x; // note".toList, by decide, by decide⟩
  refine (covered_iff (by decide) (by decide)).mpr ⟨?_, ?_, ?_, ?_⟩
  · exact List.forall_mem_singleton.mpr ⟨_, _, rfl⟩
  · simp [access, Node.children, Unopenable]
  · simp [access, Node.children]
  · refine List.forall_mem_singleton.mpr fun file hfile => ?_
    obtain ⟨-, hmem⟩ := mem_listed.mp hfile
    simp only [Node.children, List.mem_cons, List.not_mem_nil, or_false, Node.file.injEq,
      Option.some.injEq, reduceCtorEq, and_false] at hmem
    rw [hmem.2]
    exact htext

/-- The sources of `ipc` are in folders of their own: none is converted. -/
def ipc : List Node :=
  [.dir "ipc".toList
    [.dir "msgctl".toList [.file "msgctl01.c".toList (some "int x; // note".toList)]]]

theorem not_covered_ipc :
    WellNamed ipc ∧ AllReadable ipc ∧ ¬ ∃ n, Covered n ipc := by
  refine ⟨by decide, by decide, ?_⟩
  rintro ⟨n, out, hout, hwritten, -⟩
  obtain ⟨_, newfile, -, -, hnew⟩ := hwritten _ (List.mem_singleton_self _)
    ("msgctl01.c".toList, some "int x; // note".toList) (by decide)
  obtain ⟨top, htop, -, text, hfile, -⟩ := (mem_files hout).mp hnew
  rw [List.mem_singleton.mp htop] at hfile
  cases hfile

end UnikraftSuite
