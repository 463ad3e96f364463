import RegMap.Command.Generate
import RegMap.Proofs.Description.Belonging
import RegMap.Proofs.Files.Tree

/-!
What is in the output directory when the files of a description have been written one after the
other. A file that is written again at the same place is lost, so at each place there is the last
one that was written there. Nothing keeps the groups of a description from having the same name, nor
a name from leading out of the directory.
-/

set_option autoImplicit false

namespace RegMap.Command.Generate

open Description Files
open Markup (events)

section

variable {description directory : String} {t : Tree} {d l place : Location} {file : GeneratedFile}
  {files : List GeneratedFile}

/-- Those before the first that cannot be written. -/
def written (t : Tree) (directory : String) (files : List GeneratedFile) : List GeneratedFile :=
  files.takeWhile fun file => (t.target (join directory file.name)).isOk

def lastAt (t : Tree) (directory : String) (files : List GeneratedFile) (l : Location) :
    Option GeneratedFile :=
  ((written t directory files).filter fun file =>
    t.target (join directory file.name) = .ok l).getLast?

def node (description : String) (file : GeneratedFile) : Node :=
  .file (.ofText (contents description file))

theorem isOk_iff {path : String} : (t.target path).isOk = true ↔ ∃ l, t.target path = .ok l := by
  cases t.target path with
  | error fault => simp [Except.isOk, Except.toBool]
  | ok l => simp [Except.isOk, Except.toBool]

theorem not_directory_of_target {path : String} (h : t.target path = .ok l) :
    t.node? l ≠ some .directory := (Tree.target_eq_ok_iff.mp h).2.2

theorem writeFiles_of_error {fault : Fault}
    (h : t.target (join directory file.name) = .error fault) :
    (writeFiles description directory (file :: files) : StateM Tree Run) t =
      (⟨[], .failed (report ("failed to write ".toList ++ (join directory file.name).toList)
        [fault.message.toList])⟩, t) := by
  have hwrite : (Access.write (join directory file.name) (.ofText (contents description file)) :
      StateM Tree (Except Fault Unit)) t = (.error fault, t) := by
    simp only [Access.write, update, Tree.write, h]
    rfl
  rw [writeFiles, bind_run, hwrite]
  rfl

theorem writeFiles_of_ok (h : t.target (join directory file.name) = .ok l) :
    (writeFiles description directory (file :: files) : StateM Tree Run) t =
      let after := (writeFiles description directory files : StateM Tree Run)
        (t.put l (node description file))
      (⟨⟨.info, "wrote ".toList ++ (join directory file.name).toList⟩ :: after.1.log,
        after.1.ending⟩, after.2) := by
  have hwrite : (Access.write (join directory file.name) (.ofText (contents description file)) :
      StateM Tree (Except Fault Unit)) t = (.ok (), t.put l (node description file)) := by
    simp only [Access.write, update, Tree.write, h]
    rfl
  rw [writeFiles, bind_run, hwrite]
  rfl

/-- A file that has been written changes nothing of which others can be, and where. -/
theorem written_put (h : t.node? l ≠ some .directory) (content : Bytes) :
    written (t.put l (.file content)) directory files = written t directory files := by
  refine congrArg (List.takeWhile · files) (funext fun file => ?_)
  rw [Bool.eq_iff_iff, isOk_iff, isOk_iff]
  exact exists_congr fun _ => Tree.target_put h _

theorem lastAt_put (h : t.node? l ≠ some .directory) (content : Bytes) :
    lastAt (t.put l (.file content)) directory files place = lastAt t directory files place := by
  simp only [lastAt, written_put h, Tree.target_put h]

theorem lastAt_cons (h : t.target (join directory file.name) = .ok l) :
    lastAt t directory (file :: files) place =
      (lastAt t directory files place).or (if l = place then some file else none) := by
  have hwritten : written t directory (file :: files) = file :: written t directory files :=
    List.takeWhile_cons_of_pos (isOk_iff.mpr ⟨l, h⟩)
  rw [lastAt, hwritten]
  by_cases hl : l = place
  · rw [List.filter_cons_of_pos (by simp [h, hl]), List.getLast?_cons, if_pos hl]
    unfold lastAt
    cases List.getLast? _ <;> rfl
  · rw [List.filter_cons_of_neg (by simp [h, hl]), if_neg hl, Option.or_none]
    rfl

/-- When the writing has ended, each place holds the last file that was written there, or else what
it held before. -/
theorem node?_writeFiles (description directory : String) (files : List GeneratedFile) (t : Tree)
    (place : Location) :
    ((writeFiles description directory files : StateM Tree Run) t).2.node? place =
      ((lastAt t directory files place).map (node description)).or (t.node? place) := by
  induction files generalizing t with
  | nil => rfl
  | cons file files ih =>
    cases h : t.target (join directory file.name) with
    | error fault =>
      have hnone : written t directory (file :: files) = [] :=
        List.takeWhile_cons_of_neg (by simp [h, Except.isOk, Except.toBool])
      rw [writeFiles_of_error h, lastAt, hnone]
      rfl
    | ok l =>
      have hdir := not_directory_of_target h
      rw [writeFiles_of_ok h, ih, node, lastAt_put hdir, lastAt_cons h]
      by_cases hl : l = place
      · rw [if_pos hl, hl, Tree.node?_put_self (hl ▸ Tree.node?_ne_directory hdir)]
        cases lastAt t directory files place <;> rfl
      · rw [if_neg hl, Tree.node?_put_of_ne (Ne.symm hl), Option.or_none]

/-- The writing ends well just if each file can be written. -/
theorem writeFiles_done : ((writeFiles description directory files : StateM Tree Run) t).1.ending =
    .done [] ↔ ∀ file ∈ files, ∃ l, t.target (join directory file.name) = .ok l := by
  induction files generalizing t with
  | nil => exact ⟨fun _ => nofun, fun _ => rfl⟩
  | cons file files ih =>
    rw [List.forall_mem_cons]
    cases h : t.target (join directory file.name) with
    | error fault =>
      rw [writeFiles_of_error h]
      exact ⟨nofun, fun hall => nomatch hall.1⟩
    | ok l =>
      rw [writeFiles_of_ok h]
      refine ih.trans ⟨fun hall => ⟨⟨l, rfl⟩, fun file hfile => ?_⟩, fun hall file hfile => ?_⟩
      · obtain ⟨place, hplace⟩ := hall file hfile
        exact ⟨place, (Tree.target_put (not_directory_of_target h) _).mp hplace⟩
      · obtain ⟨place, hplace⟩ := hall.2 file hfile
        exact ⟨place, (Tree.target_put (not_directory_of_target h) _).mpr hplace⟩

theorem leadsTo_put (h : t.node? l ≠ some .directory) (content : Bytes)
    (hd : t.LeadsTo directory d) : (t.put l (.file content)).LeadsTo directory d := by
  obtain ⟨hlocate, hnode⟩ := hd
  rw [Tree.locate_eq_ok_iff] at hlocate
  have hne : d ≠ l := fun hdl => h (hdl ▸ hnode)
  refine ⟨Tree.locate_eq_ok_iff.mpr ⟨hlocate.1, ?_⟩, ?_⟩
  · exact (Tree.walk_put h _ _).mpr hlocate.2
  · rw [Tree.node?_put_of_ne hne, hnode]

theorem leadsTo_writeFiles (hd : t.LeadsTo directory d) :
    ((writeFiles description directory files : StateM Tree Run) t).2.LeadsTo directory d := by
  induction files generalizing t with
  | nil => exact hd
  | cons file files ih =>
    cases h : t.target (join directory file.name) with
    | error fault => rwa [writeFiles_of_error h]
    | ok l =>
      rw [writeFiles_of_ok h]
      exact ih (leadsTo_put (not_directory_of_target h) _ hd)

end

section

variable {description directory : String} {settings : Settings} {text : List Char} {t : Tree}
  {d l : Location} {file : GeneratedFile} {files : List GeneratedFile}

/-- Each group of the description has a file of its own directly in the directory, with the module
of the group behind the header. -/
def Kept (settings : Settings) (text : List Char) (description : String) (d : Location)
    (t : Tree) : Prop :=
  ∃ name : Nat → String, Set.InjOn name {j | j ∈ groupPositions (events text).items} ∧
    ∀ j ∈ groupPositions (events text).items, ∃ g,
      groupAt? home settings (events text).items j = some g ∧
        t.content? (d ++ [name j]) = some (.ofText (contents description g.file))

theorem groups_of_generate (h : (generate settings text).result = .ok files) :
    ∃ gs, (load settings text).result = .ok gs ∧ gs.map RegisterGroup.file = files := by
  obtain ⟨gs, hgs, h⟩ := Loading.ok_of_bind h
  exact ⟨gs, hgs, Except.ok.inj h⟩

theorem generate_of_load {gs : List RegisterGroup} (h : (load settings text).result = .ok gs) :
    (generate settings text).result = .ok (gs.map RegisterGroup.file) := by
  rw [generate, Loading.bind_of_ok h]
  rfl

theorem getLast?_fileName (g : RegisterGroup) : g.fileName.toList.getLast? = some 'v' := by
  simp [RegisterGroup.fileName, List.getLast?_append]

variable (hfiles : (generate settings text).result = .ok files) (hd : t.LeadsTo directory d)
  (hslash : ∀ file ∈ files, '/' ∉ file.name.toList)

include hfiles hd hslash in
theorem target_generated (hfile : file ∈ files) : t.target (join directory file.name) = .ok l ↔
    l = d ++ [file.name] ∧ t.Fits directory d file.name := by
  obtain ⟨gs, -, rfl⟩ := groups_of_generate hfiles
  obtain ⟨g, hg, rfl⟩ := List.mem_map.mp hfile
  have hlast := getLast?_fileName g
  refine Tree.target_join hd (hslash _ hfile) ?_ ?_ ?_ <;>
  · intro hname
    rw [show g.fileName = _ from hname] at hlast
    exact absurd hlast (by decide)

include hfiles hd hslash in
theorem done_iff_fits : ((writeFiles description directory files : StateM Tree Run) t).1.ending =
    .done [] ↔ ∀ file ∈ files, t.Fits directory d file.name := by
  refine writeFiles_done.trans (forall₂_congr fun file hfile => ?_)
  simp only [target_generated hfiles hd hslash hfile]
  exact ⟨fun ⟨_, _, h⟩ => h, fun h => ⟨_, rfl, h⟩⟩

include hfiles hd hslash in
theorem content?_writeFiles (hfits : ∀ file ∈ files, t.Fits directory d file.name)
    (hfile : file ∈ files) :
    ((writeFiles description directory files : StateM Tree Run) t).2.content? (d ++ [file.name]) =
      ((files.filter (·.name = file.name)).getLast?).map fun file =>
        .ofText (contents description file) := by
  have hwritten : written t directory files = files := by
    refine List.takeWhile_eq_self_iff.mpr fun other hother => ?_
    refine isOk_iff.mpr ⟨d ++ [other.name], ?_⟩
    exact (target_generated hfiles hd hslash hother).mpr ⟨rfl, hfits other hother⟩
  have hlast : lastAt t directory files (d ++ [file.name]) =
      (files.filter (·.name = file.name)).getLast? := by
    rw [lastAt, hwritten]
    refine congrArg List.getLast? (List.filter_congr fun other hother => decide_eq_decide.mpr ?_)
    rw [target_generated hfiles hd hslash hother]
    simp [hfits other hother, eq_comm]
  rw [Tree.content?, node?_writeFiles, hlast]
  cases hother : (files.filter (·.name = file.name)).getLast? with
  | none =>
    rw [List.getLast?_eq_none_iff, List.filter_eq_nil_iff] at hother
    exact absurd (decide_eq_true rfl) (hother file hfile)
  | some other => rfl

theorem getLast?_filter (hnodup : (files.map (·.name)).Nodup) (hfile : file ∈ files) :
    (files.filter (·.name = file.name)).getLast? = some file := by
  cases hlast : (files.filter (·.name = file.name)).getLast? with
  | none =>
    rw [List.getLast?_eq_none_iff, List.filter_eq_nil_iff] at hlast
    exact absurd (decide_eq_true rfl) (hlast file hfile)
  | some other =>
    obtain ⟨hother, hname⟩ := List.mem_filter.mp (List.mem_of_getLast? hlast)
    rw [List.inj_on_of_nodup_map hnodup hother hfile (of_decide_eq_true hname)]

include hfiles in
theorem kept_of_nodup (hnodup : (files.map (·.name)).Nodup)
    (hcontent : ∀ file ∈ files,
      t.content? (d ++ [file.name]) = some (.ofText (contents description file))) :
    Kept settings text description d t := by
  obtain ⟨gs, hgs, rfl⟩ := groups_of_generate hfiles
  obtain ⟨order, hperm, horder⟩ := distributed_of_load hgs
  let name (j : Nat) : String :=
    ((groupAt? home settings (events text).items j).map RegisterGroup.fileName).getD ""
  have hnames : order.map name = (gs.map RegisterGroup.file).map (·.name) := by
    have hmap : order.map name = (order.map (groupAt? home settings (events text).items)).map
        fun g => (g.map RegisterGroup.fileName).getD "" := by
      rw [List.map_map]
      rfl
    rw [hmap, horder, List.map_map, List.map_map]
    rfl
  refine ⟨name, fun i hi j hj hij => ?_, fun j hj => ?_⟩
  · rw [← hnames] at hnodup
    exact List.inj_on_of_nodup_map hnodup (hperm.mem_iff.mpr hi) (hperm.mem_iff.mpr hj) hij
  · have hmem := List.mem_map_of_mem (f := groupAt? home settings (events text).items)
      (hperm.mem_iff.mpr hj)
    rw [horder] at hmem
    obtain ⟨g, hg, hgroup⟩ := List.mem_map.mp hmem
    have hname : name j = g.fileName := by
      simp only [name, ← hgroup, Option.map_some, Option.getD_some]
    exact ⟨g, hgroup.symm, hname ▸ hcontent _ (List.mem_map_of_mem hg)⟩

include hfiles hd hslash in
theorem name_of_content? (hempty : ∀ name, t.content? (d ++ [name]) = none) {name : String}
    {content : Bytes} (h : ((writeFiles description directory files : StateM Tree Run) t).2.content?
      (d ++ [name]) = some content) : name ∈ files.map (·.name) := by
  rw [Tree.content?, node?_writeFiles] at h
  cases hlast : lastAt t directory files (d ++ [name]) with
  | none =>
    rw [hlast] at h
    cases (hempty name).symm.trans h
  | some file =>
    obtain ⟨hfile, htarget⟩ := List.mem_filter.mp (List.mem_of_getLast? hlast)
    have hmem : file ∈ files := (List.takeWhile_prefix _).subset hfile
    have hplace := ((target_generated hfiles hd hslash hmem).mp (of_decide_eq_true htarget)).1
    obtain rfl := List.singleton_inj.mp ((List.append_right_inj _).mp hplace)
    exact List.mem_map_of_mem hmem

include hfiles in
theorem length_groupPositions : (groupPositions (events text).items).length = files.length := by
  obtain ⟨gs, hgs, rfl⟩ := groups_of_generate hfiles
  obtain ⟨order, hperm, horder⟩ := distributed_of_load hgs
  have hlength := congrArg List.length horder
  rw [List.length_map, List.length_map] at hlength
  rw [← hperm.length_eq, hlength, List.length_map]

include hfiles hd hslash in
/-- As many groups as there are files need as many names. -/
theorem nodup_of_kept (hempty : ∀ name, t.content? (d ++ [name]) = none)
    (h : Kept settings text description d
      ((writeFiles description directory files : StateM Tree Run) t).2) :
    (files.map (·.name)).Nodup := by
  obtain ⟨name, hinj, hkept⟩ := h
  have hnodup : ((groupPositions (events text).items).map name).Nodup :=
    nodup_groupPositions.map_on fun i hi j hj => hinj hi hj
  have hsubset : (groupPositions (events text).items).map name ⊆ files.map (·.name) := by
    intro n hn
    obtain ⟨j, hj, rfl⟩ := List.mem_map.mp hn
    obtain ⟨g, -, hcontent⟩ := hkept j hj
    exact name_of_content? hfiles hd hslash hempty hcontent
  have hlength : (files.map (·.name)).length ≤
      ((groupPositions (events text).items).map name).length := by
    rw [List.length_map, List.length_map, length_groupPositions hfiles]
  exact ((hnodup.subperm hsubset).perm_of_length_le hlength).nodup_iff.mp hnodup

end

/-- What the program does with the files, when it has made the directory for them. -/
theorem runOptions_eq {o : Options} {t made : Tree} {text : String} {files : List GeneratedFile}
    (hread : (readText o.description : StateM Tree (Except Fault String)) t = (.ok text, t))
    (hfiles : (generate o.settings text.toList).result = .ok files) (hne : files ≠ [])
    (hmade : (makeDirectories o.outDir : StateM Tree (Except Fault Unit)) t = (.ok (), made)) :
    (∃ d, made.LeadsTo o.outDir d) ∧
      let after := (writeFiles o.description o.outDir files : StateM Tree Run) made
      ((runOptions o : StateM Tree Run) t).1.ending = after.1.ending ∧
        ((runOptions o : StateM Tree Run) t).2 = after.2 := by
  refine ⟨leadsTo_of_makeDirectories hmade, ?_⟩
  have hgenerate : (generateFile o.settings o.description : StateM Tree _) t =
      (generate o.settings text.toList, t) := by
    rw [generateFile, bind_run, hread]
    rfl
  rw [runOptions, bind_run, hgenerate]
  cases files with
  | nil => exact absurd rfl hne
  | cons file files =>
    rw [hfiles]
    dsimp only
    rw [bind_run, hmade]
    dsimp only
    rw [bind_run]
    exact ⟨rfl, rfl⟩

/-- If no name leads elsewhere, the writing ends well just if each name fits into the directory.
Each file of the directory is then the last one of its name. So, if all names are different, every
group is kept; in a directory without other files, only then. -/
theorem modules_kept {settings : Settings} {text : List Char} {files : List GeneratedFile}
    {description directory : String} {t : Tree} {d : Location}
    (hfiles : (generate settings text).result = .ok files) (hd : t.LeadsTo directory d)
    (hslash : ∀ file ∈ files, '/' ∉ file.name.toList) :
    let after := (writeFiles description directory files : StateM Tree Run) t
    after.2.LeadsTo directory d ∧
      (after.1.ending = .done [] ↔ ∀ file ∈ files, t.Fits directory d file.name) ∧
      (after.1.ending = .done [] →
        (∀ file ∈ files, after.2.content? (d ++ [file.name]) =
          ((files.filter (·.name = file.name)).getLast?).map fun file =>
            .ofText (contents description file)) ∧
        ((files.map (·.name)).Nodup → Kept settings text description d after.2) ∧
        ((∀ name, t.content? (d ++ [name]) = none) → Kept settings text description d after.2 →
          (files.map (·.name)).Nodup)) := by
  intro after
  have hdone : after.1.ending = .done [] ↔ _ := done_iff_fits hfiles hd hslash
  refine ⟨leadsTo_writeFiles hd, hdone, fun hend => ?_⟩
  have hcontent : ∀ file ∈ files, after.2.content? (d ++ [file.name]) = _ :=
    fun _ hfile => content?_writeFiles hfiles hd hslash (hdone.mp hend) hfile
  refine ⟨hcontent, fun hnodup => kept_of_nodup hfiles hnodup fun file hfile => ?_,
    nodup_of_kept hfiles hd hslash⟩
  rw [hcontent file hfile, getLast?_filter hnodup hfile]
  rfl

def outputTree : Tree := ⟨[(["a"], .directory), (["a", "b"], .directory)], ["a", "b"]⟩

theorem leadsTo_outputTree : outputTree.LeadsTo "." ["a", "b"] := ⟨by decide, by decide⟩

def twoNames : List Char := "<tv_registers name='a'/><tv_registers name='b'/>".toList

def twoNamesFiles : List GeneratedFile :=
  [⟨"a", {}, []⟩, ⟨"b", {}, []⟩].map RegisterGroup.file

theorem modules_kept_twoNames :
    (generate {} twoNames).result = .ok twoNamesFiles ∧
      outputTree.LeadsTo "." ["a", "b"] ∧
      (∀ file ∈ twoNamesFiles, '/' ∉ file.name.toList) ∧
      let after := (writeFiles "d.xml" "." twoNamesFiles : StateM Tree Run) outputTree
      after.1.ending = .done [] ∧ Kept {} twoNames "d.xml" ["a", "b"] after.2 := by
  have hfiles : (generate {} twoNames).result = .ok twoNamesFiles :=
    generate_of_load (by decide +kernel)
  have hslash : ∀ file ∈ twoNamesFiles, '/' ∉ file.name.toList := by decide
  obtain ⟨-, hfits, hkept⟩ := @modules_kept {} twoNames twoNamesFiles "d.xml" "." outputTree
    ["a", "b"] hfiles leadsTo_outputTree hslash
  have hdone := hfits.mpr (by unfold Tree.Fits; decide)
  exact ⟨hfiles, leadsTo_outputTree, hslash, hdone, (hkept hdone).2.1 (by decide)⟩

def oneName : List Char := "<tv_registers name='a' base_addr='16'/><tv_registers name='a'/>".toList

def oneNameFiles : List GeneratedFile :=
  [⟨"a", { baseAddress := 16 }, []⟩, ⟨"a", {}, []⟩].map RegisterGroup.file

def nameAbove : List Char := "<tv_registers name='../a'/>".toList

def fileAbove : GeneratedFile := RegisterGroup.file ⟨"../a", {}, []⟩

/-- The writing ends well both times. But there is only one file for two groups of one name, and the
file of a group whose name leads up is not in the directory. -/
theorem not_kept :
    outputTree.LeadsTo "." ["a", "b"] ∧
      ((generate {} oneName).result = .ok oneNameFiles ∧
        let after := (writeFiles "d.xml" "." oneNameFiles : StateM Tree Run) outputTree
        after.1.ending = .done [] ∧ ¬ (oneNameFiles.map (·.name)).Nodup ∧
          ¬ Kept {} oneName "d.xml" ["a", "b"] after.2) ∧
      (generate {} nameAbove).result = .ok [fileAbove] ∧
        let after := (writeFiles "d.xml" "." [fileAbove] : StateM Tree Run) outputTree
        after.1.ending = .done [] ∧ ¬ Kept {} nameAbove "d.xml" ["a", "b"] after.2 := by
  have hfiles : (generate {} oneName).result = .ok oneNameFiles :=
    generate_of_load (by decide +kernel)
  have hslash : ∀ file ∈ oneNameFiles, '/' ∉ file.name.toList := by decide
  have hsame : ¬ (oneNameFiles.map (·.name)).Nodup := by decide
  have hfits : ∀ file ∈ oneNameFiles, outputTree.Fits "." ["a", "b"] file.name := by
    unfold Tree.Fits
    decide
  have habove : outputTree.target (join "." fileAbove.name) = .ok ["a", "a.v"] := by decide
  refine ⟨leadsTo_outputTree, ⟨hfiles, ?_, hsame, fun hkept => hsame ?_⟩,
    @generate_of_load {} nameAbove [⟨"../a", {}, []⟩] (by decide +kernel), ?_, ?_⟩
  · exact (done_iff_fits hfiles leadsTo_outputTree hslash).mpr hfits
  · exact nodup_of_kept hfiles leadsTo_outputTree hslash (fun _ => rfl) hkept
  · exact writeFiles_done.mpr (List.forall_mem_singleton.mpr ⟨_, habove⟩)
  · rintro ⟨name, -, hkept⟩
    obtain ⟨g, -, hcontent⟩ := hkept 0 (by decide +kernel)
    have hlast : lastAt outputTree "." [fileAbove] (["a", "b"] ++ [name 0]) = none := by
      rw [lastAt_cons habove, if_neg (by simp)]
      rfl
    rw [Tree.content?, node?_writeFiles, hlast] at hcontent
    cases hcontent

end RegMap.Command.Generate
