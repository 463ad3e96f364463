import RegMap.Proofs.Files.Tree
import RegMap.Proofs.MemoryImage.Image

/-!
What converting a file changes of the files. The output is emptied before the input is read, so what
is converted is what the input holds then. That is what it held before, unless both paths lead to
the same file, which ends up empty.
-/

set_option autoImplicit false

namespace RegMap.MemoryImage

open Files

section

variable {t emptied after : Tree} {input output path : String} {place : Location} {fault : Fault}
  {bytes content : Bytes}

def imageFile (bytes : Bytes) : Bytes := .ofText (String.ofList (convert ⟨bytes, none⟩ none).output)

theorem run_write (h : t.write path content = .ok after) :
    (Access.write path content : StateM Tree (Except Fault Unit)) t = (.ok (), after) := by
  simp only [Access.write, update, h]

theorem canOpen_of_read (h : t.read path = .ok bytes) : t.canOpen path = .ok () := by
  obtain ⟨l, hl, hnode⟩ := Tree.read_eq_ok_iff.mp h
  rw [Tree.canOpen, hl]
  simp [bind, Except.bind, hnode]

theorem write_put (h : t.target path = .ok place) (content content' : Bytes) :
    (t.put place (.file content)).write path content' =
      .ok ((t.put place (.file content)).put place (.file content')) :=
  Tree.write_eq_ok_iff.mpr
    ⟨place, (Tree.target_put (Tree.target_eq_ok_iff.mp h).2.2 path).mpr h, rfl⟩

theorem read_put_of_ne (hplace : t.node? place ≠ some .directory) (hread : t.read path = .ok bytes)
    (hne : t.locate path ≠ .ok place) :
    (t.put place (.file content)).read path = .ok bytes := by
  obtain ⟨l, hl, hnode⟩ := Tree.read_eq_ok_iff.mp hread
  have hother : l ≠ place := fun heq => hne (heq ▸ hl)
  refine Tree.read_eq_ok_iff.mpr ⟨l, (Tree.locate_put hplace path).mpr hl, ?_⟩
  rw [Tree.node?_put_of_ne hother, hnode]

theorem read_put_self (hplace : t.node? place ≠ some .directory)
    (hlocate : t.locate path = .ok place) :
    (t.put place (.file content)).read path = .ok content :=
  Tree.read_eq_ok_iff.mpr ⟨place, (Tree.locate_put hplace path).mpr hlocate,
    Tree.node?_put_self (Tree.node?_ne_directory hplace)⟩

theorem convertFile_of_canOpen_error (h : t.canOpen input = .error fault) :
    (convertFile input output : StateM Tree Outcome) t =
      (⟨[], .error (.opening input fault)⟩, t) := by
  have hopen : (Access.canOpen input : StateM Tree (Except Fault Unit)) t = (.error fault, t) :=
    congrArg (·, t) h
  rw [convertFile, bind_run, hopen]
  rfl

/-- The bytes are those that the input holds once the output is empty. -/
theorem convertFile_eq (h : t.canOpen input = .ok ()) (htarget : t.target output = .ok place)
    (hread : (t.put place (.file [])).read input = .ok bytes) :
    (convertFile input output : StateM Tree Outcome) t =
      (⟨(convert ⟨bytes, none⟩ none).notes, .ok (convert ⟨bytes, none⟩ none).count⟩,
        (t.put place (.file [])).put place (.file (imageFile bytes))) := by
  have hopen : (Access.canOpen input : StateM Tree (Except Fault Unit)) t = (.ok (), t) :=
    congrArg (·, t) h
  have hcreate : t.write output [] = .ok (t.put place (.file [])) :=
    Tree.write_eq_ok_iff.mpr ⟨place, htarget, rfl⟩
  have hinput : (Access.read input : StateM Tree (Except Fault Bytes)) (t.put place (.file [])) =
      (.ok bytes, t.put place (.file [])) := congrArg (·, t.put place (.file [])) hread
  have himage := run_write (write_put htarget [] (imageFile bytes))
  rw [imageFile] at himage ⊢
  rw [convertFile, bind_run, hopen]
  dsimp only
  rw [bind_run, run_write hcreate]
  dsimp only
  rw [bind_run, hinput]
  dsimp only
  rw [bind_run, himage]
  rfl

theorem content?_put_put (hplace : t.node? place ≠ some .directory) :
    ((t.put place (.file [])).put place (.file content)).content? place = some content := by
  rw [Tree.content?, Tree.node?_put_self (Tree.node?_ne_directory hplace)]

theorem node?_put_put_of_ne {l : Location} (h : l ≠ place) :
    ((t.put place (.file [])).put place (.file content)).node? l = t.node? l := by
  rw [Tree.node?_put_of_ne h, Tree.node?_put_of_ne h]

theorem exists_image (bytes : Bytes) :
    ∃ words, Image words (convert ⟨bytes, none⟩ none).output ∧
      (convert ⟨bytes, none⟩ none).count = words.length := by
  obtain ⟨houtput, hcount, -⟩ := convertLines_eq (bytes.splitOn 10)
  refine ⟨_, houtput ▸ image_lineWires _, hcount.trans ?_⟩
  rw [List.length_flatMap]
  simp only [length_words]

end

/-- An input that cannot be opened changes nothing. Otherwise the output comes to hold the image of
what the input held, and the number of its bytes is given back, unless both paths lead to the same
file: that one is empty in the end, and so is its image. No other file is touched. -/
theorem convertFile_tree (t : Tree) (input output : String) :
    (∀ fault, t.canOpen input = .error fault →
      (convertFile input output : StateM Tree Outcome) t =
        (⟨[], .error (.opening input fault)⟩, t)) ∧
    ∀ bytes emptied, t.read input = .ok bytes → t.write output [] = .ok emptied →
      ∃ place, t.target output = .ok place ∧
        let run := (convertFile input output : StateM Tree Outcome) t
        (t.locate input ≠ .ok place → run.2.content? place = some (imageFile bytes) ∧
          ∃ words, Image words (convert ⟨bytes, none⟩ none).output ∧
            run.1.result = .ok words.length) ∧
        (t.locate input = .ok place → run.2.content? place = some [] ∧ run.1.result = .ok 0) ∧
        ∀ l, l ≠ place → run.2.node? l = t.node? l := by
  refine ⟨fun fault => convertFile_of_canOpen_error, fun bytes emptied hread hwrite => ?_⟩
  obtain ⟨place, htarget, -⟩ := Tree.write_eq_ok_iff.mp hwrite
  have hplace : t.node? place ≠ some .directory := (Tree.target_eq_ok_iff.mp htarget).2.2
  have hopen := canOpen_of_read hread
  refine ⟨place, htarget, ?_⟩
  by_cases hsame : t.locate input = .ok place
  · have hempty := convertFile_eq hopen htarget (read_put_self hplace hsame)
    rw [hempty]
    refine ⟨fun hne => absurd hsame hne, fun _ => ⟨content?_put_put hplace, rfl⟩, fun l hl => ?_⟩
    exact node?_put_put_of_ne hl
  · have hrun := convertFile_eq hopen htarget (read_put_of_ne hplace hread hsame)
    obtain ⟨words, himage, hcount⟩ := exists_image bytes
    rw [hrun]
    refine ⟨fun _ => ⟨content?_put_put hplace, words, himage, congrArg _ hcount⟩,
      fun heq => absurd heq hsame, fun l hl => node?_put_put_of_ne hl⟩

def firmwareTree : Tree :=
  ⟨[(["d"], .directory), (["d", "fw.hex"], .file (.ofText ":02000000AABB\n")),
    (["d", "fw.mem"], .file (.ofText "@00 ff\n"))], ["d"]⟩

theorem read_firmware : firmwareTree.read "fw.hex" = .ok (.ofText ":02000000AABB\n") := by
  decide +kernel

theorem imageFile_firmware :
    imageFile (.ofText ":02000000AABB\n") = .ofText "@00 aa\n@01 bb\n" := by
  decide +kernel

theorem convertFile_tree_firmware :
    firmwareTree.read "fw.hex" = .ok (.ofText ":02000000AABB\n") ∧
      firmwareTree.write "fw.mem" [] = .ok (firmwareTree.put ["d", "fw.mem"] (.file [])) ∧
      ((convertFile "fw.hex" "fw.mem" : StateM Tree Outcome) firmwareTree).2.content?
        ["d", "fw.mem"] = some (.ofText "@00 aa\n@01 bb\n") := by
  have hwrite : firmwareTree.write "fw.mem" [] =
      .ok (firmwareTree.put ["d", "fw.mem"] (.file [])) := by decide +kernel
  have hother : firmwareTree.locate "fw.hex" ≠ .ok ["d", "fw.mem"] := by decide +kernel
  obtain ⟨place, htarget, himage, -⟩ :=
    (convertFile_tree firmwareTree "fw.hex" "fw.mem").2 _ _ read_firmware hwrite
  obtain rfl : ["d", "fw.mem"] = place :=
    Except.ok.inj ((by decide +kernel : firmwareTree.target "fw.mem" = _).symm.trans htarget)
  exact ⟨read_firmware, hwrite, imageFile_firmware ▸ (himage hother).1⟩

/-- One path for both. The call ends well, but the file is empty afterwards: no byte of the image of
what it held is there. -/
theorem convertFile_same_lost :
    firmwareTree.read "fw.hex" = .ok (.ofText ":02000000AABB\n") ∧
      firmwareTree.write "fw.hex" [] = .ok (firmwareTree.put ["d", "fw.hex"] (.file [])) ∧
      imageFile (.ofText ":02000000AABB\n") = .ofText "@00 aa\n@01 bb\n" ∧
      let run := (convertFile "fw.hex" "fw.hex" : StateM Tree Outcome) firmwareTree
      run.1.result = .ok 0 ∧ run.2.content? ["d", "fw.hex"] = some [] := by
  have htarget : firmwareTree.target "fw.hex" = .ok ["d", "fw.hex"] := by decide +kernel
  have hplace := (Tree.target_eq_ok_iff.mp htarget).2.2
  have hsame : firmwareTree.locate "fw.hex" = .ok ["d", "fw.hex"] := by decide +kernel
  have hrun := convertFile_eq (canOpen_of_read read_firmware) htarget (read_put_self hplace hsame)
  rw [hrun]
  exact ⟨read_firmware, Tree.write_eq_ok_iff.mpr ⟨_, htarget, rfl⟩, imageFile_firmware, rfl,
    content?_put_put hplace⟩

end RegMap.MemoryImage
