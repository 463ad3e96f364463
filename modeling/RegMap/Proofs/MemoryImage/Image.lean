import RegMap.MemoryImage.Convert
import RegMap.Proofs.MemoryImage.Record

set_option autoImplicit false

namespace RegMap.MemoryImage

open Files Text

/-- A line `@<address> <value>` that shows the word, both in hexadecimal digits. -/
def MemWord.Shown (w : MemWord) (line : List Char) : Prop :=
  ∃ address value, line = '@' :: (address ++ ' ' :: (value ++ ['\n'])) ∧
    Denotes 16 address w.address ∧ Denotes 16 value w.value.toNat

/-- The text has a line for each of the words in turn, and nothing else. -/
def Image (words : List MemWord) (text : List Char) : Prop :=
  ∃ lines : List (List Char), text = lines.flatten ∧ List.Forall₂ MemWord.Shown words lines

/-- The records that stand in the lines, one in a line. Lines that are no UTF-8 or do not begin with
a record have none. -/
inductive Accepted : List Bytes → List Record → Prop where
  | nil : Accepted [] []
  | taken {line : Bytes} {lines : List Bytes} {r : Record} {records : List Record} {text : String}
      (hl : line = .ofText text) (hr : r.Begins text.toList) (h : Accepted lines records) :
      Accepted (line :: lines) (r :: records)
  | skipped {line : Bytes} {lines : List Bytes} {records : List Record}
      (hl : ∀ text : String, line = .ofText text → ∀ r : Record, ¬ r.Begins text.toList)
      (h : Accepted lines records) : Accepted (line :: lines) records

section

variable {w w' : MemWord} {words words' : List MemWord} {line line' text more more' : List Char}
  {n : Nat} {r : Record}

theorem shown_lineWire (w : MemWord) : w.Shown w.lineWire :=
  ⟨_, _, by simp [MemWord.lineWire, MemWord.wire], denotes_hexPair _, denotes_hexPair _⟩

theorem denotes_append_unique {s s' t t' : List Char} {c : Char} {m : Nat} (h : Denotes 16 s n)
    (h' : Denotes 16 s' m) (hc : isHexDigit c = false) (he : s ++ c :: t = s' ++ c :: t') :
    n = m ∧ t = t' := by
  have htake := congrArg (List.takeWhile isHexDigit) he
  have hdrop := congrArg (List.dropWhile isHexDigit) he
  rw [takeWhile_run (h.isHexDigit le_rfl) hc, takeWhile_run (h'.isHexDigit le_rfl) hc] at htake
  rw [dropWhile_run (h.isHexDigit le_rfl) hc, dropWhile_run (h'.isHexDigit le_rfl) hc] at hdrop
  obtain rfl := htake
  exact ⟨h.unique h' le_rfl, (List.cons.inj hdrop).2⟩

theorem shown_unique (h : w.Shown line) (h' : w'.Shown line') (he : line ++ more = line' ++ more') :
    w = w' ∧ more = more' := by
  obtain ⟨address, value, rfl, ha, hv⟩ := h
  obtain ⟨address', value', rfl, ha', hv'⟩ := h'
  simp only [List.cons_append, List.append_assoc, List.nil_append, List.cons.injEq, true_and] at he
  obtain ⟨haddress, he⟩ := denotes_append_unique ha ha' rfl he
  obtain ⟨hvalue, he⟩ := denotes_append_unique hv hv' rfl he
  exact ⟨by rw [MemWord.mk.injEq]; exact ⟨haddress, UInt8.toNat_inj.mp hvalue⟩, he⟩

/-- An image shows one list of words only. -/
theorem Image.unique (h : Image words text) (h' : Image words' text) : words = words' := by
  obtain ⟨lines, rfl, hlines⟩ := h
  obtain ⟨lines', he, hlines'⟩ := h'
  induction hlines generalizing words' lines' with
  | nil =>
    cases hlines' with
    | nil => rfl
    | cons hw _ =>
      obtain ⟨address, value, rfl, -⟩ := hw
      cases he
  | cons hw _ ih =>
    cases hlines' with
    | nil =>
      obtain ⟨address, value, rfl, -⟩ := hw
      cases he
    | cons hw' hrest' =>
      obtain ⟨rfl, he⟩ := shown_unique hw hw' he
      rw [ih _ he hrest']

theorem image_lineWires (words : List MemWord) : Image words (words.flatMap MemWord.lineWire) := by
  refine ⟨words.map MemWord.lineWire, List.flatMap_def, ?_⟩
  exact List.forall₂_map_right_iff.mpr (List.forall₂_same.mpr fun w _ => shown_lineWire w)

theorem count_shown (h : w.Shown line) : line.count '\n' = 1 := by
  obtain ⟨address, value, rfl, ha, hv⟩ := h
  have hnone {s : List Char} {n : Nat} (hs : Denotes 16 s n) : s.count '\n' = 0 :=
    List.count_eq_zero.mpr fun hmem => absurd (hs.isHexDigit le_rfl _ hmem) (by decide)
  simp [hnone ha, hnone hv]

theorem Image.count (h : Image words text) : text.count '\n' = words.length := by
  obtain ⟨lines, rfl, hlines⟩ := h
  induction hlines with
  | nil => rfl
  | cons hw _ ih =>
    rw [List.flatten_cons, List.count_append, count_shown hw, ih, List.length_cons, Nat.add_comm]

end

section

variable {bytes : Bytes} {text : String} {r : Record}

theorem text?_eq_some_iff : bytes.text? = some text ↔ bytes = .ofText text := by
  unfold Bytes.text? String.fromUTF8?
  constructor
  · intro h
    split at h
    · cases h
      rfl
    · cases h
  · rintro rfl
    exact dif_pos text.isValidUTF8

def recordOf? (line : Bytes) : Option Record :=
  match Line.read line with
  | .record r => some r
  | .other _ => none

theorem recordOf?_eq_some_iff : recordOf? bytes = some r ↔
    ∃ text : String, bytes = .ofText text ∧ r.Begins text.toList := by
  simp only [← text?_eq_some_iff]
  unfold recordOf? Line.read
  cases bytes.text? with
  | none => simp
  | some text =>
    have hbegins : r.Begins text.toList ↔ Record.read? (trimEnd text.toList) = some r := by
      rw [read?_eq_some_iff, begins_trimEnd]
    simp only [Option.some.injEq, exists_eq_left', hbegins]
    cases Record.read? (trimEnd text.toList) <;> simp

theorem accepted_records (lines : List Bytes) : Accepted lines (lines.filterMap recordOf?) := by
  induction lines with
  | nil => exact .nil
  | cons line lines ih =>
    cases hr : recordOf? line with
    | none =>
      rw [List.filterMap_cons_none hr]
      refine .skipped (fun text hl r hbegins => ?_) ih
      cases hr.symm.trans (recordOf?_eq_some_iff.mpr ⟨text, hl, hbegins⟩)
    | some r =>
      rw [List.filterMap_cons_some hr]
      obtain ⟨text, hl, hbegins⟩ := recordOf?_eq_some_iff.mp hr
      exact .taken hl hbegins ih

theorem wordsFrom_eq (address : Nat) (data : List UInt8) :
    wordsFrom address data = data.mapIdx fun i value => ⟨address + i, value⟩ := by
  induction data generalizing address with
  | nil => rfl
  | cons value rest ih =>
    rw [wordsFrom, ih, List.mapIdx_cons]
    simp only [Nat.add_right_comm, Nat.add_assoc, Nat.add_zero]

theorem length_words (r : Record) : r.words.length = r.data.length := by
  rw [Record.words, wordsFrom_eq, List.length_mapIdx]

theorem convertLines_eq (lines : List Bytes) :
    (convertLines none none lines).output =
        ((lines.filterMap recordOf?).flatMap Record.words).flatMap MemWord.lineWire ∧
      (convertLines none none lines).count =
        ((lines.filterMap recordOf?).map (·.data.length)).sum ∧
      (convertLines none none lines).failure = none := by
  induction lines with
  | nil => exact ⟨rfl, rfl, rfl⟩
  | cons line lines ih =>
    obtain ⟨houtput, hcount, hfailure⟩ := ih
    rw [convertLines]
    cases hread : Line.read line with
    | other note =>
      have hnone : recordOf? line = none := by rw [recordOf?, hread]
      simp [Conversion.after, List.filterMap_cons_none hnone, houtput, hcount, hfailure]
    | record r =>
      have hsome : recordOf? line = some r := by rw [recordOf?, hread]
      simp [Conversion.after, List.filterMap_cons_some hsome, houtput, hcount, hfailure,
        Record.image]

end

/-- As long as there is room, what the image shows is the data of the records of the text, each byte
at its address; that does not wrap at sixteen bits. The count is that of the lines. -/
theorem convert_image (input : Bytes) :
    ∃ records, Accepted (input.splitOn 10) records ∧
      (∀ words, Image words (convert ⟨input, none⟩ none).output ↔
        words = records.flatMap fun r =>
          r.data.mapIdx fun i value => ⟨r.address.toNat + i, value⟩) ∧
      (convert ⟨input, none⟩ none).count = (convert ⟨input, none⟩ none).output.count '\n' ∧
      (convert ⟨input, none⟩ none).count = (records.map (·.data.length)).sum ∧
      (convert ⟨input, none⟩ none).failure = none := by
  obtain ⟨houtput, hcount, hfailure⟩ := convertLines_eq (input.splitOn 10)
  have himage := image_lineWires (((input.splitOn 10).filterMap recordOf?).flatMap Record.words)
  rw [← houtput] at himage
  refine ⟨_, accepted_records (input.splitOn 10), fun words => ?_, ?_, hcount, hfailure⟩
  · simp only [← wordsFrom_eq]
    exact ⟨fun h => h.unique himage, fun h => h ▸ himage⟩
  · refine hcount.trans (Eq.trans ?_ himage.count.symm)
    rw [List.length_flatMap]
    simp only [length_words]

example : (convert ⟨.ofText "; two bytes\r\n:02FFFF00aBcdEE\r\n:02", none⟩ none).output =
    "@ffff ab\n@10000 cd\n".toList := by decide +kernel

end RegMap.MemoryImage
