import Mathlib.Logic.Relation
import RegMap.Proofs.MemoryImage.Image
import RegMap.Proofs.MemoryImage.Slices

set_option autoImplicit false

namespace RegMap.MemoryImage

open Files Text

def Conversion.left (c : Conversion) (room : Option Nat) : Option Nat :=
  room.map (· - c.output.length)

/-- Goes on with what comes behind, unless the conversion has failed. -/
def Conversion.andThen (c next : Conversion) : Conversion :=
  if c.failure.isSome then c
  else ⟨c.output ++ next.output, c.count + next.count, c.notes ++ next.notes, next.failure⟩

def converted (bytes : Bytes) : Conversion := convert ⟨bytes, none⟩ none

def Record.In (r : Record) (line : Bytes) : Prop :=
  ∃ text : String, line = .ofText text ∧ r.Begins text.toList

def BeginsLine (before : Bytes) : Prop := before = [] ∨ before.getLast? = some 10

def EndsLine (behind : Bytes) : Prop := behind = [] ∨ behind.head? = some 10

/-- White space is added where a line ends. There may be newlines in it, so lines of white space can
be added that way, and a newline at the end of the input. -/
inductive Spaced : Bytes → Bytes → Prop where
  | intro (before : Bytes) {blank : List Char} {behind : Bytes} (hblank : ∀ c ∈ blank, isBlank c)
      (hends : EndsLine behind) : Spaced (before ++ behind) (before ++ utf8 blank ++ behind)

def withReturns (bytes : Bytes) : Bytes := bytes.flatMap fun b => if b = 10 then [13, 10] else [b]

section

variable {bytes before behind line : Bytes} {room : Option Nat} {blank : List Char} {r : Record}

@[simp] theorem left_empty (room : Option Nat) : ({} : Conversion).left room = room := by
  cases room <;> rfl

@[simp] theorem empty_andThen (next : Conversion) : ({} : Conversion).andThen next = next := by
  simp [Conversion.andThen]

@[simp] theorem andThen_empty (c : Conversion) : c.andThen {} = c := by
  unfold Conversion.andThen
  split
  · rfl
  · next h =>
    rw [Option.not_isSome_iff_eq_none] at h
    simp only [List.append_nil, Nat.add_zero, ← h]

theorem after_andThen (c next : Conversion) (text : List Char) (count : Nat) (note : Option Note) :
    (c.after text count note).andThen next = (c.andThen next).after text count note := by
  by_cases h : c.failure.isSome <;>
    simp [Conversion.andThen, Conversion.after, h, Nat.add_assoc]

theorem left_after (c : Conversion) (text : List Char) (count : Nat) (note : Option Note) :
    (c.after text count note).left room = c.left (room.map (· - text.length)) := by
  cases room <;> simp [Conversion.left, Conversion.after, Nat.sub_sub]

theorem convertLines_append (failure : Option Fault) (room : Option Nat) (ls ls' : List Bytes) :
    convertLines failure room (ls ++ ls') =
      (convertLines none room ls).andThen
        (convertLines failure ((convertLines none room ls).left room) ls') := by
  induction ls generalizing room with
  | nil => simp [convertLines]
  | cons line ls ih =>
    rw [List.cons_append, convertLines, convertLines]
    cases Line.read line with
    | other note =>
      simp only [ih, after_andThen, left_after, List.length_nil, Nat.sub_zero, Option.map_id_fun']
      rfl
    | record r =>
      cases room with
      | none => simp only [ih, after_andThen, left_after, Option.map_none]
      | some room =>
        by_cases hfits : r.image.length ≤ room
        · simp only [if_pos hfits, ih, after_andThen, left_after, Option.map_some]
        · -- the first part fails, and the second is not looked at
          simp only [if_neg hfits]
          rfl

theorem lines_of_not_mem (h : 10 ∉ line) : lines line = [line] := List.splitOn_eq_singleton h

theorem convert_nil (room : Option Nat) : convert ⟨[], none⟩ room = {} := rfl

/-- The second part gets the room that the first one leaves, and if reading fails, it fails
there. -/
theorem convert_append (a b : Bytes) (failure : Option Fault) (room : Option Nat) :
    convert ⟨a ++ 10 :: b, failure⟩ room = (convert ⟨a, none⟩ room).andThen
      (convert ⟨b, failure⟩ ((convert ⟨a, none⟩ room).left room)) := by
  have hlines : lines (a ++ 10 :: b) = lines a ++ lines b := List.splitOn_append_cons_self a b
  have hne : lines b ≠ [] := List.splitOn_ne_nil 10 b
  simp only [convert, hlines, List.dropLast_append_of_ne_nil hne, Option.isSome_none,
    Bool.false_eq_true, if_false]
  split
  · exact convertLines_append failure room _ _
  · exact convertLines_append failure room _ _

/-- A newline that nothing stands behind could as well be missing. -/
theorem convert_newline (bytes : Bytes) (room : Option Nat) :
    convert ⟨bytes ++ [10], none⟩ room = convert ⟨bytes, none⟩ room := by
  rw [convert_append, convert_nil, andThen_empty]

theorem convert_of_beginsLine (h : BeginsLine before) (bytes : Bytes) (room : Option Nat) :
    convert ⟨before ++ bytes, none⟩ room = (convert ⟨before, none⟩ room).andThen
      (convert ⟨bytes, none⟩ ((convert ⟨before, none⟩ room).left room)) := by
  rcases h with rfl | h
  · rw [convert_nil, empty_andThen, left_empty, List.nil_append]
  · obtain ⟨front, rfl⟩ := List.getLast?_eq_some_iff.mp h
    rw [convert_newline, List.append_assoc, List.singleton_append, convert_append]

theorem convert_of_endsLine (h : EndsLine behind) (bytes : Bytes) (room : Option Nat) :
    convert ⟨bytes ++ behind, none⟩ room = (convert ⟨bytes, none⟩ room).andThen
      (convert ⟨behind, none⟩ ((convert ⟨bytes, none⟩ room).left room)) := by
  rcases h with rfl | h
  · rw [convert_nil, andThen_empty, List.append_nil]
  · obtain ⟨rest, rfl⟩ := List.head?_eq_some_iff.mp h
    have hfirst (room : Option Nat) :
        convert ⟨10 :: rest, none⟩ room = convert ⟨rest, none⟩ room := by
      rw [← List.nil_append (10 :: rest), convert_append, convert_nil, empty_andThen, left_empty]
    rw [convert_append, hfirst]

theorem converted_andThen (bytes : Bytes) (next : Conversion) :
    (converted bytes).andThen next =
      ⟨(converted bytes).output ++ next.output, (converted bytes).count + next.count,
        (converted bytes).notes ++ next.notes, next.failure⟩ := by
  have hfailure : (converted bytes).failure = none := (convertLines_eq (lines bytes)).2.2
  rw [Conversion.andThen, hfailure]
  rfl

theorem converted_between (hbefore : BeginsLine before) (hbehind : EndsLine behind)
    (line : Bytes) : converted (before ++ line ++ behind) =
      (converted before).andThen ((converted line).andThen (converted behind)) := by
  have hfront : converted (before ++ (line ++ behind)) =
      (converted before).andThen (converted (line ++ behind)) :=
    convert_of_beginsLine hbefore _ none
  have hback : converted (line ++ behind) = (converted line).andThen (converted behind) :=
    convert_of_endsLine hbehind line none
  rw [List.append_assoc, hfront, hback]

theorem converted_line (h : 10 ∉ line) :
    (converted line).output = (recordOf? line).elim [] Record.image ∧
      (converted line).count = (recordOf? line).elim 0 (·.data.length) := by
  obtain ⟨houtput, hcount, -⟩ := convertLines_eq [line]
  have hconverted : converted line = convertLines none none [line] := by
    rw [← lines_of_not_mem h]
    rfl
  rw [hconverted, houtput, hcount]
  cases hr : recordOf? line <;> simp [hr, Record.image]

theorem converted_of_in (hbefore : BeginsLine before) (hbehind : EndsLine behind)
    (hline : 10 ∉ line) (hr : r.In line) :
    (converted (before ++ line ++ behind)).output =
        (converted before).output ++ r.image ++ (converted behind).output ∧
      (converted (before ++ line ++ behind)).count =
        (converted before).count + r.data.length + (converted behind).count := by
  have hrecord : recordOf? line = some r := recordOf?_eq_some_iff.mpr hr
  obtain ⟨houtput, hcount⟩ := converted_line hline
  rw [converted_between hbefore hbehind, converted_andThen, converted_andThen, houtput, hcount,
    hrecord]
  exact ⟨(List.append_assoc _ _ _).symm, (Nat.add_assoc _ _ _).symm⟩

theorem converted_of_not_in (hbefore : BeginsLine before) (hbehind : EndsLine behind)
    (hline : 10 ∉ line) (hnone : ∀ r : Record, ¬ r.In line) :
    (converted (before ++ line ++ behind)).output =
        (converted before).output ++ (converted behind).output ∧
      (converted (before ++ line ++ behind)).count =
        (converted before).count + (converted behind).count := by
  have hrecord : recordOf? line = none :=
    Option.eq_none_iff_forall_ne_some.mpr fun r hr => hnone r (recordOf?_eq_some_iff.mp hr)
  obtain ⟨houtput, hcount⟩ := converted_line hline
  rw [converted_between hbefore hbehind, converted_andThen, converted_andThen, houtput, hcount,
    hrecord]
  exact ⟨rfl, congrArg _ (Nat.zero_add _)⟩

theorem exists_ofText_of_append {s t : String} (h : bytes ++ .ofText s = .ofText t) :
    ∃ u : String, bytes = .ofText u := by
  have hbytes : t.toByteArray = bytes.toByteArray ++ s.toByteArray := by
    apply ByteArray.ext
    apply Array.toList_inj.mp
    simpa [Bytes.ofText] using h.symm
  -- the text `s` ends with the whole, so where it begins no character is cut
  have hvalid : String.Pos.Raw.IsValid t ⟨bytes.length⟩ := by
    refine String.Pos.Raw.isValid_iff_isValidUTF8_extract_utf8ByteSize.mpr ⟨?_, ?_⟩
    · simp [String.Pos.Raw.le_iff, ← String.size_toByteArray, hbytes]
    · rw [← String.size_toByteArray, hbytes, ByteArray.extract_append_eq_right (by simp) (by simp)]
      exact s.isValidUTF8
  have hfront := hvalid.isValidUTF8_extract_zero
  rw [hbytes, ByteArray.extract_append_eq_left (by simp)] at hfront
  exact ⟨⟨_, hfront⟩, by simp [Bytes.ofText]⟩

theorem text?_append (bytes : Bytes) (s : String) :
    Bytes.text? (bytes ++ .ofText s) = bytes.text?.map (· ++ s) := by
  cases htext : bytes.text? with
  | some text =>
    obtain rfl := text?_eq_some_iff.mp htext
    rw [Option.map_some, text?_eq_some_iff]
    simp [Bytes.ofText]
  | none =>
    refine Option.eq_none_iff_forall_ne_some.mpr fun t ht => ?_
    obtain ⟨text, hbytes⟩ := exists_ofText_of_append (text?_eq_some_iff.mp ht)
    rw [text?_eq_some_iff.mpr hbytes] at htext
    cases htext

theorem read_append_blank (line : Bytes) (h : ∀ c ∈ blank, isBlank c) :
    Line.read (line ++ utf8 blank) = Line.read line := by
  unfold Line.read
  rw [← ofText_ofList, text?_append]
  cases line.text? with
  | none => rfl
  | some text =>
    simp only [Option.map_some, String.toList_append, String.toList_ofList, trimEnd_append_blank h]

/-- In the bytes of a character there is a newline only if the character is one. -/
theorem eq_newline_of_mem {c : Char} (h : 10 ∈ String.utf8EncodeChar c) : c = '\n' := by
  rcases encode_cases c with ⟨he, hc⟩ | ⟨first, more, he, hfirst, -, hmore⟩
  · rw [he] at h
    have hnat := congrArg UInt8.toNat (List.mem_singleton.mp h)
    rw [UInt8.toNat_ofNat', Nat.mod_eq_of_lt (by omega)] at hnat
    exact Char.toNat_inj.mp hnat.symm
  · rw [he] at h
    rcases List.mem_cons.mp h with rfl | h
    · exact absurd hfirst (by decide)
    · exact absurd (hmore 10 h) (by decide)

/-- An input is a line with others behind it, or a last line, which no newline ends. -/
theorem lines_induction {P : Bytes → Prop} (last : ∀ line, 10 ∉ line → P line)
    (more : ∀ line rest, 10 ∉ line → P rest → P (line ++ 10 :: rest)) (bytes : Bytes) :
    P bytes := by
  by_cases h : 10 ∈ bytes
  · obtain ⟨line, rest, hbytes, hline⟩ := List.eq_append_cons_of_mem h
    have hshorter : rest.length < bytes.length := by
      rw [hbytes, List.length_append, List.length_cons]
      omega
    exact hbytes ▸ more line rest hline (lines_induction last more rest)
  · exact last bytes h
termination_by bytes.length

theorem convert_blank_line (hblank : ∀ c ∈ blank, isBlank c) (h : 10 ∉ line)
    (h' : 10 ∉ line ++ utf8 blank) (room : Option Nat) :
    convert ⟨line ++ utf8 blank, none⟩ room = convert ⟨line, none⟩ room := by
  simp only [convert, lines_of_not_mem h, lines_of_not_mem h', Option.isSome_none,
    Bool.false_eq_true, if_false, convertLines, read_append_blank line hblank]

theorem convert_blank_char {c : Char} (hc : isBlank c) (bytes : Bytes) (room : Option Nat) :
    convert ⟨bytes ++ utf8 [c], none⟩ room = convert ⟨bytes, none⟩ room := by
  by_cases hnewline : c = '\n'
  · rw [hnewline]
    exact convert_newline bytes room
  · -- any other white space stays within the last line, so the induction is on the lines before it
    have hnone : 10 ∉ utf8 [c] := by
      rw [utf8_cons, utf8_nil, List.append_nil]
      exact fun h => hnewline (eq_newline_of_mem h)
    induction bytes using lines_induction generalizing room with
    | last line hline =>
      have hboth : 10 ∉ line ++ utf8 [c] := fun h =>
        (List.mem_append.mp h).elim hline hnone
      exact convert_blank_line (by simpa using hc) hline hboth room
    | more line rest _ ih =>
      rw [List.append_assoc, List.cons_append, convert_append, convert_append, ih]

theorem convert_append_blank (hblank : ∀ c ∈ blank, isBlank c) (bytes : Bytes)
    (room : Option Nat) :
    convert ⟨bytes ++ utf8 blank, none⟩ room = convert ⟨bytes, none⟩ room := by
  induction blank generalizing bytes with
  | nil => rw [utf8_nil, List.append_nil]
  | cons c blank ih =>
    obtain ⟨hc, hblank⟩ := List.forall_mem_cons.mp hblank
    have hsplit : bytes ++ utf8 (c :: blank) = bytes ++ utf8 [c] ++ utf8 blank := by
      simp [List.append_assoc]
    rw [hsplit, ih hblank, convert_blank_char hc]

theorem convert_of_spaced {a b : Bytes} (h : Spaced a b) (room : Option Nat) :
    convert ⟨b, none⟩ room = convert ⟨a, none⟩ room := by
  obtain ⟨before, hblank, hends⟩ := h
  rw [convert_of_endsLine hends, convert_append_blank hblank, ← convert_of_endsLine hends]

theorem withReturns_of_not_mem (h : 10 ∉ line) : withReturns line = line := by
  have hsame : ∀ b ∈ line, (if b = 10 then [13, 10] else [b]) = [b] := by
    intro b hb
    refine if_neg ?_
    rintro rfl
    exact h hb
  rw [withReturns, List.flatMap_congr hsame, List.flatMap_singleton']

theorem convert_withReturns (bytes : Bytes) (failure : Option Fault) (room : Option Nat) :
    convert ⟨withReturns bytes, failure⟩ room = convert ⟨bytes, failure⟩ room := by
  induction bytes using lines_induction generalizing room with
  | last line h => rw [withReturns_of_not_mem h]
  | more line rest h ih =>
    have hreturns : withReturns (line ++ 10 :: rest) =
        (line ++ utf8 ['\r']) ++ 10 :: withReturns rest := by
      have hline : line.flatMap (fun b => if b = 10 then [13, 10] else [b]) = line :=
        withReturns_of_not_mem h
      simp only [withReturns, List.flatMap_append, List.flatMap_cons, hline, if_true,
        List.append_assoc]
      rfl
    have hblank : ∀ c ∈ ['\r'], isBlank c := List.all_eq_true.mp (by decide)
    rw [hreturns, convert_append, convert_append_blank hblank, ih, convert_append]

end

/-- Two inputs with a newline between them are converted in turn. A line without a record, in the
place of another one, takes away the image of that one's record and nothing else. White space where
lines end may come and go, and so may the newline at the end of the input. Whether lines end with a
newline alone or with a carriage return before it makes no difference, even if reading or writing
fails on the way. -/
theorem convert_linewise :
    (∀ a b : Bytes,
      (converted (a ++ 10 :: b)).output = (converted a).output ++ (converted b).output ∧
        (converted (a ++ 10 :: b)).count = (converted a).count + (converted b).count) ∧
    (∀ before line other behind : Bytes, BeginsLine before → EndsLine behind → 10 ∉ line →
      10 ∉ other → (∀ r : Record, ¬ r.In other) →
        let whole := converted (before ++ line ++ behind)
        let less := converted (before ++ other ++ behind)
        less.output = (converted before).output ++ (converted behind).output ∧
          (∀ r : Record, r.In line →
            whole.output = (converted before).output ++ r.image ++ (converted behind).output ∧
              whole.count = less.count + r.data.length) ∧
          ((∀ r : Record, ¬ r.In line) →
            whole.output = less.output ∧ whole.count = less.count)) ∧
    (∀ a b : Bytes, Relation.EqvGen Spaced a b →
      ∀ room, convert ⟨a, none⟩ room = convert ⟨b, none⟩ room) ∧
    (∀ (bytes : Bytes) (room : Option Nat),
      convert ⟨bytes ++ [10], none⟩ room = convert ⟨bytes, none⟩ room) ∧
    ∀ (bytes : Bytes) (failure : Option Fault) (room : Option Nat),
      convert ⟨withReturns bytes, failure⟩ room = convert ⟨bytes, failure⟩ room := by
  refine ⟨fun a b => ?_, ?_, fun a b h room => ?_, convert_newline, convert_withReturns⟩
  · have happend : converted (a ++ 10 :: b) = (converted a).andThen (converted b) :=
      convert_append a b none none
    rw [happend, converted_andThen]
    exact ⟨rfl, rfl⟩
  · intro before line other behind hbefore hbehind hline hother hnone whole less
    obtain ⟨houtput, hcount⟩ := converted_of_not_in hbefore hbehind hother hnone
    refine ⟨houtput, fun r hr => ?_, fun hnone' => ?_⟩
    · obtain ⟨houtput', hcount'⟩ := converted_of_in hbefore hbehind hline hr
      refine ⟨houtput', hcount'.trans ?_⟩
      rw [hcount, Nat.add_right_comm]
    · obtain ⟨houtput', hcount'⟩ := converted_of_not_in hbefore hbehind hline hnone'
      exact ⟨houtput'.trans houtput.symm, hcount'.trans hcount.symm⟩
  · induction h with
    | rel a b h => exact (convert_of_spaced h room).symm
    | refl a => rfl
    | symm a b _ ih => exact ih.symm
    | trans a b c _ _ ih ih' => exact ih.trans ih'

theorem convert_linewise_replaced :
    let before : Bytes := .ofText ":0100000011EE\n"
    let line : Bytes := .ofText ":02002000AABB79"
    let behind : Bytes := .ofText "\n:0100010022DC"
    BeginsLine before ∧ EndsLine behind ∧ Record.In ⟨0x20, 0, [0xAA, 0xBB]⟩ line ∧
      (∀ r : Record, ¬ r.In [0xFF, 0xFE]) ∧
      (converted (before ++ line ++ behind)).output =
        "@00 11\n@20 aa\n@21 bb\n@01 22\n".toList ∧
      (converted (before ++ [0xFF, 0xFE] ++ behind)).output = "@00 11\n@01 22\n".toList ∧
      Spaced before (.ofText ":0100000011EE \u3000\r\n") ∧
      ∀ room, convert ⟨before, none⟩ room =
        convert ⟨.ofText ":0100000011EE \u3000\r\n", none⟩ room := by
  intro before line behind
  have hbefore : BeginsLine before := .inr (by decide +kernel)
  have hbehind : EndsLine behind := .inr (by decide +kernel)
  have hrecord : Record.In ⟨0x20, 0, [0xAA, 0xBB]⟩ line :=
    recordOf?_eq_some_iff.mp (by decide +kernel)
  have hnone : ∀ r : Record, ¬ r.In [0xFF, 0xFE] := by
    intro r hr
    cases (by decide +kernel : recordOf? [0xFF, 0xFE] = none).symm.trans
      (recordOf?_eq_some_iff.mpr hr)
  have hblank : ∀ c ∈ [' ', '\u3000', '\r'], isBlank c := List.all_eq_true.mp (by decide)
  have hspaced : Spaced before (.ofText ":0100000011EE \u3000\r\n") :=
    .intro (.ofText ":0100000011EE") hblank (.inr rfl)
  obtain ⟨-, hreplaced, hspaces, -⟩ := convert_linewise
  obtain ⟨hless, hwhole, -⟩ := hreplaced before line [0xFF, 0xFE] behind hbefore hbehind
    (by decide +kernel) (by decide) hnone
  refine ⟨hbefore, hbehind, hrecord, hnone, (hwhole _ hrecord).1.trans ?_, hless.trans ?_, hspaced,
    hspaces _ _ (.rel _ _ hspaced)⟩
  · decide +kernel
  · decide +kernel

end RegMap.MemoryImage
