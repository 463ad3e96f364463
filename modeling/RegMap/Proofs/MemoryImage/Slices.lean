import RegMap.Files.Access
import RegMap.Proofs.MemoryImage.Record

/-!
Records read from the bytes of a line, cut at fixed places. No cut may be inside a character, and
every byte of a record has to be a digit. A digit is one byte, so this accepts the same lines as
reading their characters in turn, wherever longer characters stand.
-/

set_option autoImplicit false

namespace RegMap.MemoryImage

open Files Text

/-- A character begins at the position, or the text ends there. -/
def Boundary (text : Bytes) (position : Nat) : Prop :=
  ∀ b ∈ text[position]?, ¬ (128 ≤ b ∧ b < 192)

instance (text : Bytes) (position : Nat) : Decidable (Boundary text position) :=
  decidable_of_iff (text[position]?.all fun b => ¬ (128 ≤ b ∧ b < 192)) (by
    simp only [Option.all_eq_true, decide_eq_true_eq]
    rfl)

def slice? (text : Bytes) (position count : Nat) : Option Bytes :=
  if position + count ≤ text.length ∧ Boundary text position ∧ Boundary text (position + count) then
    some ((text.drop position).take count)
  else none

def byteDigit? (b : UInt8) : Option Nat := digitValue? (Char.ofNat b.toNat)

def hexBytes? : Bytes → Option (List UInt8)
  | [] => some []
  | [_] => none
  | high :: low :: rest => do
    let h ← byteDigit? high
    let l ← byteDigit? low
    let more ← hexBytes? rest
    return UInt8.ofNat (16 * h + l) :: more

def Record.cut? : Bytes → Option Record
  | 58 :: line => do
    match ← hexBytes? (← slice? line 0 8) with
    | [length, high, low, recordType] =>
      let data ← hexBytes? (← slice? line 8 (2 * length.toNat))
      return ⟨UInt16.ofNat (256 * high.toNat + low.toNat), recordType, data⟩
    | _ => none
  | _ => none

def utf8 (s : List Char) : Bytes := s.flatMap String.utf8EncodeChar

section

variable {c : Char} {s : List Char} {text behind : Bytes} {bytes : List UInt8} {n : Nat} {b : UInt8}

theorem ofText_ofList (s : List Char) : Bytes.ofText (String.ofList s) = utf8 s := by
  rw [Bytes.ofText, utf8]
  exact List.toList_data_toByteArray

@[simp] theorem utf8_nil : utf8 [] = [] := rfl

@[simp] theorem utf8_cons (c : Char) (s : List Char) :
    utf8 (c :: s) = String.utf8EncodeChar c ++ utf8 s := List.flatMap_cons

/-- A character is one byte, its own number, or begins with a byte that is neither that of a
character nor one inside a character; and no byte of it is a character of its own. -/
theorem encode_cases (c : Char) : String.utf8EncodeChar c = [UInt8.ofNat c.toNat] ∧ c.toNat < 128 ∨
    ∃ first more, String.utf8EncodeChar c = first :: more ∧ 192 ≤ first.toNat ∧ 128 ≤ c.toNat ∧
      ∀ b ∈ more, 128 ≤ b.toNat := by
  have hval : c.val.toNat = c.toNat := rfl
  unfold String.utf8EncodeChar
  simp only [hval]
  split_ifs with h1 h2 h3
  · exact .inl ⟨rfl, by omega⟩
  all_goals
    refine .inr ⟨_, _, rfl, ?_, by omega, ?_⟩
    · rw [UInt8.toNat_ofNat']
      omega
    · simp only [List.forall_mem_cons, List.not_mem_nil, false_implies, implies_true, and_true,
        UInt8.toNat_ofNat']
      omega

theorem digitValue?_of_large (h : 128 ≤ c.toNat) : digitValue? c = none := by
  refine Option.eq_none_iff_forall_ne_some.mpr fun d hd => ?_
  have hlt : c.toNat < 128 :=
    (isDigit_of_value hd).of_all (p := fun _ c => c.toNat < 128) (by decide)
  omega

theorem byteDigit?_of_large (h : 128 ≤ b.toNat) : byteDigit? b = none := by
  have hlt := b.toNat_lt
  have hvalid : (Char.ofNat b.toNat).toNat = b.toNat := by
    rw [Char.ofNat, dif_pos (.inl (by omega))]
    rfl
  exact digitValue?_of_large (hvalid.symm ▸ h)

theorem byteDigit?_ascii (h : c.toNat < 128) :
    byteDigit? (UInt8.ofNat c.toNat) = digitValue? c := by
  rw [byteDigit?, UInt8.toNat_ofNat', Nat.mod_eq_of_lt (by omega), Char.ofNat_toNat]

theorem boundary_utf8 (s : List Char) : Boundary (utf8 s) 0 := by
  intro b hb
  cases s with
  | nil => cases hb
  | cons c s =>
    rw [utf8_cons] at hb
    rintro ⟨hlow, hhigh⟩
    have hlow := UInt8.le_iff_toNat_le.mp hlow
    have hhigh := UInt8.lt_iff_toNat_lt.mp hhigh
    rcases encode_cases c with ⟨he, hc⟩ | ⟨first, more, he, hfirst, -⟩
    · rw [he] at hb
      obtain rfl := Option.some.inj hb
      rw [UInt8.toNat_ofNat', Nat.mod_eq_of_lt (by omega)] at hlow
      exact absurd hlow (by simpa using hc)
    · rw [he] at hb
      obtain rfl := Option.some.inj hb
      exact absurd hhigh (by simpa using hfirst)

theorem hexBytes?_of_first (h : 128 ≤ b.toNat) : hexBytes? (b :: text) = none := by
  cases text with
  | nil => rfl
  | cons low text => simp [hexBytes?, byteDigit?_of_large h]

theorem hexBytes?_of_second {high : UInt8} (h : 128 ≤ b.toNat) :
    hexBytes? (high :: b :: text) = none := by
  cases hd : byteDigit? high <;> simp [hexBytes?, hd, byteDigit?_of_large h]

theorem readBytes?_of_first (h : digitValue? c = none) :
    Record.readBytes? (n + 1) (c :: s) = none := by
  cases s with
  | nil => rfl
  | cons d s => simp [Record.readBytes?, h]

theorem readBytes?_of_second {d : Char} (h : digitValue? d = none) :
    Record.readBytes? (n + 1) (c :: d :: s) = none := by
  cases hc : digitValue? c <;> simp [Record.readBytes?, hc, h]

theorem hexBytes?_take_iff : 2 * n ≤ (utf8 s).length ∧
    hexBytes? ((utf8 s).take (2 * n)) = some bytes ∧ (utf8 s).drop (2 * n) = behind ↔
      ∃ rest, Record.readBytes? n s = some (bytes, rest) ∧ utf8 rest = behind := by
  induction n generalizing s bytes with
  | zero =>
    simp only [Nat.mul_zero, Nat.zero_le, List.take_zero, hexBytes?, Option.some.injEq, true_and,
      Record.readBytes?, Prod.mk.injEq, List.drop_zero]
    constructor
    · rintro ⟨rfl, rfl⟩
      exact ⟨s, ⟨rfl, rfl⟩, rfl⟩
    · rintro ⟨_, ⟨rfl, rfl⟩, rfl⟩
      exact ⟨rfl, rfl⟩
  | succ n ih =>
    have htwo : 2 * (n + 1) = 2 * n + 1 + 1 := rfl
    rcases s with _ | ⟨c, s⟩
    · simp [Record.readBytes?]
    rcases encode_cases c with ⟨hec, hc⟩ | ⟨first, more, hec, hfirst, hc, -⟩
    case inr =>
      simp [hec, htwo, hexBytes?_of_first (Nat.le_trans (by decide) hfirst),
        readBytes?_of_first (digitValue?_of_large hc)]
    rcases s with _ | ⟨d, s⟩
    · simp [hec, htwo, Record.readBytes?]
    rcases encode_cases d with ⟨hed, hd⟩ | ⟨first, more, hed, hfirst, hd, -⟩
    case inr =>
      simp [hec, hed, htwo, hexBytes?_of_second (Nat.le_trans (by decide) hfirst),
        readBytes?_of_second (digitValue?_of_large hd)]
    -- two characters of one byte each, behind which the induction goes on
    have hlength : 2 * (n + 1) ≤ (utf8 (c :: d :: s)).length ↔ 2 * n ≤ (utf8 s).length := by
      simp [hec, hed, htwo]
    rw [hlength]
    simp only [utf8_cons, hec, hed, htwo, List.singleton_append, List.take_succ_cons,
      List.drop_succ_cons, hexBytes?, byteDigit?_ascii hc, byteDigit?_ascii hd, Record.readBytes?,
      Option.bind_eq_bind, Option.bind_eq_some_iff, Option.pure_def, Option.some.injEq,
      Prod.mk.injEq]
    constructor
    · rintro ⟨hn, ⟨h, hh, l, hl, more, hmore, rfl⟩, hbehind⟩
      obtain ⟨rest, hread, hrest⟩ := ih.mp ⟨hn, hmore, hbehind⟩
      exact ⟨rest, ⟨h, hh, l, hl, (more, rest), hread, rfl, rfl⟩, hrest⟩
    · rintro ⟨rest, ⟨h, hh, l, hl, ⟨more, _⟩, hread, rfl, rfl⟩, hrest⟩
      obtain ⟨hn, hmore, hbehind⟩ := ih.mpr ⟨_, hread, hrest⟩
      exact ⟨hn, ⟨h, hh, l, hl, more, hmore, rfl⟩, hbehind⟩

/-- A slice of digits, wherever in the text it begins, is what is read there. -/
theorem slice?_eq (before : Bytes) (s : List Char) (n : Nat) :
    (slice? (before ++ utf8 s) before.length (2 * n)).bind hexBytes? =
      (Record.readBytes? n s).map Prod.fst := by
  have hboundary : Boundary (before ++ utf8 s) before.length := by
    intro b hb
    rw [List.getElem?_append_right le_rfl, Nat.sub_self] at hb
    exact boundary_utf8 s b hb
  ext bytes
  simp only [slice?, List.length_append, hboundary, true_and, Nat.add_le_add_iff_left,
    List.drop_left, Option.bind_eq_some_iff, Option.ite_none_right_eq_some, Option.some.injEq,
    Option.map_eq_some_iff, Prod.exists, exists_and_right, exists_eq_right]
  constructor
  · rintro ⟨_, ⟨⟨hn, -⟩, rfl⟩, hbytes⟩
    obtain ⟨rest, hread, -⟩ := hexBytes?_take_iff.mp ⟨hn, hbytes, rfl⟩
    exact ⟨rest, hread⟩
  · rintro ⟨rest, hread⟩
    obtain ⟨hn, hbytes, hdrop⟩ := hexBytes?_take_iff.mpr ⟨rest, hread, rfl⟩
    refine ⟨_, ⟨⟨hn, fun b hb => ?_⟩, rfl⟩, hbytes⟩
    rw [List.getElem?_append_right (Nat.le_add_right _ _), Nat.add_sub_cancel_left] at hb
    refine boundary_utf8 rest b ?_
    rw [← hdrop, List.getElem?_drop]
    exact hb

theorem cut?_of_first (h : b ≠ 58) : Record.cut? (b :: text) = none := by
  unfold Record.cut?
  split
  · next he => exact absurd (List.cons.inj he).1 h
  · rfl

theorem cut?_of_ne_colon (h : c ≠ ':') : Record.cut? (utf8 (c :: s)) = none := by
  rw [utf8_cons]
  rcases encode_cases c with ⟨he, hlt⟩ | ⟨first, more, he, hfirst, -⟩
  · rw [he]
    refine cut?_of_first fun hcolon => h ?_
    have hnat := congrArg UInt8.toNat hcolon
    rw [UInt8.toNat_ofNat', Nat.mod_eq_of_lt (by omega)] at hnat
    exact Char.toNat_inj.mp hnat
  · rw [he]
    refine cut?_of_first ?_
    rintro rfl
    exact absurd hfirst (by decide)

theorem slice?_behind {header : List UInt8} {behind : List Char}
    (h : Record.readBytes? 4 s = some (header, behind)) (n : Nat) :
    (slice? (utf8 s) 8 (2 * n)).bind hexBytes? = (Record.readBytes? n behind).map Prod.fst := by
  obtain ⟨hn, -, hdrop⟩ := hexBytes?_take_iff.mpr ⟨behind, h, rfl⟩
  have hsplit : utf8 s = (utf8 s).take 8 ++ utf8 behind := by
    rw [← hdrop, List.take_append_drop]
  have hlength : ((utf8 s).take 8).length = 8 := by
    rw [List.length_take]
    omega
  have hslice := slice?_eq ((utf8 s).take 8) behind n
  rwa [hlength, ← hsplit] at hslice

/-- Cutting a line at its bytes and reading its characters in turn come to the same. -/
theorem cut?_utf8 (s : List Char) : Record.cut? (utf8 s) = Record.read? s := by
  rcases s with _ | ⟨c, s⟩
  · rfl
  by_cases hc : c = ':'
  case neg =>
    rw [cut?_of_ne_colon hc]
    unfold Record.read?
    split
    · next he => exact absurd (List.cons.inj he).1 hc
    · rfl
  subst hc
  have hcut : Record.cut? (utf8 (':' :: s)) =
      ((slice? (utf8 s) 0 8).bind hexBytes?).bind fun header => match header with
        | [length, high, low, recordType] =>
          ((slice? (utf8 s) 8 (2 * length.toNat)).bind hexBytes?).bind fun data =>
            some ⟨UInt16.ofNat (256 * high.toNat + low.toNat), recordType, data⟩
        | _ => none := by
    simp only [Option.bind_assoc]
    rfl
  have hheader := slice?_eq [] s 4
  rw [List.nil_append, List.length_nil] at hheader
  rw [hcut, hheader, Record.read?]
  cases hread : Record.readBytes? 4 s with
  | none => rfl
  | some header =>
    obtain ⟨header, behind⟩ := header
    simp only [Option.map_some, Option.bind_some, Option.bind_eq_bind, slice?_behind hread]
    split
    · next length high low recordType =>
      cases hdata : Record.readBytes? length.toNat behind <;> simp [hdata]
    · next hne =>
      split
      · next he =>
        cases he
        exact absurd rfl (hne _ _ _ _)
      · rfl

end

end RegMap.MemoryImage
