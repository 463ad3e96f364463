import Mathlib.Data.List.Basic
import Mathlib.Data.List.Forall2
import RegMap.MemoryImage.Record
import RegMap.Proofs.Text

/-!
The text of a record. A line is a record if it begins with such a text, whatever stands behind it;
the digits of a record are no white space, so cutting that off at the end of a line changes nothing.
-/

set_option autoImplicit false

namespace RegMap.MemoryImage

open Text

structure Field (digits : Nat) (text : List Char) (n : Nat) : Prop where
  length : text.length = digits
  denotes : Denotes 16 text n

/-- A text `:LLAAAATT` with two digits for each byte of the data behind it. -/
inductive Record.Spelled (r : Record) : List Char → Prop where
  | intro {length address recordType : List Char} {data : List (List Char)}
      (hl : Field 2 length r.data.length) (ha : Field 4 address r.address.toNat)
      (ht : Field 2 recordType r.recordType.toNat)
      (hd : List.Forall₂ (fun value pair => Field 2 pair value.toNat) r.data data) :
      Spelled r (':' :: (length ++ address ++ recordType ++ data.flatten))

def Record.Begins (r : Record) (line : List Char) : Prop := ∃ text, r.Spelled text ∧ text <+: line

section

variable {n : Nat} {text rest pair line behind : List Char} {c d : Char} {value : UInt8}
  {bytes : List UInt8} {r : Record}

theorem denotes_pair_iff :
    Denotes 16 [c, d] n ↔
      ∃ h l, digitValue? c = some h ∧ digitValue? d = some l ∧ n = 16 * h + l := by
  have hvalue {c : Char} {k : Nat} : IsDigit 16 k c ↔ digitValue? c = some k :=
    ⟨fun h => h.value le_rfl, isDigit_of_value⟩
  rw [← List.singleton_append, denotes_append_iff (by simp) (by simp)]
  simp only [denotes_singleton_iff, hvalue, List.length_singleton, pow_one, mul_comm]

/-- A byte is the number that two digits denote. -/
theorem field_byte_iff : Field 2 pair value.toNat ↔
    ∃ c d h l, pair = [c, d] ∧ digitValue? c = some h ∧ digitValue? d = some l ∧
      value = UInt8.ofNat (16 * h + l) := by
  constructor
  · rintro ⟨hlength, hdenotes⟩
    obtain ⟨c, d, rfl⟩ := List.length_eq_two.mp hlength
    obtain ⟨h, l, hc, hd, hn⟩ := denotes_pair_iff.mp hdenotes
    exact ⟨c, d, h, l, rfl, hc, hd, by rw [← hn, UInt8.ofNat_toNat]⟩
  · rintro ⟨c, d, h, l, rfl, hc, hd, rfl⟩
    refine ⟨rfl, denotes_pair_iff.mpr ⟨h, l, hc, hd, ?_⟩⟩
    have hh := (isDigit_of_value hc).1
    have hl := (isDigit_of_value hd).1
    rw [UInt8.toNat_ofNat']
    omega

theorem readBytes?_succ_iff : Record.readBytes? (n + 1) text = some (bytes, rest) ↔
    ∃ value more pair behind, bytes = value :: more ∧ text = pair ++ behind ∧
      Field 2 pair value.toNat ∧ Record.readBytes? n behind = some (more, rest) := by
  constructor
  · intro hread
    match text, hread with
    | c :: d :: behind, hread =>
      simp only [Record.readBytes?, Option.bind_eq_bind, Option.bind_eq_some_iff, Option.pure_def,
        Option.some.injEq, Prod.mk.injEq] at hread
      obtain ⟨h, hc, l, hd, ⟨more, left⟩, hmore, rfl, rfl⟩ := hread
      exact ⟨_, more, [c, d], behind, rfl, rfl, field_byte_iff.mpr ⟨c, d, h, l, rfl, hc, hd, rfl⟩,
        hmore⟩
  · rintro ⟨value, more, pair, behind, rfl, rfl, hpair, hmore⟩
    obtain ⟨c, d, h, l, rfl, hc, hd, rfl⟩ := field_byte_iff.mp hpair
    simp [Record.readBytes?, hc, hd, hmore]

theorem readBytes?_eq_some_iff : Record.readBytes? n text = some (bytes, rest) ↔
    bytes.length = n ∧ ∃ pairs : List (List Char), text = pairs.flatten ++ rest ∧
      List.Forall₂ (fun value pair => Field 2 pair value.toNat) bytes pairs := by
  induction n generalizing text bytes with
  | zero =>
    rw [Record.readBytes?]
    constructor
    · intro h
      cases h
      exact ⟨rfl, [], rfl, .nil⟩
    · rintro ⟨hlength, pairs, rfl, hpairs⟩
      obtain rfl := List.length_eq_zero_iff.mp hlength
      cases hpairs
      rfl
  | succ n ih =>
    simp only [readBytes?_succ_iff, ih]
    constructor
    · rintro ⟨value, more, pair, _, rfl, rfl, hpair, rfl, pairs, rfl, hpairs⟩
      exact ⟨rfl, pair :: pairs, by simp, .cons hpair hpairs⟩
    · rintro ⟨hlength, pairs, rfl, hpairs⟩
      cases hpairs with
      | nil => cases hlength
      | @cons value pair more pairs hpair hpairs =>
        exact ⟨value, more, pair, _, rfl, by simp, hpair, Nat.succ.inj hlength, pairs, rfl, hpairs⟩

theorem exists_byte (h : Field 2 pair n) : ∃ value : UInt8, value.toNat = n := by
  obtain ⟨c, d, rfl⟩ := List.length_eq_two.mp h.length
  obtain ⟨high, low, hc, hd, rfl⟩ := denotes_pair_iff.mp h.denotes
  have hhigh := (isDigit_of_value hc).1
  have hlow := (isDigit_of_value hd).1
  refine ⟨UInt8.ofNat (16 * high + low), ?_⟩
  rw [UInt8.toNat_ofNat']
  omega

theorem field_address_iff {address : UInt16} : Field 4 text address.toNat ↔
    ∃ p q, text = p ++ q ∧ ∃ high low : UInt8, Field 2 p high.toNat ∧ Field 2 q low.toNat ∧
      address = UInt16.ofNat (256 * high.toNat + low.toNat) := by
  constructor
  · rintro ⟨hlength, hdenotes⟩
    have hp : (text.take 2).length = 2 := by rw [List.length_take, hlength]; rfl
    have hq : (text.drop 2).length = 2 := by rw [List.length_drop, hlength]
    have hne {s : List Char} (hs : s.length = 2) : s ≠ [] := List.ne_nil_of_length_pos (by omega)
    rw [← List.take_append_drop 2 text, denotes_append_iff (hne hp) (hne hq)] at hdenotes
    obtain ⟨m, k, hm, hk, hn⟩ := hdenotes
    obtain ⟨high, rfl⟩ := exists_byte ⟨hp, hm⟩
    obtain ⟨low, rfl⟩ := exists_byte ⟨hq, hk⟩
    refine ⟨_, _, (List.take_append_drop 2 text).symm, high, low, ⟨hp, hm⟩, ⟨hq, hk⟩, ?_⟩
    rw [← UInt16.ofNat_toNat (x := address), hn, hq, mul_comm]
    rfl
  · rintro ⟨p, q, rfl, high, low, ⟨hp, hm⟩, ⟨hq, hk⟩, rfl⟩
    refine ⟨by rw [List.length_append, hp, hq], ?_⟩
    have hne {s : List Char} (hs : s.length = 2) : s ≠ [] := List.ne_nil_of_length_pos (by omega)
    refine (denotes_append_iff (hne hp) (hne hq)).mpr ⟨_, _, hm, hk, ?_⟩
    have hhigh := high.toNat_lt
    have hlow := low.toNat_lt
    rw [UInt16.toNat_ofNat', hq]
    omega

theorem read?_colon_iff : Record.read? (':' :: text) = some r ↔
    ∃ (length high low : UInt8) (behind rest : List Char),
      Record.readBytes? 4 text = some ([length, high, low, r.recordType], behind) ∧
        Record.readBytes? length.toNat behind = some (r.data, rest) ∧
          r.address = UInt16.ofNat (256 * high.toNat + low.toNat) := by
  rw [Record.read?]
  constructor
  · intro h
    obtain ⟨header, hheader, h⟩ := Option.bind_eq_some_iff.mp h
    split at h
    · obtain ⟨data, hdata, h⟩ := Option.bind_eq_some_iff.mp h
      cases h
      exact ⟨_, _, _, _, data.2, hheader, hdata, rfl⟩
    · cases h
  · rintro ⟨length, high, low, behind, rest, hheader, hdata, ha⟩
    simp only [hheader, hdata, ← ha, Option.bind_eq_bind, Option.bind_some, Option.pure_def]

/-- A line is read as a record just if it begins with the text of that record. -/
theorem read?_eq_some_iff : Record.read? line = some r ↔ r.Begins line := by
  constructor
  · intro h
    obtain ⟨text, rfl⟩ : ∃ text, line = ':' :: text := by
      unfold Record.read? at h
      split at h
      · exact ⟨_, rfl⟩
      · cases h
    obtain ⟨length, high, low, behind, rest, hheader, hdata, ha⟩ := read?_colon_iff.mp h
    obtain ⟨-, header, rfl, hfields⟩ := readBytes?_eq_some_iff.mp hheader
    obtain ⟨hlength, data, rfl, hd⟩ := readBytes?_eq_some_iff.mp hdata
    simp only [List.forall₂_cons_left_iff, List.forall₂_nil_left_iff] at hfields
    obtain ⟨p, _, hl, ⟨q, _, hhigh, ⟨s, _, hlow, ⟨t, _, ht, rfl, rfl⟩, rfl⟩, rfl⟩, rfl⟩ := hfields
    have haddress : Field 4 (q ++ s) r.address.toNat :=
      field_address_iff.mpr ⟨q, s, rfl, high, low, hhigh, hlow, ha⟩
    refine ⟨_, .intro (hlength ▸ hl) haddress ht hd, rest, ?_⟩
    simp
  · rintro ⟨_, @⟨length, address, recordType, data, hl, ha, ht, hd⟩, rest, rfl⟩
    obtain ⟨count, hcount⟩ := exists_byte hl
    obtain ⟨p, q, rfl, high, low, hhigh, hlow, haddress⟩ := field_address_iff.mp ha
    have hheader : Record.readBytes? 4
        (length ++ (p ++ q) ++ recordType ++ data.flatten ++ rest) =
          some ([count, high, low, r.recordType], data.flatten ++ rest) :=
      readBytes?_eq_some_iff.mpr ⟨rfl, [length, p, q, recordType], by simp,
        .cons (hcount ▸ hl) (.cons hhigh (.cons hlow (.cons ht .nil)))⟩
    have hdata : Record.readBytes? count.toNat (data.flatten ++ rest) = some (r.data, rest) :=
      readBytes?_eq_some_iff.mpr ⟨hcount.symm, data, rfl, hd⟩
    exact read?_colon_iff.mpr ⟨count, high, low, _, rest, hheader, hdata, haddress⟩

theorem exists_field {pairs : List (List Char)}
    (h : List.Forall₂ (fun value pair => Field 2 pair value.toNat) bytes pairs) :
    ∀ pair ∈ pairs, ∃ n, Field 2 pair n := by
  induction h with
  | nil => nofun
  | cons hpair _ ih => exact List.forall_mem_cons.mpr ⟨⟨_, hpair⟩, ih⟩

theorem Record.Spelled.not_blank (h : r.Spelled text) : ∀ c ∈ text, isBlank c = false := by
  have hfield {digits n : Nat} {s : List Char} (hs : Field digits s n) :
      ∀ c ∈ s, isBlank c = false := hs.denotes.forall_mem fun c d hc => hc.not_blank le_rfl
  obtain ⟨hl, ha, ht, hd⟩ := h
  intro c hc
  simp only [List.mem_cons, List.mem_append, List.mem_flatten] at hc
  rcases hc with rfl | ((hc | hc) | hc) | ⟨pair, hpair, hc⟩
  · decide
  · exact hfield hl c hc
  · exact hfield ha c hc
  · exact hfield ht c hc
  · obtain ⟨n, hn⟩ := exists_field hd pair hpair
    exact hfield hn c hc

theorem begins_trimEnd : r.Begins (trimEnd line) ↔ r.Begins line := by
  constructor
  · rintro ⟨text, htext, hprefix⟩
    exact ⟨text, htext, hprefix.trans (trimEnd_isPrefix line)⟩
  · rintro ⟨text, htext, rest, rfl⟩
    rw [Record.Begins, trimEnd_append htext.not_blank]
    exact ⟨text, htext, List.prefix_append _ _⟩

end

end RegMap.MemoryImage
