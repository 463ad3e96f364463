import RegMap.Proofs.MemoryImage.Slices
import RegMap.Proofs.Numeral

set_option autoImplicit false

namespace RegMap.Text

def hexField : Nat → Nat → List Char
  | 0, _ => []
  | digits + 1, n => hexField digits (n / 16) ++ [Nat.digitChar (n % 16)]

end RegMap.Text

namespace RegMap.MemoryImage

open Files Text

def Record.encode (r : Record) : List Char :=
  ':' :: (hexField 2 r.data.length ++ hexField 4 r.address.toNat ++ hexField 2 r.recordType.toNat ++
    r.data.flatMap fun value => hexField 2 value.toNat)

/-- The line begins with a colon and digits: two that tell the number of bytes, six more, and two
for each of the bytes. -/
def Record.Shaped (line : List Char) : Prop :=
  ∃ (n : Nat) (length header data rest : List Char),
    line = ':' :: (length ++ header ++ data ++ rest) ∧ Field 2 length n ∧ header.length = 6 ∧
      data.length = 2 * n ∧ ∀ c ∈ header ++ data, ∃ d, IsDigit 16 d c

section

variable {n k : Nat} {text line : List Char} {c : Char} {r : Record} {bytes : List UInt8}

theorem isDigit_iff_toLower : IsDigit 16 n c ↔ n < 16 ∧ c.toLower = Nat.digitChar n :=
  ⟨fun h => ⟨h.1, h.toLower_eq le_rfl⟩, fun h => IsDigit.of_toLower ⟨h.1, .inl h.2⟩ le_rfl⟩

theorem field_iff :
    Field (k + 1) text n ↔ n < 16 ^ (k + 1) ∧ text.map Char.toLower = hexField (k + 1) n := by
  induction k generalizing text n with
  | zero =>
    rw [Nat.zero_add, pow_one, hexField, hexField, List.nil_append]
    constructor
    · rintro ⟨hlength, hdenotes⟩
      obtain ⟨c, rfl⟩ := List.length_eq_one_iff.mp hlength
      obtain ⟨hlt, hc⟩ := isDigit_iff_toLower.mp (denotes_singleton_iff.mp hdenotes)
      exact ⟨hlt, by rw [Nat.mod_eq_of_lt hlt, List.map_singleton, hc]⟩
    · rintro ⟨hlt, htext⟩
      obtain ⟨c, rfl, hc⟩ := List.map_eq_singleton_iff.mp htext
      rw [Nat.mod_eq_of_lt hlt] at hc
      exact ⟨rfl, .one (isDigit_iff_toLower.mpr ⟨hlt, hc⟩)⟩
  | succ k ih =>
    have hpow : 16 ^ (k + 1 + 1) = 16 ^ (k + 1) * 16 := rfl
    rw [hexField, hpow]
    constructor
    · rintro ⟨hlength, hdenotes⟩
      rcases List.eq_nil_or_concat' text with rfl | ⟨front, c, rfl⟩
      · cases hlength
      rw [List.length_append, List.length_singleton, Nat.add_right_cancel_iff] at hlength
      have hfront : front ≠ [] := List.ne_nil_of_length_eq_add_one hlength
      obtain ⟨m, d, hm, hd, rfl⟩ := (denotes_concat_iff hfront).mp hdenotes
      obtain ⟨hlt, hmap⟩ := ih.mp ⟨hlength, hm⟩
      obtain ⟨hd, hc⟩ := isDigit_iff_toLower.mp hd
      have hdiv : (m * 16 + d) / 16 = m := by omega
      have hmod : (m * 16 + d) % 16 = d := by omega
      refine ⟨by omega, ?_⟩
      rw [List.map_append, hmap, List.map_singleton, hc, hdiv, hmod]
    · rintro ⟨hlt, htext⟩
      obtain ⟨front, last, rfl, hfront, hlast⟩ := List.map_eq_append_iff.mp htext
      obtain ⟨c, rfl, hc⟩ := List.map_eq_singleton_iff.mp hlast
      obtain ⟨hlength, hdenotes⟩ := ih.mpr ⟨by omega, hfront⟩
      have hd : IsDigit 16 (n % 16) c := isDigit_iff_toLower.mpr ⟨Nat.mod_lt _ (by decide), hc⟩
      refine ⟨by rw [List.length_append, hlength, List.length_singleton], ?_⟩
      have hconcat := hdenotes.snoc hd
      rwa [Nat.div_add_mod'] at hconcat

theorem fields_iff : (∃ pairs : List (List Char), text = pairs.flatten ∧
    List.Forall₂ (fun value pair => Field 2 pair value.toNat) bytes pairs) ↔
      text.map Char.toLower = bytes.flatMap fun value => hexField 2 value.toNat := by
  induction bytes generalizing text with
  | nil => simp
  | cons value bytes ih =>
    rw [List.flatMap_cons]
    constructor
    · rintro ⟨_, rfl, hpairs⟩
      cases hpairs with
      | cons hpair hpairs =>
        rw [List.flatten_cons, List.map_append, (field_iff.mp hpair).2, ih.mp ⟨_, rfl, hpairs⟩]
    · intro htext
      obtain ⟨pair, rest, rfl, hpair, hrest⟩ := List.map_eq_append_iff.mp htext
      obtain ⟨pairs, rfl, hpairs⟩ := ih.mpr hrest
      exact ⟨pair :: pairs, rfl, .cons (field_iff.mpr ⟨value.toNat_lt, hpair⟩) hpairs⟩

theorem eq_colon_of_toLower (h : c.toLower = ':') : c = ':' := by
  rcases eq_toLower_or_eq_toUpper c with hc | hc
  · rw [hc, h]
  · rw [hc, h]
    rfl

theorem spelled_iff :
    r.Spelled text ↔ r.data.length < 256 ∧ text.map Char.toLower = r.encode := by
  constructor
  · rintro ⟨hl, ha, ht, hd⟩
    obtain ⟨hlength, hl⟩ := field_iff.mp hl
    refine ⟨hlength, ?_⟩
    have hdata := fields_iff.mp ⟨_, rfl, hd⟩
    simp only [List.map_cons, List.map_append, hl, (field_iff.mp ha).2, (field_iff.mp ht).2, hdata]
    rfl
  · rintro ⟨hlength, htext⟩
    obtain ⟨c, fields, rfl, hc, hfields⟩ := List.map_eq_cons_iff.mp htext
    obtain rfl := eq_colon_of_toLower hc
    obtain ⟨header, data, rfl, hheader, hdata⟩ := List.map_eq_append_iff.mp hfields
    obtain ⟨header, recordType, rfl, hheader, ht⟩ := List.map_eq_append_iff.mp hheader
    obtain ⟨length, address, rfl, hl, ha⟩ := List.map_eq_append_iff.mp hheader
    obtain ⟨pairs, rfl, hpairs⟩ := fields_iff.mpr hdata
    exact .intro (field_iff.mpr ⟨hlength, hl⟩) (field_iff.mpr ⟨r.address.toNat_lt, ha⟩)
      (field_iff.mpr ⟨r.recordType.toNat_lt, ht⟩) hpairs

theorem begins_iff :
    r.Begins line ↔ r.data.length < 256 ∧ r.encode <+: line.map Char.toLower := by
  constructor
  · rintro ⟨text, htext, hprefix⟩
    obtain ⟨hlength, he⟩ := spelled_iff.mp htext
    exact ⟨hlength, he ▸ hprefix.map Char.toLower⟩
  · rintro ⟨hlength, hprefix⟩
    obtain ⟨text, htext, he⟩ := List.prefix_map_iff.mp hprefix
    exact ⟨text, spelled_iff.mpr ⟨hlength, he.symm⟩, htext⟩

theorem exists_pairs (hlength : text.length = 2 * n) (hdigits : ∀ c ∈ text, ∃ d, IsDigit 16 d c) :
    ∃ (bytes : List UInt8) (pairs : List (List Char)), bytes.length = n ∧ text = pairs.flatten ∧
      List.Forall₂ (fun value pair => Field 2 pair value.toNat) bytes pairs := by
  induction n generalizing text with
  | zero => exact ⟨[], [], rfl, List.length_eq_zero_iff.mp hlength, .nil⟩
  | succ n ih =>
    match text, hlength with
    | c :: d :: text, hlength =>
      obtain ⟨h, hc⟩ := hdigits c (by simp)
      obtain ⟨l, hd⟩ := hdigits d (by simp)
      have hpair : Field 2 [c, d] (h * 16 + l) := ⟨rfl, (Denotes.one hc).snoc hd⟩
      obtain ⟨value, hvalue⟩ := exists_byte hpair
      have hrest : text.length = 2 * n := by simpa [Nat.mul_add] using hlength
      obtain ⟨bytes, pairs, rfl, rfl, hpairs⟩ := ih hrest fun e he =>
        hdigits e (List.mem_cons_of_mem _ (List.mem_cons_of_mem _ he))
      exact ⟨value :: bytes, [c, d] :: pairs, rfl, rfl, .cons (hvalue ▸ hpair) hpairs⟩

theorem Field.isDigit {k : Nat} (h : Field k text n) : ∀ c ∈ text, ∃ d, IsDigit 16 d c :=
  h.denotes.forall_mem fun _ d hc => ⟨d, hc⟩

theorem digits_of_pairs {pairs : List (List Char)}
    (h : List.Forall₂ (fun value pair => Field 2 pair value.toNat) bytes pairs) :
    pairs.flatten.length = 2 * bytes.length ∧ ∀ c ∈ pairs.flatten, ∃ d, IsDigit 16 d c := by
  induction h with
  | nil => exact ⟨rfl, nofun⟩
  | @cons value pair bytes pairs hpair _ ih =>
    refine ⟨?_, fun c hc => (List.mem_append.mp hc).elim (hpair.isDigit c) (ih.2 c)⟩
    rw [List.flatten_cons, List.length_append, hpair.length, ih.1, List.length_cons]
    omega

theorem exists_begins_iff : (∃ r : Record, r.Begins line) ↔ Record.Shaped line := by
  constructor
  · rintro ⟨r, _, @⟨length, address, recordType, data, hl, ha, ht, hd⟩, rest, rfl⟩
    obtain ⟨hdata, hdigits⟩ := digits_of_pairs hd
    refine ⟨r.data.length, length, address ++ recordType, data.flatten, rest, by simp, hl,
      by rw [List.length_append, ha.length, ht.length], hdata, fun c hc => ?_⟩
    simp only [List.mem_append] at hc
    rcases hc with (hc | hc) | hc
    · exact ha.isDigit c hc
    · exact ht.isDigit c hc
    · exact hdigits c hc
  · rintro ⟨n, length, header, data, rest, rfl, hl, hheader, hdata, hdigits⟩
    obtain ⟨fields, pairs, hfields, rfl, hpairs⟩ := exists_pairs (n := 3) hheader fun c hc =>
      hdigits c (List.mem_append_left _ hc)
    obtain ⟨bytes, values, hbytes, rfl, hvalues⟩ := exists_pairs hdata fun c hc =>
      hdigits c (List.mem_append_right _ hc)
    match fields, pairs, hpairs with
    | [high, low, recordType], [p, q, t], .cons hhigh (.cons hlow (.cons ht .nil)) =>
      have haddress := field_address_iff.mpr ⟨p, q, rfl, high, low, hhigh, hlow, rfl⟩
      refine ⟨⟨_, recordType, bytes⟩, _, .intro (hbytes ▸ hl) haddress ht hvalues, rest, ?_⟩
      simp

end

/-- Whether a line is cut at its bytes or read by its characters, it is a record just if it has the
shape of one, and it is the record whose digits it begins with. So reading undoes writing, in
letters of either case and with anything behind it, and a line that is read as a record begins with
what is written for that record. -/
theorem reads_encoding (line : String) (r : Record) :
    Record.cut? (.ofText line) = Record.read? line.toList ∧
      ((∃ r, Record.read? line.toList = some r) ↔ Record.Shaped line.toList) ∧
      (Record.read? line.toList = some r ↔ r.Begins line.toList) ∧
      (Record.read? line.toList = some r ↔
        r.data.length ≤ 255 ∧ r.encode <+: line.toList.map Char.toLower) := by
  have hbytes : Bytes.ofText line = utf8 line.toList := by
    rw [← ofText_ofList, String.ofList_toList]
  refine ⟨hbytes ▸ cut?_utf8 line.toList, ?_, read?_eq_some_iff, ?_⟩
  · simp only [read?_eq_some_iff, exists_begins_iff]
  · rw [read?_eq_some_iff, begins_iff, Nat.lt_succ_iff]

example : Record.cut? (.ofText ":01FFfE7f3Cé") = some ⟨0xFFFE, 0x7F, [0x3C]⟩ := by decide +kernel

end RegMap.MemoryImage
