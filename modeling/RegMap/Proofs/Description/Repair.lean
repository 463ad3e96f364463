import RegMap.Proofs.Description.GroupTags

/-!
Elements of a description repaired one by one. Numbers that cannot be read are put to `0`, which is
what loading takes them for where it goes on from them, and elements that it then leaves out get a
name that it passes over.
-/

set_option autoImplicit false

namespace RegMap.Description

open Markup

def isBad (numbers : List String) (a : Attribute) : Bool :=
  numbers.contains (String.ofList a.key) && Text.trim a.value != [] &&
    (Literal.read (String.ofList a.value)).toOption.isNone

def groupNumbers : List String := ["addr_sz", "base_addr", "data_sz", "mem_mapped"]

def registerNumbers (attributes : List Attribute) : List String :=
  if typeOf attributes = .ok .intFixed then ["width", "default", "int_value"]
  else ["width", "default"]

def isUnfit (attributes : List Attribute) : Bool :=
  (typeOf attributes).toOption.isNone || numberSaid attributes "width" 1 == 0

def attributesText (tag : Tag) : List Char := tag.content.dropWhile (!isSpace ·)

def numbersOf (name : List Char) (attributes : List Attribute) : List String :=
  if name = groupTag then groupNumbers else registerNumbers attributes

def mendTag (tag : Tag) : Tag :=
  match tag.attributes with
  | .ok attributes =>
    ⟨tag.name ++
      Attribute.mendValues (isBad (numbersOf tag.name attributes)) (attributesText tag)⟩
  | .error _ => tag

def renameTag (name : List Char) (tag : Tag) : Tag := ⟨name ++ attributesText tag⟩

def isUnfitTag (tag : Tag) : Bool := tag.attributes.toOption.any isUnfit

/-- The tag of an element as it is repaired, where `inGroup` says whether a group takes in
registers: an element that is not read stays as it is. -/
def repairTag (name : List Char) (inGroup : Bool) (tag : Tag) : Tag :=
  if tag.name = groupTag then mendTag tag
  else if tag.name = registerTag ∧ inGroup then
    if isUnfitTag (mendTag tag) then renameTag name (mendTag tag) else mendTag tag
  else tag

def isPlainChar (c : Char) : Bool :=
  !isSpace c && !(['/', '!', '?', '>', '"', '\''].contains c)

def IsPlain (name : List Char) : Prop := name ≠ [] ∧ name.all isPlainChar

instance (name : List Char) : Decidable (IsPlain name) := inferInstanceAs (Decidable (_ ∧ _))

structure IsPassed (name : List Char) : Prop where
  plain : IsPlain name
  ne_group : name ≠ groupTag
  ne_register : name ≠ registerTag

/-- If the tag has bad numbers, no attribute of it has a quote in its name. -/
def PlainKeys (tag : Tag) : Prop :=
  ∀ attributes ∈ tag.attributes.toOption, attributes.any (isBad (numbersOf tag.name attributes)) →
    ∀ a ∈ attributes, '"' ∉ a.key ∧ '\'' ∉ a.key

instance (tag : Tag) : Decidable (PlainKeys tag) :=
  inferInstanceAs (Decidable (∀ attributes ∈ tag.attributes.toOption, _))

section

variable {attributes : List Attribute} {numbers : List String} {key : String} {default : Nat}
  {bus : Bus} {tag : Tag} {g : RegisterGroup} {policy : Policy} {spec : Option RegisterSpec}

def mended (numbers : List String) (attributes : List Attribute) : List Attribute :=
  attributes.map (Attribute.mend (isBad numbers))

theorem find?_mended : (mended numbers attributes).find? (·.key == key.toList) =
    (attributes.find? (·.key == key.toList)).map (Attribute.mend (isBad numbers)) := by
  rw [mended, List.find?_map]
  rfl

theorem valueOf_mended_of_not_mem (h : key ∉ numbers) :
    valueOf (mended numbers attributes) key = valueOf attributes key := by
  unfold valueOf
  rw [find?_mended]
  cases ha : attributes.find? (·.key == key.toList) with
  | none => rfl
  | some a =>
    have hkey : a.key = key.toList := by simpa using List.find?_some ha
    have hgood : isBad numbers a = false := by simp [isBad, hkey, h]
    simp [Attribute.mend, hgood]

theorem numberSaid_mended (numbers : List String) (attributes : List Attribute) (key : String)
    (default : Nat) :
    numberSaid (mended numbers attributes) key default = numberSaid attributes key default := by
  unfold numberSaid valueOf
  rw [find?_mended]
  cases attributes.find? (·.key == key.toList) with
  | none => rfl
  | some a =>
    cases hbad : isBad numbers a with
    | false => simp [Attribute.mend, hbad]
    | true =>
      have hold : Text.trim a.value ≠ [] ∧
          (Literal.read (String.ofList a.value)).toOption = none := by
        simp only [isBad, Bool.and_eq_true, bne_iff_ne, Option.isNone_iff_eq_none] at hbad
        exact ⟨hbad.1.2, hbad.2⟩
      simp only [Option.map_some, Attribute.mend, hbad, if_true, String.toList_ofList,
        if_neg hold.1, hold.2]
      rfl

def IsRead (attributes : List Attribute) (key : String) : Prop :=
  Text.trim (valueOf attributes key).toList ≠ [] →
    ∃ n, Literal.read (valueOf attributes key) = .ok n

theorem isRead_mended (h : key ∈ numbers) : IsRead (mended numbers attributes) key := by
  unfold IsRead valueOf
  rw [find?_mended]
  cases ha : attributes.find? (·.key == key.toList) with
  | none => exact fun hblank => absurd rfl hblank
  | some a =>
    have hkey : a.key = key.toList := by simpa using List.find?_some ha
    intro hblank
    cases hbad : isBad numbers a with
    | true =>
      refine ⟨0, ?_⟩
      simp only [Option.map_some, Attribute.mend, hbad, if_true]
      rfl
    | false =>
      simp only [Option.map_some, Attribute.mend, hbad, Bool.false_eq_true, if_false,
        String.toList_ofList] at hblank ⊢
      simp only [isBad, hkey, String.ofList_toList, List.contains_iff_mem.mpr h, Bool.true_and,
        Bool.and_eq_false_iff, bne_eq_false_iff_eq, hblank, false_or] at hbad
      cases hread : Literal.read (String.ofList a.value) with
      | ok n => exact ⟨n, rfl⟩
      | error fault => rw [hread] at hbad; cases hbad

theorem typeOf_mended (attributes : List Attribute) (hname : "name" ∉ numbers)
    (htype : "type" ∉ numbers) :
    typeOf (mended numbers attributes) = typeOf attributes := by
  unfold typeOf
  rw [valueOf_mended_of_not_mem hname, valueOf_mended_of_not_mem htype]

theorem numberOf_of_isRead (h : IsRead attributes key) :
    (numberOf policy attributes key default).result = .ok (numberSaid attributes key default) := by
  unfold numberOf numberSaid
  dsimp only
  split
  · rfl
  · next hgiven =>
    obtain ⟨n, hn⟩ := h hgiven
    rw [hn]
    cases policy <;> rfl

theorem busOf_of_isRead {settings : Settings} (h : ∀ key ∈ groupNumbers, IsRead attributes key) :
    (busOf settings attributes).result = .ok (busSaid settings.bus attributes) := by
  simp only [groupNumbers, List.forall_mem_cons] at h
  obtain ⟨haddress, hbase, hdata, hmapped, -⟩ := h
  unfold busOf
  rw [Loading.result_bind (numberOf_of_isRead haddress),
    Loading.result_bind (numberOf_of_isRead hbase), Loading.result_bind (numberOf_of_isRead hdata),
    Loading.result_bind (numberOf_of_isRead hmapped)]
  rfl

theorem busSaid_mended (numbers : List String) (bus : Bus) (attributes : List Attribute) :
    busSaid bus (mended numbers attributes) = busSaid bus attributes := by
  simp only [busSaid, numberSaid_mended]

def specSaid (attributes : List Attribute) : Option RegisterSpec :=
  match typeOf attributes with
  | .error _ => none
  | .ok type =>
    let width := numberSaid attributes "width" 1
    if width = 0 then none
    else some ⟨type, valueOf attributes "name", width, numberSaid attributes "default" 0,
      if type = .intFixed then numberSaid attributes "int_value" 0 else 0⟩

theorem specSaid_eq_none_iff : specSaid attributes = none ↔ isUnfit attributes := by
  unfold specSaid isUnfit
  cases typeOf attributes with
  | error e => simp [Except.toOption]
  | ok type => simp [Except.toOption]

theorem recover_none {α : Type} {e : Error} {found : Option α}
    (h : (Loading.recover policy none (.error e)).result = .ok found) : found = none := by
  cases policy with
  | strict => cases h
  | lenient =>
    rw [Loading.recover] at h
    split at h
    · exact (Except.ok.inj h).symm
    · cases h

theorem eq_of_readSpec (h : (readSpec policy tag).result = .ok spec) :
    ∃ attributes, tag.attributes = .ok attributes ∧ spec = specSaid attributes := by
  unfold readSpec at h
  obtain ⟨attributes, hattributes, h⟩ := Loading.ok_of_bind h
  obtain ⟨found, hfound, h⟩ := Loading.ok_of_bind h
  refine ⟨attributes, attributes_of_ok hattributes, ?_⟩
  unfold specSaid
  cases htype : typeOf attributes with
  | error e =>
    rw [htype] at hfound
    obtain rfl := recover_none hfound
    exact (Except.ok.inj h).symm
  | ok type =>
    obtain rfl : some type = found := by
      rw [htype] at hfound
      cases policy <;> exact Except.ok.inj hfound
    obtain ⟨width, hwidth, h⟩ := Loading.ok_of_bind h
    obtain rfl := numberSaid_of_ok hwidth
    dsimp only at h ⊢
    split at h
    · next hzero =>
      rw [if_pos hzero]
      exact recover_none h
    · next hzero =>
      rw [if_neg hzero]
      obtain ⟨resetValue, hreset, h⟩ := Loading.ok_of_bind h
      obtain rfl := numberSaid_of_ok hreset
      split at h
      · next hint =>
        obtain ⟨vector, hvector, h⟩ := Loading.ok_of_bind h
        rw [if_pos hint, ← numberSaid_of_ok hvector]
        exact (Except.ok.inj h).symm
      · next hint =>
        rw [if_neg hint]
        exact (Except.ok.inj h).symm

theorem readSpec_of_isRead {said : RegisterSpec} (ht : tag.attributes = .ok attributes)
    (h : ∀ key ∈ registerNumbers attributes, IsRead attributes key)
    (hs : specSaid attributes = some said) :
    (readSpec policy tag).result = .ok (some said) := by
  unfold specSaid at hs
  unfold readSpec
  rw [attributesOf_eq_pure ht, pure_bind]
  cases htype : typeOf attributes with
  | error e => rw [htype] at hs; cases hs
  | ok type =>
    rw [htype] at hs
    have hfound : (Loading.recover policy none ((Except.ok type).map some)).result =
        .ok (some type) := by
      cases policy <;> rfl
    have hwidth : IsRead attributes "width" := h _ (by unfold registerNumbers; split <;> simp)
    have hdefault : IsRead attributes "default" := h _ (by unfold registerNumbers; split <;> simp)
    dsimp only at hs ⊢
    rw [Loading.result_bind hfound]
    dsimp only
    rw [Loading.result_bind (numberOf_of_isRead hwidth)]
    split at hs
    · cases hs
    · next hzero =>
      rw [if_neg hzero, Loading.result_bind (numberOf_of_isRead hdefault)]
      obtain rfl := Option.some.inj hs
      split
      · next hint =>
        have hvector : IsRead attributes "int_value" := h _ (by simp [registerNumbers, htype, hint])
        rw [Loading.result_bind (numberOf_of_isRead hvector)]
        rfl
      · rfl

theorem IsPlain.forall_mem {name : List Char} (h : IsPlain name) :
    ∀ c ∈ name, isSpace c = false ∧ c ∉ ['/', '!', '?', '>', '"', '\''] := fun c hc => by
  simpa [isPlainChar] using List.all_eq_true.mp h.2 c hc

theorem no_space_name (tag : Tag) : ∀ c ∈ tag.name, isSpace c = false := fun c hc => by
  simpa using List.mem_takeWhile_imp hc

theorem head?_attributesText (tag : Tag) : ∀ c ∈ (attributesText tag).head?, isSpace c :=
  fun c hc => by
    have hhead := List.head?_dropWhile_not (!isSpace ·) tag.content
    rw [attributesText] at hc
    rw [Option.mem_def.mp hc] at hhead
    simpa using hhead

theorem content_eq (tag : Tag) : tag.content = tag.name ++ attributesText tag :=
  List.takeWhile_append_dropWhile.symm

theorem laid_iff : tag.attributes = .ok attributes ↔
    Attribute.Laid attributes (attributesText tag) ∧ Attribute.Fresh [] attributes :=
  Attribute.readEnd_eq_ok_iff

theorem mendTag_eq (h : tag.attributes = .ok attributes) : mendTag tag = ⟨tag.name ++
    Attribute.mendValues (isBad (numbersOf tag.name attributes)) (attributesText tag)⟩ := by
  rw [mendTag, h]

theorem split_mendTag (h : tag.attributes = .ok attributes) :
    (mendTag tag).name = tag.name ∧ attributesText (mendTag tag) =
      Attribute.mendValues (isBad (numbersOf tag.name attributes)) (attributesText tag) := by
  rw [mendTag_eq h]
  refine split_name (no_space_name tag) ?_
  rw [Attribute.head?_mendValues (laid_iff.mp h).1]
  exact head?_attributesText tag

theorem attributes_mendTag (h : tag.attributes = .ok attributes) :
    (mendTag tag).attributes = .ok (mended (numbersOf tag.name attributes) attributes) := by
  obtain ⟨hlaid, hnone, hdistinct⟩ := laid_iff.mp h
  refine laid_iff.mpr ⟨?_, fun _ _ => rfl, ?_⟩
  · rw [(split_mendTag h).2]
    exact hlaid.mended
  · rw [mended, List.map_map]
    exact hdistinct

theorem name_mendTag (tag : Tag) : (mendTag tag).name = tag.name := by
  cases h : tag.attributes with
  | error fault => rw [mendTag, h]
  | ok attributes => exact (split_mendTag h).1

theorem name_renameTag {name : List Char} (hname : IsPlain name) (tag : Tag) :
    (renameTag name tag).name = name :=
  (split_name (fun c hc => (hname.forall_mem c hc).1) (head?_attributesText tag)).1

theorem numbersOf_group (hn : tag.name = groupTag) : numbersOf tag.name attributes = groupNumbers :=
  if_pos hn

theorem numbersOf_register (hn : tag.name = registerTag) :
    numbersOf tag.name attributes = registerNumbers attributes :=
  if_neg (hn ▸ registerTag_ne_groupTag)

/-- A group comes of its mended tag under any policy. -/
theorem readGroup_mendTag {policy' : Policy} (hn : tag.name = groupTag)
    (h : (readGroup ⟨policy, bus⟩ tag).result = .ok g) :
    (readGroup ⟨policy', bus⟩ (mendTag tag)).result = .ok g := by
  obtain ⟨attributes, hattributes, hname, rfl⟩ := eq_of_readGroup h
  have hmended := attributes_mendTag hattributes
  rw [numbersOf_group hn] at hmended
  have hsame : valueOf (mended groupNumbers attributes) "name" = valueOf attributes "name" :=
    valueOf_mended_of_not_mem (by decide)
  have hbus : (busOf ⟨policy', bus⟩ (mended groupNumbers attributes)).result =
      .ok (busSaid bus attributes) := by
    rw [busOf_of_isRead fun key hkey => isRead_mended hkey, busSaid_mended]
  unfold readGroup
  rw [attributesOf_eq_pure hmended, pure_bind]
  dsimp only
  rw [hsame, if_neg hname, Loading.result_bind hbus]
  rfl

theorem not_mem_registerNumbers (attributes : List Attribute) :
    "name" ∉ registerNumbers attributes ∧ "type" ∉ registerNumbers attributes := by
  unfold registerNumbers
  split <;> decide

theorem mended_register (attributes : List Attribute) :
    registerNumbers (mended (registerNumbers attributes) attributes) = registerNumbers attributes ∧
      specSaid (mended (registerNumbers attributes) attributes) = specSaid attributes := by
  obtain ⟨hname, htype⟩ := not_mem_registerNumbers attributes
  have htypeOf := typeOf_mended attributes hname htype
  constructor
  · rw [registerNumbers, htypeOf, ← registerNumbers]
  · simp only [specSaid, htypeOf, valueOf_mended_of_not_mem hname, numberSaid_mended]

theorem isUnfitTag_mendTag (hn : tag.name = registerTag) (h : tag.attributes = .ok attributes) :
    isUnfitTag (mendTag tag) ↔ specSaid attributes = none := by
  rw [isUnfitTag, attributes_mendTag h, numbersOf_register hn, ← (mended_register attributes).2,
    specSaid_eq_none_iff]
  rfl

theorem readSpec_mendTag {policy' : Policy} {said : RegisterSpec} (hn : tag.name = registerTag)
    (h : (readSpec policy tag).result = .ok (some said)) :
    (readSpec policy' (mendTag tag)).result = .ok (some said) := by
  obtain ⟨attributes, hattributes, hsaid⟩ := eq_of_readSpec h
  obtain ⟨hnumbers, hsame⟩ := mended_register attributes
  have hmended := attributes_mendTag hattributes
  rw [numbersOf_register hn] at hmended
  refine readSpec_of_isRead hmended (fun key hkey => ?_) (hsame.trans hsaid.symm)
  exact isRead_mended (hnumbers ▸ hkey)

theorem repairTag_group (name : List Char) (inGroup : Bool) (hn : tag.name = groupTag) :
    repairTag name inGroup tag = mendTag tag := if_pos hn

theorem repairTag_kept (name : List Char) {inGroup : Bool} (hg : tag.name ≠ groupTag)
    (hr : ¬(tag.name = registerTag ∧ inGroup)) : repairTag name inGroup tag = tag := by
  rw [repairTag, if_neg hg, if_neg hr]

theorem repairTag_register (name : List Char) (hn : tag.name = registerTag)
    (h : (readSpec policy tag).result = .ok spec) :
    repairTag name true tag =
      if spec = none then renameTag name (mendTag tag) else mendTag tag := by
  obtain ⟨attributes, hattributes, rfl⟩ := eq_of_readSpec h
  have hgroup : tag.name ≠ groupTag := hn ▸ registerTag_ne_groupTag
  rw [repairTag, if_neg hgroup, if_pos ⟨hn, rfl⟩]
  simp only [isUnfitTag_mendTag hn hattributes]

theorem isPlain_groupTag : IsPlain groupTag := by decide

theorem isPlain_registerTag : IsPlain registerTag := by decide

structure IsRepair (name : List Char) (tag repaired : Tag) : Prop where
  plain : IsPlain tag.name
  named : repaired.name = tag.name ∨ tag.name = registerTag ∧ repaired.name = name
  content : ∃ attributes, tag.attributes = .ok attributes ∧ repaired.content = repaired.name ++
    Attribute.mendValues (isBad (numbersOf tag.name attributes)) (attributesText tag)

theorem isRepair_mendTag (name : List Char) (hp : IsPlain tag.name)
    (h : tag.attributes = .ok attributes) : IsRepair name tag (mendTag tag) := by
  obtain ⟨hname, htext⟩ := split_mendTag h
  refine ⟨hp, .inl hname, attributes, h, ?_⟩
  rw [content_eq, htext]

theorem isRepair_renameTag {name : List Char} (hname : IsPlain name) (hn : tag.name = registerTag)
    (h : tag.attributes = .ok attributes) :
    IsRepair name tag (renameTag name (mendTag tag)) := by
  refine ⟨hn ▸ isPlain_registerTag, .inr ⟨hn, name_renameTag hname _⟩, attributes, h, ?_⟩
  rw [name_renameTag hname, renameTag, (split_mendTag h).2]

theorem repairTag_cases {name : List Char} (hname : IsPlain name) (inGroup : Bool) (tag : Tag) :
    repairTag name inGroup tag = tag ∨ IsRepair name tag (repairTag name inGroup tag) := by
  cases h : tag.attributes with
  | error fault =>
    have hmend : mendTag tag = tag := by rw [mendTag, h]
    have hfit : isUnfitTag tag = false := by rw [isUnfitTag, h]; rfl
    simp [repairTag, hmend, hfit]
  | ok attributes =>
    unfold repairTag
    split_ifs with hg hr hunfit
    · exact .inr (isRepair_mendTag name (hg ▸ isPlain_groupTag) h)
    · exact .inr (isRepair_renameTag hname hr.1 h)
    · exact .inr (isRepair_mendTag name (hr.1 ▸ isPlain_registerTag) h)
    · exact .inl rfl

end

end RegMap.Description
