import RegMap.Description.Load
import RegMap.Proofs.Literal
import RegMap.Proofs.Markup.Marks

/-!
Descriptions that are written from groups. A description may be laid out in many ways: attributes in
any order and left out where the default says the same, numbers in any spelling, elements without
content in either form. One way to write descriptions shows that any groups have one.
-/

set_option autoImplicit false

namespace RegMap.Description

open Markup Text

structure GroupSpec where
  name : String
  bus : Bus
  registers : List RegisterSpec
  deriving DecidableEq, Repr

def GroupSpec.group (g : GroupSpec) : RegisterGroup := .ofSpecs g.name g.bus g.registers

structure ValidRegister (spec : RegisterSpec) : Prop where
  one_le_width : 1 ≤ spec.width
  width : spec.width < wordLimit
  resetValue : spec.resetValue < wordLimit
  vector : spec.vector < wordLimit

structure GroupSpec.Valid (g : GroupSpec) : Prop where
  name : g.name ≠ ""
  baseAddress : g.bus.baseAddress < wordLimit
  addressWidth : g.bus.addressWidth < wordLimit
  dataWidth : g.bus.dataWidth < wordLimit
  registers : ∀ spec ∈ g.registers, ValidRegister spec

/-- Among the attributes is one under the key with a right value, or none is needed and any that is
there is empty. -/
def Gives (attributes : List Attribute) (key : String) (right : List Char → Prop) (spare : Prop) :
    Prop :=
  (∃ a ∈ attributes, a.key = key.toList ∧ right a.value) ∨
    spare ∧ ∀ a ∈ attributes, a.key = key.toList → a.value = []

def GivesText (attributes : List Attribute) (key text default : String) : Prop :=
  Gives attributes key (· = text.toList) (text = default)

def GivesNumber (attributes : List Attribute) (key : String) (n default : Nat) : Prop :=
  Gives attributes key (Spelling n) (n = default)

def mappingNumber (m : Mapping) : Nat := if m = .memory then 1 else 0

structure TellsRegister (spec : RegisterSpec) (attributes : List Attribute) : Prop where
  name : GivesText attributes "name" spec.name ""
  type : GivesText attributes "type" spec.type.name RegisterType.config.name
  width : GivesNumber attributes "width" spec.width 1
  resetValue : GivesNumber attributes "default" spec.resetValue 0
  vector : GivesNumber attributes "int_value" spec.vector 0

/-- The attributes of a group element, where `bus` is the bus of the settings. -/
structure TellsGroup (bus : Bus) (g : GroupSpec) (attributes : List Attribute) : Prop where
  name : GivesText attributes "name" g.name ""
  addressWidth : GivesNumber attributes "addr_sz" g.bus.addressWidth bus.addressWidth
  baseAddress : GivesNumber attributes "base_addr" g.bus.baseAddress bus.baseAddress
  dataWidth : GivesNumber attributes "data_sz" g.bus.dataWidth bus.dataWidth
  mapping : GivesNumber attributes "mem_mapped" (mappingNumber g.bus.mapping)
    (mappingNumber bus.mapping)

inductive RegisterMarks (spec : RegisterSpec) : List Mark → Prop where
  | empty {attributes : List Attribute} (h : TellsRegister spec attributes) :
      RegisterMarks spec [.empty registerTag attributes]
  | paired {attributes : List Attribute} (h : TellsRegister spec attributes) :
      RegisterMarks spec [.start registerTag attributes, .close registerTag]

inductive GroupMarks (bus : Bus) (g : GroupSpec) : List Mark → Prop where
  | empty {attributes : List Attribute} (h : TellsGroup bus g attributes)
      (hr : g.registers = []) : GroupMarks bus g [.empty groupTag attributes]
  | paired {attributes : List Attribute} {parts : List (List Mark)}
      (h : TellsGroup bus g attributes) (hr : List.Forall₂ RegisterMarks g.registers parts) :
      GroupMarks bus g (.start groupTag attributes :: (parts.flatten ++ [.close groupTag]))

/-- The text is a description of the groups, one after the other. -/
def Describes (bus : Bus) (specs : List GroupSpec) (text : List Char) : Prop :=
  ∃ parts, List.Forall₂ (GroupMarks bus) specs parts ∧ Marked parts.flatten text

def registerAttributes (spec : RegisterSpec) : List Attribute :=
  [⟨"name".toList, spec.name.toList⟩, ⟨"type".toList, spec.type.name.toList⟩,
   ⟨"width".toList, decimal spec.width⟩, ⟨"default".toList, decimal spec.resetValue⟩,
   ⟨"int_value".toList, decimal spec.vector⟩]

def GroupSpec.attributes (g : GroupSpec) : List Attribute :=
  [⟨"name".toList, g.name.toList⟩, ⟨"addr_sz".toList, decimal g.bus.addressWidth⟩,
   ⟨"base_addr".toList, decimal g.bus.baseAddress⟩, ⟨"data_sz".toList, decimal g.bus.dataWidth⟩,
   ⟨"mem_mapped".toList, decimal (mappingNumber g.bus.mapping)⟩]

def GroupSpec.marks (g : GroupSpec) : List Mark :=
  .start groupTag g.attributes ::
    (g.registers.map (fun spec => .empty registerTag (registerAttributes spec)) ++
      [.close groupTag])

def write (specs : List GroupSpec) : List Char := writeMarks (specs.flatMap GroupSpec.marks)

section

variable {spec : RegisterSpec} {g : GroupSpec} {attributes : List Attribute}
  {marks more : List Mark} {parts : List (List Mark)}

def Closed (marks : List Mark) : Prop :=
  ∀ opened more, Balanced opened more → Balanced opened (marks ++ more)

theorem closed_flatten {α : Type} {R : α → List Mark → Prop} {xs : List α}
    (h : List.Forall₂ R xs parts) (hR : ∀ x part, R x part → Closed part) :
    Closed parts.flatten := by
  induction h with
  | nil => exact fun _ _ hmore => hmore
  | cons hm h ih =>
    intro opened more hmore
    rw [List.flatten_cons, List.append_assoc]
    exact hR _ _ hm opened _ (ih opened more hmore)

theorem closed_register (hm : RegisterMarks spec marks) : Closed marks := by
  intro opened more hmore
  cases hm with
  | empty => exact .empty hmore
  | paired => exact .start (.close hmore)

theorem closed_group {bus : Bus} (hm : GroupMarks bus g marks) : Closed marks := by
  intro opened more hmore
  cases hm with
  | empty => exact .empty hmore
  | paired _ hr =>
    have hend : Balanced (groupTag :: opened) (.close groupTag :: more) := .close hmore
    have hinner := closed_flatten hr (fun _ _ => closed_register) _ _ hend
    simpa using Balanced.start hinner

theorem ofMemoryMapped_mappingNumber (m : Mapping) :
    Mapping.ofMemoryMapped (mappingNumber m != 0) = m := by
  cases m <;> rfl

theorem gives_of_mem {key : String} {right : List Char → Prop} {spare : Prop} {value : List Char}
    (ha : ⟨key.toList, value⟩ ∈ attributes) (h : right value) :
    Gives attributes key right spare :=
  .inl ⟨_, ha, rfl, h⟩

theorem tellsRegister_attributes (spec : RegisterSpec) :
    TellsRegister spec (registerAttributes spec) where
  name := gives_of_mem (by simp [registerAttributes]) rfl
  type := gives_of_mem (by simp [registerAttributes]) rfl
  width := gives_of_mem (by simp [registerAttributes]) (.plain (denotes_decimal _))
  resetValue := gives_of_mem (by simp [registerAttributes]) (.plain (denotes_decimal _))
  vector := gives_of_mem (by simp [registerAttributes]) (.plain (denotes_decimal _))

theorem tellsGroup_attributes (bus : Bus) (g : GroupSpec) : TellsGroup bus g g.attributes where
  name := gives_of_mem (by simp [GroupSpec.attributes]) rfl
  addressWidth := gives_of_mem (by simp [GroupSpec.attributes]) (.plain (denotes_decimal _))
  baseAddress := gives_of_mem (by simp [GroupSpec.attributes]) (.plain (denotes_decimal _))
  dataWidth := gives_of_mem (by simp [GroupSpec.attributes]) (.plain (denotes_decimal _))
  mapping := gives_of_mem (by simp [GroupSpec.attributes]) (.plain (denotes_decimal _))

theorem groupMarks_marks (bus : Bus) (g : GroupSpec) : GroupMarks bus g g.marks := by
  have hparts : List.Forall₂ RegisterMarks g.registers
      (g.registers.map fun spec => [.empty registerTag (registerAttributes spec)]) := by
    rw [List.forall₂_map_right_iff, List.forall₂_same]
    exact fun spec _ => .empty (tellsRegister_attributes spec)
  have hall := GroupMarks.paired (tellsGroup_attributes bus g) hparts
  rwa [← List.flatMap_def, ← List.map_eq_flatMap] at hall

theorem proper_marks (g : GroupSpec) : ∀ m ∈ g.marks, m.Proper := by
  have hgroup : ProperTag groupTag g.attributes := by
    have hkeys : g.attributes.map Attribute.key = ["name".toList, "addr_sz".toList,
      "base_addr".toList, "data_sz".toList, "mem_mapped".toList] := rfl
    exact ⟨by decide, hkeys ▸ by decide, hkeys ▸ by decide⟩
  have hregister : ∀ spec, ProperTag registerTag (registerAttributes spec) := fun spec => by
    have hkeys : (registerAttributes spec).map Attribute.key = ["name".toList, "type".toList,
      "width".toList, "default".toList, "int_value".toList] := rfl
    exact ⟨by decide, hkeys ▸ by decide, hkeys ▸ by decide⟩
  have hclose : IsName groupTag := by decide
  simp only [GroupSpec.marks, List.mem_cons, List.mem_append, List.mem_map, List.not_mem_nil,
    or_false]
  rintro m (rfl | ⟨spec, -, rfl⟩ | rfl)
  · exact hgroup
  · exact hregister spec
  · exact hclose

theorem describes_write (bus : Bus) (specs : List GroupSpec) :
    Describes bus specs (write specs) := by
  refine ⟨specs.map GroupSpec.marks, ?_, ?_⟩
  · rw [List.forall₂_map_right_iff, List.forall₂_same]
    exact fun g _ => groupMarks_marks bus g
  · rw [write, List.flatMap_def]
    refine marked_writeMarks fun m hm => ?_
    obtain ⟨g, -, hg⟩ := List.mem_flatMap.mp (List.flatMap_def ▸ hm)
    exact proper_marks g m hg

end

end RegMap.Description
