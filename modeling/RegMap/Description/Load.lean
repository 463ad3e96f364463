import RegMap.Description.Loading

/-!
Loading a register description into register groups.

A group is the element `tv_registers`, and the elements `register` within it are its registers.
All other markup is passed over.
-/

set_option autoImplicit false

namespace RegMap.Description

open Markup

def groupTag : List Char := "tv_registers".toList

def registerTag : List Char := "register".toList

theorem registerTag_ne_groupTag : registerTag ≠ groupTag := by decide

structure Progress where
  finished : List RegisterGroup := []
  current : Option RegisterGroup := none
  deriving DecidableEq, Repr

def Progress.groups (p : Progress) : List RegisterGroup := p.finished ++ p.current.toList

def attributesOf (tag : Tag) : Loading (List Attribute) :=
  .ofExcept (tag.attributes.mapError .ofTagFault)

/-- The number that an attribute gives. A blank one leaves the default, and a bad one counts as 0
where the policy lets it. -/
def numberOf (policy : Policy) (attributes : List Attribute) (key : String) (default : Nat) :
    Loading Nat :=
  let text := valueOf attributes key
  if Text.trim text.toList = [] then pure default
  else .recover policy 0 ((Literal.read text).mapError .literal)

def busOf (settings : Settings) (attributes : List Attribute) : Loading Bus := do
  let number := numberOf settings.policy attributes
  let bus := settings.bus
  let addressWidth ← number "addr_sz" bus.addressWidth
  let baseAddress ← number "base_addr" bus.baseAddress
  let dataWidth ← number "data_sz" bus.dataWidth
  let memoryMapped ← number "mem_mapped" (if bus.mapping = .memory then 1 else 0)
  return ⟨baseAddress, addressWidth, dataWidth, .ofMemoryMapped (memoryMapped != 0)⟩

def readGroup (settings : Settings) (tag : Tag) : Loading RegisterGroup := do
  let attributes ← attributesOf tag
  let name := valueOf attributes "name"
  if name = "" then .fail .unnamedGroup
  else
    let bus ← busOf settings attributes
    .note (.groupRead name bus)
    return ⟨name, bus, []⟩

def typeOf (attributes : List Attribute) : Except Error RegisterType :=
  let type := valueOf attributes "type"
  if type = "" then .ok .config
  else (RegisterType.ofName type).mapError fun _ => .unknownType (valueOf attributes "name") type

/-- What a tag says about a register, or nothing if the register has to be left out. -/
def readSpec (policy : Policy) (tag : Tag) : Loading (Option RegisterSpec) := do
  let attributes ← attributesOf tag
  let number := numberOf policy attributes
  let name := valueOf attributes "name"
  match ← Loading.recover policy none ((typeOf attributes).map some) with
  | none => return none
  | some type =>
    let width ← number "width" 1
    if width = 0 then .recover policy none (.error (.zeroWidth name))
    else
      let resetValue ← number "default" 0
      let vector ← if type = .intFixed then number "int_value" 0 else pure 0
      return some ⟨type, name, width, resetValue, vector⟩

def addSpec (g : RegisterGroup) (spec : RegisterSpec) : Loading RegisterGroup :=
  ⟨(spec.registers g.size).map (.registerAdded g.name), .ok (g.add spec)⟩

def Progress.register (policy : Policy) (p : Progress) (tag : Tag) : Loading Progress :=
  match p.current with
  | none => do
    .note .strayRegister
    return p
  | some group => do
    match ← readSpec policy tag with
    | none => return p
    | some spec =>
      let group ← addSpec group spec
      return { p with current := some group }

def Progress.openGroup (p : Progress) (group : RegisterGroup) : Loading Progress :=
  match p.current with
  | none => return { p with current := some group }
  | some unclosed => do
    .note (.groupNotClosed unclosed.name)
    return ⟨p.finished ++ [unclosed], some group⟩

def Progress.step (settings : Settings) (p : Progress) : Event → Loading Progress
  | .start tag =>
    if tag.name = groupTag then readGroup settings tag >>= p.openGroup
    else if tag.name = registerTag then p.register settings.policy tag
    else return p
  | .empty tag =>
    if tag.name = groupTag then do
      let group ← readGroup settings tag
      return { p with finished := p.finished ++ [group] }
    else if tag.name = registerTag then p.register settings.policy tag
    else return p
  | .close name =>
    if name = groupTag then return ⟨p.groups, none⟩
    else return p

def Progress.run (settings : Settings) (p : Progress) : List Event → Loading Progress
  | [] => return p
  | e :: rest => do
    let p ← p.step settings e
    p.run settings rest

/-- The groups of a description. A fault in the markup ends loading where it stands. -/
def load (settings : Settings) (text : List Char) : Loading (List RegisterGroup) := do
  let reading := events text
  let p ← Progress.run settings {} reading.items
  match reading.fault with
  | some fault => .fail (.markup fault)
  | none => return p.groups

end RegMap.Description
