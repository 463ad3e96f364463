import RegMap.Proofs.Group.Layout

/-!
A group drawn up step by step: the ports, the nets, the offsets and the width of the local address
are kept beside the registers, and each register that comes in brings them up to date. What is kept
that way is at any time what the registers alone give.
-/

set_option autoImplicit false

namespace RegMap

open Verilog

def RegisterSpec.kind (spec : RegisterSpec) (position : Nat) : RegisterKind :=
  match spec.type with
  | .status => .status
  | .readStb => .readStrobe
  | .config => .config spec.resetValue
  | .writeStb => .writeStrobe spec.resetValue
  | .softSet => .softSet spec.resetValue
  | .intFixed => .interrupt (position + 1) spec.vector

def RegisterSpec.mask (spec : RegisterSpec) (position : Nat) : Register :=
  ⟨spec.name ++ "_msk", spec.width, position, .config spec.resetValue⟩

def RegisterSpec.count (spec : RegisterSpec) : Nat := if spec.type = .intFixed then 2 else 1

def Numbered (rs : List Register) : Prop :=
  ∀ (i : Nat) (r : Register), rs[i]? = some r → r.offset = i

def renumber (rs : List Register) : List Register := rs.mapIdx fun i r => { r with offset := i }

theorem renumber_concat {rs : List Register} (h : Numbered rs) (r : Register) :
    renumber (rs ++ [r]) = rs ++ [{ r with offset := rs.length }] := by
  have hsame : renumber rs = rs := by
    refine List.ext_getElem? fun i => ?_
    rw [renumber, List.getElem?_mapIdx]
    cases hi : rs[i]? with
    | none => rfl
    | some r => rw [Option.map_some, ← h i r hi]
  rw [renumber, List.mapIdx_concat, ← renumber, hsame]

theorem Numbered.concat {rs : List Register} (h : Numbered rs) {r : Register}
    (hr : r.offset = rs.length) : Numbered (rs ++ [r]) := by
  intro i s hi
  rcases Nat.lt_trichotomy i rs.length with hlt | rfl | hgt
  · rw [List.getElem?_append_left hlt] at hi
    exact h i s hi
  · rw [List.getElem?_concat_length] at hi
    exact Option.some.inj hi ▸ hr
  · rw [List.getElem?_eq_none (by simp; omega)] at hi
    cases hi

structure Draft where
  name : String
  bus : Bus
  localWidth : Nat
  registers : List Register
  ports : List Port
  signals : List Signal
  deriving DecidableEq, Repr

namespace Draft

def empty (name : String) (bus : Bus) : Draft :=
  ⟨name, bus, addressBits 0, [], bus.ports, bus.signals⟩

/-- One more register. All offsets are given out anew, so the one that it brings does not matter. -/
def push (d : Draft) (r : Register) : Draft :=
  let registers := renumber (d.registers ++ [r])
  { d with
    localWidth := addressBits registers.length
    registers := registers
    ports := d.ports ++ r.ports
    signals := d.signals ++ r.signals }

def add (d : Draft) (spec : RegisterSpec) : Draft × Nat :=
  let named := d.push ⟨spec.name, spec.width, 0, spec.kind d.registers.length⟩
  (if spec.type = .intFixed then named.push (spec.mask 0) else named, named.registers.length - 1)

def ofSpecs (name : String) (bus : Bus) (specs : List RegisterSpec) : Draft :=
  specs.foldl (fun d spec => (d.add spec).1) (empty name bus)

/-- The lists and numbers kept beside the registers fit them. -/
structure Laid (d : Draft) : Prop where
  offsets : Numbered d.registers
  localWidth : IsLeast {bits | 1 ≤ bits ∧ d.registers.length ≤ 2 ^ bits} d.localWidth
  ports : d.ports = d.bus.ports ++ d.registers.flatMap Register.ports
  signals : d.signals = d.bus.signals ++ d.registers.flatMap Register.signals

structure Extends (d e : Draft) : Prop where
  name : e.name = d.name
  bus : e.bus = d.bus
  registers : d.registers <+: e.registers
  ports : d.ports <+: e.ports
  signals : d.signals <+: e.signals

variable {d e f : Draft}

theorem Extends.refl (d : Draft) : d.Extends d :=
  ⟨rfl, rfl, List.prefix_rfl, List.prefix_rfl, List.prefix_rfl⟩

theorem Extends.trans (h : d.Extends e) (h' : e.Extends f) : d.Extends f where
  name := h'.name.trans h.name
  bus := h'.bus.trans h.bus
  registers := h.registers.trans h'.registers
  ports := h.ports.trans h'.ports
  signals := h.signals.trans h'.signals

end Draft

theorem RegisterSpec.registers_eq (spec : RegisterSpec) (position : Nat) :
    spec.registers position = ⟨spec.name, spec.width, position, spec.kind position⟩ ::
      if spec.type = .intFixed then [spec.mask (position + 1)] else [] := by
  cases h : spec.type <;> simp [registers, kind, mask, h]

namespace RegisterGroup

variable {g : RegisterGroup}

def draft (g : RegisterGroup) : Draft :=
  ⟨g.name, g.bus, g.localWidth, g.registers, g.ports, g.signals⟩

theorem Built.numbered (h : g.Built) : Numbered g.registers := fun _ _ hi => h.offset hi

def append (g : RegisterGroup) (r : Register) : RegisterGroup :=
  { g with registers := g.registers ++ [r] }

theorem draft_push (h : Numbered g.registers) (r : Register) :
    g.draft.push r = (g.append { r with offset := g.size }).draft := by
  have hregisters : renumber (g.registers ++ [r]) = g.registers ++ [{ r with offset := g.size }] :=
    renumber_concat h r
  simp only [Draft.push, draft, hregisters, append, ports, signals, localWidth, size,
    List.flatMap_append, List.flatMap_singleton, List.append_assoc]
  rfl

@[simp] theorem size_append (g : RegisterGroup) (r : Register) : (g.append r).size = g.size + 1 :=
  List.length_append

theorem add_eq (g : RegisterGroup) (spec : RegisterSpec) :
    g.add spec =
      let named := g.append ⟨spec.name, spec.width, g.size, spec.kind g.size⟩
      if spec.type = .intFixed then named.append (spec.mask (g.size + 1)) else named := by
  simp only [add, spec.registers_eq, append]
  split <;> simp

/-- Drawing up a group register by register and adding to it at once come to the same. -/
theorem draft_add (h : g.Built) (spec : RegisterSpec) :
    g.draft.add spec = ((g.add spec).draft, g.size) := by
  let named := g.append ⟨spec.name, spec.width, g.size, spec.kind g.size⟩
  have hnamed : g.draft.push ⟨spec.name, spec.width, 0, spec.kind g.draft.registers.length⟩ =
      named.draft := draft_push h.numbered _
  have hmask : named.draft.push (spec.mask 0) = (named.append (spec.mask (g.size + 1))).draft := by
    rw [draft_push (h.numbered.concat rfl), size_append]
    rfl
  have hindex : named.draft.registers.length - 1 = g.size := by
    rw [show named.draft.registers.length = g.size + 1 from size_append _ _, Nat.add_sub_cancel]
  simp only [Draft.add, hnamed, hmask, hindex, add_eq]
  split <;> rfl

theorem draft_ofSpecs (name : String) (bus : Bus) (specs : List RegisterSpec) :
    Draft.ofSpecs name bus specs = (ofSpecs name bus specs).draft := by
  have hfold : ∀ g : RegisterGroup, g.Built →
      specs.foldl (fun d spec => (d.add spec).1) g.draft = (specs.foldl add g).draft := by
    induction specs with
    | nil => exact fun _ _ => rfl
    | cons spec specs ih =>
      intro g hg
      rw [List.foldl_cons, List.foldl_cons, draft_add hg spec]
      exact ih (g.add spec) (hg.add spec)
  have hempty : Draft.empty name bus = draft ⟨name, bus, []⟩ := by
    simp [Draft.empty, draft, localWidth, size, ports, signals]
  rw [Draft.ofSpecs, hempty]
  exact hfold _ (.empty name bus)

theorem draft_extends_add (g : RegisterGroup) (spec : RegisterSpec) :
    g.draft.Extends (g.add spec).draft where
  name := rfl
  bus := rfl
  registers := List.prefix_append _ _
  ports := by simp [draft, ports, add]
  signals := by simp [draft, signals, add]

theorem draft_extends_foldl_add (g : RegisterGroup) (specs : List RegisterSpec) :
    g.draft.Extends (specs.foldl add g).draft := by
  induction specs generalizing g with
  | nil => exact .refl _
  | cons spec specs ih => exact (draft_extends_add g spec).trans (ih (g.add spec))

theorem getElem?_add (g : RegisterGroup) (spec : RegisterSpec) :
    (g.add spec).registers[g.size]? = some ⟨spec.name, spec.width, g.size, spec.kind g.size⟩ := by
  have hlen : g.registers.length ≤ g.size := Nat.le_refl _
  rw [add, spec.registers_eq, List.getElem?_append_right hlen]
  simp [size]

end RegisterGroup

end RegMap
