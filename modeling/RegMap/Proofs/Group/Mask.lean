import RegMap.Group.Logic
import RegMap.Proofs.Group.Draft

set_option autoImplicit false

namespace RegMap

open Verilog

def flagLine (name : String) : List Char :=
  (name ++ "_int = |(" ++ name ++ " & ~" ++ name ++ "_msk);").toList

theorem Register.wires_flagUpdate (r m : Register) (hm : m.name = r.name ++ "_msk") :
    (r.flagUpdate (some m)).wires Trigger.change.assignment = [flagLine r.name] := by
  simp [flagUpdate, flag, flagLine, hm, Statement.wires, Assignment.wire, Expr.wire,
    Trigger.assignment]

namespace RegisterGroup

variable {g : RegisterGroup} {r : Register} {spec : RegisterSpec} {i mask vector : Nat}

/-- The register `r` at position `i` is the interrupt that `spec` asked for, and its mask is the one
that came in with it. -/
structure OwnMask (g : RegisterGroup) (spec : RegisterSpec) (i : Nat) (r : Register) : Prop where
  pending : r = ⟨spec.name, spec.width, i, .interrupt (i + 1) spec.vector⟩
  behind : g.registers[i + 1]? =
    some ⟨r.name ++ "_msk", r.width, i + 1, .config spec.resetValue⟩
  alone : ∀ (j : Nat) (s : Register) (vector : Nat), g.registers[j]? = some s →
    s.kind = .interrupt (i + 1) vector → j = i
  rendered : ∃ text ∈ g.toModule.sheet.sections,
    text = (r.behaviour g.registers).flatMap Block.wire ∧
      text = (Register.clocked [r.pendingUpdate]).wire ++ alwaysWire .change [flagLine r.name]

def KeepsMasks (g : RegisterGroup) (specs : List RegisterSpec) : Prop :=
  ∀ (i mask vector : Nat) (r : Register), g.registers[i]? = some r →
    r.kind = .interrupt mask vector → mask = i + 1 ∧
      ∃ before spec after, specs = before ++ spec :: after ∧
        (ofSpecs g.name g.bus before).size = i ∧ g.OwnMask spec i r

/-- An interrupt was there before, or it is the one that the specification names. -/
theorem interrupt_add (hi : (g.add spec).registers[i]? = some r)
    (hk : r.kind = .interrupt mask vector) :
    g.registers[i]? = some r ∨
      i = g.size ∧ spec.type = .intFixed ∧ r = ⟨spec.name, spec.width, i, spec.kind i⟩ := by
  rcases Nat.lt_or_ge i g.size with hlt | hge
  · rw [add, List.getElem?_append_left hlt] at hi
    exact .inl hi
  · rw [add, List.getElem?_append_right hge, spec.registers_eq, ← size] at hi
    obtain ⟨k, rfl⟩ := Nat.exists_eq_add_of_le hge
    rw [Nat.add_sub_cancel_left] at hi
    cases k with
    | zero =>
      obtain rfl : _ = r := Option.some.inj hi
      have htype : spec.type = .intFixed := by
        cases ht : spec.type <;> simp [RegisterSpec.kind, ht] at hk ⊢
      exact .inr ⟨rfl, htype, rfl⟩
    | succ k =>
      -- what comes in behind the named register is a mask, and that is no interrupt
      rw [List.getElem?_cons_succ] at hi
      have hmask : r = spec.mask (g.size + 1) := by
        split at hi
        · cases k <;> simp_all
        · simp at hi
      rw [hmask] at hk
      cases hk

theorem interrupt_ofSpecs (name : String) (bus : Bus) (specs : List RegisterSpec)
    (hi : (ofSpecs name bus specs).registers[i]? = some r) (hk : r.kind = .interrupt mask vector) :
    ∃ before spec after, specs = before ++ spec :: after ∧ (ofSpecs name bus before).size = i ∧
      spec.type = .intFixed ∧ r = ⟨spec.name, spec.width, i, spec.kind i⟩ := by
  induction specs using List.reverseRecOn with
  | nil => simp [ofSpecs] at hi
  | append_singleton specs spec ih =>
    rw [ofSpecs_append] at hi
    rcases interrupt_add hi hk with hi | ⟨rfl, htype, hr⟩
    · obtain ⟨before, s, after, rfl, hs⟩ := ih hi
      exact ⟨before, s, after ++ [spec], by simp, hs⟩
    · exact ⟨specs, spec, [], rfl, rfl, htype, hr⟩

theorem kind_intFixed (ht : spec.type = .intFixed) (i : Nat) :
    spec.kind i = .interrupt (i + 1) spec.vector := by
  rw [RegisterSpec.kind, ht]

theorem interrupt_position (h : g.Built) (hi : g.registers[i]? = some r)
    (hk : r.kind = .interrupt mask vector) : mask = i + 1 := by
  obtain ⟨name, bus, specs, rfl⟩ := built_iff.mp h
  obtain ⟨before, spec, after, -, -, ht, rfl⟩ := interrupt_ofSpecs name bus specs hi hk
  rw [kind_intFixed ht, RegisterKind.interrupt.injEq] at hk
  exact hk.1.symm

theorem getElem?_add_mask (ht : spec.type = .intFixed) :
    (g.add spec).registers[g.size + 1]? = some (spec.mask (g.size + 1)) := by
  have hlen : g.registers.length ≤ g.size + 1 := Nat.le_succ _
  rw [add, spec.registers_eq, if_pos ht, List.getElem?_append_right hlen, ← size,
    Nat.add_sub_cancel_left]
  rfl

theorem rendered_interrupt {m : Register} (hr : r ∈ g.registers)
    (hk : r.kind = .interrupt mask vector) (hm : g.registers[mask]? = some m)
    (hn : m.name = r.name ++ "_msk") :
    ∃ text ∈ g.toModule.sheet.sections,
      text = (r.behaviour g.registers).flatMap Block.wire ∧
        text = (Register.clocked [r.pendingUpdate]).wire ++
          alwaysWire .change [flagLine r.name] := by
  have hbehaviour : r.behaviour g.registers =
      [Register.clocked [r.pendingUpdate], ⟨.change, [r.flagUpdate (some m)]⟩] := by
    simp only [Register.behaviour, hk, hm]
  have hsection : r.behaviour g.registers ∈ g.toModule.sections := by
    have hfilter : r.behaviour g.registers ∈
        (g.registers.map (·.behaviour g.registers)).filter (!·.isEmpty) :=
      List.mem_filter.mpr ⟨List.mem_map_of_mem hr, by simp [hbehaviour]⟩
    simp only [toModule, List.mem_append]
    exact .inr hfilter
  refine ⟨_, List.mem_map_of_mem hsection, rfl, ?_⟩
  rw [hbehaviour]
  simp [Block.wire, Register.wires_flagUpdate r m hn]

theorem ofSpecs_keepsMasks (name : String) (bus : Bus) (specs : List RegisterSpec) :
    (ofSpecs name bus specs).KeepsMasks specs := by
  intro i mask vector r hi hk
  have hg : (ofSpecs name bus specs).Built := built_iff.mpr ⟨_, _, _, rfl⟩
  have hstart := draft_extends_foldl_add ⟨name, bus, []⟩ specs
  have hname : (ofSpecs name bus specs).name = name := hstart.name
  have hbus : (ofSpecs name bus specs).bus = bus := hstart.bus
  obtain rfl := interrupt_position hg hi hk
  obtain ⟨before, spec, after, hspecs, hsize, ht, hr⟩ := interrupt_ofSpecs name bus specs hi hk
  have hmask : (ofSpecs name bus specs).registers[i + 1]? = some (spec.mask (i + 1)) := by
    rw [hspecs, ofSpecs_append]
    refine getElem?_foldl_add after ?_
    rw [← hsize]
    exact getElem?_add_mask ht
  refine ⟨rfl, before, spec, after, hspecs, by rw [hname, hbus, hsize], ?_, ?_, ?_, ?_⟩
  · rw [hr, kind_intFixed ht]
  · rw [hmask, hr]
    rfl
  · intro j s vector hj hs
    have := interrupt_position hg hj hs
    omega
  · refine rendered_interrupt (List.mem_of_getElem? hi) hk hmask ?_
    rw [hr]
    rfl

end RegisterGroup

end RegMap
