import RegMap.Proofs.Group.Wiring
import RegMap.Proofs.Verilog.Statements

/-!
The text of a group's module, where all names are identifiers. The declarations tell the bus
interface, and the arms of choices tell the names of the registers, in order, and the vectors of
the interrupts.
-/

set_option autoImplicit false

namespace RegMap

open Verilog Text

namespace RegisterGroup

/-- The names are identifiers, those of registers are distinct, and all widths are positive. -/
structure Readable (g : RegisterGroup) : Prop where
  name : IsIdentifier g.name
  registers : ∀ r ∈ g.registers, IsIdentifier r.name
  distinct : (g.registers.map (·.name)).Nodup
  width : ∀ r ∈ g.registers, 1 ≤ r.width
  addressWidth : 1 ≤ g.bus.addressWidth
  dataWidth : 1 ≤ g.bus.dataWidth

end RegisterGroup

namespace Register

variable {r : Register}

section

variable (h : IsIdentifier r.name)
include h

theorem port_identifier : ∀ p ∈ r.ports, IsIdentifier p.name := by
  have hstrobe : IsIdentifier r.strobe := h.append rfl
  have hset : IsIdentifier r.setPort := h.append rfl
  have hclear : IsIdentifier r.clearPort := h.append rfl
  cases hk : r.kind <;> simp [ports, hk, Port.input, Port.output, h, hstrobe, hset, hclear]

theorem signal_identifier : ∀ s ∈ r.signals, IsIdentifier s.name := by
  have hread : IsIdentifier r.readSelect := h.append rfl
  have hwrite : IsIdentifier r.writeSelect := h.append rfl
  have hstrobe : IsIdentifier r.strobe := h.append rfl
  have hflag : IsIdentifier r.flag := h.append rfl
  cases hk : r.kind <;> simp [signals, hk, h, hread, hwrite, hstrobe, hflag]

end

end Register

namespace RegisterGroup

variable {g g' : RegisterGroup}

theorem bus_port_identifier (bus : Bus) : ∀ p ∈ bus.ports, IsIdentifier p.name := by
  have hpin : IsIdentifier bus.mapping.requestPin := by cases bus.mapping <;> decide
  simp only [Bus.ports, List.forall_mem_cons, Port.input, Port.output, hpin, List.not_mem_nil,
    false_implies, implies_true, and_true]
  decide

theorem Readable.legible (h : g.Readable) : g.toModule.Legible := by
  have hports : ∀ p ∈ g.toModule.ports, IsIdentifier p.name := by
    simp only [toModule, ports, List.mem_append, List.mem_flatMap]
    rintro p ((hp | ⟨r, hr, hp⟩) | hp)
    · exact bus_port_identifier g.bus p hp
    · exact Register.port_identifier (h.registers r hr) p hp
    · unfold interruptPorts at hp
      split at hp
      · obtain rfl := List.mem_singleton.mp hp
        exact (by decide : IsIdentifier "int_n")
      · cases hp
  have hsignals : ∀ s ∈ g.toModule.signals, IsIdentifier s.name := by
    simp only [toModule, signals, List.mem_append, List.mem_flatMap]
    rintro s ((hs | ⟨r, hr, hs⟩) | hs)
    · simp only [Bus.signals, List.mem_cons, List.not_mem_nil, or_false] at hs
      obtain rfl | rfl | rfl := hs <;> (dsimp only; decide)
    · exact Register.signal_identifier (h.registers r hr) s hs
    · unfold interruptSignals at hs
      split at hs
      · simp only [List.mem_cons, List.not_mem_nil, or_false] at hs
        obtain rfl | rfl := hs <;> (dsimp only; decide)
      · cases hs
  refine ⟨h.name, hports, hsignals, fun b hb n hn => ?_⟩
  rcases declares_mentioned hb hn with hn | hn
  · obtain ⟨p, hp, rfl⟩ := List.mem_map.mp hn
    exact hports p hp
  · obtain ⟨s, hs, rfl⟩ := List.mem_map.mp hn
    exact hsignals s hs

theorem Readable.port_width (h : g.Readable) : ∀ p ∈ g.toModule.ports, 1 ≤ p.width := by
  simp only [toModule, ports, List.mem_append, List.mem_flatMap]
  rintro p ((hp | ⟨r, hr, hp⟩) | hp)
  · have haddress := h.addressWidth
    have hdata := h.dataWidth
    simp only [Bus.ports, Port.input, Port.output, List.mem_cons, List.not_mem_nil,
      or_false] at hp
    obtain rfl | rfl | rfl | rfl | rfl | rfl | rfl | rfl | rfl := hp <;> first | assumption | rfl
  · have hwidth := h.width r hr
    cases hk : r.kind <;> simp only [Register.ports, hk, Port.input, Port.output, List.mem_cons,
      List.not_mem_nil, or_false] at hp <;> rcases hp with rfl | rfl | rfl <;>
        first | assumption | rfl
  · unfold interruptPorts at hp
    split at hp
    · obtain rfl := List.mem_singleton.mp hp
      rfl
    · cases hp

theorem ports_eq (h : g.Readable) (h' : g'.Readable)
    (he : g.toModule.ports.map Port.wire = g'.toModule.ports.map Port.wire) :
    g.toModule.ports = g'.toModule.ports := by
  have hports : g.toModule.ports.map id = g'.toModule.ports.map id :=
    map_told (fun p hp p' hp' => portWire_inj (h.legible.ports p hp) (h'.legible.ports p' hp')
      (h.port_width p hp) (h'.port_width p' hp')) he
  rwa [List.map_id, List.map_id] at hports

/-- The ports of the bus interface stand first, and those of the registers behind them. -/
theorem bus_eq (he : g.toModule.ports = g'.toModule.ports) :
    (g.bus.mapping = g'.bus.mapping ∧ g.bus.addressWidth = g'.bus.addressWidth ∧
      g.bus.dataWidth = g'.bus.dataWidth) ∧
      g.registers.flatMap Register.ports ++ g.interruptPorts =
        g'.registers.flatMap Register.ports ++ g'.interruptPorts := by
  simp only [toModule, ports, List.append_assoc] at he
  obtain ⟨hbus, hrest⟩ := List.append_inj he rfl
  refine ⟨?_, hrest⟩
  simp only [Bus.ports, Port.input, Port.output, List.cons.injEq, Port.mk.injEq, true_and,
    and_true] at hbus
  obtain ⟨haddress, hdata, -, hpin⟩ := hbus
  refine ⟨?_, haddress, hdata⟩
  cases hm : g.bus.mapping <;> cases hm' : g'.bus.mapping <;>
    simp [hm, hm', Mapping.requestPin] at hpin ⊢

def readArms (g : RegisterGroup) : List (Expr × Assignment) :=
  g.readMux.statements.flatMap Statement.arms

def requestArms (g : RegisterGroup) : List (Expr × Assignment) :=
  if g.hasInterrupts then g.interruptRequest.statements.flatMap Statement.arms else []

def arms (g : RegisterGroup) : List (Expr × Assignment) := g.readArms ++ g.requestArms

theorem arms_behaviour (r : Register) (registers : List Register) :
    ∀ b ∈ r.behaviour registers, b.statements.flatMap Statement.arms = [] := by
  cases hk : r.kind <;> simp [Register.behaviour, hk, Register.clocked, Register.pulse,
    Register.load, Register.softSetUpdate, Register.pendingUpdate, Register.afterReset,
    Register.flagUpdate, Statement.arms]

theorem assign_of_mem_decoder {s : Statement} (hs : s ∈ g.decoder.statements) :
    ∃ a, s = .assign a := by
  rcases List.mem_cons.mp hs with rfl | hs
  · exact ⟨_, rfl⟩
  · obtain ⟨r, hr, hs⟩ := List.mem_flatMap.mp hs
    obtain ⟨select, strobe, rfl, -, -⟩ := selects_of_mem hs
    exact ⟨_, rfl⟩

theorem arms_decoder (g : RegisterGroup) : g.decoder.statements.flatMap Statement.arms = [] := by
  refine List.flatMap_eq_nil_iff.mpr fun s hs => ?_
  obtain ⟨a, rfl⟩ := assign_of_mem_decoder hs
  rfl

theorem filter_arms (h : g.Readable) : g.toModule.statementLines.filter isArmLine =
    g.arms.map (armWire " = ".toList) := by
  have hfilter := filter_statementLines (p := isArmLine) (m := g.toModule) fun b hb s hs => by
    refine filter_isArmLine fun n hn => h.legible.mentioned b hb n ?_
    exact List.mem_append_right _ (List.mem_flatMap.mpr ⟨s, hs, List.mem_append_right _ hn⟩)
  have hbehaviour : ((g.registers.flatMap (·.behaviour g.registers)).flatMap fun b =>
      (b.statements.flatMap Statement.arms).map (armWire b.trigger.assignment)) = [] := by
    refine List.flatMap_eq_nil_iff.mpr fun b hb => ?_
    obtain ⟨r, -, hb⟩ := List.mem_flatMap.mp hb
    rw [arms_behaviour r g.registers b hb, List.map_nil]
  rw [hfilter, blocks_eq, List.flatMap_cons, List.flatMap_cons, List.flatMap_append, hbehaviour,
    arms_decoder, List.map_nil, List.nil_append, List.append_nil, arms, List.map_append,
    requestArms]
  split
  · rw [List.flatMap_singleton]
    rfl
  · rfl

theorem readArms_eq (g : RegisterGroup) : g.readArms =
    (g.registers.map fun r => (.net r.readSelect, ⟨"rd_data", .net r.name⟩)) ++
      [(.net "default",
        ⟨"rd_data", if g.hasInterrupts then .net "int_vec" else .unknown g.bus.dataWidth⟩)] := by
  simp [readArms, readMux, Statement.arms]

theorem mem_requestArms {arm : Expr × Assignment} :
    arm ∈ g.requestArms ↔
      (∃ r ∈ g.registers, ∃ vector, r.vector? = some vector ∧
        arm = (.net r.flag, ⟨"int_vec", .number vector⟩)) ∨
      g.hasInterrupts = true ∧
        arm = (.net "default", ⟨"int_vec", .unknown g.bus.dataWidth⟩) := by
  cases hi : g.hasInterrupts with
  | true => simp [requestArms, hi, interruptRequest, Statement.arms, eq_comm]
  | false =>
    refine iff_of_false (by simp [requestArms, hi]) ?_
    rintro (⟨r, hr, vector, hv, -⟩ | ⟨hfalse, -⟩)
    · have hinterrupt : r.isInterrupt = true := by
        rw [Register.isInterrupt, hv]
        rfl
      exact absurd (List.any_eq_true.mpr ⟨r, hr, hinterrupt⟩) (Bool.eq_false_iff.mp hi)
    · cases hfalse

theorem Readable.plain_arms (h : g.Readable) : ∀ arm ∈ g.arms,
    ∃ name, arm.1 = .net name ∧ IsIdentifier name ∧ IsIdentifier arm.2.target := by
  have hdefault : IsIdentifier "default" := by decide
  have hdata : IsIdentifier "rd_data" := by decide
  have hvector : IsIdentifier "int_vec" := by decide
  intro arm harm
  rcases List.mem_append.mp harm with harm | harm
  · rw [readArms_eq] at harm
    simp only [List.mem_append, List.mem_map, List.mem_singleton] at harm
    rcases harm with ⟨r, hr, rfl⟩ | rfl
    · exact ⟨_, rfl, (h.registers r hr).append rfl, hdata⟩
    · exact ⟨_, rfl, hdefault, hdata⟩
  · rcases mem_requestArms.mp harm with ⟨r, hr, vector, -, rfl⟩ | ⟨-, rfl⟩
    · exact ⟨_, rfl, (h.registers r hr).append rfl, hvector⟩
    · exact ⟨_, rfl, hdefault, hvector⟩

theorem arms_told (h : g.Readable) (h' : g'.Readable)
    (he : g.toModule.statementLines = g'.toModule.statementLines) :
    g.arms.map lineTold = g'.arms.map lineTold := by
  have hlines := congrArg (List.filter isArmLine) he
  rw [filter_arms h, filter_arms h'] at hlines
  refine map_told (fun arm harm arm' harm' hline => ?_) hlines
  obtain ⟨condition, a⟩ := arm
  obtain ⟨condition', a'⟩ := arm'
  obtain ⟨name, rfl, hname, ht⟩ := h.plain_arms _ harm
  obtain ⟨name', rfl, hname', ht'⟩ := h'.plain_arms _ harm'
  obtain ⟨rfl, htold⟩ := armWire_told hname hname' ht ht' hline
  rw [lineTold, lineTold, htold]

theorem target_readArms : ∀ arm ∈ g.readArms, arm.2.target = "rd_data" := by
  rw [readArms_eq]
  simp only [List.mem_append, List.mem_map, List.mem_singleton]
  rintro arm (⟨r, -, rfl⟩ | rfl) <;> rfl

theorem target_requestArms : ∀ arm ∈ g.requestArms, arm.2.target = "int_vec" := by
  intro arm harm
  rcases mem_requestArms.mp harm with ⟨r, -, vector, -, rfl⟩ | ⟨-, rfl⟩ <;> rfl

/-- The read multiplexer has an arm for each register, and one for none. -/
theorem names_told (g : RegisterGroup) :
    ((g.arms.map lineTold).filter (·.2.1 = "rd_data")).dropLast =
      g.registers.map fun r => (.net r.readSelect, "rd_data", r.name.toList) := by
  have hread : (g.readArms.map lineTold).filter (·.2.1 = "rd_data") = g.readArms.map lineTold :=
    List.filter_eq_self.mpr (List.forall_mem_map.mpr fun arm harm =>
      decide_eq_true (target_readArms arm harm))
  have hrequest : (g.requestArms.map lineTold).filter (·.2.1 = "rd_data") = [] := by
    refine List.filter_eq_nil_iff.mpr (List.forall_mem_map.mpr fun arm harm => ?_)
    rw [lineTold, Assignment.told, target_requestArms arm harm]
    exact (by decide : ¬ decide ("int_vec" = "rd_data") = true)
  rw [arms, List.map_append, List.filter_append, hread, hrequest, List.append_nil, readArms_eq,
    List.map_append, List.map_map]
  exact List.dropLast_concat

theorem vector_told {name : String} {text : List Char} :
    (.net (name ++ "_int"), "int_vec", text) ∈ g.arms.map lineTold ↔
      ∃ r ∈ g.registers, r.name = name ∧ ∃ vector, r.vector? = some vector ∧
        text = decimal vector := by
  constructor
  · intro h
    obtain ⟨arm, harm, htold⟩ := List.mem_map.mp h
    have hcondition : arm.1 = .net (name ++ "_int") := congrArg Prod.fst htold
    have htarget : arm.2.target = "int_vec" := congrArg (·.2.1) htold
    have hvalue : arm.2.value.wire = text := congrArg (·.2.2) htold
    rcases List.mem_append.mp harm with harm | harm
    · exact absurd ((target_readArms arm harm).symm.trans htarget) (by decide)
    · rcases mem_requestArms.mp harm with ⟨r, hr, vector, hvector, rfl⟩ | ⟨-, rfl⟩
      · have hname := Register.suffix_inj r.name name rfl (Expr.net.inj hcondition)
        exact ⟨r, hr, hname.1, vector, hvector, hvalue.symm⟩
      · have hdefault : "def" ++ "ault" = name ++ "_int" := Expr.net.inj hcondition
        have hsuffix := Register.suffix_inj "def" name (by decide) hdefault
        exact absurd hsuffix.2 (by decide : "ault" ≠ "_int")
  · rintro ⟨r, hr, rfl, vector, hvector, rfl⟩
    have harm := mem_requestArms.mpr (.inl ⟨r, hr, vector, hvector, rfl⟩)
    exact List.mem_map.mpr ⟨_, List.mem_append_right _ harm, rfl⟩

end RegisterGroup

end RegMap
