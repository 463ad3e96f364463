import RegMap.Proofs.Group.ReadPath

set_option autoImplicit false

namespace RegMap

open Verilog

namespace RegisterGroup

variable {g : RegisterGroup} {r r' : Register} {σ ρ : State} {n : String} {s : Statement}

def maskOf (g : RegisterGroup) (r : Register) : Option Register :=
  match r.kind with
  | .interrupt mask _ => g.registers[mask]?
  | _ => none

def flagUpdates (g : RegisterGroup) : List Statement :=
  (g.registers.filter Register.isInterrupt).map fun r => r.flagUpdate (g.maskOf r)

def requestStatements (g : RegisterGroup) : List Statement :=
  if g.hasInterrupts then g.interruptRequest.statements else []

/-- All gates of the module, in an order in which they settle. -/
def gateOrder (g : RegisterGroup) : List Statement :=
  g.flagUpdates ++ g.requestStatements ++ (g.decoder.statements ++ g.readMux.statements)

theorem mem_blocks {b : Block} :
    b ∈ g.toModule.blocks ↔ b = g.decoder ∨ b = g.readMux ∨
      g.hasInterrupts = true ∧ b = g.interruptRequest ∨
        ∃ r ∈ g.registers, b ∈ r.behaviour g.registers := by
  have hsections : b ∈ ((g.registers.map (·.behaviour g.registers)).filter (!·.isEmpty)).flatten ↔
      ∃ r ∈ g.registers, b ∈ r.behaviour g.registers := by
    simp only [List.mem_flatten, List.mem_filter, List.mem_map]
    constructor
    · rintro ⟨bs, ⟨⟨r, hr, rfl⟩, -⟩, hb⟩
      exact ⟨r, hr, hb⟩
    · rintro ⟨r, hr, hb⟩
      refine ⟨_, ⟨⟨r, hr, rfl⟩, ?_⟩, hb⟩
      cases hbs : r.behaviour g.registers <;> simp_all
  simp only [Module.blocks, toModule, List.flatten_append, List.flatten_cons, List.mem_append,
    hsections]
  split <;> simp_all [or_assoc]

theorem mem_behaviour_change {b : Block} (hb : b.trigger = .change) :
    b ∈ r.behaviour g.registers ↔
      r.isInterrupt = true ∧ b = ⟨.change, [r.flagUpdate (g.maskOf r)]⟩ := by
  cases hk : r.kind <;>
    simp only [Register.behaviour, Register.isInterrupt, Register.vector?, maskOf, hk,
      List.mem_cons, List.not_mem_nil, or_false, Option.isSome_none, Option.isSome_some,
      Bool.false_eq_true, false_and, true_and, iff_false]
  case interrupt mask vector =>
    refine or_iff_right fun he => ?_
    simp [he, Register.clocked] at hb
  all_goals
    intro he
    simp [he, Register.clocked] at hb

theorem mem_flagUpdates :
    s ∈ g.flagUpdates ↔
      ∃ r ∈ g.registers, r.isInterrupt = true ∧ s = r.flagUpdate (g.maskOf r) := by
  simp only [flagUpdates, List.mem_map, List.mem_filter, and_assoc, eq_comm]

theorem mem_requestStatements :
    s ∈ g.requestStatements ↔ g.hasInterrupts = true ∧ s ∈ g.interruptRequest.statements := by
  unfold requestStatements
  split <;> simp_all

theorem mem_gateStatements : s ∈ g.toModule.gateStatements ↔ s ∈ g.gateOrder := by
  simp only [gateOrder, List.mem_append, mem_flagUpdates, mem_requestStatements,
    Module.gateStatements, Module.gates, List.mem_flatMap, List.mem_filter, beq_iff_eq, mem_blocks]
  constructor
  · rintro ⟨b, ⟨rfl | rfl | ⟨hi, rfl⟩ | ⟨r, hr, hb⟩, ht⟩, hs⟩
    · exact .inr (.inl hs)
    · exact .inr (.inr hs)
    · exact .inl (.inr ⟨hi, hs⟩)
    · obtain ⟨hint, rfl⟩ := (mem_behaviour_change ht).mp hb
      exact .inl (.inl ⟨r, hr, hint, List.mem_singleton.mp hs⟩)
  · rintro ((⟨r, hr, hint, rfl⟩ | ⟨hi, hs⟩) | hs | hs)
    · exact ⟨_, ⟨.inr (.inr (.inr ⟨r, hr, (mem_behaviour_change rfl).mpr ⟨hint, rfl⟩⟩)), rfl⟩,
        List.mem_singleton_self _⟩
    · exact ⟨_, ⟨.inr (.inr (.inl ⟨hi, rfl⟩)), rfl⟩, hs⟩
    · exact ⟨_, ⟨.inl rfl, rfl⟩, hs⟩
    · exact ⟨_, ⟨.inr (.inl rfl), rfl⟩, hs⟩

theorem mem_of_maskOf {mask : Register} (h : g.maskOf r = some mask) : mask ∈ g.registers := by
  unfold maskOf at h
  split at h
  · exact List.mem_of_getElem? h
  · simp at h

theorem name_of_mem_nets_flagUpdate (hr : r ∈ g.registers)
    (h : n ∈ (r.flagUpdate (g.maskOf r)).nets) : ∃ r' ∈ g.registers, n = r'.name := by
  cases hm : g.maskOf r with
  | none =>
    have hn : n = r.name := by simpa [Register.flagUpdate, hm, Statement.nets, Expr.nets] using h
    exact ⟨r, hr, hn⟩
  | some mask =>
    have hn : n = r.name ∨ n = mask.name := by
      simpa [Register.flagUpdate, hm, Statement.nets, Expr.nets] using h
    rcases hn with hn | hn
    · exact ⟨r, hr, hn⟩
    · exact ⟨mask, mem_of_maskOf hm, hn⟩

theorem flag_of_mem_nets_request (hs : s ∈ g.interruptRequest.statements) (h : n ∈ s.nets) :
    ∃ r ∈ g.registers, r.isInterrupt = true ∧ n = r.flag := by
  rcases List.mem_cons.mp hs with rfl | hs
  · simp only [Statement.nets, List.mem_append, List.mem_flatMap, List.mem_filterMap,
      Option.map_eq_some_iff] at h
    rcases h with ⟨arm, ⟨r, hr, vector, hv, rfl⟩, hn⟩ | hn
    · refine ⟨r, hr, by simp [Register.isInterrupt, hv], ?_⟩
      simpa [Expr.nets] using hn
    · simp [Expr.nets] at hn
  · obtain rfl := List.mem_singleton.mp hs
    simp only [Statement.nets, Expr.nets, Expr.mem_nets_anyOf, List.mem_map, List.mem_filter] at h
    obtain ⟨e, ⟨r, ⟨hr, hi⟩, rfl⟩, hn⟩ := h
    exact ⟨r, hr, hi, List.mem_singleton.mp hn⟩

theorem targets_request (hs : s ∈ g.interruptRequest.statements) (h : n ∈ s.targets) :
    n = "int_vec" ∨ n = "int_n" := by
  rcases List.mem_cons.mp hs with rfl | hs
  · simp only [Statement.targets, List.mem_append, List.mem_map, List.mem_filterMap,
      Option.map_eq_some_iff, List.mem_singleton] at h
    rcases h with ⟨arm, ⟨r, hr, vector, hv, rfl⟩, rfl⟩ | rfl
    · exact .inl rfl
    · exact .inl rfl
  · obtain rfl := List.mem_singleton.mp hs
    exact .inr (List.mem_singleton.mp h)

theorem interrupt_of_mem_request (hi : g.hasInterrupts = true)
    (hs : s ∈ g.interruptRequest.statements) (h : n ∈ s.targets) :
    n ∈ signalNames g.interruptSignals := by
  rcases targets_request hs h with rfl | rfl <;> simp [signalNames, interruptSignals, hi]

theorem flag_not_driven (hs : Separate g.ports g.signals) (hr : r ∈ g.registers)
    (hi : r.isInterrupt = true) : r.flag ∉ g.decoder.targets ∧ r.flag ∉ g.readMux.targets := by
  have hflag := Register.flag_mem hi
  refine ⟨fun h => ?_, fun h => bus_ne_register hs (bus_of_mem_readMux h) hr hflag rfl⟩
  rcases mem_targets_decoder.mp h with h | ⟨r', hr', h | ⟨hw, h⟩⟩
  · exact bus_ne_register hs g.block_select_mem hr hflag h.symm
  · obtain rfl := owner_unique hs hr hr' hflag (h ▸ r'.readSelect_mem)
    exact Register.suffix_ne r.name (by decide) h
  · obtain rfl := owner_unique hs hr hr' hflag (h ▸ Register.writeSelect_mem hw)
    exact Register.suffix_ne r.name (by decide) h

theorem driven_cases (hs : s ∈ g.toModule.gateStatements) (hn : n ∈ s.targets) :
    (∃ r ∈ g.registers, r.isInterrupt = true ∧ n = r.flag) ∨
      n ∈ signalNames g.interruptSignals ∨ n ∈ g.decoder.targets ∨ n ∈ g.readMux.targets := by
  simp only [mem_gateStatements, gateOrder, List.mem_append, mem_flagUpdates,
    mem_requestStatements] at hs
  rcases hs with (⟨r, hr, hi, rfl⟩ | ⟨hint, hs⟩) | hs | hs
  · exact .inl ⟨r, hr, hi, List.mem_singleton.mp hn⟩
  · exact .inr (.inl (interrupt_of_mem_request hint hs hn))
  · exact .inr (.inr (.inl (List.mem_flatMap.mpr ⟨s, hs, hn⟩)))
  · exact .inr (.inr (.inr (List.mem_flatMap.mpr ⟨s, hs, hn⟩)))

section

variable (h : Separate g.toModule.ports g.toModule.signals)

include h

theorem flag_not_read (hr : r ∈ g.registers) (hi : r.isInterrupt = true) (hr' : r' ∈ g.registers) :
    r.flag ∉ (r'.flagUpdate (g.maskOf r')).nets := by
  intro hn
  obtain ⟨r'', hr'', he⟩ := name_of_mem_nets_flagUpdate hr' hn
  exact suffixed_ne_name (separate_of_toModule h) (by decide) hr (Register.flag_mem hi) hr'' he

theorem ordered_flagUpdates : Ordered g.flagUpdates := by
  have hs := separate_of_toModule h
  constructor
  · intro s hm n hn
    obtain ⟨r, hr, hi, rfl⟩ := mem_flagUpdates.mp hm
    obtain rfl : n = r.flag := List.mem_singleton.mp hn
    exact flag_not_read h hr hi hr
  · refine List.pairwise_map.mpr (List.Pairwise.imp_of_mem ?_ ((registers_pairwise hs).filter _))
    intro r r' hr hr' hne n hn
    obtain rfl : n = r'.flag := List.mem_singleton.mp hn
    obtain ⟨hr, hi⟩ := List.mem_filter.mp hr
    obtain ⟨hr', hi'⟩ := List.mem_filter.mp hr'
    refine ⟨flag_not_read h hr' hi' hr, fun he => ?_⟩
    exact hne _ (Register.flag_mem hi) _ (Register.flag_mem hi') (List.mem_singleton.mp he).symm

theorem not_read_by_request (hn : n ∈ signalNames g.interruptSignals) :
    ∀ s ∈ g.interruptRequest.statements, n ∉ s.nets := by
  intro s hs hread
  obtain ⟨r, hr, hi, rfl⟩ := flag_of_mem_nets_request hs hread
  exact interrupt_ne_signal h hn (mem_signalNames_register hr (Register.flag_mem hi)) rfl

theorem ordered_requestStatements : Ordered g.requestStatements := by
  by_cases hi : g.hasInterrupts = true
  · rw [requestStatements, if_pos hi]
    refine ⟨fun s hs n hn => not_read_by_request h (interrupt_of_mem_request hi hs hn) s hs, ?_⟩
    refine List.pairwise_pair.mpr fun n hn => ?_
    obtain rfl : n = "int_n" := List.mem_singleton.mp hn
    refine ⟨not_read_by_request h ?_ _ List.mem_cons_self, fun he => ?_⟩
    · simp [signalNames, interruptSignals, hi]
    · simp [Statement.targets] at he
  · rw [requestStatements, if_neg hi]
    exact ⟨by simp, List.Pairwise.nil⟩

/-- Flags follow the registers, the request the flags, and the selects and the data bus the rest. -/
theorem ordered_gateOrder : Ordered g.gateOrder := by
  have hs := separate_of_toModule h
  refine ((ordered_flagUpdates h).append (ordered_requestStatements h) ?_).append
    (ordered_decoder_readMux hs) ?_
  · intro s hm t ht n hn
    obtain ⟨r, hr, hi, rfl⟩ := mem_flagUpdates.mp hm
    obtain ⟨hint, ht⟩ := mem_requestStatements.mp ht
    have hnet := interrupt_of_mem_request hint ht hn
    refine ⟨fun hread => ?_, fun he => ?_⟩
    · obtain ⟨r', hr', rfl⟩ := name_of_mem_nets_flagUpdate hr hread
      exact interrupt_ne_name h hnet hr' rfl
    · have hflag := mem_signalNames_register hr (Register.flag_mem hi)
      exact interrupt_ne_signal h hnet hflag (List.mem_singleton.mp he).symm
  · intro s hm t ht n hn
    have hdriven : n ∈ g.decoder.targets ∨ n ∈ g.readMux.targets :=
      (List.mem_append.mp ht).imp (fun ht => List.mem_flatMap.mpr ⟨t, ht, hn⟩)
        fun ht => List.mem_flatMap.mpr ⟨t, ht, hn⟩
    have hname : ∀ r ∈ g.registers, n ≠ r.name := fun r hr he =>
      hdriven.elim (he ▸ (name_not_driven hs hr).1) (he ▸ (name_not_driven hs hr).2)
    have hflag : ∀ r ∈ g.registers, r.isInterrupt = true → n ≠ r.flag := fun r hr hi he =>
      hdriven.elim (he ▸ (flag_not_driven hs hr hi).1) (he ▸ (flag_not_driven hs hr hi).2)
    have hsignal : n ∈ signalNames g.signals :=
      hdriven.elim signal_of_mem_decoder fun hd => mem_signalNames_bus (bus_of_mem_readMux hd)
    rcases List.mem_append.mp hm with hm | hm
    · obtain ⟨r, hr, hi, rfl⟩ := mem_flagUpdates.mp hm
      refine ⟨fun hread => ?_, fun he => hflag r hr hi (List.mem_singleton.mp he)⟩
      obtain ⟨r', hr', he⟩ := name_of_mem_nets_flagUpdate hr hread
      exact hname r' hr' he
    · obtain ⟨hint, hm⟩ := mem_requestStatements.mp hm
      refine ⟨fun hread => ?_, fun he => ?_⟩
      · obtain ⟨r, hr, hi, he⟩ := flag_of_mem_nets_request hm hread
        exact hflag r hr hi he
      · exact interrupt_ne_signal h (interrupt_of_mem_request hint hm he) hsignal rfl

/-- Whatever state the module is in, its gates come to rest. -/
theorem exists_follows (hσ : g.toModule.Fits σ) : ∃ ρ, g.toModule.Follows σ ρ :=
  ⟨_, Module.follows_execute (ordered_gateOrder h) (fun _ => mem_gateStatements.symm) hσ⟩

end

end RegisterGroup

end RegMap
