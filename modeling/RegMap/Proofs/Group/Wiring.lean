import RegMap.Proofs.Group.Storage
import RegMap.Proofs.Verilog.Wiring

set_option autoImplicit false

namespace RegMap

open Verilog

namespace Register

variable {r : Register} {n : String} {s : Statement}

theorem nets_updates (hs : s ∈ r.updates) (hn : n ∈ s.nets) :
    n = "reset" ∨ n = "wr_data" ∨ n ∈ signalNames r.signals ∨ n ∈ inputNames r.ports := by
  cases hk : r.kind <;> simp only [updates, hk, List.mem_cons, List.not_mem_nil, or_false] at hs
  case writeStrobe resetValue =>
    rcases hs with rfl | rfl <;>
      simp_all [load, pulse, afterReset, Statement.nets, Expr.nets, signalNames, signals] <;> tauto
  all_goals
    obtain rfl := hs
    simp_all [load, pulse, softSetUpdate, pendingUpdate, afterReset, Statement.nets, Expr.nets,
      signalNames, signals, inputNames, ports, Port.input, Port.output]
  all_goals tauto

end Register

namespace RegisterGroup

variable {g : RegisterGroup} {r r' : Register} {b c : Block} {n : String} {s : Statement}

theorem blocks_eq (g : RegisterGroup) :
    g.toModule.blocks = g.decoder :: g.readMux ::
      ((if g.hasInterrupts then [g.interruptRequest] else []) ++
        g.registers.flatMap (·.behaviour g.registers)) := by
  simp only [Module.blocks, toModule, List.flatten_append, List.flatten_cons,
    List.flatten_filter_not_isEmpty, List.flatMap_def, List.singleton_append]
  split <;> simp

theorem declares_input_group (h : n ∈ inputNames g.ports) : g.toModule.Declares n :=
  Module.declares_input (by rwa [inputNames_toModule])

theorem declares_signal (h : n ∈ signalNames g.signals) : g.toModule.Declares n := by
  refine .inr ?_
  rw [signalNames_toModule]
  exact List.mem_append_left _ h

theorem declares_interrupt (h : n ∈ signalNames g.interruptSignals) : g.toModule.Declares n := by
  refine .inr ?_
  rw [signalNames_toModule]
  exact List.mem_append_right _ h

theorem declares_bus (h : n ∈ ["clk", "reset", "addr", "wr_data", "rd_n", "wr_n",
    g.bus.mapping.requestPin]) : g.toModule.Declares n :=
  declares_input_group (mem_inputNames_bus h)

theorem declares_register (hr : r ∈ g.registers) (h : n ∈ signalNames r.signals) :
    g.toModule.Declares n :=
  declares_signal (mem_signalNames_register hr h)

theorem declares_port (hr : r ∈ g.registers) (h : n ∈ inputNames r.ports) :
    g.toModule.Declares n :=
  declares_input_group (mem_inputNames_register hr h)

theorem declares_name (hr : r ∈ g.registers) : g.toModule.Declares r.name := by
  cases hw : r.writable with
  | true => exact declares_register hr (Register.name_mem hw)
  | false => exact declares_port hr (Register.name_mem_inputNames hw)

theorem declared_decoder (h : n ∈ g.decoder.mentioned) : g.toModule.Declares n := by
  have hblock : g.toModule.Declares "block_select" :=
    declares_signal (mem_signalNames_bus g.block_select_mem)
  have haddr : g.toModule.Declares "addr" := declares_bus (by simp)
  rcases List.mem_flatMap.mp h with ⟨s, hs, hn⟩
  rcases List.mem_cons.mp hs with rfl | hs
  · have hn : n ∈ ["addr", g.bus.mapping.requestPin, "block_select"] := hn
    simp only [List.mem_cons, List.not_mem_nil, or_false] at hn
    rcases hn with rfl | rfl | rfl
    · exact haddr
    · exact declares_bus (by simp)
    · exact hblock
  · obtain ⟨r, hr, hs⟩ := List.mem_flatMap.mp hs
    obtain ⟨select, strobe, rfl, hselect, hstrobe⟩ := selects_of_mem hs
    have hn : n ∈ ["block_select", "addr", strobe, select] := hn
    simp only [List.mem_cons, List.not_mem_nil, or_false] at hn
    rcases hn with rfl | rfl | rfl | rfl
    · exact hblock
    · exact haddr
    · exact declares_input_group hstrobe
    · exact declares_register hr hselect

theorem nets_readMux (hs : s ∈ g.readMux.statements) (hn : n ∈ s.nets) :
    (∃ r ∈ g.registers, n = r.readSelect ∨ n = r.name) ∨
      g.hasInterrupts = true ∧ n = "int_vec" := by
  rcases List.mem_cons.mp hs with rfl | hs
  · simp only [Statement.nets, List.flatMap_map, List.mem_append, List.mem_flatMap, Expr.nets,
      List.mem_singleton] at hn
    rcases hn with ⟨r, hr, hn⟩ | hn
    · exact .inl ⟨r, hr, hn⟩
    · split at hn
      · next hi => exact .inr ⟨hi, List.mem_singleton.mp hn⟩
      · simp [Expr.nets] at hn
  · obtain rfl := List.mem_singleton.mp hs
    simp only [Statement.nets, Expr.mem_nets_anyOf, List.mem_map] at hn
    obtain ⟨e, ⟨r, hr, rfl⟩, he⟩ := hn
    exact .inl ⟨r, hr, .inl (List.mem_singleton.mp he)⟩

theorem declared_readMux (h : n ∈ g.readMux.mentioned) : g.toModule.Declares n := by
  rcases List.mem_flatMap.mp h with ⟨s, hs, hn⟩
  rcases List.mem_append.mp hn with hn | hn
  · rcases nets_readMux hs hn with ⟨r, hr, rfl | rfl⟩ | ⟨hi, rfl⟩
    · exact declares_register hr r.readSelect_mem
    · exact declares_name hr
    · exact declares_interrupt (by simp [signalNames, interruptSignals, hi])
  · have htarget : n ∈ g.readMux.targets := List.mem_flatMap.mpr ⟨s, hs, hn⟩
    exact declares_signal (mem_signalNames_bus (bus_of_mem_readMux htarget))

theorem declared_request (hi : g.hasInterrupts = true) (h : n ∈ g.interruptRequest.mentioned) :
    g.toModule.Declares n := by
  rcases List.mem_flatMap.mp h with ⟨s, hs, hn⟩
  rcases List.mem_append.mp hn with hn | hn
  · obtain ⟨r, hr, hr', rfl⟩ := flag_of_mem_nets_request hs hn
    exact declares_register hr (Register.flag_mem hr')
  · exact declares_interrupt (interrupt_of_mem_request hi hs hn)

theorem behaviour_cases (hb : b ∈ r.behaviour g.registers) :
    b.trigger = .edge "clk" ∧ (∀ s ∈ b.statements, s ∈ r.updates) ∨
      r.isInterrupt = true ∧ b = ⟨.change, [r.flagUpdate (g.maskOf r)]⟩ := by
  by_cases ht : b.trigger = .change
  · exact .inr ((mem_behaviour_change ht).mp hb)
  · refine .inl ⟨?_, fun s hs => (Register.mem_updates g.registers).mpr ⟨b, hb, ht, hs⟩⟩
    cases hk : r.kind <;>
      simp only [Register.behaviour, hk, List.mem_cons, List.not_mem_nil, or_false] at hb
    case interrupt mask vector =>
      rcases hb with rfl | rfl
      · rfl
      · exact absurd rfl ht
    all_goals
      obtain rfl := hb
      rfl

theorem targets_behaviour (hb : b ∈ r.behaviour g.registers) (hn : n ∈ b.targets) :
    (∃ s ∈ r.updates, n ∈ s.targets) ∨ r.isInterrupt = true ∧ n = r.flag := by
  rcases behaviour_cases hb with ⟨-, hupdates⟩ | ⟨hi, rfl⟩
  · obtain ⟨s, hs, hn⟩ := List.mem_flatMap.mp hn
    exact .inl ⟨s, hupdates s hs, hn⟩
  · exact .inr ⟨hi, List.mem_singleton.mp hn⟩

theorem signal_of_behaviour (hb : b ∈ r.behaviour g.registers) (hn : n ∈ b.targets) :
    n ∈ signalNames r.signals := by
  rcases targets_behaviour hb hn with ⟨s, hs, hn⟩ | ⟨hi, rfl⟩
  · exact Register.signal_of_update hs hn
  · exact Register.flag_mem hi

theorem declared_behaviour (hr : r ∈ g.registers) (hb : b ∈ r.behaviour g.registers)
    (h : n ∈ b.mentioned) : g.toModule.Declares n := by
  rcases behaviour_cases hb with ⟨ht, hupdates⟩ | ⟨hi, rfl⟩
  · rw [Block.mentioned, ht] at h
    rcases List.mem_append.mp h with h | h
    · obtain rfl := List.mem_singleton.mp h
      exact declares_bus (by simp)
    · obtain ⟨s, hs, hn⟩ := List.mem_flatMap.mp h
      rcases List.mem_append.mp hn with hn | hn
      · rcases Register.nets_updates (hupdates s hs) hn with rfl | rfl | hn | hn
        · exact declares_bus (by simp)
        · exact declares_bus (by simp)
        · exact declares_register hr hn
        · exact declares_port hr hn
      · exact declares_register hr (Register.signal_of_update (hupdates s hs) hn)
  · obtain ⟨s, hs, hn⟩ := List.mem_flatMap.mp h
    obtain rfl := List.mem_singleton.mp hs
    rcases List.mem_append.mp hn with hn | hn
    · obtain ⟨r', hr', rfl⟩ := name_of_mem_nets_flagUpdate hr hn
      exact declares_name hr'
    · obtain rfl := List.mem_singleton.mp hn
      exact declares_register hr (Register.flag_mem hi)

theorem declares_mentioned (hb : b ∈ g.toModule.blocks) (h : n ∈ b.mentioned) :
    g.toModule.Declares n := by
  rcases mem_blocks.mp hb with rfl | rfl | ⟨hi, rfl⟩ | ⟨r, hr, hb⟩
  · exact declared_decoder h
  · exact declared_readMux h
  · exact declared_request hi h
  · exact declared_behaviour hr hb h

theorem targets_interruptRequest (hi : g.hasInterrupts = true)
    (h : n ∈ g.interruptRequest.targets) : n ∈ signalNames g.interruptSignals := by
  obtain ⟨s, hs, hn⟩ := List.mem_flatMap.mp h
  exact interrupt_of_mem_request hi hs hn

theorem signal_of_target (hb : b ∈ g.toModule.blocks) (h : n ∈ b.targets) :
    n ∈ signalNames g.toModule.signals := by
  rw [signalNames_toModule, List.mem_append]
  rcases mem_blocks.mp hb with rfl | rfl | ⟨hi, rfl⟩ | ⟨r, hr, hb⟩
  · exact .inl (signal_of_mem_decoder h)
  · exact .inl (mem_signalNames_bus (bus_of_mem_readMux h))
  · exact .inr (targets_interruptRequest hi h)
  · exact .inl (mem_signalNames_register hr (signal_of_behaviour hb h))

/-- The blocks of a register drive all of its signals but the selects. -/
theorem register_signal_driven (registers : List Register) (h : n ∈ signalNames r.signals) :
    n = r.readSelect ∨ n = r.writeSelect ∧ r.writable = true ∨
      ∃ b ∈ r.behaviour registers, n ∈ b.targets := by
  have hflag : ∀ mask, (r.flagUpdate mask).targets = [r.flag] := fun _ => rfl
  cases hk : r.kind <;>
    simp_all [signalNames, Register.signals, Register.writable, Register.behaviour,
      Register.clocked, Block.targets, Register.mem_targets_load, Register.mem_targets_pulse,
      Register.softSetUpdate, Register.pendingUpdate, Register.mem_targets_afterReset]
  all_goals tauto

theorem exists_driver (h : n ∈ signalNames g.toModule.signals) :
    ∃ b ∈ g.toModule.blocks, n ∈ b.targets := by
  rw [signalNames_toModule, signalNames_signals] at h
  rcases List.mem_append.mp h with h | h
  · rcases List.mem_append.mp h with h | h
    · have hbus : n = "rd_data" ∨ n = "doe" ∨ n = "block_select" := by
        simpa [signalNames, Bus.signals] using h
      rcases hbus with rfl | rfl | rfl
      · refine ⟨g.readMux, mem_blocks.mpr (.inr (.inl rfl)), ?_⟩
        simp [Block.targets, readMux, Statement.targets]
      · refine ⟨g.readMux, mem_blocks.mpr (.inr (.inl rfl)), ?_⟩
        simp [Block.targets, readMux, Statement.targets]
      · exact ⟨g.decoder, mem_blocks.mpr (.inl rfl), mem_targets_decoder.mpr (.inl rfl)⟩
    · obtain ⟨r, hr, hn⟩ := List.mem_flatMap.mp h
      rcases register_signal_driven g.registers hn with rfl | ⟨rfl, hw⟩ | ⟨b, hb, hn⟩
      · exact ⟨g.decoder, mem_blocks.mpr (.inl rfl),
          mem_targets_decoder.mpr (.inr ⟨r, hr, .inl rfl⟩)⟩
      · exact ⟨g.decoder, mem_blocks.mpr (.inl rfl),
          mem_targets_decoder.mpr (.inr ⟨r, hr, .inr ⟨hw, rfl⟩⟩)⟩
      · exact ⟨b, mem_blocks.mpr (.inr (.inr (.inr ⟨r, hr, hb⟩))), hn⟩
  · unfold interruptSignals at h
    split at h
    · next hi =>
      refine ⟨g.interruptRequest, mem_blocks.mpr (.inr (.inr (.inl ⟨hi, rfl⟩))), ?_⟩
      have hn : n = "int_n" ∨ n = "int_vec" := by simpa [signalNames] using h
      rcases hn with rfl | rfl <;> simp [Block.targets, interruptRequest, Statement.targets]
    · simp [signalNames] at h

section

variable (h : Separate g.toModule.ports g.toModule.signals)

include h

theorem behaviour_not_driven (hr : r ∈ g.registers) (hb : b ∈ r.behaviour g.registers)
    (hn : n ∈ b.targets) : n ∉ g.decoder.targets ∧ n ∉ g.readMux.targets := by
  rcases targets_behaviour hb hn with ⟨s, hs, hn⟩ | ⟨hi, rfl⟩
  · have hfree : ∀ b ∈ g.toModule.gates, n ∉ b.targets := by
      intro b hb ht
      obtain ⟨t, htb, htn⟩ := List.mem_flatMap.mp ht
      exact update_not_driven h hr hs hn t (List.mem_flatMap.mpr ⟨b, hb, htb⟩) htn
    exact ⟨hfree _ (List.mem_filter.mpr ⟨mem_blocks.mpr (.inl rfl), rfl⟩),
      hfree _ (List.mem_filter.mpr ⟨mem_blocks.mpr (.inr (.inl rfl)), rfl⟩)⟩
  · exact flag_not_driven (separate_of_toModule h) hr hi

omit h in
theorem pairwise_behaviour (r : Register) (registers : List Register) :
    (r.behaviour registers).Pairwise fun b c => ∀ n ∈ b.targets, n ∉ c.targets := by
  cases hk : r.kind with
  | interrupt mask vector =>
    simp only [Register.behaviour, hk]
    refine List.pairwise_pair.mpr fun n hn hflag => ?_
    have hname : n = r.name := by
      simpa [Register.clocked, Block.targets, Register.pendingUpdate,
        Register.mem_targets_afterReset] using hn
    obtain rfl : n = r.flag := List.mem_singleton.mp hflag
    exact Register.name_ne_suffix r.name (by decide) hname.symm
  | status => simp [Register.behaviour, hk]
  | readStrobe | config | writeStrobe | softSet => simp [Register.behaviour, hk]

theorem request_not_driven (hi : g.hasInterrupts = true) (hn : n ∈ g.interruptRequest.targets) :
    n ∉ g.decoder.targets ∧ n ∉ g.readMux.targets := by
  have hnet := targets_interruptRequest hi hn
  refine ⟨fun hd => ?_, fun hm => ?_⟩
  · exact interrupt_ne_signal h hnet (signal_of_mem_decoder hd) rfl
  · exact interrupt_ne_signal h hnet (mem_signalNames_bus (bus_of_mem_readMux hm)) rfl

theorem decoder_not_readMux (hn : n ∈ g.decoder.targets) : n ∉ g.readMux.targets := by
  have hs := separate_of_toModule h
  intro hm
  have hbus := bus_of_mem_readMux hm
  rcases mem_targets_decoder.mp hn with rfl | ⟨r, hr, rfl | ⟨hw, rfl⟩⟩
  · rcases targets_readMux g _ hm with h | h <;> exact absurd h (by decide)
  · exact not_mem_bus hs hr r.readSelect_mem hbus
  · exact not_mem_bus hs hr (Register.writeSelect_mem hw) hbus

theorem pairwise_blocks :
    g.toModule.blocks.Pairwise fun b c => ∀ n ∈ b.targets, n ∉ c.targets := by
  have hregisters : (g.registers.flatMap (·.behaviour g.registers)).Pairwise
      fun b c => ∀ n ∈ b.targets, n ∉ c.targets := by
    refine List.pairwise_flatMap.mpr ⟨fun r _ => pairwise_behaviour r g.registers, ?_⟩
    refine (registers_pairwise (separate_of_toModule h)).imp fun hne b hb c hc n hn hn' => ?_
    exact hne n (signal_of_behaviour hb hn) n (signal_of_behaviour hc hn') rfl
  have hrequest : ∀ b ∈ (if g.hasInterrupts then [g.interruptRequest] else []),
      g.hasInterrupts = true ∧ b = g.interruptRequest := by
    intro b hb
    split at hb
    · next hi => exact ⟨hi, List.mem_singleton.mp hb⟩
    · simp at hb
  have hrest : ∀ c ∈ (if g.hasInterrupts then [g.interruptRequest] else []) ++
      g.registers.flatMap (·.behaviour g.registers), ∀ n ∈ c.targets,
        n ∉ g.decoder.targets ∧ n ∉ g.readMux.targets := by
    intro c hc n hn
    rcases List.mem_append.mp hc with hc | hc
    · obtain ⟨hi, rfl⟩ := hrequest c hc
      exact request_not_driven h hi hn
    · obtain ⟨r, hr, hc⟩ := List.mem_flatMap.mp hc
      exact behaviour_not_driven h hr hc hn
  rw [blocks_eq]
  refine List.pairwise_cons.mpr ⟨fun c hc n hn hn' => ?_, List.pairwise_cons.mpr
    ⟨fun c hc n hn hn' => (hrest c hc n hn').2 hn, List.pairwise_append.mpr
      ⟨by split <;> simp, hregisters, fun b hb c hc n hn hn' => ?_⟩⟩⟩
  · rcases List.mem_cons.mp hc with rfl | hc
    · exact decoder_not_readMux h hn hn'
    · exact (hrest c hc n hn').1 hn
  · obtain ⟨hi, rfl⟩ := hrequest b hb
    obtain ⟨r, hr, hc⟩ := List.mem_flatMap.mp hc
    have hsignal := mem_signalNames_register hr (signal_of_behaviour hc hn')
    exact interrupt_ne_signal h (targets_interruptRequest hi hn) hsignal rfl

end

theorem trigger_of_mem (hb : b ∈ g.toModule.blocks) :
    b.trigger = .change ∨ b.trigger = .edge "clk" := by
  rcases mem_blocks.mp hb with rfl | rfl | ⟨-, rfl⟩ | ⟨r, hr, hb⟩
  · exact .inl rfl
  · exact .inl rfl
  · exact .inl rfl
  · rcases behaviour_cases hb with ⟨ht, -⟩ | ⟨-, rfl⟩
    · exact .inr ht
    · exact .inl rfl

/-- If the signals of a module have names of their own, then all its nets are declared, each signal
is driven by one block, and no gate hangs on itself. -/
theorem wired (h : Separate g.toModule.ports g.toModule.signals) : g.toModule.Wired where
  declared _ hb _ hn := declares_mentioned hb hn
  driven b hb n hn := by
    have hsignal := signal_of_target hb hn
    exact ⟨hsignal, fun hi => h.input n hi hsignal⟩
  once n hn := by
    obtain ⟨b, hb, hnb⟩ := exists_driver hn
    obtain ⟨i, hi⟩ := List.mem_iff_getElem?.mp hb
    refine ⟨i, b, hi, hnb, fun j c hj hnc => ?_⟩
    exact Module.driver_unique (pairwise_blocks h) hi hj hnb hnc
  trigger b hb := by
    rcases trigger_of_mem hb with ht | ht
    · exact .inl (by rw [ht]; exact ⟨rfl, rfl⟩)
    · exact .inr (by rw [ht]; exact ⟨by decide, rfl⟩)
  output _ hp hd := signal_of_output hp hd
  loopless := Module.loopless_of_ordered (ordered_gateOrder h) fun _ hs => mem_gateStatements.mp hs

theorem wired_uart :
    Separate uart.toModule.ports uart.toModule.signals ∧ uart.toModule.Wired := by
  have hseparate : Separate uart.toModule.ports uart.toModule.signals := by decide +kernel
  exact ⟨hseparate, wired hseparate⟩

end RegisterGroup

end RegMap
