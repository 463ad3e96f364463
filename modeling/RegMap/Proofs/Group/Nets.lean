import RegMap.Group.Logic
import RegMap.Proofs.Group.Layout
import RegMap.Proofs.Verilog.Run

set_option autoImplicit false

namespace RegMap

open Verilog

namespace Register

variable {r : Register}

theorem suffix_ne (name : String) {a b : String} (h : a ≠ b) : name ++ a ≠ name ++ b :=
  fun he => h ((String.append_right_inj name).mp he)

theorem name_ne_suffix (name : String) {a : String} (h : a ≠ "") : name ≠ name ++ a := by
  have := suffix_ne name h.symm
  rwa [String.append_empty] at this

/-- Suffixes of one length keep names apart. -/
theorem suffix_inj (name name' : String) {a b : String} (hl : a.toList.length = b.toList.length)
    (h : name ++ a = name' ++ b) : name = name' ∧ a = b := by
  have hc := congrArg String.toList h
  simp only [String.toList_append] at hc
  have hi := List.append_inj' hc hl
  exact ⟨String.toList_inj.mp hi.1, String.toList_inj.mp hi.2⟩

theorem readSelect_mem (r : Register) : r.readSelect ∈ signalNames r.signals := by
  cases h : r.kind <;> simp [signalNames, signals, h]

theorem name_signal (h : r.writable = true) : ⟨r.name, r.width⟩ ∈ r.signals := by
  cases hk : r.kind <;> simp [writable, signals, hk] at h ⊢

theorem writeSelect_signal (h : r.writable = true) : ⟨r.writeSelect, 1⟩ ∈ r.signals := by
  cases hk : r.kind <;> simp [writable, signals, hk] at h ⊢

theorem name_mem (h : r.writable = true) : r.name ∈ signalNames r.signals :=
  mem_signalNames (name_signal h)

theorem writeSelect_mem (h : r.writable = true) : r.writeSelect ∈ signalNames r.signals :=
  mem_signalNames (writeSelect_signal h)

theorem name_mem_inputNames (h : r.writable = false) : r.name ∈ inputNames r.ports := by
  cases hk : r.kind <;> simp [writable, inputNames, ports, Port.input, hk] at h ⊢

theorem flag_mem (h : r.isInterrupt = true) : r.flag ∈ signalNames r.signals := by
  cases hk : r.kind <;> simp [isInterrupt, vector?, signalNames, signals, hk] at h ⊢

def strobed (r : Register) : Bool :=
  match r.kind with
  | .readStrobe | .writeStrobe _ => true
  | _ => false

theorem strobe_mem (h : r.strobed = true) : r.strobe ∈ signalNames r.signals := by
  cases hk : r.kind <;> simp [strobed, signalNames, signals, hk] at h ⊢

theorem signal_of_output {p : Port} (hp : p ∈ r.ports) (hd : p.direction = .output) :
    ⟨p.name, p.width⟩ ∈ r.signals := by
  cases hk : r.kind <;> simp only [ports, signals, hk, List.mem_cons, List.not_mem_nil, or_false]
    at hp ⊢ <;> rcases hp with rfl | rfl | rfl <;> simp_all [Port.input, Port.output]

end Register

namespace RegisterGroup

variable {g : RegisterGroup} {r r' : Register} {n m : String}

theorem inputNames_ports (g : RegisterGroup) :
    inputNames g.ports =
      ["clk", "reset", "addr", "wr_data", "rd_n", "wr_n", g.bus.mapping.requestPin] ++
        g.registers.flatMap fun r => inputNames r.ports := by
  simp [inputNames, ports, Bus.ports, Port.input, Port.output, List.filter_flatMap,
    List.map_flatMap]

theorem signalNames_signals (g : RegisterGroup) :
    signalNames g.signals =
      signalNames g.bus.signals ++ g.registers.flatMap fun r => signalNames r.signals := by
  simp [signalNames, signals, List.map_flatMap]

theorem mem_signalNames_bus (h : n ∈ signalNames g.bus.signals) : n ∈ signalNames g.signals := by
  rw [signalNames_signals]
  exact List.mem_append_left _ h

theorem mem_signalNames_register (hr : r ∈ g.registers) (h : n ∈ signalNames r.signals) :
    n ∈ signalNames g.signals := by
  rw [signalNames_signals]
  exact List.mem_append_right _ (List.mem_flatMap.mpr ⟨r, hr, h⟩)

theorem mem_inputNames_register (hr : r ∈ g.registers) (h : n ∈ inputNames r.ports) :
    n ∈ inputNames g.ports := by
  rw [inputNames_ports]
  exact List.mem_append_right _ (List.mem_flatMap.mpr ⟨r, hr, h⟩)

theorem mem_inputNames_bus
    (h : n ∈ ["clk", "reset", "addr", "wr_data", "rd_n", "wr_n", g.bus.mapping.requestPin]) :
    n ∈ inputNames g.ports := by
  rw [inputNames_ports]
  exact List.mem_append_left _ h

section

variable (hs : Separate g.ports g.signals)

include hs

theorem signal_ne_input (hn : n ∈ signalNames g.signals) (hm : m ∈ inputNames g.ports) : n ≠ m :=
  fun he => hs.input m hm (he ▸ hn)

theorem bus_ne_register (hn : n ∈ signalNames g.bus.signals) (hr : r ∈ g.registers)
    (hm : m ∈ signalNames r.signals) : n ≠ m := by
  have hd := signalNames_signals g ▸ hs.nodup
  exact (List.nodup_append.mp hd).2.2 n hn m (List.mem_flatMap.mpr ⟨r, hr, hm⟩)

theorem registers_pairwise :
    g.registers.Pairwise fun r r' =>
      ∀ n ∈ signalNames r.signals, ∀ m ∈ signalNames r'.signals, n ≠ m := by
  have hd := signalNames_signals g ▸ hs.nodup
  exact (List.pairwise_flatMap.mp (List.nodup_append.mp hd).2.1).2

theorem owner_unique (hr : r ∈ g.registers) (hr' : r' ∈ g.registers)
    (hn : n ∈ signalNames r.signals) (hn' : n ∈ signalNames r'.signals) : r = r' := by
  have hp : g.registers.Pairwise fun a b =>
      ¬(n ∈ signalNames a.signals ∧ n ∈ signalNames b.signals) :=
    (registers_pairwise hs).imp fun h hn => h n hn.1 n hn.2 rfl
  have hsymm : Std.Symm fun a b : Register =>
      ¬(n ∈ signalNames a.signals ∧ n ∈ signalNames b.signals) :=
    ⟨fun _ _ h hn => h hn.symm⟩
  by_contra hne
  exact hp.forall hr hr' hne ⟨hn, hn'⟩

/-- A net named after a register is not what the bus reads of any register. -/
theorem suffixed_ne_name {a : String} (ha : a ≠ "") (hr : r ∈ g.registers)
    (hn : r.name ++ a ∈ signalNames r.signals) (hr' : r' ∈ g.registers) :
    r.name ++ a ≠ r'.name := by
  intro he
  cases hw : r'.writable with
  | true =>
    obtain rfl := owner_unique hs hr hr' hn (he ▸ Register.name_mem hw)
    exact Register.name_ne_suffix r.name ha he.symm
  | false =>
    have hi := mem_inputNames_register hr' (Register.name_mem_inputNames hw)
    exact signal_ne_input hs (mem_signalNames_register hr hn) hi he

theorem bus_ne_name (hn : n ∈ signalNames g.bus.signals) (hr : r ∈ g.registers) : n ≠ r.name := by
  cases hw : r.writable with
  | true => exact bus_ne_register hs hn hr (Register.name_mem hw)
  | false =>
    have hi := mem_inputNames_register hr (Register.name_mem_inputNames hw)
    exact signal_ne_input hs (mem_signalNames_bus hn) hi

end

theorem signal_of_output {p : Port} (hp : p ∈ g.toModule.ports) (hd : p.direction = .output) :
    ⟨p.name, p.width⟩ ∈ g.toModule.signals := by
  simp only [toModule, ports, signals, List.mem_append] at hp ⊢
  rcases hp with (hp | hp) | hp
  · simp only [Bus.ports, List.mem_cons, List.not_mem_nil, or_false] at hp
    rcases hp with rfl | rfl | rfl | rfl | rfl | rfl | rfl | rfl | rfl <;>
      simp_all [Port.input, Port.output, Bus.signals]
  · obtain ⟨r, hr, hp⟩ := List.mem_flatMap.mp hp
    exact .inl (.inr (List.mem_flatMap.mpr ⟨r, hr, Register.signal_of_output hp hd⟩))
  · unfold interruptPorts at hp
    unfold interruptSignals
    split at hp
    · simp_all [Port.output]
    · simp at hp

theorem inputNames_toModule (g : RegisterGroup) :
    inputNames g.toModule.ports = inputNames g.ports := by
  unfold toModule interruptPorts
  split <;> simp [inputNames, Port.output]

theorem signalNames_toModule (g : RegisterGroup) :
    signalNames g.toModule.signals = signalNames g.signals ++ signalNames g.interruptSignals := by
  simp [signalNames, toModule]

theorem separate_of_toModule (h : Separate g.toModule.ports g.toModule.signals) :
    Separate g.ports g.signals := by
  have hd := signalNames_toModule g ▸ h.nodup
  refine ⟨(List.nodup_append.mp hd).1, fun n hi hm => ?_⟩
  refine h.input n (by rwa [inputNames_toModule]) ?_
  rw [signalNames_toModule]
  exact List.mem_append_left _ hm

theorem interrupt_ne_signal (h : Separate g.toModule.ports g.toModule.signals)
    (hm : m ∈ signalNames g.interruptSignals) (hn : n ∈ signalNames g.signals) : n ≠ m := by
  have hd := signalNames_toModule g ▸ h.nodup
  exact (List.nodup_append.mp hd).2.2 n hn m hm

theorem interrupt_ne_name (h : Separate g.toModule.ports g.toModule.signals)
    (hm : m ∈ signalNames g.interruptSignals) (hr : r ∈ g.registers) : m ≠ r.name := by
  intro he
  cases hw : r.writable with
  | true =>
    have hn := mem_signalNames_register hr (Register.name_mem hw)
    exact interrupt_ne_signal h hm hn he.symm
  | false =>
    have hi := mem_inputNames_register hr (Register.name_mem_inputNames hw)
    refine h.input r.name (by rwa [inputNames_toModule]) ?_
    rw [signalNames_toModule, ← he]
    exact List.mem_append_right _ hm

theorem width_addr (g : RegisterGroup) : g.toModule.width "addr" = max 1 g.bus.addressWidth := by
  simp [Module.width, toModule, ports, Bus.ports, Port.input]

theorem width_rd_data (g : RegisterGroup) : g.toModule.width "rd_data" = max 1 g.bus.dataWidth := by
  simp [Module.width, toModule, ports, Bus.ports, Port.input, Port.output]

end RegisterGroup

end RegMap
