import RegMap.Proofs.Group.ReadPath

set_option autoImplicit false

namespace RegMap

open Verilog

namespace RegisterGroup

variable {g : RegisterGroup} {r : Register} {σ : State}

def startAddress (g : RegisterGroup) : Nat := g.bus.baseAddress >>> g.localWidth <<< g.localWidth

/-- The address `a` and no other selects the register at position `i` for reading. -/
def ReadAt (g : RegisterGroup) (i a : Nat) : Prop :=
  ∀ r, g.registers[i]? = some r → ∀ σ, g.toModule.Fits σ →
    σ g.bus.mapping.requestPin = 0 → σ "rd_n" = 0 →
      (g.decoder.settle g.toModule.width σ r.readSelect = 1 ↔ σ "addr" = a)

theorem startAddress_eq (g : RegisterGroup) :
    g.startAddress = g.bus.baseAddress / 2 ^ g.localWidth * 2 ^ g.localWidth := by
  rw [startAddress, Nat.shiftLeft_eq, Nat.shiftRight_eq_div_pow]

theorem startAddress_le (g : RegisterGroup) : g.startAddress ≤ g.bus.baseAddress := by
  rw [startAddress_eq]
  exact Nat.div_mul_le_self _ _

theorem startAddress_eq_base_iff :
    g.startAddress = g.bus.baseAddress ↔ 2 ^ g.localWidth ∣ g.bus.baseAddress := by
  rw [startAddress_eq]
  exact ⟨fun h => Dvd.intro_left _ h, Nat.div_mul_cancel⟩

theorem accesses_iff {i : Nat} (hi : i < g.size) (hpin : σ g.bus.mapping.requestPin = 0)
    (hrd : σ "rd_n" = 0) : g.Accesses "rd_n" σ i ↔ σ "addr" = g.startAddress + i := by
  have hlt := lt_two_pow_localWidth hi
  have hpos := Nat.two_pow_pos g.localWidth
  have hdiv := Nat.div_add_mod (σ "addr") (2 ^ g.localWidth)
  simp only [Accesses, Addressed, hpin, hrd, true_and, and_true, startAddress_eq,
    Nat.shiftRight_eq_div_pow]
  constructor
  · rintro ⟨hq, hm⟩
    rw [hq, hm, Nat.mul_comm] at hdiv
    exact hdiv.symm
  · intro h
    rw [h, Nat.add_comm, Nat.add_mul_div_right _ _ hpos, Nat.add_mul_mod_self_right,
      Nat.div_eq_of_lt hlt, Nat.mod_eq_of_lt hlt, Nat.zero_add]
    exact ⟨rfl, rfl⟩

theorem decoder_readSelect (hs : Separate g.ports g.signals)
    (hL : g.localWidth < g.bus.addressWidth) (hσ : g.toModule.Fits σ) (hr : r ∈ g.registers) :
    g.decoder.settle g.toModule.width σ r.readSelect =
      (decide (g.Accesses "rd_n" σ r.offset)).toNat := by
  rw [settle_eq_execute]
  refine readSelect_eq hL (execute_lt hσ) (fun s hm => (ordered_decoder hs).holds hm) ?_ hr
  intro n hn
  refine execute_of_not_mem fun s hm ht => hs.input n hn ?_
  exact signal_of_mem_decoder (List.mem_flatMap.mpr ⟨s, hm, ht⟩)

def reading (a : Nat) : State := State.set (fun _ => 0) "addr" a

theorem reading_fits {a : Nat} (h : a < 2 ^ g.bus.addressWidth) : g.toModule.Fits (reading a) := by
  refine (Module.fits_zero _).set ?_
  rw [width_addr]
  exact Nat.lt_of_lt_of_le h (Nat.pow_le_pow_right (by decide) (Nat.le_max_right _ _))

theorem readAt_iff (hg : g.Built) (hs : Separate g.ports g.signals)
    (hL : g.localWidth < g.bus.addressWidth) {i : Nat} (hi : i < g.size)
    (hfit : g.startAddress + i < 2 ^ g.bus.addressWidth) (a : Nat) :
    g.ReadAt i a ↔ a = g.startAddress + i := by
  have hsel : ∀ r, g.registers[i]? = some r → ∀ σ, g.toModule.Fits σ →
      σ g.bus.mapping.requestPin = 0 → σ "rd_n" = 0 →
        (g.decoder.settle g.toModule.width σ r.readSelect = 1 ↔ σ "addr" = g.startAddress + i) := by
    intro r hr σ hσ hpin hrd
    rw [decoder_readSelect hs hL hσ (List.mem_of_getElem? hr), hg.offset hr, Bool.toNat_eq_one,
      decide_eq_true_iff]
    exact accesses_iff hi hpin hrd
  constructor
  · intro h
    have hr : g.registers[i]? = some g.registers[i] := List.getElem?_eq_getElem hi
    have hpin : reading (g.startAddress + i) g.bus.mapping.requestPin = 0 := by
      cases hm : g.bus.mapping <;> rfl
    have hone := (hsel _ hr _ (reading_fits hfit) hpin rfl).mpr rfl
    exact ((h _ hr _ (reading_fits hfit) hpin rfl).mp hone).symm
  · rintro rfl
    exact hsel

/-- The registers stand at the base address and behind it just if the base address is a multiple of
the local address space; and more registers move those that were there unless the local bits that
they add are clear in the base address. -/
theorem placement (hg : g.Built) (hs : Separate g.ports g.signals) (hN : 1 ≤ g.size)
    (hL : g.localWidth < g.bus.addressWidth)
    (hfit : g.bus.baseAddress + g.size ≤ 2 ^ g.bus.addressWidth) :
    (∀ i < g.size, ∀ a, g.ReadAt i a ↔ a = g.startAddress + i) ∧
    ((∀ i < g.size, g.ReadAt i (g.bus.baseAddress + i)) ↔ 2 ^ g.localWidth ∣ g.bus.baseAddress) ∧
    ∀ (specs : List RegisterSpec) (h : RegisterGroup), h = specs.foldl add g →
      Separate h.ports h.signals → h.localWidth < h.bus.addressWidth →
      h.bus.baseAddress + h.size ≤ 2 ^ h.bus.addressWidth →
        (∀ (i : Nat) (r : Register), g.registers[i]? = some r → h.registers[i]? = some r) ∧
          ((∀ i < g.size, ∀ a, g.ReadAt i a → h.ReadAt i a) ↔ h.startAddress = g.startAddress) := by
  have hall : ∀ i < g.size, ∀ a, g.ReadAt i a ↔ a = g.startAddress + i := by
    intro i hi
    refine readAt_iff hg hs hL hi ?_
    have := startAddress_le g
    omega
  refine ⟨hall, ?_, ?_⟩
  · rw [← startAddress_eq_base_iff]
    constructor
    · intro h
      have := (hall 0 hN _).mp (h 0 hN)
      omega
    · intro h i hi
      exact (hall i hi _).mpr (by omega)
  · rintro specs h rfl hs' hL' hfit'
    have hsize : g.size ≤ (specs.foldl add g).size := size_le_foldl_add specs
    have hall' : ∀ i < g.size, ∀ a, (specs.foldl add g).ReadAt i a ↔
        a = (specs.foldl add g).startAddress + i := by
      intro i hi
      refine readAt_iff (built_foldl_add hg specs) hs' hL' (by omega) ?_
      have := startAddress_le (specs.foldl add g)
      omega
    refine ⟨fun i r hi => getElem?_foldl_add specs hi, ?_⟩
    constructor
    · intro h
      have := (hall' 0 hN _).mp (h 0 hN _ ((hall 0 hN _).mpr rfl))
      omega
    · intro h i hi a ha
      rw [hall' i hi, h]
      exact (hall i hi a).mp ha

theorem placement_uart :
    uart.bus.baseAddress + uart.size ≤ 2 ^ uart.bus.addressWidth ∧
      ∀ i < uart.size, uart.ReadAt i (0x80 + i) :=
  ⟨by decide, (placement uart_built (by decide +kernel) (by decide) (by decide)
    (by decide)).2.1.mpr (by decide)⟩

/-- One register with the base address 1, which the bus finds at 0. -/
def oddBase : RegisterGroup :=
  .ofSpecs "odd" { baseAddress := 1 } [{ type := .status, name := "sr", width := 8 }]

theorem oddBase_not_readAt_base :
    oddBase.Built ∧ Separate oddBase.ports oddBase.signals ∧ 1 ≤ oddBase.size ∧
      oddBase.localWidth < oddBase.bus.addressWidth ∧
      oddBase.bus.baseAddress + oddBase.size ≤ 2 ^ oddBase.bus.addressWidth ∧
      ¬oddBase.ReadAt 0 (oddBase.bus.baseAddress + 0) := by
  have hg : oddBase.Built := built_iff.mpr ⟨_, _, _, rfl⟩
  have hs : Separate oddBase.ports oddBase.signals := by decide +kernel
  refine ⟨hg, hs, by decide, by decide, by decide, ?_⟩
  rw [readAt_iff hg hs (by decide) (by decide) (by decide)]
  decide

end RegisterGroup

end RegMap
