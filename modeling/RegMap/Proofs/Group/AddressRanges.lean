import RegMap.Proofs.Group.ReadPath

set_option autoImplicit false

namespace RegMap

namespace Verilog

structure PartSelect where
  net : String
  high : Nat
  low : Nat
  deriving DecidableEq, Repr

/-- The range is written from the higher bit to the lower, and the net has both. -/
def PartSelect.Legal (width : String → Nat) (p : PartSelect) : Prop :=
  p.low ≤ p.high ∧ p.high < width p.net

def PartSelect.bits (p : PartSelect) : Finset Nat := Finset.Icc p.low p.high

def Expr.partSelects : Expr → List PartSelect
  | .net _ | .number _ | .bit _ | .unknown _ => []
  | .range name high low => [⟨name, high, low⟩]
  | .equal left right | .both left right | .either left right =>
    left.partSelects ++ right.partSelects
  | .isZero operand | .invert operand | .anyBit operand | .repeated _ operand | .parens operand =>
    operand.partSelects
  | .choose condition yes no => condition.partSelects ++ yes.partSelects ++ no.partSelects

def Statement.partSelects : Statement → List PartSelect
  | .assign a => a.value.partSelects
  | .select arms otherwise =>
    arms.flatMap (fun arm => arm.1.partSelects ++ arm.2.value.partSelects) ++
      otherwise.value.partSelects
  | .chain first more otherwise =>
    (first :: more).flatMap (fun arm => arm.1.partSelects ++ arm.2.value.partSelects) ++
      otherwise.toList.flatMap (·.value.partSelects)

def Block.partSelects (b : Block) : List PartSelect := b.statements.flatMap Statement.partSelects

end Verilog

open Verilog

namespace RegisterGroup

variable {g : RegisterGroup} {p : PartSelect}

/-- The bits of the address that tell the block from others on the bus. -/
def blockBits (g : RegisterGroup) : PartSelect :=
  ⟨"addr", g.bus.addressWidth - 1, g.localWidth⟩

def offsetBits (g : RegisterGroup) : PartSelect := ⟨"addr", g.localWidth - 1, 0⟩

theorem partSelects_blockSelect (g : RegisterGroup) : g.blockSelect.partSelects = [g.blockBits] :=
  rfl

theorem partSelects_registerSelects {r : Register} {s : Statement} (h : s ∈ g.registerSelects r) :
    s.partSelects = [g.offsetBits] := by
  obtain ⟨select, strobe, rfl, -, -⟩ := selects_of_mem h
  rfl

theorem mem_partSelects_decoder :
    p ∈ g.decoder.partSelects ↔ p = g.blockBits ∨ g.registers ≠ [] ∧ p = g.offsetBits := by
  have hselects : (∃ s ∈ g.registers.flatMap g.registerSelects, p ∈ s.partSelects) ↔
      g.registers ≠ [] ∧ p = g.offsetBits := by
    constructor
    · rintro ⟨s, hs, hp⟩
      obtain ⟨r, hr, hs⟩ := List.mem_flatMap.mp hs
      rw [partSelects_registerSelects hs] at hp
      exact ⟨List.ne_nil_of_mem hr, List.mem_singleton.mp hp⟩
    · rintro ⟨hne, rfl⟩
      obtain ⟨r, hr⟩ := List.exists_mem_of_ne_nil _ hne
      -- whatever the kind of the register, it can be read
      exact ⟨_, List.mem_flatMap.mpr ⟨r, hr, List.mem_cons_self⟩, List.mem_cons_self⟩
  simp only [Block.partSelects, decoder, List.mem_flatMap, List.exists_mem_cons_iff,
    partSelects_blockSelect, List.mem_singleton]
  rw [← hselects]
  simp only [List.mem_flatMap]

section

variable (hA : 1 ≤ g.bus.addressWidth)
include hA

theorem width_addr_of_pos : g.toModule.width "addr" = g.bus.addressWidth := by
  rw [width_addr, Nat.max_eq_right hA]

theorem legal_blockBits_iff :
    g.blockBits.Legal g.toModule.width ↔ g.localWidth < g.bus.addressWidth := by
  simp only [PartSelect.Legal, blockBits, width_addr_of_pos hA]
  omega

theorem legal_offsetBits_iff :
    g.offsetBits.Legal g.toModule.width ↔ g.localWidth ≤ g.bus.addressWidth := by
  have hL := one_le_localWidth g
  simp only [PartSelect.Legal, offsetBits, width_addr_of_pos hA]
  omega

end

theorem localWidth_lt_iff :
    g.localWidth < g.bus.addressWidth ↔
      1 < g.bus.addressWidth ∧ g.size ≤ 2 ^ (g.bus.addressWidth - 1) :=
  addressBits_lt_iff

/-- Registers that fit on the bus need no more bits than the address has. -/
theorem localWidth_le_of_fits (hA : 1 ≤ g.bus.addressWidth)
    (hfit : g.bus.baseAddress + g.size ≤ 2 ^ g.bus.addressWidth) :
    g.localWidth ≤ g.bus.addressWidth :=
  addressBits_le hA (by omega)

theorem disjoint_bits (g : RegisterGroup) : Disjoint g.blockBits.bits g.offsetBits.bits := by
  have hL := one_le_localWidth g
  rw [Finset.disjoint_left]
  intro i hblock hoffset
  simp only [PartSelect.bits, blockBits, offsetBits, Finset.mem_Icc] at hblock hoffset
  omega

theorem union_bits (hA : 1 ≤ g.bus.addressWidth) (hL : g.localWidth ≤ g.bus.addressWidth) :
    g.blockBits.bits ∪ g.offsetBits.bits = Finset.range g.bus.addressWidth := by
  have hpos := one_le_localWidth g
  ext i
  simp only [PartSelect.bits, blockBits, offsetBits, Finset.mem_union, Finset.mem_Icc,
    Finset.mem_range]
  omega

/-- The decoder looks at two ranges of the address, which share no bit and together are all of it.
That of the local bits is always legal; that of the others just if the registers leave at least half
of the addresses to other blocks. -/
theorem partSelects_legal (hA : 1 ≤ g.bus.addressWidth)
    (hfit : g.bus.baseAddress + g.size ≤ 2 ^ g.bus.addressWidth) :
    (∀ p, p ∈ g.decoder.partSelects ↔ p = g.blockBits ∨ g.registers ≠ [] ∧ p = g.offsetBits) ∧
      g.offsetBits.Legal g.toModule.width ∧
      (g.blockBits.Legal g.toModule.width ↔
        1 < g.bus.addressWidth ∧ g.size ≤ 2 ^ (g.bus.addressWidth - 1)) ∧
      Disjoint g.blockBits.bits g.offsetBits.bits ∧
      g.blockBits.bits ∪ g.offsetBits.bits = Finset.range g.bus.addressWidth := by
  have hL : g.localWidth ≤ g.bus.addressWidth := localWidth_le_of_fits hA hfit
  refine ⟨fun p => mem_partSelects_decoder, (legal_offsetBits_iff hA).mpr hL, ?_,
    disjoint_bits g, union_bits hA hL⟩
  rw [legal_blockBits_iff hA, localWidth_lt_iff]

theorem partSelects_legal_uart :
    1 ≤ uart.bus.addressWidth ∧ uart.bus.baseAddress + uart.size ≤ 2 ^ uart.bus.addressWidth ∧
      ∀ p ∈ uart.decoder.partSelects, p.Legal uart.toModule.width := by
  have hA : 1 ≤ uart.bus.addressWidth := by decide
  have hfit : uart.bus.baseAddress + uart.size ≤ 2 ^ uart.bus.addressWidth := by decide
  obtain ⟨hranges, hoffset, hblock, -⟩ := partSelects_legal hA hfit
  refine ⟨hA, hfit, fun p hp => ?_⟩
  rcases (hranges p).mp hp with rfl | ⟨-, rfl⟩
  · exact hblock.mpr (by decide)
  · exact hoffset

def crowded : RegisterGroup :=
  .ofSpecs "crowded" { addressWidth := 2 }
    [{ type := .status, name := "a" }, { type := .status, name := "b" },
      { type := .status, name := "c" }]

/-- Both address bits are local, and the base address is compared with `addr[1:2]`. -/
theorem crowded_not_legal :
    1 ≤ crowded.bus.addressWidth ∧
      crowded.bus.baseAddress + crowded.size ≤ 2 ^ crowded.bus.addressWidth ∧
      ⟨"addr", 1, 2⟩ ∈ crowded.decoder.partSelects ∧
      ¬ PartSelect.Legal crowded.toModule.width ⟨"addr", 1, 2⟩ :=
  ⟨by decide, by decide, mem_partSelects_decoder.mpr (.inl rfl), fun h => absurd h.1 (by decide)⟩

end RegisterGroup

end RegMap
