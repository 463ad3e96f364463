import RegMap.Group.Logic
import RegMap.Proofs.Group.Draft

/-!
The numbers of the decoder, worked out in words of 64 bits: the width of the local address from the
leading zeros of the last position, and what the decoder makes of that width. No result leaves the
words as long as the positions of the registers need less than 64 bits.
-/

set_option autoImplicit false

namespace RegMap

open Verilog

namespace Word

def sub? (a b : UInt64) : Option UInt64 := if b ≤ a then some (a - b) else none

/-- The word shifted to the right, unless that is by its whole width or more. -/
def shiftRight? (a count : UInt64) : Option UInt64 :=
  if count < 64 then some (a >>> count) else none

def leadingZeros (a : UInt64) : UInt64 := .ofBitVec a.toBitVec.clz

def addressBits? (count : UInt64) : Option UInt64 :=
  if count ≤ 1 then some 1 else do sub? 64 (leadingZeros (← sub? count 1))

theorem exists_sub? (a b : UInt64) (h : b.toNat ≤ a.toNat) :
    ∃ c, sub? a b = some c ∧ c.toNat = a.toNat - b.toNat := by
  have hle : b ≤ a := UInt64.le_iff_toNat_le.mpr h
  exact ⟨a - b, if_pos hle, UInt64.toNat_sub_of_le a b hle⟩

theorem exists_shiftRight? (a count : UInt64) (h : count.toNat < 64) :
    ∃ c, shiftRight? a count = some c ∧ c.toNat = a.toNat >>> count.toNat := by
  refine ⟨a >>> count, if_pos (UInt64.lt_iff_toNat_lt.mpr h), ?_⟩
  rw [UInt64.toNat_shiftRight, Nat.mod_eq_of_lt h]

theorem shiftRight?_eq_none {count : UInt64} (h : 64 ≤ count.toNat) (a : UInt64) :
    shiftRight? a count = none := by
  have hle : (64 : UInt64) ≤ count := UInt64.le_iff_toNat_le.mpr h
  exact if_neg (UInt64.not_lt.mpr hle)

/-- Without its leading zeros a word begins with a one. -/
theorem log2_eq {a : UInt64} (h : a.toNat ≠ 0) :
    (leadingZeros a).toNat < 64 ∧ a.toNat.log2 = 63 - (leadingZeros a).toNat := by
  have hupper : a.toNat < 2 ^ (64 - (leadingZeros a).toNat) :=
    BitVec.toNat_lt_two_pow_sub_clz
  have hne : a.toBitVec ≠ 0#64 := fun h0 => h (congrArg BitVec.toNat h0)
  have hlower : 2 ^ (63 - (leadingZeros a).toNat) ≤ a.toNat :=
    BitVec.two_pow_sub_clz_le_toNat_of_ne_zero (by decide) hne
  have hlt : (leadingZeros a).toNat < 64 := by
    by_contra hge
    rw [Nat.sub_eq_zero_of_le (by omega)] at hupper
    omega
  have hsucc : 63 - (leadingZeros a).toNat + 1 = 64 - (leadingZeros a).toNat := by omega
  exact ⟨hlt, (Nat.log2_eq_iff h).mpr ⟨hlower, hsucc ▸ hupper⟩⟩

theorem addressBits?_eq (count : UInt64) :
    (addressBits? count).map UInt64.toNat = some (addressBits count.toNat) := by
  have hone : count ≤ 1 ↔ count.toNat ≤ 1 := UInt64.le_iff_toNat_le
  rw [addressBits?, addressBits]
  by_cases h : count.toNat ≤ 1
  · rw [if_pos (hone.mpr h), if_pos h]
    rfl
  · rw [if_neg (mt hone.mp h), if_neg h]
    obtain ⟨last, hlast, hvalue⟩ := exists_sub? count 1 (Nat.le_of_not_le h)
    have hposition : last.toNat = count.toNat - 1 := hvalue
    obtain ⟨hlt, hlog⟩ := log2_eq (a := last) (by omega)
    obtain ⟨bits, hbits, hwidth⟩ := exists_sub? 64 (leadingZeros last) hlt.le
    have hwidth : bits.toNat = 64 - (leadingZeros last).toNat := hwidth
    rw [hlast, Option.bind_eq_bind, Option.bind_some, hbits, Option.map_some, ← hposition, hlog,
      hwidth]
    congr 1
    omega

end Word

namespace Draft

def blockSelect? (d : Draft) : Option Statement := do
  let base ← Word.shiftRight? (.ofNat d.bus.baseAddress) (.ofNat d.localWidth)
  return .assign ⟨"block_select",
    .both (.parens (.equal (.range "addr" (d.bus.addressWidth - 1) d.localWidth)
        (.number base.toNat)))
      (.isZero (.net d.bus.mapping.requestPin))⟩

def selects? (d : Draft) (r : Register) (select strobe : String) : Option Statement := do
  let high ← Word.sub? (.ofNat d.localWidth) 1
  return .assign ⟨select,
    .both (.both (.net "block_select")
        (.parens (.equal (.range "addr" high.toNat 0) (.number r.offset))))
      (.isZero (.net strobe))⟩

def registerSelects? (d : Draft) (r : Register) : Option (List Statement) := do
  let read ← d.selects? r r.readSelect "rd_n"
  if r.writable then return [read, ← d.selects? r r.writeSelect "wr_n"]
  return [read]

def decoder? (d : Draft) : Option Block := do
  let block ← d.blockSelect?
  let selects ← d.registers.mapM d.registerSelects?
  return ⟨.change, block :: selects.flatten⟩

end Draft

namespace RegisterGroup

variable {g : RegisterGroup}

theorem toNat_localWidth (h : g.localWidth < 2 ^ 64) :
    (UInt64.ofNat g.draft.localWidth).toNat = g.localWidth :=
  UInt64.toNat_ofNat_of_lt' h

theorem blockSelect?_eq (hL : g.localWidth < 64) (hbase : g.bus.baseAddress < 2 ^ 64) :
    g.draft.blockSelect? = some g.blockSelect := by
  have hwidth := toNat_localWidth (g := g) (by omega)
  obtain ⟨base, hshift, hvalue⟩ := Word.exists_shiftRight? (.ofNat g.bus.baseAddress)
    (.ofNat g.draft.localWidth) (hwidth.symm ▸ hL)
  rw [hwidth, UInt64.toNat_ofNat_of_lt' hbase] at hvalue
  have hbus : g.draft.bus = g.bus := rfl
  rw [Draft.blockSelect?, hbus, hshift, Option.bind_eq_bind, Option.bind_some, hvalue]
  rfl

theorem selects?_eq (hL : g.localWidth < 64) (r : Register) (select strobe : String) :
    g.draft.selects? r select strobe = some (g.selects r select strobe) := by
  have hwidth := toNat_localWidth (g := g) (by omega)
  have hpos := one_le_localWidth g
  obtain ⟨high, hsub, hvalue⟩ := Word.exists_sub? (.ofNat g.draft.localWidth) 1
    (hwidth.symm ▸ hpos)
  rw [hwidth] at hvalue
  rw [Draft.selects?, hsub, Option.bind_eq_bind, Option.bind_some, hvalue]
  rfl

theorem registerSelects?_eq (hL : g.localWidth < 64) (r : Register) :
    g.draft.registerSelects? r = some (g.registerSelects r) := by
  simp only [Draft.registerSelects?, selects?_eq hL, registerSelects]
  cases r.writable <;> rfl

theorem decoder?_eq (hL : g.localWidth < 64) (hbase : g.bus.baseAddress < 2 ^ 64) :
    g.draft.decoder? = some g.decoder := by
  have hselects : g.draft.registers.mapM g.draft.registerSelects? =
      some (g.registers.map g.registerSelects) := by
    rw [funext (registerSelects?_eq hL)]
    exact List.mapM_pure
  rw [Draft.decoder?, blockSelect?_eq hL hbase, hselects]
  rfl

/-- With more registers than that the base address would be shifted by the whole width of a word. -/
theorem decoder?_eq_none (hL : 64 ≤ g.localWidth) (hlt : g.localWidth < 2 ^ 64) :
    g.draft.decoder? = none := by
  have hshift (a : UInt64) : Word.shiftRight? a (.ofNat g.draft.localWidth) = none :=
    Word.shiftRight?_eq_none ((toNat_localWidth hlt).symm ▸ hL) a
  rw [Draft.decoder?, Draft.blockSelect?, hshift]
  rfl

/-- The leading zeros give the least width in which the positions differ, and one more register
takes at most one more bit. The width that a group keeps is that one at any time, so each offset
fits into it, and with up to `2 ^ 63` registers the decoder comes out of words as it is: no
difference is below zero, and nothing is shifted by the whole width of a word. With more registers
it would be. -/
theorem localWidth_in_words :
    (∀ count : UInt64,
      (Word.addressBits? count).map UInt64.toNat = some (addressBits count.toNat)) ∧
    (∀ count : Nat, IsLeast {bits | 1 ≤ bits ∧ count ≤ 2 ^ bits} (addressBits count)) ∧
    Monotone addressBits ∧ (∀ count, addressBits (count + 1) ≤ addressBits count + 1) ∧
    ∀ (name : String) (bus : Bus) (specs : List RegisterSpec),
      let d := Draft.ofSpecs name bus specs
      bus.baseAddress < 2 ^ 64 → d.registers.length < 2 ^ 64 →
        (Word.addressBits? (.ofNat d.registers.length)).map UInt64.toNat = some d.localWidth ∧
          (∀ r ∈ d.registers, r.offset < 2 ^ d.localWidth) ∧
          (d.registers.length ≤ 2 ^ 63 → 1 ≤ d.localWidth ∧ d.localWidth < 64 ∧
            d.decoder? = some (ofSpecs name bus specs).decoder) ∧
          (2 ^ 63 < d.registers.length → d.decoder? = none) := by
  refine ⟨Word.addressBits?_eq, isLeast_addressBits, addressBits_mono, addressBits_succ_le, ?_⟩
  intro name bus specs d hbase hlength
  let g := ofSpecs name bus specs
  have hbuilt : g.Built := built_iff.mpr ⟨_, _, _, rfl⟩
  have hbus : g.bus = bus := (draft_extends_foldl_add ⟨name, bus, []⟩ specs).bus
  obtain hd : d = g.draft := draft_ofSpecs name bus specs
  clear_value d
  subst hd
  have hsize : (UInt64.ofNat g.size).toNat = g.size := UInt64.toNat_ofNat_of_lt' hlength
  refine ⟨?_, fun r hr => ?_, fun hfew => ?_, fun hmany => ?_⟩
  · have hwidth := Word.addressBits?_eq (.ofNat g.size)
    rwa [hsize] at hwidth
  · exact lt_two_pow_localWidth (lt_size_of_getElem? (hbuilt.getElem?_offset hr))
  · have hL : g.localWidth < 64 := addressBits_lt_iff.mpr ⟨by decide, hfew⟩
    exact ⟨one_le_localWidth g, hL, decoder?_eq hL (hbus ▸ hbase)⟩
  · have hL : 64 ≤ g.localWidth :=
      Nat.le_of_not_lt fun h => hmany.not_ge (addressBits_lt_iff.mp h).2
    have hle : g.localWidth ≤ 64 := addressBits_le (by decide) hlength.le
    exact decoder?_eq_none hL (by omega)

theorem localWidth_in_words_timer :
    let bus : Bus := { baseAddress := 0x9F }
    let specs : List RegisterSpec :=
      [{ type := .config, name := "limit", width := 8 }, { type := .intFixed, name := "tick" },
        { type := .status, name := "count", width := 8 }]
    let d := Draft.ofSpecs "timer" bus specs
    bus.baseAddress < 2 ^ 64 ∧ d.registers.length ≤ 2 ^ 63 ∧ d.localWidth = 2 ∧
      d.decoder? = some (ofSpecs "timer" bus specs).decoder := by
  intro bus specs d
  have hbase : bus.baseAddress < 2 ^ 64 := by decide
  have hfew : d.registers.length ≤ 2 ^ 63 := by decide +kernel
  obtain ⟨-, -, -, -, hgroups⟩ := localWidth_in_words
  obtain ⟨-, -, hdecoder, -⟩ := hgroups "timer" bus specs hbase (by decide +kernel)
  exact ⟨hbase, hfew, by decide +kernel, (hdecoder hfew).2.2⟩

end RegisterGroup

end RegMap
