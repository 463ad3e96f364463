import Mathlib
import RegMap.Group

set_option autoImplicit false

namespace RegMap

theorem one_le_addressBits (count : Nat) : 1 ≤ addressBits count := by
  unfold addressBits
  split
  · exact Nat.le_refl 1
  · exact Nat.le_add_left 1 _

theorem le_two_pow_addressBits (count : Nat) : count ≤ 2 ^ addressBits count := by
  unfold addressBits
  split
  · omega
  · have h : count - 1 < 2 ^ ((count - 1).log2 + 1) := Nat.lt_log2_self
    omega

theorem addressBits_le {count bits : Nat} (hb : 1 ≤ bits) (h : count ≤ 2 ^ bits) :
    addressBits count ≤ bits := by
  unfold addressBits
  split
  · exact hb
  · have hlog : (count - 1).log2 < bits := (Nat.log2_lt (by omega)).mpr (by omega)
    omega

theorem addressBits_le_iff {count bits : Nat} (hb : 1 ≤ bits) :
    addressBits count ≤ bits ↔ count ≤ 2 ^ bits :=
  ⟨fun h => (le_two_pow_addressBits count).trans (Nat.pow_le_pow_right (by decide) h),
    addressBits_le hb⟩

theorem addressBits_lt_iff {count bits : Nat} :
    addressBits count < bits ↔ 1 < bits ∧ count ≤ 2 ^ (bits - 1) := by
  have hpos := one_le_addressBits count
  constructor
  · intro h
    have hle : addressBits count ≤ bits - 1 := Nat.le_sub_one_of_lt h
    exact ⟨hpos.trans_lt h, (addressBits_le_iff (hpos.trans hle)).mp hle⟩
  · rintro ⟨hb, hcount⟩
    have hle : addressBits count ≤ bits - 1 := addressBits_le (Nat.le_sub_one_of_lt hb) hcount
    omega

theorem addressBits_mono : Monotone addressBits := fun _ count h =>
  addressBits_le (one_le_addressBits count) (h.trans (le_two_pow_addressBits count))

theorem addressBits_succ_le (count : Nat) : addressBits (count + 1) ≤ addressBits count + 1 := by
  have h := le_two_pow_addressBits count
  have hpos := Nat.two_pow_pos (addressBits count)
  refine addressBits_le (Nat.le_add_left 1 _) ?_
  rw [Nat.pow_succ]
  omega

theorem isLeast_addressBits (count : Nat) :
    IsLeast {bits | 1 ≤ bits ∧ count ≤ 2 ^ bits} (addressBits count) :=
  ⟨⟨one_le_addressBits count, le_two_pow_addressBits count⟩, fun _ h => addressBits_le h.1 h.2⟩

theorem RegisterSpec.offsets (spec : RegisterSpec) (position : Nat) :
    (spec.registers position).map (·.offset) =
      List.range' position (spec.registers position).length := by
  cases h : spec.type <;> simp [registers, h, List.range']

namespace RegisterGroup

/-- Groups made from an empty one by adding specifications. -/
inductive Built : RegisterGroup → Prop where
  | empty (name : String) (bus : Bus) : Built ⟨name, bus, []⟩
  | add {g : RegisterGroup} (spec : RegisterSpec) (h : Built g) : Built (g.add spec)

variable {g : RegisterGroup} {r r' : Register}

theorem ofSpecs_append (name : String) (bus : Bus) (before after : List RegisterSpec) :
    ofSpecs name bus (before ++ after) = after.foldl add (ofSpecs name bus before) :=
  List.foldl_append

theorem built_foldl_add (h : g.Built) (specs : List RegisterSpec) : (specs.foldl add g).Built := by
  induction specs generalizing g with
  | nil => exact h
  | cons spec specs ih => exact ih (h.add spec)

theorem built_iff : g.Built ↔ ∃ name bus specs, g = ofSpecs name bus specs := by
  constructor
  · intro h
    induction h with
    | empty name bus => exact ⟨name, bus, [], rfl⟩
    | add spec _ ih =>
      obtain ⟨name, bus, specs, rfl⟩ := ih
      exact ⟨name, bus, specs ++ [spec], (ofSpecs_append name bus specs [spec]).symm⟩
  · rintro ⟨name, bus, specs, rfl⟩
    exact built_foldl_add (.empty name bus) specs

theorem offsets_eq_range (h : g.Built) : g.registers.map (·.offset) = List.range' 0 g.size := by
  induction h with
  | empty name bus => rfl
  | @add g spec _ ih =>
    have hr : (g.add spec).registers = g.registers ++ spec.registers g.size := rfl
    have happ := @List.range'_append_1 0 g.size (spec.registers g.size).length
    rw [size, hr, List.map_append, ih, spec.offsets, List.length_append, ← size, ← happ,
      Nat.zero_add]

theorem Built.offset (h : g.Built) {i : Nat} (hi : g.registers[i]? = some r) : r.offset = i := by
  have hm : (g.registers.map (·.offset))[i]? = some r.offset := by
    rw [List.getElem?_map, hi]
    rfl
  rw [offsets_eq_range h, List.getElem?_range'] at hm
  · simpa using hm.symm
  · have := (List.getElem?_eq_some_iff.mp hi).1
    exact this

theorem Built.getElem?_offset (h : g.Built) (hr : r ∈ g.registers) :
    g.registers[r.offset]? = some r := by
  obtain ⟨i, hi⟩ := List.mem_iff_getElem?.mp hr
  rw [h.offset hi]
  exact hi

theorem Built.eq_of_offset (h : g.Built) (hr : r ∈ g.registers) (hr' : r' ∈ g.registers)
    (ho : r.offset = r'.offset) : r = r' := by
  have hi := h.getElem?_offset hr
  rw [ho, h.getElem?_offset hr'] at hi
  exact (Option.some.inj hi).symm

theorem lt_size_of_getElem? {i : Nat} (hi : g.registers[i]? = some r) : i < g.size :=
  (List.getElem?_eq_some_iff.mp hi).1

theorem one_le_localWidth (g : RegisterGroup) : 1 ≤ g.localWidth := one_le_addressBits g.size

theorem lt_two_pow_localWidth {i : Nat} (h : i < g.size) : i < 2 ^ g.localWidth :=
  Nat.lt_of_lt_of_le h (le_two_pow_addressBits g.size)

theorem getElem?_foldl_add {i : Nat} (specs : List RegisterSpec)
    (hi : g.registers[i]? = some r) : (specs.foldl add g).registers[i]? = some r := by
  induction specs generalizing g with
  | nil => exact hi
  | cons spec specs ih =>
    refine ih ?_
    rw [add, List.getElem?_append_left (lt_size_of_getElem? hi)]
    exact hi

theorem size_le_foldl_add (specs : List RegisterSpec) : g.size ≤ (specs.foldl add g).size := by
  induction specs generalizing g with
  | nil => exact Nat.le_refl _
  | cons spec specs ih =>
    have hadd : g.size ≤ (g.add spec).size := by simp [size, add]
    exact Nat.le_trans hadd ih

end RegisterGroup

end RegMap
