set_option autoImplicit false

namespace RegMap

/-- The least number of bits, but at least one, in which the positions below `count` differ. -/
def addressBits (count : Nat) : Nat :=
  if count ≤ 1 then 1 else Nat.log2 (count - 1) + 1

end RegMap
