set_option autoImplicit false

namespace RegMap

inductive Mapping where
  | io | memory
  deriving DecidableEq, Repr, Inhabited

def Mapping.requestPin : Mapping → String
  | .io => "iorq_n"
  | .memory => "mreq_n"

def Mapping.ofMemoryMapped (memoryMapped : Bool) : Mapping :=
  if memoryMapped then .memory else .io

structure Bus where
  baseAddress : Nat := 0
  addressWidth : Nat := 16
  dataWidth : Nat := 8
  mapping : Mapping := .io
  deriving DecidableEq, Repr, Inhabited

def Bus.memoryMapped (bus : Bus) (memoryMapped : Bool) : Bus :=
  { bus with mapping := .ofMemoryMapped memoryMapped }

inductive Policy where
  /-- Report it and go on: a bad literal counts as 0, and a register of an unknown type or of
  zero width is left out. -/
  | lenient
  | strict
  deriving DecidableEq, Repr, Inhabited

structure Settings where
  policy : Policy := .lenient
  bus : Bus := {}
  deriving DecidableEq, Repr, Inhabited

def Settings.strict (settings : Settings) : Settings := { settings with policy := .strict }

end RegMap
