import RegMap.Verilog.Module

set_option autoImplicit false

namespace RegMap

open Verilog Text

inductive RegisterType where
  | config | status | intFixed | softSet | readStb | writeStb
  deriving DecidableEq, Repr

def RegisterType.all : List RegisterType :=
  [.config, .status, .intFixed, .softSet, .readStb, .writeStb]

def RegisterType.name : RegisterType → String
  | .config => "config"
  | .status => "status"
  | .intFixed => "int_fixed"
  | .softSet => "soft_set"
  | .readStb => "read_stb"
  | .writeStb => "write_stb"

inductive RegisterTypeError where
  | unknownName
  deriving DecidableEq, Repr

def RegisterTypeError.message : RegisterTypeError → String
  | .unknownName => "Matching variant not found"

def RegisterType.ofName (name : String) : Except RegisterTypeError RegisterType :=
  match RegisterType.all.find? (·.name == name) with
  | some type => .ok type
  | none => .error .unknownName

inductive RegisterKind where
  | status
  | readStrobe
  | config (resetValue : Nat)
  | writeStrobe (resetValue : Nat)
  /-- Storage whose bits the bus and the set port set; a bit whose clear port is high is cleared
  whatever else happens to it. -/
  | softSet (resetValue : Nat)
  /-- Pending bits that the set port sets and a bus write of 1 clears, seen through the config
  register at position `mask`; `vector` is read while this interrupt is the active one. -/
  | interrupt (mask vector : Nat)
  deriving DecidableEq, Repr

def RegisterKind.wire : RegisterKind → List Char
  | .status => "Status".toList
  | .readStrobe => "ReadStrobe".toList
  | .config d => "Config \x7b default: ".toList ++ decimal d ++ " \x7d".toList
  | .writeStrobe d => "WriteStrobe \x7b default: ".toList ++ decimal d ++ " \x7d".toList
  | .softSet d => "SoftSet \x7b default: ".toList ++ decimal d ++ " \x7d".toList
  | .interrupt mask vector =>
    "InterruptFixed \x7b mask: ".toList ++ decimal mask ++ ", vector: ".toList ++ decimal vector ++
      " \x7d".toList

structure Register where
  name : String
  width : Nat
  offset : Nat
  kind : RegisterKind
  deriving DecidableEq, Repr

namespace Register

def readSelect (r : Register) : String := r.name ++ "_rd_sel"

def writeSelect (r : Register) : String := r.name ++ "_wr_sel"

def strobe (r : Register) : String := r.name ++ "_stb"

def setPort (r : Register) : String := r.name ++ "_set"

def clearPort (r : Register) : String := r.name ++ "_clr"

def flag (r : Register) : String := r.name ++ "_int"

def ports (r : Register) : List Port :=
  match r.kind with
  | .status => [.input r.name r.width]
  | .readStrobe => [.input r.name r.width, .output r.strobe 1]
  | .config _ => [.output r.name r.width]
  | .writeStrobe _ => [.output r.name r.width, .output r.strobe 1]
  | .softSet _ =>
    [.output r.name r.width, .input r.setPort r.width, .input r.clearPort r.width]
  | .interrupt _ _ => [.input r.setPort r.width]

def signals (r : Register) : List Signal :=
  match r.kind with
  | .status => [⟨r.readSelect, 1⟩]
  | .readStrobe => [⟨r.readSelect, 1⟩, ⟨r.strobe, 1⟩]
  | .config _ | .softSet _ => [⟨r.name, r.width⟩, ⟨r.readSelect, 1⟩, ⟨r.writeSelect, 1⟩]
  | .writeStrobe _ =>
    [⟨r.name, r.width⟩, ⟨r.readSelect, 1⟩, ⟨r.writeSelect, 1⟩, ⟨r.strobe, 1⟩]
  | .interrupt _ _ =>
    [⟨r.readSelect, 1⟩, ⟨r.writeSelect, 1⟩, ⟨r.name, r.width⟩, ⟨r.flag, 1⟩]

def writable (r : Register) : Bool :=
  match r.kind with
  | .status | .readStrobe => false
  | _ => true

def vector? (r : Register) : Option Nat :=
  match r.kind with
  | .interrupt _ vector => some vector
  | _ => none

def isInterrupt (r : Register) : Bool := r.vector?.isSome

end Register

structure RegisterSpec where
  type : RegisterType := .config
  name : String := ""
  width : Nat := 1
  /-- The value after reset; of an interrupt, the one of its mask. -/
  resetValue : Nat := 0
  vector : Nat := 0
  deriving DecidableEq, Repr

/-- The registers that a specification makes when `position` are there already: one, or for an
interrupt the pending bits and their mask behind them. -/
def RegisterSpec.registers (spec : RegisterSpec) (position : Nat) : List Register :=
  let one (kind : RegisterKind) : List Register := [⟨spec.name, spec.width, position, kind⟩]
  match spec.type with
  | .status => one .status
  | .readStb => one .readStrobe
  | .config => one (.config spec.resetValue)
  | .writeStb => one (.writeStrobe spec.resetValue)
  | .softSet => one (.softSet spec.resetValue)
  | .intFixed =>
    [⟨spec.name, spec.width, position, .interrupt (position + 1) spec.vector⟩,
     ⟨spec.name ++ "_msk", spec.width, position + 1, .config spec.resetValue⟩]

end RegMap
