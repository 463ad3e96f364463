import RegMap.AddressBits
import RegMap.Bus
import RegMap.Register

set_option autoImplicit false

namespace RegMap

open Verilog

structure RegisterGroup where
  name : String
  bus : Bus
  registers : List Register := []
  deriving DecidableEq, Repr

def Bus.ports (bus : Bus) : List Port :=
  [.input "clk" 1, .input "reset" 1, .input "addr" bus.addressWidth,
   .input "wr_data" bus.dataWidth, .output "rd_data" bus.dataWidth, .output "doe" 1,
   .input "rd_n" 1, .input "wr_n" 1, .input bus.mapping.requestPin 1]

def Bus.signals (bus : Bus) : List Signal :=
  [⟨"rd_data", bus.dataWidth⟩, ⟨"doe", 1⟩, ⟨"block_select", 1⟩]

namespace RegisterGroup

def size (g : RegisterGroup) : Nat := g.registers.length

/-- Adds what the specification makes; the register that it names comes to stand at `g.size`. -/
def add (g : RegisterGroup) (spec : RegisterSpec) : RegisterGroup :=
  { g with registers := g.registers ++ spec.registers g.size }

/-- A group without registers, and then those of the specifications in turn. -/
def ofSpecs (name : String) (bus : Bus) (specs : List RegisterSpec) : RegisterGroup :=
  specs.foldl add ⟨name, bus, []⟩

def localWidth (g : RegisterGroup) : Nat := addressBits g.size

/-- The ports without those that only a module with interrupts has. -/
def ports (g : RegisterGroup) : List Port := g.bus.ports ++ g.registers.flatMap Register.ports

def signals (g : RegisterGroup) : List Signal :=
  g.bus.signals ++ g.registers.flatMap Register.signals

def hasInterrupts (g : RegisterGroup) : Bool := g.registers.any Register.isInterrupt

def fileName (g : RegisterGroup) : String := g.name ++ ".v"

end RegisterGroup

end RegMap
