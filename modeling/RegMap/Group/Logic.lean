import RegMap.Group

set_option autoImplicit false

namespace RegMap

open Verilog

/-- The value of a net, in places where an expression is wanted. -/
local instance : Coe String Expr := ⟨.net⟩

namespace RegisterGroup

def blockSelect (g : RegisterGroup) : Statement :=
  .assign ⟨"block_select",
    .both (.parens (.equal (.range "addr" (g.bus.addressWidth - 1) g.localWidth)
        (.number (g.bus.baseAddress >>> g.localWidth))))
      (.isZero g.bus.mapping.requestPin)⟩

def selects (g : RegisterGroup) (r : Register) (select strobe : String) : Statement :=
  .assign ⟨select,
    .both (.both "block_select"
        (.parens (.equal (.range "addr" (g.localWidth - 1) 0) (.number r.offset))))
      (.isZero strobe)⟩

def registerSelects (g : RegisterGroup) (r : Register) : List Statement :=
  g.selects r r.readSelect "rd_n" ::
    if r.writable then [g.selects r r.writeSelect "wr_n"] else []

def decoder (g : RegisterGroup) : Block :=
  ⟨.change, g.blockSelect :: g.registers.flatMap g.registerSelects⟩

def readMux (g : RegisterGroup) : Block :=
  ⟨.change,
    [.select (g.registers.map fun r => (r.readSelect, ⟨"rd_data", r.name⟩))
      ⟨"rd_data", if g.hasInterrupts then "int_vec" else .unknown g.bus.dataWidth⟩,
     .assign ⟨"doe", .anyOf (g.registers.map fun r => r.readSelect)⟩]⟩

def interruptRequest (g : RegisterGroup) : Block :=
  ⟨.change,
    [.select (g.registers.filterMap fun r =>
        r.vector?.map fun vector => (r.flag, ⟨"int_vec", .number vector⟩))
      ⟨"int_vec", .unknown g.bus.dataWidth⟩,
     .assign ⟨"int_n",
       .invert (.parens (.anyOf ((g.registers.filter Register.isInterrupt).map fun r => r.flag)))⟩]⟩

end RegisterGroup

namespace Register

def afterReset (target : String) (resetValue : Nat) (more : List (Expr × Expr))
    (otherwise : Option Expr) : Statement :=
  .chain ("reset", ⟨target, .number resetValue⟩) (more.map fun arm => (arm.1, ⟨target, arm.2⟩))
    (otherwise.map fun value => ⟨target, value⟩)

def load (r : Register) (resetValue : Nat) : Statement :=
  afterReset r.name resetValue [(r.writeSelect, "wr_data")] none

def pulse (r : Register) (select : String) : Statement :=
  afterReset r.strobe 0 [(select, .number 1)] (some (.number 0))

def softSetUpdate (r : Register) (resetValue : Nat) : Statement :=
  afterReset r.name resetValue []
    (some (.both
      (.parens (.either (.parens (.choose r.writeSelect "wr_data" r.name)) r.setPort))
      (.invert r.clearPort)))

def pendingUpdate (r : Register) : Statement :=
  afterReset r.name 0 []
    (some (.both (.parens (.either r.name r.setPort))
      (.invert (.parens (.both (.repeated r.width r.writeSelect) "wr_data")))))

/-- Some bit is pending that the mask lets through; without a mask any bit counts. -/
def flagUpdate (r : Register) (mask : Option Register) : Statement :=
  .assign ⟨r.flag,
    .anyBit (match mask with
      | some m => .parens (.both r.name (.invert m.name))
      | none => r.name)⟩

def clocked (statements : List Statement) : Block := ⟨.edge "clk", statements⟩

/-- The blocks that drive the register's own nets, the selects apart; `registers` are those of its
group, among which an interrupt has its mask. -/
def behaviour (r : Register) (registers : List Register) : List Block :=
  match r.kind with
  | .status => []
  | .readStrobe => [clocked [r.pulse r.readSelect]]
  | .config resetValue => [clocked [r.load resetValue]]
  | .writeStrobe resetValue => [clocked [r.load resetValue, r.pulse r.writeSelect]]
  | .softSet resetValue => [clocked [r.softSetUpdate resetValue]]
  | .interrupt mask _ =>
    [clocked [r.pendingUpdate], ⟨.change, [r.flagUpdate registers[mask]?]⟩]

end Register

namespace RegisterGroup

def interruptPorts (g : RegisterGroup) : List Port :=
  if g.hasInterrupts then [.output "int_n" 1] else []

def interruptSignals (g : RegisterGroup) : List Signal :=
  if g.hasInterrupts then [⟨"int_n", 1⟩, ⟨"int_vec", g.bus.dataWidth⟩] else []

def toModule (g : RegisterGroup) : Module where
  name := g.name
  ports := g.ports ++ g.interruptPorts
  signals := g.signals ++ g.interruptSignals
  sections := [g.decoder] :: [g.readMux] ::
    (if g.hasInterrupts then [[g.interruptRequest]] else []) ++
      (g.registers.map (·.behaviour g.registers)).filter (!·.isEmpty)

def wire (g : RegisterGroup) : List Char := g.toModule.wire

end RegisterGroup

end RegMap
