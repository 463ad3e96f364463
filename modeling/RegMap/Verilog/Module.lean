import RegMap.Verilog.Block

set_option autoImplicit false

namespace RegMap.Verilog

open Text

inductive Direction where
  | input | output
  deriving DecidableEq, Repr

def Direction.keyword : Direction → String
  | .input => "input"
  | .output => "output"

/-- A net of one bit is declared without a range. -/
def declaration (keyword : String) (width : Nat) (name : String) : List Char :=
  if width ≤ 1 then
    keyword.toList ++ ' ' :: name.toList ++ [';']
  else
    keyword.toList ++ " [".toList ++ decimal (width - 1) ++ ":0] ".toList ++ name.toList ++ [';']

structure Port where
  direction : Direction
  name : String
  width : Nat
  deriving DecidableEq, Repr

def Port.input (name : String) (width : Nat) : Port := ⟨.input, name, width⟩

def Port.output (name : String) (width : Nat) : Port := ⟨.output, name, width⟩

def Port.wire (p : Port) : List Char := declaration p.direction.keyword p.width p.name

structure Signal where
  name : String
  width : Nat
  deriving DecidableEq, Repr

def Signal.wire (s : Signal) : List Char := declaration "reg" s.width s.name

/-- A module whose logic is already text. Names are not checked, so two ports may share one. -/
structure Sheet where
  name : String
  ports : List Port
  signals : List Signal
  sections : List (List Char)
  deriving DecidableEq, Repr

def headNames : List Port → List Char
  | [] => []
  | [p] => line 2 p.name.toList
  | p :: ports => line 2 (p.name.toList ++ [',']) ++ headNames ports

def Sheet.wire (m : Sheet) : List Char :=
  line 0 ("module ".toList ++ m.name.toList ++ " (".toList) ++ headNames m.ports ++
    line 0 ");".toList ++ m.ports.flatMap (fun p => line 0 p.wire) ++
    m.signals.flatMap (fun s => line 0 s.wire) ++ m.sections.flatten ++
    line 0 "endmodule".toList

/-- A module with its logic as blocks, in sections that each serve one purpose. -/
structure Module where
  name : String
  ports : List Port
  signals : List Signal
  sections : List (List Block)
  deriving DecidableEq, Repr

def Module.blocks (m : Module) : List Block := m.sections.flatten

def Module.sheet (m : Module) : Sheet where
  name := m.name
  ports := m.ports
  signals := m.signals
  sections := m.sections.map (·.flatMap Block.wire)

def Module.wire (m : Module) : List Char := m.sheet.wire

end RegMap.Verilog
