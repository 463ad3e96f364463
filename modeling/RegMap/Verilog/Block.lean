import RegMap.Verilog.Expr

set_option autoImplicit false

namespace RegMap.Verilog

inductive Trigger where
  /-- Whenever an operand changes: the block describes gates. -/
  | change
  | edge (clock : String)
  deriving DecidableEq, Repr

def Trigger.wire : Trigger → List Char
  | .change => ['*']
  | .edge clock => "(posedge ".toList ++ clock.toList ++ [')']

/-- Gates are driven at once; storage takes its new value when the whole edge is over. -/
def Trigger.assignment : Trigger → List Char
  | .change => " = ".toList
  | .edge _ => " <= ".toList

def line (depth : Nat) (text : List Char) : List Char :=
  List.replicate depth ' ' ++ text ++ ['\n']

def alwaysWire (trigger : Trigger) (statements : List (List Char)) : List Char :=
  line 0 ("always @".toList ++ trigger.wire) ++ line 2 "begin".toList ++
    statements.flatMap (line 4) ++ line 2 "end".toList

structure Assignment where
  target : String
  value : Expr
  deriving DecidableEq, Repr

def Assignment.wire (operator : List Char) (a : Assignment) : List Char :=
  a.target.toList ++ operator ++ a.value.wire ++ [';']

inductive Statement where
  | assign (assignment : Assignment)
  /-- The first arm whose condition holds, or else the last assignment. -/
  | select (arms : List (Expr × Assignment)) (otherwise : Assignment)
  /-- As `select`, but written as a chain of `if`s, which need not end in an `else`. -/
  | chain (first : Expr × Assignment) (more : List (Expr × Assignment))
      (otherwise : Option Assignment)
  deriving DecidableEq, Repr

def armWire (operator : List Char) (arm : Expr × Assignment) : List Char :=
  "  ".toList ++ arm.1.wire ++ " : ".toList ++ arm.2.wire operator

def guardWire (operator : List Char) (arm : Expr × Assignment) : List Char :=
  "if (".toList ++ arm.1.wire ++ ") ".toList ++ arm.2.wire operator

def Statement.wires (operator : List Char) : Statement → List (List Char)
  | .assign a => [a.wire operator]
  | .select arms otherwise =>
    "case (1'b1)".toList :: arms.map (armWire operator) ++
      ["  default : ".toList ++ otherwise.wire operator, "endcase".toList]
  | .chain first more otherwise =>
    guardWire operator first :: more.map (fun arm => "else ".toList ++ guardWire operator arm) ++
      otherwise.toList.map fun a => "else ".toList ++ a.wire operator

structure Block where
  trigger : Trigger
  statements : List Statement
  deriving DecidableEq, Repr

def Block.wire (b : Block) : List Char :=
  alwaysWire b.trigger (b.statements.flatMap (Statement.wires b.trigger.assignment))

end RegMap.Verilog
