import RegMap.Text.Numeral

set_option autoImplicit false

namespace RegMap.Verilog

open Text

inductive Expr where
  | net (name : String)
  | range (name : String) (high low : Nat)
  | number (value : Nat)
  | bit (value : Bool)
  /-- A constant none of whose bits is known. -/
  | unknown (width : Nat)
  | equal (left right : Expr)
  | both (left right : Expr)
  | either (left right : Expr)
  | isZero (operand : Expr)
  | invert (operand : Expr)
  | anyBit (operand : Expr)
  | choose (condition yes no : Expr)
  | repeated (count : Nat) (operand : Expr)
  | parens (inner : Expr)
  deriving DecidableEq, Repr

/-- The alternatives of a disjunction; none at all is a bit that is never set. -/
def Expr.anyOf : List Expr → Expr
  | [] => .bit false
  | e :: rest => rest.foldl .either e

/-- Operands are written as they stand, so a tree has to hold its parentheses as nodes. -/
def Expr.wire : Expr → List Char
  | .net name => name.toList
  | .range name high low =>
    name.toList ++ '[' :: decimal high ++ ':' :: decimal low ++ [']']
  | .number value => decimal value
  | .bit value => "1'b".toList ++ [if value then '1' else '0']
  | .unknown width => decimal width ++ "'bx".toList
  | .equal left right => left.wire ++ " == ".toList ++ right.wire
  | .both left right => left.wire ++ " & ".toList ++ right.wire
  | .either left right => left.wire ++ " | ".toList ++ right.wire
  | .isZero operand => '!' :: operand.wire
  | .invert operand => '~' :: operand.wire
  | .anyBit operand => '|' :: operand.wire
  | .choose condition yes no =>
    condition.wire ++ " ? ".toList ++ yes.wire ++ " : ".toList ++ no.wire
  | .repeated count operand =>
    '\x7b' :: decimal count ++ '\x7b' :: operand.wire ++ ['\x7d', '\x7d']
  | .parens inner => '(' :: inner.wire ++ [')']

end RegMap.Verilog
