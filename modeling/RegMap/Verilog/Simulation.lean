import Mathlib
import RegMap.Verilog.Module

/-!
What modules do: the value of expressions over nets that hold numbers of a fixed width, the states
in which all gates have settled, and the step from one clock edge to the next.

Each bit is 0 or 1; one that is not known is taken to be 0.
-/

set_option autoImplicit false

namespace RegMap.Verilog

abbrev State := String → Nat

def State.set (σ : State) (name : String) (value : Nat) : State :=
  fun n => if n = name then value else σ n

namespace Expr

/-- The bits of an expression on its own. A plain number has as many as it needs, and 32 at
least. -/
def size (width : String → Nat) : Expr → Nat
  | .net name => width name
  | .range _ high low => high + 1 - low
  | .number value => max 32 (value.log2 + 1)
  | .bit _ | .equal _ _ | .isZero _ | .anyBit _ => 1
  | .unknown bits => bits
  | .both left right | .either left right => max (left.size width) (right.size width)
  | .invert operand | .parens operand => operand.size width
  | .choose _ yes no => max (yes.size width) (no.size width)
  | .repeated count operand => count * operand.size width

def repeatBits (bits value : Nat) : Nat → Nat
  | 0 => 0
  | count + 1 => repeatBits bits value count <<< bits ||| value

/-- The value in a place of so many bits, to which operands are extended or cut before they are
combined. -/
def eval (width : String → Nat) (σ : State) : Nat → Expr → Nat
  | bits, .net name => σ name % 2 ^ bits
  | bits, .range name high low => (σ name >>> low) % 2 ^ (high + 1 - low) % 2 ^ bits
  | bits, .number value => value % 2 ^ bits
  | bits, .bit value => value.toNat % 2 ^ bits
  | _, .unknown _ => 0
  | bits, .equal left right =>
    let both := max (left.size width) (right.size width)
    (decide (left.eval width σ both = right.eval width σ both)).toNat % 2 ^ bits
  | bits, .both left right => left.eval width σ bits &&& right.eval width σ bits
  | bits, .either left right => left.eval width σ bits ||| right.eval width σ bits
  | bits, .isZero operand =>
    (decide (operand.eval width σ (operand.size width) = 0)).toNat % 2 ^ bits
  | bits, .invert operand => 2 ^ bits - 1 - operand.eval width σ bits
  | bits, .anyBit operand =>
    (decide (operand.eval width σ (operand.size width) ≠ 0)).toNat % 2 ^ bits
  | bits, .choose condition yes no =>
    if condition.eval width σ (condition.size width) = 0 then no.eval width σ bits
    else yes.eval width σ bits
  | bits, .repeated count operand =>
    repeatBits (operand.size width) (operand.eval width σ (operand.size width)) count % 2 ^ bits
  | bits, .parens inner => inner.eval width σ bits

def isTrue (width : String → Nat) (σ : State) (e : Expr) : Bool :=
  decide (e.eval width σ (e.size width) ≠ 0)

def isOne (width : String → Nat) (σ : State) (e : Expr) : Bool :=
  decide (e.eval width σ (max 1 (e.size width)) = 1)

end Expr

def Assignment.eval (width : String → Nat) (σ : State) (a : Assignment) : Nat :=
  a.value.eval width σ (max (width a.target) (a.value.size width)) % 2 ^ width a.target

def Statement.chosen? (width : String → Nat) (σ : State) : Statement → Option Assignment
  | .assign a => some a
  | .select arms otherwise =>
    some (((arms.find? fun arm => arm.1.isOne width σ).map (·.2)).getD otherwise)
  | .chain first more otherwise =>
    (((first :: more).find? fun arm => arm.1.isTrue width σ).map (·.2)).or otherwise

/-- The state with what the statement assigns, its operands being read in `σ`. -/
def Statement.write (width : String → Nat) (σ τ : State) (s : Statement) : State :=
  match s.chosen? width σ with
  | some a => τ.set a.target (a.eval width σ)
  | none => τ

/-- Gates: each statement sees what those before it assigned. -/
def Block.settle (width : String → Nat) (b : Block) (σ : State) : State :=
  b.statements.foldl (fun σ s => s.write width σ σ) σ

/-- Storage: all statements see the state before the edge. -/
def Block.latch (width : String → Nat) (σ τ : State) (b : Block) : State :=
  b.statements.foldl (fun τ s => s.write width σ τ) τ

namespace Module

def width (m : Module) (name : String) : Nat :=
  match m.ports.find? (·.name == name) with
  | some p => max 1 p.width
  | none =>
    match m.signals.find? (·.name == name) with
    | some s => max 1 s.width
    | none => 1

def Fits (m : Module) (σ : State) : Prop := ∀ name, σ name < 2 ^ m.width name

def gates (m : Module) : List Block := m.blocks.filter (·.trigger == .change)

def storage (m : Module) : List Block := m.blocks.filter (·.trigger != .change)

/-- All gates show the values that their operands call for. -/
def Settled (m : Module) (σ : State) : Prop := ∀ b ∈ m.gates, b.settle m.width σ = σ

def edge (m : Module) (σ : State) : State := m.storage.foldl (fun τ b => b.latch m.width σ τ) σ

end Module

end RegMap.Verilog
