import RegMap.Text.Blank
import RegMap.Text.Numeral
import RegMap.Text.Quoted

/-!
Numeric literals of a register description: a plain decimal number, or a sized literal
`<width>'<radix><digits>` whose radix letter is `d`, `h` or `b`.
-/

set_option autoImplicit false

namespace RegMap

open Text

inductive Radix where
  | binary | decimal | hexadecimal
  deriving DecidableEq, Repr

def Radix.base : Radix → Nat
  | .binary => 2
  | .decimal => 10
  | .hexadecimal => 16

def Radix.letter : Radix → Char
  | .binary => 'b'
  | .decimal => 'd'
  | .hexadecimal => 'h'

def Radix.ofLetter? (c : Char) : Option Radix :=
  if c = 'b' then some .binary
  else if c = 'd' then some .decimal
  else if c = 'h' then some .hexadecimal
  else none

inductive LiteralError where
  | malformed (token : String)
  /-- A sized literal with a digit outside its radix, or with too large a value. -/
  | badDigits (token : String) (radix : Radix)
  deriving DecidableEq, Repr

def LiteralError.wire : LiteralError → List Char
  | .malformed token => "number conversion of ".toList ++ quoted token.toList ++ " failed".toList
  | .badDigits token radix =>
    "number conversion of ".toList ++ quoted token.toList ++
      " failed: digits are not valid in radix ".toList ++ Text.decimal radix.base

namespace Literal

/-- The radix and the digits of a sized literal at the head of the token; the width in front is
not looked at, nor is what follows the digits. -/
def sized? (token : List Char) : Option (Radix × List Char) :=
  match token.takeWhile Char.isDigit, token.dropWhile Char.isDigit with
  | _ :: _, '\'' :: letter :: rest =>
    match Radix.ofLetter? letter, rest.takeWhile isHexDigit with
    | some radix, d :: digits => some (radix, d :: digits)
    | _, _ => none
  | _, _ => none

/-- A decimal number with at most one plus sign in front. -/
def plain? : List Char → Option Nat
  | [] => none
  | ['+'] => none
  | '+' :: digits => word? 10 digits
  | digits => word? 10 digits

/-- White space around a literal is dropped, and the error names what is left. -/
def read (text : String) : Except LiteralError Nat :=
  let token := trim text.toList
  match sized? token with
  | some (radix, digits) =>
    match word? radix.base digits with
    | some n => .ok n
    | none => .error (.badDigits (String.ofList token) radix)
  | none =>
    match plain? token with
    | some n => .ok n
    | none => .error (.malformed (String.ofList token))

end Literal

end RegMap
