set_option autoImplicit false

namespace RegMap.Text

/-- One more than the largest number that a description can give, which has 64 bits. -/
def wordLimit : Nat := 0x10000000000000000

def decimal (n : Nat) : List Char := Nat.toDigits 10 n

def hexadecimal (n : Nat) : List Char := Nat.toDigits 16 n

def hexPair (n : Nat) : List Char :=
  if n < 16 then '0' :: hexadecimal n else hexadecimal n

/-- The value of an ASCII digit in either letter case, up to fifteen. -/
def digitValue? (c : Char) : Option Nat :=
  if '0' ≤ c ∧ c ≤ '9' then some (c.toNat - '0'.toNat)
  else if 'a' ≤ c ∧ c ≤ 'f' then some (c.toNat - 'a'.toNat + 10)
  else if 'A' ≤ c ∧ c ≤ 'F' then some (c.toNat - 'A'.toNat + 10)
  else none

def isHexDigit (c : Char) : Bool := (digitValue? c).isSome

def digitIn? (radix : Nat) (c : Char) : Option Nat := (digitValue? c).filter (· < radix)

/-- The number that the digits denote, most significant first, after those already read. -/
def valueFrom? (radix : Nat) (read : Nat) : List Char → Option Nat
  | [] => some read
  | c :: digits => do
    let d ← digitIn? radix c
    valueFrom? radix (read * radix + d) digits

def value? (radix : Nat) (digits : List Char) : Option Nat := valueFrom? radix 0 digits

def word? (radix : Nat) (digits : List Char) : Option Nat :=
  (value? radix digits).filter (· < wordLimit)

end RegMap.Text
