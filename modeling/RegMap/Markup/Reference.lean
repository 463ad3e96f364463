import RegMap.Markup.Fault
import RegMap.Text.Numeral

set_option autoImplicit false

namespace RegMap.Markup

open Text

def byteLength : List Char → Nat
  | [] => 0
  | c :: s => c.utf8Size + byteLength s

/-- Numbers of characters are read into 32 bits. -/
def characterLimit : Nat := 0x100000000

/-- Digits are judged from the left, so a bad one behind an overflow is not noticed. -/
def characterCode (radix : Nat) (read : Nat) : List Char → Except CharacterFault Nat
  | [] => .ok read
  | c :: digits =>
    match digitIn? radix c with
    | none => .error .badDigit
    | some d =>
      if characterLimit ≤ read * radix + d then .error .tooLarge
      else characterCode radix (read * radix + d) digits

def unsignedCode (radix : Nat) : List Char → Except CharacterFault Nat
  | [] => .error .noDigits
  | c :: digits => if c = '+' ∨ c = '-' then .error .sign else characterCode radix 0 (c :: digits)

def characterAt (code : Nat) : Except CharacterFault Char :=
  if code = 0 then .error .zero
  else if code.isValidChar then .ok (Char.ofNat code)
  else .error (.notCharacter code)

def numberedCharacter : List Char → Except CharacterFault Char
  | 'x' :: digits => unsignedCode 16 digits >>= characterAt
  | digits => unsignedCode 10 digits >>= characterAt

def namedCharacter? (name : List Char) : Option Char :=
  [("lt".toList, '<'), ("gt".toList, '>'), ("amp".toList, '&'), ("apos".toList, '\''),
    ("quot".toList, '"')].lookup name

/-- The character that stands for the reference between `&` and `;`, the `&` being at byte
`start` and the `;` at byte `stop`. -/
def referenced (start stop : Nat) : List Char → Except ReferenceFault Char
  | '#' :: number => (numberedCharacter number).mapError .character
  | name =>
    match namedCharacter? name with
    | some c => .ok c
    | none => .error (.unknown (start + 1) stop (String.ofList name))

def insideReference (c : Char) : Bool := c != '&' && c != ';'

/-- The text with each reference replaced; `size` is the byte length of the whole value, of which
the text is the end. What replaces a reference is not looked at again. -/
def unescapeEnd (size : Nat) (s : List Char) : Except ReferenceFault (List Char) :=
  match s with
  | [] => .ok []
  | c :: rest =>
    if c = '&' then
      match _hr : rest.dropWhile insideReference with
      | ';' :: behind => do
        let r ← referenced (size - byteLength (c :: rest)) (size - byteLength (';' :: behind))
          (rest.takeWhile insideReference)
        let more ← unescapeEnd size behind
        return r :: more
      | _ => .error (.unterminated (size - byteLength (c :: rest)) size)
    else do
      let more ← unescapeEnd size rest
      return c :: more
termination_by s.length
decreasing_by
  · have h := (List.dropWhile_suffix (l := rest) insideReference).length_le
    rw [_hr, List.length_cons] at h
    simp only [List.length_cons]
    omega
  · simp

def unescape (value : List Char) : Except ReferenceFault (List Char) :=
  unescapeEnd (byteLength value) value

end RegMap.Markup
