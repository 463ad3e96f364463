import RegMap.Text.Numeral

/-!
What can be wrong with a marked-up text, and how each fault is told.

A fault often is the cause of a more general one; `causes` lists the texts from the most general
to the most particular.
-/

set_option autoImplicit false

namespace RegMap.Markup

open Text

inductive ConstructFault where
  | unclosedTag
  | unknownMarkup
  | unclosedComment
  | unclosedCharacterData
  | unclosedDoctype
  | unclosedInstruction
  deriving DecidableEq, Repr

def ConstructFault.wire : ConstructFault → List Char
  | .unclosedTag => "tag not closed: `>` not found before end of input".toList
  | .unknownMarkup => "unknown or missed symbol in markup".toList
  | .unclosedComment => "comment not closed: `-->` not found before end of input".toList
  | .unclosedCharacterData => "CDATA not closed: `]]>` not found before end of input".toList
  | .unclosedDoctype => "DOCTYPE not closed: `>` not found before end of input".toList
  | .unclosedInstruction =>
    ("processing instruction or xml declaration not closed: " ++
      "`?>` not found before end of input").toList

inductive NestingFault where
  | unnamedDoctype
  | mismatchedEnd (expected found : String)
  | unmatchedEnd (found : String)
  deriving DecidableEq, Repr

def NestingFault.wire : NestingFault → List Char
  | .unnamedDoctype =>
    "`<!DOCTYPE>` declaration does not contain a name of a document type".toList
  | .mismatchedEnd expected found =>
    "expected `</".toList ++ expected.toList ++ ">`, but `</".toList ++ found.toList ++
      ">` was found".toList
  | .unmatchedEnd found =>
    "close tag `</".toList ++ found.toList ++ ">` does not match any open tag".toList

inductive CharacterFault where
  | sign
  | noDigits
  | badDigit
  | tooLarge
  | zero
  | notCharacter (code : Nat)
  deriving DecidableEq, Repr

def CharacterFault.wire : CharacterFault → List Char
  | .sign => "unexpected number sign".toList
  | .noDigits => "cannot parse integer from empty string".toList
  | .badDigit => "invalid digit found in string".toList
  | .tooLarge => "number too large to fit in target type".toList
  | .zero => "0x0 character is not permitted in XML".toList
  | .notCharacter code =>
    "`".toList ++ decimal code ++ "` is not a valid codepoint".toList

/-- The number itself cannot be read, which counts as a cause of its own. -/
def CharacterFault.isNumeric : CharacterFault → Bool
  | .noDigits | .badDigit | .tooLarge => true
  | _ => false

def CharacterFault.causes (f : CharacterFault) : List (List Char) :=
  if f.isNumeric then [f.wire, f.wire] else [f.wire]

inductive ReferenceFault where
  | unterminated (start stop : Nat)
  | unknown (start stop : Nat) (name : String)
  | character (fault : CharacterFault)
  deriving DecidableEq, Repr

def ReferenceFault.wire : ReferenceFault → List Char
  | .unterminated start stop =>
    "Error while escaping character at range ".toList ++ decimal start ++ "..".toList ++
      decimal stop ++ ": Cannot find ';' after '&'".toList
  | .unknown start stop name =>
    "at ".toList ++ decimal start ++ "..".toList ++ decimal stop ++
      ": unrecognized entity `".toList ++ name.toList ++ "`".toList
  | .character fault => "invalid character reference: ".toList ++ fault.wire

def ReferenceFault.causes (f : ReferenceFault) : List (List Char) :=
  f.wire :: match f with
    | .character fault => fault.causes
    | _ => []

inductive Fault where
  | construct (fault : ConstructFault)
  | nesting (fault : NestingFault)
  | reference (fault : ReferenceFault)
  deriving DecidableEq, Repr

def Fault.wire : Fault → List Char
  | .construct fault => "syntax error: ".toList ++ fault.wire
  | .nesting fault => "ill-formed document: ".toList ++ fault.wire
  | .reference fault => fault.wire

def Fault.causes (f : Fault) : List (List Char) :=
  f.wire :: match f with
    | .construct fault => [fault.wire]
    | .nesting fault => [fault.wire]
    | .reference fault => fault.causes

/-- What is wrong in a list of attributes; positions count bytes from the start of the tag. -/
inductive AttributeFault where
  | expectedEquals (position : Nat)
  | duplicated (position previous : Nat)
  | missingValue (position : Nat)
  | unquotedValue (position : Nat)
  | unclosedQuote (position : Nat) (quote : Char)
  deriving DecidableEq, Repr

def AttributeFault.position : AttributeFault → Nat
  | .expectedEquals position | .duplicated position _ | .missingValue position
  | .unquotedValue position | .unclosedQuote position _ => position

def AttributeFault.detail : AttributeFault → List Char
  | .expectedEquals _ =>
    "attribute key must be directly followed by `=` or space".toList
  | .duplicated _ previous =>
    "duplicated attribute, previous declaration at position ".toList ++ decimal previous
  | .missingValue _ => "`=` must be followed by an attribute value".toList
  | .unquotedValue _ => "attribute value must be enclosed in `\"` or `'`".toList
  | .unclosedQuote _ quote =>
    "missing closing quote `".toList ++ quote :: "` in attribute value".toList

def AttributeFault.wire (f : AttributeFault) : List Char :=
  "position ".toList ++ decimal f.position ++ ": ".toList ++ f.detail

end RegMap.Markup
