import RegMap.Files.Fault
import RegMap.Literal
import RegMap.Markup.Attribute

set_option autoImplicit false

namespace RegMap.Description

open Text

inductive Error where
  | literal (fault : LiteralError)
  | unknownType (register type : String)
  | zeroWidth (register : String)
  | unnamedGroup
  | markup (fault : Markup.Fault)
  | attribute (fault : Markup.AttributeFault)
  | file (path : String) (fault : Files.Fault)
  deriving DecidableEq, Repr

namespace Error

/-- Problems of the data, which loading under the lenient policy gets over. -/
def recoverable : Error → Bool
  | .literal _ | .unknownType _ _ | .zeroWidth _ => true
  | _ => false

def wire : Error → List Char
  | .literal fault => fault.wire
  | .unknownType register type =>
    "unknown register type ".toList ++ quoted type.toList ++ " for register ".toList ++
      quoted register.toList
  | .zeroWidth register =>
    "register ".toList ++ quoted register.toList ++ " has zero width".toList
  | .unnamedGroup => "register group is missing a name".toList
  | .markup fault => "malformed description: ".toList ++ fault.wire
  | .attribute fault => "malformed attribute: ".toList ++ fault.wire
  | .file path fault =>
    "failed to read ".toList ++ path.toList ++ ": ".toList ++ fault.message.toList

def causes (e : Error) : List (List Char) :=
  e.wire :: match e with
    | .markup fault => fault.causes
    | .attribute fault => [fault.wire]
    | .file _ fault => [fault.message.toList]
    | _ => []

def ofTagFault : Markup.TagFault → Error
  | .attribute fault => .attribute fault
  | .reference fault => .markup (.reference fault)

end Error

end RegMap.Description
