set_option autoImplicit false

namespace RegMap

inductive LogLevel where
  | info | debug | warn
  deriving DecidableEq, Repr

def LogLevel.name : LogLevel → String
  | .info => "INFO"
  | .debug => "DEBUG"
  | .warn => "WARN"

structure LogLine where
  level : LogLevel
  text : List Char
  deriving DecidableEq, Repr

def LogLine.wire (l : LogLine) : List Char := l.level.name.toList ++ ' ' :: l.text

end RegMap
