import RegMap.Description.Error
import RegMap.Group
import RegMap.Log

set_option autoImplicit false

namespace RegMap.Description

open Text

inductive Note where
  | groupRead (name : String) (bus : Bus)
  | registerAdded (group : String) (register : Register)
  | groupNotClosed (name : String)
  | strayRegister
  /-- A problem that loading went on from. -/
  | recovered (problem : Error)
  deriving DecidableEq, Repr

def Note.logLine : Note → LogLine
  | .groupRead name bus =>
    ⟨.info, "register group ".toList ++ name.toList ++ ": base 0x".toList ++
      hexadecimal bus.baseAddress ++ ", ".toList ++ decimal bus.addressWidth ++
      "-bit address, ".toList ++ decimal bus.dataWidth ++ "-bit data, ".toList ++
      bus.mapping.requestPin.toList⟩
  | .registerAdded group register =>
    ⟨.debug, group.toList ++ ": adding ".toList ++ register.kind.wire ++ " register ".toList ++
      register.name.toList ++ " (".toList ++ decimal register.width ++ " bits)".toList⟩
  | .groupNotClosed name =>
    ⟨.warn, "register group ".toList ++ name.toList ++ " is not closed".toList⟩
  | .strayRegister => ⟨.debug, "ignoring register outside of a register group".toList⟩
  | .recovered problem => ⟨.warn, problem.wire⟩

def Note.problem? : Note → Option Error
  | .recovered problem => some problem
  | _ => none

inductive Reporter where
  | collecting
  | logging
  deriving DecidableEq, Repr

def messages (notes : List Note) : List (List Char) :=
  (notes.filterMap Note.problem?).map Error.wire

def Reporter.log (reporter : Reporter) (notes : List Note) : List LogLine :=
  match reporter with
  | .collecting => (notes.filter (·.problem?.isNone)).map Note.logLine
  | .logging => notes.map Note.logLine

structure Loading (α : Type) where
  notes : List Note
  result : Except Error α

namespace Loading

variable {α β : Type}

protected def pure (a : α) : Loading α := ⟨[], .ok a⟩

protected def bind (l : Loading α) (f : α → Loading β) : Loading β :=
  match l.result with
  | .ok a =>
    let next := f a
    ⟨l.notes ++ next.notes, next.result⟩
  | .error e => ⟨l.notes, .error e⟩

instance : Monad Loading where
  pure := Loading.pure
  bind := Loading.bind

def note (n : Note) : Loading Unit := ⟨[n], .ok ()⟩

def fail (e : Error) : Loading α := ⟨[], .error e⟩

def ofExcept (result : Except Error α) : Loading α := ⟨[], result⟩

/-- The policy decides whether a problem ends loading or is noted, the fallback taking the place of
the result. -/
def recover (policy : Policy) (fallback : α) (result : Except Error α) : Loading α :=
  match policy, result with
  | .lenient, .error e =>
    if e.recoverable then ⟨[.recovered e], .ok fallback⟩ else ⟨[], .error e⟩
  | _, result => ⟨[], result⟩

end Loading

/-- The value of a literal, or 0 for a text that is none. -/
def numberOrZero (text : String) : Loading Nat :=
  .recover .lenient 0 ((Literal.read text).mapError .literal)

end RegMap.Description
