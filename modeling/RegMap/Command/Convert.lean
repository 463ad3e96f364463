import RegMap.Command.Ending
import RegMap.MemoryImage.Convert

set_option autoImplicit false

namespace RegMap.Command

open Files MemoryImage

namespace Convert

def grammar : Grammar where
  options := ⟨"verbose", some 'v', .flag⟩ :: standardOptions
  operands := 2

structure Options where
  input : String
  output : String
  verbose : Bool := false
  deriving DecidableEq, Repr

def Options.read (arguments : List String) : Except Stop Options := do
  let a ← Arguments.read grammar arguments
  match a.operands with
  | [input, output] => return ⟨input, output, a.given "verbose"⟩
  | _ => .error .usage

def summary (o : Options) (count : Nat) : List Char :=
  "Converted ".toList ++ Text.decimal count ++ " bytes from ".toList ++ o.input.toList ++
    " to ".toList ++ o.output.toList

section

variable {m : Type → Type} [Monad m] [Access m]

def run (arguments : List String) : m Run := do
  match Options.read arguments with
  | .error stop => return .ofStop "ihex2mem" stop
  | .ok o =>
    let outcome ← convertFile o.input o.output
    let log := if o.verbose then outcome.notes.map Note.logLine else []
    match outcome.result with
    | .ok count => return ⟨log, .done [summary o count]⟩
    | .error e =>
      return ⟨log, .failed (report ("failed to convert ".toList ++ o.input.toList) e.causes)⟩

end

end Convert

end RegMap.Command
