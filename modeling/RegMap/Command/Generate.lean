import RegMap.Command.Ending
import RegMap.Description.Generate

set_option autoImplicit false

namespace RegMap.Command

open Description Files

namespace Generate

def grammar : Grammar where
  options :=
    [⟨"strict", none, .flag⟩, ⟨"out-dir", some 'o', .value⟩, ⟨"verbose", some 'v', .flag⟩] ++
      standardOptions
  operands := 1

structure Options where
  description : String
  strict : Bool := false
  outDir : String := "."
  verbose : Bool := false
  deriving DecidableEq, Repr

def Options.read (arguments : List String) : Except Stop Options := do
  let a ← Arguments.read grammar arguments
  match a.operands with
  | [description] =>
    return ⟨description, a.given "strict", (a.value? "out-dir").getD ".", a.given "verbose"⟩
  | _ => .error .usage

def Options.settings (o : Options) : Settings := if o.strict then Settings.strict {} else {}

def header (description : String) : List Char :=
  "// Generated by rgen from ".toList ++ description.toList ++ ". Do not edit.\n\n".toList

def contents (description : String) (file : GeneratedFile) : String :=
  String.ofList (header description ++ file.contents)

section

variable {m : Type → Type} [Monad m] [Access m]

/-- Writes the files in turn. The first that cannot be written ends this, and those before it
stay. -/
def writeFiles (description directory : String) : List GeneratedFile → m Run
  | [] => return ⟨[], .done []⟩
  | file :: rest => do
    let path := join directory file.name
    match ← Access.write path (.ofText (contents description file)) with
    | .error fault =>
      return ⟨[], .failed
        (report ("failed to write ".toList ++ path.toList) [fault.message.toList])⟩
    | .ok _ =>
      let run ← writeFiles description directory rest
      return ⟨⟨.info, "wrote ".toList ++ path.toList⟩ :: run.log, run.ending⟩

def runOptions (o : Options) : m Run := do
  let loading ← generateFile o.settings o.description
  let log := Reporter.logging.log loading.notes
  match loading.result with
  | .error e =>
    return ⟨log, .failed (report ("failed to generate ".toList ++ o.description.toList) e.causes)⟩
  | .ok [] =>
    return ⟨log ++ [⟨.warn, "no register groups in ".toList ++ o.description.toList⟩], .done []⟩
  | .ok files =>
    match ← makeDirectories o.outDir with
    | .error fault =>
      return ⟨log, .failed
        (report ("failed to create ".toList ++ o.outDir.toList) [fault.message.toList])⟩
    | .ok _ =>
      let run ← writeFiles o.description o.outDir files
      return ⟨log ++ run.log, run.ending⟩

/-- Without `--verbose` the log leaves out what is only of use in finding faults. -/
def run (arguments : List String) : m Run := do
  match Options.read arguments with
  | .error stop => return .ofStop "rgen" stop
  | .ok o =>
    let r ← runOptions o
    return ⟨if o.verbose then r.log else r.log.filter (·.level != .debug), r.ending⟩

end

end Generate

end RegMap.Command
