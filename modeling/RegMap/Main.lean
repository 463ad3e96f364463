import RegMap.Command.Convert
import RegMap.Command.Generate

set_option autoImplicit false

namespace RegMap

open Files Command

def Files.Fault.ofError (e : IO.Error) : Fault :=
  match e with
  | .noFileOrDirectory .. => .notFound
  | .alreadyExists .. => .alreadyExists
  | .inappropriateType _ 20 _ => .notDirectory
  | .inappropriateType _ 21 _ => .isDirectory
  | .illegalOperation 20 _ => .notDirectory
  | .illegalOperation 21 _ => .isDirectory
  | .invalidArgument _ 36 _ => .nameTooLong
  | e => .other e.toString

def attempt {α : Type} (action : IO α) : IO (Except Fault α) := do
  match ← action.toBaseIO with
  | .ok a => return .ok a
  | .error e => return .error (.ofError e)

instance : Access IO where
  canOpen path := attempt do
    let _ ← IO.FS.Handle.mk path .read
  read path := attempt do
    let content ← IO.FS.readBinFile path
    return content.data.toList
  write path content := attempt (IO.FS.writeBinFile path ⟨content.toArray⟩)
  makeDirectory path := attempt (IO.FS.createDir path)
  isDirectory path := do
    let here ← IO.currentDir
    (here / path).isDir

def help (program operands : String) : List String :=
  [s!"Usage: {program} [OPTIONS] {operands}"]

/-- Prints what a run has to say and gives its exit code. -/
def finish (usage : List String) (run : Run) : IO UInt32 := do
  for line in run.log do
    IO.eprintln (String.ofList line.wire)
  match run.ending with
  | .done lines => for line in lines do IO.println (String.ofList line)
  | .help => for line in usage do IO.println line
  | .usage => for line in usage do IO.eprintln line
  | .failed report => IO.eprint (String.ofList report)
  return run.ending.code.toUInt32

end RegMap

open RegMap RegMap.Command in
def main (arguments : List String) : IO UInt32 := do
  match arguments with
  | "rgen" :: rest => finish (help "rgen" "<FILE>") (← Generate.run rest)
  | "ihex2mem" :: rest => finish (help "ihex2mem" "<INPUT> <OUTPUT>") (← Convert.run rest)
  | _ =>
    for line in help "rgen" "<FILE>" ++ help "ihex2mem" "<INPUT> <OUTPUT>" do
      IO.eprintln line
    return 2
