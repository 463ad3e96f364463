import RegMap.Files.Access
import RegMap.Log
import RegMap.MemoryImage.Record
import RegMap.Text.Blank
import RegMap.Text.Quoted

/-!
Intel-HEX text turned into a memory image, which has a line for each byte of each record.
-/

set_option autoImplicit false

namespace RegMap.MemoryImage

open Files Text

inductive Note where
  | notText
  | malformed (line : List Char)
  deriving DecidableEq, Repr

def Note.logLine : Note → LogLine
  | .notText => ⟨.debug, "skipping non-text line".toList⟩
  | .malformed line => ⟨.debug, "skipping malformed record ".toList ++ quoted line⟩

inductive Line where
  | record (r : Record)
  | other (note : Option Note)
  deriving DecidableEq, Repr

/-- White space at the end of a line does not count. A line that only begins like a record is worth
a note, and so is one that is not UTF-8. -/
def Line.read (bytes : Bytes) : Line :=
  match bytes.text? with
  | none => .other (some .notText)
  | some text =>
    let line := trimEnd text.toList
    match Record.read? line with
    | some r => .record r
    | none => .other (if line.head? = some ':' then some (.malformed line) else none)

def lines (input : Bytes) : List Bytes := input.splitOn 10

def MemWord.lineWire (w : MemWord) : List Char := w.wire ++ ['\n']

def Record.image (r : Record) : List Char := r.words.flatMap MemWord.lineWire

structure Conversion where
  output : List Char := []
  count : Nat := 0
  notes : List Note := []
  failure : Option Fault := none
  deriving DecidableEq, Repr

def Conversion.after (c : Conversion) (text : List Char) (count : Nat) (note : Option Note) :
    Conversion :=
  { c with output := text ++ c.output, count := count + c.count, notes := note.toList ++ c.notes }

/-- Converts lines as long as the output has room, which it has without end if no room is given;
`failure` is what happens behind the last line. -/
def convertLines (failure : Option Fault) : Option Nat → List Bytes → Conversion
  | _, [] => { failure }
  | room, bytes :: rest =>
    match Line.read bytes with
    | .other note => (convertLines failure room rest).after [] 0 note
    | .record r =>
      let image := r.image
      match room with
      | none => (convertLines failure none rest).after image r.data.length none
      | some room =>
        if image.length ≤ room then
          (convertLines failure (some (room - image.length)) rest).after image r.data.length none
        else { output := image.take room, failure := some .noRoom }

structure Input where
  bytes : Bytes
  failure : Option Fault := none
  deriving DecidableEq, Repr

/-- A line that reading fails within is lost. -/
def convert (input : Input) (room : Option Nat) : Conversion :=
  let all := lines input.bytes
  convertLines input.failure room (if input.failure.isSome then all.dropLast else all)

inductive Error where
  | opening (path : String) (fault : Fault)
  | transfer (fault : Fault)
  deriving DecidableEq, Repr

def Error.wire : Error → List Char
  | .opening path fault =>
    "failed to open ".toList ++ path.toList ++ ": ".toList ++ fault.message.toList
  | .transfer fault => fault.message.toList

def Error.causes (e : Error) : List (List Char) :=
  e.wire :: match e with
    | .opening _ fault => [fault.message.toList]
    | .transfer _ => []

structure Outcome where
  notes : List Note
  result : Except Error Nat

/-- Makes the output empty before the input is read, so a file that is both ends up empty. -/
def convertFile {m : Type → Type} [Monad m] [Access m] (input output : String) : m Outcome := do
  match ← Access.canOpen input with
  | .error fault => return ⟨[], .error (.opening input fault)⟩
  | .ok _ =>
    match ← Access.write output [] with
    | .error fault => return ⟨[], .error (.opening output fault)⟩
    | .ok _ =>
      match ← Access.read input with
      | .error fault => return ⟨[], .error (.transfer fault)⟩
      | .ok bytes =>
        let c := convert ⟨bytes, none⟩ none
        match ← Access.write output (.ofText (String.ofList c.output)) with
        | .error fault => return ⟨c.notes, .error (.transfer fault)⟩
        | .ok _ => return ⟨c.notes, .ok c.count⟩

end RegMap.MemoryImage
