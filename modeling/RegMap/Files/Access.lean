import RegMap.Files.Fault

/-!
What the programs do with files, so that their logic can be stated without saying where the files
are.
-/

set_option autoImplicit false

namespace RegMap.Files

abbrev Bytes := List UInt8

def Bytes.text? (b : Bytes) : Option String := String.fromUTF8? ⟨b.toArray⟩

def Bytes.ofText (s : String) : Bytes := s.toUTF8.data.toList

class Access (m : Type → Type) where
  /-- Opening for reading, without reading; a directory can be opened. -/
  canOpen : String → m (Except Fault Unit)
  read : String → m (Except Fault Bytes)
  /-- Gives the file this content, whether it is there already or not. -/
  write : String → Bytes → m (Except Fault Unit)
  makeDirectory : String → m (Except Fault Unit)
  isDirectory : String → m Bool

def isAbsolute (path : String) : Bool := path.toList.head? == some '/'

def names (path : String) : List String := (path.toList.splitOn '/').map String.ofList

/-- The path above another, as the names on its way, backwards. A single dot leads nowhere. -/
def above (path : String) : List String :=
  ((names path).filter fun name => name != "" && name != ".").dropLast.reverse

def ofNames (absolute : Bool) (names : List String) : String :=
  (if absolute then "/" else "") ++ "/".intercalate names

/-- The path of a name seen from a directory; a name that starts at the root stays as it is. -/
def join (directory name : String) : String :=
  if isAbsolute name then name
  else if directory.toList.getLast? = some '/' then directory ++ name
  else directory ++ "/" ++ name

section

variable {m : Type → Type} [Monad m] [Access m]

def readText (path : String) : m (Except Fault String) := do
  match ← Access.read path with
  | .error fault => return .error fault
  | .ok bytes =>
    match bytes.text? with
    | some text => return .ok text
    | none => return .error .notText

/-- A directory that cannot be made is as good as made if it is there. -/
def settle (path : String) : Except Fault Unit → m (Except Fault Unit)
  | .ok _ => return .ok ()
  | .error fault => do
    if ← Access.isDirectory path then return .ok () else return .error fault

/-- Makes the directory at the path. If that fails because the way to it is missing, the one at the
end of `outer`, which is given backwards, is made first. -/
def makeFrom (absolute : Bool) : List String → String → m (Except Fault Unit)
  | [], path => do settle path (← Access.makeDirectory path)
  | name :: outer, path => do
    match ← Access.makeDirectory path with
    | .error .notFound =>
      match ← makeFrom absolute outer (ofNames absolute (name :: outer).reverse) with
      | .error fault => return .error fault
      | .ok _ => settle path (← Access.makeDirectory path)
    | result => settle path result

/-- Makes a directory and those that lead to it, where they are missing. What was made stays also
when a later one fails. -/
def makeDirectories (path : String) : m (Except Fault Unit) :=
  makeFrom (isAbsolute path) (above path) path

end

end RegMap.Files
