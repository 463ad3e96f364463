import RegMap.Files.Access

/-!
A tree of directories and files, and the paths in it. Nothing is linked, so a path leads to one
place only.
-/

set_option autoImplicit false

namespace RegMap.Files

inductive Node where
  | directory
  | file (content : Bytes)
  deriving DecidableEq, Repr

abbrev Location := List String

structure Tree where
  /-- What is where; the root itself is not listed. -/
  nodes : List (Location × Node) := []
  /-- Where paths start that do not start at the root. -/
  current : Location := []
  deriving DecidableEq, Repr

namespace Tree

def node? (t : Tree) (l : Location) : Option Node :=
  if l = [] then some .directory else t.nodes.lookup l

def put (t : Tree) (l : Location) (n : Node) : Tree :=
  { t with nodes := (l, n) :: t.nodes.filter (·.1 != l) }

def content? (t : Tree) (l : Location) : Option Bytes :=
  match t.node? l with
  | some (.file content) => some content
  | _ => none

def maxNameBytes : Nat := 255

def maxPathBytes : Nat := 4095

/-- Follows names from a place. Each name, also the empty one and the dots, needs a directory to
be looked up in; the last may lead to nothing. -/
def walk (t : Tree) (l : Location) : List String → Except Fault Location
  | [] => .ok l
  | name :: rest =>
    match t.node? l with
    | none => .error .notFound
    | some (.file _) => .error .notDirectory
    | some .directory =>
      if name = "" ∨ name = "." then t.walk l rest
      else if name = ".." then t.walk l.dropLast rest
      else if maxNameBytes < name.utf8ByteSize then .error .nameTooLong
      else t.walk (l ++ [name]) rest

def start (t : Tree) (path : String) : Location := if isAbsolute path then [] else t.current

def checkPath (path : String) : Except Fault Unit :=
  if '\x00' ∈ path.toList then .error .nulInName
  else if maxPathBytes < path.utf8ByteSize then .error .nameTooLong
  else if path = "" then .error .notFound
  else .ok ()

def locate (t : Tree) (path : String) : Except Fault Location := do
  checkPath path
  t.walk (t.start path) (names path)

def read (t : Tree) (path : String) : Except Fault Bytes := do
  match t.node? (← t.locate path) with
  | some (.file content) => .ok content
  | some .directory => .error .isDirectory
  | none => .error .notFound

def canOpen (t : Tree) (path : String) : Except Fault Unit := do
  match t.node? (← t.locate path) with
  | some _ => .ok ()
  | none => .error .notFound

/-- The place of a file that is to be written. A path that ends in a slash means a directory, so
its last name, whatever it is, is not looked up, but there is a directory to look it up in. -/
def target (t : Tree) (path : String) : Except Fault Location := do
  checkPath path
  if path.toList.getLast? = some '/' then
    let _ ← t.walk (t.start path) (((names path).filter (· != "")).dropLast ++ ["."])
    .error .isDirectory
  else
    let l ← t.locate path
    match t.node? l with
    | some .directory => .error .isDirectory
    | _ => .ok l

def write (t : Tree) (path : String) (content : Bytes) : Except Fault Tree := do
  return t.put (← t.target path) (.file content)

def makeDirectory (t : Tree) (path : String) : Except Fault Tree := do
  checkPath path
  let l ← t.walk (t.start path) ((names path).filter (· != ""))
  match t.node? l with
  | some _ => .error .alreadyExists
  | none => .ok (t.put l .directory)

def isDirectory (t : Tree) (path : String) : Bool :=
  match t.locate path with
  | .ok l => t.node? l == some .directory
  | .error _ => false

def files (t : Tree) : List (Location × Bytes) :=
  t.nodes.filterMap fun
    | (l, .file content) => some (l, content)
    | (_, .directory) => none

/-- The tree with a file, and the directories that lead to it, at a place. -/
def withFile (t : Tree) (l : Location) (content : Bytes) : Tree :=
  let above := (List.range l.length).map l.take
  (above.foldl (fun t l => if (t.node? l).isNone then t.put l .directory else t) t).put l
    (.file content)

end Tree

def update (operation : Tree → Except Fault Tree) : StateM Tree (Except Fault Unit) := fun t =>
  match operation t with
  | .ok t => (.ok (), t)
  | .error fault => (.error fault, t)

instance : Access (StateM Tree) where
  canOpen path := fun t => (t.canOpen path, t)
  read path := fun t => (t.read path, t)
  write path content := update (·.write path content)
  makeDirectory path := update (·.makeDirectory path)
  isDirectory path := fun t => (t.isDirectory path, t)

end RegMap.Files
