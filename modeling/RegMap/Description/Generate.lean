import RegMap.Description.Load
import RegMap.Files.Access
import RegMap.Group.Logic

set_option autoImplicit false

namespace RegMap

structure GeneratedFile where
  name : String
  contents : List Char
  deriving DecidableEq, Repr

def RegisterGroup.file (g : RegisterGroup) : GeneratedFile := ⟨g.fileName, g.wire⟩

namespace Description

def generate (settings : Settings) (text : List Char) : Loading (List GeneratedFile) := do
  let groups ← load settings text
  return groups.map RegisterGroup.file

def generateFile {m : Type → Type} [Monad m] [Files.Access m] (settings : Settings)
    (path : String) : m (Loading (List GeneratedFile)) := do
  match ← Files.readText path with
  | .ok text => return generate settings text.toList
  | .error fault => return .fail (.file path fault)

end Description

end RegMap
