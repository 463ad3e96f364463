import RegMap.Command.Arguments
import RegMap.Log
import RegMap.Text.Numeral

set_option autoImplicit false

namespace RegMap.Command

inductive Ending where
  | done (lines : List (List Char))
  | help
  | usage
  | failed (report : List Char)
  deriving DecidableEq, Repr

def Ending.code : Ending → Nat
  | .done _ | .help => 0
  | .failed _ => 1
  | .usage => 2

structure Run where
  log : List LogLine := []
  ending : Ending

def Run.ofStop (program : String) : Stop → Run
  | .help => ⟨[], .help⟩
  | .version => ⟨[], .done [program.toList ++ " 0.1.0".toList]⟩
  | .usage => ⟨[], .usage⟩

def indented (first rest : List Char) (text : List Char) : List Char :=
  first ++ text.flatMap fun c => if c = '\n' then '\n' :: rest else [c]

/-- Causes are numbered from 0, five columns wide. -/
def numbered : Nat → List (List Char) → List Char
  | _, [] => []
  | i, cause :: rest =>
    let number := Text.decimal i
    indented (List.replicate (5 - number.length) ' ' ++ number ++ ": ".toList)
      (List.replicate 7 ' ') cause ++ '\n' :: numbered (i + 1) rest

/-- What was being done, and why it could not be; a cause on its own has no number. -/
def report (context : List Char) (causes : List (List Char)) : List Char :=
  "Error: ".toList ++ context ++ "\n\nCaused by:\n".toList ++
    match causes with
    | [cause] => indented (List.replicate 4 ' ') (List.replicate 4 ' ') cause ++ ['\n']
    | causes => numbered 0 causes

end RegMap.Command
