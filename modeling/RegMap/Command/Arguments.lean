set_option autoImplicit false

namespace RegMap.Command

inductive OptionKind where
  | flag
  | value
  | help
  | version
  deriving DecidableEq, Repr

structure OptionSpec where
  long : String
  short : Option Char
  kind : OptionKind
  deriving DecidableEq, Repr

structure Grammar where
  options : List OptionSpec
  operands : Nat
  deriving DecidableEq, Repr

def standardOptions : List OptionSpec :=
  [⟨"help", some 'h', .help⟩, ⟨"version", some 'V', .version⟩]

structure Arguments where
  options : List (String × Option String) := []
  operands : List String := []
  deriving DecidableEq, Repr

def Arguments.given (a : Arguments) (long : String) : Bool := (a.options.lookup long).isSome

def Arguments.value? (a : Arguments) (long : String) : Option String :=
  (a.options.lookup long).join

inductive Stop where
  | help
  | version
  | usage
  deriving DecidableEq, Repr

namespace Grammar

def long? (g : Grammar) (name : String) : Option OptionSpec := g.options.find? (·.long == name)

def short? (g : Grammar) (letter : Char) : Option OptionSpec :=
  g.options.find? (·.short == some letter)

end Grammar

namespace Arguments

/-- An option counts once, and its value is not empty. -/
def addOption (a : Arguments) (o : OptionSpec) (value : Option String) :
    Except Stop Arguments :=
  if a.given o.long ∨ value = some "" then .error .usage
  else .ok { a with options := (o.long, value) :: a.options }

def addOperand (g : Grammar) (a : Arguments) (operand : String) : Except Stop Arguments :=
  if operand = "" ∨ g.operands ≤ a.operands.length then .error .usage
  else .ok { a with operands := a.operands ++ [operand] }

def addBare (a : Arguments) (o : OptionSpec) : Except Stop Arguments :=
  match o.kind with
  | .help => .error .help
  | .version => .error .version
  | .flag => a.addOption o none
  | .value => .error .usage

def splitValue (s : List Char) : String × Option String :=
  let name := String.ofList (s.takeWhile (· != '='))
  match s.dropWhile (· != '=') with
  | [] => (name, none)
  | _ :: value => (name, some (String.ofList value))

/-- What an argument leaves behind: the arguments so far, and an option that still wants the next
argument for its value. -/
abbrev Pending := Arguments × Option OptionSpec

def addLong (g : Grammar) (a : Arguments) (s : List Char) : Except Stop Pending := do
  let (name, value) := splitValue s
  match g.long? name with
  | none => .error .usage
  | some o =>
    match o.kind, value with
    | .value, none => return (a, some o)
    | .value, some value => return (← a.addOption o (some value), none)
    | _, none => return (← a.addBare o, none)
    | _, some _ => .error .usage

/-- Letters after one dash. Behind the letter of an option with a value stands its value, with or
without an equals sign. -/
def addShort (g : Grammar) (a : Arguments) : List Char → Except Stop Pending
  | [] => .ok (a, none)
  | letter :: rest => do
    match g.short? letter with
    | none => .error .usage
    | some o =>
      match o.kind, rest with
      | .value, [] => return (a, some o)
      | .value, '=' :: value => return (← a.addOption o (some (String.ofList value)), none)
      | .value, value => return (← a.addOption o (some (String.ofList value)), none)
      | _, rest => (← a.addBare o).addShort g rest

/-- An argument where options may stand. While an option waits for its value, one that looks like
an option is not taken for it. -/
def addArgument (g : Grammar) (p : Pending) (argument : String) : Except Stop Pending :=
  match argument.toList, p with
  | '-' :: '-' :: long, (a, none) => a.addLong g long
  | '-' :: letter :: letters, (a, none) => a.addShort g (letter :: letters)
  | '-' :: _ :: _, (_, some _) => .error .usage
  | _, (a, some o) => return (← a.addOption o (some argument), none)
  | _, (a, none) => return (← a.addOperand g argument, none)

def readFrom (g : Grammar) (p : Pending) : List String → Except Stop Arguments
  | [] => if p.2.isSome ∨ p.1.operands.length < g.operands then .error .usage else .ok p.1
  | argument :: rest => do
    if argument = "--" then
      if p.2.isSome then .error .usage
      let a ← rest.foldlM (addOperand g) p.1
      if a.operands.length < g.operands then .error .usage else .ok a
    else
      let p ← addArgument g p argument
      readFrom g p rest

def read (g : Grammar) (arguments : List String) : Except Stop Arguments :=
  readFrom g ({}, none) arguments

end Arguments

end RegMap.Command
