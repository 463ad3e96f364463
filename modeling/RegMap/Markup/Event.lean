import RegMap.Markup.Construct

/-!
Tags in document order, each end tag checked against the element that it closes. Elements that
are still open at the end of the text are no fault.
-/

set_option autoImplicit false

namespace RegMap.Markup

structure Tag where
  content : List Char
  deriving DecidableEq, Repr

def Tag.name (t : Tag) : List Char := t.content.takeWhile (!isSpace ·)

inductive Event where
  | start (tag : Tag)
  | empty (tag : Tag)
  | close (name : List Char)
  deriving DecidableEq, Repr

/-- The name in an end tag goes up to the white space at its end, unless there is nothing else. -/
def endName (s : List Char) : List Char :=
  let name := (s.reverse.dropWhile isSpace).reverse
  if name.isEmpty then s else name

def Event.ofContent : List Char → Event
  | '/' :: name => .close (endName name)
  | content =>
    if content.getLast? = some '/' then .empty ⟨content.dropLast⟩ else .start ⟨content⟩

/-- The names of the elements that are open, innermost first, after an event that fits them. -/
def Event.nest (opened : List (List Char)) : Event → Except NestingFault (List (List Char))
  | .start tag => .ok (tag.name :: opened)
  | .empty _ => .ok opened
  | .close name =>
    match opened with
    | [] => .error (.unmatchedEnd (String.ofList name))
    | innermost :: outer =>
      if name = innermost then .ok outer
      else .error (.mismatchedEnd (String.ofList innermost) (String.ofList name))

/-- The events of the constructs up to the first end tag that does not fit, where `opened` are
the elements open at the start. -/
def nested (opened : List (List Char)) (fault : Option Fault) : List Construct → Reading Event
  | [] => ⟨[], fault⟩
  | .aside :: rest => nested opened fault rest
  | .tag content :: rest =>
    match (Event.ofContent content).nest opened with
    | .error f => .stop (.nesting f)
    | .ok opened => (nested opened fault rest).cons (.ofContent content)

def events (s : List Char) : Reading Event :=
  let r := constructs s
  nested [] r.fault r.items

end RegMap.Markup
