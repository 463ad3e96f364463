import RegMap.Markup.Event
import RegMap.Markup.Reference

set_option autoImplicit false

namespace RegMap.Markup

structure Attribute where
  key : List Char
  value : List Char
  deriving DecidableEq, Repr

inductive TagFault where
  | attribute (fault : AttributeFault)
  | reference (fault : ReferenceFault)
  deriving DecidableEq, Repr

namespace Attribute

def insideKey (c : Char) : Bool := c != '=' && !isSpace c

/-- The value in quotes at the head of the text and the text behind it, in a tag of `size` bytes
that ends with the text. -/
def readValue (size : Nat) (s : List Char) : Except AttributeFault (List Char × List Char) :=
  match s.dropWhile isSpace with
  | [] => .error (.missingValue size)
  | quote :: body =>
    if quote = '"' ∨ quote = '\'' then
      match cut? [quote] body with
      | some parts => .ok parts
      | none => .error (.unclosedQuote size quote)
    else .error (.unquotedValue (size - byteLength (quote :: body)))

structure Written where
  key : List Char
  value : List Char
  rest : List Char

/-- The attribute whose key begins with `c` and goes on in the text, whatever `c` is. `keys` holds
those before it with their positions; one that comes twice is refused before its value is read. -/
def readOne (size : Nat) (keys : List (List Char × Nat)) (c : Char) (s : List Char) :
    Except AttributeFault Written :=
  let key := c :: s.takeWhile insideKey
  match (s.dropWhile insideKey).dropWhile isSpace with
  | '=' :: behind =>
    match keys.lookup key with
    | some previous => .error (.duplicated (size - byteLength (c :: s)) previous)
    | none => do
      let parts ← readValue size behind
      return ⟨key, parts.1, parts.2⟩
  | other => .error (.expectedEquals (size - byteLength other))

theorem length_dropWhile_le {α : Type} (p : α → Bool) (s : List α) :
    (s.dropWhile p).length ≤ s.length :=
  (List.dropWhile_suffix p).length_le

theorem length_readValue {size : Nat} {s : List Char} {parts : List Char × List Char}
    (h : readValue size s = .ok parts) : parts.2.length ≤ s.length := by
  have hd := length_dropWhile_le isSpace s
  unfold readValue at h
  split at h
  · cases h
  · next heq =>
    rw [heq, List.length_cons] at hd
    split at h
    · split at h
      · next hc =>
        cases h
        have := length_cut? hc
        omega
      · cases h
    · cases h

theorem length_readOne {size : Nat} {keys : List (List Char × Nat)} {c : Char} {s : List Char}
    {w : Written} (h : readOne size keys c s = .ok w) : w.rest.length < s.length := by
  have hd := length_dropWhile_le insideKey s
  have hs := length_dropWhile_le isSpace (s.dropWhile insideKey)
  unfold readOne at h
  simp only at h
  split at h
  · next behind heq =>
    rw [heq, List.length_cons] at hs
    split at h
    · cases h
    · cases hv : readValue size behind with
      | error e => rw [hv] at h; cases h
      | ok parts =>
        rw [hv] at h
        cases h
        have := length_readValue hv
        simp only
        omega
  · cases h

/-- The attributes in the text, which is the end of a tag of `size` bytes; each value has its
references replaced before the next attribute is read. -/
def readEnd (size : Nat) (keys : List (List Char × Nat)) (s : List Char) :
    Except TagFault (List Attribute) :=
  match _hs : s.dropWhile isSpace with
  | [] => .ok []
  | c :: rest =>
    match _hw : readOne size keys c rest with
    | .error fault => .error (.attribute fault)
    | .ok w =>
      match unescape w.value with
      | .error fault => .error (.reference fault)
      | .ok value => do
        let more ← readEnd size ((w.key, size - byteLength (c :: rest)) :: keys) w.rest
        return ⟨w.key, value⟩ :: more
termination_by s.length
decreasing_by
  have h₁ := length_readOne _hw
  have h₂ := length_dropWhile_le isSpace s
  rw [_hs, List.length_cons] at h₂
  omega

end Attribute

def Tag.attributes (t : Tag) : Except TagFault (List Attribute) :=
  Attribute.readEnd (byteLength t.content) [] (t.content.dropWhile (!isSpace ·))

def valueOf (attributes : List Attribute) (key : String) : String :=
  match attributes.find? (·.key == key.toList) with
  | some a => String.ofList a.value
  | none => ""

end RegMap.Markup
