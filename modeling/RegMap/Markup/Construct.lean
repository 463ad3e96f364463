import RegMap.Markup.Fault
import RegMap.Markup.Scan

/-!
The constructs of a marked-up text one after the other, up to the first that is faulty.
The text between them is passed over.
-/

set_option autoImplicit false

namespace RegMap.Markup

/-- What could be read, and the fault that ended it early. -/
structure Reading (α : Type) where
  items : List α
  fault : Option Fault
  deriving DecidableEq, Repr

def Reading.nil {α : Type} : Reading α := ⟨[], none⟩

def Reading.stop {α : Type} (fault : Fault) : Reading α := ⟨[], some fault⟩

def Reading.cons {α : Type} (item : α) (r : Reading α) : Reading α := ⟨item :: r.items, r.fault⟩

inductive Construct where
  | tag (content : List Char)
  /-- A comment, character data, a document type or an instruction. -/
  | aside
  deriving DecidableEq, Repr

namespace Construct

def readAside (first last : List Char) (fault : ConstructFault) (s : List Char) :
    Except Fault (Construct × List Char) :=
  match (after? first s).bind (cut? last) with
  | some (_, rest) => .ok (.aside, rest)
  | none => .error (.construct fault)

def doctypeKeyword : List Char := "DOCTYPE".toList

def readDoctype (s : List Char) : Except Fault (Construct × List Char) :=
  match cutBalanced? 0 s with
  | none => .error (.construct .unclosedDoctype)
  | some (content, rest) =>
    if (content.take doctypeKeyword.length).map Char.toUpper = doctypeKeyword then
      if (content.drop doctypeKeyword.length).all isSpace then .error (.nesting .unnamedDoctype)
      else .ok (.aside, rest)
    else .error (.construct .unclosedDoctype)

def readDeclaration (s : List Char) : Except Fault (Construct × List Char) :=
  match s with
  | '-' :: rest => readAside ['-'] "-->".toList .unclosedComment rest
  | '[' :: rest => readAside "CDATA[".toList "]]>".toList .unclosedCharacterData rest
  | 'D' :: _ | 'd' :: _ => readDoctype s
  | _ => .error (.construct .unknownMarkup)

/-- What begins with `<?`. The question mark at the start is not the one at the end as well. -/
def readInstruction (s : List Char) : Except Fault (Construct × List Char) :=
  match s with
  | '>' :: _ => .error (.construct .unclosedInstruction)
  | _ => readAside [] "?>".toList .unclosedInstruction s

def readTag (s : List Char) : Except Fault (Construct × List Char) :=
  match cutTag? none s with
  | some (content, rest) => .ok (.tag content, rest)
  | none => .error (.construct .unclosedTag)

def read (s : List Char) : Except Fault (Construct × List Char) :=
  match s with
  | '!' :: rest => readDeclaration rest
  | '?' :: rest => readInstruction rest
  | _ => readTag s

theorem length_readAside {first last s rest : List Char} {fault : ConstructFault} {c : Construct}
    (h : readAside first last fault s = .ok (c, rest)) : rest.length ≤ s.length := by
  unfold readAside at h
  split at h
  · next heq =>
    obtain ⟨behind, hb, hc⟩ := Option.bind_eq_some_iff.1 heq
    cases h
    exact Nat.le_trans (length_cut? hc) (length_after? hb)
  · cases h

theorem length_readDoctype {s rest : List Char} {c : Construct}
    (h : readDoctype s = .ok (c, rest)) : rest.length ≤ s.length := by
  unfold readDoctype at h
  split at h
  · cases h
  · next heq =>
    split at h
    · split at h
      · cases h
      · cases h
        exact length_cutBalanced? heq
    · cases h

theorem length_readDeclaration {s rest : List Char} {c : Construct}
    (h : readDeclaration s = .ok (c, rest)) : rest.length ≤ s.length := by
  unfold readDeclaration at h
  split at h
  · exact Nat.le_succ_of_le (length_readAside h)
  · exact Nat.le_succ_of_le (length_readAside h)
  · exact length_readDoctype h
  · exact length_readDoctype h
  · cases h

theorem length_readInstruction {s rest : List Char} {c : Construct}
    (h : readInstruction s = .ok (c, rest)) : rest.length ≤ s.length := by
  unfold readInstruction at h
  split at h
  · cases h
  · exact length_readAside h

theorem length_readTag {s rest : List Char} {c : Construct} (h : readTag s = .ok (c, rest)) :
    rest.length ≤ s.length := by
  unfold readTag at h
  split at h
  · next heq =>
    cases h
    exact length_cutTag? heq
  · cases h

theorem length_read {s rest : List Char} {c : Construct} (h : read s = .ok (c, rest)) :
    rest.length ≤ s.length := by
  unfold read at h
  split at h
  · exact Nat.le_succ_of_le (length_readDeclaration h)
  · exact Nat.le_succ_of_le (length_readInstruction h)
  · exact length_readTag h

end Construct

def fromMark (s : List Char) : List Char := s.dropWhile (· != '<')

theorem length_fromMark (s : List Char) : (fromMark s).length ≤ s.length :=
  (List.dropWhile_suffix _).length_le

def constructs (s : List Char) : Reading Construct :=
  match _hs : fromMark s with
  | [] => .nil
  | _ :: behind =>
    match _hr : Construct.read behind with
    | .error fault => .stop fault
    | .ok (c, rest) => (constructs rest).cons c
termination_by s.length
decreasing_by
  have h₁ := length_fromMark s
  have h₂ := Construct.length_read _hr
  rw [_hs, List.length_cons] at h₁
  omega

section

variable {s behind rest : List Char} {mark : Char} {c : Construct} {fault : Fault}

theorem constructs_of_nil (hs : fromMark s = []) : constructs s = .nil := by
  rw [constructs]
  split
  · rfl
  · next hcons => rw [hs] at hcons; cases hcons

theorem constructs_of_error (hs : fromMark s = mark :: behind)
    (hr : Construct.read behind = .error fault) : constructs s = .stop fault := by
  rw [constructs]
  split
  · next hnil => rw [hs] at hnil; cases hnil
  · next hcons =>
    rw [hs] at hcons
    cases hcons
    split
    · next hfault => rw [hr] at hfault; cases hfault; rfl
    · next hok => rw [hr] at hok; cases hok

theorem constructs_of_ok (hs : fromMark s = mark :: behind)
    (hr : Construct.read behind = .ok (c, rest)) : constructs s = (constructs rest).cons c := by
  rw [constructs]
  split
  · next hnil => rw [hs] at hnil; cases hnil
  · next hcons =>
    rw [hs] at hcons
    cases hcons
    split
    · next hfault => rw [hr] at hfault; cases hfault
    · next hok => rw [hr] at hok; cases hok; rfl

end

end RegMap.Markup
