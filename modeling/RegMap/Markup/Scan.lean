set_option autoImplicit false

namespace RegMap.Markup

def isSpace (c : Char) : Bool := c == ' ' || c == '\t' || c == '\n' || c == '\r'

/-- What follows the mark in a text that begins with it. -/
def after? : List Char → List Char → Option (List Char)
  | [], s => some s
  | _ :: _, [] => none
  | m :: mark, c :: s => if m = c then after? mark s else none

def cut? (mark : List Char) : List Char → Option (List Char × List Char)
  | [] => (after? mark []).map fun rest => ([], rest)
  | c :: s =>
    match after? mark (c :: s) with
    | some rest => some ([], rest)
    | none => (cut? mark s).map fun parts => (c :: parts.1, parts.2)

/-- The text in front of the first `>` that is not quoted, and the text behind it; `quote` is the
quote that is open at the start. -/
def cutTag? : Option Char → List Char → Option (List Char × List Char)
  | _, [] => none
  | some quote, c :: s =>
    (cutTag? (if c = quote then none else some quote) s).map fun parts => (c :: parts.1, parts.2)
  | none, c :: s =>
    if c = '>' then some ([], s)
    else
      (cutTag? (if c = '"' ∨ c = '\'' then some c else none) s).map fun parts =>
        (c :: parts.1, parts.2)

/-- The text in front of the `>` that closes `depth` more `<` than are in it, and the text
behind it. -/
def cutBalanced? : Nat → List Char → Option (List Char × List Char)
  | _, [] => none
  | depth, c :: s =>
    if c = '>' then
      match depth with
      | 0 => some ([], s)
      | depth + 1 => (cutBalanced? depth s).map fun parts => (c :: parts.1, parts.2)
    else
      (cutBalanced? (if c = '<' then depth + 1 else depth) s).map fun parts =>
        (c :: parts.1, parts.2)

theorem length_after? {mark s rest : List Char} (h : after? mark s = some rest) :
    rest.length ≤ s.length := by
  fun_induction after? mark s with
  | case1 => cases h; exact Nat.le_refl _
  | case2 => cases h
  | case3 _ _ _ ih => exact Nat.le_succ_of_le (ih h)
  | case4 => cases h

theorem length_cut? {mark s before rest : List Char} (h : cut? mark s = some (before, rest)) :
    rest.length ≤ s.length := by
  induction s generalizing before with
  | nil =>
    obtain ⟨_, ha, he⟩ := Option.map_eq_some_iff.1 h
    cases he
    exact length_after? ha
  | cons c s ih =>
    simp only [cut?] at h
    split at h
    · next ha =>
      cases h
      exact length_after? ha
    · obtain ⟨parts, hp, he⟩ := Option.map_eq_some_iff.1 h
      cases he
      exact Nat.le_succ_of_le (ih hp)

theorem length_cutTag? {quote : Option Char} {s before rest : List Char}
    (h : cutTag? quote s = some (before, rest)) : rest.length ≤ s.length := by
  fun_induction cutTag? quote s generalizing before with
  | case1 => simp at h
  | case2 quote c s ih =>
    obtain ⟨parts, hp, he⟩ := Option.map_eq_some_iff.1 h
    cases he
    exact Nat.le_succ_of_le (ih hp)
  | case3 s =>
    cases h
    exact Nat.le_succ _
  | case4 c s hc ih =>
    obtain ⟨parts, hp, he⟩ := Option.map_eq_some_iff.1 h
    cases he
    exact Nat.le_succ_of_le (ih hp)

theorem length_cutBalanced? {depth : Nat} {s before rest : List Char}
    (h : cutBalanced? depth s = some (before, rest)) : rest.length ≤ s.length := by
  fun_induction cutBalanced? depth s generalizing before with
  | case1 => simp at h
  | case2 => cases h; exact Nat.le_succ _
  | case3 _ _ ih =>
    obtain ⟨parts, hp, he⟩ := Option.map_eq_some_iff.1 h
    cases he
    exact Nat.le_succ_of_le (ih hp)
  | case4 _ _ _ _ ih =>
    obtain ⟨parts, hp, he⟩ := Option.map_eq_some_iff.1 h
    cases he
    exact Nat.le_succ_of_le (ih hp)

end RegMap.Markup
