import RegMap.Proofs.Markup.Layout

/-!
Attributes as they may be written in a tag: values in quotes of either kind, with references for
characters that need one and for others that do not, and white space wherever it is free. Reading
such a text gives the attributes back.
-/

set_option autoImplicit false

namespace RegMap.Markup

open Text

inductive Predefined : Char → String → Prop where
  | lt : Predefined '<' "lt"
  | gt : Predefined '>' "gt"
  | amp : Predefined '&' "amp"
  | apos : Predefined '\'' "apos"
  | quot : Predefined '"' "quot"

inductive Escaped (quote : Char) : List Char → List Char → Prop where
  | nil : Escaped quote [] []
  | plain {c : Char} {value text : List Char} (hc : c ≠ '&') (hq : c ≠ quote)
      (h : Escaped quote value text) : Escaped quote (c :: value) (c :: text)
  | reference {c : Char} {name : String} {value text : List Char} (hc : Predefined c name)
      (h : Escaped quote value text) :
      Escaped quote (c :: value) ('&' :: name.toList ++ ';' :: text)

def isNameChar (c : Char) : Bool := c.isAlphanum || c == '_'

def IsName (s : List Char) : Prop := s ≠ [] ∧ s.all isNameChar

instance (s : List Char) : Decidable (IsName s) := inferInstanceAs (Decidable (_ ∧ _))

inductive Spelled : List Attribute → List Char → Prop where
  | nil {gap : List Char} (hgap : IsGap gap) : Spelled [] gap
  | cons {gap key before after value raw text : List Char} {quote : Char}
      {attributes : List Attribute} (hne : gap ≠ []) (hgap : IsGap gap) (hkey : IsName key)
      (hbefore : IsGap before) (hafter : IsGap after) (hquote : quote = '"' ∨ quote = '\'')
      (hraw : Escaped quote value raw) (h : Spelled attributes text) :
      Spelled (⟨key, value⟩ :: attributes)
        (gap ++ (key ++ (before ++ '=' :: (after ++ quote :: (raw ++ quote :: text)))))

section

variable {quote c : Char} {name : String} {value raw text key gap s rest : List Char}
  {attributes : List Attribute}

theorem Predefined.inside (h : Predefined c name) : ∀ d ∈ name.toList, insideReference d := by
  have hall : name.toList.all insideReference := by cases h <;> decide
  exact List.all_eq_true.mp hall

theorem Predefined.referenced (h : Predefined c name) (start stop : Nat) :
    referenced start stop name.toList = .ok c := by
  cases h <;> rfl

theorem unescapeEnd_plain (size : Nat) (hc : c ≠ '&') :
    unescapeEnd size (c :: text) = (unescapeEnd size text).map (c :: ·) := by
  rw [unescapeEnd, if_neg hc]
  cases unescapeEnd size text <;> rfl

theorem unescapeEnd_reference (size : Nat) {name : List Char}
    (hname : ∀ c ∈ name, insideReference c)
    (hc : ∀ start stop, referenced start stop name = .ok c) :
    unescapeEnd size ('&' :: name ++ ';' :: text) = (unescapeEnd size text).map (c :: ·) := by
  have hdrop : (name ++ ';' :: text).dropWhile insideReference = ';' :: text :=
    dropWhile_run hname rfl
  have htake : (name ++ ';' :: text).takeWhile insideReference = name := takeWhile_run hname rfl
  rw [List.cons_append, unescapeEnd, if_pos rfl]
  split
  · next behind hr =>
    rw [hdrop] at hr
    cases hr
    rw [htake, hc]
    cases unescapeEnd size text <;> rfl
  · next hne => exact absurd hdrop (hne _)

theorem Escaped.unescapeEnd (h : Escaped quote value text) (size : Nat) :
    unescapeEnd size text = .ok value := by
  induction h with
  | nil => rw [Markup.unescapeEnd]
  | plain hc hq h ih => rw [unescapeEnd_plain size hc, ih]; rfl
  | reference hc h ih => rw [unescapeEnd_reference size hc.inside hc.referenced, ih]; rfl

theorem Escaped.unescape (h : Escaped quote value text) : unescape text = .ok value :=
  h.unescapeEnd _

theorem Predefined.no_quote (h : Predefined c name) (hq : quote = '"' ∨ quote = '\'') :
    quote ∉ '&' :: name.toList ++ [';'] := by
  rcases hq with rfl | rfl <;> cases h <;> decide

theorem Escaped.quote_not_mem (h : Escaped quote value text) (hq : quote = '"' ∨ quote = '\'') :
    quote ∉ text := by
  induction h with
  | nil => simp
  | plain hc hne h ih => simp [ih, Ne.symm hne]
  | reference hc h ih =>
    have hreference := hc.no_quote hq
    simp only [List.cons_append, List.mem_cons, List.mem_append, not_or] at hreference ⊢
    simp [hreference, ih]

theorem ne_of_isNameChar {d : Char} (h : isNameChar c) (hd : isNameChar d = false) : c ≠ d := by
  rintro rfl
  rw [h] at hd
  cases hd

theorem IsName.forall_mem (h : IsName s) : ∀ c ∈ s, isNameChar c := List.all_eq_true.mp h.2

theorem IsName.exists_cons (h : IsName s) : ∃ c rest, s = c :: rest ∧ isNameChar c := by
  obtain ⟨c, rest, rfl⟩ := List.exists_cons_of_ne_nil h.1
  exact ⟨c, rest, rfl, h.forall_mem c List.mem_cons_self⟩

theorem isSpace_of_isNameChar (h : isNameChar c) : isSpace c = false := by
  simp [isSpace, ne_of_isNameChar h (d := ' ') rfl, ne_of_isNameChar h (d := '\t') rfl,
    ne_of_isNameChar h (d := '\n') rfl, ne_of_isNameChar h (d := '\r') rfl]

theorem insideKey_of_isNameChar (h : isNameChar c) : Attribute.insideKey c := by
  simp [Attribute.insideKey, isSpace_of_isNameChar h, ne_of_isNameChar h (d := '=') rfl]

theorem Spelled.laid (h : Spelled attributes text) : Attribute.Laid attributes text := by
  induction h with
  | nil hgap => exact .nil hgap
  | @cons gap key before after value raw text quote attributes hne hgap hkey hbefore hafter hq
      hraw h ih =>
    -- the first character of a key is taken whatever it is, so the key is split there
    have hname := hkey.forall_mem
    obtain ⟨c, key, rfl, hc⟩ := hkey.exists_cons
    have hinside : ∀ d ∈ key, Attribute.insideKey d := fun d hd =>
      insideKey_of_isNameChar (hname d (List.mem_cons_of_mem c hd))
    have hone : Attribute.LaidOne c ⟨c :: key, raw, text⟩ _ :=
      .mk hinside hbefore hafter hq (hraw.quote_not_mem hq)
    exact .cons hgap (isSpace_of_isNameChar hc) hone hraw.unescape ih

theorem Spelled.names (h : Spelled attributes text) : ∀ a ∈ attributes, IsName a.key := by
  induction h with
  | nil hgap => exact nofun
  | cons hne hgap hkey hbefore hafter hq hraw h ih => exact List.forall_mem_cons.mpr ⟨hkey, ih⟩

def escapedChar (c : Char) : List Char :=
  if c = '<' then "&lt;".toList
  else if c = '>' then "&gt;".toList
  else if c = '&' then "&amp;".toList
  else if c = '\'' then "&apos;".toList
  else if c = '"' then "&quot;".toList
  else [c]

def escape (value : List Char) : List Char := value.flatMap escapedChar

def Attribute.write (a : Attribute) : List Char :=
  ' ' :: a.key ++ "=\"".toList ++ escape a.value ++ ['"']

def writeAttributes (attributes : List Attribute) : List Char := attributes.flatMap Attribute.write

theorem escaped_escape (value : List Char) : Escaped '"' value (escape value) := by
  induction value with
  | nil => exact .nil
  | cons c value ih =>
    rw [escape, List.flatMap_cons, ← escape, escapedChar]
    split_ifs with hlt hgt hamp hapos hquot
    · exact hlt ▸ .reference .lt ih
    · exact hgt ▸ .reference .gt ih
    · exact hamp ▸ .reference .amp ih
    · exact hapos ▸ .reference .apos ih
    · exact hquot ▸ .reference .quot ih
    · exact .plain hamp hquot ih

theorem spelled_writeAttributes (h : ∀ key ∈ attributes.map Attribute.key, IsName key) :
    Spelled attributes (writeAttributes attributes) := by
  induction attributes with
  | nil => exact .nil isGap_nil
  | cons a attributes ih =>
    obtain ⟨hkey, hrest⟩ := List.forall_mem_cons.mp h
    have hgap : IsGap [' '] := by simp [IsGap, isSpace]
    have hall := Spelled.cons (List.cons_ne_nil _ _) hgap hkey isGap_nil isGap_nil (.inl rfl)
      (escaped_escape a.value) (ih hrest)
    simpa [writeAttributes, Attribute.write] using hall

end

end RegMap.Markup
