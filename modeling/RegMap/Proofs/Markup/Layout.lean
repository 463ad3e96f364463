import Mathlib.Data.List.DropRight
import RegMap.Markup.Attribute
import RegMap.Proofs.Markup.Continued

set_option autoImplicit false

namespace RegMap.Markup

open Text

def IsGap (s : List Char) : Prop := ∀ c ∈ s, isSpace c

namespace Attribute

/-- The text behind `c` is the rest of an attribute, and what comes behind the attribute. -/
inductive LaidOne (c : Char) : Written → List Char → Prop where
  | mk {key before after raw rest : List Char} {quote : Char} (hkey : ∀ d ∈ key, insideKey d)
      (hbefore : IsGap before) (hafter : IsGap after) (hquote : quote = '"' ∨ quote = '\'')
      (hraw : quote ∉ raw) :
      LaidOne c ⟨c :: key, raw, rest⟩
        (key ++ (before ++ '=' :: (after ++ quote :: (raw ++ quote :: rest))))

/-- The text lays out the attributes. The first character of a key may be any but a space. -/
inductive Laid : List Attribute → List Char → Prop where
  | nil {gap : List Char} (hgap : IsGap gap) : Laid [] gap
  | cons {gap value s : List Char} {c : Char} {w : Written} {attributes : List Attribute}
      (hgap : IsGap gap) (hc : isSpace c = false) (hw : LaidOne c w s)
      (hvalue : unescape w.value = .ok value) (h : Laid attributes w.rest) :
      Laid (⟨w.key, value⟩ :: attributes) (gap ++ c :: s)

def Written.mended (bad : Attribute → Bool) (w : Written) : List Char :=
  match unescape w.value with
  | .ok value => if bad ⟨w.key, value⟩ then ['0'] else w.value
  | .error _ => w.value

/-- The text with `0` for the values of the bad attributes, in the same quotes, and otherwise as it
is. What cannot be read as attributes is left. -/
def mendValues (bad : Attribute → Bool) (s : List Char) : List Char :=
  match _hs : s.dropWhile isSpace with
  | [] => s
  | c :: rest =>
    match _hw : readOne 0 [] c rest with
    | .error _ => s
    | .ok w =>
      let front := s.rdrop (w.value.length + 1 + w.rest.length)
      front ++ (w.mended bad ++ (front.getLast?.toList ++ mendValues bad w.rest))
termination_by s.length
decreasing_by
  have h₁ := length_readOne _hw
  have h₂ := length_dropWhile_le isSpace s
  rw [_hs, List.length_cons] at h₂
  omega

def mend (bad : Attribute → Bool) (a : Attribute) : Attribute :=
  { a with value := if bad a then ['0'] else a.value }

end Attribute

section

variable {quote c : Char} {raw gap s rest : List Char}

theorem getLast?_append_ne {t : List Char} (hs : s.getLast? ≠ some c) (ht : t.getLast? ≠ some c) :
    (s ++ t).getLast? ≠ some c := by
  rw [List.getLast?_append]
  cases h : t.getLast? with
  | none => simpa using hs
  | some d => simpa [h] using ht

theorem getLast?_ne_of_forall {p : Char → Bool} (h : ∀ d ∈ s, p d) (hc : p c = false) :
    s.getLast? ≠ some c := by
  intro hlast
  have := h c (List.mem_of_getLast? hlast)
  rw [hc] at this
  cases this

theorem isGap_nil : IsGap [] := nofun

theorem isSpace_quote (hq : quote = '"' ∨ quote = '\'') : isSpace quote = false := by
  rcases hq with rfl | rfl <;> rfl

theorem cut?_quote_iff :
    cut? [quote] s = some (raw, rest) ↔ quote ∉ raw ∧ s = raw ++ quote :: rest := by
  constructor
  · intro h
    refine ⟨?_, eq_of_cut? h⟩
    induction s generalizing raw with
    | nil => simp [cut?, after?] at h
    | cons c s ih =>
      simp only [cut?, after?] at h
      split at h
      · cases h
        exact List.not_mem_nil
      · next hne =>
        obtain ⟨parts, hp, he⟩ := Option.map_eq_some_iff.mp h
        cases he
        have hc : quote ≠ c := by simpa using hne
        exact List.not_mem_cons_of_ne_of_not_mem hc (ih hp)
  · rintro ⟨h, rfl⟩
    induction raw with
    | nil => simp [cut?, after?]
    | cons c raw ih =>
      rw [List.mem_cons, not_or] at h
      simp [cut?, after?, h.1, ih h.2]

end

namespace Attribute

section

variable {size : Nat} {keys : List (List Char × Nat)} {c quote : Char}
  {s raw rest gap value : List Char} {w : Written} {attributes : List Attribute}
  {bad : Attribute → Bool}

theorem isGap_takeWhile (s : List Char) : IsGap (s.takeWhile isSpace) :=
  fun _ hc => List.mem_takeWhile_imp hc

theorem readValue_quoted {after : List Char} (size : Nat) (hafter : IsGap after)
    (hq : quote = '"' ∨ quote = '\'') (hraw : quote ∉ raw) :
    readValue size (after ++ quote :: (raw ++ quote :: rest)) = .ok (raw, rest) := by
  have hdrop : (after ++ quote :: (raw ++ quote :: rest)).dropWhile isSpace =
      quote :: (raw ++ quote :: rest) := dropWhile_run hafter (isSpace_quote hq)
  simp only [readValue, hdrop, if_pos hq, cut?_quote_iff.mpr ⟨hraw, rfl⟩]

theorem quoted_of_readValue (h : readValue size s = .ok (raw, rest)) :
    ∃ after quote, IsGap after ∧ (quote = '"' ∨ quote = '\'') ∧ quote ∉ raw ∧
      s = after ++ quote :: (raw ++ quote :: rest) := by
  unfold readValue at h
  split at h
  · cases h
  · next quote body hs =>
    split at h
    · next hq =>
      split at h
      · next hcut =>
        cases h
        obtain ⟨hraw, rfl⟩ := cut?_quote_iff.mp hcut
        refine ⟨s.takeWhile isSpace, quote, isGap_takeWhile s, hq, hraw, ?_⟩
        rw [← hs, List.takeWhile_append_dropWhile]
      · cases h
    · cases h

theorem readOne_eq_ok_iff :
    readOne size keys c s = .ok w ↔ LaidOne c w s ∧ keys.lookup w.key = none := by
  constructor
  · intro h
    unfold readOne at h
    simp only at h
    split at h
    · next behind hbehind =>
      split at h
      · cases h
      · next hkeys =>
        cases hv : readValue size behind with
        | error fault => rw [hv] at h; cases h
        | ok parts =>
          rw [hv] at h
          obtain rfl := Except.ok.inj h
          obtain ⟨after, quote, hafter, hq, hraw, rfl⟩ := quoted_of_readValue hv
          refine ⟨?_, hkeys⟩
          have hs : s = s.takeWhile insideKey ++
              ((s.dropWhile insideKey).takeWhile isSpace ++
                '=' :: (after ++ quote :: (parts.1 ++ quote :: parts.2))) := by
            rw [← hbehind, List.takeWhile_append_dropWhile, List.takeWhile_append_dropWhile]
          have hkey : ∀ d ∈ s.takeWhile insideKey, insideKey d := fun _ hd =>
            List.mem_takeWhile_imp hd
          have hlaid : LaidOne c ⟨c :: s.takeWhile insideKey, parts.1, parts.2⟩ _ :=
            .mk hkey (isGap_takeWhile (s.dropWhile insideKey)) hafter hq hraw
          rwa [← hs] at hlaid
    · cases h
  · rintro ⟨h, hkeys⟩
    cases h with
    | @mk key before after raw rest quote hkey hbefore hafter hq hraw =>
      let behind := after ++ quote :: (raw ++ quote :: rest)
      have hstop : ∃ d tail, before ++ '=' :: behind = d :: tail ∧ insideKey d = false := by
        cases before with
        | nil => exact ⟨'=', behind, rfl, rfl⟩
        | cons b before =>
          exact ⟨b, _, rfl, by simp [insideKey, hbefore b List.mem_cons_self]⟩
      obtain ⟨d, tail, htail, hd⟩ := hstop
      have htake : (key ++ (before ++ '=' :: behind)).takeWhile insideKey = key := by
        rw [htail, takeWhile_run hkey hd]
      have hdrop : ((key ++ (before ++ '=' :: behind)).dropWhile insideKey).dropWhile isSpace =
          '=' :: behind := by
        rw [htail, dropWhile_run hkey hd, ← htail, dropWhile_run hbefore rfl]
      have hvalue : readValue size behind = .ok (raw, rest) := readValue_quoted size hafter hq hraw
      simp only [readOne, behind, htake, hdrop, hkeys, hvalue]
      rfl

theorem readEnd_cons (hs : s.dropWhile isSpace = c :: rest) (hw : readOne size keys c rest = .ok w)
    (hv : unescape w.value = .ok value) :
    readEnd size keys s =
      (readEnd size ((w.key, size - byteLength (c :: rest)) :: keys) w.rest).map
        (⟨w.key, value⟩ :: ·) := by
  rw [readEnd]
  split
  · next hnil => rw [hs] at hnil; cases hnil
  · next hcons =>
    rw [hs] at hcons
    cases hcons
    split
    · next hfault => rw [hw] at hfault; cases hfault
    · next hok =>
      rw [hw] at hok
      cases hok
      rw [hv]
      cases readEnd size ((w.key, size - byteLength (c :: rest)) :: keys) w.rest <;> rfl

def Fresh (keys : List (List Char × Nat)) (attributes : List Attribute) : Prop :=
  (∀ a ∈ attributes, keys.lookup a.key = none) ∧ (attributes.map Attribute.key).Nodup

theorem fresh_cons {key : List Char} (position : Nat) : Fresh keys (⟨key, value⟩ :: attributes) ↔
    keys.lookup key = none ∧ Fresh ((key, position) :: keys) attributes := by
  have hlookup (a : Attribute) : ((key, position) :: keys).lookup a.key = none ↔
      a.key ≠ key ∧ keys.lookup a.key = none := by
    rw [List.lookup_cons]
    by_cases h : a.key = key
    · simp [h]
    · simp [beq_false_of_ne h, h]
  simp only [Fresh, hlookup, List.forall_mem_cons, List.map_cons, List.nodup_cons, List.mem_map,
    not_exists, not_and, forall_and]
  tauto

/-- Reading goes by the layout alone, but for keys that come twice. -/
theorem readEnd_eq_ok_iff :
    readEnd size keys s = .ok attributes ↔ Laid attributes s ∧ Fresh keys attributes := by
  constructor
  · intro h
    fun_induction readEnd size keys s generalizing attributes with
    | case1 keys s hs =>
      cases h
      exact ⟨.nil (List.dropWhile_eq_nil_iff.mp hs), nofun, .nil⟩
    | case2 => cases h
    | case3 => cases h
    | case4 keys s c rest hs w hw value hv ih =>
      cases hmore : readEnd size ((w.key, size - byteLength (c :: rest)) :: keys) w.rest with
      | error fault => rw [hmore] at h; cases h
      | ok more =>
        rw [hmore] at h
        obtain rfl := Except.ok.inj h
        obtain ⟨hlaid, hfresh⟩ := ih hmore
        obtain ⟨hone, hkey⟩ := readOne_eq_ok_iff.mp hw
        have hc : isSpace c = false := by
          have := List.head?_dropWhile_not isSpace s
          rw [hs] at this
          simpa using this
        refine ⟨?_, (fresh_cons _).mpr ⟨hkey, hfresh⟩⟩
        rw [← List.takeWhile_append_dropWhile (p := isSpace) (l := s), hs]
        exact .cons (isGap_takeWhile s) hc hone hv hlaid
  · rintro ⟨h, hfresh⟩
    induction h generalizing keys with
    | nil hgap =>
      rw [readEnd]
      split
      · rfl
      · next hcons => rw [List.dropWhile_eq_nil_iff.mpr hgap] at hcons; cases hcons
    | @cons gap value s c w attributes hgap hc hw hvalue h ih =>
      obtain ⟨hkey, hfresh⟩ := (fresh_cons (size - byteLength (c :: s))).mp hfresh
      have hone : readOne size keys c s = .ok w := readOne_eq_ok_iff.mpr ⟨hw, hkey⟩
      rw [readEnd_cons (dropWhile_run hgap hc) hone hvalue, ih hfresh]
      rfl

theorem mendValues_gap (hgap : IsGap s) : mendValues bad s = s := by
  rw [mendValues]
  split
  · rfl
  · next hcons => rw [List.dropWhile_eq_nil_iff.mpr hgap] at hcons; cases hcons

theorem mendValues_of_ok {front : List Char} (hs : s.dropWhile isSpace = c :: rest)
    (hw : readOne 0 [] c rest = .ok w)
    (hfront : s = front ++ quote :: (w.value ++ quote :: w.rest)) :
    mendValues bad s = front ++ quote :: (w.mended bad ++ quote :: mendValues bad w.rest) := by
  have hrdrop : s.rdrop (w.value.length + 1 + w.rest.length) = front ++ [quote] := by
    have hlength : w.value.length + 1 + w.rest.length = (w.value ++ quote :: w.rest).length := by
      simp only [List.length_append, List.length_cons]
      omega
    rw [hfront, List.append_cons, hlength, List.rdrop_append_length]
  rw [mendValues]
  split
  · next hnil => rw [hs] at hnil; cases hnil
  · next hcons =>
    rw [hs] at hcons
    cases hcons
    split
    · next hfault => rw [hw] at hfault; cases hfault
    · next hok =>
      rw [hw] at hok
      cases hok
      simp [hrdrop]

theorem mendValues_cons {key before after : List Char} (hgap : IsGap gap) (hc : isSpace c = false)
    (hkey : ∀ d ∈ key, insideKey d) (hbefore : IsGap before) (hafter : IsGap after)
    (hq : quote = '"' ∨ quote = '\'') (hraw : quote ∉ raw) :
    mendValues bad
        (gap ++ c :: (key ++ (before ++ '=' :: (after ++ quote :: (raw ++ quote :: rest))))) =
      gap ++ c :: (key ++ (before ++ '=' :: (after ++ quote ::
        (Written.mended bad ⟨c :: key, raw, rest⟩ ++ quote :: mendValues bad rest)))) := by
  have hlaid : LaidOne c ⟨c :: key, raw, rest⟩ _ := .mk hkey hbefore hafter hq hraw
  have hone : readOne 0 [] c _ = .ok _ := readOne_eq_ok_iff.mpr ⟨hlaid, List.lookup_nil⟩
  have hfront : gap ++ c :: (key ++ (before ++ '=' :: (after ++ quote :: (raw ++ quote :: rest)))) =
      (gap ++ c :: (key ++ (before ++ '=' :: after))) ++ quote :: (raw ++ quote :: rest) := by simp
  rw [mendValues_of_ok (dropWhile_run hgap hc) hone hfront]
  simp

theorem unescape_zero : unescape ['0'] = .ok ['0'] := by
  rw [unescape, unescapeEnd, if_neg (by decide), unescapeEnd]
  rfl

theorem mended_eq {value : List Char} (hvalue : unescape w.value = .ok value) :
    w.mended bad = if bad ⟨w.key, value⟩ then ['0'] else w.value := by
  rw [Written.mended, hvalue]

theorem unescape_mended (hvalue : unescape w.value = .ok value) :
    unescape (w.mended bad) = .ok (mend bad ⟨w.key, value⟩).value := by
  rw [mended_eq hvalue, mend]
  split
  · exact unescape_zero
  · exact hvalue

theorem quote_not_mem_mended (hq : quote = '"' ∨ quote = '\'') (hraw : quote ∉ w.value) :
    quote ∉ w.mended bad := by
  unfold Written.mended
  split
  · split
    · rcases hq with rfl | rfl <;> decide
    · exact hraw
  · exact hraw

theorem Laid.mended (h : Laid attributes s) :
    Laid (attributes.map (mend bad)) (mendValues bad s) := by
  induction h with
  | nil hgap =>
    rw [mendValues_gap hgap]
    exact .nil hgap
  | @cons gap value s c w attributes hgap hc hw hvalue h ih =>
    cases hw with
    | @mk key before after raw rest quote hkey hbefore hafter hq hraw =>
      rw [mendValues_cons hgap hc hkey hbefore hafter hq hraw]
      let w : Written := ⟨c :: key, raw, rest⟩
      have hmended : quote ∉ w.mended bad := quote_not_mem_mended hq hraw
      have hone : LaidOne c ⟨c :: key, w.mended bad, mendValues bad rest⟩ _ :=
        .mk hkey hbefore hafter hq hmended
      exact .cons hgap hc hone (unescape_mended hvalue) ih

/-- Without a bad value the text stays as it is. -/
theorem mendValues_of_good (h : Laid attributes s) (hgood : ∀ a ∈ attributes, bad a = false) :
    mendValues bad s = s := by
  induction h with
  | nil hgap => exact mendValues_gap hgap
  | @cons gap value s c w attributes hgap hc hw hvalue h ih =>
    obtain ⟨hfirst, hmore⟩ := List.forall_mem_cons.mp hgood
    have hsame : w.mended bad = w.value := by
      rw [mended_eq hvalue, hfirst, if_neg Bool.false_ne_true]
    cases hw with
    | mk hkey hbefore hafter hq hraw =>
      rw [mendValues_cons hgap hc hkey hbefore hafter hq hraw, hsame, ih hmore]

theorem head?_mendValues (h : Laid attributes s) : (mendValues bad s).head? = s.head? := by
  cases h with
  | nil hgap => rw [mendValues_gap hgap]
  | cons hgap hc hw =>
    cases hw with
    | mk hkey hbefore hafter hq hraw =>
      rw [mendValues_cons hgap hc hkey hbefore hafter hq hraw]
      simp

theorem Laid.getLast?_ne (h : Laid attributes s) : s.getLast? ≠ some '/' := by
  induction h with
  | nil hgap => exact getLast?_ne_of_forall hgap rfl
  | @cons gap value s c w attributes hgap hc hw hvalue h ih =>
    cases hw with
    | @mk key before after raw rest quote hkey hbefore hafter hq hraw =>
      -- the last value ends in its quote; behind it comes what the induction speaks of
      let front := gap ++ c :: (key ++ (before ++ '=' :: (after ++ quote :: (raw ++ [quote]))))
      have hfront : front.getLast? ≠ some '/' := by
        rcases hq with rfl | rfl <;> simp [front, List.getLast?_append, List.getLast?_cons]
      have hall := getLast?_append_ne hfront ih
      simpa [front] using hall

end

end Attribute

end RegMap.Markup
