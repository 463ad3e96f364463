import Mathlib.Data.List.DropRight
import Mathlib.Data.List.Induction
import Mathlib.Data.List.TakeWhile
import Mathlib.Tactic.Ring
import RegMap.Text.Blank
import RegMap.Text.Numeral

set_option autoImplicit false

namespace RegMap.Text

section

variable {p : Char → Bool} {c : Char} {run rest : List Char}

theorem takeWhile_run (hrun : ∀ c ∈ run, p c) (hc : p c = false) :
    (run ++ c :: rest).takeWhile p = run := by
  rw [List.takeWhile_append_of_pos hrun]
  simp [hc]

theorem dropWhile_run (hrun : ∀ c ∈ run, p c) (hc : p c = false) :
    (run ++ c :: rest).dropWhile p = c :: rest := by
  rw [List.dropWhile_append_of_pos hrun]
  simp [hc]

end

/-- The character is the digit `d` of the radix; a letter may be large. -/
def IsDigit (radix d : Nat) (c : Char) : Prop :=
  d < radix ∧ (c = Nat.digitChar d ∨ c = (Nat.digitChar d).toUpper)

/-- The digits, most significant first, are a number in the radix. -/
inductive Denotes (radix : Nat) : List Char → Nat → Prop where
  | one {c : Char} {d : Nat} (h : IsDigit radix d c) : Denotes radix [c] d
  | snoc {digits : List Char} {c : Char} {n d : Nat} (hn : Denotes radix digits n)
      (h : IsDigit radix d c) : Denotes radix (digits ++ [c]) (n * radix + d)

section

variable {radix d n : Nat} {c : Char} {digits text : List Char}

theorem IsDigit.mono {radix' : Nat} (h : IsDigit radix d c) (hr : radix ≤ radix') :
    IsDigit radix' d c :=
  ⟨Nat.lt_of_lt_of_le h.1 hr, h.2⟩

theorem IsDigit.of_all {p : Nat → Char → Prop} (h : IsDigit radix d c)
    (hall : ∀ e : Fin radix, p e (Nat.digitChar e) ∧ p e (Nat.digitChar e).toUpper) : p d c := by
  obtain ⟨hlower, hupper⟩ := hall ⟨d, h.1⟩
  rcases h.2 with rfl | rfl
  · exact hlower
  · exact hupper

theorem IsDigit.value (h : IsDigit radix d c) (hr : radix ≤ 16) : digitValue? c = some d :=
  (h.mono hr).of_all (p := fun d c => digitValue? c = some d) (by decide)

theorem IsDigit.isDigit (h : IsDigit 10 d c) : c.isDigit :=
  h.of_all (p := fun _ c => c.isDigit) (by decide)

theorem IsDigit.not_blank (h : IsDigit radix d c) (hr : radix ≤ 16) : isBlank c = false :=
  (h.mono hr).of_all (p := fun _ c => isBlank c = false) (by decide)

theorem IsDigit.digitIn? (h : IsDigit radix d c) (hr : radix ≤ 16) :
    digitIn? radix c = some d := by
  simp [Text.digitIn?, h.value hr, h.1]

theorem valueFrom?_append (radix read : Nat) (s t : List Char) :
    valueFrom? radix read (s ++ t) = (valueFrom? radix read s).bind (valueFrom? radix · t) := by
  induction s generalizing read with
  | nil => rfl
  | cons c s ih =>
    rw [List.cons_append, valueFrom?, valueFrom?]
    cases Text.digitIn? radix c with
    | none => rfl
    | some d => exact ih _

theorem Denotes.value (h : Denotes radix digits n) (hr : radix ≤ 16) :
    value? radix digits = some n := by
  induction h with
  | one h => simp [value?, valueFrom?, h.digitIn? hr]
  | snoc hn h ih =>
    rw [value?] at ih
    simp [value?, valueFrom?_append, ih, valueFrom?, h.digitIn? hr]

theorem Denotes.word (h : Denotes radix digits n) (hr : radix ≤ 16) (hn : n < wordLimit) :
    word? radix digits = some n := by
  simp [word?, h.value hr, hn]

theorem Denotes.ne_nil (h : Denotes radix digits n) : digits ≠ [] := by
  cases h <;> simp

theorem Denotes.forall_mem {p : Char → Prop} (h : Denotes radix digits n)
    (hp : ∀ c d, IsDigit radix d c → p c) : ∀ c ∈ digits, p c := by
  induction h with
  | one h => simpa using hp _ _ h
  | snoc hn h ih =>
    intro c hc
    rcases List.mem_append.mp hc with hc | hc
    · exact ih c hc
    · exact List.mem_singleton.mp hc ▸ hp _ _ h

theorem Denotes.isHexDigit (h : Denotes radix digits n) (hr : radix ≤ 16) :
    ∀ c ∈ digits, isHexDigit c :=
  h.forall_mem fun c d hc => by simp [Text.isHexDigit, hc.value hr]

theorem Denotes.isDigit (h : Denotes 10 digits n) : ∀ c ∈ digits, c.isDigit :=
  h.forall_mem fun _ _ hc => hc.isDigit

theorem denotes_toDigits (hr : 1 < radix) (n : Nat) : Denotes radix (Nat.toDigits radix n) n := by
  induction n using Nat.strongRecOn with
  | _ n ih =>
    rw [Nat.toDigits_eq_if hr]
    split
    · next hn => exact .one ⟨hn, .inl rfl⟩
    · next hn =>
      -- the last digit comes off the end, as `snoc` puts it there
      have hlast : IsDigit radix (n % radix) (Nat.digitChar (n % radix)) :=
        ⟨Nat.mod_lt _ (by omega), .inl rfl⟩
      have hfront := ih (n / radix) (Nat.div_lt_self (by omega) hr)
      have hsnoc := hfront.snoc hlast
      rwa [Nat.div_add_mod' n radix] at hsnoc

theorem denotes_decimal (n : Nat) : Denotes 10 (decimal n) n := denotes_toDigits (by decide) n

theorem denotes_hexPair (n : Nat) : Denotes 16 (hexPair n) n := by
  have hdigits : Denotes 16 (hexadecimal n) n := denotes_toDigits (by decide) n
  unfold hexPair
  split
  · next hn =>
    have hlast : IsDigit 16 n (Nat.digitChar n) := ⟨hn, .inl rfl⟩
    have hpair := (Denotes.one (⟨by decide, .inl rfl⟩ : IsDigit 16 0 '0')).snoc hlast
    rw [hexadecimal, Nat.toDigits_of_lt_base hn]
    simpa using hpair
  · exact hdigits

theorem Denotes.unique {m : Nat} (h : Denotes radix digits n) (h' : Denotes radix digits m)
    (hr : radix ≤ 16) : n = m :=
  Option.some.inj ((h.value hr).symm.trans (h'.value hr))

theorem isDigit_of_value (h : digitValue? c = some d) : IsDigit 16 d c := by
  have hall : ∀ n : Fin 103, ∀ d ∈ digitValue? (Char.ofNat n),
      d < 16 ∧ (Char.ofNat n = Nat.digitChar d ∨ Char.ofNat n = (Nat.digitChar d).toUpper) := by
    decide
  have hlt : c.toNat < 103 := by
    unfold digitValue? at h
    simp only [Char.le_def, UInt32.le_iff_toNat_le] at h
    change c.val.toNat < 103
    split_ifs at h with h0 ha hA
    · exact h0.2.trans_lt (by decide)
    · exact ha.2.trans_lt (by decide)
    · exact hA.2.trans_lt (by decide)
  have hc := hall ⟨c.toNat, hlt⟩ d
  rw [Char.ofNat_toNat] at hc
  exact hc h

theorem denotes_singleton_iff : Denotes radix [c] n ↔ IsDigit radix n c := by
  refine ⟨fun h => ?_, .one⟩
  generalize hs : [c] = s at h
  cases h with
  | one h => exact List.singleton_inj.mp hs ▸ h
  | snoc hn h =>
    have hlength := congrArg List.length hs
    rw [List.length_append, List.length_singleton, List.length_singleton] at hlength
    exact absurd (List.length_eq_zero_iff.mp (by omega)) hn.ne_nil

theorem denotes_concat_iff (hs : digits ≠ []) : Denotes radix (digits ++ [c]) n ↔
    ∃ m d, Denotes radix digits m ∧ IsDigit radix d c ∧ n = m * radix + d := by
  refine ⟨fun h => ?_, fun ⟨m, d, hm, hd, hn⟩ => hn ▸ hm.snoc hd⟩
  generalize ht : digits ++ [c] = t at h
  cases h with
  | one h =>
    have hlength := congrArg List.length ht
    rw [List.length_append, List.length_singleton, List.length_singleton] at hlength
    exact absurd (List.length_eq_zero_iff.mp (by omega)) hs
  | snoc hn h =>
    obtain ⟨rfl, hc⟩ := List.append_inj' ht rfl
    obtain rfl := List.singleton_inj.mp hc
    exact ⟨_, _, hn, h, rfl⟩

theorem denotes_append_iff {s t : List Char} (hs : s ≠ []) (ht : t ≠ []) :
    Denotes radix (s ++ t) n ↔
      ∃ m k, Denotes radix s m ∧ Denotes radix t k ∧ n = m * radix ^ t.length + k := by
  induction t using List.reverseRecOn generalizing n with
  | nil => exact absurd rfl ht
  | append_singleton t c ih =>
    rw [← List.append_assoc, denotes_concat_iff (by simp [hs])]
    by_cases hne : t = []
    · subst hne
      simp [denotes_singleton_iff]
    · simp only [ih hne, denotes_concat_iff hne, List.length_append, List.length_singleton]
      constructor
      · rintro ⟨_, d, ⟨m, k, hm, hk, rfl⟩, hd, rfl⟩
        exact ⟨m, _, hm, ⟨k, d, hk, hd, rfl⟩, by ring⟩
      · rintro ⟨m, _, hm, ⟨k, d, hk, hd, rfl⟩, rfl⟩
        exact ⟨_, d, ⟨m, k, hm, hk, rfl⟩, hd, by ring⟩

theorem isBlank_of_isDigit (h : c.isDigit) : isBlank c = false := by
  have hc : 48 ≤ c.toNat ∧ c.toNat ≤ 57 := by
    simpa [Char.isDigit, UInt32.le_iff_toNat_le] using h
  simp only [isBlank, blanks, Ranges.contains, List.any_cons, List.any_nil, Bool.or_eq_false_iff,
    Bool.and_eq_false_iff, decide_eq_false_iff_not, and_true]
  omega

theorem dropWhile_isBlank (h : ∀ c ∈ text, isBlank c = false) : text.dropWhile isBlank = text := by
  cases text with
  | nil => rfl
  | cons c text => rw [List.dropWhile_cons, h c List.mem_cons_self, if_neg Bool.false_ne_true]

theorem trim_of_no_blank (h : ∀ c ∈ text, isBlank c = false) : trim text = text := by
  have hreverse : ∀ c ∈ text.reverse, isBlank c = false := fun c hc => h c (List.mem_reverse.mp hc)
  rw [trim, trimStart, dropWhile_isBlank h, trimEnd, dropWhile_isBlank hreverse,
    List.reverse_reverse]

theorem trimEnd_isPrefix (text : List Char) : trimEnd text <+: text :=
  List.rdropWhile_prefix isBlank text

theorem trimEnd_append_blank {blank : List Char} (h : ∀ c ∈ blank, isBlank c) :
    trimEnd (text ++ blank) = trimEnd text := by
  rw [trimEnd, List.reverse_append,
    List.dropWhile_append_of_pos fun c hc => h c (List.mem_reverse.mp hc), trimEnd]

theorem trimEnd_append (h : ∀ c ∈ text, isBlank c = false) (rest : List Char) :
    trimEnd (text ++ rest) = text ++ trimEnd rest := by
  have hreverse : text.reverse.dropWhile isBlank = text.reverse :=
    dropWhile_isBlank fun c hc => h c (List.mem_reverse.mp hc)
  rw [trimEnd, List.reverse_append, List.dropWhile_append, hreverse, trimEnd]
  split
  · next hrest => rw [List.isEmpty_iff.mp hrest, List.reverse_reverse, List.reverse_nil,
      List.append_nil]
  · rw [List.reverse_append, List.reverse_reverse]

end

end RegMap.Text
