import RegMap.Proofs.Text

set_option autoImplicit false

namespace RegMap.Text

section

variable {radix d n : Nat} {c : Char} {digits : List Char}

theorem digitIn?_eq_some_iff (hr : radix ≤ 16) :
    digitIn? radix c = some d ↔ IsDigit radix d c := by
  refine ⟨fun h => ?_, fun h => h.digitIn? hr⟩
  obtain ⟨hvalue, hlt⟩ := Option.filter_eq_some_iff.mp h
  exact ⟨of_decide_eq_true hlt, (isDigit_of_value hvalue).2⟩

theorem value?_concat_iff : value? radix (digits ++ [c]) = some n ↔
    ∃ m d, value? radix digits = some m ∧ digitIn? radix c = some d ∧ n = m * radix + d := by
  simp only [value?, valueFrom?_append, Option.bind_eq_some_iff, valueFrom?, Option.bind_eq_bind,
    Option.some.injEq]
  constructor
  · rintro ⟨m, hm, d, hd, rfl⟩
    exact ⟨m, d, hm, hd, rfl⟩
  · rintro ⟨m, d, hm, hd, rfl⟩
    exact ⟨m, hm, d, hd, rfl⟩

theorem value?_eq_some_iff (hr : radix ≤ 16) (hne : digits ≠ []) :
    value? radix digits = some n ↔ Denotes radix digits n := by
  induction digits using List.reverseRecOn generalizing n with
  | nil => exact absurd rfl hne
  | append_singleton digits c ih =>
    rw [value?_concat_iff]
    by_cases hd : digits = []
    · subst hd
      simp [value?, valueFrom?, denotes_singleton_iff, digitIn?_eq_some_iff hr]
    · simp only [ih hd, digitIn?_eq_some_iff hr, denotes_concat_iff hd]

theorem word?_eq_some_iff (hr : radix ≤ 16) (hne : digits ≠ []) :
    word? radix digits = some n ↔ Denotes radix digits n ∧ n < wordLimit := by
  simp only [word?, Option.filter_eq_some_iff, value?_eq_some_iff hr hne, decide_eq_true_eq]

theorem eq_toLower_or_eq_toUpper (c : Char) : c = c.toLower ∨ c = c.toLower.toUpper := by
  by_cases h : 'A'.val ≤ c.val ∧ c.val ≤ 'Z'.val
  · have hall : ∀ n : Fin 91, 65 ≤ n.val →
        Char.ofNat n = (Char.ofNat n).toLower.toUpper := by decide
    have hlow : 65 ≤ c.toNat := UInt32.le_iff_toNat_le.mp h.1
    have hhigh : c.toNat ≤ 90 := UInt32.le_iff_toNat_le.mp h.2
    have hc := hall ⟨c.toNat, by omega⟩ hlow
    rw [Char.ofNat_toNat] at hc
    exact .inr hc
  · exact .inl (dif_neg h : c.toLower = c).symm

theorem IsDigit.of_toLower (h : IsDigit radix d c.toLower) (hr : radix ≤ 16) :
    IsDigit radix d c := by
  have hupper : c.toLower.toUpper = (Nat.digitChar d).toUpper :=
    (h.mono hr).of_all (p := fun d c => c.toUpper = (Nat.digitChar d).toUpper) (by decide)
  refine ⟨h.1, ?_⟩
  rcases eq_toLower_or_eq_toUpper c with hc | hc
  · rw [hc]
    exact h.2
  · rw [hc]
    exact .inr hupper

theorem IsDigit.toLower_eq (h : IsDigit radix d c) (hr : radix ≤ 16) :
    c.toLower = Nat.digitChar d :=
  (h.mono hr).of_all (p := fun d c => c.toLower = Nat.digitChar d) (by decide)

theorem Denotes.of_toLower (h : Denotes radix (digits.map Char.toLower) n) (hr : radix ≤ 16) :
    Denotes radix digits n := by
  induction digits using List.reverseRecOn generalizing n with
  | nil => exact absurd rfl h.ne_nil
  | append_singleton digits c ih =>
    rw [List.map_append, List.map_singleton] at h
    by_cases hd : digits = []
    · subst hd
      exact .one ((denotes_singleton_iff.mp h).of_toLower hr)
    · obtain ⟨m, d, hm, hc, rfl⟩ := (denotes_concat_iff (by simpa using hd)).mp h
      exact .snoc (ih hm) (hc.of_toLower hr)

theorem Denotes.zeros (h : Denotes radix digits n) (zeros : Nat) :
    Denotes radix (List.replicate zeros '0' ++ digits) n := by
  induction zeros with
  | zero => exact h
  | succ zeros ih =>
    have hpos : 0 < radix := by
      cases h with
      | one h => exact Nat.zero_lt_of_lt h.1
      | snoc _ h => exact Nat.zero_lt_of_lt h.1
    have hzero : Denotes radix ['0'] 0 := .one ⟨hpos, .inl rfl⟩
    rw [List.replicate_succ, List.cons_append, ← List.singleton_append]
    exact (denotes_append_iff (by simp) ih.ne_nil).mpr ⟨0, n, hzero, ih, by simp⟩

theorem denotes_of_printed {zeros : Nat} (hr : 1 < radix) (hr' : radix ≤ 16)
    (h : digits.map Char.toLower = List.replicate zeros '0' ++ Nat.toDigits radix n) :
    Denotes radix digits n := by
  refine Denotes.of_toLower ?_ hr'
  rw [h]
  exact (denotes_toDigits hr n).zeros zeros

end

end RegMap.Text
