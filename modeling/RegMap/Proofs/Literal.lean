import RegMap.Literal
import RegMap.Proofs.Numeral

set_option autoImplicit false

namespace RegMap

open Text

/-- A text that is written for the number where a description has one. -/
inductive Spelling (n : Nat) : List Char → Prop where
  | plain {digits : List Char} (h : Denotes 10 digits n) : Spelling n digits
  | sized {width digits : List Char} (radix : Radix) (hne : width ≠ [])
      (hw : ∀ c ∈ width, c.isDigit) (h : Denotes radix.base digits n) :
      Spelling n (width ++ '\'' :: radix.letter :: digits)

theorem Radix.base_le (radix : Radix) : radix.base ≤ 16 := by cases radix <;> decide

@[simp] theorem Radix.ofLetter?_letter (radix : Radix) : ofLetter? radix.letter = some radix := by
  cases radix <;> rfl

theorem Radix.ofLetter?_eq_some_iff {radix : Radix} {c : Char} :
    ofLetter? c = some radix ↔ c = radix.letter := by
  refine ⟨fun h => ?_, fun h => h ▸ ofLetter?_letter radix⟩
  unfold ofLetter? at h
  split_ifs at h with hb hd hh <;> cases h <;> assumption

namespace Literal

structure Trimmed (text token : List Char) : Prop where
  around : ∃ before after, text = before ++ (token ++ after) ∧ ∀ c ∈ before ++ after, isBlank c
  head : ∀ c ∈ token.head?, isBlank c = false
  last : ∀ c ∈ token.getLast?, isBlank c = false

/-- The token begins with a width, an apostrophe, the letter of the radix and these digits, which
are all hexadecimal digits up to the first character that is none. -/
inductive Sized (radix : Radix) (digits : List Char) : List Char → Prop where
  | intro {width rest : List Char} (hw : width ≠ []) (hwidth : ∀ c ∈ width, c.isDigit)
      (hd : digits ≠ []) (hdigits : ∀ c ∈ digits, ∃ d, IsDigit 16 d c)
      (hrest : ∀ c ∈ rest.head?, ∀ d, ¬ IsDigit 16 d c) :
      Sized radix digits (width ++ '\'' :: radix.letter :: (digits ++ rest))

def Plain (digits token : List Char) : Prop := token = digits ∨ token = '+' :: digits

inductive Answer (token : List Char) : Except LiteralError Nat → Prop where
  | sized {radix : Radix} {digits : List Char} {n : Nat} (h : Sized radix digits token)
      (hn : Denotes radix.base digits n) (hlt : n < 2 ^ 64) : Answer token (.ok n)
  /-- A digit is not one of the radix, or the number is too large. -/
  | badDigits {radix : Radix} {digits : List Char} (h : Sized radix digits token)
      (hnone : ∀ n < 2 ^ 64, ¬ Denotes radix.base digits n) :
      Answer token (.error (.badDigits (String.ofList token) radix))
  | plain {digits : List Char} {n : Nat} (hno : ∀ radix digits, ¬ Sized radix digits token)
      (h : Plain digits token) (hn : Denotes 10 digits n) (hlt : n < 2 ^ 64) :
      Answer token (.ok n)
  | malformed (hno : ∀ radix digits, ¬ Sized radix digits token)
      (hnone : ∀ digits, Plain digits token → ∀ n < 2 ^ 64, ¬ Denotes 10 digits n) :
      Answer token (.error (.malformed (String.ofList token)))

section

variable {text token digits : List Char} {radix : Radix} {n : Nat} {r : Except LiteralError Nat}

theorem trimmed_trim (text : List Char) : Trimmed text (trim text) := by
  have hstart : text = text.takeWhile isBlank ++ trimStart text :=
    List.takeWhile_append_dropWhile.symm
  have hend : trimStart text = trim text ++ (trimStart text).rtakeWhile isBlank :=
    List.rdropWhile_append_rtakeWhile.symm
  refine ⟨⟨_, _, by rw [← hend]; exact hstart, fun c hc => ?_⟩, fun c hc => ?_, fun c hc => ?_⟩
  · rcases List.mem_append.mp hc with hc | hc
    · exact List.mem_takeWhile_imp hc
    · exact List.mem_rtakeWhile_imp hc
  · -- a token that is not empty begins where the white space in front of it ends
    have hhead : c ∈ (trimStart text).head? := by
      rw [hend, List.head?_append, Option.mem_def.mp hc]
      rfl
    have hnot := List.head?_dropWhile_not isBlank text
    rw [← trimStart, Option.mem_def.mp hhead] at hnot
    exact hnot
  · have hne : trim text ≠ [] := by
      rintro he
      rw [he] at hc
      cases hc
    have hlast := List.rdropWhile_last_not isBlank _ hne
    rw [List.getLast?_eq_some_getLast hne] at hc
    rw [← Option.some.inj hc]
    exact Bool.eq_false_iff.mpr hlast

theorem Trimmed.trim_eq (h : Trimmed text token) : trim text = token := by
  obtain ⟨⟨before, after, rfl, hblank⟩, hhead, hlast⟩ := h
  have hbefore : ∀ c ∈ before, isBlank c := fun c hc => hblank c (List.mem_append_left _ hc)
  have hafter : ∀ c ∈ after, isBlank c := fun c hc => hblank c (List.mem_append_right _ hc)
  rw [trim, trimStart, List.dropWhile_append_of_pos hbefore]
  cases token with
  | nil =>
    rw [List.nil_append, List.dropWhile_eq_nil_iff.mpr hafter]
    rfl
  | cons c token =>
    rw [List.cons_append, List.dropWhile_cons_of_neg (by simpa using hhead c rfl),
      ← List.cons_append, trimEnd_append_blank hafter, trimEnd]
    have hreverse : ∀ d ∈ (c :: token).reverse.head?, isBlank d = false := by
      rw [List.head?_reverse]
      exact hlast
    obtain ⟨d, rest, hd⟩ := List.exists_cons_of_ne_nil
      (List.reverse_ne_nil_iff.mpr (List.cons_ne_nil c token))
    rw [hd] at hreverse
    rw [hd, List.dropWhile_cons_of_neg (by simpa using hreverse d rfl), ← hd, List.reverse_reverse]

theorem trimmed_iff : Trimmed text token ↔ trim text = token :=
  ⟨Trimmed.trim_eq, fun h => h ▸ trimmed_trim text⟩

theorem isHexDigit_iff {c : Char} : isHexDigit c ↔ ∃ d, IsDigit 16 d c := by
  rw [isHexDigit, Option.isSome_iff_exists]
  exact exists_congr fun d => ⟨isDigit_of_value, fun h => h.value le_rfl⟩

theorem isHexDigit_eq_false_iff {c : Char} : isHexDigit c = false ↔ ∀ d, ¬ IsDigit 16 d c := by
  rw [Bool.eq_false_iff, ne_eq, isHexDigit_iff, not_exists]

theorem Sized.sized? (h : Sized radix digits token) :
    Literal.sized? token = some (radix, digits) := by
  obtain ⟨hw, hwidth, hd, hdigits, hrest⟩ := h
  rename_i width rest
  have hfront :
      (width ++ '\'' :: radix.letter :: (digits ++ rest)).takeWhile Char.isDigit = width :=
    takeWhile_run hwidth rfl
  have hback : (width ++ '\'' :: radix.letter :: (digits ++ rest)).dropWhile Char.isDigit =
      '\'' :: radix.letter :: (digits ++ rest) :=
    dropWhile_run hwidth rfl
  have hrun : (digits ++ rest).takeWhile isHexDigit = digits := by
    rw [List.takeWhile_append_of_pos fun c hc => isHexDigit_iff.mpr (hdigits c hc)]
    cases rest with
    | nil => simp
    | cons c rest => simp [isHexDigit_eq_false_iff.mpr (hrest c rfl)]
  obtain ⟨w, width, rfl⟩ := List.exists_cons_of_ne_nil hw
  obtain ⟨d, digits, rfl⟩ := List.exists_cons_of_ne_nil hd
  simp only [Literal.sized?, hfront, hback, Radix.ofLetter?_letter, hrun]

theorem Sized.ne_nil (h : Sized radix digits token) : digits ≠ [] := by
  obtain ⟨-, -, hd, -, -⟩ := h
  exact hd

theorem sized_of_sized? (h : Literal.sized? token = some (radix, digits)) :
    Sized radix digits token := by
  unfold Literal.sized? at h
  split at h
  · next w width letter rest hfront hback =>
    split at h
    · next d digits' hletter hrun =>
      cases h
      obtain rfl := Radix.ofLetter?_eq_some_iff.mp hletter
      have htoken : token =
          (w :: width) ++ '\'' :: radix.letter :: (d :: digits' ++ rest.dropWhile isHexDigit) := by
        rw [← hrun, List.takeWhile_append_dropWhile, ← hfront, ← hback,
          List.takeWhile_append_dropWhile]
      rw [htoken]
      refine .intro (List.cons_ne_nil _ _) (fun c hc => ?_) (List.cons_ne_nil _ _) (fun c hc => ?_)
        fun c hc => ?_
      · rw [← hfront] at hc
        exact List.mem_takeWhile_imp hc
      · rw [← hrun] at hc
        exact isHexDigit_iff.mp (List.mem_takeWhile_imp hc)
      · have hnot := List.head?_dropWhile_not isHexDigit rest
        rw [Option.mem_def.mp hc] at hnot
        exact isHexDigit_eq_false_iff.mp hnot
    · cases h
  · cases h

theorem sized_iff : Sized radix digits token ↔ Literal.sized? token = some (radix, digits) :=
  ⟨Sized.sized?, sized_of_sized?⟩

theorem sized?_eq_none_iff :
    Literal.sized? token = none ↔ ∀ radix digits, ¬ Sized radix digits token := by
  simp only [Option.eq_none_iff_forall_ne_some, sized_iff, Prod.forall, ne_eq]

theorem plain?_eq_some_iff : Literal.plain? token = some n ↔
    ∃ digits, Plain digits token ∧ Denotes 10 digits n ∧ n < 2 ^ 64 := by
  have hplus : ∀ {digits : List Char} {n : Nat}, ¬ Denotes 10 ('+' :: digits) n := fun h =>
    absurd (h.isDigit '+' List.mem_cons_self) (by decide)
  unfold Literal.plain?
  split
  · simp only [reduceCtorEq, false_iff, not_exists, not_and, Plain]
    rintro digits (rfl | h) hn
    · exact absurd rfl hn.ne_nil
    · cases h
  · simp only [reduceCtorEq, false_iff, not_exists, not_and, Plain]
    rintro digits (rfl | h) hn
    · exact absurd hn hplus
    · cases h
      exact absurd rfl hn.ne_nil
  · next digits hne =>
    rw [word?_eq_some_iff (by decide) (by rintro rfl; exact hne rfl)]
    constructor
    · rintro ⟨hn, hlt⟩
      exact ⟨digits, .inr rfl, hn, hlt⟩
    · rintro ⟨_, rfl | h, hn, hlt⟩
      · exact absurd hn hplus
      · cases h
        exact ⟨hn, hlt⟩
  · next hne hplus' =>
    by_cases hnil : token = []
    · exact absurd hnil (by assumption)
    rw [word?_eq_some_iff (by decide) hnil]
    constructor
    · rintro ⟨hn, hlt⟩
      exact ⟨token, .inl rfl, hn, hlt⟩
    · rintro ⟨digits, rfl | h, hn, hlt⟩
      · exact ⟨hn, hlt⟩
      · exact absurd h (by intro h; exact hplus' _ h)

theorem Answer.read {text : String} (h : Answer (trim text.toList) r) : Literal.read text = r := by
  cases h with
  | sized h hn hlt =>
    simp only [Literal.read, h.sized?,
      (word?_eq_some_iff (Radix.base_le _) hn.ne_nil).mpr ⟨hn, hlt⟩]
  | @badDigits radix digits h hnone =>
    have hword : word? radix.base digits = none := by
      refine Option.eq_none_iff_forall_ne_some.mpr fun n hn => ?_
      obtain ⟨hdenotes, hlt⟩ := (word?_eq_some_iff radix.base_le h.ne_nil).mp hn
      exact hnone n hlt hdenotes
    simp only [Literal.read, h.sized?, hword]
  | plain hno h hn hlt =>
    simp only [Literal.read, sized?_eq_none_iff.mpr hno,
      plain?_eq_some_iff.mpr ⟨_, h, hn, hlt⟩]
  | malformed hno hnone =>
    have hplain : Literal.plain? (trim text.toList) = none := by
      refine Option.eq_none_iff_forall_ne_some.mpr fun n hn => ?_
      obtain ⟨digits, h, hdenotes, hlt⟩ := plain?_eq_some_iff.mp hn
      exact hnone digits h n hlt hdenotes
    simp only [Literal.read, sized?_eq_none_iff.mpr hno, hplain]

theorem exists_answer (token : List Char) : ∃ r, Answer token r := by
  by_cases hsized : ∃ radix digits, Sized radix digits token
  · obtain ⟨radix, digits, h⟩ := hsized
    by_cases hn : ∃ n < 2 ^ 64, Denotes radix.base digits n
    · obtain ⟨n, hlt, hn⟩ := hn
      exact ⟨_, .sized h hn hlt⟩
    · exact ⟨_, .badDigits h fun n hlt hd => hn ⟨n, hlt, hd⟩⟩
  · have hno : ∀ radix digits, ¬ Sized radix digits token := fun radix digits h =>
      hsized ⟨radix, digits, h⟩
    by_cases hn : ∃ digits, Plain digits token ∧ ∃ n < 2 ^ 64, Denotes 10 digits n
    · obtain ⟨digits, h, n, hlt, hn⟩ := hn
      exact ⟨_, .plain hno h hn hlt⟩
    · exact ⟨_, .malformed hno fun digits h n hlt hd => hn ⟨digits, h, n, hlt, hd⟩⟩

theorem read_eq_iff {text : String} :
    Literal.read text = r ↔ ∃ token, Trimmed text.toList token ∧ Answer token r := by
  constructor
  · rintro rfl
    obtain ⟨r, hr⟩ := exists_answer (trim text.toList)
    exact ⟨_, trimmed_trim _, hr.read ▸ hr⟩
  · rintro ⟨token, htrim, h⟩
    exact Answer.read (htrim.trim_eq ▸ h)

end

end Literal

open Literal

section

variable {token : List Char} {n : Nat}

theorem Spelling.no_blank (h : Spelling n token) : ∀ c ∈ token, isBlank c = false := by
  cases h with
  | plain h => exact h.forall_mem fun _ _ hc => hc.not_blank (by decide)
  | @sized width digits radix hne hw h =>
    have hdigits : ∀ c ∈ digits, isBlank c = false :=
      h.forall_mem fun _ _ hc => hc.not_blank radix.base_le
    have hletter : isBlank radix.letter = false := by cases radix <;> rfl
    simp only [List.mem_append, List.mem_cons]
    rintro c (hc | rfl | rfl | hc)
    · exact isBlank_of_isDigit (hw c hc)
    · rfl
    · exact hletter
    · exact hdigits c hc

theorem Spelling.ne_nil (h : Spelling n token) : token ≠ [] := by
  cases h with
  | plain h => exact h.ne_nil
  | sized => simp

theorem Spelling.trimmed {before after : List Char} (h : Spelling n token)
    (hblank : ∀ c ∈ before ++ after, isBlank c) :
    Trimmed (before ++ (token ++ after)) token where
  around := ⟨before, after, rfl, hblank⟩
  head := fun c hc => h.no_blank c (List.mem_of_mem_head? hc)
  last := fun c hc => h.no_blank c (List.mem_of_mem_getLast? hc)

theorem Spelling.answer (h : Spelling n token) (hn : n < wordLimit) : Answer token (.ok n) := by
  cases h with
  | plain h =>
    refine .plain (fun radix digits hsized => ?_) (.inl rfl) h hn
    obtain ⟨-, -, -, -, -⟩ := hsized
    exact absurd (h.isDigit '\'' (by simp)) (by decide)
  | @sized width digits radix hne hw h =>
    have hdigits : ∀ c ∈ digits, ∃ d, IsDigit 16 d c :=
      h.forall_mem fun c d hc => ⟨d, hc.mono radix.base_le⟩
    have hsized : Sized radix digits (width ++ '\'' :: radix.letter :: (digits ++ [])) :=
      .intro hne hw h.ne_nil hdigits (by simp)
    rw [List.append_nil] at hsized
    exact .sized hsized h hn

theorem Spelling.read_padded {before after : List Char} (h : Spelling n token) (hn : n < wordLimit)
    (hblank : ∀ c ∈ before ++ after, isBlank c) :
    Literal.read (String.ofList (before ++ (token ++ after))) = .ok n :=
  read_eq_iff.mpr ⟨token, by rw [String.toList_ofList]; exact h.trimmed hblank, h.answer hn⟩

theorem Spelling.read (h : Spelling n token) (hn : n < wordLimit) :
    Literal.read (String.ofList token) = .ok n := by
  have hpadded : Literal.read (String.ofList ([] ++ (token ++ []))) = .ok n :=
    h.read_padded hn (by simp)
  rwa [List.nil_append, List.append_nil] at hpadded

end

/-- A text gives the answer that its token calls for, and no other. So a number of 64 bits is read
back from its digits in any radix, with letters of either case, zeros in front, any width, and white
space around all that. -/
theorem Literal.read_exactly :
    (∀ (text : String) (r : Except LiteralError Nat),
      Literal.read text = r ↔ ∃ token, Trimmed text.toList token ∧ Answer token r) ∧
    ∀ (n zeros : Nat) (radix : Radix) (digits width before after : List Char), n < 2 ^ 64 →
      digits.map Char.toLower = List.replicate zeros '0' ++ Nat.toDigits radix.base n →
      width ≠ [] → (∀ c ∈ width, c.isDigit) → (∀ c ∈ before ++ after, isBlank c) →
      Literal.read (String.ofList
          (before ++ (width ++ '\'' :: radix.letter :: digits ++ after))) = .ok n ∧
        (radix = .decimal →
          Literal.read (String.ofList (before ++ (digits ++ after))) = .ok n) := by
  refine ⟨fun text r => read_eq_iff, ?_⟩
  intro n zeros radix digits width before after hn hprinted hw hwidth hblank
  have hdenotes : Denotes radix.base digits n :=
    denotes_of_printed (by cases radix <;> decide) radix.base_le hprinted
  refine ⟨(Spelling.sized radix hw hwidth hdenotes).read_padded hn hblank, ?_⟩
  rintro rfl
  exact (Spelling.plain hdenotes).read_padded hn hblank

theorem Literal.read_exactly_padded :
    Literal.read " 8'h0fF\u3000" = .ok 255 ∧
      Literal.read "4'b102 rest" = .error (.badDigits "4'b102 rest" .binary) := by
  have hblank : ∀ c ∈ [' '] ++ ['\u3000'], isBlank c :=
    List.forall_mem_cons.mpr ⟨by decide, List.forall_mem_singleton.mpr (by decide)⟩
  have hwidth : ∀ c ∈ ['8'], c.isDigit := List.forall_mem_singleton.mpr rfl
  have hnone : word? 2 ['1', '0', '2'] = none := by decide
  have hanswer : Answer "4'b102 rest".toList (.error (.badDigits "4'b102 rest" .binary)) :=
    .badDigits (sized_of_sized? rfl) fun n hlt hn =>
      nomatch hnone.symm.trans (hn.word (by decide) hlt)
  exact ⟨(read_exactly.2 255 1 .hexadecimal ['0', 'f', 'F'] ['8'] [' '] ['\u3000'] (by decide)
      (by decide) (by decide) hwidth hblank).1,
    (read_exactly.1 _ _).mpr ⟨_, trimmed_iff.mpr (by decide), hanswer⟩⟩

end RegMap
