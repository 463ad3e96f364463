import RegMap.Markup.Construct
import RegMap.Proofs.Text

/-!
Texts that go on. A construct that has been read to its end stays what it is when more text follows,
so a text without a fault and one behind it have the constructs of the one and then of the other.
-/

set_option autoImplicit false

namespace RegMap.Markup

section

variable {mark s t rest before : List Char}

theorem after?_eq_some_iff : after? mark s = some rest ↔ s = mark ++ rest := by
  fun_induction after? mark s with
  | case1 s => simp [eq_comm]
  | case2 m mark => simp
  | case3 m mark s ih => simp [ih]
  | case4 m mark c s hne => simp [Ne.symm hne]

theorem eq_of_cut? (h : cut? mark s = some (before, rest)) : s = before ++ (mark ++ rest) := by
  induction s generalizing before with
  | nil =>
    obtain ⟨r, ha, he⟩ := Option.map_eq_some_iff.1 h
    cases he
    have hsplit := after?_eq_some_iff.1 ha
    exact hsplit
  | cons c s ih =>
    simp only [cut?] at h
    split at h
    · next ha =>
      cases h
      have hsplit := after?_eq_some_iff.1 ha
      exact hsplit
    · obtain ⟨parts, hp, he⟩ := Option.map_eq_some_iff.1 h
      cases he
      rw [List.cons_append, ← ih hp]

theorem cut?_mark (mark t : List Char) : cut? mark (mark ++ t) = some ([], t) := by
  cases h : mark ++ t with
  | nil =>
    obtain ⟨rfl, rfl⟩ := List.append_eq_nil_iff.1 h
    rfl
  | cons c s => simp only [cut?, after?_eq_some_iff.2 h.symm]

/-- A cut looks at nothing behind the mark. -/
theorem cut?_eq (h : cut? mark s = some (before, rest)) (t : List Char) :
    cut? mark (before ++ (mark ++ t)) = some (before, t) := by
  induction s generalizing before with
  | nil =>
    obtain ⟨_, -, he⟩ := Option.map_eq_some_iff.1 h
    cases he
    exact cut?_mark mark t
  | cons c s ih =>
    simp only [cut?] at h
    split at h
    · cases h
      exact cut?_mark mark t
    · next ha =>
      obtain ⟨parts, hp, he⟩ := Option.map_eq_some_iff.1 h
      cases he
      -- a mark further in front would be in `s` as well, as it ends no later than the one found
      have hnone : after? mark (c :: (parts.1 ++ (mark ++ t))) = none := by
        refine Option.eq_none_iff_forall_ne_some.2 fun r hr => ?_
        rw [after?_eq_some_iff, ← List.append_assoc, ← List.cons_append] at hr
        obtain ⟨r', hr'⟩ := List.prefix_of_prefix_length_le (List.prefix_append mark r)
          (hr ▸ List.prefix_append _ t) (by simp only [List.length_cons, List.length_append]; omega)
        have hs : c :: s = mark ++ (r' ++ parts.2) := by
          rw [← List.append_assoc, hr', eq_of_cut? hp, List.cons_append, List.append_assoc]
        rw [after?_eq_some_iff.2 hs] at ha
        cases ha
      rw [List.cons_append, cut?, hnone, ih hp]
      rfl

theorem eq_of_cutTag? {quote : Option Char} (h : cutTag? quote s = some (before, rest)) :
    s = before ++ '>' :: rest := by
  fun_induction cutTag? quote s generalizing before with
  | case1 => simp at h
  | case2 quote c s ih =>
    obtain ⟨parts, hp, he⟩ := Option.map_eq_some_iff.1 h
    cases he
    rw [List.cons_append, ← ih hp]
  | case3 s =>
    cases h
    rfl
  | case4 c s hc ih =>
    obtain ⟨parts, hp, he⟩ := Option.map_eq_some_iff.1 h
    cases he
    rw [List.cons_append, ← ih hp]

/-- Behind what is in front of the end of a tag, no quote is open. -/
theorem cutTag?_of_some {quote : Option Char} (h : cutTag? quote s = some (before, rest))
    (t : List Char) :
    cutTag? quote (before ++ t) =
      (cutTag? none t).map fun parts => (before ++ parts.1, parts.2) := by
  fun_induction cutTag? quote s generalizing before with
  | case1 => simp at h
  | case2 quote c s ih =>
    obtain ⟨parts, hp, he⟩ := Option.map_eq_some_iff.1 h
    cases he
    simp [cutTag?, ih hp, Function.comp_def]
  | case3 s =>
    cases h
    simp
  | case4 c s hc ih =>
    obtain ⟨parts, hp, he⟩ := Option.map_eq_some_iff.1 h
    cases he
    simp [cutTag?, hc, ih hp, Function.comp_def]

theorem eq_of_cutBalanced? {depth : Nat} (h : cutBalanced? depth s = some (before, rest)) :
    s = before ++ '>' :: rest := by
  fun_induction cutBalanced? depth s generalizing before with
  | case1 => simp at h
  | case2 s =>
    cases h
    rfl
  | case3 s depth ih =>
    obtain ⟨parts, hp, he⟩ := Option.map_eq_some_iff.1 h
    cases he
    rw [List.cons_append, ← ih hp]
  | case4 depth c s hc ih =>
    obtain ⟨parts, hp, he⟩ := Option.map_eq_some_iff.1 h
    cases he
    rw [List.cons_append, ← ih hp]

theorem cutBalanced?_eq {depth : Nat} (h : cutBalanced? depth s = some (before, rest))
    (t : List Char) : cutBalanced? depth (before ++ '>' :: t) = some (before, t) := by
  fun_induction cutBalanced? depth s generalizing before with
  | case1 => simp at h
  | case2 s =>
    cases h
    simp [cutBalanced?]
  | case3 s depth ih =>
    obtain ⟨parts, hp, he⟩ := Option.map_eq_some_iff.1 h
    cases he
    simp [cutBalanced?, ih hp]
  | case4 depth c s hc ih =>
    obtain ⟨parts, hp, he⟩ := Option.map_eq_some_iff.1 h
    cases he
    simp only [List.cons_append, cutBalanced?, if_neg hc, ih hp]
    rfl

end

namespace Construct

variable {s rest : List Char} {c : Construct}

theorem readAside_source {first last : List Char} {fault : ConstructFault}
    (h : readAside first last fault s = .ok (c, rest)) : c = .aside ∧ ∃ source,
      s = source ++ rest ∧ ∀ t, readAside first last fault (source ++ t) = .ok (.aside, t) := by
  unfold readAside at h
  split at h
  · next before _ heq =>
    obtain ⟨behind, hb, hc⟩ := Option.bind_eq_some_iff.1 heq
    cases h
    refine ⟨rfl, first ++ (before ++ last), ?_, fun t => ?_⟩
    · rw [after?_eq_some_iff.1 hb, eq_of_cut? hc]
      simp only [List.append_assoc]
    · have hafter : after? first (first ++ (before ++ last) ++ t) =
          some (before ++ (last ++ t)) := by
        rw [after?_eq_some_iff]
        simp only [List.append_assoc]
      rw [readAside, hafter, Option.bind_some, cut?_eq hc t]
  · cases h

theorem readDoctype_source (h : readDoctype s = .ok (c, rest)) : c = .aside ∧
    ∃ source, s = source ++ rest ∧ ∀ t, readDoctype (source ++ t) = .ok (.aside, t) := by
  unfold readDoctype at h
  split at h
  · cases h
  · next content _ heq =>
    split at h
    · next hkeyword =>
      split at h
      · cases h
      · next hnamed =>
        cases h
        refine ⟨rfl, content ++ ['>'], ?_, fun t => ?_⟩
        · rw [eq_of_cutBalanced? heq, List.append_assoc, List.singleton_append]
        · rw [List.append_assoc, List.singleton_append, readDoctype, cutBalanced?_eq heq t]
          simp only [if_pos hkeyword, if_neg hnamed]
    · cases h

theorem readDeclaration_source (h : readDeclaration s = .ok (c, rest)) : c = .aside ∧
    ∃ source, s = source ++ rest ∧ ∀ t, readDeclaration (source ++ t) = .ok (.aside, t) := by
  unfold readDeclaration at h
  split at h
  · obtain ⟨rfl, source, rfl, hread⟩ := readAside_source h
    exact ⟨rfl, '-' :: source, rfl, hread⟩
  · obtain ⟨rfl, source, rfl, hread⟩ := readAside_source h
    exact ⟨rfl, '[' :: source, rfl, hread⟩
  · obtain ⟨rfl, source, hs, hread⟩ := readDoctype_source h
    cases source with
    | nil => cases hread []
    | cons d source =>
      obtain ⟨rfl, rfl⟩ := List.cons.inj hs
      exact ⟨rfl, 'D' :: source, rfl, hread⟩
  · obtain ⟨rfl, source, hs, hread⟩ := readDoctype_source h
    cases source with
    | nil => cases hread []
    | cons d source =>
      obtain ⟨rfl, rfl⟩ := List.cons.inj hs
      exact ⟨rfl, 'd' :: source, rfl, hread⟩
  · cases h

theorem readInstruction_source (h : readInstruction s = .ok (c, rest)) : c = .aside ∧
    ∃ source, s = source ++ rest ∧ ∀ t, readInstruction (source ++ t) = .ok (.aside, t) := by
  unfold readInstruction at h
  split at h
  · cases h
  · next hne =>
    obtain ⟨rfl, source, rfl, hread⟩ := readAside_source h
    refine ⟨rfl, source, rfl, fun t => ?_⟩
    cases source with
    | nil => cases hread []
    | cons d source =>
      have hd : d ≠ '>' := by
        rintro rfl
        exact hne _ rfl
      simpa [readInstruction, hd] using hread t

theorem readTag_source (h : readTag s = .ok (c, rest)) : ∃ content, c = .tag content ∧
    s = content ++ '>' :: rest ∧ ∀ t, readTag (content ++ '>' :: t) = .ok (c, t) := by
  unfold readTag at h
  split at h
  · next content _ heq =>
    cases h
    refine ⟨content, rfl, eq_of_cutTag? heq, fun t => ?_⟩
    simp [readTag, cutTag?_of_some heq, cutTag?]
  · cases h

/-- The source of a construct, that of a tag being its content and the mark at its end. -/
theorem read_source (h : read s = .ok (c, rest)) :
    ∃ source, s = source ++ rest ∧ (∀ t, read (source ++ t) = .ok (c, t)) ∧
      ∀ content, c = .tag content → source = content ++ ['>'] := by
  unfold read at h
  split at h
  · obtain ⟨rfl, source, rfl, hread⟩ := readDeclaration_source h
    exact ⟨'!' :: source, rfl, hread, nofun⟩
  · obtain ⟨rfl, source, rfl, hread⟩ := readInstruction_source h
    exact ⟨'?' :: source, rfl, hread, nofun⟩
  · next hdeclaration hinstruction =>
    obtain ⟨content, rfl, rfl, hread⟩ := readTag_source h
    refine ⟨content ++ ['>'], by simp, fun t => ?_, fun _ hc => by cases hc; rfl⟩
    rw [List.append_assoc, List.singleton_append]
    cases content with
    | nil => exact hread t
    | cons d content =>
      have hd : d ≠ '!' ∧ d ≠ '?' := by
        constructor
        · rintro rfl
          exact hdeclaration _ rfl
        · rintro rfl
          exact hinstruction _ rfl
      simpa [read, hd] using hread t

theorem read_append (h : read s = .ok (c, rest)) (t : List Char) :
    read (s ++ t) = .ok (c, rest ++ t) := by
  obtain ⟨source, rfl, hread, -⟩ := read_source h
  rw [List.append_assoc, hread]

end Construct

section

variable {s t : List Char}

theorem fromMark_append (s t : List Char) :
    fromMark (s ++ t) = if (fromMark s).isEmpty then fromMark t else fromMark s ++ t :=
  List.dropWhile_append

theorem fromMark_between {between : List Char} (hb : '<' ∉ between) :
    fromMark (between ++ '<' :: s) = '<' :: s :=
  Text.dropWhile_run (fun d hd => by simpa using fun heq : d = '<' => hb (heq ▸ hd)) rfl

theorem constructs_congr (h : fromMark s = fromMark t) : constructs s = constructs t := by
  cases ht : fromMark t with
  | nil => rw [constructs_of_nil (h.trans ht), constructs_of_nil ht]
  | cons mark behind =>
    cases hr : Construct.read behind with
    | error fault => rw [constructs_of_error (h.trans ht) hr, constructs_of_error ht hr]
    | ok parts => rw [constructs_of_ok (h.trans ht) hr, constructs_of_ok ht hr]

/-- Behind a text without a fault the reading starts afresh. -/
theorem constructs_append (h : (constructs s).fault = none) (t : List Char) :
    constructs (s ++ t) =
      ⟨(constructs s).items ++ (constructs t).items, (constructs t).fault⟩ := by
  fun_induction constructs s with
  | case1 s hs =>
    refine constructs_congr ?_
    rw [fromMark_append, hs]
    rfl
  | case2 s mark behind hs fault hr => cases h
  | case3 s mark behind hs c rest hr ih =>
    have hmark : fromMark (s ++ t) = mark :: (behind ++ t) := by
      rw [fromMark_append, hs]
      rfl
    rw [constructs_of_ok hmark (Construct.read_append hr t), ih h]
    rfl

end

end RegMap.Markup
