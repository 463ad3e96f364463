import Mathlib.Data.List.DropRight
import RegMap.Proofs.Markup.Marks
import RegMap.Proofs.Markup.Nesting

set_option autoImplicit false

namespace RegMap.Markup

def Construct.content? : Construct → Option (List Char)
  | .tag content => some content
  | .aside => none

def tagContents (s : List Char) : List (List Char) :=
  (constructs s).items.filterMap Construct.content?

/-- The text with other contents in its tags, in turn; with too few of them the last tags are
left. -/
def exchange (contents : List (List Char)) (s : List Char) : List Char :=
  match contents with
  | [] => s
  | content :: more =>
    match _hs : fromMark s with
    | [] => s
    | mark :: behind =>
      match _hr : Construct.read behind with
      | .error _ => s
      | .ok (.tag _, rest) =>
        s.takeWhile (· != '<') ++ mark :: (content ++ '>' :: exchange more rest)
      | .ok (.aside, rest) => s.rdrop rest.length ++ exchange (content :: more) rest
termination_by s.length
decreasing_by
  all_goals
    have h₁ := length_fromMark s
    have h₂ := Construct.length_read _hr
    rw [_hs, List.length_cons] at h₁
    omega

/-- The content makes a tag that ends at its own mark. -/
def IsContent (content : List Char) : Prop :=
  Construct.read (content ++ ['>']) = .ok (.tag content, [])

instance (content : List Char) : Decidable (IsContent content) :=
  inferInstanceAs (Decidable (_ = _))

section

variable {s behind rest between content : List Char} {contents opened names : List (List Char)}
  {mark : Char} {c : Construct} {cs : List Construct} {fault : Option Fault}

theorem IsContent.read (h : IsContent content) (t : List Char) :
    Construct.read (content ++ '>' :: t) = .ok (.tag content, t) := by
  have happend := Construct.read_append h t
  rwa [List.append_assoc] at happend

theorem isContent_of_read (h : Construct.read s = .ok (.tag content, rest)) :
    IsContent content ∧ s = content ++ '>' :: rest := by
  obtain ⟨source, rfl, hread, hsource⟩ := Construct.read_source h
  obtain rfl := hsource content rfl
  refine ⟨?_, by simp⟩
  have hend := hread []
  rwa [List.append_nil] at hend

theorem IsContent.passes (h : IsContent content) : Passes content := by
  unfold IsContent Construct.read at h
  split at h
  · cases (Construct.readDeclaration_source h).1
  · cases (Construct.readInstruction_source h).1
  · unfold Construct.readTag at h
    split at h
    · next hcut =>
      cases h
      exact cutTag?_of_some hcut
    · cases h

theorem isContent_of_passes (hp : Passes content)
    (hh : content.head? ≠ some '!' ∧ content.head? ≠ some '?') : IsContent content := by
  have hcut := hp.cut []
  cases content with
  | nil => rfl
  | cons c content =>
    have hc : c ≠ '!' ∧ c ≠ '?' := by simpa using hh
    rw [IsContent, List.cons_append, read_tag hc, Construct.readTag, ← List.cons_append, hcut]

theorem eq_of_fromMark (h : fromMark s = mark :: behind) :
    mark = '<' ∧ '<' ∉ s.takeWhile (· != '<') ∧ s.takeWhile (· != '<') ++ mark :: behind = s := by
  refine ⟨?_, fun hmem => ?_, ?_⟩
  · have hhead := List.head?_dropWhile_not (· != '<') s
    rw [fromMark] at h
    rw [h] at hhead
    simpa using hhead
  · simpa using List.mem_takeWhile_imp hmem
  · rw [← h, fromMark, List.takeWhile_append_dropWhile]

theorem fault_constructs (hs : fromMark s = mark :: behind)
    (hr : Construct.read behind = .ok (c, rest)) :
    (constructs s).fault = (constructs rest).fault := by
  rw [constructs_of_ok hs hr]
  rfl

theorem tagContents_tag (hs : fromMark s = mark :: behind)
    (hr : Construct.read behind = .ok (.tag content, rest)) :
    tagContents s = content :: tagContents rest := by
  rw [tagContents, constructs_of_ok hs hr]
  rfl

theorem tagContents_aside (hs : fromMark s = mark :: behind)
    (hr : Construct.read behind = .ok (.aside, rest)) : tagContents s = tagContents rest := by
  rw [tagContents, constructs_of_ok hs hr]
  rfl

theorem isContent_of_mem (h : content ∈ tagContents s) : IsContent content := by
  fun_induction constructs s with
  | case1 s hs => simp [tagContents, constructs_of_nil hs, Reading.nil] at h
  | case2 s mark behind hs fault hr =>
    simp [tagContents, constructs_of_error hs hr, Reading.stop] at h
  | case3 s mark behind hs c rest hr ih =>
    cases c with
    | aside => exact ih (tagContents_aside hs hr ▸ h)
    | tag first =>
      rw [tagContents_tag hs hr] at h
      rcases List.mem_cons.mp h with rfl | h
      · exact (isContent_of_read hr).1
      · exact ih h

/-- The text has the new tags and no fault. -/
theorem exchanged (h : (constructs s).fault = none)
    (hlength : contents.length = (tagContents s).length) (hc : ∀ c ∈ contents, IsContent c) :
    (constructs (exchange contents s)).fault = none ∧
      tagContents (exchange contents s) = contents := by
  fun_induction exchange contents s with
  | case1 s => exact ⟨h, List.length_eq_zero_iff.mp hlength.symm⟩
  | case2 s content more hs =>
    rw [tagContents, constructs_of_nil hs] at hlength
    cases hlength
  | case3 s content more mark behind hs fault hr =>
    rw [constructs_of_error hs hr] at h
    cases h
  | case4 s content more mark behind hs old rest hr ih =>
    obtain ⟨rfl, hb, -⟩ := eq_of_fromMark hs
    obtain ⟨hcontent, hmore⟩ := List.forall_mem_cons.mp hc
    have hmark := fromMark_between (s := content ++ '>' :: exchange more rest) hb
    have hread := hcontent.read (exchange more rest)
    rw [tagContents_tag hs hr, List.length_cons, List.length_cons] at hlength
    rw [fault_constructs hs hr] at h
    obtain ⟨hfault, htags⟩ := ih h (Nat.succ.inj hlength) hmore
    rw [fault_constructs hmark hread, tagContents_tag hmark hread, htags]
    exact ⟨hfault, rfl⟩
  | case5 s content more mark behind hs rest hr ih =>
    obtain ⟨rfl, hb, hsplit⟩ := eq_of_fromMark hs
    obtain ⟨source, rfl, hread, -⟩ := Construct.read_source hr
    have hfront : s.rdrop rest.length = s.takeWhile (· != '<') ++ '<' :: source := by
      have hs : s = s.takeWhile (· != '<') ++ '<' :: source ++ rest := by simpa using hsplit.symm
      conv_lhs => rw [hs, List.rdrop_append_length]
    have hmark := fromMark_between (s := source ++ exchange (content :: more) rest) hb
    rw [tagContents_aside hs hr] at hlength
    rw [fault_constructs hs hr] at h
    rw [hfront, List.append_assoc, List.cons_append, fault_constructs hmark (hread _),
      tagContents_aside hmark (hread _)]
    exact ih h hlength hc

theorem items_of_nested (h : (nested opened fault cs).fault = none) :
    (nested opened fault cs).items = (cs.filterMap Construct.content?).map Event.ofContent := by
  fun_induction nested opened fault cs with
  | case1 => rfl
  | case2 opened cs ih => exact ih h
  | case3 => cases h
  | case4 opened content cs inner hnest ih =>
    rw [Reading.cons, ih h]
    rfl

theorem nested_of_fits
    (h : ((cs.filterMap Construct.content?).map Event.ofContent).foldlM Event.nest opened =
      .ok names) :
    nested opened none cs = ⟨(cs.filterMap Construct.content?).map Event.ofContent, none⟩ := by
  induction cs generalizing opened with
  | nil => rfl
  | cons c cs ih =>
    cases c with
    | aside => exact ih h
    | tag content =>
      change (Event.ofContent content :: _).foldlM Event.nest opened = _ at h
      rw [List.foldlM_cons] at h
      obtain ⟨inner, hnest, h⟩ := ok_of_bind h
      rw [nested, hnest]
      simp only [ih h, Reading.cons]
      rfl

theorem ofContent_eq_start_iff {tag : Tag} : Event.ofContent content = .start tag ↔
    content = tag.content ∧ content.head? ≠ some '/' ∧ content.getLast? ≠ some '/' := by
  by_cases hh : content.head? = some '/'
  · obtain ⟨rest, rfl⟩ := List.head?_eq_some_iff.mp hh
    simp [Event.ofContent]
  · rw [ofContent_of_head hh]
    split
    · next hlast => simp [hlast]
    · next hlast =>
      simp only [Event.start.injEq, hh, hlast, not_false_iff, and_true, ne_eq]
      exact ⟨fun h => h ▸ rfl, fun h => h ▸ rfl⟩

theorem ofContent_eq_empty_iff {tag : Tag} : Event.ofContent content = .empty tag ↔
    content = tag.content ++ ['/'] ∧ content.head? ≠ some '/' := by
  by_cases hh : content.head? = some '/'
  · obtain ⟨rest, rfl⟩ := List.head?_eq_some_iff.mp hh
    simp [Event.ofContent]
  · rw [ofContent_of_head hh]
    split
    · next hlast =>
      obtain ⟨front, rfl⟩ := List.getLast?_eq_some_iff.mp hlast
      simp only [List.dropLast_concat, Event.empty.injEq, hh, not_false_iff, and_true, ne_eq,
        List.append_left_inj]
      exact ⟨fun h => h ▸ rfl, fun h => h ▸ rfl⟩
    · next hlast =>
      have hne : content ≠ tag.content ++ ['/'] := by
        rintro rfl
        exact hlast List.getLast?_concat
      simp [hne]

theorem endName_append (s : List Char) : ∃ gap, IsGap gap ∧ s = endName s ++ gap := by
  unfold endName
  dsimp only
  split
  · exact ⟨[], isGap_nil, (List.append_nil s).symm⟩
  · refine ⟨(s.reverse.takeWhile isSpace).reverse, fun c hc => ?_, ?_⟩
    · exact List.mem_takeWhile_imp (List.mem_reverse.mp hc)
    · rw [← List.reverse_append, List.takeWhile_append_dropWhile, List.reverse_reverse]

theorem eq_of_ofContent_close {name : List Char} (h : Event.ofContent content = .close name) :
    ∃ gap, IsGap gap ∧ content = '/' :: (name ++ gap) := by
  by_cases hh : content.head? = some '/'
  · obtain ⟨rest, rfl⟩ := List.head?_eq_some_iff.mp hh
    obtain ⟨gap, hgap, hrest⟩ := endName_append rest
    obtain rfl := Event.close.inj h
    exact ⟨gap, hgap, congrArg ('/' :: ·) hrest⟩
  · rw [ofContent_of_head hh] at h
    split at h <;> cases h

theorem events_of_no_fault (h : (events s).fault = none) :
    (constructs s).fault = none ∧ (events s).items = (tagContents s).map Event.ofContent :=
  ⟨fault_of_nested h, items_of_nested h⟩

theorem events_of_contents (h : (constructs s).fault = none)
    (hn : Nested ((tagContents s).map Event.ofContent)) :
    events s = ⟨(tagContents s).map Event.ofContent, none⟩ := by
  obtain ⟨names, hn⟩ := hn
  rw [events, h]
  exact nested_of_fits hn

end

end RegMap.Markup
