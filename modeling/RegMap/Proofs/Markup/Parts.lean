import RegMap.Proofs.Markup.Exchange

set_option autoImplicit false

namespace RegMap.Markup

/-- No construct goes on behind the text: reading begins afresh there, or has ended for good. -/
def Outside (s : List Char) : Prop :=
  (constructs s).fault = none ∨ ∀ t, constructs (s ++ t) = constructs s

def tagEvents (s : List Char) : List Event := (tagContents s).map Event.ofContent

def eventsIn (opened : List (List Char)) (s : List Char) : Reading Event :=
  nested opened (constructs s).fault (constructs s).items

/-- Both texts have no fault, and one leaves the same elements open as the other. -/
structure SameNesting (x y : List Char) : Prop where
  left : (constructs x).fault = none
  right : (constructs y).fault = none
  opened : ∀ opened, ∃ names, (tagEvents x).foldlM Event.nest opened = .ok names ∧
    (tagEvents y).foldlM Event.nest opened = .ok names

structure Whole (s : List Char) : Prop where
  fault : (constructs s).fault = none
  opened : ∀ opened, (tagEvents s).foldlM Event.nest opened = .ok opened

def bracketed (content : List Char) : List Char := '<' :: (content ++ ['>'])

/-- The quotes pair off, and `>` stands only within them. -/
inductive Paired : List Char → Prop where
  | nil : Paired []
  | plain {c : Char} {s : List Char} (hc : c ≠ '>' ∧ c ≠ '"' ∧ c ≠ '\'') (h : Paired s) :
      Paired (c :: s)
  | quoted {quote : Char} {raw s : List Char} (hq : quote = '"' ∨ quote = '\'')
      (hraw : quote ∉ raw) (h : Paired s) : Paired (quote :: (raw ++ quote :: s))

/-- A comment, character data or an instruction. XML has stricter rules for what is in them. -/
inductive Aside : List Char → Prop where
  | comment {s : List Char} (h : ¬ "-->".toList <:+: s) :
      Aside ("<!--".toList ++ (s ++ "-->".toList))
  | characterData {s : List Char} (h : ¬ "]]>".toList <:+: s) :
      Aside ("<![CDATA[".toList ++ (s ++ "]]>".toList))
  | instruction {s : List Char} (h : ¬ "?>".toList <:+: s) (hs : s.head? ≠ some '>') :
      Aside ("<?".toList ++ (s ++ "?>".toList))

section

variable {a x y s t content between : List Char} {opened names : List (List Char)}
  {cs ds : List Construct} {fault : Option Fault} {f : Fault} {es : List Event} {e : Event}
  {c : Char}

theorem nested_append_of_fault (h : (nested opened none cs).fault = some f) :
    nested opened fault (cs ++ ds) = nested opened none cs := by
  fun_induction nested opened none cs with
  | case1 => cases h
  | case2 opened cs ih =>
    rw [List.cons_append, nested]
    exact ih h
  | case3 opened content cs g hnest => rw [List.cons_append, nested, hnest]
  | case4 opened content cs inner hnest ih =>
    rw [List.cons_append, nested, hnest]
    exact congrArg (Reading.cons _) (ih h)

/-- Behind a cut outside of markup, reading goes on with the elements that are open there, unless
it has ended in front of it. -/
theorem events_of_outside (h : Outside a) : (∀ t, events (a ++ t) = events a) ∨
    ∃ opened, ∀ t, events (a ++ t) =
      ⟨(events a).items ++ (eventsIn opened t).items, (eventsIn opened t).fault⟩ := by
  rcases h with hnone | hends
  · have hevents : events a = nested [] none (constructs a).items := by rw [events, hnone]
    have happend (t : List Char) : events (a ++ t) =
        nested [] (constructs t).fault ((constructs a).items ++ (constructs t).items) := by
      rw [events, constructs_append hnone t]
    cases hf : (events a).fault with
    | none =>
      obtain ⟨names, hnames⟩ := nested_events a
      rw [hevents] at hf hnames
      refine .inr ⟨names, fun t => ?_⟩
      rw [happend, nested_append hf hnames, hevents]
      rfl
    | some f =>
      rw [hevents] at hf
      refine .inl fun t => ?_
      rw [happend, nested_append_of_fault hf, hevents]
  · exact .inl fun t => by rw [events, hends t, ← events]

theorem constructs_bracketed (h : IsContent content) (t : List Char) :
    constructs (bracketed content ++ t) = (constructs t).cons (.tag content) := by
  rw [bracketed, List.cons_append, List.append_assoc]
  exact constructs_of_ok rfl (h.read t)

theorem tagEvents_append (h : (constructs s).fault = none) (t : List Char) :
    (constructs (s ++ t)).fault = (constructs t).fault ∧
      tagEvents (s ++ t) = tagEvents s ++ tagEvents t := by
  simp only [tagEvents, tagContents, constructs_append h t, List.filterMap_append, List.map_append,
    true_and]

theorem tagEvents_bracketed (h : IsContent content) :
    (constructs (bracketed content)).fault = none ∧
      tagEvents (bracketed content) = [Event.ofContent content] := by
  have hread := constructs_bracketed h []
  have hnil : constructs [] = .nil := constructs_of_nil rfl
  rw [List.append_nil, hnil] at hread
  rw [tagEvents, tagContents, hread]
  exact ⟨rfl, rfl⟩

theorem tagEvents_between (h : '<' ∉ between) :
    (constructs between).fault = none ∧ tagEvents between = [] := by
  rw [tagEvents, tagContents, constructs_between h]
  exact ⟨rfl, rfl⟩

theorem eventsIn_append (h : (constructs s).fault = none)
    (hn : (tagEvents s).foldlM Event.nest opened = .ok names) (t : List Char) :
    eventsIn opened (s ++ t) =
      ⟨tagEvents s ++ (eventsIn names t).items, (eventsIn names t).fault⟩ := by
  have hs : nested opened none (constructs s).items = ⟨tagEvents s, none⟩ := nested_of_fits hn
  have hfault : (nested opened none (constructs s).items).fault = none := by rw [hs]
  rw [eventsIn, constructs_append h t, nested_append hfault (by rw [hs]; exact hn), hs]
  rfl

/-- The events of a text in which a part is exchanged for another. -/
theorem events_exchange (ha : Outside a) (h : SameNesting x y) (b : List Char) :
    (∀ t, events (a ++ t) = events a) ∨ ∃ behind : Reading Event,
      events (a ++ (x ++ b)) = ⟨(events a).items ++ (tagEvents x ++ behind.items), behind.fault⟩ ∧
        events (a ++ (y ++ b)) =
          ⟨(events a).items ++ (tagEvents y ++ behind.items), behind.fault⟩ := by
  rcases events_of_outside ha with hends | ⟨opened, hgoes⟩
  · exact .inl hends
  · obtain ⟨names, hx, hy⟩ := h.opened opened
    refine .inr ⟨eventsIn names b, ?_, ?_⟩
    · rw [hgoes, eventsIn_append h.left hx]
    · rw [hgoes, eventsIn_append h.right hy]

theorem foldlM_nest_close (name : List Char) (opened : List (List Char)) :
    [Event.close name].foldlM Event.nest (name :: opened) = .ok opened := by
  have hclose : (Event.close name).nest (name :: opened) = .ok opened := if_pos rfl
  rw [List.foldlM_cons, hclose]
  rfl

theorem nest_append (base : List (List Char)) (h : e.nest opened = .ok names) :
    e.nest (opened ++ base) = .ok (names ++ base) := by
  cases e with
  | start tag =>
    obtain rfl := Except.ok.inj h
    rfl
  | empty tag =>
    obtain rfl := Except.ok.inj h
    rfl
  | close name =>
    cases opened with
    | nil => cases h
    | cons innermost outer =>
      rw [List.cons_append, Event.nest]
      rw [Event.nest] at h
      split at h
      · next hname =>
        obtain rfl := Except.ok.inj h
        rw [if_pos hname]
      · cases h

theorem foldlM_nest_append (base : List (List Char)) (h : es.foldlM Event.nest opened = .ok names) :
    es.foldlM Event.nest (opened ++ base) = .ok (names ++ base) := by
  induction es generalizing opened with
  | nil =>
    obtain rfl := Except.ok.inj h
    rfl
  | cons e es ih =>
    rw [List.foldlM_cons] at h ⊢
    obtain ⟨inner, hnest, h⟩ := ok_of_bind h
    rw [nest_append base hnest]
    exact ih h

theorem whole_of_events (hf : (events s).fault = none) (ho : openElements (events s).items = []) :
    Whole s := by
  obtain ⟨hconstructs, hitems⟩ := events_of_no_fault hf
  obtain ⟨names, hn⟩ := nested_events s
  have hclosed : names = [] := by rw [names_openElements hn, ho, List.map_nil]
  rw [hclosed, hitems] at hn
  exact ⟨hconstructs, fun opened => foldlM_nest_append opened hn⟩

theorem whole_of_between (h : '<' ∉ between) : Whole between := by
  obtain ⟨hfault, hevents⟩ := tagEvents_between h
  exact ⟨hfault, fun opened => by rw [hevents]; rfl⟩

namespace Whole

theorem append (hs : Whole s) (ht : Whole t) : Whole (s ++ t) := by
  obtain ⟨hfault, hevents⟩ := tagEvents_append hs.fault t
  refine ⟨hfault.trans ht.fault, fun opened => ?_⟩
  rw [hevents, List.foldlM_append, hs.opened opened]
  exact ht.opened opened

theorem sameNesting (hs : Whole s) (ht : Whole t) : SameNesting s t :=
  ⟨hs.fault, ht.fault, fun opened => ⟨opened, hs.opened opened, ht.opened opened⟩⟩

end Whole

/-- A mark that no text ends early is the first that is found. -/
theorem cut?_closing {mark : List Char} {last : Char} (hl : last ∉ mark)
    (h : ¬ mark ++ [last] <:+: s) (t : List Char) :
    cut? (mark ++ [last]) (s ++ (mark ++ [last] ++ t)) = some (s, t) := by
  induction s with
  | nil => exact cut?_mark _ t
  | cons c s ih =>
    have hrest : ¬ mark ++ [last] <:+: s := fun hs => h (hs.trans (List.suffix_cons c s).isInfix)
    have hnone : after? (mark ++ [last]) (c :: s ++ (mark ++ [last] ++ t)) = none := by
      refine Option.eq_none_iff_forall_ne_some.mpr fun r hr => ?_
      rw [after?_eq_some_iff] at hr
      rcases List.append_eq_append_iff.mp hr with ⟨behind, hmark, hbehind⟩ | ⟨behind, hs, -⟩
      · -- a mark that began in the text would end within the one behind it, in its last character
        rcases List.eq_nil_or_concat behind with rfl | ⟨front, d, rfl⟩
        · rw [List.append_nil] at hmark
          exact h (hmark ▸ List.infix_rfl)
        · rw [List.concat_eq_append, ← List.append_assoc] at hmark
          obtain ⟨hfront, hd⟩ := List.append_inj' hmark rfl
          obtain rfl := List.singleton_inj.mp hd
          have hlength : front.length < mark.length := by
            rw [hfront, List.length_append, List.length_cons]
            omega
          have hget : (mark ++ last :: t)[front.length]? = some last := by
            simpa using congrArg (·[front.length]?) hbehind
          rw [List.getElem?_append_left hlength] at hget
          exact hl (List.mem_of_getElem? hget)
      · exact h (hs ▸ (List.prefix_append _ _).isInfix)
    rw [List.cons_append] at hnone ⊢
    rw [cut?, hnone, ih hrest]
    rfl

theorem readAside_closing (first : List Char) {mark : List Char} {last : Char}
    (fault : ConstructFault) (hl : last ∉ mark) (h : ¬ mark ++ [last] <:+: s) (t : List Char) :
    Construct.readAside first (mark ++ [last]) fault (first ++ (s ++ (mark ++ [last]) ++ t)) =
      .ok (.aside, t) := by
  have hfirst := after?_eq_some_iff.mpr
    (rfl : first ++ (s ++ (mark ++ [last]) ++ t) = first ++ (s ++ (mark ++ [last]) ++ t))
  rw [Construct.readAside, hfirst, Option.bind_some, List.append_assoc, cut?_closing hl h]

theorem readInstruction_of_head (h : s.head? ≠ some '>') : Construct.readInstruction s =
    Construct.readAside [] "?>".toList .unclosedInstruction s := by
  unfold Construct.readInstruction
  split
  · simp at h
  · rfl

theorem Aside.read (h : Aside s) : ∃ source, s = '<' :: source ∧
    ∀ t, Construct.read (source ++ t) = .ok (.aside, t) := by
  cases h with
  | @comment s h =>
    refine ⟨"!--".toList ++ (s ++ "-->".toList), rfl, fun t => ?_⟩
    rw [List.append_assoc]
    have hmark : '>' ∉ ['-', '-'] := by decide
    exact readAside_closing ['-'] _ hmark h t
  | @characterData s h =>
    refine ⟨"![CDATA[".toList ++ (s ++ "]]>".toList), rfl, fun t => ?_⟩
    rw [List.append_assoc]
    have hmark : '>' ∉ [']', ']'] := by decide
    exact readAside_closing "CDATA[".toList _ hmark h t
  | @instruction s h hs =>
    refine ⟨'?' :: (s ++ "?>".toList), rfl, fun t => ?_⟩
    have hhead : (s ++ "?>".toList ++ t).head? ≠ some '>' := by
      cases s with
      | nil => simp
      | cons c s => simpa using hs
    have hmark : '>' ∉ ['?'] := by decide
    exact (readInstruction_of_head hhead).trans (readAside_closing [] _ hmark h t)

theorem whole_of_aside (h : Aside s) : Whole s ∧ tagEvents s = [] := by
  obtain ⟨source, rfl, hread⟩ := h.read
  have hsource := hread []
  rw [List.append_nil] at hsource
  have hmark : fromMark ('<' :: source) = '<' :: source := rfl
  have hnil : constructs [] = .nil := constructs_of_nil rfl
  have hevents : tagEvents ('<' :: source) = [] := by
    rw [tagEvents, tagContents, constructs_of_ok hmark hsource, hnil]
    rfl
  refine ⟨⟨?_, fun opened => by rw [hevents]; rfl⟩, hevents⟩
  rw [fault_constructs hmark hsource, hnil]
  rfl

theorem Paired.passes (h : Paired s) : Passes s := by
  induction h with
  | nil => exact passes_nil
  | plain hc h ih => exact (passes_char hc).append ih
  | @quoted quote raw s hq hraw h ih =>
    have hall := (passes_quoted hq hraw).append ih
    simpa using hall

/-- Scanning for the end of a tag finds it in the text, or goes on behind it. -/
theorem cutTag?_behind (quote : Option Char) (hq : ∀ q ∈ quote, q = '"' ∨ q = '\'')
    (s : List Char) :
    (∃ before rest, ∀ t, cutTag? quote (s ++ t) = some (before, rest ++ t)) ∨
      ∃ behind : Option Char, (∀ q ∈ behind, q = '"' ∨ q = '\'') ∧ ∀ t, cutTag? quote (s ++ t) =
        (cutTag? behind t).map fun parts => (s ++ parts.1, parts.2) := by
  fun_induction cutTag? quote s with
  | case1 quote => exact .inr ⟨quote, hq, fun t => by simp⟩
  | case2 quote c s ih =>
    rcases ih (by split <;> simp_all) with ⟨before, rest, hfound⟩ | ⟨behind, hbehind, hgoes⟩
    · exact .inl ⟨c :: before, rest, fun t => by simp [cutTag?, hfound]⟩
    · exact .inr ⟨behind, hbehind, fun t => by simp [cutTag?, hgoes, Function.comp_def]⟩
  | case3 s => exact .inl ⟨[], s, fun t => by simp [cutTag?]⟩
  | case4 c s hc ih =>
    rcases ih (by split <;> simp_all) with ⟨before, rest, hfound⟩ | ⟨behind, hbehind, hgoes⟩
    · exact .inl ⟨c :: before, rest, fun t => by simp [cutTag?, hc, hfound]⟩
    · exact .inr ⟨behind, hbehind, fun t => by simp [cutTag?, hc, hgoes, Function.comp_def]⟩

theorem passes_of_concat (hc : c ≠ '"' ∧ c ≠ '\'') (h : Passes (s ++ [c])) : Passes s := by
  have hall (t : List Char) : cutTag? none (s ++ c :: t) =
      (cutTag? none t).map fun parts => (s ++ c :: parts.1, parts.2) := by
    simpa using h t
  rcases cutTag?_behind none nofun s with
    ⟨before, rest, hfound⟩ | ⟨_ | quote, hquote, hgoes⟩
  · have hnone := hall []
    rw [hfound] at hnone
    cases hnone
  · exact hgoes
  · -- within an open quote, the `>` behind the character would not end the tag
    have hne : c ≠ quote := by
      rcases hquote quote rfl with rfl | rfl
      · exact hc.1
      · exact hc.2
    have hend := hall ['>']
    rw [hgoes] at hend
    simp [cutTag?, hne] at hend

theorem IsContent.head?_ne (h : IsContent content) :
    content.head? ≠ some '!' ∧ content.head? ≠ some '?' := by
  constructor
  · intro hhead
    obtain ⟨rest, rfl⟩ := List.head?_eq_some_iff.mp hhead
    cases (Construct.readDeclaration_source h).1
  · intro hhead
    obtain ⟨rest, rfl⟩ := List.head?_eq_some_iff.mp hhead
    cases (Construct.readInstruction_source h).1

theorem paired_of_all (h : s.all fun c => !(['>', '"', '\''].contains c)) : Paired s := by
  induction s with
  | nil => exact .nil
  | cons c s ih =>
    rw [List.all_cons, Bool.and_eq_true] at h
    exact .plain (by simpa using h.1) (ih h.2)

end

end RegMap.Markup
