import Mathlib.Data.List.Induction
import RegMap.Markup.Event
import RegMap.Proofs.Markup.Continued

set_option autoImplicit false

namespace RegMap.Markup

structure Element where
  position : Nat
  tag : Tag
  deriving DecidableEq, Repr

def Element.name (x : Element) : List Char := x.tag.name

/-- The tag of the element of that name which begins with the event, if one does. -/
def Event.named? (name : List Char) : Event → Option Tag
  | .start tag | .empty tag => if tag.name = name then some tag else none
  | .close _ => none

/-- The open elements, innermost first, after the event at the position. -/
def Event.enclose (position : Nat) (opened : List Element) : Event → List Element
  | .start tag => ⟨position, tag⟩ :: opened
  | .empty _ => opened
  | .close _ => opened.tail

def openElements (es : List Event) : List Element :=
  es.zipIdx.foldl (fun opened x => x.1.enclose x.2 opened) []

def Nested (es : List Event) : Prop := ∃ names, es.foldlM Event.nest [] = .ok names

section

variable {es : List Event} {e : Event} {tag : Tag} {x : Element} {name : List Char}
  {names : List (List Char)} {elements : List Element}

theorem named?_eq_some_iff :
    e.named? name = some tag ↔ tag.name = name ∧ (e = .start tag ∨ e = .empty tag) := by
  cases e with
  | start t => grind [Event.named?]
  | empty t => grind [Event.named?]
  | close n => grind [Event.named?]

theorem named?_of_ne {other : List Char} (h : e.named? name = some tag) (hne : name ≠ other) :
    e.named? other = none := by
  obtain ⟨rfl, rfl | rfl⟩ := named?_eq_some_iff.mp h
  · exact if_neg hne
  · exact if_neg hne

theorem ne_close_of_named? {other : List Char} (h : e.named? name = some tag) :
    e ≠ .close other := by
  rintro rfl
  cases h

@[simp] theorem openElements_nil : openElements [] = [] := rfl

@[simp] theorem openElements_concat (es : List Event) (e : Event) :
    openElements (es ++ [e]) = e.enclose es.length (openElements es) := by
  simp [openElements, List.zipIdx_append]

theorem nest_close (h : (Event.close name).nest (elements.map Element.name) = .ok names) :
    ∃ x outer, elements = x :: outer ∧ x.name = name ∧ names = outer.map Element.name := by
  cases elements with
  | nil => cases h
  | cons x outer =>
    rw [List.map_cons, Event.nest] at h
    split at h
    · next hname => exact ⟨x, outer, rfl, hname.symm, (Except.ok.inj h).symm⟩
    · cases h

theorem nest_elements (position : Nat) (h : e.nest (elements.map Element.name) = .ok names) :
    names = (e.enclose position elements).map Element.name := by
  cases e with
  | start tag => exact (Except.ok.inj h).symm
  | empty tag => exact (Except.ok.inj h).symm
  | close name =>
    obtain ⟨x, outer, rfl, -, rfl⟩ := nest_close h
    rfl

theorem ok_of_bind {ε α β : Type} {x : Except ε α} {f : α → Except ε β} {b : β}
    (h : x >>= f = .ok b) : ∃ a, x = .ok a ∧ f a = .ok b := by
  cases x with
  | error fault => cases h
  | ok a => exact ⟨a, rfl, h⟩

theorem foldlM_nest_concat (es : List Event) (e : Event) (opened : List (List Char)) :
    (es ++ [e]).foldlM Event.nest opened = es.foldlM Event.nest opened >>= e.nest := by
  simp [List.foldlM_append]

theorem names_openElements (h : es.foldlM Event.nest [] = .ok names) :
    names = (openElements es).map Element.name := by
  induction es using List.reverseRecOn generalizing names with
  | nil => exact (Except.ok.inj h).symm
  | append_singleton es e ih =>
    rw [foldlM_nest_concat] at h
    obtain ⟨before, hfront, h⟩ := ok_of_bind h
    rw [ih hfront] at h
    rw [openElements_concat]
    exact nest_elements _ h

theorem nested_concat (h : Nested (es ++ [e])) :
    Nested es ∧ ∃ names, e.nest ((openElements es).map Element.name) = .ok names := by
  obtain ⟨names, h⟩ := h
  rw [foldlM_nest_concat] at h
  obtain ⟨before, hfront, h⟩ := ok_of_bind h
  rw [names_openElements hfront] at h
  exact ⟨⟨before, hfront⟩, names, h⟩

theorem nested_left {more : List Event} (h : Nested (es ++ more)) : Nested es := by
  obtain ⟨names, h⟩ := h
  rw [List.foldlM_append] at h
  obtain ⟨before, hfront, -⟩ := ok_of_bind h
  exact ⟨before, hfront⟩

theorem getElem?_of_mem_openElements (h : x ∈ openElements es) :
    es[x.position]? = some (.start x.tag) := by
  induction es using List.reverseRecOn with
  | nil => cases h
  | append_singleton es e ih =>
    have hkept (hx : x ∈ openElements es) : (es ++ [e])[x.position]? = some (.start x.tag) := by
      rw [List.getElem?_append_left (List.getElem?_eq_some_iff.mp (ih hx)).1]
      exact ih hx
    rw [openElements_concat] at h
    cases e with
    | start tag =>
      rcases List.mem_cons.mp h with rfl | h
      · simp
      · exact hkept h
    | empty tag => exact hkept h
    | close name => exact hkept (List.mem_of_mem_tail h)

theorem position_lt (h : x ∈ openElements es) : x.position < es.length :=
  (List.getElem?_eq_some_iff.mp (getElem?_of_mem_openElements h)).1

end

section

variable {opened names : List (List Char)} {fault : Option Fault} {cs ds : List Construct}

/-- As far as the reading goes, the events fit each other. -/
theorem exists_foldlM_nest (opened : List (List Char)) (fault : Option Fault)
    (cs : List Construct) :
    ∃ names, (nested opened fault cs).items.foldlM Event.nest opened = .ok names := by
  fun_induction nested opened fault cs with
  | case1 opened => exact ⟨opened, rfl⟩
  | case2 opened cs ih => exact ih
  | case3 opened content cs f hnest => exact ⟨opened, rfl⟩
  | case4 opened content cs inner hnest ih =>
    obtain ⟨names, ih⟩ := ih
    refine ⟨names, ?_⟩
    rw [Reading.cons, List.foldlM_cons, hnest]
    exact ih

theorem nested_events (text : List Char) : Nested (events text).items := exists_foldlM_nest _ _ _

theorem nested_append (h : (nested opened none cs).fault = none)
    (hn : (nested opened none cs).items.foldlM Event.nest opened = .ok names) :
    nested opened fault (cs ++ ds) =
      ⟨(nested opened none cs).items ++ (nested names fault ds).items,
        (nested names fault ds).fault⟩ := by
  fun_induction nested opened none cs with
  | case1 opened =>
    obtain rfl : opened = names := Except.ok.inj hn
    rfl
  | case2 opened cs ih =>
    rw [List.cons_append, nested]
    exact ih h hn
  | case3 opened content cs f hnest => cases h
  | case4 opened content cs inner hnest ih =>
    rw [Reading.cons, List.foldlM_cons, hnest] at hn
    rw [List.cons_append, nested, hnest]
    simp only [ih h hn, Reading.cons, List.cons_append]

theorem fault_of_nested (h : (nested opened fault cs).fault = none) : fault = none := by
  fun_induction nested opened fault cs with
  | case1 opened => exact h
  | case2 opened cs ih => exact ih h
  | case3 opened content cs f hnest => cases h
  | case4 opened content cs inner hnest ih => exact ih h

/-- Behind a text without a fault that ends all its elements, the events of another follow. -/
theorem events_append {a : List Char} (h : (events a).fault = none)
    (hc : openElements (events a).items = []) (b : List Char) :
    events (a ++ b) = ⟨(events a).items ++ (events b).items, (events b).fault⟩ := by
  have hconstructs : (constructs a).fault = none := fault_of_nested h
  have hevents : events a = nested [] none (constructs a).items := by rw [events, hconstructs]
  obtain ⟨names, hnames⟩ := nested_events a
  have hclosed : names = [] := by rw [names_openElements hnames, hc, List.map_nil]
  rw [hclosed, hevents] at hnames
  rw [hevents] at h ⊢
  rw [events, constructs_append hconstructs b]
  exact nested_append h hnames

end

end RegMap.Markup
