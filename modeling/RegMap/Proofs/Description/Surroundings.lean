import RegMap.Proofs.Description.Exchanged

set_option autoImplicit false

namespace RegMap.Description

open Markup

/-- What may stand behind the name in a start tag. Attributes of XML have stricter rules. -/
structure IsBehindName (text : List Char) : Prop where
  space : ∀ c ∈ text.head?, isSpace c
  paired : Paired text

def element (name text gap inner : List Char) : List Char :=
  bracketed (name ++ text) ++ (inner ++ bracketed ('/' :: (name ++ gap)))

structure PassedElement (name text gap : List Char) : Prop where
  isPassed : IsPassed name
  behind : IsBehindName text
  opens : text.getLast? ≠ some '/'
  isGap : IsGap gap

/-- Markup without groups and registers, whose elements are all complete. -/
inductive PassedOver : List Char → Prop where
  | text {s : List Char} (h : '<' ∉ s) : PassedOver s
  | aside {s : List Char} (h : Aside s) : PassedOver s
  | empty {name text : List Char} (hname : IsPassed name) (htext : IsBehindName text) :
      PassedOver (bracketed (name ++ text ++ ['/']))
  | element {name text gap inner : List Char} (h : PassedElement name text gap)
      (hinner : PassedOver inner) : PassedOver (element name text gap inner)
  | append {s t : List Char} (hs : PassedOver s) (ht : PassedOver t) : PassedOver (s ++ t)

structure IsPassedEvent (e : Event) : Prop where
  not_group : e.named? groupTag = none
  not_register : e.named? registerTag = none
  not_close : e ≠ .close groupTag

section

variable {settings : Settings} {name text gap inner s : List Char} {es : List Event} {e : Event}

theorem run_of_passed (settings : Settings) (p : Progress) (h : ∀ e ∈ es, IsPassedEvent e) :
    p.run settings es = pure p := by
  induction es generalizing p with
  | nil => rfl
  | cons e es ih =>
    obtain ⟨he, hes⟩ := List.forall_mem_cons.mp h
    rw [Progress.run, step_eq_pure settings p he.not_group he.not_register he.not_close, pure_bind,
      ih p hes]

theorem IsBehindName.split (h : IsBehindName text) (hname : IsPassed name) :
    Tag.name ⟨name ++ text⟩ = name :=
  (split_name (fun c hc => (hname.plain.forall_mem c hc).1) h.space).1

theorem passed_named (hname : IsPassed name) {tag : Tag} (hn : tag.name = name) :
    IsPassedEvent (.start tag) ∧ IsPassedEvent (.empty tag) := by
  have hgroup : tag.name ≠ groupTag := hn ▸ hname.ne_group
  have hregister : tag.name ≠ registerTag := hn ▸ hname.ne_register
  exact ⟨⟨if_neg hgroup, if_neg hregister, nofun⟩, ⟨if_neg hgroup, if_neg hregister, nofun⟩⟩

theorem passed_close (hname : IsPassed name) : IsPassedEvent (.close name) :=
  ⟨rfl, rfl, fun h => hname.ne_group (Event.close.inj h)⟩

namespace PassedElement

variable (h : PassedElement name text gap)
include h

theorem tagEvents_endTag : (constructs (bracketed ('/' :: (name ++ gap)))).fault = none ∧
    tagEvents (bracketed ('/' :: (name ++ gap))) = [.close name] := by
  have hslash : Passes ['/'] := passes_char (by decide)
  have hpasses := hslash.append (h.isPassed.plain.passes.append (passes_gap h.isGap))
  obtain ⟨hfault, hevents⟩ := tagEvents_bracketed (isContent_of_passes hpasses (by simp))
  have hspace : ∀ c ∈ name, isSpace c = false := fun c hc => (h.isPassed.plain.forall_mem c hc).1
  have hclose : Event.ofContent ('/' :: (name ++ gap)) = .close name :=
    congrArg Event.close (endName_written h.isPassed.plain.1 hspace h.isGap)
  exact ⟨hfault, hclose ▸ hevents⟩

/-- The tags of the element are those in it, between its own. -/
theorem tagEvents_element (hinner : (constructs inner).fault = none) :
    (constructs (element name text gap inner)).fault = none ∧
      tagEvents (element name text gap inner) =
        .start ⟨name ++ text⟩ :: (tagEvents inner ++ [.close name]) := by
  obtain ⟨hstart, hstartEvents⟩ :=
    tagEvents_startTag h.isPassed.plain h.behind.paired.passes h.opens
  obtain ⟨hend, hendEvents⟩ := h.tagEvents_endTag
  obtain ⟨hbehind, hbehindEvents⟩ := tagEvents_append hinner (bracketed ('/' :: (name ++ gap)))
  obtain ⟨hall, hallEvents⟩ :=
    tagEvents_append hstart (inner ++ bracketed ('/' :: (name ++ gap)))
  rw [hstartEvents, hbehindEvents, hendEvents] at hallEvents
  exact ⟨hall.trans (hbehind.trans hend), hallEvents⟩

theorem whole (hinner : Whole inner) : Whole (element name text gap inner) := by
  obtain ⟨hfault, hevents⟩ := h.tagEvents_element hinner.fault
  refine ⟨hfault, fun opened => ?_⟩
  have hname := h.behind.split h.isPassed
  rw [hevents, List.foldlM_cons, Event.nest, hname]
  change (tagEvents inner ++ [Event.close name]).foldlM Event.nest (name :: opened) = _
  rw [List.foldlM_append, hinner.opened]
  exact foldlM_nest_close name opened

theorem run_element (settings : Settings) (p : Progress)
    (hinner : (constructs inner).fault = none) :
    p.run settings (tagEvents (element name text gap inner)) =
      p.run settings (tagEvents inner) := by
  obtain ⟨hstart, -⟩ := passed_named h.isPassed (h.behind.split h.isPassed)
  have hend (q : Progress) : q.run settings [.close name] = pure q :=
    run_of_passed settings q (List.forall_mem_singleton.mpr (passed_close h.isPassed))
  rw [(h.tagEvents_element hinner).2, Progress.run,
    step_eq_pure settings p hstart.not_group hstart.not_register hstart.not_close, pure_bind,
    run_append]
  simp only [hend, bind_pure]

end PassedElement

theorem PassedOver.whole (h : PassedOver s) : Whole s ∧ ∀ e ∈ tagEvents s, IsPassedEvent e := by
  induction h with
  | text h =>
    refine ⟨whole_of_between h, ?_⟩
    rw [(tagEvents_between h).2]
    exact nofun
  | aside h =>
    obtain ⟨hwhole, hevents⟩ := whole_of_aside h
    refine ⟨hwhole, ?_⟩
    rw [hevents]
    exact nofun
  | empty hname htext =>
    obtain ⟨hfault, hevents⟩ := tagEvents_emptyTag hname.plain htext.paired.passes
    refine ⟨⟨hfault, fun opened => by rw [hevents]; rfl⟩, ?_⟩
    rw [hevents]
    exact List.forall_mem_singleton.mpr (passed_named hname (htext.split hname)).2
  | element h hinner ih =>
    refine ⟨h.whole ih.1, ?_⟩
    rw [(h.tagEvents_element ih.1.fault).2]
    refine List.forall_mem_cons.mpr ⟨(passed_named h.isPassed (h.behind.split h.isPassed)).1, ?_⟩
    refine List.forall_mem_append.mpr ⟨ih.2, ?_⟩
    exact List.forall_mem_singleton.mpr (passed_close h.isPassed)
  | append hs ht ihs iht =>
    refine ⟨ihs.1.append iht.1, ?_⟩
    rw [(tagEvents_append ihs.1.fault _).2]
    exact List.forall_mem_append.mpr ⟨ihs.2, iht.2⟩

end

/-- Wherever it stands outside of other markup, markup without groups and registers makes no
difference to loading, and nor do the tags of an element of another name around whole elements. -/
theorem load_surrounded (settings : Settings) {a : List Char} (ha : Outside a) (b : List Char) :
    (∀ s, PassedOver s → load settings (a ++ (s ++ b)) = load settings (a ++ b)) ∧
      ∀ name text gap m, PassedElement name text gap → (events m).fault = none →
        openElements (events m).items = [] →
        load settings (a ++ (element name text gap m ++ b)) = load settings (a ++ (m ++ b)) := by
  constructor
  · intro s hs
    obtain ⟨hwhole, hpassed⟩ := hs.whole
    have hnone : Whole [] := whole_of_between List.not_mem_nil
    refine load_exchange ha (hwhole.sameNesting hnone) (fun p _ => ?_) b
    rw [run_of_passed settings p hpassed, (tagEvents_between List.not_mem_nil).2]
    rfl
  · intro name text gap m h hfault hopen
    have hwhole := whole_of_events hfault hopen
    refine load_exchange ha ((h.whole hwhole).sameNesting hwhole) (fun p _ => ?_) b
    exact h.run_element settings p hwhole.fault

def remark : List Char :=
  "<!--".toList ++ (" <x> ".toList ++ "-->".toList) ++
    element "note".toList " by='>'".toList [] "first of all".toList

def groupStart : List Char := "<tv_registers name='g'>".toList

def groupRest : List Char := "<register name='r'/></tv_registers>".toList

theorem load_surrounded_remark :
    Outside groupStart ∧ PassedOver remark ∧ PassedElement "note".toList " by='>'".toList [] ∧
      (load {} (groupStart ++ (remark ++ groupRest))).result =
        .ok [⟨"g", {}, [⟨"r", 1, 0, .config 0⟩]⟩] ∧
      (load {} ([] ++ (element "note".toList " by='>'".toList [] (groupStart ++ groupRest) ++
        "</x>".toList))).result =
          .error (.markup (.nesting (.unmatchedEnd "x"))) := by
  have hname : IsPassed "note".toList := ⟨by decide, by decide, by decide⟩
  have hvalue : Paired ('\'' :: (['>'] ++ '\'' :: [])) := .quoted (.inr rfl) (by decide) .nil
  have hquoted : Paired " by='>'".toList :=
    .plain (by decide) (.plain (by decide) (.plain (by decide) (.plain (by decide) hvalue)))
  have hnote : PassedElement "note".toList " by='>'".toList [] :=
    ⟨hname, ⟨by simp [isSpace], hquoted⟩, by decide, isGap_nil⟩
  have hremark : PassedOver remark :=
    .append (.aside (.comment (by decide))) (.element hnote (.text (by decide)))
  have hstart : Outside groupStart := .inl (by decide +kernel)
  have hnil : Outside [] := .inl (by decide +kernel)
  refine ⟨hstart, hremark, hnote, ?_, ?_⟩
  · rw [(load_surrounded {} hstart groupRest).1 remark hremark]
    decide +kernel
  · rw [(load_surrounded {} hnil "</x>".toList).2 _ _ _ _ hnote (by decide +kernel)
      (by decide +kernel)]
    decide +kernel

end RegMap.Description
