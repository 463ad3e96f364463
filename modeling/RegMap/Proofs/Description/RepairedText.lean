import RegMap.Proofs.Description.Repair
import RegMap.Proofs.Markup.Exchange

set_option autoImplicit false

namespace RegMap.Description

open Markup

/-- What the repair of an event depends on: whether a group takes in registers, and the names of the
open elements, innermost first, each with the one that it has in the repaired description. -/
structure Place where
  inGroup : Bool := false
  opened : List (List Char × List Char) := []

def repairEvent (name : List Char) (place : Place) : Event → Event
  | .start tag => .start (repairTag name place.inGroup tag)
  | .empty tag => .empty (repairTag name place.inGroup tag)
  | .close old => .close ((place.opened.head?.map Prod.snd).getD old)

def Place.behind (name : List Char) (place : Place) (e : Event) : Place where
  inGroup := takesIn place.inGroup e
  opened :=
    match e with
    | .start tag => (tag.name, (repairTag name place.inGroup tag).name) :: place.opened
    | .empty _ => place.opened
    | .close _ => place.opened.tail

def repairEvents (name : List Char) (place : Place) : List Event → List Event
  | [] => []
  | e :: es => repairEvent name place e :: repairEvents name (place.behind name e) es

/-- The content of the tag for the event, where `old` was. White space at the end of an end tag is
kept. -/
def rewriteContent (old : List Char) : Event → List Char
  | .start tag => tag.content
  | .empty tag => tag.content ++ ['/']
  | .close name => '/' :: (name ++ old.drop ((endName old.tail).length + 1))

def repairedContents (name : List Char) (text : List Char) : List (List Char) :=
  List.zipWith rewriteContent (tagContents text) (repairEvents name {} (events text).items)

/-- The description with `0` for its bad numbers and with another name for each element of a
register that is left out. -/
def repair (name : List Char) (text : List Char) : List Char :=
  exchange (repairedContents name text) text

def tag? : Event → Option Tag
  | .start tag | .empty tag => some tag
  | .close _ => none

section

variable {name old content : List Char} {place : Place} {e : Event} {tag repaired : Tag}
  {names : List (List Char)} {contents : List (List Char)} {es : List Event}

theorem IsPlain.head? (h : IsPlain name) (text : List Char) :
    (name ++ text).head? ≠ some '/' ∧ (name ++ text).head? ≠ some '!' ∧
      (name ++ text).head? ≠ some '?' := by
  obtain ⟨c, rest, rfl⟩ := List.exists_cons_of_ne_nil h.1
  have hc := (h.forall_mem c List.mem_cons_self).2
  simp only [List.mem_cons, not_or] at hc
  simp [hc]

theorem IsPlain.getLast?_ne (h : IsPlain name) : name.getLast? ≠ some '/' := fun hlast =>
  (h.forall_mem _ (List.mem_of_getLast? hlast)).2 List.mem_cons_self

theorem IsPlain.passes (h : IsPlain name) : Passes name := by
  refine passes_run fun c hc => ?_
  have hplain := (h.forall_mem c hc).2
  simp only [List.mem_cons, not_or] at hplain
  tauto

namespace IsRepair

variable (h : IsRepair name tag repaired) (hname : IsPlain name)
include h hname

theorem plain_name : IsPlain repaired.name := by
  rcases h.named with hkept | ⟨-, hrenamed⟩
  · exact hkept ▸ h.plain
  · exact hrenamed ▸ hname

theorem head?_content (text : List Char) : (repaired.content ++ text).head? ≠ some '/' ∧
    (repaired.content ++ text).head? ≠ some '!' ∧ (repaired.content ++ text).head? ≠ some '?' := by
  obtain ⟨attributes, -, hcontent⟩ := h.content
  rw [hcontent, List.append_assoc]
  exact (h.plain_name hname).head? _

theorem getLast?_content : repaired.content.getLast? ≠ some '/' := by
  obtain ⟨attributes, hattributes, hcontent⟩ := h.content
  rw [hcontent]
  exact getLast?_append_ne (h.plain_name hname).getLast?_ne
    (laid_iff.mp hattributes).1.mended.getLast?_ne

/-- With plain keys the tag is passed as it was before. -/
theorem passes_content (hkeys : PlainKeys tag) {text : List Char}
    (hp : Passes (tag.content ++ text)) : Passes (repaired.content ++ text) := by
  obtain ⟨attributes, hattributes, hcontent⟩ := h.content
  have hlaid := (laid_iff.mp hattributes).1
  rw [content_eq, List.append_assoc] at hp
  have hbehind := h.plain.passes.of_append hp
  rw [hcontent, List.append_assoc]
  refine (h.plain_name hname).passes.append ?_
  by_cases hbad : attributes.any (isBad (numbersOf tag.name attributes))
  · exact passes_mendValues hlaid hbehind (hkeys attributes (by rw [hattributes]; rfl) hbad)
  · rwa [Attribute.mendValues_of_good hlaid fun a ha => ?_]
    simpa using fun hgood => hbad (List.any_eq_true.mpr ⟨a, ha, hgood⟩)

end IsRepair

def Place.Sound (name : List Char) (place : Place) : Prop :=
  ∀ x ∈ place.opened, x.2 = x.1 ∨ x.1 = registerTag ∧ x.2 = name

theorem Place.Sound.behind (h : place.Sound name) (hname : IsPlain name) (e : Event) :
    (place.behind name e).Sound name := by
  cases e with
  | start tag =>
    refine List.forall_mem_cons.mpr ⟨?_, h⟩
    rcases repairTag_cases hname place.inGroup tag with hkept | hrepair
    · exact .inl (congrArg Tag.name hkept)
    · exact hrepair.named
  | empty tag => exact h
  | close old => exact fun x hx => h x (List.mem_of_mem_tail hx)

theorem nest_close_place (hn : (Event.close old).nest (place.opened.map Prod.fst) = .ok names) :
    ∃ new outer, place.opened = (old, new) :: outer ∧ names = outer.map Prod.fst := by
  cases ho : place.opened with
  | nil => rw [ho] at hn; cases hn
  | cons x outer =>
    rw [ho, List.map_cons, Event.nest] at hn
    split at hn
    · next hold => exact ⟨x.2, outer, by rw [hold], (Except.ok.inj hn).symm⟩
    · cases hn

theorem nest_repairEvent (name : List Char)
    (hn : e.nest (place.opened.map Prod.fst) = .ok names) :
    names = (place.behind name e).opened.map Prod.fst ∧
      (repairEvent name place e).nest (place.opened.map Prod.snd) =
        .ok ((place.behind name e).opened.map Prod.snd) := by
  cases e with
  | start tag => exact ⟨(Except.ok.inj hn).symm, rfl⟩
  | empty tag => exact ⟨(Except.ok.inj hn).symm, rfl⟩
  | close old =>
    obtain ⟨new, outer, ho, rfl⟩ := nest_close_place hn
    simp [Place.behind, repairEvent, Event.nest, ho]

/-- What is written for an event of an end tag is the old content, or it has the new name. -/
theorem rewriteContent_close (hs : place.Sound name) (hold : Event.ofContent content = .close old)
    (hn : (Event.close old).nest (place.opened.map Prod.fst) = .ok names) :
    ∃ new gap, repairEvent name place (.close old) = .close new ∧ IsGap gap ∧
      content = '/' :: (old ++ gap) ∧ rewriteContent content (.close new) = '/' :: (new ++ gap) ∧
      (new = old ∨ old = registerTag ∧ new = name) := by
  obtain ⟨new, outer, ho, -⟩ := nest_close_place hn
  obtain ⟨gap, hgap, hcontent⟩ := eq_of_ofContent_close hold
  refine ⟨new, gap, by simp [repairEvent, ho], hgap, hcontent, ?_, hs (old, new) (by simp [ho])⟩
  have hend : endName (old ++ gap) = old := by
    rw [hcontent] at hold
    exact Event.close.inj hold
  rw [rewriteContent, hcontent, List.tail_cons, hend, List.drop_succ_cons, List.drop_left]

theorem ofContent_rewriteContent (hname : IsPlain name) (hs : place.Sound name)
    (hn : (Event.ofContent content).nest (place.opened.map Prod.fst) = .ok names) :
    Event.ofContent (rewriteContent content (repairEvent name place (Event.ofContent content))) =
      repairEvent name place (Event.ofContent content) := by
  cases he : Event.ofContent content with
  | start tag =>
    obtain ⟨rfl, hhead, hlast⟩ := ofContent_eq_start_iff.mp he
    rw [repairEvent, rewriteContent, ofContent_eq_start_iff]
    rcases repairTag_cases hname place.inGroup tag with hkept | hrepair
    · rw [hkept]
      exact ⟨rfl, hhead, hlast⟩
    · have hnew := (hrepair.head?_content hname []).1
      rw [List.append_nil] at hnew
      exact ⟨rfl, hnew, hrepair.getLast?_content hname⟩
  | empty tag =>
    obtain ⟨rfl, hhead⟩ := ofContent_eq_empty_iff.mp he
    rw [repairEvent, rewriteContent, ofContent_eq_empty_iff]
    rcases repairTag_cases hname place.inGroup tag with hkept | hrepair
    · rw [hkept]
      exact ⟨rfl, hhead⟩
    · exact ⟨rfl, (hrepair.head?_content hname ['/']).1⟩
  | close old =>
    obtain ⟨new, gap, hnew, hgap, hcontent, hrewrite, hcases⟩ :=
      rewriteContent_close hs he (he ▸ hn)
    rw [hnew, hrewrite]
    rcases hcases with rfl | ⟨-, rfl⟩
    · rw [← hcontent, he]
    · rw [Event.ofContent, endName_written hname.1 (fun c hc => (hname.forall_mem c hc).1) hgap]

/-- With plain keys a tag still ends at its own mark when it is repaired. -/
theorem isContent_rewriteContent (hname : IsPlain name) (hs : place.Sound name)
    (hn : (Event.ofContent content).nest (place.opened.map Prod.fst) = .ok names)
    (hkeys : ∀ tag ∈ tag? (Event.ofContent content), PlainKeys tag) (hc : IsContent content) :
    IsContent (rewriteContent content (repairEvent name place (Event.ofContent content))) := by
  have hpasses := hc.passes
  cases he : Event.ofContent content with
  | start tag =>
    obtain ⟨rfl, -⟩ := ofContent_eq_start_iff.mp he
    rw [repairEvent, rewriteContent]
    rcases repairTag_cases hname place.inGroup tag with hkept | hrepair
    · rwa [hkept]
    · rw [← List.append_nil tag.content] at hpasses
      have hnew := hrepair.passes_content hname (hkeys tag (by rw [he]; rfl)) hpasses
      have hhead := (hrepair.head?_content hname []).2
      rw [List.append_nil] at hnew hhead
      exact isContent_of_passes hnew hhead
  | empty tag =>
    obtain ⟨rfl, -⟩ := ofContent_eq_empty_iff.mp he
    rw [repairEvent, rewriteContent]
    rcases repairTag_cases hname place.inGroup tag with hkept | hrepair
    · rwa [hkept]
    · have hnew := hrepair.passes_content hname (hkeys tag (by rw [he]; rfl)) hpasses
      exact isContent_of_passes hnew (hrepair.head?_content hname ['/']).2
  | close old =>
    obtain ⟨new, gap, hnew, hgap, rfl, hrewrite, hcases⟩ := rewriteContent_close hs he (he ▸ hn)
    rw [hnew, hrewrite]
    rcases hcases with rfl | ⟨-, rfl⟩
    · exact hc
    · have hslash : Passes ['/'] := passes_char (by decide)
      have hend := hslash.append (hname.passes.append (passes_gap hgap))
      exact isContent_of_passes hend (by simp)

theorem forall₂_repairEvents {P : List Char → Event → Prop} (hname : IsPlain name)
    (hs : place.Sound name)
    (hn : (contents.map Event.ofContent).foldlM Event.nest (place.opened.map Prod.fst) = .ok names)
    (hP : ∀ content ∈ contents, ∀ (place : Place) names, place.Sound name →
      (Event.ofContent content).nest (place.opened.map Prod.fst) = .ok names →
      P content (repairEvent name place (Event.ofContent content))) :
    List.Forall₂ P contents (repairEvents name place (contents.map Event.ofContent)) := by
  induction contents generalizing place with
  | nil => exact .nil
  | cons content contents ih =>
    obtain ⟨hfirst, hmore⟩ := List.forall_mem_cons.mp hP
    rw [List.map_cons, List.foldlM_cons] at hn
    obtain ⟨inner, hnest, hn⟩ := ok_of_bind hn
    obtain ⟨rfl, -⟩ := nest_repairEvent name hnest
    exact .cons (hfirst place _ hs hnest) (ih (hs.behind hname _) hn hmore)

theorem nested_repairEvents (name : List Char) (place : Place)
    (hn : es.foldlM Event.nest (place.opened.map Prod.fst) = .ok names) :
    ∃ names, (repairEvents name place es).foldlM Event.nest (place.opened.map Prod.snd) =
      .ok names := by
  induction es generalizing place with
  | nil => exact ⟨_, rfl⟩
  | cons e es ih =>
    rw [List.foldlM_cons] at hn
    obtain ⟨inner, hnest, hn⟩ := ok_of_bind hn
    obtain ⟨rfl, hnew⟩ := nest_repairEvent name hnest
    rw [repairEvents, List.foldlM_cons, hnew]
    exact ih _ hn

end

section

variable {name text : List Char}

theorem sound_start (name : List Char) : ({} : Place).Sound name := nofun

theorem map_zipWith_rewriteContent {contents : List (List Char)} {es : List Event}
    (h : List.Forall₂ (fun content e => Event.ofContent (rewriteContent content e) = e)
      contents es) :
    (List.zipWith rewriteContent contents es).map Event.ofContent = es := by
  induction h with
  | nil => rfl
  | cons hfirst h ih => rw [List.zipWith_cons_cons, List.map_cons, hfirst, ih]

theorem forall_mem_zipWith {contents : List (List Char)} {es : List Event}
    (h : List.Forall₂ (fun content e => IsContent (rewriteContent content e)) contents es) :
    ∀ content ∈ List.zipWith rewriteContent contents es, IsContent content := by
  induction h with
  | nil => exact nofun
  | cons hfirst h ih => exact List.forall_mem_cons.mpr ⟨hfirst, ih⟩

/-- The events of the repaired description, if its tags still end where they did. -/
theorem events_repair (hname : IsPlain name) (hf : (events text).fault = none)
    (hends : ∀ content ∈ repairedContents name text, IsContent content) :
    events (repair name text) = ⟨repairEvents name {} (events text).items, none⟩ := by
  obtain ⟨hconstructs, hitems⟩ := events_of_no_fault hf
  obtain ⟨names, hn⟩ := nested_events text
  have hall : List.Forall₂ (fun content e => Event.ofContent (rewriteContent content e) = e)
      (tagContents text) (repairEvents name {} (events text).items) := by
    rw [hitems]
    refine forall₂_repairEvents hname (sound_start name) (hitems ▸ hn) ?_
    exact fun content _ place _ hs hnest => ofContent_rewriteContent hname hs hnest
  have hread : (repairedContents name text).map Event.ofContent =
      repairEvents name {} (events text).items := map_zipWith_rewriteContent hall
  have hlength : (repairedContents name text).length = (tagContents text).length := by
    rw [repairedContents, List.length_zipWith, ← hall.length_eq, Nat.min_self]
  obtain ⟨hfault, htags⟩ : (constructs (repair name text)).fault = none ∧
      tagContents (repair name text) = repairedContents name text :=
    exchanged hconstructs hlength hends
  rw [← hread, ← htags]
  refine events_of_contents hfault ?_
  rw [htags, hread]
  exact nested_repairEvents name {} hn

theorem isContent_repairedContents (hname : IsPlain name) (hf : (events text).fault = none)
    (hkeys : ∀ e ∈ (events text).items, ∀ tag ∈ tag? e, PlainKeys tag) :
    ∀ content ∈ repairedContents name text, IsContent content := by
  obtain ⟨-, hitems⟩ := events_of_no_fault hf
  obtain ⟨names, hn⟩ := nested_events text
  have hall : List.Forall₂ (fun content e => IsContent (rewriteContent content e))
      (tagContents text) (repairEvents name {} (events text).items) := by
    rw [hitems]
    refine forall₂_repairEvents hname (sound_start name) (hitems ▸ hn) ?_
    refine fun content hmem place _ hs hnest => isContent_rewriteContent hname hs hnest ?_
      (isContent_of_mem hmem)
    exact hkeys _ (hitems ▸ List.mem_map_of_mem hmem)
  exact forall_mem_zipWith hall

end

end RegMap.Description
