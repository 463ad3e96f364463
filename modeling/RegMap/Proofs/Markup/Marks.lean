import Mathlib.Data.List.Forall2
import Mathlib.Data.List.Nodup
import RegMap.Markup.Event
import RegMap.Proofs.Markup.Spelling

/-!
Texts of tags that fit each other, and the events in them. What stands between the tags makes no
difference, as long as no tag begins in it.
-/

set_option autoImplicit false

namespace RegMap.Markup

open Text

inductive Mark where
  | start (name : List Char) (attributes : List Attribute)
  | empty (name : List Char) (attributes : List Attribute)
  | close (name : List Char)

inductive Mark.Written : Mark → List Char → Prop where
  | start {name text : List Char} {attributes : List Attribute} (hname : IsName name)
      (hdistinct : (attributes.map Attribute.key).Nodup) (h : Spelled attributes text) :
      Written (.start name attributes) (name ++ text)
  | empty {name text : List Char} {attributes : List Attribute} (hname : IsName name)
      (hdistinct : (attributes.map Attribute.key).Nodup) (h : Spelled attributes text) :
      Written (.empty name attributes) (name ++ text ++ ['/'])
  | close {name gap : List Char} (hname : IsName name) (hgap : IsGap gap) :
      Written (.close name) ('/' :: (name ++ gap))

inductive Marked : List Mark → List Char → Prop where
  | nil {between : List Char} (h : '<' ∉ between) : Marked [] between
  | cons {m : Mark} {marks : List Mark} {between content text : List Char} (hb : '<' ∉ between)
      (hm : m.Written content) (h : Marked marks text) :
      Marked (m :: marks) (between ++ '<' :: (content ++ '>' :: text))

/-- Each end belongs to the innermost element that is open, where `opened` are those open at the
start. -/
inductive Balanced : List (List Char) → List Mark → Prop where
  | nil {opened : List (List Char)} : Balanced opened []
  | start {opened : List (List Char)} {name : List Char} {attributes : List Attribute}
      {marks : List Mark} (h : Balanced (name :: opened) marks) :
      Balanced opened (.start name attributes :: marks)
  | empty {opened : List (List Char)} {name : List Char} {attributes : List Attribute}
      {marks : List Mark} (h : Balanced opened marks) :
      Balanced opened (.empty name attributes :: marks)
  | close {opened : List (List Char)} {name : List Char} {marks : List Mark}
      (h : Balanced opened marks) : Balanced (name :: opened) (.close name :: marks)

structure Tag.Reads (tag : Tag) (name : List Char) (attributes : List Attribute) : Prop where
  name_eq : tag.name = name
  attributes_eq : tag.attributes = .ok attributes
  distinct : (attributes.map Attribute.key).Nodup

inductive Mark.Told : Mark → Event → Prop where
  | start {tag : Tag} {name : List Char} {attributes : List Attribute}
      (h : tag.Reads name attributes) : Told (.start name attributes) (.start tag)
  | empty {tag : Tag} {name : List Char} {attributes : List Attribute}
      (h : tag.Reads name attributes) : Told (.empty name attributes) (.empty tag)
  | close (name : List Char) : Told (.close name) (.close name)

/-- The end of a tag is not found in the text, and no quote is left open by it. -/
def Passes (s : List Char) : Prop :=
  ∀ rest, cutTag? none (s ++ rest) = (cutTag? none rest).map fun parts => (s ++ parts.1, parts.2)

section

variable {quote c : Char} {s t name raw gap text rest content between : List Char}
  {attributes : List Attribute} {m : Mark} {marks : List Mark} {opened : List (List Char)}

theorem passes_nil : Passes [] := fun rest => by cases h : cutTag? none rest <;> simp [h]

theorem Passes.append (hs : Passes s) (ht : Passes t) : Passes (s ++ t) := by
  intro rest
  rw [List.append_assoc, hs, ht, Option.map_map]
  simp [Function.comp_def]

theorem Passes.cut (h : Passes s) (rest : List Char) :
    cutTag? none (s ++ '>' :: rest) = some (s, rest) := by
  simp [h _, cutTag?]

theorem Passes.of_append (hs : Passes s) (h : Passes (s ++ t)) : Passes t := by
  intro rest
  have hfront : Function.Injective fun parts : List Char × List Char =>
      (s ++ parts.1, parts.2) := fun a b hab => by simpa [Prod.ext_iff] using hab
  refine Option.map_injective hfront ?_
  rw [← hs, ← List.append_assoc, h, Option.map_map]
  simp [Function.comp_def]

theorem passes_char (hc : c ≠ '>' ∧ c ≠ '"' ∧ c ≠ '\'') : Passes [c] := by
  intro rest
  simp [cutTag?, hc]

theorem passes_run (h : ∀ c ∈ s, c ≠ '>' ∧ c ≠ '"' ∧ c ≠ '\'') : Passes s := by
  induction s with
  | nil => exact passes_nil
  | cons c s ih =>
    exact (passes_char (h c List.mem_cons_self)).append
      (ih fun d hd => h d (List.mem_cons_of_mem c hd))

/-- What no quote is in is passed if what begins with it is. -/
theorem passes_of_no_quote (hs : ∀ c ∈ s, c ≠ '"' ∧ c ≠ '\'') (h : Passes (s ++ t)) : Passes s := by
  induction s with
  | nil => exact passes_nil
  | cons c s ih =>
    obtain ⟨hc, hs⟩ := List.forall_mem_cons.mp hs
    have hend : c ≠ '>' := by
      rintro rfl
      have hstop := h ['>']
      simp [cutTag?] at hstop
    have hchar : Passes [c] := passes_char ⟨hend, hc⟩
    exact hchar.append (ih hs (hchar.of_append h))

theorem cutTag?_quoted (h : quote ∉ raw) : cutTag? (some quote) (raw ++ quote :: rest) =
    (cutTag? none rest).map fun parts => (raw ++ quote :: parts.1, parts.2) := by
  induction raw with
  | nil => simp [cutTag?]
  | cons c raw ih =>
    rw [List.mem_cons, not_or] at h
    simp [cutTag?, Ne.symm h.1, ih h.2, Function.comp_def]

theorem passes_quoted (hq : quote = '"' ∨ quote = '\'') (h : quote ∉ raw) :
    Passes (quote :: (raw ++ [quote])) := by
  intro rest
  have hne : quote ≠ '>' := by rcases hq with rfl | rfl <;> decide
  simp [cutTag?, hne, hq, cutTag?_quoted h, Function.comp_def]

theorem passes_name (h : IsName name) : Passes name := by
  refine passes_run fun c hc => ?_
  have hname := h.forall_mem c hc
  exact ⟨ne_of_isNameChar hname rfl, ne_of_isNameChar hname rfl, ne_of_isNameChar hname rfl⟩

theorem passes_gap (h : IsGap gap) : Passes gap := by
  refine passes_run fun c hc => ?_
  have hspace := h c hc
  refine ⟨?_, ?_, ?_⟩ <;> rintro rfl <;> cases hspace

theorem Attribute.Laid.passes (h : Attribute.Laid attributes text)
    (hkeys : ∀ a ∈ attributes, Passes a.key) : Passes text := by
  induction h with
  | nil hgap => exact passes_gap hgap
  | cons hgap hc hw hvalue h ih =>
    obtain ⟨hkey, hmore⟩ := List.forall_mem_cons.mp hkeys
    cases hw with
    | mk hinside hbefore hafter hq hraw =>
      have hequals : Passes ['='] := passes_char (by decide)
      have hall := (passes_gap hgap).append <| hkey.append <| (passes_gap hbefore).append <|
        hequals.append <| (passes_gap hafter).append <| (passes_quoted hq hraw).append (ih hmore)
      simpa using hall

theorem Spelled.passes (h : Spelled attributes text) : Passes text :=
  h.laid.passes fun a ha => passes_name (h.names a ha)

/-- A text with values mended passes as it did before, if no key in it has a quote. -/
theorem passes_mendValues {bad : Attribute → Bool} (h : Attribute.Laid attributes s)
    (hs : Passes (s ++ t)) (hkeys : ∀ a ∈ attributes, '"' ∉ a.key ∧ '\'' ∉ a.key) :
    Passes (Attribute.mendValues bad s ++ t) := by
  induction h with
  | nil hgap => rwa [Attribute.mendValues_gap hgap]
  | @cons gap value s c w attributes hgap hc hw hvalue h ih =>
    obtain ⟨hkey, hmore⟩ := List.forall_mem_cons.mp hkeys
    cases hw with
    | @mk key before after raw rest quote hinside hbefore hafter hq hraw =>
      have hequals : Passes ['='] := passes_char (by decide)
      have hquotes : ∀ d ∈ c :: key, d ≠ '"' ∧ d ≠ '\'' := fun d hd =>
        ⟨fun heq => hkey.1 (heq ▸ hd), fun heq => hkey.2 (heq ▸ hd)⟩
      -- off the front of the old text come the parts that the new one has as well
      simp only [List.append_assoc, List.cons_append] at hs
      have hfront := (passes_gap hgap).of_append hs
      have hname : Passes (c :: key) := passes_of_no_quote hquotes hfront
      have hbehind := (passes_gap hbefore).of_append (hname.of_append hfront)
      have hquoted := (passes_gap hafter).of_append (hequals.of_append hbehind)
      have hrest : Passes (rest ++ t) := by
        refine (passes_quoted hq hraw).of_append ?_
        simpa using hquoted
      let w : Attribute.Written := ⟨c :: key, raw, rest⟩
      have hmended : Passes (quote :: (w.mended bad ++ [quote])) :=
        passes_quoted hq (Attribute.quote_not_mem_mended hq hraw)
      rw [Attribute.mendValues_cons hgap hc hinside hbefore hafter hq hraw]
      have hall := (passes_gap hgap).append <| hname.append <| (passes_gap hbefore).append <|
        hequals.append <| (passes_gap hafter).append <| hmended.append (ih hrest hmore)
      simpa using hall

theorem Mark.Written.passes (h : m.Written content) : Passes content := by
  have hslash : Passes ['/'] := passes_char (by decide)
  cases h with
  | start hname hdistinct h => exact (passes_name hname).append h.passes
  | empty hname hdistinct h => exact ((passes_name hname).append h.passes).append hslash
  | close hname hgap => exact hslash.append ((passes_name hname).append (passes_gap hgap))

theorem read_tag (hc : c ≠ '!' ∧ c ≠ '?') :
    Construct.read (c :: s) = Construct.readTag (c :: s) := by
  simp [Construct.read, hc]

theorem Mark.Written.read (h : m.Written content) (rest : List Char) :
    Construct.read (content ++ '>' :: rest) = .ok (.tag content, rest) := by
  have hhead : ∃ c tail, content = c :: tail ∧ c ≠ '!' ∧ c ≠ '?' := by
    cases h with
    | start hname =>
      obtain ⟨c, tail, rfl, hc⟩ := hname.exists_cons
      exact ⟨c, _, rfl, ne_of_isNameChar hc rfl, ne_of_isNameChar hc rfl⟩
    | empty hname =>
      obtain ⟨c, tail, rfl, hc⟩ := hname.exists_cons
      exact ⟨c, _, rfl, ne_of_isNameChar hc rfl, ne_of_isNameChar hc rfl⟩
    | close hname hgap => exact ⟨'/', _, rfl, by decide⟩
  have hcut := h.passes.cut rest
  obtain ⟨c, tail, rfl, hc⟩ := hhead
  rw [List.cons_append] at hcut ⊢
  rw [read_tag hc, Construct.readTag, hcut]

theorem constructs_of_read {c : Construct} (hb : '<' ∉ between)
    (hr : Construct.read s = .ok (c, rest)) :
    constructs (between ++ '<' :: s) = (constructs rest).cons c :=
  constructs_of_ok (fromMark_between hb) hr

theorem constructs_between (hb : '<' ∉ between) : constructs between = .nil := by
  refine constructs_of_nil (List.dropWhile_eq_nil_iff.mpr fun d hd => ?_)
  simpa using fun heq : d = '<' => hb (heq ▸ hd)

theorem Spelled.head (h : Spelled attributes text) : ∀ c ∈ text.head?, isSpace c := by
  cases h with
  | nil hgap => exact fun c hc => hgap c (List.mem_of_mem_head? hc)
  | cons hne hgap =>
    obtain ⟨c, gap, rfl⟩ := List.exists_cons_of_ne_nil hne
    intro d hd
    obtain rfl : c = d := Option.some.inj hd
    exact hgap c List.mem_cons_self

theorem split_name (hname : ∀ c ∈ name, isSpace c = false) (htext : ∀ c ∈ text.head?, isSpace c) :
    (name ++ text).takeWhile (!isSpace ·) = name ∧
      (name ++ text).dropWhile (!isSpace ·) = text := by
  have hrun : ∀ c ∈ name, !isSpace c := fun c hc => by simp [hname c hc]
  cases ht : text with
  | nil =>
    rw [List.append_nil]
    exact ⟨List.takeWhile_eq_self_iff.mpr hrun, List.dropWhile_eq_nil_iff.mpr hrun⟩
  | cons c rest =>
    have hc : isSpace c := htext c (by simp [ht])
    exact ⟨takeWhile_run hrun (by simp [hc]), dropWhile_run hrun (by simp [hc])⟩

theorem IsName.no_space (h : IsName name) : ∀ c ∈ name, isSpace c = false := fun c hc =>
  isSpace_of_isNameChar (h.forall_mem c hc)

theorem reads_of_laid (hname : ∀ c ∈ name, isSpace c = false)
    (htext : ∀ c ∈ text.head?, isSpace c) (h : Attribute.Laid attributes text)
    (hdistinct : (attributes.map Attribute.key).Nodup) :
    (⟨name ++ text⟩ : Tag).Reads name attributes := by
  have hsplit := split_name hname htext
  refine ⟨hsplit.1, ?_, hdistinct⟩
  rw [Tag.attributes, hsplit.2]
  exact Attribute.readEnd_eq_ok_iff.mpr ⟨h, fun _ _ => rfl, hdistinct⟩

theorem tag_reads (hname : IsName name) (hdistinct : (attributes.map Attribute.key).Nodup)
    (h : Spelled attributes text) : (⟨name ++ text⟩ : Tag).Reads name attributes :=
  reads_of_laid hname.no_space h.head h.laid hdistinct

theorem find?_key_iff {a : Attribute} {key : List Char}
    (hd : (attributes.map Attribute.key).Nodup) :
    attributes.find? (·.key == key) = some a ↔ a ∈ attributes ∧ a.key = key := by
  constructor
  · exact fun h => ⟨List.mem_of_find?_eq_some h, by simpa using List.find?_some h⟩
  · rintro ⟨ha, rfl⟩
    obtain ⟨b, hb⟩ : ∃ b, attributes.find? (·.key == a.key) = some b :=
      Option.isSome_iff_exists.mp (List.find?_isSome.mpr ⟨a, ha, beq_self_eq_true a.key⟩)
    have hkey : b.key = a.key := by simpa using List.find?_some hb
    obtain rfl := List.inj_on_of_nodup_map hd (List.mem_of_find?_eq_some hb) ha hkey
    exact hb

theorem endName_written (hne : name ≠ []) (hname : ∀ c ∈ name, isSpace c = false)
    (hgap : IsGap gap) : endName (name ++ gap) = name := by
  have hreverse : ∀ c ∈ gap.reverse, isSpace c := fun c hc => hgap c (List.mem_reverse.mp hc)
  obtain ⟨c, rest, hr⟩ := List.exists_cons_of_ne_nil (mt List.reverse_eq_nil_iff.mp hne)
  have hc : isSpace c = false := hname c (List.mem_reverse.mp (hr ▸ List.mem_cons_self))
  have hdrop : ((name ++ gap).reverse.dropWhile isSpace).reverse = name := by
    rw [List.reverse_append, hr, dropWhile_run hreverse hc, ← hr, List.reverse_reverse]
  rw [endName, hdrop, List.isEmpty_eq_false_iff.mpr hne, if_neg Bool.false_ne_true]

theorem ofContent_of_head (h : content.head? ≠ some '/') : Event.ofContent content =
    if content.getLast? = some '/' then .empty ⟨content.dropLast⟩ else .start ⟨content⟩ := by
  cases content with
  | nil => rfl
  | cons c rest =>
    have hc : c ≠ '/' := by simpa using h
    simp [Event.ofContent, hc]

theorem IsName.head?_ne (h : IsName name) : (name ++ text).head? ≠ some '/' := by
  obtain ⟨c, rest, rfl, hc⟩ := h.exists_cons
  simpa using ne_of_isNameChar hc (d := '/') rfl

theorem Mark.Written.told (h : m.Written content) : m.Told (Event.ofContent content) := by
  cases h with
  | @start name text attributes hname hdistinct h =>
    have hopen : (name ++ text).getLast? ≠ some '/' :=
      getLast?_append_ne (getLast?_ne_of_forall hname.forall_mem rfl) h.laid.getLast?_ne
    have hevent : Event.ofContent (name ++ text) = .start ⟨name ++ text⟩ := by
      rw [ofContent_of_head hname.head?_ne, if_neg hopen]
    exact hevent ▸ .start (tag_reads hname hdistinct h)
  | @empty name text attributes hname hdistinct h =>
    have hevent : Event.ofContent (name ++ text ++ ['/']) = .empty ⟨name ++ text⟩ := by
      rw [List.append_assoc, ofContent_of_head hname.head?_ne, ← List.append_assoc]
      simp
    exact hevent ▸ .empty (tag_reads hname hdistinct h)
  | close hname hgap =>
    rw [Event.ofContent, endName_written hname.1 hname.no_space hgap]
    exact .close _

theorem Mark.Told.nest {e : Event} (h : m.Told e) (hb : Balanced opened (m :: marks)) :
    ∃ inner, e.nest opened = .ok inner ∧ Balanced inner marks := by
  cases h with
  | @start tag name attributes h =>
    cases hb with
    | start hb => exact ⟨name :: opened, by rw [Event.nest, h.name_eq], hb⟩
  | empty =>
    cases hb with
    | empty hb => exact ⟨_, rfl, hb⟩
  | close =>
    cases hb with
    | close hb => exact ⟨_, if_pos rfl, hb⟩

/-- Tags that fit each other are read to the end, each as the event that it tells. -/
theorem events_of_marked (h : Marked marks text) (hb : Balanced opened marks) :
    ∃ es, nested opened (constructs text).fault (constructs text).items = ⟨es, none⟩ ∧
      List.Forall₂ Mark.Told marks es := by
  induction h generalizing opened with
  | nil hbetween =>
    rw [constructs_between hbetween]
    exact ⟨[], rfl, .nil⟩
  | @cons m marks between content text hbetween hm h ih =>
    -- the elements open behind the tag are those that the rest is balanced under
    obtain ⟨inner, hnest, hinner⟩ := hm.told.nest hb
    obtain ⟨es, hes, htold⟩ := ih hinner
    refine ⟨Event.ofContent content :: es, ?_, .cons hm.told htold⟩
    rw [constructs_of_read hbetween (hm.read text)]
    simp only [Reading.cons, nested, hnest, hes]

def Mark.write : Mark → List Char
  | .start name attributes => name ++ writeAttributes attributes
  | .empty name attributes => name ++ writeAttributes attributes ++ ['/']
  | .close name => '/' :: name

def writeMarks (marks : List Mark) : List Char :=
  marks.flatMap fun m => '\n' :: '<' :: (m.write ++ ['>'])

structure ProperTag (name : List Char) (attributes : List Attribute) : Prop where
  name : IsName name
  keys : ∀ key ∈ attributes.map Attribute.key, IsName key
  distinct : (attributes.map Attribute.key).Nodup

def Mark.Proper : Mark → Prop
  | .start name attributes => ProperTag name attributes
  | .empty name attributes => ProperTag name attributes
  | .close name => IsName name

theorem Mark.Proper.written (h : m.Proper) : m.Written m.write := by
  cases m with
  | start name attributes => exact .start h.name h.distinct (spelled_writeAttributes h.keys)
  | empty name attributes => exact .empty h.name h.distinct (spelled_writeAttributes h.keys)
  | close name =>
    have hclose := Written.close h isGap_nil
    rwa [List.append_nil] at hclose

theorem marked_writeMarks (h : ∀ m ∈ marks, m.Proper) : Marked marks (writeMarks marks) := by
  induction marks with
  | nil => exact .nil List.not_mem_nil
  | cons m marks ih =>
    obtain ⟨hm, hrest⟩ := List.forall_mem_cons.mp h
    have hline : '<' ∉ ['\n'] := by decide
    have hall := Marked.cons hline hm.written (ih hrest)
    simpa [writeMarks] using hall

end

end RegMap.Markup
