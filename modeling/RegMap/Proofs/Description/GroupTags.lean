import RegMap.Proofs.Description.Course
import RegMap.Proofs.Description.Written

set_option autoImplicit false

namespace RegMap.Description

open Markup

/-- The number under the key: the default if there is none, and 0 if it cannot be read. -/
def numberSaid (attributes : List Attribute) (key : String) (default : Nat) : Nat :=
  let text := valueOf attributes key
  if Text.trim text.toList = [] then default else (Literal.read text).toOption.getD 0

def busSaid (bus : Bus) (attributes : List Attribute) : Bus where
  addressWidth := numberSaid attributes "addr_sz" bus.addressWidth
  baseAddress := numberSaid attributes "base_addr" bus.baseAddress
  dataWidth := numberSaid attributes "data_sz" bus.dataWidth
  mapping := .ofMemoryMapped (numberSaid attributes "mem_mapped" (mappingNumber bus.mapping) != 0)

structure Heading where
  name : String
  bus : Bus
  deriving DecidableEq, Repr

def headingOf? (bus : Bus) (tag : Tag) : Option Heading :=
  tag.attributes.toOption.map fun attributes =>
    ⟨valueOf attributes "name", busSaid bus attributes⟩

def heading (g : RegisterGroup) : Heading := ⟨g.name, g.bus⟩

def groupTags (es : List Event) : List Tag := es.filterMap (Event.named? groupTag)

/-- Whether a group takes in registers behind the event, if it is known whether one does in front of
it: from its start tag on, up to the next end tag of a group. -/
def takesIn (before : Bool) : Event → Bool
  | .start tag => tag.name == groupTag || before
  | .empty _ => before
  | .close name => name != groupTag && before

def takenIn (es : List Event) : Bool := es.foldl takesIn false

def closesItself : Event → Bool
  | .empty _ => true
  | _ => false

/-- No group that its own tag closes stands where another one takes in registers. -/
def Unmixed (es : List Event) : Prop :=
  ∀ x ∈ es.zipIdx, (x.1.named? groupTag).isSome → closesItself x.1 → takenIn (es.take x.2) = false

instance (es : List Event) : Decidable (Unmixed es) :=
  inferInstanceAs (Decidable (∀ x ∈ es.zipIdx, _))

section

variable {settings : Settings} {bus : Bus} {attributes : List Attribute} {key : String}
  {default n : Nat} {tag : Tag} {g : RegisterGroup} {es : List Event} {e : Event}

theorem numberSaid_of_ok {policy : Policy}
    (h : (numberOf policy attributes key default).result = .ok n) :
    n = numberSaid attributes key default := by
  unfold numberOf at h
  unfold numberSaid
  dsimp only at h ⊢
  split at h
  · next hblank =>
    rw [if_pos hblank]
    exact (Except.ok.inj h).symm
  · next hgiven =>
    rw [if_neg hgiven]
    cases hread : Literal.read (valueOf attributes key) with
    | ok m =>
      rw [hread] at h
      cases policy <;> exact (Except.ok.inj h).symm
    | error fault =>
      rw [hread] at h
      cases policy with
      | strict => cases h
      | lenient => exact (Except.ok.inj h).symm

theorem busSaid_of_ok (h : (busOf settings attributes).result = .ok bus) :
    bus = busSaid settings.bus attributes := by
  obtain ⟨addressWidth, haddress, h⟩ := Loading.ok_of_bind h
  obtain ⟨baseAddress, hbase, h⟩ := Loading.ok_of_bind h
  obtain ⟨dataWidth, hdata, h⟩ := Loading.ok_of_bind h
  obtain ⟨memoryMapped, hmapped, h⟩ := Loading.ok_of_bind h
  rw [← Except.ok.inj h, numberSaid_of_ok haddress, numberSaid_of_ok hbase, numberSaid_of_ok hdata,
    numberSaid_of_ok hmapped]
  rfl

theorem eq_of_readGroup (h : (readGroup settings tag).result = .ok g) :
    ∃ attributes, tag.attributes = .ok attributes ∧ valueOf attributes "name" ≠ "" ∧
      g = ⟨valueOf attributes "name", busSaid settings.bus attributes, []⟩ := by
  obtain ⟨attributes, hattributes, h⟩ := Loading.ok_of_bind h
  refine ⟨attributes, attributes_of_ok hattributes, ?_⟩
  dsimp only at h
  split at h
  · cases h
  · next hname =>
    obtain ⟨bus, hbus, h⟩ := Loading.ok_of_bind h
    obtain ⟨-, -, h⟩ := Loading.ok_of_bind h
    exact ⟨hname, by rw [← Except.ok.inj h, busSaid_of_ok hbus]⟩

theorem heading_of_readGroup (h : (readGroup settings tag).result = .ok g) :
    headingOf? settings.bus tag = some (heading g) := by
  obtain ⟨attributes, hattributes, -, rfl⟩ := eq_of_readGroup h
  rw [headingOf?, hattributes]
  rfl

theorem groupTags_concat (es : List Event) (e : Event) :
    groupTags (es ++ [e]) = groupTags es ++ (e.named? groupTag).toList := by
  rw [groupTags, List.filterMap_append]
  cases h : e.named? groupTag <;> simp [groupTags, h]

theorem takenIn_concat (es : List Event) (e : Event) :
    takenIn (es ++ [e]) = takesIn (takenIn es) e := by
  simp [takenIn]

theorem takesIn_of_not_group {before : Bool} (hn : e.named? groupTag = none)
    (hc : e ≠ .close groupTag) : takesIn before e = before := by
  cases e with
  | start tag =>
    have hname : tag.name ≠ groupTag := fun h => by simp [Event.named?, h] at hn
    simp [takesIn, hname]
  | empty tag => rfl
  | close name =>
    have hname : name ≠ groupTag := fun h => hc (h ▸ rfl)
    simp [takesIn, hname]

theorem takesIn_of_taken {p q : Progress} {notes : List Note} (ht : Taken settings p e notes q) :
    takesIn p.current.isSome e = q.current.isSome := by
  have hregister {tag : Tag} (he : e.named? registerTag = some tag) :
      takesIn p.current.isSome e = p.current.isSome :=
    takesIn_of_not_group (named?_of_ne he registerTag_ne_groupTag) (ne_close_of_named? he)
  cases ht with
  | opened hn hg => simp [takesIn, hn]
  | whole hn hg => rfl
  | added he hp hs =>
    rw [hregister he, hp]
    rfl
  | refused he hp hs => exact hregister he
  | stray he hp => exact hregister he
  | closed => simp [takesIn]
  | passed hn hr hc => exact takesIn_of_not_group hn hc

theorem unmixed_concat : Unmixed (es ++ [e]) ↔ Unmixed es ∧
    ((e.named? groupTag).isSome → closesItself e → takenIn es = false) := by
  have htake : ∀ x ∈ es.zipIdx, (es ++ [e]).take x.2 = es.take x.2 := fun x hx =>
    List.take_append_of_le_length (List.snd_lt_of_mem_zipIdx hx).le
  simp only [Unmixed, List.zipIdx_append, List.zipIdx_cons, List.zipIdx_nil, List.mem_append,
    List.mem_singleton, or_imp, forall_and, forall_eq, Nat.zero_add, List.take_left']
  refine and_congr_left fun _ => forall₂_congr fun x hx => ?_
  rw [htake x hx]

structure Headed (settings : Settings) (es : List Event) (p : Progress) : Prop where
  takenIn : takenIn es = p.current.isSome
  all : ((groupTags es).map (headingOf? settings.bus)).Perm (p.groups.map (some ∘ heading))
  ordered : Unmixed es →
    (groupTags es).map (headingOf? settings.bus) = p.groups.map (some ∘ heading)

namespace Headed

variable {p q : Progress} {notes : List Note} (h : Headed settings es p)
include h

theorem added (he : e.named? groupTag = some tag) (hg : (readGroup settings tag).result = .ok g)
    (ht : takesIn (Description.takenIn es) e = q.current.isSome)
    (hall : q.groups.Perm (p.groups ++ [g]))
    (hordered : Unmixed (es ++ [e]) → q.groups = p.groups ++ [g]) :
    Headed settings (es ++ [e]) q := by
  have htags : (groupTags (es ++ [e])).map (headingOf? settings.bus) =
      (groupTags es).map (headingOf? settings.bus) ++ [some (heading g)] := by
    rw [groupTags_concat, he, List.map_append, ← heading_of_readGroup hg]
    rfl
  refine ⟨(takenIn_concat es e).trans ht, ?_, fun hu => ?_⟩
  · have hgroups := hall.map (some ∘ heading)
    rw [List.map_append] at hgroups
    rw [htags]
    exact (h.all.append_right _).trans hgroups.symm
  · rw [htags, hordered hu, List.map_append, h.ordered (unmixed_concat.mp hu).1]
    rfl

theorem kept (he : e.named? groupTag = none)
    (hq : q.groups.map heading = p.groups.map heading)
    (ht : takesIn (Description.takenIn es) e = q.current.isSome) :
    Headed settings (es ++ [e]) q := by
  have htags : groupTags (es ++ [e]) = groupTags es := by
    rw [groupTags_concat, he, Option.toList_none, List.append_nil]
  have hgroups : q.groups.map (some ∘ heading) = p.groups.map (some ∘ heading) := by
    rw [← List.map_map, ← List.map_map, hq]
  refine ⟨(takenIn_concat es e).trans ht, ?_, fun hu => ?_⟩
  · rw [htags, hgroups]
    exact h.all
  · rw [htags, hgroups]
    exact h.ordered (unmixed_concat.mp hu).1

theorem concat (ht : Taken settings p e notes q) : Headed settings (es ++ [e]) q := by
  have htaken : takesIn (Description.takenIn es) e = q.current.isSome :=
    h.takenIn ▸ takesIn_of_taken ht
  cases ht with
  | @opened tag g hn hg => exact h.added (if_pos hn) hg htaken .rfl fun _ => rfl
  | @whole tag g hn hg =>
    refine h.added (if_pos hn) hg htaken ?_ fun hu => ?_
    · simp only [Progress.groups, List.append_assoc]
      exact List.perm_append_comm.append_left _
    · have hnone := (unmixed_concat.mp hu).2 (by simp [Event.named?, hn]) rfl
      rw [h.takenIn, Option.isSome_eq_false_iff, Option.isNone_iff_eq_none] at hnone
      simp [Progress.groups, hnone]
  | added he hp hs =>
    refine h.kept (named?_of_ne he registerTag_ne_groupTag) ?_ htaken
    simp [Progress.groups, hp, heading, RegisterGroup.add]
  | refused he hp hs => exact h.kept (named?_of_ne he registerTag_ne_groupTag) rfl htaken
  | stray he hp => exact h.kept (named?_of_ne he registerTag_ne_groupTag) rfl htaken
  | closed => exact h.kept rfl (by simp [Progress.groups]) htaken
  | passed hn hr hc => exact h.kept hn rfl htaken

end Headed

theorem headed_of_run {p : Progress} (hn : Nested es)
    (h : (Progress.run settings {} es).result = .ok p) : Headed settings es p := by
  refine run_invariant ⟨rfl, .rfl, fun _ => rfl⟩ ?_ hn h
  exact fun _ _ _ _ _ _ hheaded htaken => hheaded.concat htaken

end

/-- Each group tag gives one group, which has the name and the bus that the tag says, and there are
no other groups. As long as no group that its own tag closes stands within another one, they come in
the order of their tags. -/
theorem groups_of_tags {settings : Settings} {text : List Char} {gs : List RegisterGroup}
    (h : (load settings text).result = .ok gs) :
    ((groupTags (events text).items).map (headingOf? settings.bus)).Perm
        (gs.map fun g => some ⟨g.name, g.bus⟩) ∧
      (Unmixed (events text).items →
        (groupTags (events text).items).map (headingOf? settings.bus) =
          gs.map fun g => some ⟨g.name, g.bus⟩) := by
  obtain ⟨-, p, hp, rfl⟩ := run_of_load h
  have hheaded := headed_of_run (nested_events text) hp
  exact ⟨hheaded.all, hheaded.ordered⟩

def groupsInTurn : List Char :=
  ["<tv_registers name='a' base_addr='8'>", "<tv_registers name='b' data_sz='x'>",
    "</tv_registers>", "</tv_registers>", "<tv_registers name='c' mem_mapped='1'/>",
    "<tv_registers name='d' addr_sz=' '>", "<register name='r'/>"].flatMap String.toList

def groupsInTurnGroups : List RegisterGroup :=
  [⟨"a", { baseAddress := 8 }, []⟩, ⟨"b", { dataWidth := 0 }, []⟩,
    ⟨"c", { mapping := .memory }, []⟩, ⟨"d", {}, [⟨"r", 1, 0, .config 0⟩]⟩]

theorem load_groupsInTurn : (load {} groupsInTurn).result = .ok groupsInTurnGroups := by
  decide +kernel

theorem groups_of_tags_inTurn :
    (load {} groupsInTurn).result = .ok groupsInTurnGroups ∧
      Unmixed (events groupsInTurn).items ∧
      (groupTags (events groupsInTurn).items).map (headingOf? {}) =
        groupsInTurnGroups.map fun g => some ⟨g.name, g.bus⟩ := by
  have hunmixed : Unmixed (events groupsInTurn).items := by decide +kernel
  exact ⟨load_groupsInTurn, hunmixed, (groups_of_tags load_groupsInTurn).2 hunmixed⟩

end RegMap.Description
