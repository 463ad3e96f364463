import RegMap.Proofs.Description.GroupTags

set_option autoImplicit false

namespace RegMap.Description

open Markup

def problems (notes : List Note) : List Error := notes.filterMap Note.problem?

/-- Two courses with the same problems, which both come to the same error or to related results. -/
inductive Parallel {α β : Type} (R : α → β → Prop) : Loading α → Loading β → Prop where
  | ended {notes notes' : List Note} (hn : problems notes = problems notes') (e : Error) :
      Parallel R ⟨notes, .error e⟩ ⟨notes', .error e⟩
  | done {notes notes' : List Note} {a : α} {b : β} (hn : problems notes = problems notes')
      (h : R a b) : Parallel R ⟨notes, .ok a⟩ ⟨notes', .ok b⟩

/-- What comes of an attribute with either default: that one where the attribute is not there or is
blank, and otherwise the same. -/
structure Defaulted {α : Type} (attributes : List Attribute) (key : String)
    (default default' value value' : α) : Prop where
  blank : Text.trim (valueOf attributes key).toList = [] → value = default ∧ value' = default'
  given : Text.trim (valueOf attributes key).toList ≠ [] → value = value'

structure BusDefaulted (attributes : List Attribute) (bus bus' b b' : Bus) : Prop where
  addressWidth : Defaulted attributes "addr_sz" bus.addressWidth bus'.addressWidth
    b.addressWidth b'.addressWidth
  baseAddress : Defaulted attributes "base_addr" bus.baseAddress bus'.baseAddress
    b.baseAddress b'.baseAddress
  dataWidth : Defaulted attributes "data_sz" bus.dataWidth bus'.dataWidth b.dataWidth b'.dataWidth
  mapping : Defaulted attributes "mem_mapped" bus.mapping bus'.mapping b.mapping b'.mapping

/-- The groups that come of one tag with either bus. -/
structure Twins where
  tag : Tag
  left : RegisterGroup
  right : RegisterGroup

/-- Both twins are headed by the tag. They differ only where it leaves it to the bus. -/
structure Twins.Alike (bus bus' : Bus) (t : Twins) : Prop where
  left : headingOf? bus t.tag = some (heading t.left)
  right : headingOf? bus' t.tag = some (heading t.right)
  name : t.left.name = t.right.name
  registers : t.left.registers = t.right.registers
  defaulted : ∃ attributes, t.tag.attributes = .ok attributes ∧
    BusDefaulted attributes bus bus' t.left.bus t.right.bus

structure Pairing where
  finished : List Twins
  current : Option Twins

namespace Pairing

def left (q : Pairing) : Progress := ⟨q.finished.map Twins.left, q.current.map Twins.left⟩

def right (q : Pairing) : Progress := ⟨q.finished.map Twins.right, q.current.map Twins.right⟩

def groups (q : Pairing) : List Twins := q.finished ++ q.current.toList

structure Sound (bus bus' : Bus) (es : List Event) (q : Pairing) : Prop where
  tags : (q.groups.map Twins.tag).Perm (groupTags es)
  alike : ∀ t ∈ q.groups, t.Alike bus bus'

end Pairing

def Abreast (bus bus' : Bus) (es : List Event) (p p' : Progress) : Prop :=
  ∃ q : Pairing, q.Sound bus bus' es ∧ p = q.left ∧ p' = q.right

theorem problems_append (notes more : List Note) :
    problems (notes ++ more) = problems notes ++ problems more :=
  List.filterMap_append

namespace Parallel

variable {α β γ δ : Type} {R : α → β → Prop} {S : γ → δ → Prop} {l : Loading α} {m : Loading β}
  {f : α → Loading γ} {g : β → Loading δ} {a : α} {b : β}

theorem pure (h : R a b) : Parallel R (Pure.pure a) (Pure.pure b) := .done rfl h

theorem note (n n' : Note) (h : n.problem? = n'.problem?) :
    Parallel (fun _ _ => True) (Loading.note n) (Loading.note n') :=
  .done (by simp only [problems, List.filterMap_cons, h]) trivial

/-- A course is parallel to itself, where all that comes of it is so related. -/
theorem of_ok {l : Loading α} {R : α → α → Prop} (h : ∀ a, l.result = .ok a → R a a) :
    Parallel R l l := by
  obtain ⟨notes, e | a⟩ := l
  · exact .ended rfl e
  · exact .done rfl (h a rfl)

theorem mono {S : α → β → Prop} (h : Parallel R l m)
    (hS : ∀ a b, l.result = .ok a → m.result = .ok b → R a b → S a b) : Parallel S l m := by
  cases h with
  | ended hn e => exact .ended hn e
  | done hn h => exact .done hn (hS _ _ rfl rfl h)

theorem bind (h : Parallel R l m) (hf : ∀ a b, R a b → Parallel S (f a) (g b)) :
    Parallel S (l >>= f) (m >>= g) := by
  cases h with
  | ended hn e => exact .ended hn e
  | @done notes notes' a b hn h =>
    have hnext := hf a b h
    change Parallel S ⟨notes ++ (f a).notes, (f a).result⟩ ⟨notes' ++ (g b).notes, (g b).result⟩
    generalize f a = l, g b = m at hnext ⊢
    cases hnext with
    | ended hn' e => exact .ended (by rw [problems_append, problems_append, hn, hn']) e
    | done hn' h' => exact .done (by rw [problems_append, problems_append, hn, hn']) h'

end Parallel

section

variable {policy : Policy} {bus bus' : Bus} {attributes : List Attribute} {key : String}
  {default default' : Nat} {tag : Tag} {es : List Event} {p p' : Progress}

theorem Defaulted.map {α β : Type} {default default' value value' : α} (f : α → β)
    (h : Defaulted attributes key default default' value value') :
    Defaulted attributes key (f default) (f default') (f value) (f value') where
  blank := fun hblank => (h.blank hblank).imp (congrArg f) (congrArg f)
  given := fun hgiven => congrArg f (h.given hgiven)

theorem parallel_numberOf (policy : Policy) (attributes : List Attribute) (key : String)
    (default default' : Nat) :
    Parallel (Defaulted attributes key default default') (numberOf policy attributes key default)
      (numberOf policy attributes key default') := by
  unfold numberOf
  dsimp only
  split
  · next hblank => exact .pure ⟨fun _ => ⟨rfl, rfl⟩, fun hgiven => absurd hblank hgiven⟩
  · next hgiven => exact .of_ok fun n _ => ⟨fun hblank => absurd hblank hgiven, fun _ => rfl⟩

theorem parallel_busOf (policy : Policy) (bus bus' : Bus) (attributes : List Attribute) :
    Parallel (BusDefaulted attributes bus bus') (busOf ⟨policy, bus⟩ attributes)
      (busOf ⟨policy, bus'⟩ attributes) := by
  refine (parallel_numberOf _ _ _ _ _).bind fun addressWidth addressWidth' haddress => ?_
  refine (parallel_numberOf _ _ _ _ _).bind fun baseAddress baseAddress' hbase => ?_
  refine (parallel_numberOf _ _ _ _ _).bind fun dataWidth dataWidth' hdata => ?_
  -- the default of the mapping goes through a number and back
  refine (parallel_numberOf policy attributes "mem_mapped" (mappingNumber bus.mapping)
    (mappingNumber bus'.mapping)).bind fun number number' hnumber => ?_
  refine .pure ⟨haddress, hbase, hdata, ?_⟩
  have hmapping := hnumber.map fun n => Mapping.ofMemoryMapped (n != 0)
  rwa [ofMemoryMapped_mappingNumber, ofMemoryMapped_mappingNumber] at hmapping

theorem parallel_readGroup (policy : Policy) (bus bus' : Bus) (tag : Tag) :
    Parallel (fun g g' => Twins.Alike bus bus' ⟨tag, g, g'⟩) (readGroup ⟨policy, bus⟩ tag)
      (readGroup ⟨policy, bus'⟩ tag) := by
  have hattributes : Parallel (fun xs ys => xs = ys ∧ tag.attributes = .ok xs) (attributesOf tag)
      (attributesOf tag) := .of_ok fun xs hxs => ⟨rfl, attributes_of_ok hxs⟩
  have hread : Parallel (fun g g' => g.name = g'.name ∧ g.registers = g'.registers ∧
      ∃ attributes, tag.attributes = .ok attributes ∧
        BusDefaulted attributes bus bus' g.bus g'.bus)
      (readGroup ⟨policy, bus⟩ tag) (readGroup ⟨policy, bus'⟩ tag) := by
    refine hattributes.bind fun attributes _ h => ?_
    obtain ⟨rfl, hattributes⟩ := h
    dsimp only
    split
    · exact .ended rfl _
    · refine (parallel_busOf policy bus bus' attributes).bind fun b b' hbus => ?_
      have hnote := Parallel.note (.groupRead (valueOf attributes "name") b)
        (.groupRead (valueOf attributes "name") b') rfl
      exact hnote.bind fun _ _ _ => .pure ⟨rfl, rfl, attributes, hattributes, hbus⟩
  refine hread.mono fun g g' hg hg' h => ?_
  obtain ⟨hname, hregisters, hdefaulted⟩ := h
  exact ⟨heading_of_readGroup hg, heading_of_readGroup hg', hname, hregisters, hdefaulted⟩

namespace Twins

def add (t : Twins) (spec : RegisterSpec) : Twins := ⟨t.tag, t.left.add spec, t.right.add spec⟩

theorem Alike.add {t : Twins} (h : t.Alike bus bus') (spec : RegisterSpec) :
    (t.add spec).Alike bus bus' where
  left := h.left
  right := h.right
  name := h.name
  defaulted := h.defaulted
  registers := by simp only [Twins.add, RegisterGroup.add, RegisterGroup.size, h.registers]

end Twins

namespace Pairing

variable {q r : Pairing} {t : Twins} {e : Event}

theorem groups_left (q : Pairing) : q.left.groups = q.groups.map Twins.left := by
  obtain ⟨finished, _ | current⟩ := q <;> simp [left, groups, Progress.groups]

theorem groups_right (q : Pairing) : q.right.groups = q.groups.map Twins.right := by
  obtain ⟨finished, _ | current⟩ := q <;> simp [right, groups, Progress.groups]

namespace Sound

variable (h : q.Sound bus bus' es)
include h

theorem added (he : e.named? groupTag = some t.tag) (ht : t.Alike bus bus')
    (hr : r.groups.Perm (q.groups ++ [t])) : r.Sound bus bus' (es ++ [e]) where
  tags := by
    rw [groupTags_concat, he]
    refine (hr.map Twins.tag).trans ?_
    rw [List.map_append]
    exact h.tags.append_right _
  alike := fun u hu => by
    rcases List.mem_append.mp (hr.mem_iff.mp hu) with hold | hnew
    · exact h.alike u hold
    · exact List.mem_singleton.mp hnew ▸ ht

theorem kept (he : e.named? groupTag = none)
    (htags : r.groups.map Twins.tag = q.groups.map Twins.tag)
    (halike : ∀ t ∈ r.groups, t.Alike bus bus') : r.Sound bus bus' (es ++ [e]) where
  tags := by
    rw [groupTags_concat, he, Option.toList_none, List.append_nil, htags]
    exact h.tags
  alike := halike

theorem pure (he : e.named? groupTag = none) :
    Parallel (Abreast bus bus' (es ++ [e])) (Pure.pure q.left) (Pure.pure q.right) :=
  .pure ⟨q, h.kept he rfl h.alike, rfl, rfl⟩

theorem openGroup {g g' : RegisterGroup} (he : e.named? groupTag = some tag)
    (ht : Twins.Alike bus bus' ⟨tag, g, g'⟩) :
    Parallel (Abreast bus bus' (es ++ [e])) (q.left.openGroup g) (q.right.openGroup g') := by
  have hopened : Pairing.Sound bus bus' (es ++ [e]) ⟨q.groups, some ⟨tag, g, g'⟩⟩ :=
    h.added he ht .rfl
  rw [openGroup_eq, openGroup_eq, groups_left, groups_right]
  refine .done ?_ ⟨_, hopened, rfl, rfl⟩
  simp [problems, List.filterMap_map, Function.comp_def, Note.problem?]

theorem finish {g g' : RegisterGroup} (he : e.named? groupTag = some tag)
    (ht : Twins.Alike bus bus' ⟨tag, g, g'⟩) :
    Parallel (Abreast bus bus' (es ++ [e]))
      (Pure.pure { q.left with finished := q.left.finished ++ [g] })
      (Pure.pure { q.right with finished := q.right.finished ++ [g'] }) := by
  have hfinished : Pairing.Sound bus bus' (es ++ [e])
      ⟨q.finished ++ [⟨tag, g, g'⟩], q.current⟩ := by
    refine h.added he ht ?_
    simp only [groups, List.append_assoc]
    exact List.perm_append_comm.append_left _
  exact .pure ⟨_, hfinished, by simp [left], by simp [right]⟩

theorem register (he : e.named? registerTag = some tag) (policy : Policy) :
    Parallel (Abreast bus bus' (es ++ [e])) (q.left.register policy tag)
      (q.right.register policy tag) := by
  have hgroup : e.named? groupTag = none := named?_of_ne he registerTag_ne_groupTag
  obtain ⟨finished, _ | t⟩ := q
  · exact (Parallel.note .strayRegister .strayRegister rfl).bind fun _ _ _ => h.pure hgroup
  · have hspec : Parallel (· = ·) (readSpec policy tag) (readSpec policy tag) :=
      .of_ok fun _ _ => rfl
    refine hspec.bind fun spec _ heq => ?_
    obtain rfl := heq
    cases spec with
    | none => exact h.pure hgroup
    | some spec =>
      obtain ⟨hfinished, ht⟩ := List.forall_mem_append.mp h.alike
      have halike : ∀ u ∈ groups ⟨finished, some (t.add spec)⟩, u.Alike bus bus' :=
        List.forall_mem_append.mpr ⟨hfinished,
          List.forall_mem_singleton.mpr ((List.forall_mem_singleton.mp ht).add spec)⟩
      have hadded : Pairing.Sound bus bus' (es ++ [e]) ⟨finished, some (t.add spec)⟩ :=
        h.kept hgroup (by simp [groups, Twins.add]) halike
      have hadd : Parallel (fun g g' => g = t.left.add spec ∧ g' = t.right.add spec)
          (addSpec t.left spec) (addSpec t.right spec) := by
        refine .done ?_ ⟨rfl, rfl⟩
        simp [problems, List.filterMap_map, Function.comp_def, Note.problem?]
      refine hadd.bind fun g g' hg => ?_
      obtain ⟨rfl, rfl⟩ := hg
      exact .pure ⟨_, hadded, rfl, rfl⟩

theorem close (he : e.named? groupTag = none) :
    Parallel (Abreast bus bus' (es ++ [e])) (Pure.pure ⟨q.left.groups, none⟩)
      (Pure.pure ⟨q.right.groups, none⟩) := by
  have hgroups : Pairing.groups ⟨q.groups, none⟩ = q.groups := List.append_nil _
  have hclosed : Pairing.Sound bus bus' (es ++ [e]) ⟨q.groups, none⟩ :=
    h.kept he (congrArg _ hgroups) (by rw [hgroups]; exact h.alike)
  rw [groups_left, groups_right]
  exact .pure ⟨_, hclosed, rfl, rfl⟩

end Sound

end Pairing

theorem parallel_step (policy : Policy) (h : Abreast bus bus' es p p') (e : Event) :
    Parallel (Abreast bus bus' (es ++ [e])) (p.step ⟨policy, bus⟩ e)
      (p'.step ⟨policy, bus'⟩ e) := by
  obtain ⟨q, hq, rfl, rfl⟩ := h
  cases hr : e.named? registerTag with
  | some tag =>
    rw [step_of_register hr, step_of_register hr]
    exact hq.register hr policy
  | none =>
    cases e with
    | start tag =>
      by_cases hg : tag.name = groupTag
      · rw [Progress.step, Progress.step, if_pos hg, if_pos hg]
        exact (parallel_readGroup policy bus bus' tag).bind fun g g' ht =>
          hq.openGroup (if_pos hg) ht
      · have hnone : (Event.start tag).named? groupTag = none := if_neg hg
        have hclose : Event.start tag ≠ .close groupTag := by simp
        rw [step_eq_pure _ _ hnone hr hclose, step_eq_pure _ _ hnone hr hclose]
        exact hq.pure hnone
    | empty tag =>
      by_cases hg : tag.name = groupTag
      · rw [Progress.step, Progress.step, if_pos hg, if_pos hg]
        exact (parallel_readGroup policy bus bus' tag).bind fun g g' ht => hq.finish (if_pos hg) ht
      · have hnone : (Event.empty tag).named? groupTag = none := if_neg hg
        have hclose : Event.empty tag ≠ .close groupTag := by simp
        rw [step_eq_pure _ _ hnone hr hclose, step_eq_pure _ _ hnone hr hclose]
        exact hq.pure hnone
    | close name =>
      rw [Progress.step, Progress.step]
      split
      · exact hq.close rfl
      · exact hq.pure rfl

theorem parallel_run (policy : Policy) (h : Abreast bus bus' es p p') (more : List Event) :
    Parallel (Abreast bus bus' (es ++ more)) (p.run ⟨policy, bus⟩ more)
      (p'.run ⟨policy, bus'⟩ more) := by
  induction more generalizing es p p' with
  | nil =>
    rw [List.append_nil]
    exact .pure h
  | cons e more ih =>
    rw [List.append_cons]
    exact (parallel_step policy h e).bind fun p p' hp => ih hp

end

/-- With another bus in the settings the same problems are told, and loading ends in the same error
or comes to groups that differ only where their tags leave it to the bus. -/
theorem load_defaults (policy : Policy) (bus bus' : Bus) (text : List Char) :
    messages (load ⟨policy, bus⟩ text).notes = messages (load ⟨policy, bus'⟩ text).notes ∧
      ((∃ e, (load ⟨policy, bus⟩ text).result = .error e ∧
          (load ⟨policy, bus'⟩ text).result = .error e) ∨
        ∃ twins : List Twins, (load ⟨policy, bus⟩ text).result = .ok (twins.map Twins.left) ∧
          (load ⟨policy, bus'⟩ text).result = .ok (twins.map Twins.right) ∧
          (twins.map Twins.tag).Perm (groupTags (events text).items) ∧
          ∀ t ∈ twins, t.Alike bus bus') := by
  have hstart : Abreast bus bus' [] {} {} := ⟨⟨[], none⟩, ⟨.rfl, nofun⟩, rfl, rfl⟩
  have hload : Parallel (fun gs gs' => ∃ q : Pairing, q.Sound bus bus' (events text).items ∧
      gs = q.groups.map Twins.left ∧ gs' = q.groups.map Twins.right)
        (load ⟨policy, bus⟩ text) (load ⟨policy, bus'⟩ text) := by
    refine (parallel_run policy hstart (events text).items).bind fun p p' h => ?_
    obtain ⟨q, hq, rfl, rfl⟩ := h
    cases (events text).fault with
    | some fault => exact .ended rfl _
    | none => exact .pure ⟨q, hq, q.groups_left, q.groups_right⟩
  generalize load ⟨policy, bus⟩ text = l, load ⟨policy, bus'⟩ text = m at hload ⊢
  cases hload with
  | ended hn e => exact ⟨congrArg (List.map Error.wire) hn, .inl ⟨e, rfl, rfl⟩⟩
  | done hn h =>
    obtain ⟨q, hq, rfl, rfl⟩ := h
    exact ⟨congrArg (List.map Error.wire) hn, .inr ⟨q.groups, rfl, rfl, hq.tags, hq.alike⟩⟩

end RegMap.Description
