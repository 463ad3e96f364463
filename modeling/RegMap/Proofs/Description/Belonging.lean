import RegMap.Proofs.Description.Course
import RegMap.Proofs.Group.Layout

/-!
Which group each register of a description comes to. The loader keeps one open group. A group that
starts inside another takes its place, and when that ends no group is open before another one
starts.
-/

set_option autoImplicit false

namespace RegMap.Description

open Markup

/-- Where the innermost group begins that is open behind the events, if one is. -/
def enclosing (es : List Event) : Option Nat :=
  ((openElements es).find? (·.name == groupTag)).map Element.position

/-- Where the group begins that takes in a register behind the events: the innermost open one,
unless a group has ended within it. -/
def home (es : List Event) : Option Nat :=
  (enclosing es).filter fun j => .close groupTag ∉ es.drop j

def specOf? (policy : Policy) (e : Event) : Option RegisterSpec :=
  (e.named? registerTag).bind fun tag => (readSpec policy tag).result.toOption.join

section

variable (owner : List Event → Option Nat) (settings : Settings) (es : List Event)

def specsOf (policy : Policy) (j : Nat) : List RegisterSpec :=
  es.zipIdx.filterMap fun x => if owner (es.take x.2) = some j then specOf? policy x.1 else none

def groupAt? (j : Nat) : Option RegisterGroup :=
  (es[j]?.bind (Event.named? groupTag)).bind fun tag =>
    (readGroup settings tag).result.toOption.map fun g =>
      .ofSpecs g.name g.bus (specsOf owner es settings.policy j)

def groupPositions : List Nat := es.findIdxs fun e => (e.named? groupTag).isSome

/-- The groups are those of the tags, each once and with all registers that belong to it. -/
def Distributed (gs : List RegisterGroup) : Prop :=
  ∃ order : List Nat,
    order.Perm (groupPositions es) ∧ order.map (groupAt? owner settings es) = gs.map some

end

section

variable {owner : List Event → Option Nat} {settings : Settings} {policy : Policy}
  {es : List Event} {e : Event} {tag : Tag} {name : List Char} {j : Nat}

theorem specOf?_eq (h : e.named? registerTag = some tag) {spec : Option RegisterSpec}
    (hs : (readSpec policy tag).result = .ok spec) : specOf? policy e = spec := by
  rw [specOf?, h, Option.bind_some, hs]
  rfl

theorem specOf?_of_ne (h : e.named? registerTag = none) : specOf? policy e = none := by
  rw [specOf?, h]
  rfl

theorem enclosing_lt (h : enclosing es = some j) : j < es.length := by
  obtain ⟨x, hx, rfl⟩ := Option.map_eq_some_iff.mp h
  exact position_lt (List.mem_of_find?_eq_some hx)

theorem home_eq_some_iff :
    home es = some j ↔ enclosing es = some j ∧ .close groupTag ∉ es.drop j := by
  simp [home, Option.filter_eq_some_iff]

theorem home_lt (h : home es = some j) : j < es.length := enclosing_lt (home_eq_some_iff.mp h).1

theorem home_start (h : tag.name = groupTag) : home (es ++ [.start tag]) = some es.length := by
  refine home_eq_some_iff.mpr ⟨?_, by simp⟩
  rw [enclosing, openElements_concat, Event.enclose,
    List.find?_cons_of_pos (by simp [Element.name, h])]
  rfl

theorem home_close (es : List Event) : home (es ++ [.close groupTag]) = none := by
  refine Option.eq_none_iff_forall_ne_some.mpr fun j hj => ?_
  obtain ⟨henc, hopen⟩ := home_eq_some_iff.mp hj
  rw [List.drop_append_of_le_length] at hopen
  · exact hopen (List.mem_append_right _ (List.mem_singleton.mpr rfl))
  · have hlt : j < (es ++ [Event.close groupTag]).length := enclosing_lt henc
    rw [List.length_append, List.length_singleton] at hlt
    exact Nat.lt_succ_iff.mp hlt

theorem enclosing_concat (hn : Nested (es ++ [e]))
    (hs : ∀ tag, e = .start tag → tag.name ≠ groupTag) (hc : e ≠ .close groupTag) :
    enclosing (es ++ [e]) = enclosing es := by
  rw [enclosing, openElements_concat, enclosing]
  cases e with
  | start tag =>
    rw [Event.enclose, List.find?_cons_of_neg]
    simpa [Element.name] using hs tag rfl
  | empty tag => rfl
  | close name =>
    obtain ⟨-, names, hnest⟩ := nested_concat hn
    obtain ⟨x, outer, hopen, hname, -⟩ := nest_close hnest
    rw [hopen, Event.enclose, List.tail_cons, List.find?_cons_of_neg]
    have hne : name ≠ groupTag := fun h => hc (h ▸ rfl)
    simpa [hname] using hne

theorem home_concat (hn : Nested (es ++ [e])) (hs : ∀ tag, e = .start tag → tag.name ≠ groupTag)
    (hc : e ≠ .close groupTag) : home (es ++ [e]) = home es := by
  ext j
  rw [home_eq_some_iff, home_eq_some_iff, enclosing_concat hn hs hc]
  refine and_congr_right fun h => ?_
  rw [List.drop_append_of_le_length (enclosing_lt h).le, List.mem_append, List.mem_singleton,
    or_iff_left hc.symm]

theorem specsOf_concat (owner : List Event → Option Nat) (policy : Policy) (es : List Event)
    (e : Event) (j : Nat) :
    specsOf owner (es ++ [e]) policy j = specsOf owner es policy j ++
      (if owner es = some j then specOf? policy e else none).toList := by
  rw [specsOf, List.zipIdx_append, List.filterMap_append]
  congr 1
  · refine List.filterMap_congr fun x hx => ?_
    rw [List.take_append_of_le_length (List.snd_lt_of_mem_zipIdx hx).le]
  · simp only [Nat.zero_add, List.zipIdx_cons, List.zipIdx_nil, List.filterMap_cons,
      List.take_left', List.filterMap_nil]
    cases (if owner es = some j then specOf? policy e else none) <;> rfl

theorem specsOf_of_le (h : es.length ≤ j) : specsOf home es policy j = [] := by
  refine List.filterMap_eq_nil_iff.mpr fun x hx => if_neg fun hj => ?_
  have hlt : j < (es.take x.2).length := home_lt hj
  rw [List.length_take] at hlt
  omega

theorem readGroup_registers {g : RegisterGroup} (h : (readGroup settings tag).result = .ok g) :
    g = ⟨g.name, g.bus, []⟩ := by
  obtain ⟨attributes, -, h⟩ := Loading.ok_of_bind h
  dsimp only at h
  split at h
  · cases h
  · obtain ⟨bus, -, h⟩ := Loading.ok_of_bind h
    obtain ⟨-, -, h⟩ := Loading.ok_of_bind h
    obtain rfl := Except.ok.inj h
    rfl

theorem groupPositions_concat (es : List Event) (e : Event) :
    groupPositions (es ++ [e]) =
      groupPositions es ++ if (e.named? groupTag).isSome then [es.length] else [] := by
  simp [groupPositions, List.findIdxs_append]

theorem lt_of_mem_groupPositions (h : j ∈ groupPositions es) : j < es.length := by
  simpa using List.lt_add_of_mem_findIdxs j h

theorem nodup_groupPositions : (groupPositions es).Nodup := List.nodup_findIdxs

/-- An event adds to a group just if it belongs there and specifies a register. -/
theorem groupAt?_concat (hj : j < es.length) : groupAt? owner settings (es ++ [e]) j =
    (groupAt? owner settings es j).map fun g =>
      (if owner es = some j then specOf? settings.policy e else none).toList.foldl .add g := by
  rw [groupAt?, groupAt?, List.getElem?_append_left hj, Option.map_bind]
  congr 1
  funext tag
  simp only [specsOf_concat, RegisterGroup.ofSpecs_append, Function.comp_apply, Option.map_map]
  rfl

theorem groupAt?_concat_of_not (hj : j < es.length)
    (h : owner es = some j → specOf? settings.policy e = none) :
    groupAt? owner settings (es ++ [e]) j = groupAt? owner settings es j := by
  have hnone : (if owner es = some j then specOf? settings.policy e else none) = none := by
    split
    · next ho => exact h ho
    · rfl
  rw [groupAt?_concat hj, hnone]
  exact Option.map_id'

theorem groupAt?_concat_self {g : RegisterGroup} (he : e.named? groupTag = some tag)
    (hg : (readGroup settings tag).result = .ok g) :
    groupAt? home settings (es ++ [e]) es.length = some g := by
  have hspecs : specsOf home (es ++ [e]) settings.policy es.length = [] := by
    rw [specsOf_concat, specsOf_of_le le_rfl, if_neg fun h => (home_lt h).false]
    rfl
  rw [groupAt?, List.getElem?_concat_length, Option.bind_some, he, Option.bind_some, hg, hspecs]
  exact congrArg some (readGroup_registers hg).symm

/-- The complete groups are those of all tags so far but the current one, which is the one that
takes in registers. -/
structure Placed (settings : Settings) (es : List Event) (p : Progress) : Prop where
  finished : ∃ order : List Nat, (order ++ (home es).toList).Perm (groupPositions es) ∧
    order.map (groupAt? home settings es) = p.finished.map some
  current : (home es).map (groupAt? home settings es) = p.current.map some

variable {p q : Progress} {notes : List Note}

theorem map_groups {order : List Nat} {current : Option Nat} {f : Nat → Option RegisterGroup}
    (hf : order.map f = p.finished.map some) (hc : current.map f = p.current.map some) :
    (order ++ current.toList).map f = p.groups.map some := by
  have hcurrent := congrArg Option.toList hc
  rw [Option.toList_map, Option.toList_map] at hcurrent
  rw [List.map_append, hf, hcurrent, Progress.groups, List.map_append]

namespace Placed

variable (h : Placed settings es p)
include h

theorem distributed : Distributed home settings es p.groups := by
  obtain ⟨order, hperm, hfinished⟩ := h.finished
  exact ⟨_, hperm, map_groups hfinished h.current⟩

theorem home_eq_none_iff : home es = none ↔ p.current = none := by
  rw [← Option.map_eq_none_iff (f := groupAt? home settings es), h.current,
    Option.map_eq_none_iff]

theorem finished_concat (e : Event) :
    ∃ order : List Nat, (order ++ (home es).toList).Perm (groupPositions es) ∧
      order.map (groupAt? home settings (es ++ [e])) = p.finished.map some := by
  obtain ⟨order, hperm, hfinished⟩ := h.finished
  refine ⟨order, hperm, ?_⟩
  rw [← hfinished]
  refine List.map_congr_left fun j hj => groupAt?_concat_of_not ?_ fun hhome => ?_
  · exact lt_of_mem_groupPositions (hperm.mem_iff.mp (List.mem_append_left _ hj))
  · have hnodup := hperm.nodup_iff.mpr nodup_groupPositions
    rw [hhome] at hnodup
    exact absurd rfl ((List.nodup_append.mp hnodup).2.2 j hj j List.mem_cons_self)

theorem current_concat (hs : specOf? settings.policy e = none) :
    (home es).map (groupAt? home settings (es ++ [e])) = p.current.map some := by
  rw [← h.current]
  cases hhome : home es with
  | none => rfl
  | some j => exact congrArg some (groupAt?_concat_of_not (home_lt hhome) fun _ => hs)

theorem opened {g : RegisterGroup} (hn : tag.name = groupTag)
    (hg : (readGroup settings tag).result = .ok g) :
    Placed settings (es ++ [.start tag]) ⟨p.groups, some g⟩ := by
  have hnamed : (Event.start tag).named? groupTag = some tag := if_pos hn
  have hspec : specOf? settings.policy (.start tag) = none :=
    specOf?_of_ne (named?_of_ne hnamed registerTag_ne_groupTag.symm)
  obtain ⟨order, hperm, hfinished⟩ := h.finished_concat (.start tag)
  refine ⟨⟨_, ?_, map_groups hfinished (h.current_concat hspec)⟩, ?_⟩
  · rw [home_start hn, groupPositions_concat, hnamed]
    exact hperm.append_right _
  · rw [home_start hn]
    exact congrArg some (groupAt?_concat_self hnamed hg)

theorem whole {g : RegisterGroup} (hopen : Nested (es ++ [.empty tag])) (hn : tag.name = groupTag)
    (hg : (readGroup settings tag).result = .ok g) :
    Placed settings (es ++ [.empty tag]) ⟨p.finished ++ [g], p.current⟩ := by
  have hnamed : (Event.empty tag).named? groupTag = some tag := if_pos hn
  have hspec : specOf? settings.policy (.empty tag) = none :=
    specOf?_of_ne (named?_of_ne hnamed registerTag_ne_groupTag.symm)
  have hhome : home (es ++ [.empty tag]) = home es := home_concat hopen nofun nofun
  obtain ⟨order, hperm, hfinished⟩ := h.finished_concat (.empty tag)
  refine ⟨⟨order ++ [es.length], ?_, ?_⟩, ?_⟩
  · rw [hhome, groupPositions_concat, hnamed, List.append_assoc]
    refine (List.perm_append_comm.append_left order).trans ?_
    rw [← List.append_assoc]
    exact hperm.append_right _
  · rw [List.map_append, List.map_append, hfinished, List.map_singleton,
      groupAt?_concat_self hnamed hg]
    rfl
  · rw [hhome]
    exact h.current_concat hspec

/-- An event that is no group keeps the places; only the current group can change. -/
theorem concat_of_not_group {current : Option RegisterGroup} (hopen : Nested (es ++ [e]))
    (hn : e.named? groupTag = none) (hc : e ≠ .close groupTag)
    (hcurrent : (home es).map (groupAt? home settings (es ++ [e])) = current.map some) :
    Placed settings (es ++ [e]) ⟨p.finished, current⟩ := by
  have hstart : ∀ tag, e = .start tag → tag.name ≠ groupTag := by
    rintro tag rfl hname
    rw [Event.named?, if_pos hname] at hn
    cases hn
  have hhome : home (es ++ [e]) = home es := home_concat hopen hstart hc
  obtain ⟨order, hperm, hfinished⟩ := h.finished_concat e
  refine ⟨⟨order, ?_, hfinished⟩, ?_⟩
  · rw [hhome, groupPositions_concat, hn]
    exact (List.append_nil (groupPositions es)).symm ▸ hperm
  · rw [hhome]
    exact hcurrent

theorem added {g : RegisterGroup} {spec : RegisterSpec} (hopen : Nested (es ++ [e]))
    (he : e.named? registerTag = some tag) (hp : p.current = some g)
    (hs : (readSpec settings.policy tag).result = .ok (some spec)) :
    Placed settings (es ++ [e]) ⟨p.finished, some (g.add spec)⟩ := by
  have hn : e.named? groupTag = none := named?_of_ne he registerTag_ne_groupTag
  refine h.concat_of_not_group hopen hn (ne_close_of_named? he) ?_
  have hcurrent := h.current
  rw [hp] at hcurrent
  obtain ⟨j, hhome, hgroup⟩ := Option.map_eq_some_iff.mp hcurrent
  rw [hhome, Option.map_some, groupAt?_concat (home_lt hhome), if_pos hhome, specOf?_eq he hs,
    hgroup]
  rfl

theorem closed : Placed settings (es ++ [.close groupTag]) ⟨p.groups, none⟩ := by
  obtain ⟨order, hperm, hfinished⟩ := h.finished_concat (.close groupTag)
  refine ⟨⟨_, ?_, map_groups hfinished (h.current_concat rfl)⟩, ?_⟩
  · rw [home_close, groupPositions_concat]
    exact hperm.append_right []
  · rw [home_close]
    rfl

theorem passed (hopen : Nested (es ++ [e])) (hn : e.named? groupTag = none)
    (hc : e ≠ .close groupTag) (hs : specOf? settings.policy e = none) :
    Placed settings (es ++ [e]) p := h.concat_of_not_group hopen hn hc (h.current_concat hs)

theorem concat (hopen : Nested (es ++ [e])) (ht : Taken settings p e notes q) :
    Placed settings (es ++ [e]) q := by
  cases ht with
  | opened hn hg => exact h.opened hn hg
  | whole hn hg => exact h.whole hopen hn hg
  | added he hp hs => exact h.added hopen he hp hs
  | refused he hp hs =>
    have hn := named?_of_ne he registerTag_ne_groupTag
    exact h.passed hopen hn (ne_close_of_named? he) (specOf?_eq he hs)
  | stray he hp =>
    have hn := named?_of_ne he registerTag_ne_groupTag
    refine h.concat_of_not_group hopen hn (ne_close_of_named? he) ?_
    rw [h.home_eq_none_iff.mpr hp, hp]
    rfl
  | closed => exact h.closed
  | passed hn hr hc => exact h.passed hopen hn hc (specOf?_of_ne hr)

end Placed

theorem placed_of_run (hn : Nested es) (h : (Progress.run settings {} es).result = .ok p) :
    Placed settings es p := by
  refine run_invariant ⟨⟨[], .rfl, rfl⟩, rfl⟩ ?_ hn h
  exact fun _ _ _ _ _ hopen hplaced htaken => hplaced.concat hopen htaken

theorem distributed_of_load {text : List Char} {gs : List RegisterGroup}
    (h : (load settings text).result = .ok gs) :
    Distributed home settings (events text).items gs := by
  obtain ⟨-, p, hp, rfl⟩ := run_of_load h
  exact (placed_of_run (nested_events text) hp).distributed

end

/-- Every register comes to the group that takes in registers where it stands, in document order and
each interrupt with its mask, but for those that are left out with a problem told. Where no group
does, it is only noted to be outside of one. -/
theorem registers_distributed {settings : Settings} {text : List Char} {gs : List RegisterGroup}
    (h : (load settings text).result = .ok gs) :
    Distributed home settings (events text).items gs ∧
      ∀ before e after tag, (events text).items = before ++ e :: after →
        e.named? registerTag = some tag →
        (home before = none → [.strayRegister] <:+: (load settings text).notes) ∧
        ∀ j, home before = some j →
          (readSpec settings.policy tag).notes <:+: (load settings text).notes ∧
            ((specOf? settings.policy e).isSome ∨ LeftOut settings.policy tag) := by
  obtain ⟨hfault, p, hp, rfl⟩ := run_of_load h
  have hn := nested_events text
  refine ⟨(placed_of_run hn hp).distributed, fun before e after tag hes he => ?_⟩
  rw [load_eq settings text hfault, Loading.map_eq]
  rw [hes] at hn hp ⊢
  obtain ⟨q, r, notes, hq, htaken, hnotes⟩ := taken_of_run hp
  have hplaced : Placed settings before q := placed_of_run (nested_left hn) hq
  have hgroup : e.named? groupTag = none := named?_of_ne he registerTag_ne_groupTag
  cases htaken with
  | opened hname hg => cases hgroup.symm.trans (if_pos hname)
  | whole hname hg => cases hgroup.symm.trans (if_pos hname)
  | added he' hcurrent hs =>
    cases he.symm.trans he'
    refine ⟨fun hhome => ?_, fun j _ => ⟨?_, .inl ?_⟩⟩
    · cases hcurrent.symm.trans (hplaced.home_eq_none_iff.mp hhome)
    · exact (List.prefix_append _ _).isInfix.trans hnotes
    · rw [specOf?_eq he hs]
      rfl
  | refused he' hcurrent hs =>
    cases he.symm.trans he'
    refine ⟨fun hhome => ?_, fun j _ => ⟨hnotes, .inr (leftOut_of_none hs)⟩⟩
    cases hcurrent.symm.trans (hplaced.home_eq_none_iff.mp hhome)
  | stray he' hcurrent =>
    refine ⟨fun _ => hnotes, fun j hj => ?_⟩
    cases hj.symm.trans (hplaced.home_eq_none_iff.mpr hcurrent)
  | closed => cases he
  | passed hg hr hc => cases he.symm.trans hr

def groupsWithin : List Char :=
  ["<tv_registers name='a'>", "<x>", "<register name='r' type='int_fixed'/>", "</x>",
    "<tv_registers name='b'/>", "<register name='s'/>", "<tv_registers name='c'>",
    "<register name='t'/>", "</tv_registers>", "<register name='u'/>",
    "</tv_registers>"].flatMap String.toList

def groupsWithinGroups : List RegisterGroup :=
  [⟨"b", {}, []⟩,
    ⟨"a", {}, [⟨"r", 1, 0, .interrupt 1 0⟩, ⟨"r_msk", 1, 1, .config 0⟩, ⟨"s", 1, 2, .config 0⟩]⟩,
    ⟨"c", {}, [⟨"t", 1, 0, .config 0⟩]⟩]

theorem load_groupsWithin : (load {} groupsWithin).result = .ok groupsWithinGroups := by
  decide +kernel

theorem registers_distributed_within :
    (load {} groupsWithin).result = .ok groupsWithinGroups ∧
      Distributed home {} (events groupsWithin).items groupsWithinGroups ∧
      [.strayRegister] <:+: (load {} groupsWithin).notes := by
  obtain ⟨hgroups, hregisters⟩ := registers_distributed load_groupsWithin
  have hstray : (events groupsWithin).items = (events groupsWithin).items.take 9 ++
      .empty ⟨"register name='u'".toList⟩ :: (events groupsWithin).items.drop 10 := by
    decide +kernel
  have hoff := (hregisters _ _ _ ⟨"register name='u'".toList⟩ hstray (by decide)).1
  exact ⟨load_groupsWithin, hgroups, hoff (by decide +kernel)⟩

def groupWithin : List Char :=
  ["<tv_registers name='a'>", "<tv_registers name='b'>", "</tv_registers>",
    "<register name='x'/>", "</tv_registers>"].flatMap String.toList

/-- The register is in the group `a`, but that group is left without registers. -/
theorem not_distributed_enclosing :
    (load {} groupWithin).result = .ok [⟨"a", {}, []⟩, ⟨"b", {}, []⟩] ∧
      messages (load {} groupWithin).notes = [] ∧
      ¬ Distributed enclosing {} (events groupWithin).items [⟨"a", {}, []⟩, ⟨"b", {}, []⟩] := by
  refine ⟨by decide +kernel, by decide +kernel, ?_⟩
  have hlost : ∀ j ∈ groupPositions (events groupWithin).items,
      groupAt? enclosing {} (events groupWithin).items j ≠ some ⟨"a", {}, []⟩ := by decide +kernel
  rintro ⟨order, hperm, hgroups⟩
  obtain ⟨j, rest, rfl, hj, -⟩ := List.map_eq_cons_iff.mp hgroups
  exact hlost j (hperm.mem_iff.mp List.mem_cons_self) hj

end RegMap.Description
