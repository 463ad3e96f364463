import RegMap.Proofs.Description.Policy
import RegMap.Proofs.Description.RepairedText

set_option autoImplicit false

namespace RegMap.Description

open Markup

section

variable {name : List Char} {place : Place} {e : Event} {tag : Tag} {bus : Bus}
  {settings : Settings} {p q : Progress} {names : List (List Char)} {es : List Event}

theorem step_of_passed (hg : e.named? groupTag = none) (hr : e.named? registerTag = none)
    (hc : e ≠ .close groupTag) : (p.step settings e).result = .ok p :=
  congrArg Loading.result (step_eq_pure settings p hg hr hc)

theorem register_of_some {g : RegisterGroup} {spec : RegisterSpec} {policy : Policy}
    (hp : p.current = some g) (hs : (readSpec policy tag).result = .ok (some spec)) :
    (p.register policy tag).result = .ok ⟨p.finished, some (g.add spec)⟩ := by
  rw [Progress.register, hp]
  dsimp only
  rw [Loading.result_bind hs]
  rfl

theorem named?_repairEvent {n m : List Char} (he : e.named? n = some tag) :
    (repairEvent name place e).named? m = if (repairTag name place.inGroup tag).name = m then
      some (repairTag name place.inGroup tag) else none := by
  obtain ⟨-, rfl | rfl⟩ := named?_eq_some_iff.mp he <;> rfl

theorem repairEvent_ne_close {n m : List Char} (he : e.named? n = some tag) :
    repairEvent name place e ≠ .close m := by
  obtain ⟨-, rfl | rfl⟩ := named?_eq_some_iff.mp he <;> nofun

theorem repairEvent_kept (hg : e.named? groupTag = none)
    (hr : ∀ tag, e.named? registerTag = some tag → place.inGroup = false)
    (hc : ∀ old, e ≠ .close old) : repairEvent name place e = e := by
  have hkept {tag : Tag} (hgroup : tag.name ≠ groupTag)
      (hregister : tag.name = registerTag → place.inGroup = false) :
      repairTag name place.inGroup tag = tag :=
    repairTag_kept name hgroup fun h => by simp [hregister h.1] at h
  cases e with
  | start tag =>
    exact congrArg Event.start (hkept (by simpa [Event.named?] using hg) fun h =>
      hr tag (if_pos h))
  | empty tag =>
    exact congrArg Event.empty (hkept (by simpa [Event.named?] using hg) fun h =>
      hr tag (if_pos h))
  | close old => exact absurd rfl (hc old)

/-- What an event does under the lenient policy, the repaired one does under the strict one. -/
theorem step_repairEvent (hname : IsPassed name) (hs : place.Sound name)
    (hplace : place.inGroup = p.current.isSome)
    (hn : e.nest (place.opened.map Prod.fst) = .ok names)
    (h : (p.step ⟨.lenient, bus⟩ e).result = .ok q) :
    (p.step ⟨.strict, bus⟩ (repairEvent name place e)).result = .ok q := by
  have htaken := taken_of_step h
  generalize (p.step ⟨.lenient, bus⟩ e).notes = notes at htaken
  cases htaken with
  | @opened tag g hgroup hg =>
    rw [repairEvent, repairTag_group _ _ hgroup, Progress.step,
      if_pos ((name_mendTag tag).trans hgroup), Loading.result_bind (readGroup_mendTag hgroup hg),
      openGroup_eq]
  | @whole tag g hgroup hg =>
    rw [repairEvent, repairTag_group _ _ hgroup, Progress.step,
      if_pos ((name_mendTag tag).trans hgroup), Loading.result_bind (readGroup_mendTag hgroup hg)]
    rfl
  | @added e tag g spec he hp hspec =>
    have hregister := (named?_eq_some_iff.mp he).1
    have hrepair : repairTag name place.inGroup tag = mendTag tag := by
      rw [hplace, hp, Option.isSome_some, repairTag_register name hregister hspec]
      rfl
    have hnew : (repairEvent name place e).named? registerTag = some (mendTag tag) := by
      rw [named?_repairEvent he, hrepair, if_pos ((name_mendTag tag).trans hregister)]
    rw [step_of_register hnew]
    exact register_of_some hp (readSpec_mendTag hregister hspec)
  | @refused e tag g he hp hspec =>
    have hregister := (named?_eq_some_iff.mp he).1
    -- what is left out has lost its name, and is passed over
    have hrepair : (repairTag name place.inGroup tag).name = name := by
      rw [hplace, hp, Option.isSome_some, repairTag_register name hregister hspec, if_pos rfl]
      exact name_renameTag hname.plain _
    have hgroup : (repairEvent name place e).named? groupTag = none := by
      rw [named?_repairEvent he, hrepair, if_neg hname.ne_group]
    have hnone : (repairEvent name place e).named? registerTag = none := by
      rw [named?_repairEvent he, hrepair, if_neg hname.ne_register]
    exact step_of_passed hgroup hnone (repairEvent_ne_close he)
  | @stray e tag he hp =>
    have hkept : repairEvent name place e = e := by
      refine repairEvent_kept (named?_of_ne he registerTag_ne_groupTag) (fun _ _ => ?_) fun old =>
        ne_close_of_named? he
      rw [hplace, hp, Option.isSome_none]
    rw [hkept, step_of_register he, Progress.register, hp]
    rfl
  | closed =>
    -- the element that ends is a group, and only registers get another name
    obtain ⟨new, outer, ho, -⟩ := nest_close_place hn
    have hnew : new = groupTag := by
      rcases hs (groupTag, new) (by simp [ho]) with hkept | ⟨hregister, -⟩
      · exact hkept
      · exact absurd hregister.symm registerTag_ne_groupTag
    have hclose : repairEvent name place (.close groupTag) = .close groupTag := by
      simp [repairEvent, ho, hnew]
    rw [hclose, Progress.step, if_pos rfl]
    rfl
  | passed hg hr hc =>
    cases e with
    | close old =>
      obtain ⟨new, outer, ho, -⟩ := nest_close_place hn
      have hclose : repairEvent name place (.close old) = .close new := by simp [repairEvent, ho]
      have hnew : new ≠ groupTag := by
        rcases hs (old, new) (by simp [ho]) with hkept | ⟨-, hrenamed⟩
        · exact fun h => hc (congrArg Event.close (hkept.symm.trans h))
        · exact fun h => hname.ne_group (hrenamed.symm.trans h)
      rw [hclose]
      exact step_of_passed rfl rfl fun h => hnew (Event.close.inj h)
    | start tag =>
      rw [repairEvent_kept hg (fun _ h => by rw [hr] at h; cases h) (by simp)]
      exact step_of_passed hg hr hc
    | empty tag =>
      rw [repairEvent_kept hg (fun _ h => by rw [hr] at h; cases h) (by simp)]
      exact step_of_passed hg hr hc

theorem run_repairEvents (hname : IsPassed name) (hs : place.Sound name)
    (hplace : place.inGroup = p.current.isSome)
    (hn : es.foldlM Event.nest (place.opened.map Prod.fst) = .ok names)
    (h : (p.run ⟨.lenient, bus⟩ es).result = .ok q) :
    (p.run ⟨.strict, bus⟩ (repairEvents name place es)).result = .ok q := by
  induction es generalizing place p with
  | nil => exact h
  | cons e es ih =>
    rw [List.foldlM_cons] at hn
    obtain ⟨r, hr, hq⟩ := Loading.ok_of_bind h
    obtain ⟨inner, hnest, hn⟩ := ok_of_bind hn
    obtain ⟨rfl, -⟩ := nest_repairEvent name hnest
    -- the place goes on telling whether there is a current group, which the progress knows
    have htaken : (place.behind name e).inGroup = r.current.isSome := by
      change takesIn place.inGroup e = _
      rw [hplace]
      exact takesIn_of_taken (taken_of_step hr)
    rw [repairEvents, Progress.run,
      Loading.result_bind (step_repairEvent hname hs hplace hnest hr)]
    exact ih (hs.behind hname.plain e) htaken hn hq

end

/-- Groups that the lenient policy comes to are those of the repaired description under the strict
one, which reports nothing there, as long as each tag still ends at its own mark; that is so if no
attribute has a quote in its name in a tag with a bad number. -/
theorem load_repair {bus : Bus} {name text : List Char} {gs : List RegisterGroup}
    (hname : IsPassed name) (h : (load ⟨.lenient, bus⟩ text).result = .ok gs) :
    ((∀ content ∈ repairedContents name text, IsContent content) →
      (load ⟨.strict, bus⟩ (repair name text)).result = .ok gs ∧
        messages (load ⟨.strict, bus⟩ (repair name text)).notes = []) ∧
    ((∀ e ∈ (events text).items, ∀ tag ∈ tag? e, PlainKeys tag) →
      ∀ content ∈ repairedContents name text, IsContent content) := by
  obtain ⟨hfault, p, hp, rfl⟩ := run_of_load h
  obtain ⟨names, hn⟩ := nested_events text
  refine ⟨fun hends => ⟨?_, (agree_load bus (repair name text)).silent⟩,
    isContent_repairedContents hname.plain hfault⟩
  have hevents := events_repair hname.plain hfault hends
  have hrun := run_repairEvents hname (sound_start name) rfl hn hp
  rw [load_eq _ _ (by rw [hevents]), hevents, Loading.map_eq, hrun]
  rfl

def mendable : List Char :=
  ["<tv_registers name='g' base_addr='x'>", "<register name='a' width='y' default='z'/>",
    "<register name='b' type='nope'>", "<register name='c' default=\"'\"/>", "</register >",
    "<register name='d' type='int_fixed' int_value='5 '/>",
    "<register name='e' type='int_fixed' int_value='>'/>"].flatMap String.toList

def skipped : List Char := "skipped".toList

def mendableGroups : List RegisterGroup :=
  [⟨"g", {}, [⟨"c", 1, 0, .config 0⟩, ⟨"d", 1, 1, .interrupt 2 5⟩, ⟨"d_msk", 1, 2, .config 0⟩,
    ⟨"e", 1, 3, .interrupt 4 0⟩, ⟨"e_msk", 1, 4, .config 0⟩]⟩]

theorem isPassed_skipped : IsPassed skipped := ⟨by decide, by decide, by decide⟩

theorem load_mendable : (load {} mendable).result = .ok mendableGroups := by decide +kernel

example : repair skipped mendable =
    ["<tv_registers name='g' base_addr='0'>", "<skipped name='a' width='0' default='0'/>",
      "<skipped name='b' type='nope'>", "<register name='c' default=\"0\"/>", "</skipped >",
      "<register name='d' type='int_fixed' int_value='5 '/>",
      "<register name='e' type='int_fixed' int_value='0'/>"].flatMap String.toList := by
  decide +kernel

theorem load_repair_mendable : IsPassed skipped ∧ (load {} mendable).result = .ok mendableGroups ∧
    (∀ content ∈ repairedContents skipped mendable, IsContent content) ∧
    (load ⟨.strict, {}⟩ (repair skipped mendable)).result = .ok mendableGroups ∧
    messages (load ⟨.strict, {}⟩ (repair skipped mendable)).notes = [] := by
  have hkeys : ∀ e ∈ (events mendable).items, ∀ tag ∈ tag? e, PlainKeys tag := by decide +kernel
  obtain ⟨hload, hends⟩ := load_repair isPassed_skipped load_mendable
  exact ⟨isPassed_skipped, load_mendable, hends hkeys, hload (hends hkeys)⟩

/-- The quotes in the names and in the bad number pair off for the end of the tag. With `0` for the
number they do so otherwise, and the tag has no end. -/
def crossed : List Char :=
  "<tv_registers name='g' x\"='a' base_addr='z\"z' y=\"'\" w\"='q'/>".toList

theorem crossed_not_repaired : (load {} crossed).result = .ok [⟨"g", {}, []⟩] ∧
    repair skipped crossed =
      "<tv_registers name='g' x\"='a' base_addr='0' y=\"'\" w\"='q'/>".toList ∧
    (load ⟨.strict, {}⟩ (repair skipped crossed)).result =
      .error (.markup (.construct .unclosedTag)) := by
  decide +kernel

end RegMap.Description
