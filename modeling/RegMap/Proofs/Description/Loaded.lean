import RegMap.Description.Load
import RegMap.Proofs.Group.Mask

/-!
The groups that loading gives are made by adding to an empty group what register tags of the text
say. Hence they have all that holds of groups made that way; registers that are left out make no
difference to it.
-/

set_option autoImplicit false

namespace RegMap.Description

open Markup

namespace Loading

variable {α β : Type} {l : Loading α} {P Q : α → Prop}

def Ensures (l : Loading α) (P : α → Prop) : Prop := ∀ a, l.result = .ok a → P a

theorem ensures_pure {a : α} (h : P a) : (Pure.pure a : Loading α).Ensures P := by
  rintro b hb
  exact Except.ok.inj hb ▸ h

theorem ensures_fail (e : Error) : (fail e : Loading α).Ensures P := nofun

theorem ensures_result (l : Loading α) : l.Ensures fun a => l.result = .ok a := fun _ h => h

theorem Ensures.bind {f : α → Loading β} {P : β → Prop} (h : l.Ensures Q)
    (hf : ∀ a, Q a → (f a).Ensures P) : (l >>= f).Ensures P := by
  intro b hb
  cases hl : l.result with
  | error e =>
    have hfail : (l >>= f).result = .error e := by
      change (Loading.bind l f).result = _
      simp only [Loading.bind, hl]
    rw [hfail] at hb
    cases hb
  | ok a =>
    have hrun : (l >>= f).result = (f a).result := by
      change (Loading.bind l f).result = _
      simp only [Loading.bind, hl]
    exact hf a (h a hl) b (hrun ▸ hb)

end Loading

def Told (policy : Policy) (es : List Event) (spec : RegisterSpec) : Prop :=
  ∃ tag, (.start tag ∈ es ∨ .empty tag ∈ es) ∧ tag.name = registerTag ∧
    (readSpec policy tag).result = .ok (some spec)

def MadeOf (policy : Policy) (es : List Event) (g : RegisterGroup) : Prop :=
  ∃ specs, g = .ofSpecs g.name g.bus specs ∧ ∀ spec ∈ specs, Told policy es spec

section

variable {policy : Policy} {settings : Settings} {es : List Event} {g : RegisterGroup}
  {spec : RegisterSpec} {p : Progress} {tag : Tag}

theorem madeOf_empty (name : String) (bus : Bus) : MadeOf policy es ⟨name, bus, []⟩ :=
  ⟨[], rfl, nofun⟩

theorem MadeOf.add (h : MadeOf policy es g) (hs : Told policy es spec) :
    MadeOf policy es (g.add spec) := by
  obtain ⟨specs, hg, hspecs⟩ := h
  refine ⟨specs ++ [spec], ?_, fun s hm => ?_⟩
  · change g.add spec = .ofSpecs g.name g.bus (specs ++ [spec])
    rw [RegisterGroup.ofSpecs_append, ← hg]
    rfl
  · rcases List.mem_append.mp hm with hm | hm
    · exact hspecs s hm
    · exact List.mem_singleton.mp hm ▸ hs

def Progress.Sound (policy : Policy) (es : List Event) (p : Progress) : Prop :=
  ∀ g ∈ p.groups, MadeOf policy es g

theorem Progress.sound_iff : p.Sound policy es ↔
    (∀ g ∈ p.finished, MadeOf policy es g) ∧ ∀ g, p.current = some g → MadeOf policy es g := by
  simp [Progress.Sound, Progress.groups, or_imp, forall_and]

theorem readGroup_ensures (settings : Settings) (tag : Tag) :
    (readGroup settings tag).Ensures (MadeOf policy es) := by
  refine (Loading.ensures_result _).bind fun attributes _ => ?_
  dsimp only
  split
  · exact Loading.ensures_fail _
  · refine (Loading.ensures_result _).bind fun bus _ => ?_
    refine (Loading.ensures_result _).bind fun _ _ => ?_
    exact Loading.ensures_pure (madeOf_empty _ _)

theorem register_ensures (h : p.Sound policy es)
    (ht : ∀ spec, (readSpec policy tag).result = .ok (some spec) → Told policy es spec) :
    (p.register policy tag).Ensures (Progress.Sound policy es) := by
  obtain ⟨hfinished, hcurrent⟩ := Progress.sound_iff.mp h
  unfold Progress.register
  cases hc : p.current with
  | none => exact (Loading.ensures_result _).bind fun _ _ => Loading.ensures_pure h
  | some group =>
    refine (Loading.ensures_result _).bind fun spec hspec => ?_
    cases spec with
    | none => exact Loading.ensures_pure h
    | some spec =>
      have hadd : MadeOf policy es (group.add spec) := (hcurrent group hc).add (ht spec hspec)
      refine (Loading.ensures_result _).bind fun g hg => Loading.ensures_pure ?_
      obtain rfl : group.add spec = g := Except.ok.inj hg
      exact Progress.sound_iff.mpr ⟨hfinished, by simpa using hadd⟩

theorem openGroup_ensures (h : p.Sound policy es) (hg : MadeOf policy es g) :
    (p.openGroup g).Ensures (Progress.Sound policy es) := by
  obtain ⟨hfinished, hcurrent⟩ := Progress.sound_iff.mp h
  unfold Progress.openGroup
  cases hc : p.current with
  | none => exact Loading.ensures_pure (Progress.sound_iff.mpr ⟨hfinished, by simpa using hg⟩)
  | some unclosed =>
    refine (Loading.ensures_result _).bind fun _ _ => Loading.ensures_pure ?_
    refine Progress.sound_iff.mpr ⟨fun x hx => ?_, by simpa using hg⟩
    rcases List.mem_append.mp hx with hx | hx
    · exact hfinished x hx
    · exact List.mem_singleton.mp hx ▸ hcurrent unclosed hc

theorem step_ensures (h : p.Sound settings.policy es) {e : Event} (he : e ∈ es) :
    (p.step settings e).Ensures (Progress.Sound settings.policy es) := by
  cases e with
  | start tag =>
    simp only [Progress.step]
    split
    · exact (readGroup_ensures settings tag).bind fun g hg => openGroup_ensures h hg
    · split
      · next hn => exact register_ensures h fun spec hs => ⟨tag, .inl he, hn, hs⟩
      · exact Loading.ensures_pure h
  | empty tag =>
    simp only [Progress.step]
    split
    · have hread : (readGroup settings tag).Ensures (MadeOf settings.policy es) :=
        readGroup_ensures settings tag
      refine hread.bind fun g hg => Loading.ensures_pure ?_
      obtain ⟨hfinished, hcurrent⟩ := Progress.sound_iff.mp h
      refine Progress.sound_iff.mpr ⟨fun x hx => ?_, hcurrent⟩
      rcases List.mem_append.mp hx with hx | hx
      · exact hfinished x hx
      · exact List.mem_singleton.mp hx ▸ hg
    · split
      · next hn => exact register_ensures h fun spec hs => ⟨tag, .inr he, hn, hs⟩
      · exact Loading.ensures_pure h
  | close name =>
    simp only [Progress.step]
    split
    · exact Loading.ensures_pure (by simpa [Progress.Sound, Progress.groups] using h)
    · exact Loading.ensures_pure h

theorem run_ensures (h : p.Sound settings.policy es) {rest : List Event} (hr : rest ⊆ es) :
    (p.run settings rest).Ensures (Progress.Sound settings.policy es) := by
  induction rest generalizing p with
  | nil => exact Loading.ensures_pure h
  | cons e rest ih =>
    obtain ⟨he, hrest⟩ := List.cons_subset.mp hr
    exact (step_ensures h he).bind fun p hp => ih hp hrest

theorem load_ensures (settings : Settings) (text : List Char) :
    (load settings text).Ensures fun gs =>
      ∀ g ∈ gs, MadeOf settings.policy (events text).items g := by
  have hstart : Progress.Sound settings.policy (events text).items {} := by
    simp [Progress.Sound, Progress.groups]
  refine (run_ensures hstart fun _ he => he).bind fun p hp => ?_
  cases (events text).fault with
  | some fault => exact Loading.ensures_fail _
  | none => exact Loading.ensures_pure hp

end

/-- Whether its registers are added one by one or come from a description, in which others may have
been left out: each interrupt of a group keeps its own mask. -/
theorem interrupts_keep_masks (settings : Settings) (text : List Char) :
    (∀ name bus specs, (RegisterGroup.ofSpecs name bus specs).KeepsMasks specs) ∧
      ∀ gs, (load settings text).result = .ok gs → ∀ g ∈ gs,
        ∃ specs, g = .ofSpecs g.name g.bus specs ∧ g.KeepsMasks specs ∧
          ∀ spec ∈ specs, Told settings.policy (events text).items spec := by
  refine ⟨RegisterGroup.ofSpecs_keepsMasks, fun gs h g hg => ?_⟩
  obtain ⟨specs, hmade, htold⟩ := load_ensures settings text gs h g hg
  refine ⟨specs, hmade, ?_, htold⟩
  rw [hmade]
  exact RegisterGroup.ofSpecs_keepsMasks _ _ specs

def twoInterrupts : List Char :=
  ("<tv_registers name='u'><register name='a' type='int_fixed' width='2' default='3'/>" ++
    "<register name='x' type='nope'/><register name='b' type='int_fixed'/></tv_registers>").toList

def twoInterruptsGroup : RegisterGroup :=
  ⟨"u", {}, [⟨"a", 2, 0, .interrupt 1 0⟩, ⟨"a_msk", 2, 1, .config 3⟩,
    ⟨"b", 1, 2, .interrupt 3 0⟩, ⟨"b_msk", 1, 3, .config 0⟩]⟩

theorem load_twoInterrupts : (load {} twoInterrupts).result = .ok [twoInterruptsGroup] := by
  decide +kernel

theorem interrupts_keep_masks_twoInterrupts :
    (load {} twoInterrupts).result = .ok [twoInterruptsGroup] ∧
      ∃ spec, twoInterruptsGroup.OwnMask spec 2 ⟨"b", 1, 2, .interrupt 3 0⟩ := by
  have hkept := (interrupts_keep_masks {} twoInterrupts).2 _ load_twoInterrupts
  obtain ⟨specs, -, hkeeps, -⟩ := hkept twoInterruptsGroup List.mem_cons_self
  obtain ⟨-, before, spec, after, -, -, hown⟩ := hkeeps 2 3 0 _ rfl rfl
  exact ⟨load_twoInterrupts, spec, hown⟩

end RegMap.Description
