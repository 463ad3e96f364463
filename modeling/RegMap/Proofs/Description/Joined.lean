import RegMap.Proofs.Description.Belonging

set_option autoImplicit false

namespace RegMap.Description

open Markup

def Progress.after (gs : List RegisterGroup) (p : Progress) : Progress :=
  { p with finished := gs ++ p.finished }

def Progress.ended (fault : Option Fault) (p : Progress) : Loading (List RegisterGroup) :=
  match fault with
  | some fault => .fail (.markup fault)
  | none => return p.groups

theorem load_eq_bind (settings : Settings) (text : List Char) : load settings text =
    Progress.run settings {} (events text).items >>= Progress.ended (events text).fault := rfl

section

variable (settings : Settings) (gs : List RegisterGroup) (p : Progress)

theorem groups_after : (p.after gs).groups = gs ++ p.groups := List.append_assoc _ _ _

theorem ended_after (fault : Option Fault) :
    (p.after gs).ended fault = (gs ++ ·) <$> p.ended fault := by
  cases fault with
  | some fault => rfl
  | none => rw [Progress.ended, groups_after, Progress.ended, map_pure]

theorem openGroup_after (g : RegisterGroup) :
    (p.after gs).openGroup g = Progress.after gs <$> p.openGroup g := by
  rw [openGroup_eq, openGroup_eq, Loading.map_eq, groups_after]
  rfl

theorem register_after (policy : Policy) (tag : Tag) :
    (p.after gs).register policy tag = Progress.after gs <$> p.register policy tag := by
  obtain ⟨finished, _ | group⟩ := p
  · rfl
  · unfold Progress.register
    rw [map_bind]
    refine bind_congr fun spec => ?_
    cases spec with
    | none => rfl
    | some spec => rw [map_bind]; rfl

theorem step_after (e : Event) :
    (p.after gs).step settings e = Progress.after gs <$> p.step settings e := by
  cases e with
  | start tag =>
    simp only [Progress.step, register_after]
    split
    · rw [map_bind]
      exact bind_congr fun g => openGroup_after gs p g
    · split
      · rfl
      · exact (map_pure _ _).symm
  | empty tag =>
    simp only [Progress.step, register_after]
    split
    · simp [Progress.after]
    · split
      · rfl
      · exact (map_pure _ _).symm
  | close name =>
    simp only [Progress.step, groups_after]
    split <;> exact (map_pure _ _).symm

theorem run_after (es : List Event) :
    (p.after gs).run settings es = Progress.after gs <$> p.run settings es := by
  induction es generalizing p with
  | nil => exact (map_pure _ _).symm
  | cons e es ih => simp only [Progress.run, step_after, bind_map_left, map_bind, ih]

end

section

variable {settings : Settings} {a : List Char} {p : Progress}

/-- Behind a description that ends all its elements, no group takes in registers. -/
theorem after_of_run (hc : openElements (events a).items = [])
    (hp : (Progress.run settings {} (events a).items).result = .ok p) :
    p = Progress.after p.finished {} ∧ p.groups = p.finished := by
  have hhome : home (events a).items = none := by
    rw [home, enclosing, hc]
    rfl
  have hcurrent := (placed_of_run (nested_events a) hp).home_eq_none_iff.mp hhome
  obtain ⟨finished, current⟩ := p
  obtain rfl : current = none := hcurrent
  simp [Progress.after, Progress.groups]

theorem load_after (settings : Settings) (gs : List RegisterGroup) (b : List Char) :
    (Progress.after gs {}).run settings (events b).items >>= Progress.ended (events b).fault =
      (gs ++ ·) <$> load settings b := by
  rw [run_after, bind_map_left, load_eq_bind, map_bind]
  exact bind_congr fun p => ended_after gs p (events b).fault

end

theorem messages_append (notes more : List Note) :
    messages (notes ++ more) = messages notes ++ messages more := by
  simp [messages]

/-- Behind a description that ends all its elements, another is loaded as it is on its own. -/
theorem load_append {settings : Settings} {a : List Char} {gs : List RegisterGroup}
    (ha : (load settings a).result = .ok gs) (hc : openElements (events a).items = [])
    (b : List Char) :
    (load settings (a ++ b)).result = (load settings b).result.map (gs ++ ·) ∧
      (load settings (a ++ b)).notes = (load settings a).notes ++ (load settings b).notes ∧
      messages (load settings (a ++ b)).notes =
        messages (load settings a).notes ++ messages (load settings b).notes := by
  obtain ⟨hfault, p, hp, rfl⟩ := run_of_load ha
  obtain ⟨hafter, hgroups⟩ := after_of_run hc hp
  have hload : load settings (a ++ b) = ⟨(load settings a).notes ++ (load settings b).notes,
      (load settings b).result.map (p.groups ++ ·)⟩ := by
    rw [load_eq settings a hfault, Loading.map_eq, load_eq_bind, events_append hfault hc b,
      run_append, bind_assoc, Loading.bind_of_ok hp, hafter, load_after, Loading.map_eq, ← hafter,
      hgroups]
  rw [hload]
  exact ⟨rfl, rfl, messages_append _ _⟩

def unnamedBehind : List Char :=
  ["<!-- <d> -->", "<tv_registers name='d'>", "<register name='v' type='nope'/>",
    "</tv_registers>", "<tv_registers/>"].flatMap String.toList

theorem load_append_within :
    (load {} (groupsWithin ++ unnamedBehind)).result = .error .unnamedGroup ∧
      messages (load {} (groupsWithin ++ unnamedBehind)).notes =
        [(Error.unknownType "v" "nope").wire] := by
  have hclosed : openElements (events groupsWithin).items = [] := by decide +kernel
  obtain ⟨hresult, -, hmessages⟩ := load_append load_groupsWithin hclosed unnamedBehind
  have herror : (load {} unnamedBehind).result = .error .unnamedGroup := by decide +kernel
  rw [hresult, hmessages, herror]
  exact ⟨rfl, by decide +kernel⟩

end RegMap.Description
