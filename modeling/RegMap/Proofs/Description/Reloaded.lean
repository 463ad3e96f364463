import RegMap.Proofs.Description.Written

set_option autoImplicit false

namespace RegMap.Description

open Markup Text

namespace Loading

variable {α β : Type} {l : Loading α} {a : α} {b : β}

def Yields (l : Loading α) (a : α) : Prop :=
  l.result = .ok a ∧ ∀ n ∈ l.notes, n.logLine.level ≠ .warn

theorem yields_pure (a : α) : (Pure.pure a : Loading α).Yields a := ⟨rfl, nofun⟩

theorem yields_note {n : Note} (h : n.logLine.level ≠ .warn) : (note n).Yields () :=
  ⟨rfl, by simpa [note] using h⟩

theorem yields_ofExcept {result : Except Error α} (h : result = .ok a) :
    (ofExcept result).Yields a := ⟨h, nofun⟩

theorem yields_recover (policy : Policy) (fallback : α) {result : Except Error α}
    (h : result = .ok a) : (recover policy fallback result).Yields a := by
  subst h
  cases policy <;> exact ⟨rfl, nofun⟩

theorem Yields.bind {f : α → Loading β} (h : l.Yields a) (hf : (f a).Yields b) :
    (l >>= f).Yields b := by
  obtain ⟨notes, result⟩ := l
  obtain rfl : result = .ok a := h.1
  refine ⟨hf.1, fun n hn => ?_⟩
  rcases List.mem_append.mp hn with hn | hn
  · exact h.2 n hn
  · exact hf.2 n hn

theorem Yields.messages (h : l.Yields a) : messages l.notes = [] := by
  have hnone : l.notes.filterMap Note.problem? = [] := by
    refine List.filterMap_eq_nil_iff.mpr fun n hn => ?_
    cases n with
    | recovered problem => exact absurd rfl (h.2 _ hn)
    | _ => rfl
  rw [Description.messages, hnone, List.map_nil]

end Loading

section

variable {attributes : List Attribute} {key : String} {n default : Nat}
  {right : List Char → Prop} {spare : Prop}

/-- What is found under the key is right, or it is empty and need not be there. -/
theorem valueOf_of_gives (hd : (attributes.map Attribute.key).Nodup)
    (h : Gives attributes key right spare) :
    right (valueOf attributes key).toList ∨ spare ∧ valueOf attributes key = "" := by
  unfold valueOf
  rcases h with ⟨a, ha, hak, hright⟩ | ⟨hspare, hempty⟩
  · rw [(find?_key_iff hd).mpr ⟨ha, hak⟩]
    exact .inl (by rwa [String.toList_ofList])
  · refine .inr ⟨hspare, ?_⟩
    split
    · next b hfind =>
      obtain ⟨hb, hkey⟩ := (find?_key_iff hd).mp hfind
      rw [hempty b hb hkey, String.ofList_nil]
    · rfl

theorem valueOf_text {text : String} (hd : (attributes.map Attribute.key).Nodup)
    (h : GivesText attributes key text "") : valueOf attributes key = text := by
  rcases valueOf_of_gives hd h with hright | ⟨rfl, hempty⟩
  · exact String.toList_injective hright
  · exact hempty

theorem numberOf_yields (policy : Policy) (hd : (attributes.map Attribute.key).Nodup)
    (h : GivesNumber attributes key n default) (hn : n < wordLimit) :
    (numberOf policy attributes key default).Yields n := by
  rcases valueOf_of_gives hd h with hright | ⟨rfl, hempty⟩
  · have hne : Text.trim (valueOf attributes key).toList ≠ [] := by
      rw [trim_of_no_blank hright.no_blank]
      exact hright.ne_nil
    have hread := hright.read hn
    rw [String.ofList_toList] at hread
    simp only [numberOf, if_neg hne]
    exact Loading.yields_recover _ _ (by rw [hread]; rfl)
  · simp only [numberOf, hempty]
    exact Loading.yields_pure _

end

section

variable {settings : Settings} {tag : Tag} {attributes : List Attribute} {g : GroupSpec}
  {spec : RegisterSpec}

theorem attributesOf_yields {name : List Char} (h : tag.Reads name attributes) :
    (attributesOf tag).Yields attributes :=
  Loading.yields_ofExcept (by rw [h.attributes_eq]; rfl)

theorem mappingNumber_lt (m : Mapping) : mappingNumber m < wordLimit := by
  cases m <;> decide

theorem busOf_yields (hd : (attributes.map Attribute.key).Nodup)
    (h : TellsGroup settings.bus g attributes) (hg : g.Valid) :
    (busOf settings attributes).Yields g.bus := by
  refine (numberOf_yields _ hd h.addressWidth hg.addressWidth).bind ?_
  refine (numberOf_yields _ hd h.baseAddress hg.baseAddress).bind ?_
  refine (numberOf_yields _ hd h.dataWidth hg.dataWidth).bind ?_
  refine (numberOf_yields _ hd h.mapping (mappingNumber_lt _)).bind ?_
  rw [ofMemoryMapped_mappingNumber]
  exact Loading.yields_pure _

theorem readGroup_yields {name : List Char} (ht : tag.Reads name attributes)
    (h : TellsGroup settings.bus g attributes) (hg : g.Valid) :
    (readGroup settings tag).Yields ⟨g.name, g.bus, []⟩ := by
  refine (attributesOf_yields ht).bind ?_
  simp only [valueOf_text ht.distinct h.name, if_neg hg.name]
  refine (busOf_yields ht.distinct h hg).bind ?_
  exact (Loading.yields_note (by simp [Note.logLine])).bind (Loading.yields_pure _)

theorem typeOf_eq (hd : (attributes.map Attribute.key).Nodup)
    (h : TellsRegister spec attributes) : typeOf attributes = .ok spec.type := by
  rcases valueOf_of_gives hd h.type with hgiven | ⟨hspare, hempty⟩
  · have hname : valueOf attributes "type" = spec.type.name := String.toList_injective hgiven
    have hne : spec.type.name ≠ "" := by cases spec.type <;> decide
    have hread : RegisterType.ofName spec.type.name = .ok spec.type := by cases spec.type <;> rfl
    simp only [typeOf, hname, if_neg hne, hread]
    rfl
  · have hconfig : spec.type = .config := by
      cases ht : spec.type <;> simp [ht, RegisterType.name] at hspare ⊢
    simp only [typeOf, hempty, hconfig, if_true]

theorem readSpec_yields {name : List Char} (policy : Policy) (ht : tag.Reads name attributes)
    (h : TellsRegister spec attributes) (hv : ValidRegister spec) :
    ∃ s, (readSpec policy tag).Yields (some s) ∧ ∀ i, s.registers i = spec.registers i := by
  -- the vector is read for an interrupt alone; registers of other types do not have it
  let vector := if spec.type = .intFixed then spec.vector else 0
  have hwidth : spec.width ≠ 0 := Nat.one_le_iff_ne_zero.mp hv.one_le_width
  refine ⟨{ spec with vector := vector }, ?_, fun i => ?_⟩
  · refine (attributesOf_yields ht).bind ?_
    refine (Loading.yields_recover policy none (by rw [typeOf_eq ht.distinct h]; rfl)).bind ?_
    refine (numberOf_yields policy ht.distinct h.width hv.width).bind ?_
    simp only [if_neg hwidth]
    refine (numberOf_yields policy ht.distinct h.resetValue hv.resetValue).bind ?_
    rw [valueOf_text ht.distinct h.name]
    split
    · next hint =>
      rw [show vector = spec.vector from if_pos hint]
      exact (numberOf_yields policy ht.distinct h.vector hv.vector).bind (Loading.yields_pure _)
    · next hother =>
      rw [show vector = 0 from if_neg hother]
      exact (Loading.yields_pure 0).bind (Loading.yields_pure _)
  · cases ht : spec.type <;> simp [RegisterSpec.registers, ht, vector]

/-- Reading the tag, however it is written, leads from one point to the other. -/
def Step (settings : Settings) (p : Progress) (m : Mark) (q : Progress) : Prop :=
  ∀ e, m.Told e → (p.step settings e).Yields q

inductive Leads (settings : Settings) : Progress → List Mark → Progress → Prop where
  | nil (p : Progress) : Leads settings p [] p
  | cons {p q r : Progress} {m : Mark} {marks : List Mark} (hm : Step settings p m q)
      (h : Leads settings q marks r) : Leads settings p (m :: marks) r

variable {p q r : Progress} {marks more : List Mark} {parts : List (List Mark)}
  {group : RegisterGroup} {specs : List GroupSpec}

theorem Leads.append (h : Leads settings p marks q) (hmore : Leads settings q more r) :
    Leads settings p (marks ++ more) r := by
  induction h with
  | nil => exact hmore
  | cons hm h ih => exact .cons hm (ih hmore)

theorem Leads.run (h : Leads settings p marks q) {es : List Event}
    (hes : List.Forall₂ Mark.Told marks es) : (p.run settings es).Yields q := by
  induction h generalizing es with
  | nil p =>
    cases hes
    exact Loading.yields_pure p
  | cons hm h ih =>
    cases hes with
    | cons he hes => exact (hm _ he).bind (ih hes)

theorem register_yields {name : List Char} (policy : Policy) (ht : tag.Reads name attributes)
    (h : TellsRegister spec attributes) (hv : ValidRegister spec) (hp : p.current = some group) :
    (p.register policy tag).Yields { p with current := some (group.add spec) } := by
  obtain ⟨s, hread, hs⟩ := readSpec_yields policy ht h hv
  have hadd : group.add s = group.add spec := by rw [RegisterGroup.add, RegisterGroup.add, hs]
  have hnotes : (addSpec group s).Yields (group.add spec) := by
    refine ⟨by rw [← hadd]; rfl, fun n hn => ?_⟩
    obtain ⟨r, -, rfl⟩ := List.mem_map.mp hn
    simp [Note.logLine]
  simp only [Progress.register, hp]
  exact hread.bind (hnotes.bind (Loading.yields_pure _))

theorem step_startRegister (h : TellsRegister spec attributes) (hv : ValidRegister spec)
    (hp : p.current = some group) :
    Step settings p (.start registerTag attributes)
      { p with current := some (group.add spec) } := by
  rintro e (ht | -)
  simp only [Progress.step, ht.name_eq, if_neg registerTag_ne_groupTag, if_true]
  exact register_yields _ ht h hv hp

theorem step_emptyRegister (h : TellsRegister spec attributes) (hv : ValidRegister spec)
    (hp : p.current = some group) :
    Step settings p (.empty registerTag attributes)
      { p with current := some (group.add spec) } := by
  rintro e (- | ht)
  simp only [Progress.step, ht.name_eq, if_neg registerTag_ne_groupTag, if_true]
  exact register_yields _ ht h hv hp

theorem step_closeRegister (p : Progress) : Step settings p (.close registerTag) p := by
  rintro e (- | - | -)
  simp only [Progress.step, if_neg registerTag_ne_groupTag]
  exact Loading.yields_pure _

theorem step_startGroup {finished : List RegisterGroup}
    (h : TellsGroup settings.bus g attributes) (hg : g.Valid) :
    Step settings ⟨finished, none⟩ (.start groupTag attributes)
      ⟨finished, some ⟨g.name, g.bus, []⟩⟩ := by
  rintro e (ht | -)
  simp only [Progress.step, ht.name_eq, if_true]
  exact (readGroup_yields ht h hg).bind (Loading.yields_pure _)

theorem step_emptyGroup {finished : List RegisterGroup}
    (h : TellsGroup settings.bus g attributes) (hg : g.Valid) :
    Step settings ⟨finished, none⟩ (.empty groupTag attributes)
      ⟨finished ++ [⟨g.name, g.bus, []⟩], none⟩ := by
  rintro e (- | ht)
  simp only [Progress.step, ht.name_eq, if_true]
  exact (readGroup_yields ht h hg).bind (Loading.yields_pure _)

theorem step_closeGroup (p : Progress) : Step settings p (.close groupTag) ⟨p.groups, none⟩ := by
  rintro e (- | - | -)
  simp only [Progress.step, if_true]
  exact Loading.yields_pure _

theorem leads_register (hm : RegisterMarks spec marks) (hv : ValidRegister spec)
    (hp : p.current = some group) :
    Leads settings p marks { p with current := some (group.add spec) } := by
  cases hm with
  | empty h => exact .cons (step_emptyRegister h hv hp) (.nil _)
  | paired h =>
    exact .cons (step_startRegister h hv hp) (.cons (step_closeRegister _) (.nil _))

theorem leads_registers {registers : List RegisterSpec}
    (h : List.Forall₂ RegisterMarks registers parts) (hv : ∀ spec ∈ registers, ValidRegister spec)
    (hp : p.current = some group) :
    Leads settings p parts.flatten
      { p with current := some (registers.foldl RegisterGroup.add group) } := by
  induction h generalizing p group with
  | nil =>
    rw [List.foldl_nil, ← hp]
    exact .nil p
  | cons hm h ih =>
    obtain ⟨hfirst, hrest⟩ := List.forall_mem_cons.mp hv
    exact (leads_register hm hfirst hp).append (ih hrest rfl)

theorem leads_group {finished : List RegisterGroup} (hm : GroupMarks settings.bus g marks)
    (hg : g.Valid) : Leads settings ⟨finished, none⟩ marks ⟨finished ++ [g.group], none⟩ := by
  cases hm with
  | empty h hr =>
    have hgroup : g.group = ⟨g.name, g.bus, []⟩ := by
      rw [GroupSpec.group, hr]
      rfl
    rw [hgroup]
    exact .cons (step_emptyGroup h hg) (.nil _)
  | paired h hr =>
    exact .cons (step_startGroup h hg)
      ((leads_registers hr hg.registers rfl).append (.cons (step_closeGroup _) (.nil _)))

theorem leads_groups {finished : List RegisterGroup}
    (h : List.Forall₂ (GroupMarks settings.bus) specs parts) (hv : ∀ g ∈ specs, g.Valid) :
    Leads settings ⟨finished, none⟩ parts.flatten
      ⟨finished ++ specs.map GroupSpec.group, none⟩ := by
  induction h generalizing finished with
  | nil =>
    rw [List.map_nil, List.append_nil]
    exact .nil _
  | @cons g part specs parts hm h ih =>
    obtain ⟨hfirst, hrest⟩ := List.forall_mem_cons.mp hv
    have hsnoc : finished ++ (g :: specs).map GroupSpec.group =
        finished ++ [g.group] ++ specs.map GroupSpec.group := by simp
    rw [hsnoc]
    exact (leads_group hm hfirst).append (ih hrest)

theorem load_of_describes {text : List Char} (h : Describes settings.bus specs text)
    (hv : ∀ g ∈ specs, g.Valid) : (load settings text).Yields (specs.map GroupSpec.group) := by
  obtain ⟨parts, hparts, hmarked⟩ := h
  have hbalanced : Balanced [] parts.flatten := by
    simpa using closed_flatten hparts (fun _ _ => closed_group) [] [] .nil
  obtain ⟨es, hes, htold⟩ := events_of_marked hmarked hbalanced
  have hevents : events text = ⟨es, none⟩ := hes
  have hgroups : Leads settings {} parts.flatten ⟨[] ++ specs.map GroupSpec.group, none⟩ :=
    leads_groups hparts hv
  have hrun := hgroups.run htold
  simp only [load, hevents]
  exact hrun.bind (by simpa [Progress.groups] using Loading.yields_pure _)

/-- There is a description of any groups, and loading one under any settings gives these groups just
as they are made without it, in their order and with nothing to report. -/
theorem load_written (settings : Settings) (specs : List GroupSpec) (hv : ∀ g ∈ specs, g.Valid) :
    Describes settings.bus specs (write specs) ∧
      ∀ text, Describes settings.bus specs text →
        (load settings text).result = .ok (specs.map GroupSpec.group) ∧
          messages (load settings text).notes = [] ∧
          ∀ n ∈ (load settings text).notes, n.logLine.level ≠ .warn := by
  refine ⟨describes_write settings.bus specs, fun text h => ?_⟩
  have hload := load_of_describes h hv
  exact ⟨hload.1, hload.messages, hload.2⟩

end

def sparseText : List Char :=
  ("\n<tv_registers name=\"a&lt;b\" base_addr=\"8&apos;h80\">" ++
    "\n<register name=\"ctl\" width=\"8\"/>\n</tv_registers>").toList

def sparseSpec : GroupSpec := ⟨"a<b", { baseAddress := 128 }, [{ name := "ctl", width := 8 }]⟩

def sparseGroupAttributes : List Attribute :=
  [⟨"name".toList, "a<b".toList⟩, ⟨"base_addr".toList, "8'h80".toList⟩]

def sparseAttributes : List Attribute :=
  [⟨"name".toList, "ctl".toList⟩, ⟨"width".toList, "8".toList⟩]

def sparseMarks : List Mark :=
  [.start groupTag sparseGroupAttributes, .empty registerTag sparseAttributes, .close groupTag]

theorem tellsGroup_sparse : TellsGroup {} sparseSpec sparseGroupAttributes where
  name := .inl ⟨_, List.mem_cons_self, rfl, rfl⟩
  addressWidth := .inr ⟨rfl, by decide⟩
  baseAddress := by
    have height : Denotes 16 ['8'] 8 := .one ⟨by decide, .inl rfl⟩
    have hzero : IsDigit 16 0 '0' := ⟨by decide, .inl rfl⟩
    have hdigits : Denotes 16 ['8', '0'] 128 := height.snoc hzero
    have hsized : Spelling 128 ("8'h80".toList) :=
      .sized .hexadecimal (List.cons_ne_nil '8' []) (by simp) hdigits
    exact gives_of_mem (by decide) hsized
  dataWidth := .inr ⟨rfl, by decide⟩
  mapping := .inr ⟨rfl, by decide⟩

theorem tellsRegister_sparse : TellsRegister { name := "ctl", width := 8 } sparseAttributes where
  name := .inl ⟨_, List.mem_cons_self, rfl, rfl⟩
  type := .inr ⟨rfl, by decide⟩
  width := gives_of_mem (by decide) (.plain (.one ⟨by decide, .inl rfl⟩))
  resetValue := .inr ⟨rfl, by decide⟩
  vector := .inr ⟨rfl, by decide⟩

theorem describes_sparse : Describes {} [sparseSpec] sparseText := by
  have hregisters : List.Forall₂ RegisterMarks sparseSpec.registers
      [[.empty registerTag sparseAttributes]] := .cons (.empty tellsRegister_sparse) .nil
  have htext : sparseText = writeMarks sparseMarks := by decide +kernel
  refine ⟨[sparseMarks], .cons (.paired tellsGroup_sparse hregisters) .nil, ?_⟩
  rw [htext]
  refine marked_writeMarks ?_
  have hgroup : ProperTag groupTag sparseGroupAttributes := ⟨by decide, by decide, by decide⟩
  have hregister : ProperTag registerTag sparseAttributes := ⟨by decide, by decide, by decide⟩
  have hclose : IsName groupTag := by decide
  simpa [sparseMarks, Mark.Proper] using ⟨hgroup, hregister, hclose⟩

theorem valid_sparse : sparseSpec.Valid where
  name := by decide
  baseAddress := by decide
  addressWidth := by decide
  dataWidth := by decide
  registers := by
    intro spec hspec
    obtain rfl := List.mem_singleton.mp hspec
    exact ⟨by decide, by decide, by decide, by decide⟩

theorem load_written_sparse :
    sparseSpec.Valid ∧ Describes {} [sparseSpec] sparseText ∧
      (load (Settings.strict {}) sparseText).result =
        .ok [⟨"a<b", { baseAddress := 128 }, [⟨"ctl", 8, 0, .config 0⟩]⟩] := by
  have hvalid : ∀ g ∈ [sparseSpec], g.Valid := by simpa using valid_sparse
  have hload :=
    (load_written (Settings.strict {}) [sparseSpec] hvalid).2 sparseText describes_sparse
  exact ⟨valid_sparse, describes_sparse, hload.1⟩

end RegMap.Description
