import RegMap.Proofs.Group.Legible

/-!
The chains in the text of a group's module. A register has links that no register of another name
has, and these tell of which kind it is; the first link tells its value after reset. Where a strobe
has the name of another register, that register seems to be reset twice, but the strobe to 0.
-/

set_option autoImplicit false

namespace RegMap

open Verilog Text

def RegisterKind.default? : RegisterKind → Option Nat
  | .status | .readStrobe => none
  | .config resetValue | .writeStrobe resetValue | .softSet resetValue => some resetValue
  | .interrupt _ _ => some 0

/-- What a register of some kinds can do, and shows by a link that it does not have otherwise. -/
inductive Feature where
  | load
  | readPulse
  | writePulse
  | soft
  deriving DecidableEq, Repr

def RegisterKind.features : RegisterKind → List Feature
  | .status | .interrupt _ _ => []
  | .readStrobe => [.readPulse]
  | .config _ => [.load]
  | .writeStrobe _ => [.load, .writePulse]
  | .softSet _ => [.soft]

/-- Kinds other than interrupts differ in their features or in their value after reset. -/
theorem RegisterKind.eq_of_features {k k' : RegisterKind}
    (hk : ∀ mask vector, k ≠ .interrupt mask vector)
    (hk' : ∀ mask vector, k' ≠ .interrupt mask vector) (hf : ∀ f, f ∈ k.features ↔ f ∈ k'.features)
    (hd : ∀ d d', k.default? = some d → k'.default? = some d' → d = d') : k = k' := by
  have hload := hf .load
  have hread := hf .readPulse
  have hwrite := hf .writePulse
  have hsoft := hf .soft
  clear hf
  cases k <;> cases k' <;> simp_all [features, default?]

def softWire (name : String) : List Char :=
  (Expr.both
    (.parens (.either
      (.parens (.choose (.net (name ++ "_wr_sel")) (.net "wr_data") (.net name)))
      (.net (name ++ "_set"))))
    (.invert (.net (name ++ "_clr")))).wire

def pendingWire (name : String) (width : Nat) : List Char :=
  (Expr.both
    (.parens (.either (.net name) (.net (name ++ "_set"))))
    (.invert (.parens (.both (.repeated width (.net (name ++ "_wr_sel"))) (.net "wr_data"))))).wire

def resetTold (target : String) (value : Nat) : Link × String × List Char :=
  (.first (.net "reset"), target, decimal value)

def Feature.told (name : String) : Feature → Link × String × List Char
  | .load => (.later (.net (name ++ "_wr_sel")), name, "wr_data".toList)
  | .readPulse => (.later (.net (name ++ "_rd_sel")), name ++ "_stb", decimal 1)
  | .writePulse => (.later (.net (name ++ "_wr_sel")), name ++ "_stb", decimal 1)
  | .soft => (.last, name, softWire name)

namespace Feature

variable {f f' : Feature} {name name' target : String}

theorem told_inj : f.told name = f'.told name' ↔ name' = name ∧ f = f' := by
  have hselect (a b : String) : a ++ "_rd_sel" ≠ b ++ "_wr_sel" := fun he =>
    absurd (Register.suffix_inj a b (by decide) he).2 (by decide : "_rd_sel" ≠ "_wr_sel")
  have hone : decimal 1 = ['1'] := rfl
  constructor
  · cases f <;> cases f' <;> simp +contextual [told, hselect, (hselect _ _).symm, hone]
  · rintro ⟨rfl, rfl⟩
    rfl

theorem told_ne_resetTold (value : Nat) : f.told name ≠ resetTold target value := by
  cases f <;> rintro ⟨⟩

theorem told_ne_zero : f.told name ≠ (.last, target, decimal 0) := by
  intro he
  cases f with
  | soft => exact absurd (List.cons.inj (congrArg (·.2.2) he)).1 (by decide : '(' ≠ '0')
  | load | readPulse | writePulse => cases he

theorem told_ne_pending (h : IsIdentifier target) (width : Nat) :
    f.told name ≠ (.last, target, pendingWire target width) := by
  intro he
  cases f with
  | soft =>
    -- a pending bit follows one parenthesis, not two
    obtain ⟨c, cs, hname, hc, -⟩ := h.exists_cons
    have htext : softWire name = pendingWire target width := congrArg (·.2.2) he
    simp only [pendingWire, softWire, Expr.wire, hname, List.cons_append, List.cons.injEq,
      true_and] at htext
    obtain ⟨rfl, -⟩ := htext
    exact absurd hc (by decide)
  | load | readPulse | writePulse => cases he

end Feature

namespace Register

variable {r : Register} {name target : String} {value : Nat} {f : Feature}

def links (r : Register) : List (Link × Assignment) := r.updates.flatMap Statement.links

def told (r : Register) : List (Link × String × List Char) := r.links.map lineTold

theorem told_eq (r : Register) : r.told =
    match r.kind with
    | .status => []
    | .readStrobe =>
      [resetTold r.strobe 0, Feature.readPulse.told r.name, (.last, r.strobe, decimal 0)]
    | .config resetValue => [resetTold r.name resetValue, Feature.load.told r.name]
    | .writeStrobe resetValue =>
      [resetTold r.name resetValue, Feature.load.told r.name, resetTold r.strobe 0,
        Feature.writePulse.told r.name, (.last, r.strobe, decimal 0)]
    | .softSet resetValue => [resetTold r.name resetValue, Feature.soft.told r.name]
    | .interrupt _ _ => [resetTold r.name 0, (.last, r.name, pendingWire r.name r.width)] := by
  cases hk : r.kind <;> simp only [told, links, updates, hk] <;> rfl

theorem update_chain {s : Statement} (hs : s ∈ r.updates) :
    ∃ first more otherwise, s = .chain first more otherwise := by
  cases hk : r.kind <;> simp only [updates, hk, List.mem_cons, List.not_mem_nil, or_false] at hs
  case writeStrobe resetValue => rcases hs with rfl | rfl <;> exact ⟨_, _, _, rfl⟩
  all_goals
    obtain rfl := hs
    exact ⟨_, _, _, rfl⟩

theorem plain_links (h : IsIdentifier r.name) :
    ∀ x ∈ r.links, x.1.Plain ∧ IsIdentifier x.2.target := by
  have hreset : (Link.first (.net "reset")).Plain := ⟨_, rfl, by decide⟩
  have hread : (Link.later (.net r.readSelect)).Plain := ⟨_, rfl, h.append rfl⟩
  have hwrite : (Link.later (.net r.writeSelect)).Plain := ⟨_, rfl, h.append rfl⟩
  have hlast : Link.last.Plain := trivial
  have hstrobe : IsIdentifier r.strobe := h.append rfl
  cases hk : r.kind <;> simp [links, updates, hk, pulse, load, softSetUpdate, pendingUpdate,
    afterReset, Statement.links, h, hreset, hread, hwrite, hlast, hstrobe]

/-- The features of a register are those of its kind, under its own name. -/
theorem feature_told (h : IsIdentifier r.name) :
    f.told name ∈ r.told ↔ r.name = name ∧ f ∈ r.kind.features := by
  have hpending : f.told name ≠ (.last, r.name, pendingWire r.name r.width) :=
    f.told_ne_pending h r.width
  rw [told_eq]
  cases hk : r.kind <;> simp [RegisterKind.features, Feature.told_inj, Feature.told_ne_resetTold,
    Feature.told_ne_zero, hpending, and_or_left]

theorem resetTold_inj {value' : Nat} :
    resetTold name value = resetTold target value' ↔ name = target ∧ value = value' := by
  refine ⟨fun he => ?_, by rintro ⟨rfl, rfl⟩; rfl⟩
  exact ⟨congrArg (·.2.1) he, decimal_inj (congrArg (·.2.2) he)⟩

theorem reset_told (h : r.kind.default? = some value) : resetTold r.name value ∈ r.told := by
  rw [told_eq]
  cases hk : r.kind <;> simp_all [RegisterKind.default?]

theorem default_of_told (h : resetTold target value ∈ r.told) :
    target = r.name ∧ r.kind.default? = some value ∨ value = 0 := by
  have hfeature (f : Feature) : resetTold target value ≠ f.told r.name :=
    (f.told_ne_resetTold value).symm
  have hlast (t : String) (v : List Char) : resetTold target value ≠ (.last, t, v) := by rintro ⟨⟩
  rw [told_eq] at h
  -- only a strobe is reset under another name than that of the register
  cases hk : r.kind <;> simp [hk, hfeature, hlast, resetTold_inj, RegisterKind.default?] at h ⊢ <;>
    tauto

theorem behaviour_links (r : Register) (registers : List Register) :
    ((r.behaviour registers).flatMap fun b =>
      (b.statements.flatMap Statement.links).map (linkWire b.trigger.assignment)) =
        r.links.map (linkWire " <= ".toList) := by
  cases hk : r.kind <;> simp only [behaviour, links, updates, hk, clocked] <;>
    simp [Trigger.assignment, flagUpdate, Statement.links]

end Register

namespace RegisterGroup

variable {g g' : RegisterGroup} {r : Register} {b : Block} {a : Assignment}

def told (g : RegisterGroup) : List (Link × String × List Char) := g.registers.flatMap Register.told

theorem suffix_ne_keyword {name suffix : String} (h : IsIdentifier name)
    (hs : 4 ≤ suffix.toList.length) : name ++ suffix ≠ "if" ∧ name ++ suffix ≠ "else" := by
  obtain ⟨c, cs, hname, -⟩ := h.exists_cons
  have hlength : 5 ≤ (name ++ suffix).toList.length := by
    rw [String.toList_append, hname, List.length_append, List.length_cons]
    omega
  constructor <;>
  · intro he
    rw [he] at hlength
    exact absurd hlength (by decide)

/-- An assignment by itself is not mistaken for a link. -/
theorem assigned_ne_keyword (h : g.Readable) (hb : b ∈ g.toModule.blocks)
    (hs : .assign a ∈ b.statements) : a.target ≠ "if" ∧ a.target ≠ "else" := by
  have hmem : a.target ∈ b.targets :=
    List.mem_flatMap.mpr ⟨.assign a, hs, List.mem_singleton_self a.target⟩
  rcases mem_blocks.mp hb with rfl | rfl | ⟨hi, rfl⟩ | ⟨r, hr, hb⟩
  · rcases mem_targets_decoder.mp hmem with ht | ⟨r, hr, ht | ⟨-, ht⟩⟩
    · rw [ht]
      decide
    · exact ht ▸ suffix_ne_keyword (h.registers r hr) (by decide)
    · exact ht ▸ suffix_ne_keyword (h.registers r hr) (by decide)
  · rcases targets_readMux g _ hmem with ht | ht <;> (rw [ht]; decide)
  · have ht := targets_interruptRequest hi hmem
    simp only [signalNames, interruptSignals, hi, if_true, List.map_cons, List.map_nil,
      List.mem_cons, List.not_mem_nil, or_false] at ht
    rcases ht with ht | ht <;> (rw [ht]; decide)
  · rcases behaviour_cases hb with ⟨-, hupdates⟩ | ⟨-, rfl⟩
    · obtain ⟨first, more, otherwise, hchain⟩ := Register.update_chain (hupdates _ hs)
      cases hchain
    · obtain rfl := Statement.assign.inj (List.mem_singleton.mp hs)
      exact suffix_ne_keyword (h.registers r hr) (by decide)

theorem filter_links (h : g.Readable) : g.toModule.statementLines.filter isLinkLine =
    (g.registers.flatMap Register.links).map (linkWire " <= ".toList) := by
  have hfilter := filter_statementLines (p := isLinkLine) (m := g.toModule) fun b hb s hs => by
    obtain ⟨operator, hoperator⟩ : ∃ operator, b.trigger.assignment = ' ' :: operator := by
      cases b.trigger <;> exact ⟨_, rfl⟩
    rw [hoperator]
    refine filter_isLinkLine fun a ha => ?_
    subst ha
    refine ⟨h.legible.mentioned b hb a.target ?_, assigned_ne_keyword h hb hs⟩
    exact List.mem_append_right _ (List.mem_flatMap.mpr
      ⟨.assign a, hs, List.mem_append_right _ (List.mem_singleton_self _)⟩)
  have hdecoder : g.decoder.statements.flatMap Statement.links = [] := by
    refine List.flatMap_eq_nil_iff.mpr fun s hs => ?_
    obtain ⟨a, rfl⟩ := assign_of_mem_decoder hs
    rfl
  have hmux : g.readMux.statements.flatMap Statement.links = [] := rfl
  have hrequest : g.interruptRequest.statements.flatMap Statement.links = [] := rfl
  have hbehaviour : (g.registers.flatMap (·.behaviour g.registers)).flatMap (fun b =>
      (b.statements.flatMap Statement.links).map (linkWire b.trigger.assignment)) =
        (g.registers.flatMap Register.links).map (linkWire " <= ".toList) := by
    rw [List.flatMap_assoc, List.map_flatMap]
    exact List.flatMap_congr fun r _ => r.behaviour_links g.registers
  rw [hfilter, blocks_eq, List.flatMap_cons, List.flatMap_cons, List.flatMap_append, hbehaviour,
    hdecoder, hmux]
  split
  · rw [List.flatMap_singleton, hrequest]
    rfl
  · rfl

theorem told_of_lines (h : g.Readable) (h' : g'.Readable)
    (he : g.toModule.statementLines = g'.toModule.statementLines) : g.told = g'.told := by
  have hlines := congrArg (List.filter isLinkLine) he
  rw [filter_links h, filter_links h'] at hlines
  have hplain {g : RegisterGroup} (h : g.Readable) :
      ∀ x ∈ g.registers.flatMap Register.links, x.1.Plain ∧ IsIdentifier x.2.target := by
    intro x hx
    obtain ⟨r, hr, hx⟩ := List.mem_flatMap.mp hx
    exact Register.plain_links (h.registers r hr) x hx
  have htold : (g.registers.flatMap Register.links).map lineTold =
      (g'.registers.flatMap Register.links).map lineTold := by
    refine map_told (fun x hx y hy hline => ?_) hlines
    obtain ⟨hlink, ha⟩ := linkWire_told (hplain h x hx).1 (hplain h' y hy).1 (hplain h x hx).2
      (hplain h' y hy).2 hline
    rw [lineTold, lineTold, hlink, ha]
  rwa [List.map_flatMap, List.map_flatMap] at htold

end RegisterGroup

end RegMap
