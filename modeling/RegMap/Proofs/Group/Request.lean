import RegMap.Proofs.Group.Mask
import RegMap.Proofs.Group.Storage

set_option autoImplicit false

namespace RegMap

open Verilog

theorem ldiff_ne_zero_iff {a b : Nat} :
    a.ldiff b ≠ 0 ↔ ∃ k, a.testBit k = true ∧ b.testBit k = false := by
  constructor
  · intro h
    obtain ⟨k, hk⟩ := Nat.exists_testBit_of_ne_zero h
    rw [Nat.testBit_ldiff, Bool.and_eq_true, Bool.not_eq_true'] at hk
    exact ⟨k, hk⟩
  · rintro ⟨k, ha, hb⟩ h
    have hk : (a.ldiff b).testBit k = true := by rw [Nat.testBit_ldiff, ha, hb]; rfl
    rw [h, Nat.zero_testBit] at hk
    cases hk

namespace RegisterSpec

/-- It asks for an interrupt, and a bit is pending there that its mask lets through. -/
def Raises (spec : RegisterSpec) (σ : State) : Prop :=
  spec.type = .intFixed ∧
    ∃ k, (σ spec.name).testBit k = true ∧ (σ (spec.name ++ "_msk")).testBit k = false

theorem raises_iff {spec : RegisterSpec} {σ : State} : spec.Raises σ ↔
    spec.type = .intFixed ∧ (σ spec.name).ldiff (σ (spec.name ++ "_msk")) ≠ 0 :=
  and_congr_right fun _ => ldiff_ne_zero_iff.symm

instance (spec : RegisterSpec) (σ : State) : Decidable (spec.Raises σ) :=
  decidable_of_iff _ raises_iff.symm

end RegisterSpec

/-- Bits beyond the width of the pending ones are not pending, so none is lost in their place. -/
theorem eval_masked {w : String → Nat} {σ : State} {pending mask : String}
    (h : σ pending < 2 ^ w pending) :
    (Expr.both (.net pending) (.invert (.net mask))).eval w σ (max (w pending) (w mask)) =
      (σ pending).ldiff (σ mask) := by
  refine Nat.eq_of_testBit_eq fun k => ?_
  rw [Expr.testBit_eval_both, Nat.testBit_ldiff]
  by_cases hk : k < max (w pending) (w mask)
  · rw [Expr.testBit_eval_net pending hk, Expr.testBit_eval_invert _ hk,
      Expr.testBit_eval_net mask hk]
  · have hle : w pending ≤ k := (Nat.le_max_left _ _).trans (Nat.not_lt.mp hk)
    have hnone : (σ pending).testBit k = false :=
      Nat.testBit_lt_two_pow (h.trans_le (Nat.pow_le_pow_right two_pos hle))
    have hplace : ((Expr.net pending).eval w σ (max (w pending) (w mask))).testBit k = false :=
      Nat.testBit_lt_two_pow ((Expr.eval_lt _ _).trans_le
        (Nat.pow_le_pow_right two_pos (Nat.not_lt.mp hk)))
    rw [hplace, hnone, Bool.false_and, Bool.false_and]

namespace RegisterGroup

variable {name : String} {bus : Bus} {specs : List RegisterSpec} {spec : RegisterSpec}
  {g : RegisterGroup} {r m : Register} {σ ρ : State}

theorem filterMap_vector (spec : RegisterSpec) (position : Nat) :
    (spec.registers position).filterMap (fun r => r.vector?.map fun vector => (r.flag, vector)) =
      if spec.type = .intFixed then [(spec.name ++ "_int", spec.vector)] else [] := by
  cases h : spec.type <;> simp [RegisterSpec.registers, h, Register.vector?, Register.flag]

theorem vectors_ofSpecs (name : String) (bus : Bus) (specs : List RegisterSpec) :
    (ofSpecs name bus specs).registers.filterMap
        (fun r => r.vector?.map fun vector => (r.flag, vector)) =
      (specs.filter (·.type = .intFixed)).map fun spec => (spec.name ++ "_int", spec.vector) := by
  induction specs using List.reverseRecOn with
  | nil => rfl
  | append_singleton specs spec ih =>
    rw [ofSpecs_append, List.foldl_cons, List.foldl_nil, add, List.filterMap_append, ih,
      filterMap_vector, List.filter_append, List.map_append]
    congr 1
    by_cases h : spec.type = .intFixed <;> simp [h]

theorem arms_ofSpecs (name : String) (bus : Bus) (specs : List RegisterSpec) :
    (ofSpecs name bus specs).registers.filterMap (fun r =>
        r.vector?.map fun vector => (Expr.net r.flag, Assignment.mk "int_vec" (.number vector))) =
      (specs.filter (·.type = .intFixed)).map fun spec =>
        (.net (spec.name ++ "_int"), ⟨"int_vec", .number spec.vector⟩) := by
  have harms := congrArg
    (List.map fun arm => (Expr.net arm.1, Assignment.mk "int_vec" (.number arm.2)))
    (vectors_ofSpecs name bus specs)
  simpa [List.map_filterMap, Option.map_map, Function.comp_def] using harms

theorem operands_ofSpecs (name : String) (bus : Bus) (specs : List RegisterSpec) :
    ((ofSpecs name bus specs).registers.filter Register.isInterrupt).map
        (fun r => Expr.net r.flag) =
      (specs.filter (·.type = .intFixed)).map fun spec => .net (spec.name ++ "_int") := by
  have hoperands := congrArg (List.map fun arm => Expr.net arm.1) (vectors_ofSpecs name bus specs)
  rw [List.map_map, List.map_filterMap] at hoperands
  refine Eq.trans ?_ hoperands
  rw [← List.filterMap_eq_map, ← List.filterMap_eq_filter, List.filterMap_filterMap]
  refine List.filterMap_congr fun r _ => ?_
  cases hv : r.vector? <;> simp [Register.isInterrupt, hv]

/-- An interrupt that was asked for is in the group, and the register behind it is its mask. -/
theorem exists_interrupt (name : String) (bus : Bus) (hspec : spec ∈ specs)
    (ht : spec.type = .intFixed) :
    ∃ r ∈ (ofSpecs name bus specs).registers, ∃ m ∈ (ofSpecs name bus specs).registers,
      ∃ mask, (ofSpecs name bus specs).registers[mask]? = some m ∧ r.name = spec.name ∧
        r.kind = .interrupt mask spec.vector ∧ m.name = spec.name ++ "_msk" ∧
        m.kind = .config spec.resetValue := by
  obtain ⟨before, after, rfl⟩ := List.append_of_mem hspec
  let position := (ofSpecs name bus before).size
  have hnamed : (ofSpecs name bus (before ++ spec :: after)).registers[position]? =
      some ⟨spec.name, spec.width, position, spec.kind position⟩ := by
    rw [ofSpecs_append]
    exact getElem?_foldl_add after (getElem?_add _ spec)
  have hmask : (ofSpecs name bus (before ++ spec :: after)).registers[position + 1]? =
      some (spec.mask (position + 1)) := by
    rw [ofSpecs_append]
    exact getElem?_foldl_add after (getElem?_add_mask ht)
  exact ⟨_, List.mem_of_getElem? hnamed, _, List.mem_of_getElem? hmask, _, hmask, rfl,
    kind_intFixed ht position, rfl, rfl⟩

theorem follows_flag (hf : g.toModule.Follows σ ρ) (hr : r ∈ g.registers)
    (hi : r.isInterrupt = true) (hm : g.maskOf r = some m) :
    ρ r.flag = (decide ((ρ r.name).ldiff (ρ m.name) ≠ 0)).toNat := by
  have hgate : (⟨.change, [r.flagUpdate (g.maskOf r)]⟩ : Block) ∈ g.toModule.gates :=
    List.mem_filter.mpr ⟨mem_blocks.mpr (.inr (.inr (.inr ⟨r, hr,
      (mem_behaviour_change rfl).mpr ⟨hi, rfl⟩⟩))), rfl⟩
  have hholds : (r.flagUpdate (g.maskOf r)).Holds g.toModule.width ρ := hf.settled _ hgate
  rw [hm] at hholds
  have hshows := Expr.shows_anyBit (w := g.toModule.width) (σ := ρ)
    (.parens (.both (.net r.name) (.invert (.net m.name))))
  have hplace : (Expr.both (.net r.name) (.invert (.net m.name))).eval g.toModule.width ρ
      (max (g.toModule.width r.name) (g.toModule.width m.name)) = (ρ r.name).ldiff (ρ m.name) :=
    eval_masked (hf.fits r.name)
  rw [hholds.assign, Assignment.eval_of_shows hshows (g.toModule.one_le_width r.flag)]
  exact congrArg (fun bits => (decide (bits ≠ 0)).toNat) hplace

section

variable (h : Separate g.toModule.ports g.toModule.signals)

include h

theorem follows_name (hf : g.toModule.Follows σ ρ) (hr : r ∈ g.registers)
    (hw : r.writable = true) : ρ r.name = σ r.name :=
  hf.kept _ (not_driven h hr (Register.name_mem hw) (Register.name_ne_suffix _ (by decide))
    (Register.name_ne_suffix _ (by decide)) (Register.name_ne_suffix _ (by decide)))

theorem follows_request (hf : g.toModule.Follows σ ρ) (hi : g.hasInterrupts = true) :
    ∀ s ∈ g.interruptRequest.statements, s.Holds g.toModule.width ρ := by
  have hgate : g.interruptRequest ∈ g.toModule.gates :=
    List.mem_filter.mpr ⟨mem_blocks.mpr (.inr (.inr (.inl ⟨hi, rfl⟩))), rfl⟩
  have ho := ordered_requestStatements h
  rw [requestStatements, if_pos hi] at ho
  exact fun s hs => ho.holds_of_settle (hf.settled _ hgate) hs

theorem width_of_interruptSignal {x : Signal} (hx : x ∈ g.interruptSignals) :
    g.toModule.width x.name = max 1 x.width := by
  refine Module.width_signal h (fun p hp hd => signal_of_output hp hd) ?_
  exact List.mem_append_right _ hx

end

section

variable
  (h : Separate (ofSpecs name bus specs).toModule.ports (ofSpecs name bus specs).toModule.signals)
  (hf : (ofSpecs name bus specs).toModule.Follows σ ρ)

include h hf

theorem flag_of_spec (hspec : spec ∈ specs) (ht : spec.type = .intFixed) :
    ρ (spec.name ++ "_int") = (decide (spec.Raises σ)).toNat := by
  obtain ⟨r, hr, m, hm, mask, hmask, hname, hkind, hmname, hmkind⟩ :=
    exists_interrupt name bus hspec ht
  have hi : r.isInterrupt = true := by rw [Register.isInterrupt, Register.vector?, hkind]; rfl
  have hmaskOf : (ofSpecs name bus specs).maskOf r = some m := by
    rw [maskOf, hkind]
    exact hmask
  have hpending := follows_name h hf hr (by rw [Register.writable, hkind])
  have hmasked := follows_name h hf hm (by rw [Register.writable, hmkind])
  have hflag := follows_flag hf hr hi hmaskOf
  rw [Register.flag, hpending, hmasked, hname, hmname] at hflag
  refine hflag.trans (congrArg Bool.toNat (decide_eq_decide.mpr ?_))
  rw [RegisterSpec.raises_iff, and_iff_right ht]

theorem shows_flag (hspec : spec ∈ specs.filter (·.type = .intFixed)) :
    (Expr.net (spec.name ++ "_int")).Shows (ofSpecs name bus specs).toModule.width ρ
      (decide (spec.Raises σ)) := by
  obtain ⟨hmem, ht⟩ := List.mem_filter.mp hspec
  exact Expr.shows_net (flag_of_spec h hf hmem (of_decide_eq_true ht))

theorem int_n_eq (hi : (ofSpecs name bus specs).hasInterrupts = true) :
    ρ "int_n" = (!decide (∃ spec ∈ specs, spec.Raises σ)).toNat := by
  have hholds := follows_request h hf hi _ (List.mem_cons_of_mem _ (List.mem_singleton_self _))
  have hwidth : (ofSpecs name bus specs).toModule.width "int_n" = 1 :=
    width_of_interruptSignal h (x := ⟨"int_n", 1⟩) (by simp [interruptSignals, hi])
  rw [hholds.assign, operands_ofSpecs]
  have hany := Expr.shows_anyOf (fun spec hspec => shows_flag h hf hspec)
  rw [Assignment.eval_invert_of_shows hany.parens hwidth]
  refine congrArg (fun b => (!b).toNat) (Bool.eq_iff_iff.mpr ?_)
  simp only [List.any_eq_true, List.mem_filter, decide_eq_true_eq, and_assoc]
  refine exists_congr fun spec => and_congr_right fun _ => ?_
  exact and_iff_right_of_imp And.left

theorem find?_arms :
    ((specs.filter (·.type = .intFixed)).map fun spec =>
        (Expr.net (spec.name ++ "_int"), Assignment.mk "int_vec" (.number spec.vector))).find?
      (fun arm => arm.1.isOne (ofSpecs name bus specs).toModule.width ρ) =
      (specs.find? (·.Raises σ)).map fun spec =>
        (.net (spec.name ++ "_int"), ⟨"int_vec", .number spec.vector⟩) := by
  rw [List.find?_map, List.find?_filter]
  refine congrArg _ (List.find?_congr fun spec hspec => ?_)
  by_cases ht : spec.type = .intFixed
  · have hshows := shows_flag h hf (List.mem_filter.mpr ⟨hspec, decide_eq_true ht⟩)
    simpa [ht] using hshows.isOne
  · simp [ht, RegisterSpec.Raises]

theorem int_vec_eq (hi : (ofSpecs name bus specs).hasInterrupts = true)
    (hfirst : specs.find? (·.Raises σ) = some spec) :
    ρ "int_vec" = spec.vector % 2 ^ max 1 bus.dataWidth := by
  have hholds := follows_request h hf hi _ List.mem_cons_self
  rw [arms_ofSpecs] at hholds
  have hbus : (ofSpecs name bus specs).bus = bus :=
    (draft_extends_foldl_add ⟨name, bus, []⟩ specs).bus
  have hwidth := width_of_interruptSignal h
    (x := ⟨"int_vec", (ofSpecs name bus specs).bus.dataWidth⟩) (by simp [interruptSignals, hi])
  rw [hbus] at hwidth
  have hvector := hholds.eval (a := ⟨"int_vec", .number spec.vector⟩) (by
    rw [Statement.chosen?, find?_arms h hf, hfirst]
    rfl)
  rw [hvector, Assignment.eval_number, hwidth]

end

/-- While the storage and the inputs hold still, the gates come to rest, and then there is a request
just if an interrupt has a bit pending that its own mask lets through. The vector is that of the
first such interrupt, in the order in which they were added. -/
theorem request_ofSpecs (name : String) (bus : Bus) (specs : List RegisterSpec)
    (h : Separate (ofSpecs name bus specs).toModule.ports (ofSpecs name bus specs).toModule.signals)
    (hd : 1 ≤ bus.dataWidth) (hi : (ofSpecs name bus specs).hasInterrupts = true)
    (hσ : (ofSpecs name bus specs).toModule.Fits σ) :
    (∃ ρ, (ofSpecs name bus specs).toModule.Follows σ ρ) ∧
      ∀ ρ, (ofSpecs name bus specs).toModule.Follows σ ρ →
        (ρ "int_n" = 0 ↔ ∃ spec ∈ specs, spec.Raises σ) ∧
        ∀ spec, specs.find? (·.Raises σ) = some spec →
          ρ "int_vec" = spec.vector % 2 ^ bus.dataWidth := by
  refine ⟨exists_follows h hσ, fun ρ hf => ⟨?_, fun spec hfirst => ?_⟩⟩
  · rw [int_n_eq h hf hi, Bool.toNat_eq_zero, Bool.not_eq_false', decide_eq_true_eq]
  · rw [int_vec_eq h hf hi hfirst, Nat.max_eq_right hd]

def alarms : List RegisterSpec :=
  [{ type := .intFixed, name := "high", width := 2, vector := 0x10 },
   { type := .status, name := "level", width := 8 },
   { type := .intFixed, name := "low", vector := 0x138 },
   { type := .intFixed, name := "lost", vector := 0x40 }]

def alarmed : State :=
  (((State.set (fun _ => 0) "high" 2).set "high_msk" 2).set "low" 1).set "lost" 1

theorem request_ofSpecs_alarms : ∃ ρ, (ofSpecs "tank" {} alarms).toModule.Follows alarmed ρ ∧
    ρ "int_n" = 0 ∧ ρ "int_vec" = 0x38 := by
  have hfits : (ofSpecs "tank" {} alarms).toModule.Fits alarmed :=
    ((((Module.fits_zero _).set (by decide)).set (by decide)).set (by decide)).set (by decide)
  obtain ⟨⟨ρ, hρ⟩, hrequest⟩ := request_ofSpecs "tank" {} alarms (by decide +kernel) (by decide)
    (by decide) hfits
  obtain ⟨hn, hvec⟩ := hrequest ρ hρ
  refine ⟨ρ, hρ, hn.mpr (by decide +kernel), ?_⟩
  exact hvec { type := .intFixed, name := "low", vector := 0x138 } (by decide +kernel)

end RegisterGroup

end RegMap
