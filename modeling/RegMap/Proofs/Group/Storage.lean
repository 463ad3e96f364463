import RegMap.Proofs.Group.Settling

/-!
The storage of a module. A statement behind a reset assigns one net, and each net that keeps a value
or a strobe is assigned by one statement only, so a clock edge gives it what that statement says.
-/

set_option autoImplicit false

namespace RegMap

open Verilog

namespace Register

variable {r : Register} {w : String → Nat} {σ τ : State} {s t : Statement} {n target : String}
  {value : Nat} {more : List (Expr × Expr)} {otherwise : Option Expr}

def updates (r : Register) : List Statement :=
  match r.kind with
  | .status => []
  | .readStrobe => [r.pulse r.readSelect]
  | .config resetValue => [r.load resetValue]
  | .writeStrobe resetValue => [r.load resetValue, r.pulse r.writeSelect]
  | .softSet resetValue => [r.softSetUpdate resetValue]
  | .interrupt _ _ => [r.pendingUpdate]

theorem mem_updates (registers : List Register) :
    s ∈ r.updates ↔ ∃ b ∈ r.behaviour registers, b.trigger ≠ .change ∧ s ∈ b.statements := by
  cases hk : r.kind <;> simp [updates, behaviour, clocked, hk]

theorem mem_targets_afterReset :
    n ∈ (afterReset target value more otherwise).targets ↔ n = target := by
  cases otherwise with
  | none => simp [afterReset, Statement.targets, Function.comp_def]
  | some e =>
    simp only [afterReset, Statement.targets, List.map_cons, List.map_map, Function.comp_def,
      List.map_const', Option.map_some, Option.toList_some, List.map_nil, List.mem_append,
      List.mem_cons, List.mem_replicate, List.not_mem_nil, or_false]
    tauto

theorem mem_targets_load : n ∈ (r.load value).targets ↔ n = r.name := mem_targets_afterReset

theorem mem_targets_pulse {select : String} : n ∈ (r.pulse select).targets ↔ n = r.strobe :=
  mem_targets_afterReset

theorem targets_updates (hs : s ∈ r.updates) (hn : n ∈ s.targets) :
    n = r.name ∧ r.writable = true ∨ n = r.strobe ∧ r.strobed = true := by
  cases hk : r.kind <;> simp only [updates, hk, List.mem_cons, List.not_mem_nil, or_false] at hs
  case readStrobe =>
    obtain rfl := hs
    exact .inr ⟨mem_targets_pulse.mp hn, by simp [strobed, hk]⟩
  case writeStrobe resetValue =>
    rcases hs with rfl | rfl
    · exact .inl ⟨mem_targets_load.mp hn, by simp [writable, hk]⟩
    · exact .inr ⟨mem_targets_pulse.mp hn, by simp [strobed, hk]⟩
  all_goals
    obtain rfl := hs
    exact .inl ⟨mem_targets_afterReset.mp hn, by simp [writable, hk]⟩

theorem signal_of_update (hs : s ∈ r.updates) (hn : n ∈ s.targets) :
    n ∈ signalNames r.signals := by
  rcases targets_updates hs hn with ⟨rfl, hw⟩ | ⟨rfl, hst⟩
  · exact name_mem hw
  · exact strobe_mem hst

theorem updates_unique (hs : s ∈ r.updates) (ht : t ∈ r.updates) (hsn : n ∈ s.targets)
    (htn : n ∈ t.targets) : s = t := by
  have hne : r.name ≠ r.strobe := name_ne_suffix r.name (by decide)
  cases hk : r.kind <;> simp only [updates, hk, List.mem_cons, List.not_mem_nil, or_false] at hs ht
  case writeStrobe resetValue =>
    rcases hs with rfl | rfl <;> rcases ht with rfl | rfl
    · rfl
    · exact absurd ((mem_targets_load.mp hsn).symm.trans (mem_targets_pulse.mp htn)) hne
    · exact absurd ((mem_targets_load.mp htn).symm.trans (mem_targets_pulse.mp hsn)) hne
    · rfl
  all_goals exact hs.trans ht.symm

/-- Reset comes first; without it the first arm counts whose condition holds. -/
theorem write_afterReset (hfit : σ "reset" < 2 ^ w "reset") :
    (afterReset target value more otherwise).write w σ τ target =
      if σ "reset" ≠ 0 then value % 2 ^ w target
      else match ((more.find? fun arm => arm.1.isTrue w σ).map (·.2)).or otherwise with
        | some e => (Assignment.mk target e).eval w σ
        | none => τ target := by
  have hreset : (Expr.net "reset").isTrue w σ = decide (σ "reset" ≠ 0) := by
    simp only [Expr.isTrue, Expr.eval, Expr.size, Nat.mod_eq_of_lt hfit]
  by_cases h : σ "reset" = 0
  · have hfind : (more.map fun arm => (arm.1, Assignment.mk target arm.2)).find?
        (fun arm => arm.1.isTrue w σ) =
          (more.find? fun arm => arm.1.isTrue w σ).map fun arm => (arm.1, ⟨target, arm.2⟩) := by
      simp only [List.find?_map, Function.comp_def]
    simp only [Statement.write, Statement.chosen?, afterReset, List.find?_cons, hreset, h, hfind]
    cases more.find? (fun arm => arm.1.isTrue w σ) <;> cases otherwise <;> simp [State.set]
  · simp [Statement.write, Statement.chosen?, afterReset, hreset, h, State.set,
      Assignment.eval_number]

section

variable {b : Bool} (hw : ∀ n, 1 ≤ w n) (hσ : ∀ n, σ n < 2 ^ w n)

include hw hσ

theorem write_load (hsel : σ r.writeSelect = b.toNat) :
    (r.load value).write w σ τ r.name =
      if σ "reset" ≠ 0 then value % 2 ^ w r.name
      else if b then σ "wr_data" % 2 ^ w r.name
      else τ r.name := by
  have htrue := (Expr.shows_net (w := w) hsel).isTrue (hw r.writeSelect)
  rw [load, write_afterReset (hσ "reset")]
  cases b <;> simp [htrue, Assignment.eval_net]

theorem write_pulse {select : String} (hsel : σ select = b.toNat) :
    (r.pulse select).write w σ τ r.strobe = if σ "reset" ≠ 0 then 0 else b.toNat := by
  have htrue := (Expr.shows_net (w := w) hsel).isTrue (hw select)
  have hone := Expr.toNat_mod_two_pow true (hw r.strobe)
  rw [pulse, write_afterReset (hσ "reset"), Nat.zero_mod]
  cases b <;> simp_all [Assignment.eval_number]

theorem write_softSetUpdate (hsel : σ r.writeSelect = b.toNat) :
    (r.softSetUpdate value).write w σ τ r.name =
      if σ "reset" ≠ 0 then value % 2 ^ w r.name
      else (((if b then σ "wr_data" else σ r.name) ||| σ r.setPort).ldiff (σ r.clearPort)) %
        2 ^ w r.name := by
  have hshows := Expr.shows_net (w := w) hsel
  rw [softSetUpdate, write_afterReset (hσ "reset")]
  refine if_congr Iff.rfl rfl (Nat.eq_of_testBit_eq fun k => ?_)
  rw [List.find?_nil, Option.map_none, Option.none_or, Assignment.testBit_eval,
    Nat.testBit_mod_two_pow]
  by_cases hk : k < w r.name
  · have hplace := fun bits => Nat.lt_of_lt_of_le hk (Nat.le_max_left (w r.name) bits)
    have hnet := fun name bits => Expr.testBit_eval_net (w := w) (σ := σ) name (hplace bits)
    rw [Expr.testBit_eval_both, Expr.testBit_eval_invert _ (hplace _), Expr.eval_parens,
      Expr.testBit_eval_either, Expr.eval_parens, Expr.eval_choose hshows (hw r.writeSelect), hnet,
      hnet, Nat.testBit_ldiff, Nat.testBit_or]
    cases b <;> simp only [if_true, if_false, Bool.false_eq_true, hnet]
  · simp [hk]

omit hw in
/-- A bit written as 1 is cleared; the select is spread over the whole register for that. -/
theorem write_pendingUpdate (hsel : σ r.writeSelect = b.toNat) (hone : w r.writeSelect = 1)
    (hwidth : w r.name = r.width) :
    r.pendingUpdate.write w σ τ r.name =
      if σ "reset" ≠ 0 then 0
      else ((σ r.name ||| σ r.setPort).ldiff (if b then σ "wr_data" else 0)) % 2 ^ r.width := by
  have hshows := Expr.shows_net (w := w) hsel
  rw [pendingUpdate, write_afterReset (hσ "reset"), Nat.zero_mod]
  refine if_congr Iff.rfl rfl (Nat.eq_of_testBit_eq fun k => ?_)
  rw [List.find?_nil, Option.map_none, Option.none_or, Assignment.testBit_eval,
    Nat.testBit_mod_two_pow, hwidth]
  by_cases hk : k < r.width
  · have hplace := fun bits => Nat.lt_of_lt_of_le hk (Nat.le_max_left r.width bits)
    have hnet := fun name bits => Expr.testBit_eval_net (w := w) (σ := σ) name (hplace bits)
    rw [Expr.testBit_eval_both, Expr.testBit_eval_invert _ (hplace _), Expr.eval_parens,
      Expr.testBit_eval_either, Expr.eval_parens, Expr.testBit_eval_both,
      Expr.testBit_eval_repeated hshows hone _ (hplace _), hnet, hnet, hnet, Nat.testBit_ldiff,
      Nat.testBit_or]
    cases b <;> simp [hk]
  · simp [hk]

end

end Register

namespace RegisterGroup

variable {g : RegisterGroup} {r r' : Register} {σ ρ ι : State} {n : String} {s : Statement}

theorem mem_storageStatements :
    s ∈ g.toModule.storageStatements ↔ ∃ r ∈ g.registers, s ∈ r.updates := by
  simp only [Module.storageStatements, Module.storage, List.mem_flatMap, List.mem_filter,
    bne_iff_ne, mem_blocks, Register.mem_updates g.registers]
  constructor
  · rintro ⟨b, ⟨rfl | rfl | ⟨-, rfl⟩ | ⟨r, hr, hb⟩, ht⟩, hs⟩
    · exact absurd rfl ht
    · exact absurd rfl ht
    · exact absurd rfl ht
    · exact ⟨r, hr, b, hb, ht, hs⟩
  · rintro ⟨r, hr, b, hb, ht, hs⟩
    exact ⟨b, ⟨.inr (.inr (.inr ⟨r, hr, hb⟩)), ht⟩, hs⟩

section

variable (h : Separate g.toModule.ports g.toModule.signals)

include h

/-- What an edge gives to a net hangs on the one statement that assigns it. -/
theorem edge_eq_write (hr : r ∈ g.registers) (hs : s ∈ r.updates) (hn : n ∈ s.targets) :
    g.toModule.edge ρ n = s.write g.toModule.width ρ ρ n := by
  rw [edge_eq_commit]
  refine commit_of_unique (mem_storageStatements.mpr ⟨r, hr, hs⟩) fun t ht htn => ?_
  obtain ⟨r', hr', ht⟩ := mem_storageStatements.mp ht
  obtain rfl := owner_unique (separate_of_toModule h) hr hr' (Register.signal_of_update hs hn)
    (Register.signal_of_update ht htn)
  exact (Register.updates_unique hs ht hn htn).symm

theorem not_driven (hr : r ∈ g.registers) (hn : n ∈ signalNames r.signals)
    (hread : n ≠ r.readSelect) (hwrite : n ≠ r.writeSelect) (hflag : n ≠ r.flag) :
    ∀ s ∈ g.toModule.gateStatements, n ∉ s.targets := by
  have hs := separate_of_toModule h
  intro s hm ht
  rcases driven_cases hm ht with ⟨r', hr', hi, rfl⟩ | hint | hd | hd
  · obtain rfl := owner_unique hs hr hr' hn (Register.flag_mem hi)
    exact hflag rfl
  · exact interrupt_ne_signal h hint (mem_signalNames_register hr hn) rfl
  · rcases mem_targets_decoder.mp hd with rfl | ⟨r', hr', rfl | ⟨hw, rfl⟩⟩
    · exact not_mem_bus hs hr hn g.block_select_mem
    · obtain rfl := owner_unique hs hr hr' hn r'.readSelect_mem
      exact hread rfl
    · obtain rfl := owner_unique hs hr hr' hn (Register.writeSelect_mem hw)
      exact hwrite rfl
  · exact not_mem_bus hs hr hn (bus_of_mem_readMux hd)

theorem input_not_driven (hn : n ∈ inputNames g.ports) :
    ∀ s ∈ g.toModule.gateStatements, n ∉ s.targets := by
  intro s hm ht
  refine h.input n (by rwa [inputNames_toModule]) ?_
  rw [signalNames_toModule, List.mem_append]
  rcases driven_cases hm ht with ⟨r, hr, hi, rfl⟩ | hint | hd | hd
  · exact .inl (mem_signalNames_register hr (Register.flag_mem hi))
  · exact .inr hint
  · exact .inl (signal_of_mem_decoder hd)
  · exact .inl (mem_signalNames_bus (bus_of_mem_readMux hd))

theorem update_not_driven (hr : r ∈ g.registers) (hs : s ∈ r.updates) (hn : n ∈ s.targets) :
    ∀ t ∈ g.toModule.gateStatements, n ∉ t.targets := by
  have hselects : n ≠ r.readSelect ∧ n ≠ r.writeSelect ∧ n ≠ r.flag := by
    rcases Register.targets_updates hs hn with ⟨rfl, -⟩ | ⟨rfl, -⟩
    · exact ⟨Register.name_ne_suffix _ (by decide), Register.name_ne_suffix _ (by decide),
        Register.name_ne_suffix _ (by decide)⟩
    · exact ⟨Register.suffix_ne _ (by decide), Register.suffix_ne _ (by decide),
        Register.suffix_ne _ (by decide)⟩
  exact not_driven h hr (Register.signal_of_update hs hn) hselects.1 hselects.2.1 hselects.2.2

theorem follows_kept (hf : g.toModule.Follows (g.toModule.drive ι σ) ρ) (hr : r ∈ g.registers)
    (hs : s ∈ r.updates) (hn : n ∈ s.targets) : ρ n = σ n := by
  have hsignal := Register.signal_of_update hs hn
  have hinput : n ∉ inputNames g.toModule.ports := by
    intro hi
    rw [inputNames_toModule] at hi
    exact signal_ne_input (separate_of_toModule h) (mem_signalNames_register hr hsignal) hi rfl
  rw [hf.kept n (update_not_driven h hr hs hn)]
  exact Module.drive_of_not_mem hinput

theorem follows_input (hf : g.toModule.Follows (g.toModule.drive ι σ) ρ)
    (hn : n ∈ inputNames g.ports) : ρ n = ι n := by
  rw [hf.kept n (input_not_driven h hn)]
  exact Module.drive_input (by rwa [inputNames_toModule])

theorem width_of_signal {x : Signal} (hr : r ∈ g.registers) (hx : x ∈ r.signals) :
    g.toModule.width x.name = max 1 x.width := by
  refine Module.width_signal h (fun p hp hd => signal_of_output hp hd) ?_
  simp only [toModule, signals, List.mem_append, List.mem_flatMap]
  exact .inl (.inr ⟨r, hr, hx⟩)

end

end RegisterGroup

end RegMap
