import RegMap.Proofs.Group.Nets

/-!
The address decoder and the read multiplexer. Each select is high in just those bus cycles that
address its register, so at most one register is selected, and the data bus shows that one.
-/

set_option autoImplicit false

namespace RegMap

open Verilog

namespace RegisterGroup

variable {g : RegisterGroup} {r r' : Register} {σ ρ : State} {n : String}

/-- The bus cycle on the inputs is for the register at position `i`. -/
def Addressed (g : RegisterGroup) (σ : State) (i : Nat) : Prop :=
  σ g.bus.mapping.requestPin = 0 ∧
    σ "addr" >>> g.localWidth = g.bus.baseAddress >>> g.localWidth ∧
    σ "addr" % 2 ^ g.localWidth = i

/-- It is, and the strobe of its direction, `rd_n` or `wr_n`, is low. -/
def Accesses (g : RegisterGroup) (strobe : String) (σ : State) (i : Nat) : Prop :=
  g.Addressed σ i ∧ σ strobe = 0

instance (g : RegisterGroup) (σ : State) (i : Nat) : Decidable (g.Addressed σ i) :=
  inferInstanceAs (Decidable (_ ∧ _ ∧ _))

instance (g : RegisterGroup) (strobe : String) (σ : State) (i : Nat) :
    Decidable (g.Accesses strobe σ i) :=
  inferInstanceAs (Decidable (_ ∧ _))

theorem accesses_unique {strobe : String} {i j : Nat} (hi : g.Accesses strobe σ i)
    (hj : g.Accesses strobe σ j) : i = j :=
  hi.1.2.2.symm.trans hj.1.2.2

theorem accesses_congr {strobe : String} (hstrobe : strobe ∈ inputNames g.ports)
    (h : ∀ n ∈ inputNames g.ports, ρ n = σ n) (i : Nat) :
    g.Accesses strobe ρ i ↔ g.Accesses strobe σ i := by
  have hpin := h g.bus.mapping.requestPin (mem_inputNames_bus (by simp))
  have haddr := h "addr" (mem_inputNames_bus (by simp))
  unfold Accesses Addressed
  rw [hpin, haddr, h strobe hstrobe]

theorem block_select_mem (g : RegisterGroup) : "block_select" ∈ signalNames g.bus.signals := by
  simp [signalNames, Bus.signals]

theorem mem_registerSelects {s : Statement} :
    s ∈ g.registerSelects r ↔ s = g.selects r r.readSelect "rd_n" ∨
      r.writable = true ∧ s = g.selects r r.writeSelect "wr_n" := by
  unfold registerSelects
  split <;> simp_all

theorem selects_of_mem {s : Statement} (h : s ∈ g.registerSelects r) :
    ∃ select strobe, s = g.selects r select strobe ∧ select ∈ signalNames r.signals ∧
      strobe ∈ inputNames g.ports := by
  rcases mem_registerSelects.mp h with rfl | ⟨hw, rfl⟩
  · exact ⟨_, _, rfl, r.readSelect_mem, mem_inputNames_bus (by simp)⟩
  · exact ⟨_, _, rfl, Register.writeSelect_mem hw, mem_inputNames_bus (by simp)⟩

theorem targets_decoder (g : RegisterGroup) :
    g.decoder.targets = "block_select" :: g.registers.flatMap fun r =>
      r.readSelect :: if r.writable then [r.writeSelect] else [] := by
  have hb : g.blockSelect.targets = ["block_select"] := rfl
  simp only [Block.targets, decoder, List.flatMap_cons, List.flatMap_assoc, hb,
    List.singleton_append]
  congr 2
  funext r
  unfold registerSelects
  split <;> rfl

theorem targets_readMux (g : RegisterGroup) :
    ∀ n ∈ g.readMux.targets, n = "rd_data" ∨ n = "doe" := by
  simp only [Block.targets, readMux, List.flatMap_cons, List.flatMap_nil, List.append_nil,
    Statement.targets, List.map_map, List.mem_append, List.mem_map, Function.comp_apply,
    List.mem_singleton]
  rintro n ((⟨r, -, rfl⟩ | rfl) | rfl) <;> simp

theorem mem_targets_decoder :
    n ∈ g.decoder.targets ↔ n = "block_select" ∨
      ∃ r ∈ g.registers, n = r.readSelect ∨ r.writable = true ∧ n = r.writeSelect := by
  rw [targets_decoder, List.mem_cons, List.mem_flatMap]
  refine or_congr_right (exists_congr fun r => and_congr_right fun _ => ?_)
  split <;> simp_all

theorem not_mem_targets {b : Block} (h : n ∉ b.targets) : ∀ s ∈ b.statements, n ∉ s.targets :=
  fun s hs hn => h (List.mem_flatMap.mpr ⟨s, hs, hn⟩)

theorem signal_of_mem_decoder (h : n ∈ g.decoder.targets) : n ∈ signalNames g.signals := by
  rcases mem_targets_decoder.mp h with rfl | ⟨r, hr, rfl | ⟨hw, rfl⟩⟩
  · exact mem_signalNames_bus g.block_select_mem
  · exact mem_signalNames_register hr r.readSelect_mem
  · exact mem_signalNames_register hr (Register.writeSelect_mem hw)

theorem bus_of_mem_readMux (h : n ∈ g.readMux.targets) : n ∈ signalNames g.bus.signals := by
  rcases targets_readMux g n h with rfl | rfl <;> simp [signalNames, Bus.signals]

theorem int_vec_not_mem_decoder (g : RegisterGroup) : "int_vec" ∉ g.decoder.targets := by
  intro h
  rcases mem_targets_decoder.mp h with h | ⟨r, -, h | ⟨-, h⟩⟩
  · exact absurd h (by decide)
  · have hsuffix := Register.suffix_inj "" r.name (by decide) (String.empty_append.trans h)
    exact absurd hsuffix.2 (by decide)
  · have hsuffix := Register.suffix_inj "" r.name (by decide) (String.empty_append.trans h)
    exact absurd hsuffix.2 (by decide)

theorem writeSelect_driven_iff (hs : Separate g.ports g.signals) (hr : r ∈ g.registers) :
    r.writeSelect ∈ g.decoder.targets ↔ r.writable = true := by
  refine ⟨fun h => ?_, fun hw => mem_targets_decoder.mpr (.inr ⟨r, hr, .inr ⟨hw, rfl⟩⟩)⟩
  rcases mem_targets_decoder.mp h with h | ⟨r', hr', h | ⟨hw, h⟩⟩
  · have hsuffix : "_wr_sel" = "_select" := (Register.suffix_inj r.name "block" (by decide) h).2
    exact absurd hsuffix (by decide)
  · exact absurd (Register.suffix_inj r.name r'.name (by decide) h).2 (by decide)
  · have hname : r.name = r'.name := (Register.suffix_inj r.name r'.name rfl h).1
    have hselect : r.readSelect ∈ signalNames r'.signals := by
      have := r'.readSelect_mem
      rwa [Register.readSelect, ← hname] at this
    rw [owner_unique hs hr hr' r.readSelect_mem hselect]
    exact hw

section

variable (hs : Separate g.ports g.signals)

include hs

theorem not_mem_bus (hr : r ∈ g.registers) (hn : n ∈ signalNames r.signals) :
    n ∉ signalNames g.bus.signals :=
  fun h => bus_ne_register hs h hr hn rfl

theorem not_read_by_decoder (hr : r ∈ g.registers) (hn : n ∈ signalNames r.signals) :
    ∀ s ∈ g.decoder.statements, n ∉ s.nets := by
  have hinput : ∀ m ∈ inputNames g.ports, n ≠ m := fun m hm =>
    signal_ne_input hs (mem_signalNames_register hr hn) hm
  have haddr : n ≠ "addr" := hinput _ (mem_inputNames_bus (by simp))
  have hpin : n ≠ g.bus.mapping.requestPin := hinput _ (mem_inputNames_bus (by simp))
  have hblock : n ≠ "block_select" := fun he =>
    bus_ne_register hs g.block_select_mem hr hn he.symm
  intro s hm
  rcases List.mem_cons.mp hm with rfl | hm
  · change n ∉ ["addr", g.bus.mapping.requestPin]
    simp [haddr, hpin]
  · obtain ⟨r', -, hm⟩ := List.mem_flatMap.mp hm
    obtain ⟨select, strobe, rfl, -, hstrobe⟩ := selects_of_mem hm
    change n ∉ ["block_select", "addr", strobe]
    simp [hblock, haddr, hinput _ hstrobe]

theorem ordered_decoder : Ordered g.decoder.statements := by
  constructor
  · intro s hm n hn
    rcases List.mem_cons.mp hm with rfl | hsel
    · obtain rfl : n = "block_select" := List.mem_singleton.mp hn
      have hpin := mem_inputNames_bus (g := g) (n := g.bus.mapping.requestPin) (by simp)
      have hne := signal_ne_input hs (mem_signalNames_bus g.block_select_mem) hpin
      change "block_select" ∉ ["addr", g.bus.mapping.requestPin]
      simpa using hne
    · obtain ⟨r, hr, hsel⟩ := List.mem_flatMap.mp hsel
      obtain ⟨select, strobe, rfl, hselect, -⟩ := selects_of_mem hsel
      obtain rfl : n = select := List.mem_singleton.mp hn
      exact not_read_by_decoder hs hr hselect _ hm
  · refine List.pairwise_cons.mpr ⟨fun t ht n hn => ?_, List.pairwise_flatMap.mpr ⟨?_, ?_⟩⟩
    · obtain ⟨r, hr, ht⟩ := List.mem_flatMap.mp ht
      obtain ⟨select, strobe, rfl, hselect, -⟩ := selects_of_mem ht
      obtain rfl : n = select := List.mem_singleton.mp hn
      refine ⟨not_read_by_decoder hs hr hselect _ List.mem_cons_self, fun hb => ?_⟩
      obtain rfl : n = "block_select" := List.mem_singleton.mp hb
      exact not_mem_bus hs hr hselect g.block_select_mem
    · intro r hr
      have hread : g.selects r r.readSelect "rd_n" ∈ g.decoder.statements :=
        List.mem_cons_of_mem _ (List.mem_flatMap.mpr ⟨r, hr, List.mem_cons_self⟩)
      unfold registerSelects
      split
      · next hw =>
        refine List.pairwise_pair.mpr fun n hn => ?_
        obtain rfl : n = r.writeSelect := List.mem_singleton.mp hn
        refine ⟨not_read_by_decoder hs hr (Register.writeSelect_mem hw) _ hread, fun he => ?_⟩
        exact Register.suffix_ne r.name (by decide) (List.mem_singleton.mp he)
      · exact List.pairwise_singleton _ _
    · refine List.Pairwise.imp_of_mem ?_ (registers_pairwise hs)
      intro r r' hr hr' hne s hmem t ht n hn
      have hdec : s ∈ g.decoder.statements :=
        List.mem_cons_of_mem _ (List.mem_flatMap.mpr ⟨r, hr, hmem⟩)
      obtain ⟨select, strobe, rfl, hselect, -⟩ := selects_of_mem hmem
      obtain ⟨select', strobe', rfl, hselect', -⟩ := selects_of_mem ht
      obtain rfl : n = select' := List.mem_singleton.mp hn
      refine ⟨not_read_by_decoder hs hr' hselect' _ hdec, fun he => ?_⟩
      exact hne select hselect n hselect' (List.mem_singleton.mp he).symm

theorem not_read_by_readMux (hn : n ∈ signalNames g.bus.signals) :
    ∀ s ∈ g.readMux.statements, n ∉ s.nets := by
  have hselect : ∀ r ∈ g.registers, n ≠ r.readSelect := fun r hr =>
    bus_ne_register hs hn hr r.readSelect_mem
  have hname : ∀ r ∈ g.registers, n ≠ r.name := fun r hr => bus_ne_name hs hn hr
  have hvec : n ≠ "int_vec" := by
    rintro rfl
    simp [signalNames, Bus.signals] at hn
  intro s hm
  rcases List.mem_cons.mp hm with rfl | hm
  · simp only [Statement.nets, List.flatMap_map, List.mem_append, List.mem_flatMap, Expr.nets,
      List.mem_singleton, not_or, not_exists, not_and]
    refine ⟨fun r hr => ⟨hselect r hr, hname r hr⟩, ?_⟩
    split <;> simp [Expr.nets, hvec]
  · obtain rfl := List.mem_singleton.mp hm
    simp only [Statement.nets, Expr.mem_nets_anyOf, List.mem_map]
    rintro ⟨e, ⟨r, hr, rfl⟩, he⟩
    exact hselect r hr (List.mem_singleton.mp he)

theorem ordered_readMux : Ordered g.readMux.statements := by
  have hbus : ∀ s ∈ g.readMux.statements, ∀ n ∈ s.targets, n ∈ signalNames g.bus.signals :=
    fun s hm n hn => bus_of_mem_readMux (List.mem_flatMap.mpr ⟨s, hm, hn⟩)
  refine ⟨fun s hm n hn => not_read_by_readMux hs (hbus s hm n hn) s hm, ?_⟩
  refine List.pairwise_pair.mpr fun n hn => ?_
  obtain rfl : n = "doe" := List.mem_singleton.mp hn
  refine ⟨not_read_by_readMux hs (by simp [signalNames, Bus.signals]) _ List.mem_cons_self, ?_⟩
  simp [Statement.targets]

theorem ordered_decoder_readMux : Ordered (g.decoder.statements ++ g.readMux.statements) := by
  refine (ordered_decoder hs).append (ordered_readMux hs) fun s hm t ht n hn => ?_
  have hbus := bus_of_mem_readMux (List.mem_flatMap.mpr ⟨t, ht, hn⟩)
  have hinput : ∀ m ∈ inputNames g.ports, n ≠ m := fun m hm =>
    signal_ne_input hs (mem_signalNames_bus hbus) hm
  have haddr : n ≠ "addr" := hinput _ (mem_inputNames_bus (by simp))
  have hpin : n ≠ g.bus.mapping.requestPin := hinput _ (mem_inputNames_bus (by simp))
  have hblock : n ≠ "block_select" := by
    rcases targets_readMux g n (List.mem_flatMap.mpr ⟨t, ht, hn⟩) with rfl | rfl <;> decide
  rcases List.mem_cons.mp hm with rfl | hm
  · change n ∉ ["addr", g.bus.mapping.requestPin] ∧ n ∉ ["block_select"]
    simp [haddr, hpin, hblock]
  · obtain ⟨r, hr, hm⟩ := List.mem_flatMap.mp hm
    obtain ⟨select, strobe, rfl, hselect, hstrobe⟩ := selects_of_mem hm
    change n ∉ ["block_select", "addr", strobe] ∧ n ∉ [select]
    simp [haddr, hblock, hinput _ hstrobe, bus_ne_register hs hbus hr hselect]

end

end RegisterGroup

end RegMap
