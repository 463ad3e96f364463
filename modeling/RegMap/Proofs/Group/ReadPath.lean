import RegMap.Proofs.Group.Decode

set_option autoImplicit false

namespace RegMap

open Verilog

namespace RegisterGroup

variable {g : RegisterGroup} {r r' : Register} {σ τ : State} {n : String}

theorem block_select_eq (hL : g.localWidth < g.bus.addressWidth) (hτ : g.toModule.Fits τ)
    (h : g.blockSelect.Holds g.toModule.width τ) :
    τ "block_select" = (decide (τ "addr" >>> g.localWidth = g.bus.baseAddress >>> g.localWidth) &&
      decide (τ g.bus.mapping.requestPin = 0)).toNat := by
  have haddr : τ "addr" < 2 ^ g.bus.addressWidth := by
    have := hτ "addr"
    rwa [width_addr, Nat.max_eq_right (by omega)] at this
  have hlen : g.bus.addressWidth - 1 + 1 - g.localWidth = g.bus.addressWidth - g.localWidth := by
    omega
  have hshift : (τ "addr" >>> g.localWidth) % 2 ^ (g.bus.addressWidth - g.localWidth) =
      τ "addr" >>> g.localWidth := by
    refine Nat.mod_eq_of_lt ?_
    rw [Nat.shiftRight_eq_div_pow]
    refine Nat.div_lt_of_lt_mul ?_
    rwa [← Nat.pow_add, Nat.add_sub_cancel' (by omega)]
  have hequal := (Expr.shows_range_equal (w := g.toModule.width) (σ := τ) "addr"
    (g.bus.addressWidth - 1) g.localWidth (g.bus.baseAddress >>> g.localWidth)).parens
  have hzero := Expr.shows_isZero_net (hτ g.bus.mapping.requestPin)
  rw [hlen, hshift] at hequal
  exact h.assign.trans (Assignment.eval_of_shows (hequal.both hzero) (Module.one_le_width _ _))

theorem select_eq (hL : g.localWidth < g.bus.addressWidth) (hτ : g.toModule.Fits τ)
    (hb : g.blockSelect.Holds g.toModule.width τ) {select strobe : String}
    (h : (g.selects r select strobe).Holds g.toModule.width τ) :
    τ select = (decide (g.Accesses strobe τ r.offset)).toNat := by
  have hlen : g.localWidth - 1 + 1 - 0 = g.localWidth := by
    have := one_le_localWidth g
    omega
  have hblock := Expr.shows_net (w := g.toModule.width) (block_select_eq hL hτ hb)
  have hequal := (Expr.shows_range_equal (w := g.toModule.width) (σ := τ) "addr"
    (g.localWidth - 1) 0 r.offset).parens
  have hzero := Expr.shows_isZero_net (hτ strobe)
  rw [hlen, Nat.shiftRight_zero] at hequal
  have hv := h.assign.trans
    (Assignment.eval_of_shows ((hblock.both hequal).both hzero) (Module.one_le_width _ _))
  rw [hv]
  congr 1
  rw [Bool.eq_iff_iff, decide_eq_true_iff]
  simp only [Accesses, Addressed, Bool.and_eq_true, decide_eq_true_eq]
  tauto

theorem find?_of_unique {α : Type} {p : α → Bool} {a : α} {l : List α} (ha : a ∈ l)
    (hp : p a = true) (hu : ∀ b ∈ l, p b = true → b = a) : l.find? p = some a := by
  cases hf : l.find? p with
  | none => exact absurd hp (List.find?_eq_none.mp hf a ha)
  | some b => rw [hu b (List.mem_of_find?_eq_some hf) (List.find?_some hf)]

/-- The state `τ` that the decoder and the read multiplexer make of `σ`. -/
structure BusView (g : RegisterGroup) (σ τ : State) : Prop where
  readSelect : ∀ i r, g.registers[i]? = some r →
    τ r.readSelect = if g.Accesses "rd_n" σ i then 1 else 0
  writeSelect : ∀ i r, g.registers[i]? = some r → r.writable = true →
    τ r.writeSelect = if g.Accesses "wr_n" σ i then 1 else 0
  writable : ∀ r ∈ g.registers, r.writeSelect ∈ g.decoder.targets ↔ r.writable = true
  read_unique : ∀ (i j : Nat) (r r' : Register), g.registers[i]? = some r →
    g.registers[j]? = some r' → τ r.readSelect = 1 → τ r'.readSelect = 1 → i = j
  write_unique : ∀ (i j : Nat) (r r' : Register), g.registers[i]? = some r →
    g.registers[j]? = some r' → r.writable = true → r'.writable = true →
      τ r.writeSelect = 1 → τ r'.writeSelect = 1 → i = j
  doe : τ "doe" = 1 ↔ ∃ r ∈ g.registers, τ r.readSelect = 1
  data : ∀ r ∈ g.registers, τ r.readSelect = 1 →
    τ "rd_data" = σ r.name % 2 ^ max 1 g.bus.dataWidth
  idle : (∀ r ∈ g.registers, τ r.readSelect ≠ 1) → g.hasInterrupts = true →
    τ "rd_data" = σ "int_vec" % 2 ^ max 1 g.bus.dataWidth

theorem toNat_decide (p : Prop) [Decidable p] : (decide p).toNat = if p then 1 else 0 := by
  by_cases h : p <;> simp [h]

section

variable (hg : g.Built) (hs : Separate g.ports g.signals)
  (hL : g.localWidth < g.bus.addressWidth) (hτ : g.toModule.Fits τ)
  (hd : ∀ s ∈ g.decoder.statements, s.Holds g.toModule.width τ)
  (hkeep : ∀ n ∈ inputNames g.ports, τ n = σ n)

include hL hτ hd hkeep

theorem readSelect_eq (hr : r ∈ g.registers) :
    τ r.readSelect = (decide (g.Accesses "rd_n" σ r.offset)).toNat := by
  have hm : g.selects r r.readSelect "rd_n" ∈ g.decoder.statements :=
    List.mem_cons_of_mem _ (List.mem_flatMap.mpr ⟨r, hr, mem_registerSelects.mpr (.inl rfl)⟩)
  have hstrobe : "rd_n" ∈ inputNames g.ports := mem_inputNames_bus (by simp)
  rw [select_eq hL hτ (hd _ List.mem_cons_self) (hd _ hm)]
  simp only [accesses_congr hstrobe hkeep]

theorem writeSelect_eq (hr : r ∈ g.registers) (hw : r.writable = true) :
    τ r.writeSelect = (decide (g.Accesses "wr_n" σ r.offset)).toNat := by
  have hm : g.selects r r.writeSelect "wr_n" ∈ g.decoder.statements :=
    List.mem_cons_of_mem _
      (List.mem_flatMap.mpr ⟨r, hr, mem_registerSelects.mpr (.inr ⟨hw, rfl⟩)⟩)
  have hstrobe : "wr_n" ∈ inputNames g.ports := mem_inputNames_bus (by simp)
  rw [select_eq hL hτ (hd _ List.mem_cons_self) (hd _ hm)]
  simp only [accesses_congr hstrobe hkeep]

theorem doe_eq (hm : ∀ s ∈ g.readMux.statements, s.Holds g.toModule.width τ) :
    τ "doe" = (g.registers.any fun r => decide (g.Accesses "rd_n" σ r.offset)).toNat := by
  have hshows : ∀ r ∈ g.registers, (Expr.net r.readSelect).Shows g.toModule.width τ
      (decide (g.Accesses "rd_n" σ r.offset)) := fun r hr =>
    Expr.shows_net (readSelect_eq hL hτ hd hkeep hr)
  have hdoe := (hm _ (List.mem_cons_of_mem _ List.mem_cons_self)).assign
  exact hdoe.trans (Assignment.eval_of_shows (Expr.shows_anyOf hshows) (Module.one_le_width _ _))

include hg

theorem rd_data_of_selected (hm : ∀ s ∈ g.readMux.statements, s.Holds g.toModule.width τ)
    (hr : r ∈ g.registers) (hsel : g.Accesses "rd_n" σ r.offset) :
    τ "rd_data" = τ r.name % 2 ^ max 1 g.bus.dataWidth := by
  have hone : ∀ r ∈ g.registers, (Expr.net r.readSelect).isOne g.toModule.width τ =
      decide (g.Accesses "rd_n" σ r.offset) := fun r hr =>
    (Expr.shows_net (readSelect_eq hL hτ hd hkeep hr)).isOne
  -- at most one arm matches, so the order of the arms does not matter
  have hfind : g.registers.find? (fun r => (Expr.net r.readSelect).isOne g.toModule.width τ) =
      some r := by
    refine find?_of_unique hr (by simpa [hone r hr] using hsel) fun r' hr' hone' => ?_
    have hsel' : g.Accesses "rd_n" σ r'.offset := by simpa [hone r' hr'] using hone'
    exact hg.eq_of_offset hr' hr (accesses_unique hsel' hsel)
  rw [← width_rd_data]
  refine ((hm _ List.mem_cons_self).eval (a := ⟨"rd_data", .net r.name⟩) ?_).trans
    Assignment.eval_net
  simp [Statement.chosen?, hfind]

omit hg in
theorem rd_data_of_idle (hm : ∀ s ∈ g.readMux.statements, s.Holds g.toModule.width τ)
    (hidle : ∀ r ∈ g.registers, ¬g.Accesses "rd_n" σ r.offset) (hint : g.hasInterrupts = true) :
    τ "rd_data" = τ "int_vec" % 2 ^ max 1 g.bus.dataWidth := by
  have hfind : g.registers.find? (fun r => (Expr.net r.readSelect).isOne g.toModule.width τ) =
      none := by
    refine List.find?_eq_none.mpr fun r hr => ?_
    rw [(Expr.shows_net (readSelect_eq hL hτ hd hkeep hr)).isOne]
    simpa using hidle r hr
  rw [← width_rd_data]
  refine ((hm _ List.mem_cons_self).eval (a := ⟨"rd_data", .net "int_vec"⟩) ?_).trans
    Assignment.eval_net
  simp [Statement.chosen?, hfind, hint]

end

theorem name_not_driven (hs : Separate g.ports g.signals) (hr : r ∈ g.registers) :
    r.name ∉ g.decoder.targets ∧ r.name ∉ g.readMux.targets := by
  refine ⟨fun h => ?_, fun h => bus_ne_name hs (bus_of_mem_readMux h) hr rfl⟩
  rcases mem_targets_decoder.mp h with h | ⟨r', hr', h | ⟨hw, h⟩⟩
  · exact bus_ne_name hs g.block_select_mem hr h.symm
  · exact suffixed_ne_name hs (by decide) hr' r'.readSelect_mem hr h.symm
  · exact suffixed_ne_name hs (by decide) hr' (Register.writeSelect_mem hw) hr h.symm

theorem int_vec_not_driven (g : RegisterGroup) :
    "int_vec" ∉ g.decoder.targets ∧ "int_vec" ∉ g.readMux.targets := by
  refine ⟨int_vec_not_mem_decoder g, fun h => ?_⟩
  rcases targets_readMux g _ h with h | h <;> exact absurd h (by decide)

/-- In a state in which both blocks have settled the bus shows what the address asks for. -/
theorem busView_of_holds (hg : g.Built) (hs : Separate g.ports g.signals)
    (hL : g.localWidth < g.bus.addressWidth) (hτ : g.toModule.Fits τ)
    (hd : ∀ s ∈ g.decoder.statements, s.Holds g.toModule.width τ)
    (hm : ∀ s ∈ g.readMux.statements, s.Holds g.toModule.width τ)
    (hkeep : ∀ n, n ∉ g.decoder.targets → n ∉ g.readMux.targets → τ n = σ n) :
    g.BusView σ τ := by
  have hinput : ∀ n ∈ inputNames g.ports, τ n = σ n := fun n hn =>
    hkeep n (fun h => hs.input n hn (signal_of_mem_decoder h))
      fun h => hs.input n hn (mem_signalNames_bus (bus_of_mem_readMux h))
  have hread : ∀ r ∈ g.registers, τ r.readSelect = 1 ↔ g.Accesses "rd_n" σ r.offset := by
    intro r hr
    rw [readSelect_eq hL hτ hd hinput hr, toNat_decide]
    simp
  have hwrite : ∀ r ∈ g.registers, r.writable = true →
      (τ r.writeSelect = 1 ↔ g.Accesses "wr_n" σ r.offset) := by
    intro r hr hw
    rw [writeSelect_eq hL hτ hd hinput hr hw, toNat_decide]
    simp
  refine ⟨?_, ?_, fun r hr => writeSelect_driven_iff hs hr, ?_, ?_, ?_, ?_, ?_⟩
  · intro i r hi
    rw [readSelect_eq hL hτ hd hinput (List.mem_of_getElem? hi), toNat_decide, hg.offset hi]
  · intro i r hi hw
    rw [writeSelect_eq hL hτ hd hinput (List.mem_of_getElem? hi) hw, toNat_decide, hg.offset hi]
  · intro i j r r' hi hj h h'
    rw [hread r (List.mem_of_getElem? hi), hg.offset hi] at h
    rw [hread r' (List.mem_of_getElem? hj), hg.offset hj] at h'
    exact accesses_unique h h'
  · intro i j r r' hi hj hw hw' h h'
    rw [hwrite r (List.mem_of_getElem? hi) hw, hg.offset hi] at h
    rw [hwrite r' (List.mem_of_getElem? hj) hw', hg.offset hj] at h'
    exact accesses_unique h h'
  · rw [doe_eq hL hτ hd hinput hm, Bool.toNat_eq_one, List.any_eq_true]
    exact exists_congr fun r => and_congr_right fun hr => by simp [hread r hr]
  · intro r hr h
    rw [rd_data_of_selected hg hL hτ hd hinput hm hr ((hread r hr).mp h),
      hkeep r.name (name_not_driven hs hr).1 (name_not_driven hs hr).2]
  · intro hidle hint
    have hno : ∀ r ∈ g.registers, ¬g.Accesses "rd_n" σ r.offset := fun r hr h =>
      hidle r hr ((hread r hr).mpr h)
    rw [rd_data_of_idle hL hτ hd hinput hm hno hint,
      hkeep "int_vec" (int_vec_not_driven g).1 (int_vec_not_driven g).2]

/-- From any state, running the two blocks selects by address and puts the value of the selected
register on the data bus. -/
theorem settle_busView (hg : g.Built) (hs : Separate g.ports g.signals)
    (hL : g.localWidth < g.bus.addressWidth) (hσ : g.toModule.Fits σ) :
    g.BusView σ (g.readMux.settle g.toModule.width (g.decoder.settle g.toModule.width σ)) := by
  have ho := ordered_decoder_readMux hs
  rw [settle_eq_execute, settle_eq_execute, ← execute_append]
  refine busView_of_holds hg hs hL (execute_lt hσ) (fun s hm => ho.holds (by simp [hm]))
    (fun s hm => ho.holds (by simp [hm])) fun n hd hm => execute_of_not_mem fun s hs hn => ?_
  rcases List.mem_append.mp hs with hs | hs
  · exact not_mem_targets hd s hs hn
  · exact not_mem_targets hm s hs hn

def uart : RegisterGroup :=
  .ofSpecs "uart" { baseAddress := 0x80 }
    [{ type := .status, name := "sr", width := 8 },
     { type := .intFixed, name := "irq", width := 2, vector := 0x38 },
     { type := .softSet, name := "ctl", width := 4, resetValue := 3 }]

theorem uart_built : uart.Built := built_iff.mpr ⟨_, _, _, rfl⟩

def uartRead (address pending : Nat) : State :=
  ((State.set (fun _ => 0) "addr" address).set "irq" pending).set "wr_n" 1

theorem uartRead_fits : uart.toModule.Fits (uartRead 0x81 2) :=
  (((Module.fits_zero _).set (by decide)).set (by decide)).set (by decide)

theorem settle_busView_uart :
    uart.Accesses "rd_n" (uartRead 0x81 2) 1 ∧
      uart.BusView (uartRead 0x81 2)
        (uart.readMux.settle uart.toModule.width
          (uart.decoder.settle uart.toModule.width (uartRead 0x81 2))) :=
  ⟨by decide, settle_busView uart_built (by decide +kernel) (by decide) uartRead_fits⟩

end RegisterGroup

end RegMap
