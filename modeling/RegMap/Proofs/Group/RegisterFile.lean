import RegMap.Proofs.Group.Storage

set_option autoImplicit false

namespace RegMap

open Verilog

/-- What a register keeps from one clock edge to the next; a kind that has no storage or no strobe
keeps 0 there. -/
structure Cell where
  value : Nat
  strobe : Nat
  deriving DecidableEq, Repr

structure Request where
  reset : Bool
  read : Bool
  written : Bool
  data : Nat
  set : Nat
  clear : Nat
  deriving DecidableEq, Repr

namespace Register

variable {r : Register} {w : String → Nat} {σ ρ τ ι : State}

def cell (r : Register) (σ : State) : Cell where
  value := if r.writable then σ r.name else 0
  strobe := if r.strobed then σ r.strobe else 0

def loaded (r : Register) (resetValue : Nat) (q : Request) (old : Nat) : Nat :=
  if q.reset then resetValue % 2 ^ r.width
  else if q.written then q.data % 2 ^ r.width
  else old

def nextValue (r : Register) (q : Request) (old : Nat) : Nat :=
  match r.kind with
  | .status | .readStrobe => old
  | .config resetValue | .writeStrobe resetValue => r.loaded resetValue q old
  | .softSet resetValue =>
    if q.reset then resetValue % 2 ^ r.width
    else (((if q.written then q.data else old) ||| q.set).ldiff q.clear) % 2 ^ r.width
  | .interrupt _ _ =>
    if q.reset then 0
    else ((old ||| q.set).ldiff (if q.written then q.data else 0)) % 2 ^ r.width

def nextStrobe (r : Register) (q : Request) (old : Nat) : Nat :=
  match r.kind with
  | .readStrobe => if q.reset then 0 else q.read.toNat
  | .writeStrobe _ => if q.reset then 0 else q.written.toNat
  | _ => old

def next (r : Register) (q : Request) (c : Cell) : Cell where
  value := r.nextValue q c.value
  strobe := r.nextStrobe q c.strobe

end Register

namespace RegisterGroup

variable {g : RegisterGroup} {r r' : Register} {σ ρ τ ι : State} {ιs : List State}

def request (g : RegisterGroup) (ι : State) (i : Nat) (r : Register) : Request where
  reset := decide (ι "reset" ≠ 0)
  read := decide (g.Accesses "rd_n" ι i)
  written := decide (g.Accesses "wr_n" ι i)
  data := ι "wr_data"
  set := ι r.setPort
  clear := ι r.clearPort

def cells (g : RegisterGroup) (σ : State) : List Cell := g.registers.map (·.cell σ)

def nextCells (g : RegisterGroup) (ι : State) (cs : List Cell) : List Cell :=
  (g.registers.zip cs).mapIdx fun i x => x.1.next (g.request ι i x.1) x.2

section

variable (h : Separate g.toModule.ports g.toModule.signals)
  (hf : g.toModule.Follows (g.toModule.drive ι σ) ρ)

include h hf

theorem follows_decoder : ∀ s ∈ g.decoder.statements, s.Holds g.toModule.width ρ := by
  have hgate : g.decoder ∈ g.toModule.gates :=
    List.mem_filter.mpr ⟨mem_blocks.mpr (.inl rfl), rfl⟩
  exact fun s hs =>
    (ordered_decoder (separate_of_toModule h)).holds_of_settle (hf.settled _ hgate) hs

theorem follows_reset : ρ "reset" = ι "reset" :=
  follows_input h hf (mem_inputNames_bus (by simp))

theorem follows_data : ρ "wr_data" = ι "wr_data" :=
  follows_input h hf (mem_inputNames_bus (by simp))

theorem follows_port {p : Port} (hr : r ∈ g.registers) (hp : p ∈ r.ports)
    (hd : p.direction = .input) : ρ p.name = ι p.name :=
  follows_input h hf (mem_inputNames_register hr (mem_inputNames hp hd))

omit hf in
theorem width_name (hr : r ∈ g.registers) (hw : r.writable = true) (hr1 : 1 ≤ r.width) :
    g.toModule.width r.name = r.width := by
  rw [width_of_signal h hr (Register.name_signal hw), Nat.max_eq_right hr1]

variable (hg : g.Built) (hL : g.localWidth < g.bus.addressWidth) {i : Nat}
  (hi : g.registers[i]? = some r)

include hg hL hi

theorem follows_readSelect : ρ r.readSelect = (g.request ι i r).read.toNat := by
  rw [request, ← hg.offset hi]
  exact readSelect_eq hL hf.fits (follows_decoder h hf) (fun n hn => follows_input h hf hn)
    (List.mem_of_getElem? hi)

theorem follows_writeSelect (hw : r.writable = true) :
    ρ r.writeSelect = (g.request ι i r).written.toNat := by
  rw [request, ← hg.offset hi]
  exact writeSelect_eq hL hf.fits (follows_decoder h hf) (fun n hn => follows_input h hf hn)
    (List.mem_of_getElem? hi) hw

theorem edge_strobe (hst : r.strobed = true) :
    g.toModule.edge ρ r.strobe = r.nextStrobe (g.request ι i r) (σ r.strobe) := by
  have hr := List.mem_of_getElem? hi
  have hwidth := Module.one_le_width g.toModule
  cases hk : r.kind with
  | readStrobe =>
    have hs : r.pulse r.readSelect ∈ r.updates := by simp [Register.updates, hk]
    have hsel := follows_readSelect h hf hg hL hi
    rw [edge_eq_write h hr hs (Register.mem_targets_pulse.mpr rfl),
      Register.write_pulse hwidth hf.fits hsel, follows_reset h hf]
    simp [Register.nextStrobe, hk, request]
  | writeStrobe resetValue =>
    have hs : r.pulse r.writeSelect ∈ r.updates := by simp [Register.updates, hk]
    have hsel := follows_writeSelect h hf hg hL hi (by simp [Register.writable, hk])
    rw [edge_eq_write h hr hs (Register.mem_targets_pulse.mpr rfl),
      Register.write_pulse hwidth hf.fits hsel, follows_reset h hf]
    simp [Register.nextStrobe, hk, request]
  | status | config | softSet | interrupt => simp [Register.strobed, hk] at hst

variable (hw : r.writable = true) (hr1 : 1 ≤ r.width)

include hw hr1

theorem edge_load {resetValue : Nat} (hs : r.load resetValue ∈ r.updates) :
    g.toModule.edge ρ r.name = r.loaded resetValue (g.request ι i r) (σ r.name) := by
  have hr := List.mem_of_getElem? hi
  have hn : r.name ∈ (r.load resetValue).targets := Register.mem_targets_load.mpr rfl
  have hsel := follows_writeSelect h hf hg hL hi hw
  rw [edge_eq_write h hr hs hn, Register.write_load (Module.one_le_width _) hf.fits hsel,
    follows_reset h hf, follows_data h hf, width_name h hr hw hr1, follows_kept h hf hr hs hn]
  simp [Register.loaded, request]

theorem edge_softSet {resetValue : Nat} (hk : r.kind = .softSet resetValue) :
    g.toModule.edge ρ r.name = r.nextValue (g.request ι i r) (σ r.name) := by
  have hr := List.mem_of_getElem? hi
  have hs : r.softSetUpdate resetValue ∈ r.updates := by simp [Register.updates, hk]
  have hn : r.name ∈ (r.softSetUpdate resetValue).targets :=
    Register.mem_targets_afterReset.mpr rfl
  have hset : ρ r.setPort = ι r.setPort :=
    follows_port h hf (p := .input r.setPort r.width) hr (by simp [Register.ports, hk]) rfl
  have hclear : ρ r.clearPort = ι r.clearPort :=
    follows_port h hf (p := .input r.clearPort r.width) hr (by simp [Register.ports, hk]) rfl
  have hsel := follows_writeSelect h hf hg hL hi hw
  rw [edge_eq_write h hr hs hn, Register.write_softSetUpdate (Module.one_le_width _) hf.fits hsel,
    follows_reset h hf, follows_data h hf, hset, hclear, width_name h hr hw hr1,
    follows_kept h hf hr hs hn]
  simp [Register.nextValue, hk, request]

theorem edge_interrupt {mask vector : Nat} (hk : r.kind = .interrupt mask vector) :
    g.toModule.edge ρ r.name = r.nextValue (g.request ι i r) (σ r.name) := by
  have hr := List.mem_of_getElem? hi
  have hs : r.pendingUpdate ∈ r.updates := by simp [Register.updates, hk]
  have hn : r.name ∈ r.pendingUpdate.targets := Register.mem_targets_afterReset.mpr rfl
  have hset : ρ r.setPort = ι r.setPort :=
    follows_port h hf (p := .input r.setPort r.width) hr (by simp [Register.ports, hk]) rfl
  have hone : g.toModule.width r.writeSelect = 1 :=
    width_of_signal h hr (Register.writeSelect_signal hw)
  have hsel := follows_writeSelect h hf hg hL hi hw
  rw [edge_eq_write h hr hs hn,
    Register.write_pendingUpdate hf.fits hsel hone (width_name h hr hw hr1), follows_reset h hf,
    follows_data h hf, hset, follows_kept h hf hr hs hn]
  simp [Register.nextValue, hk, request]

theorem edge_name :
    g.toModule.edge ρ r.name = r.nextValue (g.request ι i r) (σ r.name) := by
  cases hk : r.kind with
  | status | readStrobe => simp [Register.writable, hk] at hw
  | config resetValue | writeStrobe resetValue =>
    have hs : r.load resetValue ∈ r.updates := by simp [Register.updates, hk]
    rw [edge_load h hf hg hL hi hw hr1 hs, Register.nextValue, hk]
  | softSet resetValue => exact edge_softSet h hf hg hL hi hw hr1 hk
  | interrupt mask vector => exact edge_interrupt h hf hg hL hi hw hr1 hk

omit hw in
theorem edge_cell : r.cell (g.toModule.edge ρ) = r.next (g.request ι i r) (r.cell σ) := by
  have hvalue := fun hw => edge_name h hf hg hL hi hw hr1
  have hstrobe := edge_strobe h hf hg hL hi
  cases hk : r.kind <;>
    simp_all [Register.cell, Register.next, Register.nextValue, Register.nextStrobe,
      Register.writable, Register.strobed]

end

theorem edge_cells (hg : g.Built) (h : Separate g.toModule.ports g.toModule.signals)
    (hL : g.localWidth < g.bus.addressWidth) (hwidth : ∀ r ∈ g.registers, 1 ≤ r.width)
    (hf : g.toModule.Follows (g.toModule.drive ι σ) ρ) :
    g.cells (g.toModule.edge ρ) = g.nextCells ι (g.cells σ) := by
  have hzip : g.registers.zip (g.cells σ) = g.registers.map fun r => (r, r.cell σ) := by
    simpa [cells] using
      List.zip_map' (f := id) (g := fun r : Register => r.cell σ) (l := g.registers)
  refine List.ext_getElem? fun i => ?_
  rw [nextCells, hzip, List.getElem?_mapIdx, List.getElem?_map, cells, List.getElem?_map]
  cases hi : g.registers[i]? with
  | none => rfl
  | some r =>
    have hcell := edge_cell h hf hg hL hi (hwidth r (List.mem_of_getElem? hi))
    simp only [Option.map_some, hcell]

theorem run_cells (hg : g.Built) (h : Separate g.toModule.ports g.toModule.signals)
    (hL : g.localWidth < g.bus.addressWidth) (hwidth : ∀ r ∈ g.registers, 1 ≤ r.width)
    (hrun : g.toModule.Run σ ιs τ) :
    g.cells τ = ιs.foldl (fun cs ι => g.nextCells ι cs) (g.cells σ) := by
  induction hrun with
  | nil σ => rfl
  | cons hf hr ih => rw [ih, edge_cells hg h hL hwidth hf, List.foldl_cons]

/-- Whatever the inputs do, the module runs on, after each edge the registers hold what the register
file says, and in no cycle does the bus write two of them. -/
theorem refines_registerFile (hg : g.Built) (h : Separate g.toModule.ports g.toModule.signals)
    (hL : g.localWidth < g.bus.addressWidth) (hwidth : ∀ r ∈ g.registers, 1 ≤ r.width)
    (hσ : g.toModule.Fits σ) (hι : ∀ ι ∈ ιs, g.toModule.Fits ι) :
    (∃ τ, g.toModule.Run σ ιs τ) ∧
      (∀ τ, g.toModule.Run σ ιs τ →
        g.cells τ = ιs.foldl (fun cs ι => g.nextCells ι cs) (g.cells σ)) ∧
      ∀ ι ∈ ιs, ∀ i j, g.Accesses "wr_n" ι i → g.Accesses "wr_n" ι j → i = j := by
  refine ⟨Module.exists_run (fun ρ hρ => exists_follows h hρ) hσ hι, ?_, ?_⟩
  · exact fun τ hrun => run_cells hg h hL hwidth hrun
  · exact fun ι _ i j hi hj => accesses_unique hi hj

def uartWrite : State :=
  (((State.set (fun _ => 0) "addr" 0x83).set "wr_data" 5).set "ctl_set" 8).set "ctl_clr" 1

theorem uartWrite_fits : uart.toModule.Fits uartWrite :=
  ((((Module.fits_zero _).set (by decide)).set (by decide)).set (by decide)).set (by decide)

theorem refines_registerFile_uart :
    (∃ τ, uart.toModule.Run (fun _ => 0) [uartWrite] τ) ∧
      ∀ τ, uart.toModule.Run (fun _ => 0) [uartWrite] τ →
        uart.cells τ = [⟨0, 0⟩, ⟨0, 0⟩, ⟨0, 0⟩, ⟨12, 0⟩] := by
  have hwrite : ∀ ι ∈ [uartWrite], uart.toModule.Fits ι := by simpa using uartWrite_fits
  have hrun := refines_registerFile uart_built (by decide +kernel) (by decide) (by decide)
    (Module.fits_zero _) hwrite
  refine ⟨hrun.1, fun τ hτ => (hrun.2.1 τ hτ).trans ?_⟩
  decide +kernel

end RegisterGroup

end RegMap
