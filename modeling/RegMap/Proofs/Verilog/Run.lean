import RegMap.Proofs.Verilog.Dataflow

set_option autoImplicit false

namespace RegMap.Verilog

def inputNames (ports : List Port) : List String :=
  (ports.filter (·.direction == .input)).map (·.name)

def signalNames (signals : List Signal) : List String := signals.map (·.name)

/-- No two signals share a name, and none shares it with an input. -/
structure Separate (ports : List Port) (signals : List Signal) : Prop where
  nodup : (signalNames signals).Nodup
  input : ∀ n ∈ inputNames ports, n ∉ signalNames signals

instance (ports : List Port) (signals : List Signal) : Decidable (Separate ports signals) :=
  decidable_of_iff ((signalNames signals).Nodup ∧ ∀ n ∈ inputNames ports, n ∉ signalNames signals)
    ⟨fun h => ⟨h.1, h.2⟩, fun h => ⟨h.nodup, h.input⟩⟩

theorem mem_inputNames {ports : List Port} {p : Port} (hp : p ∈ ports) (hd : p.direction = .input) :
    p.name ∈ inputNames ports := by
  simp only [inputNames, List.mem_map, List.mem_filter]
  exact ⟨p, ⟨hp, by simp [hd]⟩, rfl⟩

theorem mem_signalNames {signals : List Signal} {s : Signal} (h : s ∈ signals) :
    s.name ∈ signalNames signals :=
  List.mem_map_of_mem h

namespace Module

variable {m : Module} {σ ρ ι : State} {ιs : List State}

theorem one_le_width (m : Module) (name : String) : 1 ≤ m.width name := by
  unfold width
  split
  · exact Nat.le_max_left _ _
  · split
    · exact Nat.le_max_left _ _
    · exact Nat.le_refl 1

theorem width_signal (hs : Separate m.ports m.signals)
    (ho : ∀ p ∈ m.ports, p.direction = .output → ⟨p.name, p.width⟩ ∈ m.signals)
    {s : Signal} (h : s ∈ m.signals) : m.width s.name = max 1 s.width := by
  have hunique : ∀ t ∈ m.signals, t.name = s.name → t = s := fun t ht he =>
    List.inj_on_of_nodup_map hs.nodup ht h he
  unfold width
  cases hp : m.ports.find? (·.name == s.name) with
  | some p =>
    have hmem := List.mem_of_find?_eq_some hp
    have hname : p.name = s.name := by simpa using List.find?_some hp
    cases hd : p.direction with
    | input =>
      exact absurd (mem_signalNames h) (hname ▸ hs.input _ (mem_inputNames hmem hd))
    | output =>
      have he := hunique _ (ho p hmem hd) hname
      simp only [← he]
  | none =>
    cases hf : m.signals.find? (·.name == s.name) with
    | some t =>
      have he := hunique t (List.mem_of_find?_eq_some hf) (by simpa using List.find?_some hf)
      simp only [he]
    | none =>
      have := List.find?_eq_none.mp hf s h
      simp at this

def drive (m : Module) (ι σ : State) : State :=
  fun n => if n ∈ inputNames m.ports then ι n else σ n

def gateStatements (m : Module) : List Statement := m.gates.flatMap (·.statements)

def storageStatements (m : Module) : List Statement := m.storage.flatMap (·.statements)

/-- All gates have settled, and nets that no gate drives are as in `σ`. -/
structure Follows (m : Module) (σ ρ : State) : Prop where
  settled : m.Settled ρ
  fits : m.Fits ρ
  kept : ∀ n, (∀ s ∈ m.gateStatements, n ∉ s.targets) → ρ n = σ n

/-- A run over clock cycles with the inputs `ιs`, from one state after an edge to another. -/
inductive Run (m : Module) : State → List State → State → Prop where
  | nil (σ : State) : Run m σ [] σ
  | cons {σ ρ τ ι : State} {ιs : List State} (hf : m.Follows (m.drive ι σ) ρ)
      (hr : Run m (m.edge ρ) ιs τ) : Run m σ (ι :: ιs) τ

theorem fits_zero (m : Module) : m.Fits fun _ => 0 := fun _ => Nat.two_pow_pos _

theorem Fits.set {name : String} {value : Nat} (h : m.Fits σ) (hv : value < 2 ^ m.width name) :
    m.Fits (σ.set name value) := by
  intro n
  unfold State.set
  split
  · next hn => rwa [hn]
  · exact h n

theorem Fits.drive (hι : m.Fits ι) (hσ : m.Fits σ) : m.Fits (m.drive ι σ) := by
  intro n
  unfold Module.drive
  split
  · exact hι n
  · exact hσ n

theorem Fits.edge (h : m.Fits σ) : m.Fits (m.edge σ) := by
  rw [edge_eq_commit]
  exact commit_lt h

theorem drive_input {n : String} (h : n ∈ inputNames m.ports) : m.drive ι σ n = ι n := if_pos h

theorem drive_of_not_mem {n : String} (h : n ∉ inputNames m.ports) : m.drive ι σ n = σ n := if_neg h

theorem follows_execute {ss : List Statement} (ho : Ordered ss)
    (hmem : ∀ s, s ∈ ss ↔ s ∈ m.gateStatements) (hσ : m.Fits σ) :
    m.Follows σ (execute m.width ss σ) where
  settled b hb := by
    rw [settle_eq_execute]
    refine execute_of_holds fun s hs => ho.holds ?_
    exact (hmem s).mpr (List.mem_flatMap.mpr ⟨b, hb, hs⟩)
  fits := execute_lt hσ
  kept n hn := execute_of_not_mem fun s hs => hn s ((hmem s).mp hs)

/-- A module whose gates always settle runs on under any inputs. -/
theorem exists_run (hf : ∀ σ, m.Fits σ → ∃ ρ, m.Follows σ ρ) (hσ : m.Fits σ)
    (hι : ∀ ι ∈ ιs, m.Fits ι) : ∃ τ, m.Run σ ιs τ := by
  induction ιs generalizing σ with
  | nil => exact ⟨σ, .nil σ⟩
  | cons ι ιs ih =>
    have hd : m.Fits (m.drive ι σ) := (hι ι (by simp)).drive hσ
    obtain ⟨ρ, hρ⟩ := hf _ hd
    obtain ⟨τ, hτ⟩ := ih hρ.fits.edge fun ι hm => hι ι (by simp [hm])
    exact ⟨τ, .cons hρ hτ⟩

end Module

end RegMap.Verilog
