import RegMap.Proofs.Verilog.Run

set_option autoImplicit false

namespace RegMap.Verilog

def Trigger.nets : Trigger → List String
  | .change => []
  | .edge clock => [clock]

def Block.mentioned (b : Block) : List String :=
  b.trigger.nets ++ b.statements.flatMap fun s => s.nets ++ s.targets

namespace Module

variable {m : Module} {n o : String}

def Declares (m : Module) (n : String) : Prop :=
  n ∈ m.ports.map (·.name) ∨ n ∈ signalNames m.signals

def DependsOn (m : Module) (n o : String) : Prop :=
  ∃ s ∈ m.gateStatements, n ∈ s.targets ∧ o ∈ s.nets

structure Wired (m : Module) : Prop where
  declared : ∀ b ∈ m.blocks, ∀ n ∈ b.mentioned, m.Declares n
  driven : ∀ b ∈ m.blocks, ∀ n ∈ b.targets, n ∈ signalNames m.signals ∧ n ∉ inputNames m.ports
  /-- One block drives the signal; two that look alike would count as two. -/
  once : ∀ n ∈ signalNames m.signals, ∃ i b, m.blocks[i]? = some b ∧ n ∈ b.targets ∧
    ∀ (j : Nat) (c : Block), m.blocks[j]? = some c → n ∈ c.targets → j = i
  trigger : ∀ b ∈ m.blocks,
    b.trigger.wire = ['*'] ∧ b.trigger.assignment = " = ".toList ∨
      b.trigger.wire = "(posedge clk)".toList ∧ b.trigger.assignment = " <= ".toList
  output : ∀ p ∈ m.ports, p.direction = .output → ⟨p.name, p.width⟩ ∈ m.signals
  loopless : ∀ n, ¬Relation.TransGen m.DependsOn n n

theorem declares_input (h : n ∈ inputNames m.ports) : m.Declares n := by
  obtain ⟨p, hp, rfl⟩ := List.mem_map.mp h
  exact .inl (List.mem_map_of_mem (List.mem_of_mem_filter hp))

/-- What is driven twice is driven by one block, where no two blocks drive the same net. -/
theorem driver_unique
    (h : m.blocks.Pairwise fun b c => ∀ n ∈ b.targets, n ∉ c.targets) {i j : Nat} {b c : Block}
    (hi : m.blocks[i]? = some b) (hj : m.blocks[j]? = some c) (hb : n ∈ b.targets)
    (hc : n ∈ c.targets) : j = i := by
  obtain ⟨hilt, rfl⟩ := List.getElem?_eq_some_iff.mp hi
  obtain ⟨hjlt, rfl⟩ := List.getElem?_eq_some_iff.mp hj
  have hp := List.pairwise_iff_getElem.mp h
  rcases Nat.lt_trichotomy i j with hlt | heq | hgt
  · exact absurd hc (hp i j hilt hjlt hlt n hb)
  · exact heq.symm
  · exact absurd hb (hp j i hjlt hilt hgt n hc)

/-- Where the net is driven in an order of statements, counted from 1; 0 if nowhere. -/
def rank (ss : List Statement) (n : String) : Nat :=
  ((ss.findIdx? fun s => decide (n ∈ s.targets)).map (· + 1)).getD 0

theorem rank_of_driven {ss : List Statement} (ho : Ordered ss) {i : Nat} {s : Statement}
    (hi : ss[i]? = some s) (hn : n ∈ s.targets) : rank ss n = i + 1 := by
  obtain ⟨hilt, rfl⟩ := List.getElem?_eq_some_iff.mp hi
  have hp := List.pairwise_iff_getElem.mp ho.later
  have hfirst : ss.findIdx? (fun s => decide (n ∈ s.targets)) = some i := by
    refine List.findIdx?_eq_some_iff_getElem.mpr ⟨hilt, by simpa using hn, fun j hj => ?_⟩
    simpa using (hp j i (by omega) hilt hj n hn).2
  rw [rank, hfirst]
  rfl

theorem rank_lt {ss : List Statement} (ho : Ordered ss) (hmem : ∀ s ∈ m.gateStatements, s ∈ ss)
    (hd : m.DependsOn n o) : rank ss o < rank ss n := by
  obtain ⟨s, hs, hn, hr⟩ := hd
  obtain ⟨i, hi⟩ := List.mem_iff_getElem?.mp (hmem s hs)
  rw [rank_of_driven ho hi hn]
  by_cases ht : ∃ t ∈ ss, o ∈ t.targets
  · obtain ⟨t, ht, hot⟩ := ht
    obtain ⟨j, hj⟩ := List.mem_iff_getElem?.mp ht
    rw [rank_of_driven ho hj hot]
    obtain ⟨hilt, rfl⟩ := List.getElem?_eq_some_iff.mp hi
    obtain ⟨hjlt, rfl⟩ := List.getElem?_eq_some_iff.mp hj
    have hp := List.pairwise_iff_getElem.mp ho.later
    rcases Nat.lt_trichotomy j i with hlt | rfl | hgt
    · omega
    · exact absurd hr (ho.alone _ ht o hot)
    · exact absurd hr (hp i j hilt hjlt hgt o hot).1
  · have hnone : ss.findIdx? (fun s => decide (o ∈ s.targets)) = none := by
      refine List.findIdx?_eq_none_iff.mpr fun t hm => ?_
      simpa using fun hot => ht ⟨t, hm, hot⟩
    rw [rank, hnone]
    exact Nat.succ_pos i

theorem loopless_of_ordered {ss : List Statement} (ho : Ordered ss)
    (hmem : ∀ s ∈ m.gateStatements, s ∈ ss) (n : String) : ¬Relation.TransGen m.DependsOn n n := by
  have hrank : ∀ o, Relation.TransGen m.DependsOn n o → rank ss o < rank ss n := by
    intro o h
    induction h with
    | single hd => exact rank_lt ho hmem hd
    | tail _ hd ih => exact (rank_lt ho hmem hd).trans ih
  exact fun h => Nat.lt_irrefl _ (hrank n h)

end Module

end RegMap.Verilog
