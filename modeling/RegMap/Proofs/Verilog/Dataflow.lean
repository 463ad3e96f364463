import RegMap.Proofs.Verilog.Value

/-!
Which nets statements read and write. Statements in an order in which none writes what it or an
earlier one reads or wrote leave a state in which each of them holds as an equation.
-/

set_option autoImplicit false

namespace RegMap.Verilog

namespace Statement

variable {w : String → Nat} {σ σ' τ τ' : State} {s : Statement} {n : String}

def nets : Statement → List String
  | .assign a => a.value.nets
  | .select arms otherwise =>
    arms.flatMap (fun arm => arm.1.nets ++ arm.2.value.nets) ++ otherwise.value.nets
  | .chain first more otherwise =>
    (first :: more).flatMap (fun arm => arm.1.nets ++ arm.2.value.nets) ++
      otherwise.toList.flatMap (·.value.nets)

def targets : Statement → List String
  | .assign a => [a.target]
  | .select arms otherwise => arms.map (·.2.target) ++ [otherwise.target]
  | .chain first more otherwise =>
    (first :: more).map (·.2.target) ++ otherwise.toList.map (·.target)

theorem chosen?_congr (h : ∀ n ∈ s.nets, σ n = σ' n) :
    s.chosen? w σ = s.chosen? w σ' := by
  cases s with
  | assign a => rfl
  | select arms otherwise =>
    have hf : arms.find? (fun arm => arm.1.isOne w σ) =
        arms.find? (fun arm => arm.1.isOne w σ') := by
      refine List.find?_congr fun arm ha => Expr.isOne_congr fun n hn => h n ?_
      simp only [nets, List.mem_append, List.mem_flatMap]
      exact .inl ⟨arm, ha, .inl hn⟩
    simp only [chosen?, hf]
  | chain first more otherwise =>
    have hf : (first :: more).find? (fun arm => arm.1.isTrue w σ) =
        (first :: more).find? (fun arm => arm.1.isTrue w σ') := by
      refine List.find?_congr fun arm ha => Expr.isTrue_congr fun n hn => h n ?_
      simp only [nets, List.mem_append, List.mem_flatMap]
      exact .inl ⟨arm, ha, .inl hn⟩
    simp only [chosen?, hf]

theorem mem_of_chosen? {a : Assignment} (h : s.chosen? w σ = some a) :
    a.target ∈ s.targets ∧ ∀ n ∈ a.value.nets, n ∈ s.nets := by
  cases s with
  | assign b =>
    cases h
    exact ⟨by simp [targets], fun n hn => hn⟩
  | select arms otherwise =>
    simp only [chosen?, Option.some.injEq] at h
    cases hf : arms.find? (fun arm => arm.1.isOne w σ) with
    | none =>
      simp only [hf, Option.map_none, Option.getD_none] at h
      subst h
      exact ⟨by simp [targets], fun n hn => by simp [nets, hn]⟩
    | some arm =>
      simp only [hf, Option.map_some, Option.getD_some] at h
      subst h
      have ha := List.mem_of_find?_eq_some hf
      refine ⟨?_, fun n hn => ?_⟩
      · exact List.mem_append_left _ (List.mem_map.mpr ⟨arm, ha, rfl⟩)
      · exact List.mem_append_left _ (List.mem_flatMap.mpr ⟨arm, ha, List.mem_append_right _ hn⟩)
  | chain first more otherwise =>
    simp only [chosen?] at h
    cases hf : (first :: more).find? (fun arm => arm.1.isTrue w σ) with
    | none =>
      simp only [hf, Option.map_none, Option.none_or] at h
      subst h
      exact ⟨by simp [targets], fun n hn => by simp [nets, hn]⟩
    | some arm =>
      simp only [hf, Option.map_some, Option.some_or, Option.some.injEq] at h
      subst h
      have ha := List.mem_of_find?_eq_some hf
      refine ⟨?_, fun n hn => ?_⟩
      · exact List.mem_append_left _ (List.mem_map.mpr ⟨arm, ha, rfl⟩)
      · exact List.mem_append_left _ (List.mem_flatMap.mpr ⟨arm, ha, List.mem_append_right _ hn⟩)

theorem write_of_chosen? {a : Assignment} (h : s.chosen? w σ = some a) :
    s.write w σ τ = τ.set a.target (a.eval w σ) := by
  simp only [write, h]

theorem write_of_none (h : s.chosen? w σ = none) : s.write w σ τ = τ := by
  simp only [write, h]

/-- What a statement does hangs on the nets it reads, and on one net at a time. -/
theorem write_congr (hr : ∀ n ∈ s.nets, σ n = σ' n) (hn : τ n = τ' n) :
    s.write w σ τ n = s.write w σ' τ' n := by
  have hc : s.chosen? w σ = s.chosen? w σ' := chosen?_congr hr
  cases h : s.chosen? w σ with
  | none => rw [write_of_none h, write_of_none (hc ▸ h), hn]
  | some a =>
    have ha := Assignment.eval_congr (w := w) fun n hn => hr n ((mem_of_chosen? h).2 n hn)
    simp only [write_of_chosen? h, write_of_chosen? (hc ▸ h), State.set, ha, hn]

theorem write_of_not_mem (h : n ∉ s.targets) : s.write w σ τ n = τ n := by
  cases hc : s.chosen? w σ with
  | none => rw [write_of_none hc]
  | some a =>
    have hn : n ≠ a.target := fun he => h (he ▸ (mem_of_chosen? hc).1)
    simp only [write_of_chosen? hc, State.set, if_neg hn]

theorem write_write : s.write w σ (s.write w σ τ) n = s.write w σ τ n := by
  cases h : s.chosen? w σ with
  | none => rw [write_of_none h, write_of_none h]
  | some a =>
    simp only [write_of_chosen? h, State.set]
    split <;> rfl

theorem write_lt (h : ∀ n, τ n < 2 ^ w n) : ∀ n, s.write w σ τ n < 2 ^ w n := by
  intro n
  cases hc : s.chosen? w σ with
  | none => rw [write_of_none hc]; exact h n
  | some a =>
    simp only [write_of_chosen? hc, State.set]
    split
    · next hn => rw [hn]; exact a.eval_lt
    · exact h n

/-- The state already has what the statement would write. -/
def Holds (w : String → Nat) (σ : State) (s : Statement) : Prop := s.write w σ σ = σ

theorem Holds.eval {a : Assignment} (h : s.Holds w σ) (hc : s.chosen? w σ = some a) :
    σ a.target = a.eval w σ := by
  have ht := congrFun h a.target
  rw [write_of_chosen? hc, State.set, if_pos rfl] at ht
  exact ht.symm

theorem Holds.assign {a : Assignment} (h : (Statement.assign a).Holds w σ) :
    σ a.target = a.eval w σ :=
  h.eval rfl

end Statement

def Block.targets (b : Block) : List String := b.statements.flatMap Statement.targets

def execute (w : String → Nat) (ss : List Statement) (σ : State) : State :=
  ss.foldl (fun σ s => s.write w σ σ) σ

/-- Runs statements that all see the same state `σ`, and adds what they assign to `τ`. -/
def commit (w : String → Nat) (σ : State) (ss : List Statement) (τ : State) : State :=
  ss.foldl (fun τ s => s.write w σ τ) τ

section

variable {w : String → Nat} {σ τ : State} {s : Statement} {ss ts : List Statement} {n : String}

theorem settle_eq_execute (b : Block) (σ : State) :
    b.settle w σ = execute w b.statements σ := rfl

theorem edge_eq_commit (m : Module) (σ : State) :
    m.edge σ = commit m.width σ (m.storage.flatMap (·.statements)) σ :=
  List.foldl_flatMap.symm

theorem execute_cons : execute w (s :: ss) σ = execute w ss (s.write w σ σ) := rfl

theorem commit_cons : commit w σ (s :: ss) τ = commit w σ ss (s.write w σ τ) := rfl

theorem execute_append : execute w (ss ++ ts) σ = execute w ts (execute w ss σ) :=
  List.foldl_append

theorem execute_of_not_mem (h : ∀ s ∈ ss, n ∉ s.targets) : execute w ss σ n = σ n := by
  induction ss generalizing σ with
  | nil => rfl
  | cons s ss ih =>
    rw [execute_cons, ih fun t ht => h t (by simp [ht])]
    exact Statement.write_of_not_mem (h s (by simp))

theorem execute_lt (h : ∀ n, σ n < 2 ^ w n) : ∀ n, execute w ss σ n < 2 ^ w n := by
  induction ss generalizing σ with
  | nil => exact h
  | cons s ss ih => exact ih (Statement.write_lt h)

theorem execute_of_holds (h : ∀ s ∈ ss, s.Holds w σ) : execute w ss σ = σ := by
  induction ss with
  | nil => rfl
  | cons s ss ih =>
    have hs : s.write w σ σ = σ := h s (by simp)
    rw [execute_cons, hs]
    exact ih fun t ht => h t (by simp [ht])

theorem commit_lt (h : ∀ n, τ n < 2 ^ w n) : ∀ n, commit w σ ss τ n < 2 ^ w n := by
  induction ss generalizing τ with
  | nil => exact h
  | cons s ss ih => exact ih (Statement.write_lt h)

theorem commit_of_not_mem (h : ∀ s ∈ ss, n ∉ s.targets) : commit w σ ss τ n = τ n := by
  induction ss generalizing τ with
  | nil => rfl
  | cons s ss ih =>
    rw [commit_cons, ih fun t ht => h t (by simp [ht])]
    exact Statement.write_of_not_mem (h s (by simp))

/-- A net that only one statement assigns gets what that statement gives it. -/
theorem commit_of_unique (hs : s ∈ ss) (hu : ∀ t ∈ ss, n ∈ t.targets → t = s) :
    commit w σ ss τ n = s.write w σ τ n := by
  induction ss generalizing τ with
  | nil => simp at hs
  | cons t ss ih =>
    have hu' : ∀ t ∈ ss, n ∈ t.targets → t = s := fun t ht => hu t (by simp [ht])
    rw [commit_cons]
    by_cases hm : s ∈ ss
    -- the statement may stand there more than once, but writing it again changes nothing
    · rw [ih hm hu']
      by_cases hn : n ∈ t.targets
      · rw [hu t (by simp) hn, Statement.write_write]
      · exact Statement.write_congr (fun _ _ => rfl) (Statement.write_of_not_mem hn)
    · have ht : s = t := (List.mem_cons.mp hs).resolve_right hm
      rw [ht]
      exact commit_of_not_mem fun u hu hn => hm (hu' u hu hn ▸ hu)

/-- No statement writes a net that it reads, and none writes one that an earlier statement reads or
writes. -/
structure Ordered (ss : List Statement) : Prop where
  alone : ∀ s ∈ ss, ∀ n ∈ s.targets, n ∉ s.nets
  later : ss.Pairwise fun s t => ∀ n ∈ t.targets, n ∉ s.nets ∧ n ∉ s.targets

theorem Ordered.append (hs : Ordered ss) (ht : Ordered ts)
    (h : ∀ s ∈ ss, ∀ t ∈ ts, ∀ n ∈ t.targets, n ∉ s.nets ∧ n ∉ s.targets) :
    Ordered (ss ++ ts) where
  alone s hm := (List.mem_append.mp hm).elim (hs.alone s) (ht.alone s)
  later := List.pairwise_append.mpr ⟨hs.later, ht.later, h⟩

/-- After a run in order every statement holds, for nothing that it read or wrote has changed. -/
theorem Ordered.holds (h : Ordered ss) (hs : s ∈ ss) : s.Holds w (execute w ss σ) := by
  induction ss generalizing σ with
  | nil => simp at hs
  | cons t ss ih =>
    have hp := List.pairwise_cons.mp h.later
    have hrest : Ordered ss := ⟨fun s hm => h.alone s (by simp [hm]), hp.2⟩
    rw [execute_cons]
    rcases List.mem_cons.mp hs with rfl | hm
    -- the first statement: the rest leaves alone what it read and what it wrote
    · have hkept : ∀ n, n ∈ s.nets ∨ n ∈ s.targets →
          execute w ss (s.write w σ σ) n = s.write w σ σ n := by
        intro n hn
        refine execute_of_not_mem fun t ht hw => ?_
        obtain ⟨hr, hw⟩ := hp.1 t ht n hw
        exact hn.elim hr hw
      have hread : ∀ n ∈ s.nets, execute w ss (s.write w σ σ) n = σ n := by
        intro n hn
        rw [hkept n (.inl hn)]
        exact Statement.write_of_not_mem fun hw => h.alone s (by simp) n hw hn
      funext n
      by_cases hn : n ∈ s.targets
      · have hw := hkept n (.inr hn)
        rw [Statement.write_congr hread hw, Statement.write_write, hw]
      · exact Statement.write_of_not_mem hn
    · exact ih hrest hm

theorem Ordered.holds_of_settle {b : Block} (h : Ordered b.statements) (hb : b.settle w σ = σ)
    (hs : s ∈ b.statements) : s.Holds w σ := by
  have := h.holds (w := w) (σ := σ) hs
  rwa [← settle_eq_execute, hb] at this

end

end RegMap.Verilog
