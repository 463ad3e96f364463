import RegMap.Proofs.Verilog.Words

/-!
The text of a module by lines. The lines are told by the text, and what a line says by how it
begins: the declaration of a port, a statement, and among the statements the arms of a choice and
the links of a chain. So modules with the same text have the same name, ports and statements, as far
as these show in their lines.
-/

set_option autoImplicit false

namespace RegMap.Verilog

open Text

theorem line_zero (l : List Char) : line 0 l = l ++ '\n' :: [] := rfl

theorem lines_inj {ls ls' : List (List Char)} (h : ∀ l ∈ ls, l.all (· != '\n'))
    (h' : ∀ l ∈ ls', l.all (· != '\n')) (he : ls.flatMap (line 0) = ls'.flatMap (line 0)) :
    ls = ls' := by
  induction ls generalizing ls' with
  | nil =>
    cases ls' with
    | nil => rfl
    | cons l' ls' => simp [line_zero] at he
  | cons l ls ih =>
    cases ls' with
    | nil => simp [line_zero] at he
    | cons l' ls' =>
      rw [List.forall_mem_cons] at h h'
      simp only [List.flatMap_cons, line_zero, List.append_assoc, List.cons_append,
        List.nil_append] at he
      obtain ⟨rfl, hrest⟩ := append_cons_inj (p := (· != '\n')) h.1 h'.1 rfl rfl he
      rw [ih h.2 h'.2 (List.cons.inj hrest).2]

def Block.statementLines (b : Block) : List (List Char) :=
  b.statements.flatMap (Statement.wires b.trigger.assignment)

def Block.lines (b : Block) : List (List Char) :=
  ["always @".toList ++ b.trigger.wire, "  begin".toList] ++
    b.statementLines.map ("    ".toList ++ ·) ++ ["  end".toList]

def headLines : List Port → List (List Char)
  | [] => []
  | [p] => ["  ".toList ++ p.name.toList]
  | p :: ports => ("  ".toList ++ p.name.toList ++ [',']) :: headLines ports

namespace Module

def statementLines (m : Module) : List (List Char) := m.blocks.flatMap Block.statementLines

def lines (m : Module) : List (List Char) :=
  ["module ".toList ++ m.name.toList ++ " (".toList] ++ headLines m.ports ++ [");".toList] ++
    m.ports.map Port.wire ++ m.signals.map Signal.wire ++ m.blocks.flatMap Block.lines ++
    ["endmodule".toList]

end Module

theorem headNames_eq (ports : List Port) :
    headNames ports = (headLines ports).flatMap (line 0) := by
  fun_induction headLines ports with
  | case1 => rfl
  | case2 p => simp [headNames, line]
  | case3 p ports hne ih =>
    rw [headNames, ih, List.flatMap_cons]
    · simp [line]
    · exact hne

theorem Block.wire_eq (b : Block) : b.wire = b.lines.flatMap (line 0) := by
  change alwaysWire b.trigger b.statementLines = _
  simp only [alwaysWire, lines, List.flatMap_cons, List.flatMap_append, List.flatMap_map,
    List.flatMap_nil, List.append_nil, line, List.append_assoc]
  rfl

theorem Module.wire_eq (m : Module) : m.wire = m.lines.flatMap (line 0) := by
  have hblocks : (m.sections.map (·.flatMap Block.wire)).flatten =
      (m.blocks.flatMap Block.lines).flatMap (line 0) := by
    simp only [List.flatMap_assoc, ← Block.wire_eq, blocks]
    induction m.sections with
    | nil => rfl
    | cons bs sections ih => simp [ih]
  simp only [Module.wire, sheet, Sheet.wire, hblocks, headNames_eq, lines, List.flatMap_append,
    List.flatMap_cons, List.flatMap_nil, List.append_nil, List.flatMap_map]

structure Module.Legible (m : Module) : Prop where
  name : IsIdentifier m.name
  ports : ∀ p ∈ m.ports, IsIdentifier p.name
  signals : ∀ s ∈ m.signals, IsIdentifier s.name
  mentioned : ∀ b ∈ m.blocks, ∀ n ∈ b.mentioned, IsIdentifier n

section

variable {l operator : List Char} {a : Assignment} {s : Statement} {b : Block} {m : Module}

theorem unbroken_of_isExprChar (h : l.all isExprChar) : l.all (· != '\n') := by
  refine List.all_eq_true.mpr fun c hc => bne_iff_ne.mpr ?_
  rintro rfl
  exact absurd (List.all_eq_true.mp h _ hc) (by decide)

theorem IsIdentifier.unbroken {name : String} (h : IsIdentifier name) :
    name.toList.all (· != '\n') := unbroken_of_isExprChar (isExprChar_of_isWordChar h.2)

theorem Expr.unbroken {e : Expr} (h : ∀ n ∈ e.nets, IsIdentifier n) : e.wire.all (· != '\n') :=
  unbroken_of_isExprChar (Expr.wire_all h)

theorem decimal_unbroken (n : Nat) : (decimal n).all (· != '\n') :=
  unbroken_of_isExprChar (isExprChar_of_isWordChar (decimal_all n))

theorem Assignment.unbroken (hop : operator.all (· != '\n')) (ht : IsIdentifier a.target)
    (hv : ∀ n ∈ a.value.nets, IsIdentifier n) : (a.wire operator).all (· != '\n') := by
  simp only [wire, List.all_append, ht.unbroken, hop, Expr.unbroken hv]
  rfl

theorem guardWire_eq (operator : List Char) (arm : Expr × Assignment) : guardWire operator arm =
    "if (".toList ++ (arm.1.wire ++ (") ".toList ++ arm.2.wire operator)) := by
  change "if (".toList ++ arm.1.wire ++ ") ".toList ++ arm.2.wire operator = _
  simp only [List.append_assoc]

theorem guardWire_unbroken {arm : Expr × Assignment} (hc : arm.1.wire.all (· != '\n'))
    (ha : (arm.2.wire operator).all (· != '\n')) :
    (guardWire operator arm).all (· != '\n') := by
  rw [guardWire_eq, List.all_append, List.all_append, List.all_append, hc, ha]
  rfl

theorem Statement.unbroken (hop : operator.all (· != '\n')) (hn : ∀ n ∈ s.nets, IsIdentifier n)
    (ht : ∀ n ∈ s.targets, IsIdentifier n) : ∀ l ∈ s.wires operator, l.all (· != '\n') := by
  cases s with
  | assign a =>
    exact List.forall_mem_singleton.mpr
      (Assignment.unbroken hop (ht _ (List.mem_singleton_self _)) hn)
  | select arms otherwise =>
    simp only [nets, targets, List.mem_append, List.mem_flatMap, List.mem_map] at hn ht
    have harm : ∀ arm ∈ arms, (armWire operator arm).all (· != '\n') := by
      intro arm h
      have hc : arm.1.wire.all (· != '\n') :=
        Expr.unbroken fun n hnet => hn n (.inl ⟨arm, h, .inl hnet⟩)
      have ha : (arm.2.wire operator).all (· != '\n') :=
        Assignment.unbroken hop (ht _ (.inl ⟨arm, h, rfl⟩))
          fun n hnet => hn n (.inl ⟨arm, h, .inr hnet⟩)
      simp only [armWire, List.all_append, hc, ha]
      rfl
    have ho : (otherwise.wire operator).all (· != '\n') :=
      Assignment.unbroken hop (ht _ (.inr (List.mem_singleton_self _)))
        fun n hnet => hn n (.inr hnet)
    simp only [wires, List.cons_append, List.mem_append, List.mem_cons, List.mem_map,
      List.not_mem_nil, or_false]
    rintro l (rfl | ⟨arm, h, rfl⟩ | rfl | rfl)
    · rfl
    · exact harm arm h
    · rw [List.all_append, ho]
      rfl
    · rfl
  | chain first more otherwise =>
    simp only [nets, targets, List.mem_append, List.mem_flatMap, List.mem_map] at hn ht
    have harm : ∀ arm ∈ first :: more, (guardWire operator arm).all (· != '\n') := fun arm h =>
      guardWire_unbroken (Expr.unbroken fun n hnet => hn n (.inl ⟨arm, h, .inl hnet⟩))
        (Assignment.unbroken hop (ht _ (.inl ⟨arm, h, rfl⟩))
          fun n hnet => hn n (.inl ⟨arm, h, .inr hnet⟩))
    simp only [wires, List.cons_append, List.mem_append, List.mem_cons, List.mem_map]
    rintro l (rfl | ⟨arm, h, rfl⟩ | ⟨a, ha, rfl⟩)
    · exact harm first List.mem_cons_self
    · rw [List.all_append, harm arm (List.mem_cons_of_mem _ h)]
      rfl
    · rw [List.all_append, Assignment.unbroken hop (ht _ (.inr ⟨a, ha, rfl⟩))
        fun n hnet => hn n (.inr ⟨a, ha, hnet⟩)]
      rfl

theorem Trigger.unbroken {t : Trigger} (h : ∀ n ∈ t.nets, IsIdentifier n) :
    t.wire.all (· != '\n') := by
  cases t with
  | change => decide
  | edge clock =>
    change ("(posedge ".toList ++ clock.toList ++ [')']).all (· != '\n')
    rw [List.all_append, List.all_append, (h clock (List.mem_singleton_self clock)).unbroken]
    rfl

theorem Trigger.assignment_unbroken (t : Trigger) : t.assignment.all (· != '\n') := by
  cases t <;> rfl

theorem Block.unbroken (h : ∀ n ∈ b.mentioned, IsIdentifier n) :
    ∀ l ∈ b.lines, l.all (· != '\n') := by
  simp only [mentioned, List.mem_append, List.mem_flatMap] at h
  simp only [lines, statementLines, List.mem_append, List.mem_cons, List.mem_map, List.mem_flatMap,
    List.not_mem_nil, or_false]
  rintro l (((rfl | rfl) | ⟨l, ⟨s, hs, hl⟩, rfl⟩) | rfl)
  · rw [List.all_append, Trigger.unbroken fun n hn => h n (.inl hn)]
    rfl
  · rfl
  · rw [List.all_append, Statement.unbroken b.trigger.assignment_unbroken
      (fun n hn => h n (.inr ⟨s, hs, .inl hn⟩)) (fun n hn => h n (.inr ⟨s, hs, .inr hn⟩)) l hl]
    rfl
  · rfl

theorem declaration_unbroken {keyword name : String} {width : Nat}
    (hk : keyword.toList.all (· != '\n')) (h : IsIdentifier name) :
    (declaration keyword width name).all (· != '\n') := by
  unfold declaration
  split
  · simp only [List.all_append, List.all_cons, hk, h.unbroken]
    rfl
  · simp only [List.all_append, hk, decimal_unbroken, h.unbroken]
    rfl

theorem mem_headLines {ports : List Port} (h : l ∈ headLines ports) :
    ∃ p ∈ ports, l = "  ".toList ++ p.name.toList ∨ l = "  ".toList ++ p.name.toList ++ [','] := by
  fun_induction headLines ports with
  | case1 => cases h
  | case2 p => exact ⟨p, List.mem_cons_self, .inl (List.mem_singleton.mp h)⟩
  | case3 p ports hne ih =>
    rcases List.mem_cons.mp h with rfl | h
    · exact ⟨p, List.mem_cons_self, .inr rfl⟩
    · obtain ⟨q, hq, hl⟩ := ih h
      exact ⟨q, List.mem_cons_of_mem _ hq, hl⟩

theorem Module.Legible.unbroken (h : m.Legible) : ∀ l ∈ m.lines, l.all (· != '\n') := by
  simp only [lines, List.mem_append, List.mem_cons, List.mem_map, List.mem_flatMap,
    List.not_mem_nil, or_false]
  rintro l ((((((rfl | hl) | rfl) | ⟨p, hp, rfl⟩) | ⟨s, hs, rfl⟩) | ⟨b, hb, hl⟩) | rfl)
  · rw [List.all_append, List.all_append, h.name.unbroken]
    rfl
  · obtain ⟨p, hp, rfl | rfl⟩ := mem_headLines hl
    · rw [List.all_append, (h.ports p hp).unbroken]
      rfl
    · rw [List.all_append, List.all_append, (h.ports p hp).unbroken]
      rfl
  · rfl
  · exact declaration_unbroken (by cases p.direction <;> rfl) (h.ports p hp)
  · exact declaration_unbroken rfl (h.signals s hs)
  · exact Block.unbroken (h.mentioned b hb) l hl
  · rfl

def isPortLine (l : List Char) : Bool := l.head? == some 'i' || l.head? == some 'o'

def isStatementLine (l : List Char) : Bool := "    ".toList.isPrefixOf l

def rangeWire (width : Nat) : List Char :=
  if width ≤ 1 then [] else '[' :: (decimal (width - 1) ++ ":0] ".toList)

theorem declaration_eq (keyword : String) (width : Nat) (name : String) :
    declaration keyword width name =
      keyword.toList ++ ' ' :: (rangeWire width ++ (name.toList ++ [';'])) := by
  unfold declaration rangeWire
  split <;> simp

theorem head?_portWire (p : Port) :
    p.wire.head? = some (if p.direction = .input then 'i' else 'o') := by
  rw [Port.wire, declaration_eq]
  cases p.direction <;> rfl

theorem exists_signalWire (s : Signal) : ∃ rest, s.wire = 'r' :: rest :=
  ⟨_, declaration_eq "reg" s.width s.name⟩

theorem filter_isPortLine (m : Module) : m.lines.filter isPortLine = m.ports.map Port.wire := by
  have hhead : (headLines m.ports).filter isPortLine = [] := by
    refine List.filter_eq_nil_iff.mpr fun l hl => ?_
    obtain ⟨p, -, rfl | rfl⟩ := mem_headLines hl <;> exact Bool.false_ne_true
  have hports : (m.ports.map Port.wire).filter isPortLine = m.ports.map Port.wire := by
    refine List.filter_eq_self.mpr (List.forall_mem_map.mpr fun p _ => ?_)
    rw [isPortLine, head?_portWire]
    split <;> rfl
  have hsignals : (m.signals.map Signal.wire).filter isPortLine = [] := by
    refine List.filter_eq_nil_iff.mpr (List.forall_mem_map.mpr fun s _ => ?_)
    obtain ⟨rest, hs⟩ := exists_signalWire s
    rw [hs]
    exact Bool.false_ne_true
  have hblocks : (m.blocks.flatMap Block.lines).filter isPortLine = [] := by
    refine List.filter_eq_nil_iff.mpr fun l hl => ?_
    obtain ⟨b, -, hl⟩ := List.mem_flatMap.mp hl
    simp only [Block.lines, List.mem_cons, List.mem_append, List.mem_map, List.not_mem_nil,
      or_false] at hl
    obtain ((rfl | rfl) | ⟨l, -, rfl⟩) | rfl := hl <;> exact Bool.false_ne_true
  simp only [Module.lines, List.filter_append, hhead, hports, hsignals, hblocks, List.append_nil]
  exact List.append_nil _

theorem filter_isStatementLine (h : m.Legible) :
    m.lines.filter isStatementLine = m.statementLines.map ("    ".toList ++ ·) := by
  have hhead : (headLines m.ports).filter isStatementLine = [] := by
    refine List.filter_eq_nil_iff.mpr fun l hl => ?_
    obtain ⟨p, hp, hl⟩ := mem_headLines hl
    obtain ⟨c, cs, hname, hc, -⟩ := (h.ports p hp).exists_cons
    have hspace : c ≠ ' ' := by
      rintro rfl
      exact absurd hc (by decide)
    rw [hname] at hl
    obtain rfl | rfl := hl <;> simp [isStatementLine, Ne.symm hspace]
  have hports : (m.ports.map Port.wire).filter isStatementLine = [] := by
    refine List.filter_eq_nil_iff.mpr (List.forall_mem_map.mpr fun p _ => ?_)
    have hhead := head?_portWire p
    cases hp : p.wire with
    | nil => exact Bool.false_ne_true
    | cons c rest =>
      rw [hp] at hhead
      obtain rfl := Option.some.inj hhead
      split <;> exact Bool.false_ne_true
  have hsignals : (m.signals.map Signal.wire).filter isStatementLine = [] := by
    refine List.filter_eq_nil_iff.mpr (List.forall_mem_map.mpr fun s _ => ?_)
    obtain ⟨rest, hs⟩ := exists_signalWire s
    rw [hs]
    exact Bool.false_ne_true
  have hblock (b : Block) :
      b.lines.filter isStatementLine = b.statementLines.map ("    ".toList ++ ·) := by
    have hself : (b.statementLines.map ("    ".toList ++ ·)).filter isStatementLine =
        b.statementLines.map ("    ".toList ++ ·) := by
      refine List.filter_eq_self.mpr (List.forall_mem_map.mpr fun l _ => ?_)
      exact List.isPrefixOf_iff_prefix.mpr (List.prefix_append _ _)
    rw [Block.lines, List.filter_append, List.filter_append, hself]
    exact List.append_nil _
  have hblocks : (m.blocks.flatMap Block.lines).filter isStatementLine =
      m.statementLines.map ("    ".toList ++ ·) := by
    simp only [List.filter_flatMap, hblock, Module.statementLines, List.map_flatMap]
  simp only [Module.lines, List.filter_append, hhead, hports, hsignals, hblocks, List.append_nil]
  exact List.append_nil _

theorem filter_statementLines {α : Type} {p : List Char → Bool} {parts : Statement → List α}
    {write : List Char → α → List Char}
    (h : ∀ b ∈ m.blocks, ∀ s ∈ b.statements,
      (s.wires b.trigger.assignment).filter p = (parts s).map (write b.trigger.assignment)) :
    m.statementLines.filter p = m.blocks.flatMap fun b =>
      (b.statements.flatMap parts).map (write b.trigger.assignment) := by
  simp only [Module.statementLines, Block.statementLines, List.filter_flatMap, List.map_flatMap]
  exact List.flatMap_congr fun b hb => List.flatMap_congr fun s hs => h b hb s hs

/-- What two modules with the same text have in common. -/
theorem told_of_wire {m' : Module} (h : m.Legible) (h' : m'.Legible) (he : m.wire = m'.wire) :
    m.name = m'.name ∧ m.ports.map Port.wire = m'.ports.map Port.wire ∧
      m.statementLines = m'.statementLines := by
  rw [Module.wire_eq, Module.wire_eq] at he
  have hlines : m.lines = m'.lines := lines_inj h.unbroken h'.unbroken he
  have hname : m.lines.head? = m'.lines.head? := congrArg List.head? hlines
  have hports := congrArg (List.filter isPortLine) hlines
  have hstatements := congrArg (List.filter isStatementLine) hlines
  rw [filter_isPortLine, filter_isPortLine] at hports
  rw [filter_isStatementLine h, filter_isStatementLine h'] at hstatements
  refine ⟨String.toList_inj.mp ?_, hports, ?_⟩
  · exact List.append_cancel_left (List.append_cancel_right (Option.some.inj hname))
  · exact List.map_injective_iff.mpr (List.append_right_injective _) hstatements

end

section

variable {keyword name name' : String} {width width' : Nat} {p p' : Port}

theorem declaration_inj (h : IsIdentifier name) (h' : IsIdentifier name') (hw : 1 ≤ width)
    (hw' : 1 ≤ width') (he : declaration keyword width name = declaration keyword width' name') :
    width = width' ∧ name = name' := by
  -- a net of one bit has its name where a wider one has a bracket
  have hbracket {name : String} (h : IsIdentifier name) (rest : List Char) :
      name.toList ++ [';'] ≠ '[' :: rest := by
    obtain ⟨c, cs, hname, hc, -⟩ := h.exists_cons
    rw [hname]
    rintro ⟨⟩
    exact absurd hc (by decide)
  rw [declaration_eq, declaration_eq] at he
  have hrest := (List.cons.inj (List.append_cancel_left he)).2
  unfold rangeWire at hrest
  split_ifs at hrest with hone hone' hone'
  · exact ⟨by omega, String.toList_inj.mp (List.append_cancel_right hrest)⟩
  · exact absurd hrest (hbracket h _)
  · exact absurd hrest.symm (hbracket h' _)
  · simp only [List.cons_append, List.cons.injEq, true_and, List.append_assoc] at hrest
    obtain ⟨hhigh, hname⟩ :=
      append_cons_inj (decimal_all _) (decimal_all _) (by decide) (by decide) hrest
    have hwidth := decimal_inj hhigh
    refine ⟨by omega, String.toList_inj.mp ?_⟩
    exact List.append_cancel_right (List.append_cancel_left (List.cons.inj hname).2)

theorem portWire_inj (h : IsIdentifier p.name) (h' : IsIdentifier p'.name) (hw : 1 ≤ p.width)
    (hw' : 1 ≤ p'.width) (he : p.wire = p'.wire) : p = p' := by
  obtain ⟨direction, name, width⟩ := p
  obtain ⟨direction', name', width'⟩ := p'
  have hdirection : direction = direction' := by
    have hhead := congrArg List.head? he
    rw [head?_portWire, head?_portWire] at hhead
    cases direction <;> cases direction' <;> simp_all
  subst hdirection
  obtain ⟨hwidth, hname⟩ := declaration_inj h h' hw hw' he
  rw [show width = width' from hwidth, show name = name' from hname]

theorem map_told {α β : Type} {f : α → List Char} {tell : α → β} {xs ys : List α}
    (hf : ∀ x ∈ xs, ∀ y ∈ ys, f x = f y → tell x = tell y) (h : xs.map f = ys.map f) :
    xs.map tell = ys.map tell := by
  induction xs generalizing ys with
  | nil => rw [List.map_eq_nil_iff.mp h.symm]
  | cons x xs ih =>
    cases ys with
    | nil => cases h
    | cons y ys =>
      obtain ⟨hxy, h⟩ := List.cons.inj h
      rw [List.map_cons, List.map_cons, hf x List.mem_cons_self y List.mem_cons_self hxy,
        ih (fun x hx y hy => hf x (List.mem_cons_of_mem _ hx) y (List.mem_cons_of_mem _ hy)) h]

end

end RegMap.Verilog
