import RegMap.Proofs.Verilog.Lines

/-!
The lines of statements. An arm of a choice is indented, and a link of a chain begins with `if` or
`else`, so both can be told from the lines of other statements. Where conditions are single nets,
the line of an arm or a link tells its condition and what it assigns.
-/

set_option autoImplicit false

namespace RegMap.Verilog

open Text

def Assignment.told (a : Assignment) : String × List Char := (a.target, a.value.wire)

def lineTold {α : Type} (x : α × Assignment) : α × String × List Char := (x.1, x.2.told)

inductive Link where
  | first (condition : Expr)
  | later (condition : Expr)
  | last
  deriving DecidableEq, Repr

def Link.wire : Link → List Char
  | .first condition => "if (".toList ++ condition.wire ++ ") ".toList
  | .later condition => "else if (".toList ++ condition.wire ++ ") ".toList
  | .last => "else ".toList

def linkWire (operator : List Char) (x : Link × Assignment) : List Char :=
  x.1.wire ++ x.2.wire operator

namespace Statement

/-- The arms of a choice; the last one is written like an arm for a net called `default`. -/
def arms : Statement → List (Expr × Assignment)
  | .select arms otherwise => arms ++ [(.net "default", otherwise)]
  | _ => []

def links : Statement → List (Link × Assignment)
  | .chain first more otherwise =>
    (.first first.1, first.2) :: (more.map fun arm => (.later arm.1, arm.2)) ++
      otherwise.toList.map fun a => (.last, a)
  | _ => []

end Statement

def isArmLine (l : List Char) : Bool := l.head? == some ' '

def firstWord (l : List Char) : List Char := l.takeWhile (· != ' ')

def isLinkLine (l : List Char) : Bool := firstWord l == "if".toList || firstWord l == "else".toList

section

variable {operator rest : List Char} {a a' : Assignment} {s : Statement} {name name' : String}

theorem IsIdentifier.all_ne_space (h : IsIdentifier name) : name.toList.all (· != ' ') := by
  refine List.all_eq_true.mpr fun c hc => bne_iff_ne.mpr ?_
  rintro rfl
  exact absurd (List.all_eq_true.mp h.2 _ hc) (by decide)

theorem wire_eq_space (a : Assignment) (operator : List Char) :
    a.wire (' ' :: operator) =
      a.target.toList ++ ' ' :: (operator ++ (a.value.wire ++ [';'])) := by
  simp [Assignment.wire]

theorem wire_told (h : IsIdentifier a.target) (h' : IsIdentifier a'.target)
    (he : a.wire (' ' :: operator) = a'.wire (' ' :: operator)) : a.told = a'.told := by
  rw [wire_eq_space, wire_eq_space] at he
  obtain ⟨htarget, hvalue⟩ := h.append_inj h' (by decide) (by decide) he
  have hvalue := List.append_cancel_left (List.cons.inj hvalue).2
  rw [Assignment.told, Assignment.told, htarget, List.append_cancel_right hvalue]

theorem firstWord_wire (h : IsIdentifier a.target) :
    firstWord (a.wire (' ' :: operator)) = a.target.toList := by
  rw [wire_eq_space]
  exact takeWhile_run (List.all_eq_true.mp h.all_ne_space) rfl

theorem isArmLine_wire (h : IsIdentifier a.target) : isArmLine (a.wire operator) = false := by
  obtain ⟨c, cs, hname, hc, -⟩ := h.exists_cons
  have hspace : c ≠ ' ' := by
    rintro rfl
    exact absurd hc (by decide)
  simp [isArmLine, Assignment.wire, hname, hspace]

theorem filter_isArmLine (h : ∀ n ∈ s.targets, IsIdentifier n) :
    (s.wires operator).filter isArmLine = s.arms.map (armWire operator) := by
  cases s with
  | assign a =>
    have ha : isArmLine (a.wire operator) = false :=
      isArmLine_wire (h a.target (List.mem_singleton_self a.target))
    simp [Statement.wires, Statement.arms, ha]
  | select arms otherwise =>
    have harms : (arms.map (armWire operator)).filter isArmLine = arms.map (armWire operator) :=
      List.filter_eq_self.mpr (List.forall_mem_map.mpr fun _ _ => rfl)
    have hcase : isArmLine "case (1'b1)".toList = false := rfl
    have hdefault : isArmLine ("  default : ".toList ++ otherwise.wire operator) = true := rfl
    have hend : isArmLine "endcase".toList = false := rfl
    simp only [Statement.wires, Statement.arms, List.cons_append, List.filter_cons, hcase,
      List.filter_append, harms, hdefault, hend, List.filter_nil, List.map_append, List.map_cons,
      List.map_nil]
    rfl
  | chain first more otherwise =>
    refine List.filter_eq_nil_iff.mpr ?_
    simp only [Statement.wires, List.cons_append, List.mem_cons, List.mem_append, List.mem_map]
    rintro l (rfl | ⟨arm, -, rfl⟩ | ⟨a, -, rfl⟩) <;> exact Bool.false_ne_true

theorem linkWire_first (condition : Expr) (a : Assignment) :
    linkWire operator (.first condition, a) =
      "if (".toList ++ (condition.wire ++ (") ".toList ++ a.wire operator)) := by
  change "if (".toList ++ condition.wire ++ ") ".toList ++ a.wire operator = _
  simp only [List.append_assoc]

theorem linkWire_later (condition : Expr) (a : Assignment) :
    linkWire operator (.later condition, a) = "else ".toList ++
      ("if (".toList ++ (condition.wire ++ (") ".toList ++ a.wire operator))) := by
  change "else if (".toList ++ condition.wire ++ ") ".toList ++ a.wire operator = _
  simp only [List.append_assoc]
  rfl

theorem linkWire_last (a : Assignment) :
    linkWire operator (.last, a) = "else ".toList ++ a.wire operator := rfl

theorem linkWire_links (first : Expr × Assignment) (more : List (Expr × Assignment))
    (otherwise : Option Assignment) : (Statement.chain first more otherwise).wires operator =
      (Statement.chain first more otherwise).links.map (linkWire operator) := by
  simp only [Statement.wires, Statement.links, List.map_append, List.map_cons, List.map_map,
    Function.comp_def, guardWire_eq, linkWire_first, linkWire_later, linkWire_last]

theorem isLinkLine_linkWire (x : Link × Assignment) : isLinkLine (linkWire operator x) = true := by
  obtain ⟨link, a⟩ := x
  cases link <;> rfl

theorem filter_isLinkLine
    (h : ∀ a, s = .assign a → IsIdentifier a.target ∧ a.target ≠ "if" ∧ a.target ≠ "else") :
    (s.wires (' ' :: operator)).filter isLinkLine = s.links.map (linkWire (' ' :: operator)) := by
  cases s with
  | assign a =>
    obtain ⟨ha, hif, helse⟩ := h a rfl
    have hline : isLinkLine (a.wire (' ' :: operator)) = false := by
      rw [isLinkLine, firstWord_wire ha, Bool.or_eq_false_iff]
      exact ⟨beq_eq_false_iff_ne.mpr (mt String.toList_inj.mp hif),
        beq_eq_false_iff_ne.mpr (mt String.toList_inj.mp helse)⟩
    simp [Statement.wires, Statement.links, hline]
  | select arms otherwise =>
    refine List.filter_eq_nil_iff.mpr ?_
    simp only [Statement.wires, List.cons_append, List.mem_cons, List.mem_append, List.mem_map,
      List.not_mem_nil, or_false]
    rintro l (rfl | ⟨arm, -, rfl⟩ | rfl | rfl) <;> exact Bool.false_ne_true
  | chain first more otherwise =>
    rw [linkWire_links]
    exact List.filter_eq_self.mpr (List.forall_mem_map.mpr fun x _ => isLinkLine_linkWire x)

theorem armWire_told {name name' : String} (h : IsIdentifier name) (h' : IsIdentifier name')
    (ha : IsIdentifier a.target) (ha' : IsIdentifier a'.target)
    (he : armWire (' ' :: operator) (.net name, a) = armWire (' ' :: operator) (.net name', a')) :
    name = name' ∧ a.told = a'.told := by
  simp only [armWire, Expr.wire, List.append_assoc] at he
  obtain ⟨hname, hrest⟩ :=
    h.append_inj h' (by decide) (by decide) (List.append_cancel_left he)
  exact ⟨hname, wire_told ha ha' (List.append_cancel_left (List.cons.inj hrest).2)⟩

def Link.Plain : Link → Prop
  | .first condition | .later condition => ∃ name, condition = .net name ∧ IsIdentifier name
  | .last => True

theorem condition_told (h : IsIdentifier name) (h' : IsIdentifier name')
    (ha : IsIdentifier a.target) (ha' : IsIdentifier a'.target)
    (he : name.toList ++ (") ".toList ++ a.wire (' ' :: operator)) =
      name'.toList ++ (") ".toList ++ a'.wire (' ' :: operator))) :
    name = name' ∧ a.told = a'.told := by
  obtain ⟨hname, hrest⟩ := h.append_inj h' (by decide) (by decide) he
  have hwire : ") ".toList ++ a.wire (' ' :: operator) = ") ".toList ++ a'.wire (' ' :: operator) :=
    hrest
  exact ⟨hname, wire_told ha ha' (List.append_cancel_left hwire)⟩

/-- No target goes on as the `if` of a link does. -/
theorem if_ne_wire (ha : IsIdentifier a.target) (rest : List Char) :
    "if (".toList ++ rest ≠ a.wire (' ' :: '<' :: operator) := by
  intro he
  have hkeyword : IsIdentifier "if" := by decide
  rw [wire_eq_space] at he
  obtain ⟨-, hbehind⟩ :=
    hkeyword.append_inj (c := ' ') (t := '(' :: rest) ha (by decide) (by decide) he
  exact absurd (List.cons.inj (List.cons.inj hbehind).2).1 (by decide)

theorem linkWire_told {x y : Link × Assignment} (hx : x.1.Plain) (hy : y.1.Plain)
    (hxt : IsIdentifier x.2.target) (hyt : IsIdentifier y.2.target)
    (he : linkWire (' ' :: '<' :: operator) x = linkWire (' ' :: '<' :: operator) y) :
    x.1 = y.1 ∧ x.2.told = y.2.told := by
  obtain ⟨link, a⟩ := x
  obtain ⟨link', a'⟩ := y
  cases link with
  | first condition =>
    obtain ⟨name, rfl, hname⟩ := hx
    rw [linkWire_first] at he
    cases link' with
    | first condition =>
      obtain ⟨name', rfl, hname'⟩ := hy
      rw [linkWire_first] at he
      obtain ⟨rfl, htold⟩ := condition_told hname hname' hxt hyt (List.append_cancel_left he)
      exact ⟨rfl, htold⟩
    | later condition => exact absurd (List.cons.inj he).1 (by decide)
    | last => exact absurd (List.cons.inj he).1 (by decide)
  | later condition =>
    obtain ⟨name, rfl, hname⟩ := hx
    rw [linkWire_later] at he
    cases link' with
    | first condition => exact absurd (List.cons.inj he).1 (by decide)
    | later condition =>
      obtain ⟨name', rfl, hname'⟩ := hy
      rw [linkWire_later] at he
      obtain ⟨rfl, htold⟩ := condition_told hname hname' hxt hyt
        (List.append_cancel_left (List.append_cancel_left he))
      exact ⟨rfl, htold⟩
    | last => exact absurd (List.append_cancel_left he) (if_ne_wire hyt _)
  | last =>
    rw [linkWire_last] at he
    cases link' with
    | first condition => exact absurd (List.cons.inj he).1 (by decide)
    | later condition =>
      rw [linkWire_later] at he
      exact absurd (List.append_cancel_left he).symm (if_ne_wire hxt _)
    | last => exact ⟨rfl, wire_told hxt hyt (List.append_cancel_left he)⟩

end

end RegMap.Verilog
