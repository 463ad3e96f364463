import Mathlib
import RegMap.Proofs.Text
import RegMap.Proofs.Verilog.Wiring

/-!
The characters of a module's text. A name or a number ends where a character stands that neither can
hold, so it can be told from the text behind it; no expression holds what ends an assignment or a
line.
-/

set_option autoImplicit false

namespace RegMap

open Text

namespace Text

section

variable {p : Char → Bool} {s s' t t' : List Char} {c c' : Char}

theorem append_cons_inj (hs : s.all p) (hs' : s'.all p) (hc : p c = false) (hc' : p c' = false)
    (h : s ++ c :: t = s' ++ c' :: t') : s = s' ∧ c :: t = c' :: t' := by
  have hrun : s = s' := by
    rw [← takeWhile_run (List.all_eq_true.mp hs) hc, h, takeWhile_run (List.all_eq_true.mp hs') hc']
  subst hrun
  exact ⟨rfl, List.append_cancel_left h⟩

end

theorem decimal_inj {m n : Nat} (h : decimal m = decimal n) : m = n :=
  (denotes_decimal m).unique (h ▸ denotes_decimal n) (by decide)

def isWordChar (c : Char) : Bool := c.isAlphanum || c == '_'

theorem decimal_all (n : Nat) : (decimal n).all isWordChar := by
  refine List.all_eq_true.mpr fun c hc => ?_
  simp [isWordChar, Char.isAlphanum, (denotes_decimal n).isDigit c hc]

end Text

namespace Verilog

/-- Letters, digits and underscores, with no digit first. -/
def IsIdentifier (name : String) : Prop :=
  name.toList.head?.any (fun c => c.isAlpha || c == '_') ∧ name.toList.all isWordChar

instance (name : String) : Decidable (IsIdentifier name) :=
  inferInstanceAs (Decidable (_ ∧ _))

namespace IsIdentifier

variable {name name' suffix : String}

theorem exists_cons (h : IsIdentifier name) :
    ∃ c cs, name.toList = c :: cs ∧ isWordChar c ∧ cs.all isWordChar := by
  obtain ⟨hhead, hall⟩ := h
  cases hname : name.toList with
  | nil => simp [hname] at hhead
  | cons c cs =>
    rw [hname, List.all_cons, Bool.and_eq_true] at hall
    exact ⟨c, cs, rfl, hall⟩

theorem append (h : IsIdentifier name) (hs : suffix.toList.all isWordChar) :
    IsIdentifier (name ++ suffix) := by
  obtain ⟨c, cs, hname, -⟩ := h.exists_cons
  have hhead := h.1
  refine ⟨?_, ?_⟩
  · rw [String.toList_append, hname]
    rwa [hname] at hhead
  · rw [String.toList_append, List.all_append, h.2, hs]
    rfl

theorem append_inj (h : IsIdentifier name) (h' : IsIdentifier name') {c c' : Char}
    {t t' : List Char} (hc : isWordChar c = false) (hc' : isWordChar c' = false)
    (he : name.toList ++ c :: t = name'.toList ++ c' :: t') : name = name' ∧ c :: t = c' :: t' := by
  obtain ⟨hname, hrest⟩ := append_cons_inj h.2 h'.2 hc hc' he
  exact ⟨String.toList_inj.mp hname, hrest⟩

end IsIdentifier

def isExprChar (c : Char) : Bool := isWordChar c || " []:'=&|!~?()\x7b\x7d".toList.contains c

theorem isExprChar_of_isWordChar {s : List Char} (h : s.all isWordChar) : s.all isExprChar :=
  List.all_eq_true.mpr fun c hc => by simp [isExprChar, List.all_eq_true.mp h c hc]

theorem Expr.wire_all {e : Expr} (h : ∀ n ∈ e.nets, IsIdentifier n) : e.wire.all isExprChar := by
  have hnet : ∀ name, IsIdentifier name → name.toList.all isExprChar := fun name hname =>
    isExprChar_of_isWordChar hname.2
  have hdecimal : ∀ n, (decimal n).all isExprChar := fun n =>
    isExprChar_of_isWordChar (decimal_all n)
  induction e with
  | net name => exact hnet name (h name (List.mem_singleton_self name))
  | range name high low =>
    have hname := hnet name (h name (List.mem_singleton_self name))
    simp [wire, hname, hdecimal, isExprChar]
  | number value => exact hdecimal value
  | bit value => cases value <;> rfl
  | unknown width =>
    rw [wire, List.all_append, hdecimal]
    rfl
  | equal left right ihl ihr | both left right ihl ihr | either left right ihl ihr =>
    have hl := ihl fun n hn => h n (List.mem_append_left _ hn)
    have hr := ihr fun n hn => h n (List.mem_append_right _ hn)
    rw [wire, List.all_append, List.all_append, hl, hr]
    rfl
  | isZero operand ih | invert operand ih | anyBit operand ih =>
    rw [wire, List.all_cons, ih h]
    rfl
  | choose condition yes no ihc ihy ihn =>
    have hc := ihc fun n hn => h n (by simp [nets, hn])
    have hy := ihy fun n hn => h n (by simp [nets, hn])
    have hn := ihn fun n hn => h n (by simp [nets, hn])
    simp only [wire, List.all_append, hc, hy, hn]
    rfl
  | repeated count operand ih =>
    simp only [wire, List.all_append, List.all_cons, ih h, hdecimal]
    rfl
  | parens inner ih =>
    simp only [wire, List.all_append, List.all_cons, ih h]
    rfl

end Verilog

end RegMap
