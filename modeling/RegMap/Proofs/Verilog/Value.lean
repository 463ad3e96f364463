import RegMap.Verilog.Simulation

set_option autoImplicit false

namespace RegMap.Verilog

namespace Expr

variable {w : String → Nat} {σ τ : State}

def nets : Expr → List String
  | .net name | .range name _ _ => [name]
  | .number _ | .bit _ | .unknown _ => []
  | .equal left right | .both left right | .either left right => left.nets ++ right.nets
  | .isZero operand | .invert operand | .anyBit operand | .repeated _ operand | .parens operand =>
    operand.nets
  | .choose condition yes no => condition.nets ++ yes.nets ++ no.nets

attribute [local simp] eval

theorem eval_congr {e : Expr} (h : ∀ n ∈ e.nets, σ n = τ n) (bits : Nat) :
    e.eval w σ bits = e.eval w τ bits := by
  induction e generalizing bits with
  | net name | range name high low => simp only [eval, h name (by simp [nets])]
  | number | bit | unknown => rfl
  | equal left right hl hr | both left right hl hr | either left right hl hr =>
    have hl := hl fun n hn => h n (by simp [nets, hn])
    have hr := hr fun n hn => h n (by simp [nets, hn])
    simp only [eval, hl, hr]
  | isZero operand ih | invert operand ih | anyBit operand ih | repeated count operand ih
  | parens operand ih =>
    simp only [eval, ih h]
  | choose condition yes no hc hy hn =>
    have hc := hc fun n hn => h n (by simp [nets, hn])
    have hy := hy fun n hn => h n (by simp [nets, hn])
    have hn := hn fun n hn => h n (by simp [nets, hn])
    simp only [eval, hc, hy, hn]

theorem isTrue_congr {e : Expr} (h : ∀ n ∈ e.nets, σ n = τ n) :
    e.isTrue w σ = e.isTrue w τ := by
  simp only [isTrue, eval_congr h]

theorem isOne_congr {e : Expr} (h : ∀ n ∈ e.nets, σ n = τ n) :
    e.isOne w σ = e.isOne w τ := by
  simp only [isOne, eval_congr h]

theorem eval_lt (e : Expr) (bits : Nat) : e.eval w σ bits < 2 ^ bits := by
  have hp := Nat.two_pow_pos bits
  induction e generalizing bits with
  | net | range | number | bit | equal | isZero | anyBit | repeated => exact Nat.mod_lt _ hp
  | unknown => exact hp
  | both left right hl hr => exact Nat.and_lt_two_pow _ (hr bits hp)
  | either left right hl hr => exact Nat.or_lt_two_pow (hl bits hp) (hr bits hp)
  | invert operand ih => simp only [eval]; omega
  | choose condition yes no hc hy hn =>
    simp only [eval]
    split
    · exact hn bits hp
    · exact hy bits hp
  | parens operand ih => exact ih bits hp

/-- The expression is the bit `b`, extended by zeros to any place that has a bit at all. -/
def Shows (w : String → Nat) (σ : State) (e : Expr) (b : Bool) : Prop :=
  ∀ bits, 1 ≤ bits → e.eval w σ bits = b.toNat

theorem toNat_mod_two_pow (b : Bool) {bits : Nat} (h : 1 ≤ bits) :
    b.toNat % 2 ^ bits = b.toNat := by
  have hb := Bool.toNat_lt b
  have hp := Nat.pow_le_pow_right (by decide : 0 < 2) h
  exact Nat.mod_eq_of_lt (by omega)

theorem shows_net {name : String} {b : Bool} (h : σ name = b.toNat) :
    (Expr.net name).Shows w σ b := by
  intro bits hb
  rw [eval, h, toNat_mod_two_pow b hb]

theorem shows_bit (b : Bool) : (Expr.bit b).Shows w σ b :=
  fun _ hb => toNat_mod_two_pow b hb

theorem shows_equal (left right : Expr) :
    (Expr.equal left right).Shows w σ
      (decide (left.eval w σ (max (left.size w) (right.size w)) =
        right.eval w σ (max (left.size w) (right.size w)))) :=
  fun _ hb => toNat_mod_two_pow _ hb

theorem shows_range_equal (name : String) (high low value : Nat) :
    (Expr.equal (.range name high low) (.number value)).Shows w σ
      (decide ((σ name >>> low) % 2 ^ (high + 1 - low) = value)) := by
  intro bits hb
  have hr : (σ name >>> low) % 2 ^ (high + 1 - low) <
      2 ^ max (high + 1 - low) (max 32 (value.log2 + 1)) :=
    Nat.lt_of_lt_of_le (Nat.mod_lt _ (Nat.two_pow_pos _))
      (Nat.pow_le_pow_right (by decide) (Nat.le_max_left _ _))
  have hn : value < 2 ^ max (high + 1 - low) (max 32 (value.log2 + 1)) :=
    Nat.lt_of_lt_of_le Nat.lt_log2_self (Nat.pow_le_pow_right (by decide) (by omega))
  rw [shows_equal _ _ bits hb]
  simp only [eval, size, Nat.mod_eq_of_lt hr, Nat.mod_eq_of_lt hn]

theorem shows_isZero (e : Expr) :
    (Expr.isZero e).Shows w σ (decide (e.eval w σ (e.size w) = 0)) :=
  fun _ hb => toNat_mod_two_pow _ hb

theorem shows_isZero_net {name : String} (h : σ name < 2 ^ w name) :
    (Expr.isZero (.net name)).Shows w σ (decide (σ name = 0)) := by
  have hz := shows_isZero (w := w) (σ := σ) (.net name)
  rwa [eval, size, Nat.mod_eq_of_lt h] at hz

theorem shows_anyBit (e : Expr) :
    (Expr.anyBit e).Shows w σ (decide (e.eval w σ (e.size w) ≠ 0)) :=
  fun _ hb => toNat_mod_two_pow _ hb

theorem Shows.parens {e : Expr} {b : Bool} (h : e.Shows w σ b) :
    (Expr.parens e).Shows w σ b :=
  h

theorem Shows.both {left right : Expr} {b c : Bool} (hl : left.Shows w σ b)
    (hr : right.Shows w σ c) : (Expr.both left right).Shows w σ (b && c) := by
  intro bits hb
  rw [eval, hl bits hb, hr bits hb]
  cases b <;> cases c <;> rfl

theorem Shows.either {left right : Expr} {b c : Bool} (hl : left.Shows w σ b)
    (hr : right.Shows w σ c) : (Expr.either left right).Shows w σ (b || c) := by
  intro bits hb
  rw [eval, hl bits hb, hr bits hb]
  cases b <;> cases c <;> rfl

theorem shows_foldl_either {α : Type} {f : α → Expr} {p : α → Bool} {e : Expr} {b : Bool}
    (he : e.Shows w σ b) {xs : List α} (h : ∀ x ∈ xs, (f x).Shows w σ (p x)) :
    ((xs.map f).foldl Expr.either e).Shows w σ (b || xs.any p) := by
  induction xs generalizing e b with
  | nil => simpa using he
  | cons x xs ih =>
    have hx := he.either (h x (by simp))
    simpa [Bool.or_assoc] using ih hx fun y hy => h y (by simp [hy])

theorem shows_anyOf {α : Type} {f : α → Expr} {p : α → Bool} {xs : List α}
    (h : ∀ x ∈ xs, (f x).Shows w σ (p x)) :
    (Expr.anyOf (xs.map f)).Shows w σ (xs.any p) := by
  cases xs with
  | nil => exact shows_bit false
  | cons x xs =>
    exact shows_foldl_either (h x (by simp)) fun y hy => h y (by simp [hy])

theorem Shows.isOne {e : Expr} {b : Bool} (h : e.Shows w σ b) : e.isOne w σ = b := by
  rw [Expr.isOne, h _ (Nat.le_max_left _ _)]
  cases b <;> rfl

theorem Shows.isTrue {e : Expr} {b : Bool} (h : e.Shows w σ b) (hs : 1 ≤ e.size w) :
    e.isTrue w σ = b := by
  rw [Expr.isTrue, h _ hs]
  cases b <;> rfl

theorem mem_nets_foldl_either {n : String} {e : Expr} {es : List Expr} :
    n ∈ (es.foldl Expr.either e).nets ↔ n ∈ e.nets ∨ ∃ f ∈ es, n ∈ f.nets := by
  induction es generalizing e with
  | nil => simp
  | cons f es ih => simp [ih, nets, or_assoc]

theorem mem_nets_anyOf {n : String} {es : List Expr} :
    n ∈ (Expr.anyOf es).nets ↔ ∃ e ∈ es, n ∈ e.nets := by
  cases es with
  | nil => simp [anyOf, nets]
  | cons e es => simp [anyOf, mem_nets_foldl_either]

theorem testBit_eval_net (name : String) {bits k : Nat} (h : k < bits) :
    ((Expr.net name).eval w σ bits).testBit k = (σ name).testBit k := by
  simp [Nat.testBit_mod_two_pow, h]

theorem testBit_eval_both (left right : Expr) (bits k : Nat) :
    ((Expr.both left right).eval w σ bits).testBit k =
      ((left.eval w σ bits).testBit k && (right.eval w σ bits).testBit k) :=
  Nat.testBit_and _ _ _

theorem testBit_eval_either (left right : Expr) (bits k : Nat) :
    ((Expr.either left right).eval w σ bits).testBit k =
      ((left.eval w σ bits).testBit k || (right.eval w σ bits).testBit k) :=
  Nat.testBit_or _ _ _

theorem eval_parens (e : Expr) (bits : Nat) : (Expr.parens e).eval w σ bits = e.eval w σ bits := rfl

theorem eval_choose {e yes no : Expr} {b : Bool} (h : e.Shows w σ b) (hs : 1 ≤ e.size w)
    (bits : Nat) :
    (Expr.choose e yes no).eval w σ bits = if b then yes.eval w σ bits else no.eval w σ bits := by
  rw [eval, h _ hs]
  cases b <;> rfl

theorem testBit_eval_invert (e : Expr) {bits k : Nat} (h : k < bits) :
    ((Expr.invert e).eval w σ bits).testBit k = !(e.eval w σ bits).testBit k := by
  have hlt := e.eval_lt (w := w) (σ := σ) bits
  have hs : 2 ^ bits - 1 - e.eval w σ bits = 2 ^ bits - (e.eval w σ bits + 1) := by omega
  rw [eval, hs, Nat.testBit_two_pow_sub_succ hlt]
  simp [h]

theorem testBit_repeatBits (b : Bool) (count k : Nat) :
    (repeatBits 1 b.toNat count).testBit k = (decide (k < count) && b) := by
  induction count generalizing k with
  | zero => simp [repeatBits]
  | succ count ih =>
    cases k with
    | zero => cases b <;> simp [repeatBits]
    | succ k =>
      have hb : b.toNat.testBit (k + 1) = false := by
        cases b <;> simp [Nat.testBit_succ]
      simp [repeatBits, ih, hb]

/-- One bit repeated covers as many places as it has copies. -/
theorem testBit_eval_repeated {e : Expr} {b : Bool} (he : e.Shows w σ b)
    (hs : e.size w = 1) (count : Nat) {bits k : Nat} (h : k < bits) :
    ((Expr.repeated count e).eval w σ bits).testBit k = (decide (k < count) && b) := by
  have hv := he 1 (Nat.le_refl 1)
  simp only [eval, hs, hv, Nat.testBit_mod_two_pow, testBit_repeatBits, h, decide_true,
    Bool.true_and]

end Expr

namespace Assignment

variable {w : String → Nat} {σ τ : State} {a : Assignment}

theorem eval_congr (h : ∀ n ∈ a.value.nets, σ n = τ n) : a.eval w σ = a.eval w τ := by
  simp only [eval, Expr.eval_congr h]

theorem eval_lt (a : Assignment) : a.eval w σ < 2 ^ w a.target :=
  Nat.mod_lt _ (Nat.two_pow_pos _)

theorem eval_of_shows {b : Bool} (h : a.value.Shows w σ b) (hw : 1 ≤ w a.target) :
    a.eval w σ = b.toNat := by
  rw [eval, h _ (Nat.le_trans hw (Nat.le_max_left _ _)), Expr.toNat_mod_two_pow b hw]

theorem eval_invert_of_shows {target : String} {e : Expr} {b : Bool} (h : e.Shows w σ b)
    (hw : w target = 1) : (Assignment.mk target (.invert e)).eval w σ = (!b).toNat := by
  obtain ⟨bits, hbits⟩ := Nat.exists_eq_add_of_le' (Nat.le_max_left 1 (e.size w))
  have hp := Nat.two_pow_pos bits
  simp only [eval, Expr.eval, Expr.size, hw, hbits, h _ (Nat.le_add_left 1 bits), pow_succ]
  cases b <;> simp only [Bool.toNat_false, Bool.toNat_true, Bool.not_false, Bool.not_true] <;> omega

theorem eval_net {target name : String} :
    (Assignment.mk target (.net name)).eval w σ = σ name % 2 ^ w target := by
  simp only [eval, Expr.eval]
  exact Nat.mod_mod_of_dvd _ (Nat.pow_dvd_pow 2 (Nat.le_max_left _ _))

theorem eval_number {target : String} (value : Nat) :
    (Assignment.mk target (.number value)).eval w σ = value % 2 ^ w target := by
  simp only [eval, Expr.eval]
  exact Nat.mod_mod_of_dvd _ (Nat.pow_dvd_pow 2 (Nat.le_max_left _ _))

theorem testBit_eval (a : Assignment) (k : Nat) :
    (a.eval w σ).testBit k = (decide (k < w a.target) &&
      (a.value.eval w σ (max (w a.target) (a.value.size w))).testBit k) :=
  Nat.testBit_mod_two_pow _ _ _

end Assignment

end RegMap.Verilog
