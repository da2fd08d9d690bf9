import Mathlib

/-!
# Exact rationals with the infinities and NaN of IEEE arithmetic

`ExtRat` is the arithmetic of a floating-point type without its rounding: a value is an exact
rational, an infinity or NaN, and `+`, `*`, `/` and `<` treat the special values as IEEE 754 does.
There is one zero, the positive one, so `p / 0` is `+∞` for `p > 0`, `-∞` for `p < 0` and NaN for
`p = 0`. Every comparison with NaN is false.

The `*_fin` lemmas compute an operation on finite operands, the others the special cases.
`PosLe x y` compares two values by the positive numbers below them, as a threshold for a draw does.
-/

/-- A rational, an infinity with its sign, or NaN. -/
inductive ExtRat where
  | fin (q : ℚ)
  | inf (negative : Bool)
  | nan
  deriving DecidableEq, Repr

namespace ExtRat

instance : Coe ℚ ExtRat := ⟨fin⟩

instance : Zero ExtRat := ⟨fin 0⟩

instance : One ExtRat := ⟨fin 1⟩

instance : Add ExtRat where
  add
    | fin p, fin q => fin (p + q)
    | inf s, inf t => if s = t then inf s else nan
    | inf s, fin _ => inf s
    | fin _, inf t => inf t
    | nan, _ => nan
    | _, nan => nan

instance : Mul ExtRat where
  mul
    | fin p, fin q => fin (p * q)
    | inf s, inf t => inf (s != t)
    | inf s, fin q => if q = 0 then nan else inf (s != decide (q < 0))
    | fin p, inf t => if p = 0 then nan else inf (decide (p < 0) != t)
    | nan, _ => nan
    | _, nan => nan

instance : Div ExtRat where
  div
    | fin p, fin q => if q = 0 then (if p = 0 then nan else inf (decide (p < 0))) else fin (p / q)
    | fin _, inf _ => fin 0
    | inf s, fin q => inf (s != decide (q < 0))
    | inf _, inf _ => nan
    | nan, _ => nan
    | _, nan => nan

/-- `x < y`; false if an operand is NaN. -/
def lt : ExtRat → ExtRat → Bool
  | fin p, fin q => decide (p < q)
  | fin _, inf t => !t
  | inf s, fin _ => s
  | inf s, inf t => s && !t
  | nan, _ => false
  | _, nan => false

instance : LT ExtRat := ⟨fun x y => lt x y = true⟩

instance (x y : ExtRat) : Decidable (x < y) := inferInstanceAs (Decidable (lt x y = true))

theorem one_def : (1 : ExtRat) = fin 1 := rfl

@[simp] theorem fin_inj {p q : ℚ} : fin p = fin q ↔ p = q := ⟨fun h => by cases h; rfl, congrArg fin⟩

@[simp] theorem fin_add_fin (p q : ℚ) : fin p + fin q = fin (p + q) := rfl

@[simp] theorem fin_mul_fin (p q : ℚ) : fin p * fin q = fin (p * q) := rfl

theorem fin_div_fin (p : ℚ) {q : ℚ} (hq : q ≠ 0) : fin p / fin q = fin (p / q) := if_neg hq

theorem fin_div_zero {p : ℚ} (hp : 0 < p) : fin p / fin 0 = inf false := by
  show (if (0 : ℚ) = 0 then (if p = 0 then nan else inf (decide (p < 0))) else fin (p / 0)) = _
  rw [if_pos rfl, if_neg hp.ne', decide_eq_false hp.le.not_gt]

@[simp] theorem fin_lt_fin {p q : ℚ} : fin p < fin q ↔ p < q :=
  show decide (p < q) = true ↔ _ from decide_eq_true_iff

@[simp] theorem not_inf_lt_fin (q : ℚ) : ¬ inf false < fin q := Bool.false_ne_true

@[simp] theorem fin_lt_inf (q : ℚ) : fin q < inf false := show (!false) = true from rfl

@[simp] theorem not_fin_lt_nan (q : ℚ) : ¬ fin q < nan := Bool.false_ne_true

theorem zero_mul_inf (s : Bool) : fin 0 * inf s = nan := if_pos rfl

theorem pos_mul_inf {p : ℚ} (hp : 0 < p) : fin p * inf false = inf false := by
  show (if p = 0 then nan else inf (decide (p < 0) != false)) = _
  rw [if_neg hp.ne', decide_eq_false hp.le.not_gt]
  rfl

/-- Every positive number below `x` is below `y`. -/
def PosLe (x y : ExtRat) : Prop := ∀ u : ℚ, 0 < u → fin u < x → fin u < y

theorem posLe_fin {p q : ℚ} (h : p ≤ q) : PosLe (fin p) (fin q) := fun _ _ hu =>
  fin_lt_fin.mpr ((fin_lt_fin.mp hu).trans_le h)

/-- No positive number is below zero. -/
theorem zero_posLe (y : ExtRat) : PosLe (fin 0) y := fun _ hpos hu =>
  absurd (fin_lt_fin.mp hu) hpos.not_gt

theorem posLe_inf (x : ExtRat) : PosLe x (inf false) := fun u _ _ => fin_lt_inf u

/-- Nothing is below NaN. -/
theorem nan_posLe (y : ExtRat) : PosLe nan y := fun u _ hu => absurd hu (not_fin_lt_nan u)

/-- A defined value in the closed interval from `a` to `b`: finite, hence neither NaN nor
infinite. -/
def InIcc (x : ExtRat) (a b : ℚ) : Prop := ∃ q, x = fin q ∧ a ≤ q ∧ q ≤ b

@[simp] theorem inIcc_fin {q a b : ℚ} : InIcc (fin q) a b ↔ a ≤ q ∧ q ≤ b := by
  constructor
  · rintro ⟨_, h, hq⟩
    cases h
    exact hq
  · exact fun h => ⟨q, rfl, h⟩

example : fin 1 / fin 0 * fin 0 = nan := by decide +kernel

end ExtRat
