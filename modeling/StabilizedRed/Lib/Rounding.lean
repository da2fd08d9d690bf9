import Mathlib

/-!
# Rounding to nearest, on exact rationals

`IsFloat p x` says that `x` has a significand of at most `p` bits; the exponent has no limits, so
there is neither overflow nor underflow. A `Rounding p` gives a nearest float to every number, with
any rule for ties (`Rounding.nearestEven` is one).

* What is a float is not rounded (`Rounding.eq_self`), and rounding is monotone (`Rounding.mono`).
* `Rounding.lt_of_midpoint`: what lies below the midpoint of a float and `y` is rounded below `y`.
* `Rounding.truncate_div`: so the rounded quotient of two integers of at most `p` bits, truncated,
  is the integer quotient.
-/

/-- `x` has a significand of at most `p` bits. -/
def IsFloat (p : ℕ) (x : ℚ) : Prop := ∃ k e : ℤ, |k| ≤ 2 ^ p ∧ x = k * 2 ^ e

namespace IsFloat

variable {p : ℕ} {x : ℚ}

theorem intCast {k : ℤ} (h : |k| ≤ 2 ^ p) : IsFloat p k := ⟨k, 0, h, by simp⟩

theorem div_two_pow {k : ℤ} (h : |k| ≤ 2 ^ p) (n : ℕ) : IsFloat p (k / 2 ^ n) :=
  ⟨k, -n, h, by rw [zpow_neg, zpow_natCast, div_eq_mul_inv]⟩

theorem zero (p : ℕ) : IsFloat p 0 := ⟨0, 0, by simp, by simp⟩

theorem natCast {n : ℕ} (h : n ≤ 2 ^ p) : IsFloat p n :=
  ⟨n, 0, by rw [Nat.abs_cast]; exact_mod_cast h, by simp⟩

/-- A float from `2 ^ p` on is an integer. -/
theorem exists_int_of_le (h : IsFloat p x) (hx : 2 ^ p ≤ x) : ∃ m : ℤ, x = m := by
  obtain ⟨k, e, hk, rfl⟩ := h
  have hk' : (k : ℚ) ≤ 2 ^ p := by exact_mod_cast (le_abs_self k).trans hk
  have he : 0 ≤ e := by
    by_contra hneg
    have hlt : (2 : ℚ) ^ e < 1 := zpow_lt_one_of_neg₀ one_lt_two (not_le.mp hneg)
    have hpow : (0 : ℚ) < 2 ^ p := pow_pos two_pos p
    have hmul := mul_le_mul_of_nonneg_right hk' (zpow_nonneg zero_le_two e)
    have hless := mul_lt_mul_of_pos_left hlt hpow
    linarith
  obtain ⟨j, rfl⟩ := Int.eq_ofNat_of_zero_le he
  exact ⟨k * 2 ^ j, by push_cast; rw [zpow_natCast]⟩

theorem neg (h : IsFloat p x) : IsFloat p (-x) := by
  obtain ⟨k, e, hk, rfl⟩ := h
  exact ⟨-k, e, by rwa [abs_neg], by push_cast; ring⟩

end IsFloat

/-- A nearest float for every number. -/
structure Rounding (p : ℕ) where
  round : ℚ → ℚ
  isFloat (x : ℚ) : IsFloat p (round x)
  nearest (x : ℚ) {d : ℚ} : IsFloat p d → |round x - x| ≤ |d - x|

/-- A conversion to an integer drops the fraction. -/
def truncate (x : ℚ) : ℤ := if 0 ≤ x then ⌊x⌋ else ⌈x⌉

theorem truncate_of_nonneg {x : ℚ} (h : 0 ≤ x) : truncate x = ⌊x⌋ := if_pos h

theorem truncate_neg (x : ℚ) : truncate (-x) = -truncate x := by
  unfold truncate
  rcases lt_trichotomy x 0 with h | rfl | h
  · rw [if_pos (by linarith), if_neg (by linarith), Int.floor_neg]
  · simp
  · rw [if_neg (by linarith), if_pos h.le, Int.ceil_neg]

/-- A conversion to the unsigned integers of `w` bits: it truncates what they have room for, and may
do anything with the rest. -/
structure UnsignedCast (w : ℕ) where
  cast : ℚ → BitVec w
  toNat_cast {x : ℚ} {n : ℕ} : truncate x = n → n < 2 ^ w → (cast x).toNat = n

/-- The conversion that wraps. -/
def UnsignedCast.wrapping (w : ℕ) : UnsignedCast w where
  cast x := BitVec.ofInt w (truncate x)
  toNat_cast {x n} h hlt := by
    rw [h, BitVec.ofInt_natCast, BitVec.toNat_ofNat, Nat.mod_eq_of_lt hlt]

theorem UnsignedCast.toNat_natCast {w n : ℕ} (c : UnsignedCast w) (hn : n < 2 ^ w) :
    (c.cast n).toNat = n := by
  refine c.toNat_cast ?_ hn
  rw [truncate_of_nonneg (Nat.cast_nonneg n)]
  exact Int.floor_natCast n

namespace Rounding

variable {p : ℕ} (fl : Rounding p) {x y d : ℚ}

theorem eq_self (h : IsFloat p x) : fl.round x = x := by
  have hn := fl.nearest x h
  rw [sub_self, abs_zero] at hn
  exact sub_eq_zero.mp (abs_nonpos_iff.mp hn)

/-- Integers of `p` bits are not rounded. -/
theorem intCast {k : ℤ} (h : |k| ≤ 2 ^ p) : fl.round k = k := fl.eq_self (.intCast h)

theorem round_natCast {n : ℕ} (h : n ≤ 2 ^ p) : fl.round n = n := fl.eq_self (.natCast h)

/-- What is at least as near to the greater of two numbers is at or above their midpoint. -/
theorem midpoint_le {a b : ℚ} (hba : b < a) (h : |a - x| ≤ |b - x|) : a + b ≤ 2 * x := by
  have hsq := sq_le_sq.mpr h
  have hprod : (a - b) * (a + b - 2 * x) ≤ 0 := by linarith
  have hle := nonpos_of_mul_nonpos_right hprod (sub_pos.mpr hba)
  linarith

theorem mono : Monotone fl.round := by
  intro x y hxy
  rcases hxy.eq_or_lt with rfl | hlt
  · exact le_rfl
  by_contra hgt
  rw [not_le] at hgt
  have hx := midpoint_le hgt (fl.nearest x (fl.isFloat y))
  have hy := midpoint_le (x := -y) (neg_lt_neg hgt) (by
    have hn := fl.nearest y (fl.isFloat x)
    rwa [← abs_neg, ← abs_neg (fl.round x - y), neg_sub', neg_sub'] at hn)
  linarith

theorem le_round (hd : IsFloat p d) (h : d ≤ x) : d ≤ fl.round x := by
  rw [← fl.eq_self hd]
  exact fl.mono h

theorem round_le (hd : IsFloat p d) (h : x ≤ d) : fl.round x ≤ d := by
  rw [← fl.eq_self hd]
  exact fl.mono h

/-- Rounding and truncating leaves exactly the floats among the natural numbers: from `2 ^ p` on all
floats are integers. -/
theorem truncate_round_eq_iff (n : ℕ) : truncate (fl.round n) = n ↔ IsFloat p n := by
  constructor
  · intro h
    rcases Nat.le_total n (2 ^ p) with hle | hle
    · exact .natCast hle
    · have hpow : IsFloat p (2 ^ p) := by
        have hn := IsFloat.natCast (le_refl (2 ^ p))
        rwa [Nat.cast_pow, Nat.cast_ofNat] at hn
      have hround : 2 ^ p ≤ fl.round n := fl.le_round hpow (by exact_mod_cast hle)
      have hfloat := fl.isFloat n
      obtain ⟨m, hm⟩ := hfloat.exists_int_of_le hround
      have h0 : (0 : ℚ) ≤ m := hm ▸ (pow_nonneg zero_le_two p).trans hround
      rw [hm, truncate_of_nonneg h0, Int.floor_intCast] at h
      rwa [hm, h, Int.cast_natCast] at hfloat
  · intro h
    rw [fl.eq_self h, truncate_of_nonneg (Nat.cast_nonneg n)]
    exact Int.floor_natCast n

/-- What lies below the midpoint of a float and `y` is rounded below `y`. -/
theorem lt_of_midpoint (hd : IsFloat p d) (hdy : d < y) (h : 2 * x < d + y) : fl.round x < y := by
  by_contra hge
  rw [not_lt] at hge
  have hn := fl.nearest x hd
  have hxy : x < y := by linarith
  rw [abs_of_pos (by linarith)] at hn
  rcases abs_cases (d - x) with ⟨he, -⟩ | ⟨he, -⟩ <;> rw [he] at hn <;> linarith

/-- What is nearer to the greatest float below a power of two stays below this power. -/
theorem lt_two_pow {n e : ℕ} (h : n + 2 ^ e < 2 ^ (p + (e + 1))) :
    fl.round n < (2 : ℚ) ^ (p + (e + 1)) := by
  have hd : IsFloat p ((2 ^ p - 1) * 2 ^ (e + 1)) := by
    refine ⟨2 ^ p - 1, (e + 1 : ℕ), ?_, by rw [zpow_natCast]; push_cast; rfl⟩
    have h1 : (1 : ℤ) ≤ 2 ^ p := one_le_pow₀ one_le_two
    rw [abs_of_nonneg (by linarith)]
    linarith
  have hn : (n : ℚ) + 2 ^ e < 2 ^ (p + (e + 1)) := by exact_mod_cast h
  have hpow : (2 : ℚ) ^ (p + (e + 1)) = 2 ^ p * 2 ^ e * 2 := by rw [pow_add, pow_succ, mul_assoc]
  have hpos : (0 : ℚ) < 2 ^ e := pow_pos two_pos e
  rw [hpow] at hn ⊢
  refine fl.lt_of_midpoint hd ?_ ?_ <;> rw [pow_succ] <;> linarith

/-- Rounding and casting leaves exactly the floats, where a nearest float has room. -/
theorem toNat_cast_round_iff {w e n : ℕ} (c : UnsignedCast w) (hw : w = p + (e + 1))
    (h : n + 2 ^ e < 2 ^ w) : (c.cast (fl.round n)).toNat = n ↔ IsFloat p n := by
  subst hw
  have hnonneg : (0 : ℚ) ≤ fl.round n := fl.le_round (.zero p) (Nat.cast_nonneg n)
  obtain ⟨m, hm⟩ := Int.eq_ofNat_of_zero_le (Int.floor_nonneg.mpr hnonneg)
  have htrunc : truncate (fl.round n) = m := (truncate_of_nonneg hnonneg).trans hm
  have hlt : m < 2 ^ (p + (e + 1)) := by
    have hle : (m : ℚ) ≤ fl.round n := by
      have hfloor := Int.floor_le (fl.round n)
      rwa [hm, Int.cast_natCast] at hfloor
    exact_mod_cast hle.trans_lt (fl.lt_two_pow h)
  rw [c.toNat_cast htrunc hlt, ← fl.truncate_round_eq_iff, htrunc, Nat.cast_inj]

/-- What lies below the integer `m` by a small part of it is rounded below it. -/
theorem round_le_sub {m : ℤ} {g : ℕ} (hm : 1 ≤ m) (hg : g < p) (hmg : m < 2 ^ (g + 1))
    (h : x ≤ m - m / 2 ^ g) : ∃ k : ℕ, fl.round x ≤ m - 1 / 2 ^ k := by
  obtain ⟨r, hr, hr'⟩ := exists_nat_pow_near hm (one_lt_two (α := ℤ))
  have hrg : r ≤ g :=
    Nat.lt_succ_iff.mp ((pow_lt_pow_iff_right₀ one_lt_two).mp (hr.trans_lt hmg))
  have hd : IsFloat p (((m * 2 ^ (g - r) - 1 : ℤ) : ℚ) / 2 ^ (g - r)) := by
    refine .div_two_pow ?_ (g - r)
    have h1 : (1 : ℤ) ≤ 2 ^ (g - r) := one_le_pow₀ one_le_two
    have hlt : m * 2 ^ (g - r) < 2 ^ (r + 1) * 2 ^ (g - r) :=
      mul_lt_mul_of_pos_right hr' (by linarith)
    have hp : (2 : ℤ) ^ (r + 1) * 2 ^ (g - r) ≤ 2 ^ p := by
      rw [← pow_add]
      exact pow_le_pow_right₀ one_le_two (by omega)
    rw [abs_of_nonneg (by nlinarith)]
    linarith
  have heq : ((m * 2 ^ (g - r) - 1 : ℤ) : ℚ) / 2 ^ (g - r) = m - 1 / 2 ^ (g - r) := by
    push_cast
    field_simp
  rw [heq] at hd
  refine ⟨g - r, fl.round_le hd (h.trans ?_)⟩
  have hle : (1 : ℚ) / 2 ^ (g - r) ≤ m / 2 ^ g := by
    rw [div_le_div_iff₀ (by positivity) (by positivity), one_mul]
    calc (2 : ℚ) ^ g = 2 ^ r * 2 ^ (g - r) := by rw [← pow_add, Nat.add_sub_cancel' hrg]
      _ ≤ m * 2 ^ (g - r) := mul_le_mul_of_nonneg_right (by exact_mod_cast hr) (by positivity)
  linarith

/-- The rounding on the other side of zero. -/
def neg : Rounding p where
  round x := -fl.round (-x)
  isFloat x := (fl.isFloat (-x)).neg
  nearest x {d} hd := by
    have hn := fl.nearest (-x) hd.neg
    rwa [← abs_neg, ← abs_neg (d - x), neg_sub', neg_sub', neg_neg]

/-! ## Arithmetic -/

/-- Floating-point addition. -/
def add (x y : ℚ) : ℚ := fl.round (x + y)

/-- Floating-point subtraction. -/
def sub (x y : ℚ) : ℚ := fl.round (x - y)

/-- Floating-point multiplication. -/
def mul (x y : ℚ) : ℚ := fl.round (x * y)

/-- Floating-point division. -/
def div (x y : ℚ) : ℚ := fl.round (x / y)

section Exact

variable {a b : ℤ}

theorem add_intCast (h : |a + b| ≤ 2 ^ p) : fl.add a b = (a + b : ℤ) := by
  unfold add
  rw [← Int.cast_add, fl.intCast h]

theorem sub_intCast (h : |a - b| ≤ 2 ^ p) : fl.sub a b = (a - b : ℤ) := by
  unfold sub
  rw [← Int.cast_sub, fl.intCast h]

theorem mul_intCast (h : |a * b| ≤ 2 ^ p) : fl.mul a b = (a * b : ℤ) := by
  unfold mul
  rw [← Int.cast_mul, fl.intCast h]

end Exact

/-- The rounded quotient of two integers, the dividend not negative. It stays below the next
integer: the quotient is `1 / m` away from it at least. -/
theorem floor_div {v m : ℤ} (hv : 0 ≤ v) (hvp : v < 2 ^ p) (hm : 0 < m) (hmp : m < 2 ^ p) :
    ⌊fl.div v m⌋ = v / m := by
  obtain ⟨r, hr, hr'⟩ := exists_nat_pow_near (show 1 ≤ m from hm) (one_lt_two (α := ℤ))
  have hq : 0 ≤ v / m := Int.ediv_nonneg hv hm.le
  have h2 : (1 : ℤ) ≤ 2 ^ r := one_le_pow₀ one_le_two
  have hle : (v / m + 1) * 2 ^ r ≤ 2 ^ p := by
    have hrp : r < p := (pow_lt_pow_iff_right₀ one_lt_two).mp (hr.trans_lt hmp)
    obtain ⟨n, hn⟩ := pow_dvd_pow (2 : ℤ) hrp.le
    have hvm : v / m * m ≤ v := Int.ediv_mul_le v hm.ne'
    have hlt : v / m * 2 ^ r < n * 2 ^ r := by
      rw [mul_comm n, ← hn]
      nlinarith
    have hqn : v / m < n := lt_of_mul_lt_mul_right hlt (by linarith)
    rw [hn, mul_comm _ n]
    exact mul_le_mul_of_nonneg_right hqn (by linarith)
  have hmq : (0 : ℚ) < m := by exact_mod_cast hm
  have hlo : ((v / m : ℤ) : ℚ) ≤ v / m := by
    rw [le_div_iff₀ hmq]
    exact_mod_cast Int.ediv_mul_le v hm.ne'
  have hhi : (v : ℚ) / m + 1 / m ≤ (v / m : ℤ) + 1 := by
    rw [← add_div, div_le_iff₀ hmq]
    have hlt := Int.lt_ediv_add_one_mul_self v hm
    exact_mod_cast hlt
  have hpow : (0 : ℚ) < 2 ^ r := by positivity
  have hinv : (1 : ℚ) / 2 ^ r < 2 / m := by
    rw [div_lt_div_iff₀ hpow hmq, one_mul, ← pow_succ']
    exact_mod_cast hr'
  rw [Int.floor_eq_iff]
  constructor
  · refine fl.le_round (.intCast ?_) hlo
    rw [abs_of_nonneg hq]
    nlinarith
  · have hd : IsFloat p ((((v / m + 1) * 2 ^ r - 1 : ℤ) : ℚ) / 2 ^ r) := by
      refine .div_two_pow ?_ r
      rw [abs_of_nonneg (by nlinarith)]
      linarith
    have hdy : (((v / m + 1) * 2 ^ r - 1 : ℤ) : ℚ) / 2 ^ r = (v / m : ℤ) + 1 - 1 / 2 ^ r := by
      push_cast
      field_simp
    refine fl.lt_of_midpoint hd ?_ ?_ <;> rw [hdy]
    · have hpos : (0 : ℚ) < 1 / 2 ^ r := by positivity
      linarith
    · have h2m : (2 : ℚ) / m = 1 / m + 1 / m := by ring
      linarith

/-- **The rounded quotient of two integers, truncated, is the integer quotient.** -/
theorem truncate_div {v m : ℤ} (hvp : |v| < 2 ^ p) (hm : 0 < m) (hmp : m < 2 ^ p) :
    truncate (fl.div v m) = v.tdiv m := by
  have hmq : (0 : ℚ) < m := by exact_mod_cast hm
  rcases le_total 0 v with hv | hv
  · rw [abs_of_nonneg hv] at hvp
    have hvq : (0 : ℚ) ≤ v := by exact_mod_cast hv
    have hnonneg : 0 ≤ fl.div v m := fl.le_round (.zero p) (div_nonneg hvq hmq.le)
    rw [truncate_of_nonneg hnonneg, fl.floor_div hv hvp hm hmp, Int.tdiv_eq_ediv_of_nonneg hv]
  · rw [abs_of_nonpos hv] at hvp
    have hv' : 0 ≤ -v := by linarith
    have hvq : (0 : ℚ) ≤ (-v : ℤ) := by exact_mod_cast hv'
    have hnonneg : 0 ≤ fl.neg.div (-v : ℤ) m :=
      fl.neg.le_round (.zero p) (div_nonneg hvq hmq.le)
    have hneg : fl.div v m = -fl.neg.div (-v : ℤ) m := by
      show fl.round _ = - -fl.round _
      rw [neg_neg]
      congr 1
      push_cast
      ring
    rw [hneg, truncate_neg, truncate_of_nonneg hnonneg, fl.neg.floor_div hv' hvp hm hmp,
      ← Int.tdiv_eq_ediv_of_nonneg hv', Int.neg_tdiv, neg_neg]

/-! ## Ties to even -/

/-- A nearest integer, the even one of two. -/
def nearestInt (y : ℚ) : ℤ :=
  if y - ⌊y⌋ < 1 / 2 then ⌊y⌋
  else if 1 / 2 < y - ⌊y⌋ then ⌊y⌋ + 1
  else if 2 ∣ ⌊y⌋ then ⌊y⌋ else ⌊y⌋ + 1

theorem nearestInt_nearest (y : ℚ) (j : ℤ) : |nearestInt y - y| ≤ |j - y| := by
  have hlo := Int.floor_le y
  have hhi := Int.lt_floor_add_one y
  have hdist : |nearestInt y - y| ≤ y - ⌊y⌋ ∧ |nearestInt y - y| ≤ ⌊y⌋ + 1 - y := by
    unfold nearestInt
    split_ifs <;> push_cast <;> constructor <;> rw [abs_le] <;> constructor <;> linarith
  rcases le_or_gt j ⌊y⌋ with hj | hj
  · have hjq : (j : ℚ) ≤ ⌊y⌋ := by exact_mod_cast hj
    rw [abs_of_nonpos (by linarith : (j : ℚ) - y ≤ 0)]
    linarith
  · have hjq : (⌊y⌋ : ℚ) + 1 ≤ j := by exact_mod_cast hj
    rw [abs_of_nonneg (by linarith : (0 : ℚ) ≤ j - y)]
    linarith

/-- A bound that is an integer stays one. -/
theorem abs_nearestInt_le {y : ℚ} {b : ℤ} (h : |y| ≤ b) : |nearestInt y| ≤ b := by
  obtain ⟨hlo, hhi⟩ := abs_le.mp h
  have hb := nearestInt_nearest y b
  have hnb := nearestInt_nearest y (-b)
  push_cast at hnb
  rw [abs_of_nonneg (by linarith : (0 : ℚ) ≤ b - y), abs_le] at hb
  rw [abs_of_nonpos (by linarith : -(b : ℚ) - y ≤ 0), abs_le] at hnb
  have h1 : (nearestInt y : ℚ) ≤ b := by linarith
  have h2 : (-b : ℚ) ≤ nearestInt y := by linarith
  exact abs_le.mpr ⟨by exact_mod_cast h2, by exact_mod_cast h1⟩

/-- The unit in the last place of `x`. -/
def ulp (p : ℕ) (x : ℚ) : ℚ := 2 ^ (Int.log 2 |x| - p)

theorem ulp_pos (p : ℕ) (x : ℚ) : 0 < ulp p x := zpow_pos two_pos _

theorem two_pow_mul_ulp (p : ℕ) (x : ℚ) : 2 ^ p * ulp p x = 2 ^ Int.log 2 |x| := by
  unfold ulp
  rw [← zpow_natCast, ← zpow_add₀ two_ne_zero]
  congr 1
  ring

/-- A float is a multiple of the unit of `x`, or it is not above the power of two below `x`. -/
theorem isFloat_cases_ulp {d : ℚ} (hd : IsFloat (p + 1) d) (x : ℚ) :
    (∃ j : ℤ, d = j * ulp p x) ∨ |d| ≤ 2 ^ Int.log 2 |x| := by
  obtain ⟨k, e, hk, rfl⟩ := hd
  rcases le_or_gt (Int.log 2 |x| - p) e with he | he
  · refine .inl ⟨k * 2 ^ (e - (Int.log 2 |x| - p)).toNat, ?_⟩
    unfold ulp
    push_cast
    rw [mul_assoc, ← zpow_natCast, ← zpow_add₀ two_ne_zero, Int.toNat_of_nonneg (by linarith)]
    congr 2
    ring
  · refine .inr ?_
    have hkq : |(k : ℚ)| ≤ 2 ^ (p + 1) := by exact_mod_cast hk
    have hpow : (2 : ℚ) ^ e ≤ 2 ^ (Int.log 2 |x| - p - 1) :=
      zpow_le_zpow_right₀ one_le_two (by linarith)
    rw [abs_mul, abs_of_pos (zpow_pos two_pos e : (0 : ℚ) < 2 ^ e)]
    calc |(k : ℚ)| * 2 ^ e
        ≤ 2 ^ (p + 1) * 2 ^ (Int.log 2 |x| - p - 1) :=
          mul_le_mul hkq hpow (zpow_pos two_pos e).le (by positivity)
      _ = 2 ^ Int.log 2 |x| := by
          rw [← zpow_natCast, ← zpow_add₀ two_ne_zero]
          congr 1
          push_cast
          ring

/-- A multiple of the unit of `x` is as near to `x` as any float. -/
theorem exists_near {x : ℚ} (hx : x ≠ 0) {d : ℚ} (hd : IsFloat (p + 1) d) :
    ∃ j : ℤ, |j * ulp p x - x| ≤ |d - x| := by
  rcases isFloat_cases_ulp hd x with ⟨j, rfl⟩ | hle
  · exact ⟨j, le_rfl⟩
  · -- The power of two below `x`, on the side of `x`, is between `d` and `x`.
    have hlog := Int.zpow_log_le_self (b := 2) one_lt_two (abs_pos.mpr hx)
    have hdist : |d - x| ≥ |x| - |d| := by
      rw [abs_sub_comm]
      exact abs_sub_abs_le_abs_sub x d
    push_cast at hlog
    rcases le_total 0 x with h | h
    · refine ⟨2 ^ p, ?_⟩
      push_cast
      rw [abs_of_nonneg h] at hlog hle hdist
      rw [two_pow_mul_ulp, abs_of_nonneg h, abs_of_nonpos (by linarith)]
      linarith
    · refine ⟨-2 ^ p, ?_⟩
      push_cast
      rw [abs_of_nonpos h] at hlog hle hdist
      rw [neg_mul, two_pow_mul_ulp, abs_of_nonpos h, abs_of_nonneg (by linarith)]
      linarith

/-- **Round to nearest, ties to even**, with `p + 1` bits. -/
def nearestEven (p : ℕ) : Rounding (p + 1) where
  round x := if x = 0 then 0 else nearestInt (x / ulp p x) * ulp p x
  isFloat x := by
    split_ifs with hx
    · exact .zero _
    · refine ⟨_, _, abs_nearestInt_le ?_, rfl⟩
      have hlt := Int.lt_zpow_succ_log_self (b := 2) one_lt_two |x|
      rw [abs_div, abs_of_pos (ulp_pos p x), div_le_iff₀ (ulp_pos p x)]
      push_cast at hlt ⊢
      rw [pow_succ', mul_assoc, two_pow_mul_ulp, ← zpow_one_add₀ two_ne_zero, add_comm]
      exact hlt.le
  nearest x {d} hd := by
    split_ifs with hx
    · rw [hx, sub_self, abs_zero]
      exact abs_nonneg _
    · have hu := ulp_pos p x
      obtain ⟨j, hj⟩ := exists_near hx hd
      refine le_trans ?_ hj
      have hscale (k : ℤ) : |k * ulp p x - x| = |k - x / ulp p x| * ulp p x := by
        rw [← abs_of_pos hu, ← abs_mul, abs_of_pos hu, sub_mul, div_mul_cancel₀ x hu.ne']
      rw [hscale, hscale]
      exact mul_le_mul_of_nonneg_right (nearestInt_nearest _ j) hu.le

end Rounding
