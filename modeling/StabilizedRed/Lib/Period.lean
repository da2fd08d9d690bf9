import Mathlib

/-!
# Periods of linear maps, by computation

A point has period `N` if `N` steps lead back to it and no `N / q` steps do, for the primes `q` that
divide `N` (`minimalPeriod_eq`). For a matrix over the integers modulo `m` both are facts about a
few powers of it, the same for every vector except zero (`minimalPeriod_matrix`).

`Mat3` computes with such matrices on natural numbers, and `Mat3.pow` with powers in as many steps
as the exponent has bits, so that these facts can be decided (`Mat3.minimalPeriod_mulVec`).
-/

open Function

/-! ## Prime factors -/

/-- The primes that divide `n` are among those that make it up. -/
theorem Nat.Prime.mem_of_dvd_prod {n k q : ℕ} {qs : List ℕ} (hqs : ∀ p ∈ qs, p.Prime)
    (hn : n ∣ qs.prod ^ k) (hq : q.Prime) (h : q ∣ n) : q ∈ qs := by
  have hprod : q ∣ qs.prod := hq.dvd_of_dvd_pow (h.trans hn)
  obtain ⟨p, hp, hqp⟩ := (Prime.dvd_prod_iff hq.prime).mp hprod
  rwa [(Nat.prime_dvd_prime_iff_eq hq (hqs p hp)).mp hqp]

/-- A number is prime if `a` has the order `p - 1`, of which all prime factors are known. -/
theorem prime_of_pow {p k : ℕ} (a : ZMod p) (qs : List ℕ) (hqs : ∀ q ∈ qs, q.Prime)
    (hn : p - 1 ∣ qs.prod ^ k) (h1 : a ^ (p - 1) = 1) (hne : ∀ q ∈ qs, a ^ ((p - 1) / q) ≠ 1) :
    p.Prime :=
  lucas_primality p a h1 fun q hq hd => hne q (hq.mem_of_dvd_prod hqs hn hd)

/-! ## Periods -/

/-- **The period of a point.** -/
theorem minimalPeriod_eq {α : Type*} {f : α → α} {x : α} {n k : ℕ} {qs : List ℕ}
    (hqs : ∀ q ∈ qs, q.Prime) (hprod : n ∣ qs.prod ^ k) (hper : IsPeriodicPt f n x)
    (hne : ∀ q ∈ qs, ¬ IsPeriodicPt f (n / q) x) : minimalPeriod f x = n := by
  obtain ⟨c, hc⟩ := hper.minimalPeriod_dvd
  by_contra hlt
  have hc1 : c ≠ 1 := by
    rintro rfl
    exact hlt (by rw [hc, mul_one])
  obtain ⟨q, hq, b, rfl⟩ := Nat.exists_prime_and_dvd hc1
  have hmem := hq.mem_of_dvd_prod hqs hprod ⟨minimalPeriod f x * b, by rw [hc]; ring⟩
  refine hne q hmem (isPeriodicPt_iff_minimalPeriod_dvd.mpr ⟨b, ?_⟩)
  exact Nat.div_eq_of_eq_mul_left hq.pos (by rw [hc]; ring)

variable {ι : Type*} [Fintype ι] [DecidableEq ι] {R : Type*} [CommRing R]

theorem iterate_mulVec (A : Matrix ι ι R) (n : ℕ) (x : ι → R) :
    (A.mulVec)^[n] x = (A ^ n).mulVec x := by
  induction n with
  | zero => simp
  | succ n ih => rw [iterate_succ_apply', ih, pow_succ', Matrix.mulVec_mulVec]

/-- A vector that `A` maps to itself is zero if `A - 1` has an inverse `B`. -/
theorem eq_zero_of_mulVec {A B : Matrix ι ι R} (h : B * A = B + 1) {x : ι → R}
    (hx : A.mulVec x = x) : x = 0 := by
  have hB : B.mulVec x = B.mulVec x + x := by
    conv_lhs => rw [← hx]
    rw [Matrix.mulVec_mulVec, h, Matrix.add_mulVec, Matrix.one_mulVec]
  exact left_eq_add.mp hB

/-- **The period of every vector except zero.** -/
theorem minimalPeriod_matrix {A : Matrix ι ι R} {n k : ℕ} {qs : List ℕ}
    (hqs : ∀ q ∈ qs, q.Prime) (hprod : n ∣ qs.prod ^ k) (hA : A ^ n = 1)
    (hne : ∀ q ∈ qs, ∃ B, B * A ^ (n / q) = B + 1) {x : ι → R} (hx : x ≠ 0) :
    minimalPeriod A.mulVec x = n := by
  refine minimalPeriod_eq hqs hprod ?_ fun q hq hper => ?_
  · show (A.mulVec)^[n] x = x
    rw [iterate_mulVec, hA, Matrix.one_mulVec]
  · obtain ⟨B, hB⟩ := hne q hq
    have hfix : (A.mulVec)^[n / q] x = x := hper
    rw [iterate_mulVec] at hfix
    exact hx (eq_zero_of_mulVec hB hfix)

/-! ## Computing modulo `m` -/

/-- A matrix of natural numbers, row by row. -/
structure Mat3 where
  a : ℕ
  b : ℕ
  c : ℕ
  d : ℕ
  e : ℕ
  f : ℕ
  g : ℕ
  h : ℕ
  i : ℕ
  deriving DecidableEq

namespace Mat3

def one : Mat3 := ⟨1, 0, 0, 0, 1, 0, 0, 0, 1⟩

def mul (m : ℕ) : Mat3 → Mat3 → Mat3
  | ⟨a, b, c, d, e, f, g, h, i⟩, ⟨a', b', c', d', e', f', g', h', i'⟩ =>
    ⟨(a * a' + b * d' + c * g') % m, (a * b' + b * e' + c * h') % m, (a * c' + b * f' + c * i') % m,
      (d * a' + e * d' + f * g') % m, (d * b' + e * e' + f * h') % m, (d * c' + e * f' + f * i') % m,
      (g * a' + h * d' + i * g') % m, (g * b' + h * e' + i * h') % m, (g * c' + h * f' + i * i') % m⟩

def addOne (m : ℕ) : Mat3 → Mat3
  | ⟨a, b, c, d, e, f, g, h, i⟩ => ⟨(a + 1) % m, b, c, d, (e + 1) % m, f, g, h, (i + 1) % m⟩

/-- Powers by squaring, for exponents of at most as many bits as the first argument says. -/
def pow (m : ℕ) : ℕ → Mat3 → ℕ → Mat3
  | 0, _, _ => one
  | bits + 1, x, n =>
    if n % 2 = 0 then pow m bits (mul m x x) (n / 2)
    else mul m x (pow m bits (mul m x x) (n / 2))

/-- The matrix modulo `m`. -/
def toMatrix (m : ℕ) (x : Mat3) : Matrix (Fin 3) (Fin 3) (ZMod m) :=
  !![(x.a : ZMod m), (x.b : ZMod m), (x.c : ZMod m);
    (x.d : ZMod m), (x.e : ZMod m), (x.f : ZMod m);
    (x.g : ZMod m), (x.h : ZMod m), (x.i : ZMod m)]

variable {m : ℕ}

theorem toMatrix_one : one.toMatrix m = 1 := by
  ext i j
  fin_cases i <;> fin_cases j <;> simp [toMatrix, one]

theorem toMatrix_mul (x y : Mat3) : (mul m x y).toMatrix m = x.toMatrix m * y.toMatrix m := by
  ext i j
  fin_cases i <;> fin_cases j <;>
    simp [toMatrix, mul, Matrix.mul_apply, Fin.sum_univ_three]

theorem toMatrix_addOne (x : Mat3) : (addOne m x).toMatrix m = x.toMatrix m + 1 := by
  ext i j
  fin_cases i <;> fin_cases j <;> simp [toMatrix, addOne]

theorem toMatrix_pow {bits n : ℕ} (hn : n < 2 ^ bits) (x : Mat3) :
    (pow m bits x n).toMatrix m = x.toMatrix m ^ n := by
  induction bits generalizing x n with
  | zero =>
    obtain rfl : n = 0 := by simpa using hn
    exact toMatrix_one.trans (pow_zero _).symm
  | succ bits ih =>
    rw [pow_succ] at hn
    have hhalf := ih (n := n / 2) (by omega) (mul m x x)
    rw [toMatrix_mul, ← sq, ← pow_mul] at hhalf
    unfold pow
    split
    · rename_i h
      rw [hhalf]
      congr 1
      omega
    · rename_i h
      rw [toMatrix_mul, hhalf, ← pow_succ']
      congr 1
      omega

/-- **The period of every vector except zero, by computation.** -/
theorem minimalPeriod_mulVec {x : Mat3} {bits n k : ℕ} (qs : List ℕ) (hbits : n < 2 ^ bits)
    (hqs : ∀ q ∈ qs, q.Prime) (hprod : n ∣ qs.prod ^ k) (h1 : pow m bits x n = one)
    (hne : ∀ q ∈ qs, ∃ y, mul m y (pow m bits x (n / q)) = addOne m y) {v : Fin 3 → ZMod m}
    (hv : v ≠ 0) : minimalPeriod (x.toMatrix m).mulVec v = n := by
  refine minimalPeriod_matrix hqs hprod ?_ (fun q hq => ?_) hv
  · rw [← toMatrix_pow hbits, h1, toMatrix_one]
  · obtain ⟨y, hy⟩ := hne q hq
    have hlt : n / q < 2 ^ bits := (Nat.div_le_self n q).trans_lt hbits
    refine ⟨y.toMatrix m, ?_⟩
    rw [← toMatrix_pow hlt, ← toMatrix_mul, hy, toMatrix_addOne]

end Mat3
