import StabilizedRed.Core.MultModM

/-!
# The random number generator (`core/model/rng-stream.cc`)

`RngStream` is MRG32k3a: two linear recurrences modulo primes below `2 ^ 32`, computed in doubles.

Over the integers modulo `m1` and `m2` a draw multiplies the two halves of the state with a matrix
(`RngStream.At.draw`). Doubles compute it, and the powers of the matrices, without an error
(`matTwoPowModM_spec`).
-/

namespace StabilizedRed

namespace MRG32k3a

/-- A vector of doubles. -/
abbrev Vec := Vector ℚ 3

/-- `Matrix`, row by row. -/
abbrev Mat := Vector Vec 3

def m1 : ℚ := 4294967087

def m2 : ℚ := 4294944443

def a12 : ℚ := 1403580

def a13n : ℚ := 810728

def a21 : ℚ := 527612

def a23n : ℚ := 1370589

/-- `A1p0`. -/
def a1p0 : Mat := #v[#v[0, 1, 0], #v[0, 0, 1], #v[-810728, 1403580, 0]]

/-- `A2p0`. -/
def a2p0 : Mat := #v[#v[0, 1, 0], #v[0, 0, 1], #v[-1370589, 0, 527612]]

variable (fl : Rounding 53)

/-- `norm`. -/
def norm : ℚ := fl.div 1 (fl.add m1 1)

/-- `MatVecModM`. -/
def matVecModM (A : Mat) (s : Vec) (m : ℚ) : Vec :=
  Vector.ofFn fun i =>
    let x := multModM fl A[i][0] s[0] 0 m
    let x := multModM fl A[i][1] s[1] x m
    multModM fl A[i][2] s[2] x m

/-- `MatMatModM`, one column after the other. -/
def matMatModM (A B : Mat) (m : ℚ) : Mat :=
  let W : Vector Vec 3 := Vector.ofFn fun i =>
    matVecModM fl A (Vector.ofFn fun j => B[j][i]) m
  Vector.ofFn fun i => Vector.ofFn fun j => W[j][i]

/-- `MatTwoPowModM`. -/
def matTwoPowModM (src : Mat) (m : ℚ) (e : ℕ) : Mat := (fun dst => matMatModM fl dst dst m)^[e] src

/-- `PowerOfTwoConstants`: the matrices to the powers of two from `1` to `190`. -/
def powerOfTwoConstants : Vector (Mat × Mat) 190 :=
  Vector.ofFn fun i => (matTwoPowModM fl a1p0 m1 (i + 1), matTwoPowModM fl a2p0 m2 (i + 1))

/-- `PowerOfTwoMatrix`. -/
def powerOfTwoMatrix (n : ℕ) (h : n - 1 < 190) : Mat × Mat := (powerOfTwoConstants fl)[n - 1]

end MRG32k3a

open MRG32k3a

/-- `RngStream`: the first and the last three numbers of `m_currentState`. -/
structure RngStream where
  component1 : Vec
  component2 : Vec

namespace RngStream

variable (fl : Rounding 53)

/-- `RandU01`. -/
def randU01 (r : RngStream) : ℚ × RngStream :=
  let p1 := fl.sub (fl.mul a12 r.component1[1]) (fl.mul a13n r.component1[0])
  let k : ℚ := (toInt32 (fl.div p1 m1)).toInt
  let p1 := fl.sub p1 (fl.mul k m1)
  let p1 := if p1 < 0 then fl.add p1 m1 else p1
  let p2 := fl.sub (fl.mul a21 r.component2[2]) (fl.mul a23n r.component2[0])
  let k : ℚ := (toInt32 (fl.div p2 m2)).toInt
  let p2 := fl.sub p2 (fl.mul k m2)
  let p2 := if p2 < 0 then fl.add p2 m2 else p2
  let u :=
    if p2 < p1 then fl.mul (fl.sub p1 p2) (norm fl)
    else fl.mul (fl.add (fl.sub p1 p2) m1) (norm fl)
  (u,
    { component1 := #v[r.component1[1], r.component1[2], p1]
      component2 := #v[r.component2[1], r.component2[2], p2] })

/-- One step of the loop of `AdvanceNthBy`. -/
def advanceBit (nth : UInt64) (by_ : ℕ) (h : by_ ≤ 127) (r : RngStream) (i : Fin 64) : RngStream :=
  let nbit := 63 - i.val
  if (nth >>> UInt64.ofNat nbit) &&& 1 = 1 then
    let (matrix1, matrix2) := powerOfTwoMatrix fl (by_ + nbit) (by omega)
    { component1 := matVecModM fl matrix1 r.component1 m1
      component2 := matVecModM fl matrix2 r.component2 m2 }
  else r

/-- `AdvanceNthBy`. -/
def advanceNthBy (nth : UInt64) (by_ : ℕ) (h : by_ ≤ 127) (r : RngStream) : RngStream :=
  (List.finRange 64).foldl (advanceBit fl nth by_ h) r

/-- The constructor. An invalid seed is a fatal error. -/
def new (seedNumber : UInt32) (stream substream : UInt64) : Option RngStream :=
  let seed : ℚ := seedNumber.toNat
  if m1 ≤ seed ∨ m2 ≤ seed ∨ seedNumber = 0 then none
  else
    let r : RngStream := { component1 := #v[seed, seed, seed], component2 := #v[seed, seed, seed] }
    let r := advanceNthBy fl stream 127 (by decide) r
    some (advanceNthBy fl substream 76 (by decide) r)

end RngStream

namespace MRG32k3a

/-! ## Numbers modulo `M` in doubles -/

/-- The double is an entry of a matrix or a vector that stands for `z`: not much below zero, and
below `M`. -/
def Entry (M : ℕ) (x : ℚ) (z : ZMod M) : Prop :=
  ∃ n : ℤ, x = n ∧ -2 ^ 21 ≤ n ∧ n < M ∧ (n : ZMod M) = z

/-- The double is the representative of `z`. -/
def Reduced {M : ℕ} (x : ℚ) (z : ZMod M) : Prop := x = (z.val : ℤ)

section Modulus

variable (fl : Rounding 53) {M : ℕ} [NeZero M] {x y c : ℚ} {z w t : ZMod M}

theorem Reduced.entry (h : Reduced x z) : Entry M x z := by
  refine ⟨z.val, h, ?_, ?_, ?_⟩
  · have := Int.natCast_nonneg z.val
    linarith
  · exact_mod_cast ZMod.val_lt z
  · rw [Int.cast_natCast, ZMod.natCast_zmod_val]

/-- The product of two entries does not fall below `-2 ^ 53`. -/
theorem mul_entries_le {a s : ℤ} (ha : -2 ^ 21 ≤ a) (ha' : a < 2 ^ 32) (hs : -2 ^ 21 ≤ s)
    (hs' : s < 2 ^ 32) : -2 ^ 53 ≤ a * s := by
  rcases le_or_gt 0 a with h | h
  · have := mul_le_mul_of_nonneg_left hs h
    linarith
  · rcases le_or_gt 0 s with h' | h'
    · have := mul_le_mul_of_nonneg_right ha h'
      linarith
    · have := mul_pos_of_neg_of_neg h h'
      linarith

theorem multModM_spec (hM : 2 ^ 22 ≤ M) (hM' : M < 2 ^ 32) (hx : Entry M x z) (hy : Entry M y w)
    (hc : Reduced c t) : Reduced (multModM fl x y c (M : ℤ)) (z * w + t) := by
  obtain ⟨a, rfl, ha, ha', rfl⟩ := hx
  obtain ⟨s, rfl, hs, hs', rfl⟩ := hy
  have ht : ((t.val : ℤ) : ZMod M) = t := by rw [Int.cast_natCast, ZMod.natCast_zmod_val]
  have htM : (t.val : ℤ) < M := by exact_mod_cast ZMod.val_lt t
  have hMz : (M : ℤ) < 2 ^ 32 := by exact_mod_cast hM'
  have hMz' : (2 : ℤ) ^ 22 ≤ M := by exact_mod_cast hM
  have hprod := mul_entries_le ha (by linarith) hs (by linarith)
  rw [hc, multModM_eq fl (abs_lt.mpr ⟨by linarith, by linarith⟩) (abs_lt.mpr ⟨by linarith, by linarith⟩)
    (Int.natCast_nonneg _) (by linarith) hMz' (by linarith) hprod]
  unfold Reduced
  congr 1
  rw [← ZMod.val_intCast]
  push_cast
  rw [ZMod.natCast_zmod_val]

/-- The matrix of doubles stands for `X`. -/
def Entries (A : Mat) (X : Matrix (Fin 3) (Fin 3) (ZMod M)) : Prop :=
  ∀ i j : Fin 3, Entry M A[i][j] (X i j)

theorem matVecModM_spec (hM : 2 ^ 22 ≤ M) (hM' : M < 2 ^ 32) {A : Mat}
    {X : Matrix (Fin 3) (Fin 3) (ZMod M)} {s : Vec} {v : Fin 3 → ZMod M} (hA : Entries A X)
    (hs : ∀ j : Fin 3, Entry M s[j] (v j)) (i : Fin 3) :
    Reduced (matVecModM fl A s (M : ℤ))[i] (X.mulVec v i) := by
  have h0 : Reduced (0 : ℚ) (0 : ZMod M) := by simp [Reduced]
  have h1 := multModM_spec fl hM hM' (hA i 0) (hs 0) h0
  have h2 := multModM_spec fl hM hM' (hA i 1) (hs 1) h1
  have h3 := multModM_spec fl hM hM' (hA i 2) (hs 2) h2
  have hsum : X.mulVec v i = X i 2 * v 2 + (X i 1 * v 1 + (X i 0 * v 0 + 0)) := by
    rw [Matrix.mulVec, dotProduct, Fin.sum_univ_three]
    ring
  have hget : (matVecModM fl A s (M : ℤ))[i] = multModM fl A[i][(2 : Fin 3)] s[(2 : Fin 3)]
      (multModM fl A[i][(1 : Fin 3)] s[(1 : Fin 3)]
        (multModM fl A[i][(0 : Fin 3)] s[(0 : Fin 3)] 0 (M : ℤ)) (M : ℤ)) (M : ℤ) := by
    simp [matVecModM]
  rw [hsum, hget]
  exact h3

theorem matMatModM_spec (hM : 2 ^ 22 ≤ M) (hM' : M < 2 ^ 32) {A B : Mat}
    {X Y : Matrix (Fin 3) (Fin 3) (ZMod M)} (hA : Entries A X) (hB : Entries B Y) :
    Entries (matMatModM fl A B (M : ℤ)) (X * Y) := by
  intro i j
  have hcol : ∀ k : Fin 3, Entry M (Vector.ofFn fun k => B[k][j] : Vec)[k] (Y.col j k) := by
    intro k
    simpa using hB k j
  have h := matVecModM_spec fl hM hM' hA hcol i
  have hget : (matMatModM fl A B (M : ℤ))[i][j] =
      (matVecModM fl A (Vector.ofFn fun k => B[k][j]) (M : ℤ))[i] := by
    simp [matMatModM]
  rw [hget]
  exact h.entry

/-- **The powers of a matrix.** -/
theorem matTwoPowModM_spec (hM : 2 ^ 22 ≤ M) (hM' : M < 2 ^ 32) {A : Mat}
    {X : Matrix (Fin 3) (Fin 3) (ZMod M)} (hA : Entries A X) (e : ℕ) :
    Entries (matTwoPowModM fl A (M : ℤ) e) (X ^ 2 ^ e) := by
  unfold matTwoPowModM
  induction e with
  | zero => simpa using hA
  | succ e ih =>
    rw [Function.iterate_succ_apply', pow_succ, pow_mul, sq]
    exact matMatModM_spec fl hM hM' ih ih

end Modulus

/-! ## The two components -/

/-- The modulus `m1`. -/
abbrev M1 : ℕ := 4294967087

/-- The modulus `m2`. -/
abbrev M2 : ℕ := 4294944443

/-- The first recurrence, one step. -/
def step1 : Matrix (Fin 3) (Fin 3) ℤ := !![0, 1, 0; 0, 0, 1; -810728, 1403580, 0]

/-- The second recurrence, one step. -/
def step2 : Matrix (Fin 3) (Fin 3) ℤ := !![0, 1, 0; 0, 0, 1; -1370589, 0, 527612]

def A1 : Matrix (Fin 3) (Fin 3) (ZMod M1) := step1.map (Int.castRingHom _)

def A2 : Matrix (Fin 3) (Fin 3) (ZMod M2) := step2.map (Int.castRingHom _)

theorem m1_eq : m1 = ((M1 : ℤ) : ℚ) := by norm_num [m1]

theorem m2_eq : m2 = ((M2 : ℤ) : ℚ) := by norm_num [m2]

theorem entries_map {M : ℕ} {A : Mat} {N : Matrix (Fin 3) (Fin 3) ℤ}
    (h : ∀ i j : Fin 3, A[i][j] = N i j ∧ -2 ^ 21 ≤ N i j ∧ N i j < M) :
    Entries A (N.map (Int.castRingHom (ZMod M))) := by
  intro i j
  obtain ⟨he, hlo, hhi⟩ := h i j
  exact ⟨N i j, he, hlo, hhi, rfl⟩

theorem entries_a1p0 : Entries a1p0 A1 := entries_map fun i j => by
  fin_cases i <;> fin_cases j <;> norm_num [a1p0, step1]

theorem entries_a2p0 : Entries a2p0 A2 := entries_map fun i j => by
  fin_cases i <;> fin_cases j <;> norm_num [a2p0, step2]

variable (fl : Rounding 53)

theorem powerOfTwoMatrix_spec {n : ℕ} (h : n - 1 < 190) (hn : 1 ≤ n) :
    Entries (powerOfTwoMatrix fl n h).1 (A1 ^ 2 ^ n) ∧
      Entries (powerOfTwoMatrix fl n h).2 (A2 ^ 2 ^ n) := by
  have hget : powerOfTwoMatrix fl n h =
      (matTwoPowModM fl a1p0 m1 n, matTwoPowModM fl a2p0 m2 n) := by
    simp [powerOfTwoMatrix, powerOfTwoConstants, Nat.sub_add_cancel hn]
  rw [hget, m1_eq, m2_eq]
  exact ⟨matTwoPowModM_spec fl (by decide) (by decide) entries_a1p0 n,
    matTwoPowModM_spec fl (by decide) (by decide) entries_a2p0 n⟩

end MRG32k3a

namespace RngStream

variable (fl : Rounding 53) {r : RngStream} {x : Fin 3 → ZMod M1} {y : Fin 3 → ZMod M2}

/-- The state stands for the vectors `x` and `y`. -/
structure At (r : RngStream) (x : Fin 3 → ZMod M1) (y : Fin 3 → ZMod M2) : Prop where
  component1 : ∀ i : Fin 3, Reduced r.component1[i] (x i)
  component2 : ∀ i : Fin 3, Reduced r.component2[i] (y i)

theorem At.unique {r' : RngStream} (h : r.At x y) (h' : r'.At x y) : r = r' := by
  obtain ⟨c1, c2⟩ := r
  obtain ⟨c1', c2'⟩ := r'
  have h1 : c1 = c1' := Vector.ext fun i hi =>
    (h.component1 ⟨i, hi⟩).trans (h'.component1 ⟨i, hi⟩).symm
  have h2 : c2 = c2' := Vector.ext fun i hi =>
    (h.component2 ⟨i, hi⟩).trans (h'.component2 ⟨i, hi⟩).symm
  rw [h1, h2]

/-! ## Draws -/

/-- The next number of a recurrence with two terms. -/
theorem recurrence_eq {a b s t m : ℤ} (ha : 0 ≤ a ∧ a < 2 ^ 21) (hb : 0 ≤ b ∧ b < 2 ^ 21)
    (hs : 0 ≤ s ∧ s < 2 ^ 32) (ht : 0 ≤ t ∧ t < 2 ^ 32) (hm : 2 ^ 22 ≤ m) (hm' : m < 2 ^ 32) :
    (let p := fl.sub (fl.mul a s) (fl.mul b t)
     let k : ℚ := (toInt32 (fl.div p m)).toInt
     let p := fl.sub p (fl.mul k m)
     if p < 0 then fl.add p m else p) = ((a * s - b * t) % m : ℤ) := by
  have has : a * s < 2 ^ 21 * 2 ^ 32 := mul_lt_mul'' ha.2 hs.2 ha.1 hs.1
  have hbt : b * t < 2 ^ 21 * 2 ^ 32 := mul_lt_mul'' hb.2 ht.2 hb.1 ht.1
  have has0 : 0 ≤ a * s := mul_nonneg ha.1 hs.1
  have hbt0 : 0 ≤ b * t := mul_nonneg hb.1 ht.1
  have hlt : |a * s - b * t| < 2 ^ 53 := abs_lt.mpr ⟨by linarith, by linarith⟩
  rw [fl.mul_intCast (by rw [abs_of_nonneg has0]; linarith),
    fl.mul_intCast (by rw [abs_of_nonneg hbt0]; linarith), fl.sub_intCast hlt.le]
  exact reduce_eq fl hlt (by linarith) (by linarith) (by linarith)

theorem val_bounds {M : ℕ} [NeZero M] (hM : M < 2 ^ 32) (z : ZMod M) :
    0 ≤ (z.val : ℤ) ∧ (z.val : ℤ) < 2 ^ 32 := by
  have := ZMod.val_lt z
  omega

theorem a1_mulVec (x : Fin 3 → ZMod M1) :
    A1.mulVec x = ![x 1, x 2, 1403580 * x 1 - 810728 * x 0] := by
  ext i
  fin_cases i <;>
    simp [A1, step1, Matrix.mulVec, dotProduct, Fin.sum_univ_three]
  ring

theorem a2_mulVec (y : Fin 3 → ZMod M2) :
    A2.mulVec y = ![y 1, y 2, 527612 * y 2 - 1370589 * y 0] := by
  ext i
  fin_cases i <;>
    simp [A2, step2, Matrix.mulVec, dotProduct, Fin.sum_univ_three]
  ring

/-- The numbers that `RandU01` computes. -/
theorem next_eq (x : Fin 3 → ZMod M1) (y : Fin 3 → ZMod M2) :
    ((1403580 * ((x 1).val : ℤ) - 810728 * ((x 0).val : ℤ)) % (M1 : ℤ) : ℤ) =
        (A1.mulVec x 2).val ∧
      ((527612 * ((y 2).val : ℤ) - 1370589 * ((y 0).val : ℤ)) % (M2 : ℤ) : ℤ) =
        (A2.mulVec y 2).val := by
  rw [← ZMod.val_intCast, ← ZMod.val_intCast, a1_mulVec, a2_mulVec]
  simp

/-- The combination of the two components. -/
theorem combine_eq {p1 p2 : ℤ} (h1 : 0 ≤ p1 ∧ p1 < 2 ^ 32) (h2 : 0 ≤ p2 ∧ p2 < 2 ^ 32) :
    (if (p2 : ℚ) < p1 then fl.mul (fl.sub p1 p2) (norm fl)
      else fl.mul (fl.add (fl.sub p1 p2) m1) (norm fl)) =
      fl.mul ((if p2 < p1 then p1 - p2 else p1 - p2 + M1 : ℤ) : ℚ) (norm fl) := by
  have hM : ((M1 : ℕ) : ℤ) < 2 ^ 32 := by norm_num
  rw [fl.sub_intCast (abs_le.mpr ⟨by linarith, by linarith⟩), m1_eq,
    fl.add_intCast (abs_le.mpr ⟨by linarith, by linarith⟩)]
  by_cases h : p2 < p1
  · rw [if_pos h, if_pos (by exact_mod_cast h)]
  · rw [if_neg h, if_neg (by exact_mod_cast h)]

/-- **What a draw computes.** -/
theorem At.randU01_eq (h : r.At x y) :
    let p1 : ℤ := (A1.mulVec x 2).val
    let p2 : ℤ := (A2.mulVec y 2).val
    r.randU01 fl =
      (fl.mul ((if p2 < p1 then p1 - p2 else p1 - p2 + M1 : ℤ) : ℚ) (norm fl),
        { component1 := #v[r.component1[1], r.component1[2], (p1 : ℚ)]
          component2 := #v[r.component2[1], r.component2[2], (p2 : ℚ)] }) := by
  have hx0 : r.component1[0] = ((x 0).val : ℤ) := h.component1 0
  have hx1 : r.component1[1] = ((x 1).val : ℤ) := h.component1 1
  have hy0 : r.component2[0] = ((y 0).val : ℤ) := h.component2 0
  have hy2 : r.component2[2] = ((y 2).val : ℤ) := h.component2 2
  have hp1 := recurrence_eq fl (a := 1403580) (b := 810728) (m := M1) (by norm_num)
    (by norm_num) (val_bounds (by decide) (x 1)) (val_bounds (by decide) (x 0)) (by norm_num)
    (by norm_num)
  have hp2 := recurrence_eq fl (a := 527612) (b := 1370589) (m := M2) (by norm_num)
    (by norm_num) (val_bounds (by decide) (y 2)) (val_bounds (by decide) (y 0)) (by norm_num)
    (by norm_num)
  have ha : a12 = ((1403580 : ℤ) : ℚ) ∧ a13n = ((810728 : ℤ) : ℚ) ∧ a21 = ((527612 : ℤ) : ℚ) ∧
      a23n = ((1370589 : ℤ) : ℚ) := by norm_num [a12, a13n, a21, a23n]
  obtain ⟨hn1, hn2⟩ := next_eq x y
  rw [hn1] at hp1
  rw [hn2] at hp2
  have hcomb := combine_eq fl (val_bounds (by decide) (A1.mulVec x 2))
    (val_bounds (by decide) (A2.mulVec y 2))
  dsimp only at hp1 hp2 ⊢
  unfold randU01
  dsimp only
  simp only [hx0, hx1, hy0, hy2, ha.1, ha.2.1, ha.2.2.1, ha.2.2.2, ← hcomb, m1_eq, m2_eq, hp1, hp2]

/-- **A draw multiplies the state with the matrices.** -/
theorem At.draw (h : r.At x y) : (r.randU01 fl).2.At (A1.mulVec x) (A2.mulVec y) := by
  have he := congrArg Prod.snd (h.randU01_eq fl)
  dsimp only at he
  rw [he]
  constructor <;> intro i
  · have hx := a1_mulVec x
    fin_cases i
    · simpa [hx] using h.component1 1
    · simpa [hx] using h.component1 2
    · rfl
  · have hy := a2_mulVec y
    fin_cases i
    · simpa [hy] using h.component2 1
    · simpa [hy] using h.component2 2
    · rfl

/-- The state after a draw. -/
def drawn (fl : Rounding 53) (r : RngStream) : RngStream := (r.randU01 fl).2

theorem At.iterate (h : r.At x y) (n : ℕ) :
    ((drawn fl)^[n] r).At ((A1 ^ n).mulVec x) ((A2 ^ n).mulVec y) := by
  induction n with
  | zero => simpa using h
  | succ n ih =>
    rw [Function.iterate_succ_apply', pow_succ', pow_succ', ← Matrix.mulVec_mulVec,
      ← Matrix.mulVec_mulVec]
    exact ih.draw fl

end RngStream

end StabilizedRed
