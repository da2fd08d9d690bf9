import StabilizedRed.Core.Random
import StabilizedRed.Lib.Rounding

/-!
# Multiplication modulo `m` in doubles (`core/model/rng-stream.cc`)

Each operation on doubles rounds its result (`fl : Rounding 53`, with any rule for ties). All
numbers that arise in the random number generator are `0` or between `2 ^ (-40)` and `2 ^ 65` in
magnitude, far from the ends of the exponent range.

A product of two numbers below `2 ^ 32` need not be a double. `MultModM` is exact nevertheless, as
its comment says (`multModM_eq`).
-/

namespace StabilizedRed

/-- `static_cast<int32_t>` of a double. A value out of range would be undefined. -/
def toInt32 (x : ℚ) : Int32 := Int32.ofInt (truncate x)

namespace MRG32k3a

def two17 : ℚ := 131072

def two53 : ℚ := 9007199254740992

section Exact

variable (fl : Rounding 53) {a s c m v : ℤ}

/-- `MultModM`. -/
def multModM (a s c m : ℚ) : ℚ :=
  let v := fl.add (fl.mul a s) c
  let v :=
    if two53 ≤ v ∨ v ≤ -two53 then
      let a1 : ℚ := (toInt32 (fl.div a two17)).toInt
      let a := fl.sub a (fl.mul a1 two17)
      let v := fl.mul a1 s
      let a1 : ℚ := (toInt32 (fl.div v m)).toInt
      let v := fl.sub v (fl.mul a1 m)
      fl.add (fl.add (fl.mul v two17) (fl.mul a s)) c
    else v
  let a1 : ℚ := (toInt32 (fl.div v m)).toInt
  let v := fl.sub v (fl.mul a1 m)
  if v < 0 then fl.add v m else v

theorem abs_tdiv_mul_le (v m : ℤ) : |v.tdiv m * m| ≤ |v| := by
  rw [Int.abs_eq_natAbs, Int.abs_eq_natAbs, Int.natAbs_mul, Int.natAbs_tdiv]
  exact_mod_cast Nat.div_mul_le_self v.natAbs m.natAbs

theorem abs_tmod_lt (v : ℤ) (hm : 0 < m) : |v.tmod m| < m := by
  have hlt := Nat.mod_lt v.natAbs (Int.natAbs_pos.mpr hm.ne')
  rw [Int.abs_eq_natAbs, Int.natAbs_tmod]
  omega

theorem toInt_toInt32_div (hv : |v| < 2 ^ 53) (hq : |v| < 2 ^ 31 * m) (hm : 0 < m)
    (hm' : m < 2 ^ 53) : (toInt32 (fl.div v m)).toInt = v.tdiv m := by
  have hle := abs_tdiv_mul_le v m
  rw [abs_mul, abs_of_pos hm] at hle
  have hlt : |v.tdiv m| < 2 ^ 31 := lt_of_mul_lt_mul_right (hle.trans_lt hq) hm.le
  obtain ⟨hlo, hhi⟩ := abs_lt.mp hlt
  unfold toInt32
  rw [fl.truncate_div hv hm hm', Int32.toInt_ofInt_of_le hlo.le hhi]

/-- What is left of `v`. -/
theorem sub_mul_div (hv : |v| < 2 ^ 53) (hq : |v| < 2 ^ 31 * m) (hm : 0 < m) (hm' : m < 2 ^ 53) :
    fl.sub v (fl.mul ((toInt32 (fl.div v m)).toInt : ℤ) m) = (v.tmod m : ℤ) := by
  have hmod : v - v.tdiv m * m = v.tmod m := by rw [Int.tmod_def, mul_comm]
  rw [toInt_toInt32_div fl hv hq hm hm', fl.mul_intCast ((abs_tdiv_mul_le v m).trans hv.le),
    fl.sub_intCast, hmod]
  rw [hmod]
  exact ((abs_tmod_lt v hm).trans hm').le

/-- The last lines of `MultModM`, which `RandU01` has too. -/
theorem reduce_eq (hv : |v| < 2 ^ 53) (hq : |v| < 2 ^ 31 * m) (hm : 0 < m) (hm' : m < 2 ^ 53) :
    (if fl.sub v (fl.mul ((toInt32 (fl.div v m)).toInt : ℤ) m) < 0 then
      fl.add (fl.sub v (fl.mul ((toInt32 (fl.div v m)).toInt : ℤ) m)) m
    else fl.sub v (fl.mul ((toInt32 (fl.div v m)).toInt : ℤ) m)) = (v % m : ℤ) := by
  have hlt := abs_tmod_lt v hm
  have hmod : v.tmod m % m = v % m := by
    rw [Int.tmod_def, mul_comm, Int.sub_mul_emod_self_right]
  rw [sub_mul_div fl hv hq hm hm', ← hmod]
  obtain ⟨hlo, hhi⟩ := abs_lt.mp hlt
  by_cases hneg : v.tmod m < 0
  · have hadd : (v.tmod m + m) % m = v.tmod m % m := Int.add_emod_right ..
    rw [if_pos (by exact_mod_cast hneg), fl.add_intCast (by rw [abs_of_nonneg] <;> omega), ← hadd,
      Int.emod_eq_of_lt (by omega) (by omega)]
  · rw [if_neg (by exact_mod_cast hneg), Int.emod_eq_of_lt (by omega) hhi]

/-- Without the decomposition nothing was rounded. -/
theorem add_mul_of_lt (hc0 : 0 ≤ c) (h : -2 ^ 53 ≤ a * s)
    (hv : ¬ (two53 ≤ fl.add (fl.mul a s) c ∨ fl.add (fl.mul a s) c ≤ -two53)) :
    fl.add (fl.mul a s) c = (a * s + c : ℤ) ∧ |a * s + c| < 2 ^ 53 := by
  have h53 : two53 = (2 ^ 53 : ℤ) := by norm_num [two53]
  have hfloat : IsFloat 53 ((2 ^ 53 : ℤ) : ℚ) := .intCast (by norm_num)
  obtain ⟨hlt, hgt⟩ := not_or.mp hv
  rw [not_le] at hlt hgt
  have hprod : a * s ≤ 2 ^ 53 := by
    by_contra hbig
    have hmul : ((2 ^ 53 : ℤ) : ℚ) ≤ fl.mul a s :=
      fl.le_round hfloat (by exact_mod_cast (not_le.mp hbig).le)
    have hadd : ((2 ^ 53 : ℤ) : ℚ) ≤ fl.add (fl.mul a s) c := by
      refine fl.le_round hfloat (hmul.trans ?_)
      have : (0 : ℚ) ≤ c := by exact_mod_cast hc0
      linarith
    rw [h53] at hlt
    linarith
  have hmul : fl.mul a s = (a * s : ℤ) := fl.mul_intCast (abs_le.mpr ⟨h, hprod⟩)
  rw [hmul] at hlt hgt ⊢
  have hsum : a * s + c ≤ 2 ^ 53 := by
    by_contra hbig
    have hadd : ((2 ^ 53 : ℤ) : ℚ) ≤ fl.add (a * s : ℤ) c :=
      fl.le_round hfloat (by exact_mod_cast (not_le.mp hbig).le)
    rw [h53] at hlt
    linarith
  have hadd : fl.add ((a * s : ℤ) : ℚ) c = (a * s + c : ℤ) :=
    fl.add_intCast (abs_le.mpr ⟨by linarith, hsum⟩)
  rw [hadd, h53] at hlt hgt
  refine ⟨hadd, abs_lt.mpr ⟨?_, ?_⟩⟩
  · exact_mod_cast hgt
  · exact_mod_cast hlt

/-- The decomposition `a = a1 * 2 ^ 17 + a'`, with `a1 * s` reduced first. -/
theorem decomposed_eq (ha : |a| < 2 ^ 35) (hs : |s| < 2 ^ 35) (hc0 : 0 ≤ c) (hc : c < 2 ^ 35)
    (hm : 2 ^ 22 ≤ m) (hm' : m < 2 ^ 35) :
    let a1 : ℚ := (toInt32 (fl.div a two17)).toInt
    let a' := fl.sub a (fl.mul a1 two17)
    let v := fl.mul a1 s
    let a1 : ℚ := (toInt32 (fl.div v m)).toInt
    let v := fl.sub v (fl.mul a1 m)
    ∃ w : ℤ, fl.add (fl.add (fl.mul v two17) (fl.mul a' s)) c = w ∧ |w| < 2 ^ 53 ∧
      w % m = (a * s + c) % m := by
  have h17 : two17 = (131072 : ℤ) := by norm_num [two17]
  have hm0 : 0 < m := by linarith
  have hdiv := toInt_toInt32_div fl (v := a) (m := 131072) (by linarith) (by linarith)
    (by norm_num) (by norm_num)
  have hrest := sub_mul_div fl (v := a) (m := 131072) (by linarith) (by linarith)
    (by norm_num) (by norm_num)
  have ha1 : |a.tdiv 131072| ≤ 2 ^ 18 - 1 := by
    have hle := abs_tdiv_mul_le a 131072
    rw [abs_mul, abs_of_pos (by norm_num : (0 : ℤ) < 131072)] at hle
    omega
  have ha' := Int.le_sub_one_of_lt (abs_tmod_lt a (m := 131072) (by norm_num))
  have hs' := Int.le_sub_one_of_lt hs
  have hv : |a.tdiv 131072 * s| < 2 ^ 53 := by
    rw [abs_mul]
    have := mul_le_mul ha1 hs' (abs_nonneg s) (by norm_num)
    norm_num at this ⊢
    linarith
  have hr := sub_mul_div fl hv (by linarith) hm0 (by linarith)
  have hr' := Int.le_sub_one_of_lt (abs_tmod_lt (a.tdiv 131072 * s) hm0)
  have hlow : |a.tmod 131072 * s| ≤ 131071 * (2 ^ 35 - 1) := by
    rw [abs_mul]
    exact mul_le_mul ha' hs' (abs_nonneg s) (by norm_num)
  have hhigh : |(a.tdiv 131072 * s).tmod m * 131072| ≤ (2 ^ 35 - 2) * 131072 := by
    rw [abs_mul]
    exact mul_le_mul_of_nonneg_right (by linarith) (by norm_num)
  rw [h17]
  dsimp only
  rw [hrest, hdiv, fl.mul_intCast hv.le, hr, fl.mul_intCast (hhigh.trans (by norm_num)),
    fl.mul_intCast (hlow.trans (by norm_num))]
  obtain ⟨hlo1, hlo2⟩ := abs_le.mp hlow
  obtain ⟨hhi1, hhi2⟩ := abs_le.mp hhigh
  norm_num at hlo1 hlo2 hhi1 hhi2
  rw [fl.add_intCast (abs_le.mpr ⟨by linarith, by linarith⟩),
    fl.add_intCast (abs_le.mpr ⟨by linarith, by linarith⟩)]
  refine ⟨_, rfl, abs_lt.mpr ⟨by linarith, by linarith⟩, ?_⟩
  have hmod : (a.tdiv 131072 * s).tmod m * 131072 + a.tmod 131072 * s + c =
      a * s + c + m * (-((a.tdiv 131072 * s).tdiv m) * 131072) := by
    rw [Int.tmod_def, Int.tmod_def]
    ring
  rw [hmod, Int.add_mul_emod_self_left]

/-- **`MultModM` computes `(a * s + c) mod m`**, if no intermediate quotient leaves `int32_t` and
the product does not fall below `-2 ^ 53`. -/
theorem multModM_eq (ha : |a| < 2 ^ 35) (hs : |s| < 2 ^ 35) (hc0 : 0 ≤ c) (hc : c < 2 ^ 35)
    (hm : 2 ^ 22 ≤ m) (hm' : m < 2 ^ 35) (h : -2 ^ 53 ≤ a * s) :
    multModM fl a s c m = ((a * s + c) % m : ℤ) := by
  have hm0 : 0 < m := by linarith
  unfold multModM
  dsimp only
  split
  · obtain ⟨w, he, hw, hmod⟩ := decomposed_eq fl ha hs hc0 hc hm hm'
    rw [he, ← hmod]
    exact reduce_eq fl hw (by linarith) hm0 (by linarith)
  · rename_i hv
    obtain ⟨he, hw⟩ := add_mul_of_lt fl hc0 h hv
    rw [he]
    exact reduce_eq fl hw (by linarith) hm0 (by linarith)

/-- The greatest operands modulo `m1`. -/
theorem multModM_eq_greatest : multModM (Rounding.nearestEven 52) (4294967086 : ℤ) (4294967086 : ℤ)
    (4294967086 : ℤ) (4294967087 : ℤ) =
      ((4294967086 * 4294967086 + 4294967086) % 4294967087 : ℤ) :=
  multModM_eq (Rounding.nearestEven 52) (by decide) (by decide) (by decide) (by decide) (by decide)
    (by decide) (by decide)

end Exact

end MRG32k3a

end StabilizedRed
