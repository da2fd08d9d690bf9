import Mathlib

/-!
# Growing counters in words of 32 bits

A counter that only grows is kept modulo `2 ^ 32`. Two such counters that stay close to each other
are compared by their difference: taken without sign if it is known which of them is ahead
(`toNat_sub_ofNat`), and else with its sign (`toInt_sub_ofNat`). Both differences are those of the
counters themselves, however often the words have wrapped.
-/

namespace Serial

theorem toInt32_sub (x y : UInt32) : (x - y).toInt32 = x.toInt32 - y.toInt32 := rfl

/-- The counter `a` is ahead of `b` by less than `2 ^ 32`. -/
theorem toNat_sub_ofNat {a b : ℕ} (h : b ≤ a) (hlt : a - b < 2 ^ 32) :
    (UInt32.ofNat a - UInt32.ofNat b).toNat = a - b := by
  rw [← UInt32.ofNat_sub h]
  exact UInt32.toNat_ofNat_of_lt' hlt

/-- The counters differ by less than `2 ^ 31` in either direction. -/
theorem toInt_sub_ofNat {a b : ℕ} (hlo : (b : ℤ) - a ≤ 2 ^ 31) (hhi : (a : ℤ) - b < 2 ^ 31) :
    ((UInt32.ofNat a).toInt32 - (UInt32.ofNat b).toInt32).toInt = a - b := by
  rw [UInt32.toInt32_ofNat', UInt32.toInt32_ofNat', Int32.toInt_sub, Int32.toInt_ofNat',
    Int32.toInt_ofNat']
  simp only [Int32.size]
  rw [← Int.sub_bmod]
  exact Int.bmod_eq_of_le (by omega) (by omega)

/-- A nonnegative signed word is the word of its value. -/
theorem toUInt32_of_toInt {d : Int32} {n : ℕ} (h : d.toInt = n) : d.toUInt32 = UInt32.ofNat n := by
  have hd : d = Int32.ofNat n := by
    rw [← Int32.ofInt_toInt d, h]
    rfl
  rw [hd]
  exact Int32.toUInt32_ofNat'

/-- `a - b` if that is positive, else `0`, computed on signed words. -/
def posdiff (a b : Int32) : Int32 := max (a - b) 0

/-- On counters less than `2 ^ 31` apart, `posdiff` is the truncated difference. -/
theorem posdiff_ofNat {a b : ℕ} (hlo : (b : ℤ) - a ≤ 2 ^ 31) (hhi : (a : ℤ) - b < 2 ^ 31) :
    (posdiff (UInt32.ofNat a).toInt32 (UInt32.ofNat b).toInt32).toUInt32 =
      UInt32.ofNat (a - b) := by
  have hd := toInt_sub_ofNat hlo hhi
  apply toUInt32_of_toInt
  show (if (UInt32.ofNat a).toInt32 - (UInt32.ofNat b).toInt32 ≤ 0 then (0 : Int32)
    else (UInt32.ofNat a).toInt32 - (UInt32.ofNat b).toInt32).toInt = ((a - b : ℕ) : ℤ)
  split
  · rename_i hle
    rw [Int32.le_iff_toInt_le, hd, Int32.toInt_zero] at hle
    rw [Int32.toInt_zero]
    omega
  · rename_i hle
    rw [Int32.le_iff_toInt_le, hd, Int32.toInt_zero] at hle
    rw [hd]
    omega

theorem ofNat_eq_ofNat_iff {m n : ℕ} (hm : m < 2 ^ 32) (hn : n < 2 ^ 32) :
    UInt32.ofNat m = UInt32.ofNat n ↔ m = n := by
  rw [← UInt32.toNat_inj, UInt32.toNat_ofNat_of_lt' hm, UInt32.toNat_ofNat_of_lt' hn]

theorem ofNat_eq_zero_iff {n : ℕ} (h : n < 2 ^ 32) : UInt32.ofNat n = 0 ↔ n = 0 :=
  ofNat_eq_ofNat_iff (n := 0) h (by norm_num)

theorem ofNat_lt_ofNat_iff {m n : ℕ} (hm : m < 2 ^ 32) (hn : n < 2 ^ 32) :
    UInt32.ofNat m < UInt32.ofNat n ↔ m < n := by
  rw [UInt32.lt_iff_toNat_lt, UInt32.toNat_ofNat_of_lt' hm, UInt32.toNat_ofNat_of_lt' hn]

theorem ofNat_le_ofNat_iff {m n : ℕ} (hm : m < 2 ^ 32) (hn : n < 2 ^ 32) :
    UInt32.ofNat m ≤ UInt32.ofNat n ↔ m ≤ n := by
  rw [UInt32.le_iff_toNat_le, UInt32.toNat_ofNat_of_lt' hm, UInt32.toNat_ofNat_of_lt' hn]

/-- A choice between words by a condition on words is a choice between the counters. -/
theorem ite_ofNat {p q : Prop} [Decidable p] [Decidable q] (h : p ↔ q) {m n : ℕ} :
    (if p then UInt32.ofNat m else UInt32.ofNat n) = UInt32.ofNat (if q then m else n) := by
  by_cases hq : q
  · rw [if_pos (h.mpr hq), if_pos hq]
  · rw [if_neg (mt h.mp hq), if_neg hq]

theorem ite_lt_ofNat {m n : ℕ} (hm : m < 2 ^ 32) (hn : n < 2 ^ 32) :
    (if UInt32.ofNat m < UInt32.ofNat n then UInt32.ofNat m else UInt32.ofNat n) =
      UInt32.ofNat (min m n) := by
  rw [ite_ofNat (ofNat_lt_ofNat_iff hm hn), min_def_lt]

theorem max_ofNat {m n : ℕ} (hm : m < 2 ^ 32) (hn : n < 2 ^ 32) :
    max (UInt32.ofNat m) (UInt32.ofNat n) = UInt32.ofNat (max m n) := by
  show (if UInt32.ofNat m ≤ UInt32.ofNat n then UInt32.ofNat n else UInt32.ofNat m) = _
  rw [ite_ofNat (ofNat_le_ofNat_iff hm hn), max_def]

theorem min_ofNat {m n : ℕ} (hm : m < 2 ^ 32) (hn : n < 2 ^ 32) :
    min (UInt32.ofNat m) (UInt32.ofNat n) = UInt32.ofNat (min m n) := by
  show (if UInt32.ofNat m ≤ UInt32.ofNat n then UInt32.ofNat m else UInt32.ofNat n) = _
  rw [ite_ofNat (ofNat_le_ofNat_iff hm hn), min_def]

end Serial
