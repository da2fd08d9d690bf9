import Mathlib

/-!
# Time and uniform random numbers (`core/model/nstime.h`, `random-variable-stream.cc`)

`UniformRandomVariable` is the object that a queue disc draws from. Its generator gives a stream of
numbers strictly between `0` and `1` (`RngStream::RandU01`); a statement for every stream `rng` is
a statement for all random draws. `drawn` is the position in the stream. Doubles are exact
rationals.
-/

namespace StabilizedRed

/-- `Time`: a number of time steps, of one nanosecond each. -/
abbrev Time := ℤ

/-- `Time::GetSeconds`. -/
def Time.getSeconds (t : Time) : ℚ := (t : ℚ) / 1000000000

theorem Time.getSeconds_nonneg {t : Time} (h : 0 ≤ t) : 0 ≤ t.getSeconds :=
  div_nonneg (by exact_mod_cast h) (by norm_num)

theorem Time.getSeconds_le {t u : Time} (h : t ≤ u) : t.getSeconds ≤ u.getSeconds :=
  div_le_div_of_nonneg_right (by exact_mod_cast h) (by norm_num)

/-- A number strictly between `0` and `1`, as `RandU01` gives it. -/
structure U01 where
  val : ℚ
  pos : 0 < val
  lt_one : val < 1

/-- The number `1 / 2`. -/
def U01.half : U01 := ⟨1 / 2, by norm_num, by norm_num⟩

/-- `UniformRandomVariable` with its default range from `0` to `1`. -/
structure UniformRandomVariable where
  isAntithetic : Bool := false
  /-- The numbers that `RandU01` gives, in order. -/
  rng : ℕ → U01
  /-- How many of them have been drawn. -/
  drawn : ℕ := 0

namespace UniformRandomVariable

/-- The variable that draws one number again and again. -/
def constant (u : U01) : UniformRandomVariable := { rng := fun _ => u }

/-- `GetValue (min, max)`. -/
def getValueIn (min max : ℚ) (x : UniformRandomVariable) : ℚ × UniformRandomVariable :=
  let v := min + (x.rng x.drawn).val * (max - min)
  let v := if x.isAntithetic then min + (max - v) else v
  (v, { x with drawn := x.drawn + 1 })

/-- `GetInteger (min, max)`: the conversion to `uint32_t` truncates. -/
def getInteger (min max : UInt32) (x : UniformRandomVariable) : UInt32 × UniformRandomVariable :=
  let (v, x) := x.getValueIn min.toNat (max.toNat + 1)
  (UInt32.ofNat ⌊v⌋.toNat, x)

/-- `GetValue ()`. -/
def getValue (x : UniformRandomVariable) : ℚ × UniformRandomVariable := x.getValueIn 0 1

/-- The state after one draw, whatever the number is used for. -/
def advance (x : UniformRandomVariable) : UniformRandomVariable := { x with drawn := x.drawn + 1 }

@[simp] theorem getInteger_snd (min max : UInt32) (x : UniformRandomVariable) :
    (x.getInteger min max).2 = x.advance := rfl

@[simp] theorem getValue_snd (x : UniformRandomVariable) : x.getValue.2 = x.advance := rfl

/-- The variable gives `u` again and again, as `constant u` does. -/
structure Repeats (u : U01) (x : UniformRandomVariable) : Prop where
  isAntithetic : x.isAntithetic = false
  rng (n : ℕ) : x.rng n = u

theorem repeats_constant (u : U01) : (constant u).Repeats u := ⟨rfl, fun _ => rfl⟩

theorem Repeats.advance {u : U01} {x : UniformRandomVariable} (h : x.Repeats u) :
    x.advance.Repeats u := ⟨h.isAntithetic, h.rng⟩

theorem Repeats.getValueIn {u : U01} {x : UniformRandomVariable} (h : x.Repeats u) (min max : ℚ) :
    (x.getValueIn min max).1 = min + u.val * (max - min) := by
  unfold UniformRandomVariable.getValueIn
  simp only [h.isAntithetic, h.rng, Bool.false_eq_true, if_false]

theorem Repeats.getValue {u : U01} {x : UniformRandomVariable} (h : x.Repeats u) :
    x.getValue.1 = u.val := by
  unfold UniformRandomVariable.getValue
  rw [h.getValueIn, zero_add, sub_zero, mul_one]

theorem Repeats.getInteger {u : U01} {x x' : UniformRandomVariable} (h : x.Repeats u)
    (h' : x'.Repeats u) (min max : UInt32) : (x.getInteger min max).1 = (x'.getInteger min max).1 := by
  unfold UniformRandomVariable.getInteger
  simp only [h.getValueIn, h'.getValueIn]

/-- A draw from a range lies strictly inside it. -/
theorem getValueIn_mem {min max : ℚ} (h : min < max) (x : UniformRandomVariable) :
    min < (x.getValueIn min max).1 ∧ (x.getValueIn min max).1 < max := by
  have hd : 0 < max - min := by linarith
  have hpos : 0 < (x.rng x.drawn).val * (max - min) := mul_pos (x.rng x.drawn).pos hd
  have hlt : (x.rng x.drawn).val * (max - min) < 1 * (max - min) :=
    mul_lt_mul_of_pos_right (x.rng x.drawn).lt_one hd
  unfold getValueIn
  simp only []
  split <;> constructor <;> linarith

theorem getValue_pos (x : UniformRandomVariable) : 0 < x.getValue.1 := (getValueIn_mem one_pos x).1

/-- `GetInteger (min, max)` is between `min` and `max`. -/
theorem getInteger_mem {min max : UInt32} (h : min ≤ max) (x : UniformRandomVariable) :
    min ≤ (x.getInteger min max).1 ∧ (x.getInteger min max).1 ≤ max := by
  have hle : min.toNat ≤ max.toNat := UInt32.le_iff_toNat_le.mp h
  have hmm : (min.toNat : ℚ) < (max.toNat : ℚ) + 1 := by exact_mod_cast Nat.lt_succ_of_le hle
  obtain ⟨h0, h1⟩ := getValueIn_mem hmm x
  have hdef : (x.getInteger min max).1 =
    UInt32.ofNat ⌊(x.getValueIn min.toNat (max.toNat + 1)).1⌋.toNat := rfl
  rw [hdef]
  generalize (x.getValueIn min.toNat (max.toNat + 1)).1 = v at h0 h1
  have hlo : (min.toNat : ℤ) ≤ ⌊v⌋ := Int.le_floor.mpr (by exact_mod_cast h0.le)
  have hhi : ⌊v⌋ < (max.toNat : ℤ) + 1 := Int.floor_lt.mpr (by exact_mod_cast h1)
  have hmax := max.toNat_lt
  have hv : (UInt32.ofNat ⌊v⌋.toNat).toNat = ⌊v⌋.toNat :=
    UInt32.toNat_ofNat_of_lt' (by simp only [UInt32.size]; omega)
  constructor <;> rw [UInt32.le_iff_toNat_le, hv] <;> omega

end UniformRandomVariable

end StabilizedRed
