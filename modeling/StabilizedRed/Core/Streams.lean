import StabilizedRed.Core.RngStream

/-!
# Streams and substreams of random numbers

`AdvanceNthBy` multiplies the two halves of the state with powers of the matrices
(`RngStream.At.advanceNthBy`). So a stream is the generator itself after `stream * 2 ^ 127` draws,
and a substream after `2 ^ 76` for each substream before it (`RngStream.new_eq_iterate`).

A state never runs into zeros, and every draw is strictly between `0` and `1`
(`RngStream.new_draws`).
-/

namespace StabilizedRed

open MRG32k3a

namespace RngStream

variable (fl : Rounding 53) {r : RngStream} {x : Fin 3 → ZMod M1} {y : Fin 3 → ZMod M2}

/-! ## Jumps -/

theorem At.advanceBit (h : r.At x y) (nth : UInt64) {by_ : ℕ} (hby : by_ ≤ 127) (h1 : 1 ≤ by_)
    (i : Fin 64) :
    let n := nth.toNat / 2 ^ (63 - i.val) % 2 * 2 ^ (by_ + (63 - i.val))
    (RngStream.advanceBit fl nth by_ hby r i).At ((A1 ^ n).mulVec x) ((A2 ^ n).mulVec y) := by
  have hbit : (nth >>> UInt64.ofNat (63 - i.val)) &&& 1 = 1 ↔
      nth.toNat / 2 ^ (63 - i.val) % 2 = 1 := by
    have hk : (UInt64.ofNat (63 - i.val)).toNat % 64 = 63 - i.val := by
      rw [UInt64.toNat_ofNat_of_lt' (by simp only [UInt64.size]; omega)]
      omega
    rw [← UInt64.toNat_inj, UInt64.toNat_and, UInt64.toNat_shiftRight, hk, UInt64.toNat_one,
      Nat.and_one_is_mod, Nat.shiftRight_eq_div_pow]
  unfold RngStream.advanceBit
  dsimp only
  by_cases hb : nth.toNat / 2 ^ (63 - i.val) % 2 = 1
  · rw [if_pos (hbit.mpr hb), hb, one_mul]
    obtain ⟨he1, he2⟩ := powerOfTwoMatrix_spec fl (n := by_ + (63 - i.val))
      (by omega) (by omega)
    constructor <;> intro j
    · rw [m1_eq]
      exact matVecModM_spec fl (by decide) (by decide) he1 (fun k => (h.component1 k).entry) j
    · rw [m2_eq]
      exact matVecModM_spec fl (by decide) (by decide) he2 (fun k => (h.component2 k).entry) j
  · have h0 : nth.toNat / 2 ^ (63 - i.val) % 2 = 0 := by omega
    rw [if_neg fun hc => hb (hbit.mp hc), h0, zero_mul]
    simpa using h

/-- The loop of `AdvanceNthBy`, over some of the bits. -/
theorem At.foldl_advanceBit (h : r.At x y) (nth : UInt64) {by_ : ℕ} (hby : by_ ≤ 127)
    (h1 : 1 ≤ by_) (l : List (Fin 64)) :
    let n := (l.map fun i => nth.toNat / 2 ^ (63 - i.val) % 2 * 2 ^ (by_ + (63 - i.val))).sum
    (l.foldl (RngStream.advanceBit fl nth by_ hby) r).At ((A1 ^ n).mulVec x)
      ((A2 ^ n).mulVec y) := by
  induction l generalizing r x y with
  | nil => simpa using h
  | cons i l ih =>
    have hl := ih (h.advanceBit fl nth hby h1 i)
    simp only [Matrix.mulVec_mulVec, ← pow_add] at hl
    simpa only [List.foldl_cons, List.map_cons, List.sum_cons, Nat.add_comm] using hl

/-- The bits of a number make it up. -/
theorem sum_bits (n k : ℕ) : ∑ j ∈ Finset.range k, n / 2 ^ j % 2 * 2 ^ j = n % 2 ^ k := by
  induction k with
  | zero => simp [Nat.mod_one]
  | succ k ih => rw [Finset.sum_range_succ, ih, Nat.mod_pow_succ, mul_comm (2 ^ k)]

theorem sum_exponents (nth : UInt64) (by_ : ℕ) :
    ((List.finRange 64).map fun i =>
      nth.toNat / 2 ^ (63 - i.val) % 2 * 2 ^ (by_ + (63 - i.val))).sum = nth.toNat * 2 ^ by_ := by
  have hbits := sum_bits nth.toNat 64
  rw [Nat.mod_eq_of_lt nth.toNat_lt, ← Finset.sum_range_reflect] at hbits
  rw [← Fin.sum_univ_def, Fin.sum_univ_eq_sum_range fun i =>
    nth.toNat / 2 ^ (63 - i) % 2 * 2 ^ (by_ + (63 - i))]
  conv_rhs => rw [← hbits]
  rw [Finset.sum_mul]
  refine Finset.sum_congr rfl fun i _ => ?_
  have hi : 64 - 1 - i = 63 - i := rfl
  rw [hi, pow_add]
  ring

/-- **A jump.** -/
theorem At.advanceNthBy (h : r.At x y) (nth : UInt64) {by_ : ℕ} (hby : by_ ≤ 127) (h1 : 1 ≤ by_) :
    (RngStream.advanceNthBy fl nth by_ hby r).At ((A1 ^ (nth.toNat * 2 ^ by_)).mulVec x)
      ((A2 ^ (nth.toNat * 2 ^ by_)).mulVec y) := by
  have hfold := h.foldl_advanceBit fl nth hby h1 (List.finRange 64)
  rw [sum_exponents] at hfold
  exact hfold

/-- The constructor accepts the seeds from `1` to `m2 - 1`. -/
def ValidSeed (seedNumber : UInt32) : Prop := 0 < seedNumber.toNat ∧ seedNumber.toNat < M2

/-- All numbers of the first state are the seed. -/
theorem at_seed {seedNumber : UInt32} (hs : ValidSeed seedNumber) :
    RngStream.At
      { component1 := #v[(seedNumber.toNat : ℚ), (seedNumber.toNat : ℚ), (seedNumber.toNat : ℚ)]
        component2 := #v[(seedNumber.toNat : ℚ), (seedNumber.toNat : ℚ), (seedNumber.toNat : ℚ)] }
      (fun _ => (seedNumber.toNat : ZMod M1)) fun _ => (seedNumber.toNat : ZMod M2) := by
  obtain ⟨-, hlt⟩ := hs
  have h1 : Reduced (seedNumber.toNat : ℚ) (seedNumber.toNat : ZMod M1) := by
    unfold Reduced
    rw [ZMod.val_natCast_of_lt (hlt.trans (by decide)), Int.cast_natCast]
  have h2 : Reduced (seedNumber.toNat : ℚ) (seedNumber.toNat : ZMod M2) := by
    unfold Reduced
    rw [ZMod.val_natCast_of_lt hlt, Int.cast_natCast]
  constructor <;> intro i
  · fin_cases i <;> exact h1
  · fin_cases i <;> exact h2

theorem new_at {seedNumber : UInt32} (hs : ValidSeed seedNumber) (stream substream : UInt64) :
    ∃ r, new fl seedNumber stream substream = some r ∧
      r.At ((A1 ^ (stream.toNat * 2 ^ 127 + substream.toNat * 2 ^ 76)).mulVec
          fun _ => (seedNumber.toNat : ZMod M1))
        ((A2 ^ (stream.toNat * 2 ^ 127 + substream.toNat * 2 ^ 76)).mulVec
          fun _ => (seedNumber.toNat : ZMod M2)) := by
  have hvalid : ¬ (m1 ≤ (seedNumber.toNat : ℚ) ∨ m2 ≤ (seedNumber.toNat : ℚ) ∨ seedNumber = 0) := by
    obtain ⟨h0, hlt⟩ := hs
    have hltq : (seedNumber.toNat : ℚ) < M2 := by exact_mod_cast hlt
    have h12 : m2 ≤ m1 := by norm_num [m1, m2]
    rw [m2_eq, Int.cast_natCast] at h12
    rintro (h | h | rfl)
    · linarith
    · rw [m2_eq, Int.cast_natCast] at h
      linarith
    · exact absurd h0 (lt_irrefl 0)
  have hstream := (at_seed hs).advanceNthBy fl stream (le_refl 127) (by decide)
  have hjump := hstream.advanceNthBy fl substream (show 76 ≤ 127 by decide) (by decide)
  rw [Matrix.mulVec_mulVec, Matrix.mulVec_mulVec, ← pow_add, ← pow_add, add_comm] at hjump
  exact ⟨_, if_neg hvalid, hjump⟩

/-- **A stream is the generator after a jump.** Stream `stream` and substream `substream` of a seed
are the generator of the seed after `stream * 2 ^ 127 + substream * 2 ^ 76` draws. -/
theorem new_eq_iterate {seedNumber : UInt32} (hs : ValidSeed seedNumber)
    (stream substream : UInt64) :
    new fl seedNumber stream substream = (new fl seedNumber 0 0).map
      (drawn fl)^[stream.toNat * 2 ^ 127 + substream.toNat * 2 ^ 76] := by
  obtain ⟨r, hr, hat⟩ := new_at fl hs stream substream
  obtain ⟨r₀, hr₀, hat₀⟩ := new_at fl hs 0 0
  have hit := hat₀.iterate fl (stream.toNat * 2 ^ 127 + substream.toNat * 2 ^ 76)
  rw [hr, hr₀, Option.map_some]
  congr 1
  refine hat.unique ?_
  simpa [Matrix.mulVec_mulVec] using hit

theorem new_eq_iterate_firstRun :
    new (Rounding.nearestEven 52) 1 0 1 = (new (Rounding.nearestEven 52) 1 0 0).map
      (drawn (Rounding.nearestEven 52))^[(0 : UInt64).toNat * 2 ^ 127 +
        (1 : UInt64).toNat * 2 ^ 76] :=
  new_eq_iterate (Rounding.nearestEven 52) ⟨by decide, by decide⟩ 0 1

/-! ## What a draw can be -/

theorem norm_bounds : 1 / 2 ^ 32 ≤ norm fl ∧
    norm fl ≤ ((2 ^ 52 + 218103819 : ℤ) : ℚ) / 2 ^ 84 := by
  have hadd : fl.add m1 1 = ((4294967088 : ℤ) : ℚ) := by
    have h := fl.add_intCast (a := 4294967087) (b := 1) (by norm_num)
    simpa [m1] using h
  unfold MRG32k3a.norm
  rw [hadd]
  constructor
  · have hfloat : IsFloat 53 (((1 : ℤ) : ℚ) / 2 ^ 32) := .div_two_pow (by norm_num) 32
    rw [Int.cast_one] at hfloat
    exact fl.le_round hfloat (by norm_num)
  · exact fl.round_le (.div_two_pow (by norm_num) 84) (by norm_num)

theorem At.randU01_mem (h : r.At x y) :
    1 / 2 ^ 32 ≤ (r.randU01 fl).1 ∧ (r.randU01 fl).1 ≤ 1 - 1 / 2 ^ 33 := by
  have he := congrArg Prod.fst (h.randU01_eq fl)
  have hM : ((M1 : ℕ) : ℤ) = 4294967087 := rfl
  have hp1 : (A1.mulVec x 2).val < 4294967087 := ZMod.val_lt _
  have hp2 : (A2.mulVec y 2).val < 4294944443 := ZMod.val_lt _
  obtain ⟨n, hn, hn', he⟩ : ∃ n : ℤ, 1 ≤ n ∧ n ≤ 4294967087 ∧
      (r.randU01 fl).1 = fl.mul n (norm fl) := by
    refine ⟨_, ?_, ?_, he⟩ <;> split_ifs <;> rw [hM] at * <;> omega
  obtain ⟨hlo, hhi⟩ := norm_bounds fl
  have hnq : (1 : ℚ) ≤ n := by exact_mod_cast hn
  have hnq' : (n : ℚ) ≤ 4294967087 := by exact_mod_cast hn'
  have hpos : 0 < norm fl := lt_of_lt_of_le (by norm_num) hlo
  rw [he]
  constructor
  · have hfloat : IsFloat 53 (((1 : ℤ) : ℚ) / 2 ^ 32) := .div_two_pow (by norm_num) 32
    rw [Int.cast_one] at hfloat
    refine fl.le_round hfloat (hlo.trans ?_)
    exact le_mul_of_one_le_left hpos.le hnq
  · have hfloat : IsFloat 53 (((2 ^ 33 - 1 : ℤ) : ℚ) / 2 ^ 33) := .div_two_pow (by norm_num) 33
    have heq : ((2 ^ 33 - 1 : ℤ) : ℚ) / 2 ^ 33 = 1 - 1 / 2 ^ 33 := by norm_num
    rw [heq] at hfloat
    refine fl.round_le hfloat ?_
    calc (n : ℚ) * norm fl
        ≤ 4294967087 * (((2 ^ 52 + 218103819 : ℤ) : ℚ) / 2 ^ 84) :=
          mul_le_mul hnq' hhi hpos.le (by norm_num)
      _ ≤ 1 - 1 / 2 ^ 33 := by norm_num

/-- A factor with an inverse. -/
theorem eq_zero_of_mul {M : Type*} [CommRing M] {a b z : M} (h : b * a = 1) (hz : a * z = 0) :
    z = 0 := by
  rw [← one_mul z, ← h, mul_assoc, hz, mul_zero]

/-- A step does not lead to the zero vector. -/
theorem a1_mulVec_ne_zero {x : Fin 3 → ZMod M1} (hx : x ≠ 0) : A1.mulVec x ≠ 0 := by
  intro h
  rw [a1_mulVec] at h
  have h1 : x 1 = 0 := congrFun h 0
  have h2 : x 2 = 0 := congrFun h 1
  have h0 : 1403580 * x 1 - 810728 * x 0 = 0 := congrFun h 2
  rw [h1, mul_zero, zero_sub, neg_eq_zero] at h0
  have h0' : x 0 = 0 := eq_zero_of_mul (b := 2349796154) (by decide) h0
  refine hx (funext fun i => ?_)
  fin_cases i
  · exact h0'
  · exact h1
  · exact h2

theorem a2_mulVec_ne_zero {y : Fin 3 → ZMod M2} (hy : y ≠ 0) : A2.mulVec y ≠ 0 := by
  intro h
  rw [a2_mulVec] at h
  have h1 : y 1 = 0 := congrFun h 0
  have h2 : y 2 = 0 := congrFun h 1
  have h0 : 527612 * y 2 - 1370589 * y 0 = 0 := congrFun h 2
  rw [h2, mul_zero, zero_sub, neg_eq_zero] at h0
  have h0' : y 0 = 0 := eq_zero_of_mul (b := 69372715) (by decide) h0
  refine hy (funext fun i => ?_)
  fin_cases i
  · exact h0'
  · exact h1
  · exact h2

/-- What is true of a generator: the state is made of integers below the moduli, and neither
component is zero. -/
def Running (r : RngStream) : Prop := ∃ x y, r.At x y ∧ x ≠ 0 ∧ y ≠ 0

theorem Running.drawn (h : Running r) : Running (r.drawn fl) := by
  obtain ⟨x, y, hat, hx, hy⟩ := h
  exact ⟨_, _, hat.draw fl, a1_mulVec_ne_zero hx, a2_mulVec_ne_zero hy⟩

theorem Running.iterate (h : Running r) (n : ℕ) : Running ((RngStream.drawn fl)^[n] r) := by
  induction n with
  | zero => exact h
  | succ n ih =>
    rw [Function.iterate_succ_apply']
    exact ih.drawn fl

theorem running_new {seedNumber : UInt32} (hs : ValidSeed seedNumber) (stream substream : UInt64) :
    ∃ r, new fl seedNumber stream substream = some r ∧ Running r := by
  have hbase : ∃ r, new fl seedNumber 0 0 = some r ∧ Running r := by
    obtain ⟨r, hr, hat⟩ := new_at fl hs 0 0
    obtain ⟨h0, hlt⟩ := hs
    refine ⟨r, hr, _, _, hat, fun hx => ?_, fun hy => ?_⟩
    · have hz : (seedNumber.toNat : ZMod M1) = 0 := by simpa using congrFun hx 0
      have hle := Nat.le_of_dvd h0 ((ZMod.natCast_eq_zero_iff _ _).mp hz)
      exact absurd (hlt.trans (by decide)) (not_lt.mpr hle)
    · have hz : (seedNumber.toNat : ZMod M2) = 0 := by simpa using congrFun hy 0
      exact absurd hlt (not_lt.mpr (Nat.le_of_dvd h0 ((ZMod.natCast_eq_zero_iff _ _).mp hz)))
  obtain ⟨r, hr, hrun⟩ := hbase
  refine ⟨_, ?_, hrun.iterate fl (stream.toNat * 2 ^ 127 + substream.toNat * 2 ^ 76)⟩
  rw [new_eq_iterate fl hs, hr, Option.map_some]

/-- **Every draw is a number.** Whatever the seed, the stream and the substream, after any number of
draws the state is made of integers below the moduli, it has not run into zeros, and the next draw
is strictly between `0` and `1`. -/
theorem new_draws {seedNumber : UInt32} (hs : ValidSeed seedNumber) (stream substream : UInt64)
    (n : ℕ) : ∃ r, new fl seedNumber stream substream = some r ∧
      Running ((RngStream.drawn fl)^[n] r) ∧
      0 < (((RngStream.drawn fl)^[n] r).randU01 fl).1 ∧
      (((RngStream.drawn fl)^[n] r).randU01 fl).1 < 1 := by
  obtain ⟨r, hr, hrun⟩ := running_new fl hs stream substream
  obtain ⟨x, y, hat, hx, hy⟩ := hrun.iterate fl n
  obtain ⟨hlo, hhi⟩ := hat.randU01_mem fl
  exact ⟨r, hr, ⟨x, y, hat, hx, hy⟩, lt_of_lt_of_le (by norm_num) hlo, lt_of_le_of_lt hhi (by norm_num)⟩

theorem new_draws_firstRun : ∃ r, new (Rounding.nearestEven 52) 1 0 1 = some r ∧
    Running ((RngStream.drawn (Rounding.nearestEven 52))^[7] r) ∧
    0 < (((RngStream.drawn (Rounding.nearestEven 52))^[7] r).randU01 (Rounding.nearestEven 52)).1 ∧
    (((RngStream.drawn (Rounding.nearestEven 52))^[7] r).randU01 (Rounding.nearestEven 52)).1 < 1 :=
  new_draws (Rounding.nearestEven 52) ⟨by decide, by decide⟩ 0 1 7

end RngStream

end StabilizedRed
