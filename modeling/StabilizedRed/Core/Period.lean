import StabilizedRed.Core.Streams
import StabilizedRed.Lib.Period

/-!
# The period of the generator

The matrices of the two recurrences have the greatest orders that they can have, `m1 ^ 3 - 1` and
`m2 ^ 3 - 1`. So the generator comes back to a state after the least common multiple of the two,
about `3.1 * 10 ^ 57` draws, and not before (`RngStream.minimalPeriod_drawn`). Its streams, except
some of the last, and their first `2 ^ 51` substreams have no state in common within `2 ^ 76` draws
(`RngStream.new_drawn_inj`).
-/

namespace StabilizedRed

open Function

namespace MRG32k3a

/-! ## Primes -/

theorem prime_half_m1 : Nat.Prime 2147483543 := by
  refine prime_of_pow (k := 1) 5 [2, 3137, 342283] (by norm_num) (by norm_num)
    (by norm_num; reduce_mod_char) ?_
  norm_num
  reduce_mod_char
  decide

theorem prime_half_m2 : Nat.Prime 2147472221 := by
  refine prime_of_pow (k := 2) 2 [2, 5, 109, 985079] (by norm_num) (by norm_num)
    (by norm_num; reduce_mod_char) ?_
  norm_num
  reduce_mod_char
  decide

theorem prime_m1 : Nat.Prime M1 := by
  refine prime_of_pow (k := 1) 5 [2, 2147483543] ?_ (by norm_num) (by norm_num; reduce_mod_char) ?_
  · simpa using ⟨Nat.prime_two, prime_half_m1⟩
  · norm_num
    reduce_mod_char
    decide

theorem prime_m2 : Nat.Prime M2 := by
  refine prime_of_pow (k := 1) 2 [2, 2147472221] ?_ (by norm_num) (by norm_num; reduce_mod_char) ?_
  · simpa using ⟨Nat.prime_two, prime_half_m2⟩
  · norm_num
    reduce_mod_char
    decide

/-- `m1 ^ 2 + m1 + 1`. -/
theorem prime_quotient_m1 : Nat.Prime 18446742282708232657 := by
  refine prime_of_pow (k := 4) 5 [2, 3, 79, 1132639, M1] ?_ (by norm_num)
    (by norm_num; reduce_mod_char) ?_
  · have h : Nat.Prime 79 ∧ Nat.Prime 1132639 := by norm_num
    simpa using ⟨Nat.prime_two, Nat.prime_three, h.1, h.2, prime_m1⟩
  · norm_num
    reduce_mod_char
    decide

/-- `m2 ^ 2 + m2 + 1`. -/
theorem prime_quotient_m2 : Nat.Prime 18446547772751524693 := by
  refine prime_of_pow (k := 2) 5 [2, 3, 7, 51130291, M2] ?_ (by norm_num)
    (by norm_num; reduce_mod_char) ?_
  · have h : Nat.Prime 7 ∧ Nat.Prime 51130291 := by norm_num
    simpa using ⟨Nat.prime_two, Nat.prime_three, h.1, h.2, prime_m2⟩
  · norm_num
    reduce_mod_char
    decide

/-! ## The orders of the matrices -/

/-- `A1` on natural numbers. -/
def next1 : Mat3 := ⟨0, 1, 0, 0, 0, 1, 4294156359, 1403580, 0⟩

/-- `A2` on natural numbers. -/
def next2 : Mat3 := ⟨0, 1, 0, 0, 0, 1, 4293573854, 0, 527612⟩

theorem toMatrix_next1 : next1.toMatrix M1 = A1 := by
  ext i j
  fin_cases i <;> fin_cases j <;> decide

theorem toMatrix_next2 : next2.toMatrix M2 = A2 := by
  ext i j
  fin_cases i <;> fin_cases j <;> decide

/-- **The first recurrence has full period.** -/
theorem minimalPeriod_a1 {x : Fin 3 → ZMod M1} (hx : x ≠ 0) :
    minimalPeriod A1.mulVec x = M1 ^ 3 - 1 := by
  rw [← toMatrix_next1]
  refine Mat3.minimalPeriod_mulVec (k := 1) [2, 2147483543, 18446742282708232657]
    (show M1 ^ 3 - 1 < 2 ^ 96 by norm_num) ?_ (by norm_num) (by decide +kernel) ?_ hx
  · simpa using ⟨Nat.prime_two, prime_half_m1, prime_quotient_m1⟩
  · simp only [List.forall_mem_cons, List.not_mem_nil, false_implies, implies_true, and_true]
    refine ⟨⟨⟨2147483543, 0, 0, 0, 2147483543, 0, 0, 0, 2147483543⟩, by decide +kernel⟩,
      ⟨⟨2742677830, 0, 0, 0, 2742677830, 0, 0, 0, 2742677830⟩, by decide +kernel⟩,
      ⟨⟨57705355, 4019769773, 1335014619, 2268858455, 225859189, 4019769773, 3807683290, 97909506,
        225859189⟩, by decide +kernel⟩⟩

/-- **The second recurrence has full period.** -/
theorem minimalPeriod_a2 {y : Fin 3 → ZMod M2} (hy : y ≠ 0) :
    minimalPeriod A2.mulVec y = M2 ^ 3 - 1 := by
  rw [← toMatrix_next2]
  refine Mat3.minimalPeriod_mulVec (k := 1) [2, 2147472221, 18446547772751524693]
    (show M2 ^ 3 - 1 < 2 ^ 96 by norm_num) ?_ (by norm_num) (by decide +kernel) ?_ hy
  · simpa using ⟨Nat.prime_two, prime_half_m2, prime_quotient_m2⟩
  · simp only [List.forall_mem_cons, List.not_mem_nil, false_implies, implies_true, and_true]
    refine ⟨⟨⟨2147472221, 0, 0, 0, 2147472221, 0, 0, 0, 2147472221⟩, by decide +kernel⟩,
      ⟨⟨918831244, 0, 0, 0, 918831244, 0, 0, 0, 918831244⟩, by decide +kernel⟩,
      ⟨⟨3543742517, 2896221983, 946255174, 260997452, 3543742517, 1254198822, 274842390, 260997452,
        3212393685⟩, by decide +kernel⟩⟩

end MRG32k3a

open MRG32k3a

/-! ## The generator -/

namespace RngStream

variable (fl : Rounding 53) {r : RngStream}

/-- The period of the generator. -/
def period : ℕ := Nat.lcm (M1 ^ 3 - 1) (M2 ^ 3 - 1)

theorem At.inj {x x' : Fin 3 → ZMod M1} {y y' : Fin 3 → ZMod M2} (h : r.At x y) (h' : r.At x' y') :
    x = x' ∧ y = y' := by
  have hval {M : ℕ} [NeZero M] {q : ℚ} {z z' : ZMod M} (hz : Reduced q z) (hz' : Reduced q z') :
      z = z' := by
    have he : ((z.val : ℤ) : ℚ) = (z'.val : ℤ) := hz.symm.trans hz'
    exact ZMod.val_injective M (by exact_mod_cast he)
  exact ⟨funext fun i => hval (h.component1 i) (h'.component1 i),
    funext fun i => hval (h.component2 i) (h'.component2 i)⟩

/-- **The generator comes back to a state after its period and not before.** -/
theorem minimalPeriod_drawn (h : Running r) : minimalPeriod (drawn fl) r = period := by
  obtain ⟨x, y, hat, hx, hy⟩ := h
  have hiff (n : ℕ) : IsPeriodicPt (drawn fl) n r ↔ period ∣ n := by
    rw [period, Nat.lcm_dvd_iff, ← minimalPeriod_a1 hx, ← minimalPeriod_a2 hy,
      ← isPeriodicPt_iff_minimalPeriod_dvd, ← isPeriodicPt_iff_minimalPeriod_dvd]
    have hn := hat.iterate fl n
    rw [← iterate_mulVec, ← iterate_mulVec] at hn
    constructor
    · intro hper
      have hr : (drawn fl)^[n] r = r := hper
      rw [hr] at hn
      obtain ⟨hx', hy'⟩ := hn.inj hat
      exact ⟨hx', hy'⟩
    · rintro ⟨hx', hy'⟩
      have hx' : (A1.mulVec)^[n] x = x := hx'
      have hy' : (A2.mulVec)^[n] y = y := hy'
      rw [hx', hy'] at hn
      exact hn.unique hat
  refine Nat.dvd_antisymm ?_ ?_
  · exact isPeriodicPt_iff_minimalPeriod_dvd.mp ((hiff period).mpr dvd_rfl)
  · exact (hiff _).mp (isPeriodicPt_minimalPeriod _ _)

/-- Whatever the seed, the stream and the substream. -/
theorem new_minimalPeriod {seedNumber : UInt32} (hs : ValidSeed seedNumber)
    (stream substream : UInt64) :
    ∃ r, new fl seedNumber stream substream = some r ∧ minimalPeriod (drawn fl) r = period := by
  obtain ⟨r, hr, hrun⟩ := running_new fl hs stream substream
  exact ⟨r, hr, minimalPeriod_drawn fl hrun⟩

theorem new_minimalPeriod_firstRun :
    ∃ r, new (Rounding.nearestEven 52) 1 0 1 = some r ∧
      minimalPeriod (drawn (Rounding.nearestEven 52)) r = period :=
  new_minimalPeriod (Rounding.nearestEven 52) ⟨by decide, by decide⟩ 0 1

theorem period_eq : period = 3138500310241109354368945108483880589370355473753018713806 := by
  norm_num [period]

/-- The number of streams that fit the period whole. -/
def wholeStreams : ℕ := period / 2 ^ 127

theorem wholeStreams_eq : wholeStreams = 18446446923712103913 := by
  norm_num [wholeStreams, period_eq]

/-- **Streams and substreams do not overlap.** The states of the whole streams, in their first
`2 ^ 51` substreams and within `2 ^ 76` draws, are all different. -/
theorem new_drawn_inj {seedNumber : UInt32} (hs : ValidSeed seedNumber)
    {stream stream' substream substream' : UInt64} (hstream : stream.toNat < wholeStreams)
    (hstream' : stream'.toNat < wholeStreams) (hsub : substream.toNat < 2 ^ 51)
    (hsub' : substream'.toNat < 2 ^ 51) {k k' : ℕ} (hk : k < 2 ^ 76) (hk' : k' < 2 ^ 76) :
    (new fl seedNumber stream substream).map (drawn fl)^[k] =
        (new fl seedNumber stream' substream').map (drawn fl)^[k'] ↔
      stream = stream' ∧ substream = substream' ∧ k = k' := by
  constructor
  · intro h
    obtain ⟨r, hr, hrun⟩ := running_new fl hs 0 0
    rw [new_eq_iterate fl hs stream, new_eq_iterate fl hs stream', hr] at h
    simp only [Option.map_some, Option.some.injEq, ← iterate_add_apply] at h
    have hinj := iterate_injOn_Iio_minimalPeriod (f := drawn fl) (x := r)
    rw [minimalPeriod_drawn fl hrun, period_eq] at hinj
    rw [wholeStreams_eq] at hstream hstream'
    have heq := hinj (by rw [Set.mem_Iio]; omega) (by rw [Set.mem_Iio]; omega) h
    rw [← UInt64.toNat_inj, ← UInt64.toNat_inj]
    omega
  · rintro ⟨rfl, rfl, rfl⟩
    rfl

end RngStream

end StabilizedRed
