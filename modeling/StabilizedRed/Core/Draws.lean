import StabilizedRed.Core.Streams
import StabilizedRed.Lib.Machine

/-!
# `UniformRandomVariable` on a generator

`UniformDraws` is the random variable with its generator, in doubles. `GetValue` and
`GetInteger (0, max)` give numbers in the ranges that the callers rely on, also on an antithetic
variable (`UniformDraws.getValueIn_mem`): rounding does not reach the end of the range.

So the variable of `StabilizedRed.UniformRandomVariable`, on exact rationals and any numbers between
`0` and `1`, leaves nothing out: every sequence of requests is answered by it in the same way on
some numbers (`UniformDraws.new_answers`).
-/

namespace StabilizedRed

/-- `UniformRandomVariable`, with its generator and its default range from `0` to `1`. -/
structure UniformDraws where
  isAntithetic : Bool := false
  rng : RngStream

/-- `static_cast<uint32_t>` of a double. A value out of range would be undefined. -/
def toUInt32 (x : ℚ) : UInt32 := UInt32.ofNat (truncate x).toNat

/-- What a queue disc asks of a uniform random variable. -/
inductive Request where
  /-- `GetValue ()`. -/
  | value
  /-- `GetInteger (0, max)`. -/
  | integer (max : UInt32)
  deriving DecidableEq, Repr

/-- The end of the range of an answer. -/
def Request.bound : Request → ℤ
  | value => 1
  | integer max => max.toNat + 1

theorem Request.bound_mem (q : Request) : 1 ≤ q.bound ∧ q.bound ≤ 2 ^ 32 := by
  cases q with
  | value => exact ⟨le_rfl, by decide⟩
  | integer max =>
    have := max.toNat_lt
    simp only [Request.bound]
    omega

namespace UniformRandomVariable

/-- The answer on exact rationals. -/
def answer (x : UniformRandomVariable) : Request → ℚ × UniformRandomVariable
  | .value => x.getValue
  | .integer max => ((x.getInteger 0 max).1.toNat, (x.getInteger 0 max).2)

/-- The variable under requests. -/
def machine : Machine UniformRandomVariable Request ℚ where
  step := answer

/-- The number that an answer comes from. -/
theorem answer_eq (x : UniformRandomVariable) (q : Request) :
    let v := (x.getValueIn 0 q.bound).1
    x.answer q = (match q with | .value => v | .integer _ => (UInt32.ofNat ⌊v⌋.toNat).toNat,
      x.advance) := by
  cases q with
  | value =>
    simp only [answer, getValue, Request.bound, Int.cast_one]
    rfl
  | integer max =>
    simp only [answer, getInteger, Request.bound]
    push_cast
    rfl

end UniformRandomVariable

namespace UniformDraws

variable (fl : Rounding 53)

/-- `GetValue (min, max)`. -/
def getValueIn (min max : ℚ) (x : UniformDraws) : ℚ × UniformDraws :=
  let (u, rng) := x.rng.randU01 fl
  let v := fl.add min (fl.mul u (fl.sub max min))
  let v := if x.isAntithetic then fl.add min (fl.sub max v) else v
  (v, { x with rng := rng })

/-- `GetInteger (min, max)`. -/
def getInteger (min max : UInt32) (x : UniformDraws) : UInt32 × UniformDraws :=
  let (v, x) := x.getValueIn fl min.toNat (fl.add max.toNat 1)
  (toUInt32 v, x)

/-- `GetValue ()`. -/
def getValue (x : UniformDraws) : ℚ × UniformDraws := x.getValueIn fl 0 1

def answer (x : UniformDraws) : Request → ℚ × UniformDraws
  | .value => x.getValue fl
  | .integer max => ((x.getInteger fl 0 max).1.toNat, (x.getInteger fl 0 max).2)

/-- The variable under requests. -/
def machine : Machine UniformDraws Request ℚ where
  step := answer fl

/-! ## One draw -/

variable {x : UniformDraws}

/-- The number that an answer comes from. -/
theorem answer_eq (x : UniformDraws) (q : Request) :
    let v := (x.getValueIn fl 0 q.bound).1
    x.answer fl q = (match q with | .value => v | .integer _ => (toUInt32 v).toNat,
      { x with rng := x.rng.drawn fl }) := by
  cases q with
  | value =>
    simp only [answer, getValue, Request.bound, Int.cast_one]
    rfl
  | integer max =>
    have hadd : fl.add (max.toNat : ℚ) 1 = ((max.toNat + 1 : ℤ) : ℚ) := by
      have hlt := max.toNat_lt
      have h := fl.add_intCast (a := max.toNat) (b := 1) (by rw [abs_of_nonneg] <;> omega)
      simpa using h
    simp only [answer, getInteger, Request.bound, hadd, UInt32.toNat_zero, Nat.cast_zero]
    rfl

/-- **A draw from a range that starts at zero does not reach its end.** -/
theorem getValueIn_mem (h : x.rng.Running) {m : ℤ} (hm : 1 ≤ m) (hm' : m ≤ 2 ^ 32) :
    0 < (x.getValueIn fl 0 m).1 ∧ (x.getValueIn fl 0 m).1 < m := by
  obtain ⟨_, _, hat, -, -⟩ := h
  obtain ⟨hlo, hhi⟩ := hat.randU01_mem fl
  have hmq : (1 : ℚ) ≤ m := by exact_mod_cast hm
  have hsub : fl.sub (m : ℚ) 0 = m := by
    have h := fl.sub_intCast (a := m) (b := 0) (by rw [abs_of_nonneg] <;> omega)
    simpa using h
  have hadd {w : ℚ} (hw : IsFloat 53 w) : fl.add 0 w = w := by
    unfold Rounding.add
    rw [zero_add, fl.eq_self hw]
  unfold getValueIn
  dsimp only
  rw [hsub]
  generalize (x.rng.randU01 fl).1 = u at hlo hhi
  have hw : (m : ℚ) / 2 ^ 32 ≤ fl.mul u m := by
    refine fl.le_round (.div_two_pow (by rw [abs_of_nonneg] <;> omega) 32) ?_
    rw [div_eq_mul_one_div, mul_comm]
    exact mul_le_mul_of_nonneg_right hlo (by linarith)
  obtain ⟨k, hk⟩ := fl.round_le_sub (x := u * m) (g := 33) hm (by norm_num)
    (hm'.trans_lt (by norm_num)) (by
    have := mul_le_mul_of_nonneg_right hhi (by linarith : (0 : ℚ) ≤ m)
    linarith)
  have hk : fl.mul u m ≤ m - 1 / 2 ^ k := hk
  have hpow : (0 : ℚ) < 1 / 2 ^ k := by positivity
  have hpos : (0 : ℚ) < m / 2 ^ 32 := by positivity
  have hv : fl.add 0 (fl.mul u m) = fl.mul u m := hadd (fl.isFloat _)
  have hv' : fl.add 0 (fl.sub m (fl.mul u m)) = fl.sub m (fl.mul u m) := hadd (fl.isFloat _)
  rw [hv, hv']
  split
  · obtain ⟨j, hj⟩ := fl.round_le_sub (x := m - fl.mul u m) (g := 33) hm (by norm_num)
      (hm'.trans_lt (by norm_num)) (by linarith)
    have hj : fl.sub m (fl.mul u m) ≤ m - 1 / 2 ^ j := hj
    have hjpow : (0 : ℚ) < 1 / 2 ^ j := by positivity
    have hfloat : IsFloat 53 (((1 : ℤ) : ℚ) / 2 ^ k) := .div_two_pow (by norm_num) k
    rw [Int.cast_one] at hfloat
    have hge : 1 / 2 ^ k ≤ fl.sub m (fl.mul u m) := fl.le_round hfloat (by linarith)
    constructor <;> linarith
  · constructor <;> linarith

/-! ## Runs -/

/-- Some number between `0` and `1` leads to the same answer. -/
theorem exists_answer (h : x.rng.Running) (q : Request) :
    ∃ u : U01, ∀ y : UniformRandomVariable, y.isAntithetic = x.isAntithetic → y.rng y.drawn = u →
      (y.answer q).1 = (x.answer fl q).1 := by
  obtain ⟨h1, h32⟩ := q.bound_mem
  obtain ⟨hpos, hlt⟩ := getValueIn_mem fl h h1 h32
  have hbound : (0 : ℚ) < q.bound := by exact_mod_cast h1
  have hv0 := div_pos hpos hbound
  have hv1 := (div_lt_one hbound).mpr hlt
  have hval : ∃ u : U01, ∀ y : UniformRandomVariable, y.isAntithetic = x.isAntithetic →
      y.rng y.drawn = u → (y.getValueIn 0 q.bound).1 = (x.getValueIn fl 0 q.bound).1 := by
    by_cases hanti : x.isAntithetic
    · refine ⟨⟨1 - _, sub_pos.mpr hv1, sub_lt_self _ hv0⟩, fun y hy hu => ?_⟩
      unfold UniformRandomVariable.getValueIn
      rw [hu, hy]
      dsimp only
      rw [if_pos hanti]
      field_simp
      ring
    · refine ⟨⟨_, hv0, hv1⟩, fun y hy hu => ?_⟩
      unfold UniformRandomVariable.getValueIn
      rw [hu, hy]
      dsimp only
      rw [if_neg hanti]
      field_simp
      ring
  obtain ⟨u, hu⟩ := hval
  refine ⟨u, fun y hy hyu => ?_⟩
  have hv := hu y hy hyu
  rw [answer_eq, UniformRandomVariable.answer_eq]
  dsimp only
  rw [hv]
  cases q with
  | value => rfl
  | integer max =>
    unfold toUInt32
    rw [truncate_of_nonneg hpos.le]

theorem answer_rng (x : UniformDraws) (q : Request) :
    (x.answer fl q).2 = { x with rng := x.rng.drawn fl } := by
  rw [answer_eq]

/-- The exact variable reads its numbers from `drawn` on. -/
theorem exact_outputs_congr {y z : UniformRandomVariable} (ha : z.isAntithetic = y.isAntithetic)
    (hd : z.drawn = y.drawn) (hr : ∀ n, y.drawn ≤ n → z.rng n = y.rng n) (qs : List Request) :
    UniformRandomVariable.machine.outputs z qs = UniformRandomVariable.machine.outputs y qs := by
  induction qs generalizing y z with
  | nil => rfl
  | cons q qs ih =>
    have hv : (z.getValueIn 0 q.bound).1 = (y.getValueIn 0 q.bound).1 := by
      unfold UniformRandomVariable.getValueIn
      rw [ha, hd, hr y.drawn le_rfl]
    have hz : z.answer q = (_, z.advance) := z.answer_eq q
    have hy : y.answer q = (_, y.advance) := y.answer_eq q
    have htail := ih (y := y.advance) (z := z.advance) ha (congrArg (· + 1) hd)
      fun n hn => hr n (Nat.le_of_succ_le hn)
    rw [Machine.outputs_cons, Machine.outputs_cons]
    have hout : UniformRandomVariable.machine.out z q = UniformRandomVariable.machine.out y q := by
      show (z.answer q).1 = (y.answer q).1
      rw [z.answer_eq, y.answer_eq, hv]
    have hnext : UniformRandomVariable.machine.next z q = z.advance := congrArg Prod.snd hz
    have hnext' : UniformRandomVariable.machine.next y q = y.advance := congrArg Prod.snd hy
    rw [hout, hnext, hnext', htail]

/-- **The exact variable answers like the one in doubles**: for every sequence of requests there are
numbers between `0` and `1` on which `UniformRandomVariable` gives the same answers. -/
theorem run_answers (h : x.rng.Running) (qs : List Request) (d : ℕ) :
    ∃ rng : ℕ → U01, (machine fl).outputs x qs =
      UniformRandomVariable.machine.outputs
        { isAntithetic := x.isAntithetic, rng := rng, drawn := d } qs := by
  induction qs generalizing x d with
  | nil => exact ⟨fun _ => .half, rfl⟩
  | cons q qs ih =>
    obtain ⟨u, hu⟩ := exists_answer fl h q
    obtain ⟨rng, htail⟩ := ih (x := { x with rng := x.rng.drawn fl }) (h.drawn fl) (d + 1)
    refine ⟨Function.update rng d u, ?_⟩
    have hnext : (machine fl).next x q = { x with rng := x.rng.drawn fl } := answer_rng fl x q
    have hhead := hu { isAntithetic := x.isAntithetic, rng := Function.update rng d u, drawn := d } rfl
      (Function.update_self d u rng)
    have hsnd := congrArg Prod.snd (UniformRandomVariable.answer_eq
      { isAntithetic := x.isAntithetic, rng := Function.update rng d u, drawn := d } q)
    rw [Machine.outputs_cons, Machine.outputs_cons, hnext, htail]
    congr 1
    · exact hhead.symm
    · show _ = UniformRandomVariable.machine.outputs (UniformRandomVariable.answer _ q).2 qs
      rw [hsnd]
      refine (exact_outputs_congr
        (y := { isAntithetic := x.isAntithetic, rng := rng, drawn := d + 1 })
        (z := { isAntithetic := x.isAntithetic, rng := Function.update rng d u, drawn := d + 1 })
        rfl rfl (fun n hn => ?_) qs).symm
      have hne : n ≠ d := (Nat.lt_of_succ_le hn).ne'
      exact Function.update_of_ne hne u rng

/-- For every seed, stream and substream. -/
theorem new_answers {seedNumber : UInt32} (hs : RngStream.ValidSeed seedNumber)
    (stream substream : UInt64) (isAntithetic : Bool) (qs : List Request) :
    ∃ r, RngStream.new fl seedNumber stream substream = some r ∧
      ∃ rng : ℕ → U01, (machine fl).outputs { isAntithetic := isAntithetic, rng := r } qs =
        UniformRandomVariable.machine.outputs { isAntithetic := isAntithetic, rng := rng } qs := by
  obtain ⟨r, hr, hrun⟩ := RngStream.running_new fl hs stream substream
  exact ⟨r, hr, run_answers fl (x := { isAntithetic := isAntithetic, rng := r }) hrun qs 0⟩

theorem new_answers_index :
    ∃ r, RngStream.new (Rounding.nearestEven 52) 1 0 1 = some r ∧
      ∃ rng : ℕ → U01, (machine (Rounding.nearestEven 52)).outputs
          { isAntithetic := false, rng := r } [.integer 999, .value, .value] =
        UniformRandomVariable.machine.outputs
          { isAntithetic := false, rng := rng } [.integer 999, .value, .value] :=
  new_answers (Rounding.nearestEven 52) ⟨by decide, by decide⟩ 0 1 false _

end UniformDraws

end StabilizedRed
