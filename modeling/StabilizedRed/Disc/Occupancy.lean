import StabilizedRed.Disc.Calls

/-!
# The probability by occupancy

`occupancyStep p cap used` is the step function of the SRED scheme: `p` from a third of the buffer
on, `p / 4` from a sixth on, `0` below. `calculateProbabilityStabilizedRed` is this function of the
byte count of the internal queue, and `0` above the limit. The limit may be in packets, where the
decision to enqueue uses the packet count: `unitAgrees_iff` says in which states the value is that
of the occupancy in the unit of the limit.
-/

namespace StabilizedRed

/-- The share of `p` that an occupancy `used` of a buffer of size `cap` gives. -/
def occupancyStep (p : ℚ) (cap used : ℕ) : ℚ :=
  if cap ≤ 3 * used then p else if cap ≤ 6 * used then p / 4 else 0

section

variable {p : ℚ} {cap q q' : ℕ}

/-- **A fuller buffer never gives less.** -/
theorem occupancyStep_mono (hp : 0 ≤ p) (h : q ≤ q') :
    occupancyStep p cap q ≤ occupancyStep p cap q' := by
  unfold occupancyStep
  by_cases h3 : cap ≤ 3 * q
  · have h3' : cap ≤ 3 * q' := by omega
    rw [if_pos h3, if_pos h3']
  · rw [if_neg h3]
    by_cases h6 : cap ≤ 6 * q
    · have h6' : cap ≤ 6 * q' := by omega
      rw [if_pos h6, if_pos h6']
      split <;> linarith
    · rw [if_neg h6]
      split
      · exact hp
      · split <;> linarith

theorem occupancyStep_eq_zero_iff (hp : p ≠ 0) : occupancyStep p cap q = 0 ↔ 6 * q < cap := by
  unfold occupancyStep
  by_cases h3 : cap ≤ 3 * q
  · rw [if_pos h3]
    exact iff_of_false hp (by omega)
  · rw [if_neg h3]
    by_cases h6 : cap ≤ 6 * q
    · rw [if_pos h6]
      exact iff_of_false (div_ne_zero hp (by norm_num)) (by omega)
    · rw [if_neg h6]
      exact iff_of_true rfl (not_le.mp h6)

theorem occupancyStep_eq_self_iff (hp : p ≠ 0) : occupancyStep p cap q = p ↔ cap ≤ 3 * q := by
  unfold occupancyStep
  by_cases h3 : cap ≤ 3 * q
  · rw [if_pos h3]
    exact iff_of_true rfl h3
  · rw [if_neg h3]
    refine iff_of_false ?_ h3
    split
    · intro h
      exact hp (by linarith)
    · exact hp.symm

/-- The three values are different, so equal values mean the same step. -/
theorem occupancyStep_inj (hp : p ≠ 0) :
    occupancyStep p cap q = occupancyStep p cap q' ↔
      (cap ≤ 3 * q ↔ cap ≤ 3 * q') ∧ (cap ≤ 6 * q ↔ cap ≤ 6 * q') := by
  constructor
  · intro h
    have h3 : occupancyStep p cap q = p ↔ cap ≤ 3 * q := occupancyStep_eq_self_iff hp
    have h6 : occupancyStep p cap q = 0 ↔ 6 * q < cap := occupancyStep_eq_zero_iff hp
    rw [h, occupancyStep_eq_self_iff hp] at h3
    rw [h, occupancyStep_eq_zero_iff hp] at h6
    omega
  · rintro ⟨h3, h6⟩
    unfold occupancyStep
    simp only [h3, h6]

end

namespace ZombieQueueDisc

variable {Z α : Type} {d : ZombieQueueDisc Z α}

/-- The code's thresholds are those of the step function, in bytes. -/
theorem calculateProbabilityStabilizedRed_eq (d : ZombieQueueDisc Z α) :
    d.calculateProbabilityStabilizedRed =
      if d.queue.nBytes.toNat ≤ d.queue.maxSize.value.toNat then
        occupancyStep d.pMax d.queue.maxSize.value.toNat d.queue.nBytes.toNat
      else 0 := by
  unfold calculateProbabilityStabilizedRed occupancyStep
  dsimp only
  generalize d.queue.maxSize.value = cap
  generalize d.queue.nBytes = q
  have h3 : (cap.toNat : ℚ) / 3 ≤ q.toNat ↔ cap.toNat ≤ 3 * q.toNat := by
    rw [div_le_iff₀' (by norm_num)]
    exact_mod_cast Iff.rfl
  have h6 : (cap.toNat : ℚ) / 6 ≤ q.toNat ↔ cap.toNat ≤ 6 * q.toNat := by
    rw [div_le_iff₀' (by norm_num)]
    exact_mod_cast Iff.rfl
  simp only [← not_le (a := (cap.toNat : ℚ) / 3), h3, h6, UInt32.le_iff_toNat_le]
  by_cases hle : q.toNat ≤ cap.toNat
  · simp only [hle, and_true, if_true]
    by_cases hc : cap.toNat ≤ 3 * q.toNat
    · rw [if_pos hc, if_pos hc]
    · simp only [hc, not_false_eq_true, and_true, if_false]
  · -- Above the limit both thresholds are passed, and the code returns `0`.
    have hc : cap.toNat ≤ 3 * q.toNat := by omega
    simp only [hle, hc, and_false, not_true_eq_false, if_false]

/-- The occupancy of the internal queue in the unit of its limit. -/
def used (d : ZombieQueueDisc Z α) : ℕ := d.queue.getCurrentSize.value.toNat

/-- The byte count is in the same step as the occupancy in the unit of the limit. -/
def UnitAgrees (d : ZombieQueueDisc Z α) : Prop :=
  let cap := d.queue.maxSize.value.toNat
  let bytes := d.queue.nBytes.toNat
  d.pMax = 0 ∨
  match d.queue.maxSize.unit with
  | .bytes => bytes ≤ cap
  | .packets =>
    let packets := d.queue.nPackets.toNat
    (bytes ≤ cap ∧ (cap ≤ 3 * bytes ↔ cap ≤ 3 * packets) ∧ (cap ≤ 6 * bytes ↔ cap ≤ 6 * packets)) ∨
      (cap < bytes ∧ 6 * packets < cap)

theorem occupancyStep_zero (cap q : ℕ) : occupancyStep 0 cap q = 0 := by
  unfold occupancyStep
  rw [zero_div, ite_self, ite_self]

/-- **The step function is measured in the unit of the limit exactly where the units agree.** -/
theorem unitAgrees_iff (h0 : 0 < d.queue.maxSize.value) : d.UnitAgrees ↔
    d.calculateProbabilityStabilizedRed =
      occupancyStep d.pMax d.queue.maxSize.value.toNat d.used := by
  have hcap : 0 < d.queue.maxSize.value.toNat := by
    rw [UInt32.lt_iff_toNat_lt] at h0
    exact h0
  rw [calculateProbabilityStabilizedRed_eq]
  unfold UnitAgrees used Queue.getCurrentSize
  dsimp only
  by_cases hp : d.pMax = 0
  · rw [hp, occupancyStep_zero, occupancyStep_zero, ite_self]
    exact iff_of_true (.inl rfl) rfl
  · rw [or_iff_right hp]
    cases hu : d.queue.maxSize.unit with
    | bytes =>
      dsimp only
      by_cases hle : d.queue.nBytes.toNat ≤ d.queue.maxSize.value.toNat
      · rw [if_pos hle]
        exact iff_of_true hle rfl
      · rw [if_neg hle, eq_comm, occupancyStep_eq_zero_iff hp]
        omega
    | packets =>
      dsimp only
      by_cases hle : d.queue.nBytes.toNat ≤ d.queue.maxSize.value.toNat
      · rw [if_pos hle, occupancyStep_inj hp]
        exact ⟨fun h => h.elim And.right fun h => by omega, fun h => .inl ⟨hle, h⟩⟩
      · rw [if_neg hle, eq_comm, occupancyStep_eq_zero_iff hp]
        exact ⟨fun h => h.elim (fun h => absurd h.1 hle) And.right,
          fun h => .inr ⟨not_le.mp hle, h⟩⟩

/-- In states of one configuration where the units agree, a fuller buffer never gives less. -/
theorem calculateProbabilityStabilizedRed_mono {d' : ZombieQueueDisc Z α}
    (h : d.UnitAgrees) (h' : d'.UnitAgrees) (h0 : 0 < d.queue.maxSize.value)
    (hm : d'.queue.maxSize = d.queue.maxSize) (hp : d'.pMax = d.pMax) (hpos : 0 ≤ d.pMax)
    (hu : d.used ≤ d'.used) :
    d.calculateProbabilityStabilizedRed ≤ d'.calculateProbabilityStabilizedRed := by
  rw [(unitAgrees_iff h0).mp h, (unitAgrees_iff (hm ▸ h0)).mp h', hm, hp]
  exact occupancyStep_mono hpos hu

end ZombieQueueDisc

end StabilizedRed
