import StabilizedRed.Disc.Calls
import StabilizedRed.Lib.Average

/-!
# The hit frequency is an exponentially weighted average

`hitOutcome` observes a run: `1` or `0` for each arrival on a full list, a hit or a miss. The hit
frequency after a run is the average (`ewma`) of these outcomes with weight `alpha`, whatever became
of the packets (`run_pHitFreq`); its closed form and range follow from those of the average.
-/

namespace StabilizedRed.ZombieQueueDisc

variable {Z α : Type} [QueueDiscItem α] {K : ZombieKind Z}

/-- The hit (`1`) or miss (`0`) of a classified arrival on a full list. -/
def hitOutcome (K : ZombieKind Z) (d : ZombieQueueDisc Z α) (e : Event α) : Option ℚ :=
  match e.call with
  | .enqueue item =>
    if d.Full then
      (flowHash d.toQueueDisc item).map fun hash => if d.hits K hash.toInt32 then 1 else 0
    else none
  | _ => none

theorem hitOutcome_mem (d : ZombieQueueDisc Z α) (e : Event α) :
    ∀ h ∈ hitOutcome K d e, h = 0 ∨ h = 1 := by
  intro h hh
  obtain ⟨now, c⟩ := e
  cases c with
  | enqueue item =>
    simp only [hitOutcome, Option.mem_def] at hh
    split at hh
    · obtain ⟨hash, -, rfl⟩ := Option.map_eq_some_iff.mp hh
      split
      · exact .inr rfl
      · exact .inl rfl
    · cases hh
  | dequeue => cases hh
  | peek => cases hh

/-- The outcomes of a run are zeros and ones. -/
theorem observe_hitOutcome (d : ZombieQueueDisc Z α) (es : List (Event α)) :
    ∀ h ∈ (machine K).observe (hitOutcome K) d es, h = 0 ∨ h = 1 := by
  induction es generalizing d with
  | nil => simp
  | cons e es ih =>
    intro h hh
    rcases List.mem_append.mp hh with hh | hh
    · exact hitOutcome_mem d e h (Option.mem_toList.mp hh)
    · exact ih _ h hh

/-- **Step lemma.** An outcome is taken in once, and nothing else moves the hit frequency. -/
theorem next_pHitFreq (d : ZombieQueueDisc Z α) (e : Event α) :
    ((machine K).next d e).pHitFreq = (hitOutcome K d e).elim d.pHitFreq
      fun h => (1 - d.alpha) * d.pHitFreq + d.alpha * h := by
  obtain ⟨now, c⟩ := e
  cases c with
  | enqueue item =>
    rw [next_enqueue]
    cases hc : flowHash d.toQueueDisc item with
    | none =>
      rw [enqueue_of_noMatch hc]
      simp only [hitOutcome, hc]
      split <;> rfl
    | some hash =>
      rw [enqueue_eq hc]
      simp only [hitOutcome, hc]
      by_cases hf : d.Full
      · obtain ⟨_, _, -, hs⟩ := sampleZombie_frame K now hash.toInt32 d
        rw [if_pos hf, recordArrival_of_full hf, hs]
        rfl
      · rw [if_neg hf, recordArrival_of_not_full hf]
        rfl
  | dequeue => rfl
  | peek => rfl

/-- **Run lemma.** The hit frequency is the average of the outcomes. -/
theorem run_pHitFreq (K : ZombieKind Z) (a : Attributes α) (es : List (Event α)) :
    ((machine K).run (doInitialize a) es).pHitFreq =
      ewma (a.overwriteProbability / maxZombieListSize)
        ((machine K).observe (hitOutcome K) (doInitialize a) es) := by
  refine (Machine.observe_invariant (f := hitOutcome K) (P := fun _ _ => True)
    (I := fun d hs => Steady a d ∧
      d.pHitFreq = ewma (a.overwriteProbability / maxZombieListSize) hs) ?_
    (H := []) ⟨steady_doInitialize a, rfl⟩
    (Machine.along_of_forall (Q := fun _ => True) fun _ _ => trivial)).2
  rintro d e hs - ⟨hd, hp⟩
  refine ⟨hd.next e, ?_⟩
  rw [next_pHitFreq, hd.alpha]
  cases hitOutcome K d e with
  | none => simpa using hp
  | some h => simp [hp]

/-! ## The weight `alpha` -/

variable (a : Attributes α)

omit [QueueDiscItem α] in
theorem alpha_nonneg : 0 ≤ a.overwriteProbability / maxZombieListSize :=
  div_nonneg a.overwriteProbability_nonneg (Nat.cast_nonneg _)

omit [QueueDiscItem α] in
theorem alpha_lt_one : a.overwriteProbability / maxZombieListSize < 1 := by
  have := a.overwriteProbability_le_one
  rw [div_lt_one (by norm_num [maxZombieListSize])]
  norm_num [maxZombieListSize]
  linarith

/-- The hit frequency is a number from `0` to `1` in every reachable state. -/
theorem run_pHitFreq_mem (K : ZombieKind Z) (es : List (Event α)) :
    0 ≤ ((machine K).run (doInitialize a) es).pHitFreq ∧
      ((machine K).run (doInitialize a) es).pHitFreq ≤ 1 := by
  have hmem := observe_hitOutcome (K := K) (doInitialize a) es
  rw [run_pHitFreq]
  constructor
  · refine ewma_nonneg (alpha_nonneg a) (alpha_lt_one a).le fun h hh => ?_
    rcases hmem h hh with rfl | rfl <;> norm_num
  · refine (ewma_le (alpha_nonneg a) (alpha_lt_one a).le fun h hh => ?_).trans ?_
    · rcases hmem h hh with rfl | rfl <;> norm_num
    · have := pow_nonneg (sub_nonneg.mpr (alpha_lt_one a).le)
        ((machine K).observe (hitOutcome K) (doInitialize a) es).length
      linarith

/-! ## The closed form -/

/-- The outcomes `hs` with the weights that their age gives them. -/
def weightedOutcomes (alpha : ℚ) (hs : List ℚ) : ℚ :=
  ∑ j : Fin hs.length, alpha * (1 - alpha) ^ (hs.length - 1 - j) * hs[j]

/-- **Closed form and range of the hit frequency.** The outcomes `hs` of a run are zeros and ones,
and the hit frequency is the sum of them with weights `alpha * (1 - alpha) ^ (n - 1 - j)`. -/
theorem pHitFreq_eq_weightedOutcomes (k : DiscKind) (a : Attributes α) (es : List (Event α)) :
    let d := (k.machine α).run (doInitialize a) es
    let hs := (k.machine α).observe (hitOutcome k.kind) (doInitialize a) es
    let alpha := a.overwriteProbability / 1000
    (∀ h ∈ hs, h = 0 ∨ h = 1) ∧
    d.pHitFreq = weightedOutcomes alpha hs ∧
    (0 ≤ d.pHitFreq ∧ d.pHitFreq ≤ 1 - (1 - alpha) ^ hs.length) ∧
    (∀ hs₁ hs₂ : List ℚ, List.Forall₂ (· ≤ ·) hs₁ hs₂ →
      weightedOutcomes alpha hs₁ ≤ weightedOutcomes alpha hs₂) ∧
    (0 < a.overwriteProbability → (d.pHitFreq = 0 ↔ ∀ h ∈ hs, h = 0)) := by
  intro d hs alpha
  have halpha : a.overwriteProbability / maxZombieListSize = alpha := rfl
  have h0 : 0 ≤ alpha := alpha_nonneg a
  have h1 : alpha < 1 := alpha_lt_one a
  have hmem : ∀ h ∈ hs, h = 0 ∨ h = 1 := observe_hitOutcome (doInitialize a) es
  have hnonneg : ∀ h ∈ hs, 0 ≤ h := fun h hh => by rcases hmem h hh with rfl | rfl <;> norm_num
  have hle : ∀ h ∈ hs, h ≤ 1 := fun h hh => by rcases hmem h hh with rfl | rfl <;> norm_num
  have hp : d.pHitFreq = ewma alpha hs := run_pHitFreq k.kind a es
  refine ⟨hmem, hp.trans (ewma_eq_sum alpha hs), ?_, ?_, ?_⟩
  · rw [hp]
    exact ⟨ewma_nonneg h0 h1.le hnonneg, ewma_le h0 h1.le hle⟩
  · intro hs₁ hs₂ h
    unfold weightedOutcomes
    rw [← ewma_eq_sum, ← ewma_eq_sum]
    exact ewma_mono h0 h1.le h
  · intro hw
    rw [hp]
    exact ewma_eq_zero_iff (div_pos hw (by norm_num)) h1 hnonneg

end StabilizedRed.ZombieQueueDisc
