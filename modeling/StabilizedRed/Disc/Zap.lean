import StabilizedRed.Disc.HitFrequency
import StabilizedRed.Disc.WarmUp

/-!
# The range of the zap probability

`DoEnqueue` computes `probabilityZap` after the zombie has been sampled and the hit frequency `P`
updated (`AtZap` speaks of this state). With `p` for the probability by occupancy
(`calculateProbabilityStabilizedRed`, between `0` and `p_max`):

* mode `1` gives `p * min (1, 1 / (256 P²))`, a number between `0` and `1`, also for `P = 0`;
* mode `2` multiplies by `1 + 1 / P`, which nothing caps. For `P > 0` the value is a number; it may
  exceed `1`.
-/

namespace StabilizedRed.ZombieQueueDisc

open ExtRat (fin)

variable {Z α : Type} {K : ZombieKind Z} {d : ZombieQueueDisc Z α}

/-! ## The two formulas -/

theorem calculateProbabilityStabilizedRed_mem (h : 0 ≤ d.pMax) :
    0 ≤ d.calculateProbabilityStabilizedRed ∧ d.calculateProbabilityStabilizedRed ≤ d.pMax := by
  unfold calculateProbabilityStabilizedRed
  dsimp only
  split
  · exact ⟨h, le_rfl⟩
  · split
    · constructor <;> linarith
    · exact ⟨le_rfl, h⟩

/-- `min (1, 1 / (256 * P ^ 2))`, and `1` for `P = 0`. -/
def damping (P : ℚ) : ℚ := if P = 0 then 1 else min 1 (1 / (256 * P * P))

theorem damping_pos (P : ℚ) : 0 < damping P := by
  unfold damping
  split
  · exact zero_lt_one
  · rename_i hP
    have : 0 < 256 * P * P := by nlinarith [mul_self_pos.mpr hP]
    exact lt_min zero_lt_one (one_div_pos.mpr this)

theorem damping_le_one (P : ℚ) : damping P ≤ 1 := by
  unfold damping
  split
  · exact le_rfl
  · exact min_le_left _ _

/-- More active flows, that is a smaller hit frequency, never damp more. -/
theorem damping_anti {P P' : ℚ} (h0 : 0 ≤ P') (h : P' ≤ P) : damping P ≤ damping P' := by
  by_cases hP' : P' = 0
  · have h1 : damping P' = 1 := if_pos hP'
    rw [h1]
    exact damping_le_one P
  · have hpos' : 0 < P' := lt_of_le_of_ne h0 (Ne.symm hP')
    have hpos : 0 < P := hpos'.trans_le h
    rw [damping, damping, if_neg hpos.ne', if_neg hP']
    have hle : 256 * P' * P' ≤ 256 * P * P := by nlinarith
    exact min_le_min_left 1 (one_div_le_one_div_of_le (by positivity) hle)

/-- The test `multiply < 1` of both formulas takes the minimum. -/
theorem multiply_cases (P : ℚ) :
    (1 / fin (256 * P * P) < 1 ∧ 1 / fin (256 * P * P) = fin (damping P)) ∨
    (¬ 1 / fin (256 * P * P) < 1 ∧ damping P = 1) := by
  by_cases hP : P = 0
  · refine .inr ⟨?_, if_pos hP⟩
    rw [hP, mul_zero, ExtRat.one_def, ExtRat.fin_div_zero one_pos]
    exact ExtRat.not_inf_lt_fin 1
  · have hne : 256 * P * P ≠ 0 := mul_ne_zero (mul_ne_zero (by norm_num) hP) hP
    rw [ExtRat.one_def, ExtRat.fin_div_fin 1 hne, ExtRat.fin_lt_fin, damping, if_neg hP]
    rcases lt_or_ge (1 / (256 * P * P)) 1 with h | h
    · exact .inl ⟨h, by rw [min_eq_right h.le]⟩
    · exact .inr ⟨not_lt.mpr h, min_eq_left h⟩

theorem calculateProbabilityZapSimple_eq (d : ZombieQueueDisc Z α) (p : ℚ) :
    d.calculateProbabilityZapSimple p = fin (p * damping d.pHitFreq) := by
  unfold calculateProbabilityZapSimple
  dsimp only
  rcases multiply_cases d.pHitFreq with ⟨hlt, heq⟩ | ⟨hnlt, heq⟩
  · rw [if_pos hlt, heq, ExtRat.fin_mul_fin]
  · rw [if_neg hnlt, heq, mul_one]

theorem calculateProbabilityZap_eq (p : ℚ) (hit : Int32) (hP : 0 < d.pHitFreq) :
    d.calculateProbabilityZap p hit =
      fin (p * damping d.pHitFreq * (1 + hit.toInt / d.pHitFreq)) := by
  unfold calculateProbabilityZap
  dsimp only
  rw [ExtRat.fin_div_fin _ hP.ne', ExtRat.one_def, ExtRat.fin_add_fin]
  rcases multiply_cases d.pHitFreq with ⟨hlt, heq⟩ | ⟨hnlt, heq⟩
  · rw [← ExtRat.one_def, if_pos hlt, heq, ExtRat.fin_mul_fin, ExtRat.fin_mul_fin]
  · rw [← ExtRat.one_def, if_neg hnlt, heq, mul_one, ExtRat.fin_mul_fin]

@[simp] theorem sampleZombie_probabilityStabilizedRed (K : ZombieKind Z) (now : Time)
    (flowID : Int32) (d : ZombieQueueDisc Z α) :
    (d.sampleZombie K now flowID).calculateProbabilityStabilizedRed =
      d.calculateProbabilityStabilizedRed := by
  simp only [calculateProbabilityStabilizedRed, sampleZombie_toQueueDisc, sampleZombie_pMax]

/-! ## The value in a state -/

theorem probabilityZap_simple (hm : d.stabilizedRedMode = 1) : d.probabilityZap =
    fin (d.calculateProbabilityStabilizedRed * damping d.pHitFreq) := by
  unfold probabilityZap
  rw [if_pos hm, calculateProbabilityZapSimple_eq]

theorem probabilityZap_full (hm : d.stabilizedRedMode = 2) (hP : 0 < d.pHitFreq) :
    d.probabilityZap = fin (d.calculateProbabilityStabilizedRed * damping d.pHitFreq *
      (1 + 1 / d.pHitFreq)) := by
  have hne : d.stabilizedRedMode ≠ 1 := by rw [hm]; decide
  unfold probabilityZap
  rw [if_neg hne, if_pos hm, calculateProbabilityZap_eq _ _ hP,
    show (1 : Int32).toInt = 1 from rfl, Int.cast_one]

/-- At hit frequency zero, full SRED multiplies by an infinite factor. -/
theorem probabilityZap_full_zero (hm : d.stabilizedRedMode = 2) (hP : d.pHitFreq = 0) :
    d.probabilityZap = fin d.calculateProbabilityStabilizedRed * ExtRat.inf false := by
  have hne : d.stabilizedRedMode ≠ 1 := by rw [hm]; decide
  unfold probabilityZap calculateProbabilityZap
  dsimp only
  rw [if_neg hne, if_pos hm, hP, mul_zero, ExtRat.one_def, ExtRat.fin_div_zero one_pos,
    if_neg (ExtRat.not_inf_lt_fin 1), show (1 : Int32).toInt = 1 from rfl, Int.cast_one,
    ExtRat.fin_div_zero one_pos]
  rfl

/-- The value of mode `1` is between `0` and `p_max`. -/
theorem probabilityZap_simple_mem (hm : d.stabilizedRedMode = 1) (h0 : 0 ≤ d.pMax) :
    d.probabilityZap.InIcc 0 d.pMax := by
  obtain ⟨hp0, hp1⟩ := calculateProbabilityStabilizedRed_mem h0
  have hd0 := (damping_pos d.pHitFreq).le
  have hd1 := damping_le_one d.pHitFreq
  rw [probabilityZap_simple hm, ExtRat.inIcc_fin]
  exact ⟨mul_nonneg hp0 hd0, (mul_le_of_le_one_right hp0 hd1).trans hp1⟩

/-- The value of mode `2` is a number if the hit frequency is not zero. -/
theorem probabilityZap_full_mem (hm : d.stabilizedRedMode = 2) (h0 : 0 ≤ d.pMax)
    {P : ℚ} (hP : 0 < P) (hle : P ≤ d.pHitFreq) :
    d.probabilityZap.InIcc 0 (d.pMax * (1 + 1 / P)) := by
  obtain ⟨hp0, hp1⟩ := calculateProbabilityStabilizedRed_mem h0
  have hd0 := (damping_pos d.pHitFreq).le
  have hd1 := damping_le_one d.pHitFreq
  have hpos := hP.trans_le hle
  have hinv : 1 / d.pHitFreq ≤ 1 / P := one_div_le_one_div_of_le hP hle
  have hinv0 : 0 < 1 / d.pHitFreq := one_div_pos.mpr hpos
  rw [probabilityZap_full hm hpos, ExtRat.inIcc_fin]
  refine ⟨mul_nonneg (mul_nonneg hp0 hd0) (by linarith), ?_⟩
  exact mul_le_mul ((mul_le_of_le_one_right hp0 hd1).trans hp1) (by linarith) (by linarith) h0

/-! ## In every reachable state -/

variable [QueueDiscItem α]

/-- `P s hit` is true of the state `s` in which `DoEnqueue` decides whether to zap `item`, and of
whether the arrival was a hit. -/
def AtZap (K : ZombieKind Z) (now : Time) (d : ZombieQueueDisc Z α) (item : α)
    (P : ZombieQueueDisc Z α → Bool → Prop) : Prop :=
  ∀ hash, d.Full → flowHash d.toQueueDisc item = some hash →
    P (d.sampleZombie K now hash.toInt32) (d.hits K hash.toInt32)

/-- The range of `probabilityZap`. -/
structure ZapBounds (s : ZombieQueueDisc Z α) (hit : Bool) : Prop where
  simple : s.stabilizedRedMode = 1 → s.probabilityZap.InIcc 0 1
  full : s.stabilizedRedMode = 2 → 0 < s.pHitFreq →
    s.probabilityZap.InIcc 0 (s.pMax * (1 + 1 / s.pHitFreq))
  full_hit : s.stabilizedRedMode = 2 → 0 < s.pOverwrite → hit →
    0 < s.pHitFreq ∧
    s.probabilityZap = fin (s.calculateProbabilityStabilizedRed *
      min 1 (1 / (256 * s.pHitFreq * s.pHitFreq)) * (1 + 1 / s.pHitFreq)) ∧
    s.probabilityZap.InIcc 0 (s.pMax * (1 + 1000 / s.pOverwrite))

omit [QueueDiscItem α] in
/-- A hit lifts the hit frequency to `alpha` at least. -/
theorem alpha_le_of_hits (now : Time) {flowID : Int32} (hp : 0 ≤ d.pHitFreq) (h1 : d.alpha ≤ 1)
    (hh : d.hits K flowID) : d.alpha ≤ (d.sampleZombie K now flowID).pHitFreq := by
  obtain ⟨_, _, -, hs⟩ := sampleZombie_frame K now flowID d
  rw [hs, if_pos hh]
  have := mul_nonneg (sub_nonneg.mpr h1) hp
  linarith

/-- **The zap probability in every reachable state.** -/
theorem run_zapBounds (k : DiscKind) (a : Attributes α) (es : List (Event α)) (now : Time)
    (item : α) :
    AtZap k.kind now ((k.machine α).run (doInitialize a) es) item ZapBounds := by
  intro hash _ _
  have hs := run_steady k.kind a es
  have hmem := run_pHitFreq_mem a k.kind es
  generalize (k.machine α).run (doInitialize a) es = d at hs hmem ⊢
  have h0 : 0 ≤ (d.sampleZombie k.kind now hash.toInt32).pMax := by
    rw [sampleZombie_pMax, hs.pMax]
    exact a.maximumDropProbability_nonneg
  constructor
  · intro hm
    obtain ⟨q, hq, hq0, hq1⟩ := probabilityZap_simple_mem hm h0
    refine ⟨q, hq, hq0, hq1.trans ?_⟩
    rw [sampleZombie_pMax, hs.pMax]
    exact a.maximumDropProbability_le_one
  · exact fun hm hP => probabilityZap_full_mem hm h0 hP le_rfl
  · intro hm hw hh
    rw [sampleZombie_pOverwrite, hs.pOverwrite] at hw ⊢
    have halpha : d.alpha = a.overwriteProbability / 1000 := hs.alpha
    have h1 : d.alpha ≤ 1 := by rw [hs.alpha]; exact (alpha_lt_one a).le
    have hle := alpha_le_of_hits now hmem.1 h1 hh
    have hapos : 0 < d.alpha := by rw [halpha]; exact div_pos hw (by norm_num)
    have hP := hapos.trans_le hle
    refine ⟨hP, ?_, ?_⟩
    · rw [probabilityZap_full hm hP, damping, if_neg hP.ne']
    · have := probabilityZap_full_mem hm h0 hapos hle
      rwa [halpha, one_div_div] at this

/-- The configuration of the counterexample: full SRED, with room for one packet of 40 bytes. -/
def fullMode : Attributes Ipv4QueueDiscItem :=
  { Attributes.fortyBytes with stabilizedRedMode := 2 }

/-- The next arrival of that flow is the first hit: `P` is `1 / 4000`. -/
theorem sampleZombie_oneFlow (k : DiscKind) :
    let d := (k.machine Ipv4QueueDiscItem).run (doInitialize fullMode) oneFlow
    let hash := QueueDiscItem.hash (.tcp 0 49153 : Ipv4QueueDiscItem) 0
    d.Full ∧ flowHash d.toQueueDisc (.tcp 0 49153) = some hash ∧ d.hits k.kind hash.toInt32 ∧
      d.calculateProbabilityStabilizedRed = 3 / 20 ∧
      (d.sampleZombie k.kind 0 hash.toInt32).pHitFreq = 1 / 4000 := by
  have hs := run_steady k.kind fullMode oneFlow
  obtain ⟨hz, -, hb, hp, -⟩ := run_oneFlow k (a := fullMode) rfl (by decide) (by decide)
  generalize (k.machine Ipv4QueueDiscItem).run (doInitialize fullMode) oneFlow = d at hs hz hb hp ⊢
  unfold flowA at hz
  generalize Ipv4QueueDiscItem.tcp 0 49153 = x at hz ⊢
  obtain ⟨hf, hsampled⟩ := sampled_of_replicate hz
  have hc := flowHash_of_filters_nil (b := d.toQueueDisc) hs.filters x
  have hh : d.hits k.kind (QueueDiscItem.hash x 0).toInt32 = true := by
    unfold hits
    rw [hsampled, Option.any_some, decide_eq_true_iff]
    cases k <;> rfl
  refine ⟨hf, hc, hh, ?_, ?_⟩
  · unfold calculateProbabilityStabilizedRed
    have h40 : (40 : UInt32).toNat = 40 := rfl
    rw [hs.maxSize, hb, hs.pMax]
    norm_num [fullMode, Attributes.fortyBytes, Attributes.plain, h40]
  · obtain ⟨_, _, -, he⟩ := sampleZombie_frame k.kind 0 (QueueDiscItem.hash x 0).toInt32 d
    rw [he, if_pos hh, hp, hs.alpha]
    norm_num [fullMode, Attributes.fortyBytes, Attributes.plain, maxZombieListSize]

/-- The value that full SRED compares with a draw is `0.15 * (1 + 4000)` then, in either disc. -/
theorem not_zap_inIcc (k : DiscKind) :
    ¬ AtZap k.kind 0 ((k.machine Ipv4QueueDiscItem).run (doInitialize fullMode) oneFlow)
      (.tcp 0 49153) fun s _ => s.probabilityZap.InIcc 0 1 := by
  have hs := run_steady k.kind fullMode oneFlow
  obtain ⟨hf, hc, -, hq, hp⟩ := sampleZombie_oneFlow k
  generalize (k.machine Ipv4QueueDiscItem).run (doInitialize fullMode) oneFlow = d at hs hf hc hq hp ⊢
  intro h
  have hv : ExtRat.InIcc (probabilityZap _) 0 1 := h _ hf hc
  have hm : (d.sampleZombie k.kind 0 (QueueDiscItem.hash (.tcp 0 49153 : Ipv4QueueDiscItem)
      0).toInt32).stabilizedRedMode = 2 := by
    rw [sampleZombie_mode, hs.stabilizedRedMode]
    rfl
  rw [probabilityZap_full hm (by rw [hp]; norm_num), sampleZombie_probabilityStabilizedRed, hq, hp,
    ExtRat.inIcc_fin] at hv
  norm_num [damping] at hv

/-- The value exceeds one in either disc. -/
theorem zap_exceeds_one :
    ¬ AtZap DiscKind.stabilizedRed.kind 0
      ((DiscKind.stabilizedRed.machine Ipv4QueueDiscItem).run (doInitialize fullMode) oneFlow)
      (.tcp 0 49153) (fun s _ => s.probabilityZap.InIcc 0 1) ∧
    ¬ AtZap DiscKind.es.kind 0
      ((DiscKind.es.machine Ipv4QueueDiscItem).run (doInitialize fullMode) oneFlow)
      (.tcp 0 49153) (fun s _ => s.probabilityZap.InIcc 0 1) :=
  ⟨not_zap_inIcc .stabilizedRed, not_zap_inIcc .es⟩

end StabilizedRed.ZombieQueueDisc
