import StabilizedRed.Disc.DropTail
import StabilizedRed.Disc.Occupancy
import StabilizedRed.Disc.Zap

/-!
# A fuller buffer never admits more

`MoreLoaded a d d'`: the states `d` and `d'` of a disc with attributes `a` and a limit in bytes have
the same full zombie list and the same draws ahead, and `d'` has a fuller buffer and a smaller hit
frequency. Each part of the decision is monotone: the hit frequency after the update, the
probability by occupancy, the damping factor, and the factor `1 + 1 / P` of full SRED, which is
infinite at zero (`probabilityZap_mono`). So what `d'` accepts `d` accepts too (`enqueue_mono`).
-/

namespace StabilizedRed.ZombieQueueDisc

open ExtRat (fin PosLe)

variable {Z α : Type} {K : ZombieKind Z} {d d' : ZombieQueueDisc Z α} {now : Time}
  {flowID : Int32}

/-! ## The zap probability -/

/-- What the zap probability depends on: the same mode, and a load that is not smaller. -/
structure ZapLe (s s' : ZombieQueueDisc Z α) : Prop where
  mode : s'.stabilizedRedMode = s.stabilizedRedMode
  occupancy_nonneg : 0 ≤ s.calculateProbabilityStabilizedRed
  occupancy : s.calculateProbabilityStabilizedRed ≤ s'.calculateProbabilityStabilizedRed
  pHitFreq_nonneg : 0 ≤ s'.pHitFreq
  pHitFreq : s'.pHitFreq ≤ s.pHitFreq

theorem ZapLe.damped {s s' : ZombieQueueDisc Z α} (h : ZapLe s s') :
    s.calculateProbabilityStabilizedRed * damping s.pHitFreq ≤
      s'.calculateProbabilityStabilizedRed * damping s'.pHitFreq :=
  mul_le_mul h.occupancy (damping_anti h.pHitFreq_nonneg h.pHitFreq) (damping_pos _).le
    (h.occupancy_nonneg.trans h.occupancy)

/-- The factor of full SRED is infinite or undefined at hit frequency zero; the comparison with a
draw goes the right way there as well. -/
theorem probabilityZap_full_mono {s s' : ZombieQueueDisc Z α} (h : ZapLe s s')
    (hm : s.stabilizedRedMode = 2) : PosLe s.probabilityZap s'.probabilityZap := by
  have hm' : s'.stabilizedRedMode = 2 := h.mode.trans hm
  rcases h.pHitFreq_nonneg.eq_or_lt with h0 | hpos'
  · rw [probabilityZap_full_zero hm' h0.symm]
    rcases (h.occupancy_nonneg.trans h.occupancy).eq_or_lt with hp' | hp'
    · -- An empty buffer in both states: the value of `d` is zero, or NaN as well.
      have hp : s.calculateProbabilityStabilizedRed = 0 :=
        le_antisymm (h.occupancy.trans hp'.ge) h.occupancy_nonneg
      rcases (h0 ▸ h.pHitFreq : 0 ≤ s.pHitFreq).eq_or_lt with hP | hP
      · rw [probabilityZap_full_zero hm hP.symm, hp, ExtRat.zero_mul_inf]
        exact ExtRat.nan_posLe _
      · rw [probabilityZap_full hm hP, hp, zero_mul, zero_mul]
        exact ExtRat.zero_posLe _
    · rw [ExtRat.pos_mul_inf hp']
      exact ExtRat.posLe_inf _
  · have hpos := hpos'.trans_le h.pHitFreq
    have hinv : 1 / s.pHitFreq ≤ 1 / s'.pHitFreq := one_div_le_one_div_of_le hpos' h.pHitFreq
    have hinv0 : 0 < 1 / s.pHitFreq := one_div_pos.mpr hpos
    rw [probabilityZap_full hm hpos, probabilityZap_full hm' hpos']
    exact ExtRat.posLe_fin (mul_le_mul h.damped (by linarith) (by linarith)
      (mul_nonneg (h.occupancy_nonneg.trans h.occupancy) (damping_pos _).le))

/-- **A larger load never has a smaller zap probability.** -/
theorem probabilityZap_mono {s s' : ZombieQueueDisc Z α} (h : ZapLe s s') :
    PosLe s.probabilityZap s'.probabilityZap := by
  by_cases h1 : s.stabilizedRedMode = 1
  · rw [probabilityZap_simple h1, probabilityZap_simple (h.mode.trans h1)]
    exact ExtRat.posLe_fin h.damped
  · by_cases h2 : s.stabilizedRedMode = 2
    · exact probabilityZap_full_mono h h2
    · have hzero : s.probabilityZap = fin 0 := by
        unfold probabilityZap
        rw [if_neg h1, if_neg h2]
        rfl
      rw [hzero]
      exact ExtRat.zero_posLe _

/-! ## Sampling -/

/-- Sampling does not read the base part or the hit frequency, apart from updating the latter. -/
theorem sampleZombie_uv_congr (now : Time) (flowID : Int32) (hz : d'.zombies = d.zombies)
    (hu : d'.uv = d.uv) (hw : d'.pOverwrite = d.pOverwrite) :
    (d'.sampleZombie K now flowID).uv = (d.sampleZombie K now flowID).uv := by
  unfold sampleZombie compareZombie
  simp only [hz, hu, hw]
  cases d.zombies[(d.uv.getInteger 0 (UInt32.ofNat d.zombies.length - 1)).1.toNat]? with
  | none => rfl
  | some z =>
    simp only []
    split
    · rfl
    · split <;> rfl

theorem hits_congr (flowID : Int32) (hz : d'.zombies = d.zombies) (hu : d'.uv = d.uv) :
    d'.hits K flowID = d.hits K flowID := by
  unfold hits sampled sampleIndex
  rw [hz, hu]

/-! ## The decision -/

variable {a : Attributes α}

/-- Two states of one disc with the same full zombie list and the same draws ahead; the second one
has a fuller buffer and a smaller hit frequency. -/
structure MoreLoaded (a : Attributes α) (d d' : ZombieQueueDisc Z α) : Prop where
  attributes : HasAttributes a d
  attributes' : HasAttributes a d'
  full : d.Full
  zombies : d'.zombies = d.zombies
  uv : d'.uv = d.uv
  nBytes : d.queue.nBytes ≤ d'.queue.nBytes
  limit : d'.queue.nBytes ≤ a.maxSize.value
  pHitFreq_nonneg : 0 ≤ d'.pHitFreq
  pHitFreq : d'.pHitFreq ≤ d.pHitFreq
  pHitFreq_le_one : d.pHitFreq ≤ 1

theorem MoreLoaded.occupancy (h : MoreLoaded a d d') :
    0 ≤ d.calculateProbabilityStabilizedRed ∧
      d.calculateProbabilityStabilizedRed ≤ d'.calculateProbabilityStabilizedRed := by
  have hpos : 0 ≤ d.pMax := by
    rw [h.attributes.pMax]
    exact a.maximumDropProbability_nonneg
  refine ⟨(calculateProbabilityStabilizedRed_mem hpos).1, ?_⟩
  have hq := UInt32.le_iff_toNat_le.mp h.nBytes
  have hl := UInt32.le_iff_toNat_le.mp h.limit
  rw [calculateProbabilityStabilizedRed_eq, calculateProbabilityStabilizedRed_eq,
    h.attributes.maxSize, h.attributes'.maxSize, if_pos (hq.trans hl), if_pos hl,
    h.attributes'.pMax, ← h.attributes.pMax]
  exact occupancyStep_mono hpos hq

/-- The update of the hit frequency keeps the order. -/
theorem MoreLoaded.sample (h : MoreLoaded a d d') (now : Time) (flowID : Int32) :
    ZapLe (d.sampleZombie K now flowID) (d'.sampleZombie K now flowID) := by
  obtain ⟨hp0, hp⟩ := h.occupancy
  have hhits := hits_congr (K := K) flowID h.zombies h.uv
  have ha0 := alpha_nonneg a
  have ha1 := (alpha_lt_one a).le
  obtain ⟨_, _, -, hs⟩ := sampleZombie_frame K now flowID d
  obtain ⟨_, _, -, hs'⟩ := sampleZombie_frame K now flowID d'
  rw [h.attributes.alpha] at hs
  rw [h.attributes'.alpha, hhits] at hs'
  constructor
  · rw [sampleZombie_mode, sampleZombie_mode, h.attributes'.stabilizedRedMode,
      h.attributes.stabilizedRedMode]
  · rw [sampleZombie_probabilityStabilizedRed]
    exact hp0
  · rw [sampleZombie_probabilityStabilizedRed, sampleZombie_probabilityStabilizedRed]
    exact hp
  · rw [hs']
    refine add_nonneg (mul_nonneg (sub_nonneg.mpr ha1) h.pHitFreq_nonneg) (mul_nonneg ha0 ?_)
    split
    · exact zero_le_one
    · exact le_rfl
  · rw [hs, hs']
    exact add_le_add_left (mul_le_mul_of_nonneg_left h.pHitFreq (sub_nonneg.mpr ha1)) _

theorem MoreLoaded.full' (h : MoreLoaded a d d') : d'.Full := by
  unfold Full
  rw [h.zombies]
  exact h.full

variable [QueueDiscItem α] {item : α}

/-- **Admission is monotone.** With a limit in bytes that the item does not make wrap, for every
mode and clock value: what is accepted with a fuller buffer and a smaller hit frequency is accepted
with an emptier buffer and a larger one. -/
theorem enqueue_mono (k : DiscKind) {d d' : ZombieQueueDisc k.Zombie α} (h : MoreLoaded a d d')
    (hu : a.maxSize.unit = .bytes) (now : Time)
    (hsize : a.maxSize.value.toNat + (getSize item).toNat < 2 ^ 32)
    (ht : (d'.enqueue k.kind now item).1 = true) : (d.enqueue k.kind now item).1 = true := by
  obtain ⟨hash, hc, hn, hf⟩ := enqueue_eq_true_iff.mp ht
  obtain ⟨hzaps, hroom⟩ := dropReason_eq_none_iff_hasRoom.mp hn
  have hq := UInt32.le_iff_toNat_le.mp h.nBytes
  have hl := UInt32.le_iff_toNat_le.mp h.limit
  refine enqueue_eq_true_iff.mpr ⟨hash, ?_, dropReason_eq_none_iff_hasRoom.mpr ⟨?_, ?_⟩, ?_⟩
  · exact (flowHash_congr (h.attributes.filters.trans h.attributes'.filters.symm) item).trans hc
  · -- The same number is drawn; it would be below the larger probability as well.
    rintro ⟨-, hlt⟩
    have huv := sampleZombie_uv_congr (K := k.kind) now hash.toInt32 h.zombies h.uv
      (h.attributes'.pOverwrite.trans h.attributes.pOverwrite.symm)
    refine hzaps ⟨h.full', ?_⟩
    rw [huv]
    exact probabilityZap_mono (h.sample now hash.toInt32) _
      (UniformRandomVariable.getValue_pos _) hlt
  · unfold hasRoom Queue.getCurrentSize at hroom ⊢
    rw [if_pos h.full', h.attributes'.maxSize, hu, UInt32.lt_iff_toNat_lt] at hroom
    rw [if_pos h.full, h.attributes.maxSize, hu, UInt32.lt_iff_toNat_lt]
    exact hq.trans_lt hroom
  · unfold Queue.fits Queue.getCurrentSize at hf ⊢
    rw [h.attributes'.maxSize, hu, UInt32.le_iff_toNat_le] at hf
    rw [h.attributes.maxSize, hu, UInt32.le_iff_toNat_le]
    simp only [QueueSizeUnit.cost, UInt32.toNat_add] at hf ⊢
    omega

/-- A limit of 100 bytes. -/
def hundredBytes : Attributes Ipv4QueueDiscItem :=
  { Attributes.plain with maxSize := { unit := .bytes, value := 100 }, maxSize_pos := by decide }

/-- An empty buffer, and hit frequency `1 / 2`. -/
def lightLoad : ZombieQueueDisc EZombie Ipv4QueueDiscItem :=
  { (doInitialize hundredBytes : ZombieQueueDisc EZombie Ipv4QueueDiscItem) with
    zombies := List.replicate maxZombieListSize { flowID := 0, count := 0, time := 0 }
    pHitFreq := 1 / 2 }

/-- A packet of 40 bytes in the buffer, and hit frequency `1 / 4`. -/
def heavyLoad : ZombieQueueDisc EZombie Ipv4QueueDiscItem :=
  { lightLoad with
    toQueueDisc := lightLoad.take (.tcp 0 49153)
    pHitFreq := 1 / 4 }

theorem moreLoaded_heavyLoad : MoreLoaded hundredBytes lightLoad heavyLoad where
  attributes := ⟨rfl, rfl, rfl, rfl, rfl, rfl⟩
  attributes' := ⟨rfl, rfl, rfl, rfl, rfl, rfl⟩
  full := by
    unfold Full lightLoad
    rw [List.length_replicate]
    exact lt_irrefl _
  zombies := rfl
  uv := rfl
  nBytes := by decide
  limit := by decide
  pHitFreq_nonneg := by norm_num [heavyLoad]
  pHitFreq := by norm_num [heavyLoad, lightLoad]
  pHitFreq_le_one := by norm_num [lightLoad]

theorem enqueue_mono_heavyLoad :
    (lightLoad.enqueue DiscKind.es.kind 0 (.tcp 0 49154)).1 = true :=
  enqueue_mono .es moreLoaded_heavyLoad rfl 0 (by decide) (by decide +kernel)

end StabilizedRed.ZombieQueueDisc
