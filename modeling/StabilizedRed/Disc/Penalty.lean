import StabilizedRed.Disc.Zap

/-!
# Who full SRED penalises

Full SRED is to multiply the zap probability of simple SRED by `1 + Hit / P`, where `Hit` is `1` for
an arrival that hits and `0` for one that misses. `DoEnqueue` passes the constant `1` for `Hit`, so
a miss is charged like a hit: the law holds exactly for hits, and where the probability by occupancy
is zero anyway (`penalisesHits_iff`).
-/

namespace StabilizedRed.ZombieQueueDisc

open ExtRat (fin)

variable {Z α : Type} {K : ZombieKind Z} {s : ZombieQueueDisc Z α} {hit : Bool}

/-- The zap probability that mode `1` would use in this state. -/
def probabilityZapSimple (s : ZombieQueueDisc Z α) : ExtRat :=
  { s with stabilizedRedMode := 1 }.probabilityZap

/-- The law of full SRED in the state after the update of the hit frequency: the factor
`1 + Hit / P` leaves the value of mode `1` alone on a miss. -/
structure PenalisesHits (s : ZombieQueueDisc Z α) (hit : Bool) : Prop where
  value : s.probabilityZap = fin (s.calculateProbabilityStabilizedRed *
    min 1 (1 / (256 * s.pHitFreq * s.pHitFreq)) * (1 + (if hit then 1 else 0) / s.pHitFreq))
  on_miss : hit = false → s.probabilityZap = s.probabilityZapSimple
  on_hit : hit = true → s.probabilityZap = s.probabilityZapSimple * fin (1 + 1 / s.pHitFreq)

theorem probabilityZapSimple_eq (s : ZombieQueueDisc Z α) : s.probabilityZapSimple =
    fin (s.calculateProbabilityStabilizedRed * damping s.pHitFreq) := probabilityZap_simple rfl

/-- The factor changes the value of mode `1` unless that is zero. -/
theorem probabilityZap_eq_simple_iff (hm : s.stabilizedRedMode = 2) (hP : 0 < s.pHitFreq) :
    s.probabilityZap = s.probabilityZapSimple ↔ s.calculateProbabilityStabilizedRed = 0 := by
  rw [probabilityZapSimple_eq, probabilityZap_full hm hP, ExtRat.fin_inj]
  generalize s.calculateProbabilityStabilizedRed = p
  have hd : damping s.pHitFreq ≠ 0 := (damping_pos s.pHitFreq).ne'
  have hinv : 1 / s.pHitFreq ≠ 0 := one_div_ne_zero hP.ne'
  constructor
  · intro h
    have h0 : p * damping s.pHitFreq * (1 / s.pHitFreq) = 0 := by linarith
    simpa [hd, hinv, hP.ne'] using h0
  · rintro rfl
    ring

/-- The law in a state: the value is the one for a hit. -/
theorem penalisesHits_iff_of_full (hm : s.stabilizedRedMode = 2) (hP : 0 < s.pHitFreq) :
    PenalisesHits s hit ↔ hit = true ∨ s.calculateProbabilityStabilizedRed = 0 := by
  have hdamping : damping s.pHitFreq = min 1 (1 / (256 * s.pHitFreq * s.pHitFreq)) := if_neg hP.ne'
  have hon_hit : s.probabilityZap = s.probabilityZapSimple * fin (1 + 1 / s.pHitFreq) := by
    rw [probabilityZapSimple_eq, probabilityZap_full hm hP, ExtRat.fin_mul_fin]
  constructor
  · intro h
    cases hit with
    | true => exact .inl rfl
    | false => exact .inr ((probabilityZap_eq_simple_iff hm hP).mp (h.on_miss rfl))
  · rintro (rfl | h0)
    · refine ⟨?_, nofun, fun _ => hon_hit⟩
      rw [probabilityZap_full hm hP, hdamping, if_pos rfl]
    · refine ⟨?_, fun _ => (probabilityZap_eq_simple_iff hm hP).mpr h0, fun _ => hon_hit⟩
      rw [probabilityZap_full hm hP, h0, zero_mul, zero_mul, zero_mul, zero_mul]

variable [QueueDiscItem α]

/-- **Full SRED penalises hits only exactly on hits.** In a state with a full list and mode `2`, for
every arrival and all draws with a positive hit frequency after the update, the zap probability
obeys the law exactly if the arrival is a hit or the probability by occupancy is zero. -/
theorem penalisesHits_iff (k : DiscKind) (d : ZombieQueueDisc k.Zombie α)
    (hm : d.stabilizedRedMode = 2) (now : Time) (item : α) :
    AtZap k.kind now d item fun s hit => 0 < s.pHitFreq →
      (PenalisesHits s hit ↔ hit = true ∨ d.calculateProbabilityStabilizedRed = 0) := by
  intro hash _ _ hP
  rw [penalisesHits_iff_of_full (by rw [sampleZombie_mode, hm]) hP,
    sampleZombie_probabilityStabilizedRed]

theorem penalisesHits_iff_oneFlow :
    AtZap DiscKind.es.kind 0
      ((DiscKind.es.machine Ipv4QueueDiscItem).run (doInitialize fullMode) oneFlow)
      (.tcp 0 49153) fun s hit => 0 < s.pHitFreq → (PenalisesHits s hit ↔ hit = true ∨
        ((DiscKind.es.machine Ipv4QueueDiscItem).run (doInitialize fullMode)
          oneFlow).calculateProbabilityStabilizedRed = 0) := by
  have hm : ((DiscKind.es.machine Ipv4QueueDiscItem).run (doInitialize fullMode)
      oneFlow).stabilizedRedMode = 2 := by
    rw [(run_steady DiscKind.es.kind fullMode oneFlow).stabilizedRedMode]
    rfl
  exact penalisesHits_iff .es _ hm 0 _

/-! ## A miss that is charged like a hit -/

/-- The list is full of zombies of one flow, and its packet of 40 bytes fills the buffer. -/
structure OfOneFlow (k : DiscKind) (d : ZombieQueueDisc k.Zombie Ipv4QueueDiscItem) : Prop where
  steady : Steady fullMode d
  full : d.Full
  flowID : ∀ z ∈ d.zombies, k.kind.flowID z = flowA
  nBytes : d.queue.nBytes = 40

section OfOneFlow

variable {k : DiscKind} {d : ZombieQueueDisc k.Zombie Ipv4QueueDiscItem}

theorem OfOneFlow.flowHash_eq (h : OfOneFlow k d) (x : Ipv4QueueDiscItem) :
    flowHash d.toQueueDisc x = some (QueueDiscItem.hash x 0) :=
  flowHash_of_filters_nil h.steady.filters x

theorem OfOneFlow.not_fits (h : OfOneFlow k d) : ¬ d.queue.fits (.tcp 0 49153) := by
  unfold Queue.fits Queue.getCurrentSize QueueSizeUnit.cost
  rw [h.steady.maxSize]
  simp only [fullMode, Attributes.fortyBytes, h.nBytes]
  decide

/-- One more arrival of the flow hits; it does not fit, so list and queue stay alike. -/
theorem OfOneFlow.next (h : OfOneFlow k d) :
    OfOneFlow k ((k.machine Ipv4QueueDiscItem).next d ⟨0, .enqueue (.tcp 0 49153)⟩) := by
  have hc := h.flowHash_eq (.tcp 0 49153)
  have hg : d.givenFlowID ⟨0, .enqueue (.tcp 0 49153)⟩ = some flowA := by
    show (flowHash d.toQueueDisc _).map UInt32.toInt32 = _
    rw [hc]
    rfl
  refine ⟨h.steady.next _, ?_, ?_, ?_⟩
  · obtain ⟨_, _, hl, hframe⟩ := sampleZombie_frame k.kind 0 flowA d
    rw [next_enqueue, enqueue_eq hc, recordArrival_of_full h.full]
    show ¬ (d.sampleZombie k.kind 0 flowA).zombies.length < maxZombieListSize
    rw [hframe]
    exact hl ▸ h.full
  · refine next_zombies_forall (fun f hf => ?_) (fun z hz => ?_) (fun f z hf _ => ?_)
      h.steady.length_le h.flowID
    · rw [← Option.some.inj (hg.symm.trans hf)]
      cases k <;> rfl
    · rw [← hz]
      cases k <;> rfl
    · rw [← Option.some.inj (hg.symm.trans hf)]
      cases k <;> rfl
  · have hq := enqueue_packets k.kind 0 d (.tcp 0 49153)
    rw [if_neg fun ht => h.not_fits (fits_of_enqueue ht), List.append_nil] at hq
    rw [next_enqueue, (h.steady.enqueue 0 _).counted.nBytes, hq, ← h.steady.counted.nBytes, h.nBytes]

theorem OfOneFlow.next_pHitFreq (h : OfOneFlow k d) :
    ((k.machine Ipv4QueueDiscItem).next d ⟨0, .enqueue (.tcp 0 49153)⟩).pHitFreq =
      (d.sampleZombie k.kind 0 flowA).pHitFreq := by
  rw [next_enqueue, enqueue_eq (h.flowHash_eq _), recordArrival_of_full h.full]
  rfl

/-- An arrival of another flow misses, and is charged `1 + 1 / P` all the same. -/
theorem OfOneFlow.not_penalisesHits (h : OfOneFlow k d) (hp : 0 < d.pHitFreq) :
    ¬ AtZap k.kind 0 d (.tcp 0 49154) fun s hit => 0 < s.pHitFreq → PenalisesHits s hit := by
  have hne : flowA ≠ (QueueDiscItem.hash (Ipv4QueueDiscItem.tcp 0 49154) 0).toInt32 := by decide
  have hc := h.flowHash_eq (.tcp 0 49154)
  generalize QueueDiscItem.hash (Ipv4QueueDiscItem.tcp 0 49154) 0 = hash at hne hc
  have hmiss : d.hits k.kind hash.toInt32 = false := by
    obtain ⟨z, hz⟩ := exists_sampled h.full h.steady.length_le
    unfold hits
    rw [hz, Option.any_some, h.flowID z (List.mem_of_getElem? hz), decide_eq_false_iff_not]
    exact hne
  have hP : 0 < (d.sampleZombie k.kind 0 hash.toInt32).pHitFreq := by
    obtain ⟨_, _, -, he⟩ := sampleZombie_frame k.kind 0 hash.toInt32 d
    rw [he, hmiss, h.steady.alpha]
    simp only [Bool.false_eq_true, if_false, mul_zero, add_zero]
    exact mul_pos (sub_pos.mpr (alpha_lt_one fullMode)) hp
  have hq : d.calculateProbabilityStabilizedRed ≠ 0 := by
    unfold calculateProbabilityStabilizedRed
    have h40 : (40 : UInt32).toNat = 40 := rfl
    rw [h.steady.maxSize, h.nBytes, h.steady.pMax]
    norm_num [fullMode, Attributes.fortyBytes, Attributes.plain, h40]
  have hm : (d.sampleZombie k.kind 0 hash.toInt32).stabilizedRedMode = 2 := by
    rw [sampleZombie_mode, h.steady.stabilizedRedMode]
    rfl
  intro hlaw
  have hlaw : PenalisesHits _ _ := hlaw hash h.full hc hP
  rw [hmiss, penalisesHits_iff_of_full hm hP, sampleZombie_probabilityStabilizedRed] at hlaw
  exact hlaw.elim Bool.false_ne_true hq

end OfOneFlow

theorem ofOneFlow_run (k : DiscKind) :
    OfOneFlow k ((k.machine Ipv4QueueDiscItem).run (doInitialize fullMode) oneFlow) := by
  obtain ⟨hz, -, hb, -⟩ := run_oneFlow k (a := fullMode) rfl (by decide) (by decide)
  refine ⟨run_steady k.kind fullMode oneFlow, (sampled_of_replicate hz).1, fun z hmem => ?_, hb⟩
  rw [hz] at hmem
  rw [List.eq_of_mem_replicate hmem]
  cases k <;> rfl

/-- One more arrival of the flow that fills the zombie list: a hit. -/
def oneHit : List (Event Ipv4QueueDiscItem) := oneFlow ++ [⟨0, .enqueue (.tcp 0 49153)⟩]

/-- After it, a miss is charged like a hit. -/
theorem not_penalisesHits_oneHit (k : DiscKind) :
    ¬ AtZap k.kind 0 ((k.machine Ipv4QueueDiscItem).run (doInitialize fullMode) oneHit)
      (.tcp 0 49154) fun s hit => 0 < s.pHitFreq → PenalisesHits s hit := by
  have h := ofOneFlow_run k
  obtain ⟨-, -, -, -, hp⟩ := sampleZombie_oneFlow k
  unfold oneHit
  rw [Machine.run_append, Machine.run_cons, Machine.run_nil]
  generalize (k.machine Ipv4QueueDiscItem).run (doInitialize fullMode) oneFlow = d at h hp ⊢
  refine h.next.not_penalisesHits ?_
  rw [h.next_pHitFreq.trans hp]
  norm_num

/-- It is in either disc. -/
theorem miss_is_penalised :
    ¬ AtZap DiscKind.stabilizedRed.kind 0
      ((DiscKind.stabilizedRed.machine Ipv4QueueDiscItem).run (doInitialize fullMode) oneHit)
      (.tcp 0 49154) (fun s hit => 0 < s.pHitFreq → PenalisesHits s hit) ∧
    ¬ AtZap DiscKind.es.kind 0
      ((DiscKind.es.machine Ipv4QueueDiscItem).run (doInitialize fullMode) oneHit)
      (.tcp 0 49154) (fun s hit => 0 < s.pHitFreq → PenalisesHits s hit) :=
  ⟨not_penalisesHits_oneHit .stabilizedRed, not_penalisesHits_oneHit .es⟩

end StabilizedRed.ZombieQueueDisc
