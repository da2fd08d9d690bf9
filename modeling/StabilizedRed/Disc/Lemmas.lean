import StabilizedRed.Disc.Basic

/-!
# What one arrival does

`doEnqueue` mixes two things that hardly depend on each other: what happens to the item (the part
of the state that the base class has) and what happens to the zombie list. They are taken apart
here, and all later proofs use only these equations.

* `doEnqueue_of_noMatch`: no filter matches, one drop and nothing else.
* `doEnqueue_eq`: a classified arrival is recorded in the zombie list (`recordArrival`), and the
  base part becomes `conclude` of the decision `dropReason`.
* `recordArrival_of_not_full`, `recordArrival_of_full`, `compareZombie_cases`: the zombie list after
  it: an append, or a hit, a refused miss or an overwrite of the sampled zombie.
-/

namespace StabilizedRed

open ExtRat (fin)

namespace QueueDisc

variable {α : Type} [QueueItem α]

/-- The disc after the check of the flow id. -/
def noteFlowID (d : QueueDisc α) (item : α) (flowID : Int32) : QueueDisc α :=
  if flowID = -1 then d.dropBeforeEnqueue item "InvalidFlowID" else d

/-- The end of `DoEnqueue`: a drop with a reason, or the internal queue gets the item. -/
def conclude (d : QueueDisc α) (item : α) : Option String → Bool × QueueDisc α
  | none => d.enqueueInternal item
  | some reason => (false, d.dropBeforeEnqueue item reason)

@[simp] theorem noteFlowID_queue (d : QueueDisc α) (item : α) (flowID : Int32) :
    (d.noteFlowID item flowID).queue = d.queue := by
  unfold noteFlowID
  split <;> rfl

/-- Up to the decision, an arrival leaves the internal queue alone. -/
theorem receive_noteFlowID_queue (d : QueueDisc α) (item : α) (flowID : Int32) :
    ((d.receive item).noteFlowID item flowID).queue = d.queue := noteFlowID_queue _ item flowID

@[simp] theorem noteFlowID_filters (d : QueueDisc α) (item : α) (flowID : Int32) :
    (d.noteFlowID item flowID).filters = d.filters := by
  unfold noteFlowID
  split <;> rfl

theorem noteFlowID_of_ne {d : QueueDisc α} {item : α} {flowID : Int32} (h : flowID ≠ -1) :
    d.noteFlowID item flowID = d := if_neg h

end QueueDisc

namespace ZombieQueueDisc

variable {Z α : Type} {K : ZombieKind Z} {now : Time} {flowID : Int32} {d : ZombieQueueDisc Z α}

/-! ## The zombie list -/

/-- The zombie that an arrival on a full list is compared with. -/
def sampled (d : ZombieQueueDisc Z α) : Option Z := d.zombies[d.sampleIndex.toNat]?

/-- An arrival of this flow on a full list is a hit. -/
def hits (K : ZombieKind Z) (flowID : Int32) (d : ZombieQueueDisc Z α) : Bool :=
  d.sampled.any fun z => K.flowID z = flowID

/-- The sampled index is in range. -/
theorem sampleIndex_lt (hf : d.Full) (hl : d.zombies.length ≤ maxZombieListSize) :
    d.sampleIndex.toNat < d.zombies.length := by
  have hlen : d.zombies.length = maxZombieListSize := Nat.le_antisymm hl (Nat.not_lt.mp hf)
  have hmax := (UniformRandomVariable.getInteger_mem
    (show (0 : UInt32) ≤ UInt32.ofNat maxZombieListSize - 1 by decide) d.uv).2
  rw [UInt32.le_iff_toNat_le] at hmax
  unfold sampleIndex
  rw [hlen]
  exact Nat.lt_of_le_of_lt hmax (by decide)

theorem exists_sampled (hf : d.Full) (hl : d.zombies.length ≤ maxZombieListSize) :
    ∃ z, d.sampled = some z := ⟨_, List.getElem?_eq_getElem (sampleIndex_lt hf hl)⟩

/-- A full list of one zombie only is full, and this zombie is sampled. -/
theorem sampled_of_replicate {z : Z} (h : d.zombies = List.replicate maxZombieListSize z) :
    d.Full ∧ d.sampled = some z := by
  have hl : d.zombies.length = maxZombieListSize := by rw [h, List.length_replicate]
  have hf : d.Full := hl.ge.not_gt
  obtain ⟨z', hz⟩ := exists_sampled hf hl.le
  have hmem : z' ∈ d.zombies := List.mem_of_getElem? hz
  rw [h] at hmem
  exact ⟨hf, by rw [hz, List.eq_of_mem_replicate hmem]⟩

/-- What a comparison can do: a hit, or a miss that overwrites, or a miss that does not. -/
theorem compareZombie_cases (K : ZombieKind Z) (now : Time) (flowID : Int32) {index : ℕ} {z : Z}
    (hz : d.zombies[index]? = some z) :
    (K.flowID z = flowID ∧ compareZombie K now flowID index d =
      (1, { d with zombies := d.zombies.set index (K.hit now z) })) ∨
    (K.flowID z ≠ flowID ∧ fin d.uv.getValue.1 < K.overwriteProbability d.pOverwrite z ∧
      compareZombie K now flowID index d =
        (0, { d with
          uv := d.uv.advance, zombies := d.zombies.set index (K.overwrite flowID now z) })) ∨
    (K.flowID z ≠ flowID ∧ ¬ fin d.uv.getValue.1 < K.overwriteProbability d.pOverwrite z ∧
      compareZombie K now flowID index d = (0, { d with uv := d.uv.advance })) := by
  unfold compareZombie
  rw [hz]
  by_cases hf : K.flowID z = flowID
  · exact .inl ⟨hf, if_pos hf⟩
  · by_cases hr : fin d.uv.getValue.1 < K.overwriteProbability d.pOverwrite z
    · exact .inr (.inl ⟨hf, hr, by simp only [if_neg hf]; exact if_pos hr⟩)
    · exact .inr (.inr ⟨hf, hr, by simp only [if_neg hf]; exact if_neg hr⟩)

/-- A comparison changes the zombies and the random stream only, and tells a hit from a miss. -/
theorem compareZombie_frame (K : ZombieKind Z) (now : Time) (flowID : Int32) (index : ℕ)
    (d : ZombieQueueDisc Z α) : ∃ zombies uv, zombies.length = d.zombies.length ∧
      compareZombie K now flowID index d =
        (if (d.zombies[index]?).any (fun z => K.flowID z = flowID) then 1 else 0,
          { d with zombies := zombies, uv := uv }) := by
  cases hz : d.zombies[index]? with
  | none => exact ⟨d.zombies, d.uv, rfl, by unfold compareZombie; rw [hz]; rfl⟩
  | some z =>
    rcases compareZombie_cases K now flowID hz with ⟨hf, h⟩ | ⟨hf, -, h⟩ | ⟨hf, -, h⟩
    · refine ⟨d.zombies.set index (K.hit now z), d.uv, List.length_set, ?_⟩
      simp only [h, Option.any_some, hf]
      rfl
    · exact ⟨_, _, List.length_set, by simp only [h, Option.any_some, hf]; rfl⟩
    · exact ⟨d.zombies, _, rfl, by simp only [h, Option.any_some, hf]; rfl⟩

/-- Sampling changes the zombies, the hit frequency and the random stream only. The hit frequency
takes in the hit or the miss. -/
theorem sampleZombie_frame (K : ZombieKind Z) (now : Time) (flowID : Int32)
    (d : ZombieQueueDisc Z α) : ∃ zombies uv, zombies.length = d.zombies.length ∧
      d.sampleZombie K now flowID =
        { d with
          zombies := zombies
          pHitFreq := (1 - d.alpha) * d.pHitFreq + d.alpha * if d.hits K flowID then 1 else 0
          uv := uv } := by
  obtain ⟨zombies, uv, hl, h⟩ := compareZombie_frame K now flowID d.sampleIndex.toNat
    { d with uv := d.uv.advance }
  refine ⟨zombies, uv, hl, ?_⟩
  unfold sampleIndex at h
  unfold sampleZombie hits sampled sampleIndex
  simp only [UniformRandomVariable.getInteger_snd, h]
  split <;> rfl

/-- **What sampling can do**: a hit, or a miss that overwrites, or a miss that does not. A miss
draws a second number. -/
theorem sampleZombie_cases (K : ZombieKind Z) (now : Time) (flowID : Int32) {z : Z}
    (hz : d.sampled = some z) :
    (K.flowID z = flowID ∧ d.sampleZombie K now flowID =
      { d with
        zombies := d.zombies.set d.sampleIndex.toNat (K.hit now z)
        pHitFreq := (1 - d.alpha) * d.pHitFreq + d.alpha * 1
        uv := d.uv.advance }) ∨
    (K.flowID z ≠ flowID ∧
      fin d.uv.advance.getValue.1 < K.overwriteProbability d.pOverwrite z ∧
      d.sampleZombie K now flowID =
        { d with
          zombies := d.zombies.set d.sampleIndex.toNat (K.overwrite flowID now z)
          pHitFreq := (1 - d.alpha) * d.pHitFreq + d.alpha * 0
          uv := d.uv.advance.advance }) ∨
    (K.flowID z ≠ flowID ∧
      ¬ fin d.uv.advance.getValue.1 < K.overwriteProbability d.pOverwrite z ∧
      d.sampleZombie K now flowID =
        { d with
          pHitFreq := (1 - d.alpha) * d.pHitFreq + d.alpha * 0
          uv := d.uv.advance.advance }) := by
  unfold sampled sampleIndex at hz
  unfold sampleZombie sampleIndex
  rcases compareZombie_cases (d := { d with uv := d.uv.advance }) K now flowID hz with
    ⟨hf, h⟩ | ⟨hf, hr, h⟩ | ⟨hf, hr, h⟩
  · refine .inl ⟨hf, ?_⟩
    simp only [UniformRandomVariable.getInteger_snd, h]
    rfl
  · refine .inr (.inl ⟨hf, hr, ?_⟩)
    simp only [UniformRandomVariable.getInteger_snd, h]
    rfl
  · refine .inr (.inr ⟨hf, hr, ?_⟩)
    simp only [UniformRandomVariable.getInteger_snd, h]
    rfl

section Cases

variable {z : Z} (hz : d.sampled = some z)
include hz

theorem sampleZombie_of_hit (now : Time) (hid : K.flowID z = flowID) :
    d.sampleZombie K now flowID =
      { d with
        zombies := d.zombies.set d.sampleIndex.toNat (K.hit now z)
        pHitFreq := (1 - d.alpha) * d.pHitFreq + d.alpha * 1
        uv := d.uv.advance } := by
  rcases sampleZombie_cases K now flowID hz with ⟨-, h⟩ | ⟨hne, -, -⟩ | ⟨hne, -, -⟩
  · exact h
  · exact absurd hid hne
  · exact absurd hid hne

theorem sampleZombie_of_overwrite (now : Time) (hid : K.flowID z ≠ flowID)
    (hr : fin d.uv.advance.getValue.1 < K.overwriteProbability d.pOverwrite z) :
    d.sampleZombie K now flowID =
      { d with
        zombies := d.zombies.set d.sampleIndex.toNat (K.overwrite flowID now z)
        pHitFreq := (1 - d.alpha) * d.pHitFreq + d.alpha * 0
        uv := d.uv.advance.advance } := by
  rcases sampleZombie_cases K now flowID hz with ⟨he, -⟩ | ⟨-, -, h⟩ | ⟨-, hnr, -⟩
  · exact absurd he hid
  · exact h
  · exact absurd hr hnr

theorem sampleZombie_of_refused (now : Time) (hid : K.flowID z ≠ flowID)
    (hr : ¬ fin d.uv.advance.getValue.1 < K.overwriteProbability d.pOverwrite z) :
    d.sampleZombie K now flowID =
      { d with
        pHitFreq := (1 - d.alpha) * d.pHitFreq + d.alpha * 0
        uv := d.uv.advance.advance } := by
  rcases sampleZombie_cases K now flowID hz with ⟨he, -⟩ | ⟨-, hr', -⟩ | ⟨-, -, h⟩
  · exact absurd he hid
  · exact absurd hr' hr
  · exact h

end Cases

section Frame

variable (K now flowID d)

@[simp] theorem sampleZombie_toQueueDisc :
    (d.sampleZombie K now flowID).toQueueDisc = d.toQueueDisc := by
  obtain ⟨_, _, -, h⟩ := sampleZombie_frame K now flowID d
  rw [h]

@[simp] theorem sampleZombie_pOverwrite :
    (d.sampleZombie K now flowID).pOverwrite = d.pOverwrite := by
  obtain ⟨_, _, -, h⟩ := sampleZombie_frame K now flowID d
  rw [h]

@[simp] theorem sampleZombie_pMax : (d.sampleZombie K now flowID).pMax = d.pMax := by
  obtain ⟨_, _, -, h⟩ := sampleZombie_frame K now flowID d
  rw [h]

@[simp] theorem sampleZombie_mode :
    (d.sampleZombie K now flowID).stabilizedRedMode = d.stabilizedRedMode := by
  obtain ⟨_, _, -, h⟩ := sampleZombie_frame K now flowID d
  rw [h]

end Frame

/-- Sampling does not read the base part. -/
theorem sampleZombie_onBase (b : QueueDisc α) :
    ({ d with toQueueDisc := b }).sampleZombie K now flowID =
      { d.sampleZombie K now flowID with toQueueDisc := b } := by
  unfold sampleZombie compareZombie
  simp only []
  cases hz : d.zombies[(d.uv.getInteger 0 (UInt32.ofNat d.zombies.length - 1)).1.toNat]? with
  | none => rfl
  | some z =>
    simp only []
    split
    · rfl
    · split <;> rfl

/-- The zombie list, hit frequency and random stream after a classified arrival. On a full list one
more number is drawn, for the decision to zap. -/
def recordArrival (K : ZombieKind Z) (now : Time) (flowID : Int32) (d : ZombieQueueDisc Z α) :
    ZombieQueueDisc Z α :=
  if d.Full then
    let d := d.sampleZombie K now flowID
    { d with uv := d.uv.advance }
  else { d with zombies := d.zombies ++ [K.create flowID now] }

theorem recordArrival_of_full (h : d.Full) : d.recordArrival K now flowID =
    { d.sampleZombie K now flowID with uv := (d.sampleZombie K now flowID).uv.advance } := if_pos h

theorem recordArrival_of_not_full (h : ¬ d.Full) : d.recordArrival K now flowID =
    { d with zombies := d.zombies ++ [K.create flowID now] } := if_neg h

/-- Recording an arrival does not read the base part. -/
theorem recordArrival_onBase (b : QueueDisc α) :
    ({ d with toQueueDisc := b }).recordArrival K now flowID =
      { d.recordArrival K now flowID with toQueueDisc := b } := by
  unfold recordArrival
  by_cases h : d.Full
  · have hb : ({ d with toQueueDisc := b }).Full := h
    simp only [if_pos h, if_pos hb, sampleZombie_onBase]
  · have hb : ¬ ({ d with toQueueDisc := b }).Full := h
    simp only [if_neg h, if_neg hb]

/-! ## The decision -/

variable [QueueDiscItem α] {item : α}

/-- Without filters the flow id is the hash of the item. -/
theorem flowHash_of_filters_nil {b : QueueDisc α} (h : b.filters = []) (item : α) :
    flowHash b item = some (QueueDiscItem.hash item 0) := by
  unfold flowHash
  rw [h]
  rfl

theorem flowHash_congr {b b' : QueueDisc α} (h : b'.filters = b.filters) (item : α) :
    flowHash b' item = flowHash b item := by
  unfold flowHash
  rw [h]

/-- The reason for which a classified arrival is dropped; `none` if the internal queue gets it. -/
def dropReason (K : ZombieKind Z) (now : Time) (flowID : Int32) (item : α)
    (d : ZombieQueueDisc Z α) : Option String :=
  if d.Full then
    let s := d.sampleZombie K now flowID
    if fin s.uv.getValue.1 < s.probabilityZap then some "Zap"
    else if d.queue.getCurrentSize.value < d.queue.maxSize.value then none
    else some "Overflow"
  else if d.queue.getCurrentSize.value + getSize item ≤ d.queue.maxSize.value then none
  else some "QUEUE_OVERFLOW"

/-- An arrival is zapped on a full list only, by one draw against `probabilityZap`. -/
theorem dropReason_eq_zap_iff : d.dropReason K now flowID item = some "Zap" ↔
    d.Full ∧ fin (d.sampleZombie K now flowID).uv.getValue.1 <
      (d.sampleZombie K now flowID).probabilityZap := by
  unfold dropReason
  by_cases hf : d.Full
  · rw [if_pos hf]
    by_cases hz : fin (d.sampleZombie K now flowID).uv.getValue.1 <
        (d.sampleZombie K now flowID).probabilityZap
    · exact iff_of_true (if_pos hz) ⟨hf, hz⟩
    · refine iff_of_false ?_ fun h => hz h.2
      simp only [if_neg hz]
      split <;> decide
  · rw [if_neg hf]
    refine iff_of_false ?_ fun h => hf h.1
    split <;> decide

/-- The decision reads the internal queue of the base part only. -/
theorem dropReason_onBase {b : QueueDisc α} (hq : b.queue = d.queue) :
    dropReason K now flowID item { d with toQueueDisc := b } = dropReason K now flowID item d := by
  generalize hs : d.sampleZombie K now flowID = s
  have hsd : s.toQueueDisc = d.toQueueDisc := by rw [← hs, sampleZombie_toQueueDisc]
  have hp : ({ s with toQueueDisc := b }).probabilityZap = s.probabilityZap := by
    simp only [probabilityZap, calculateProbabilityStabilizedRed, calculateProbabilityZapSimple,
      calculateProbabilityZap, hq, hsd]
  unfold dropReason
  simp only [sampleZombie_onBase, hs, hp, hq]
  rfl

/-- An item that no filter matches is dropped, and nothing else changes. -/
theorem doEnqueue_of_noMatch (h : flowHash d.toQueueDisc item = none) :
    doEnqueue K now d item =
      d.onBase (false, d.dropBeforeEnqueue item "Packet filter no match") := by
  unfold doEnqueue
  rw [h]

/-- **What a classified arrival does**: the base part concludes the decision, and the arrival is
recorded in the zombie list. -/
theorem doEnqueue_eq {hash : UInt32} (h : flowHash d.toQueueDisc item = some hash) :
    doEnqueue K now d item = (d.recordArrival K now hash.toInt32).onBase
      ((d.noteFlowID item hash.toInt32).conclude item
        (d.dropReason K now hash.toInt32 item)) := by
  have hnote : (if hash.toInt32 = -1 then
      { d with toQueueDisc := d.dropBeforeEnqueue item "InvalidFlowID" } else d) =
      { d with toQueueDisc := d.noteFlowID item hash.toInt32 } := by
    unfold QueueDisc.noteFlowID
    split <;> rfl
  unfold doEnqueue
  simp only [h, hnote]
  generalize hb : d.noteFlowID item hash.toInt32 = b
  have hq : b.queue = d.queue := by rw [← hb, QueueDisc.noteFlowID_queue]
  rw [← dropReason_onBase hq]
  by_cases hfull : d.Full
  · have hfull' : ({ d with toQueueDisc := b }).Full := hfull
    simp only [if_neg hfull, dropReason, if_pos hfull', recordArrival_of_full hfull, hq,
      UniformRandomVariable.getValue_snd]
    split
    · simp only [sampleZombie_onBase]
      rfl
    · simp only [sampleZombie_onBase]
      split <;> rfl
  · have hfull' : ¬ ({ d with toQueueDisc := b }).Full := hfull
    have hlt : d.zombies.length < maxZombieListSize := not_not.mp hfull
    simp only [if_pos hlt, dropReason, if_neg hfull', recordArrival_of_not_full hfull, hq]
    split <;> rfl

/-! ## `Enqueue` -/

theorem enqueue_of_noMatch (h : flowHash d.toQueueDisc item = none) :
    d.enqueue K now item = d.onBase
      (false, (d.receive item).dropBeforeEnqueue item "Packet filter no match") := by
  unfold enqueue
  rw [doEnqueue_of_noMatch (by exact h)]
  rfl

theorem enqueue_eq {hash : UInt32} (h : flowHash d.toQueueDisc item = some hash) :
    d.enqueue K now item = (d.recordArrival K now hash.toInt32).onBase
      (((d.receive item).noteFlowID item hash.toInt32).conclude item
        (d.dropReason K now hash.toInt32 item)) := by
  unfold enqueue
  rw [doEnqueue_eq (by exact h), dropReason_onBase (by rfl), recordArrival_onBase]
  rfl

end ZombieQueueDisc

end StabilizedRed
