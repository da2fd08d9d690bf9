import StabilizedRed.Disc.Calls

/-!
# Warm-up, and a full list under constant draws

* `run_warmUp_oneFlow`: the zombie list fills with one flow, whose first packet fills the queue.
* `Comparing a u z d`: the list is full, the generator gives `u` again and again, and `z` is the
  zombie that an arrival is compared with. All later arrivals are compared with this one slot, so a
  call does to `z` what `ZombieKind.compare` says (`Comparing.next`).
* `oneFlow`, `afterWarmUp`, `hitAndMiss`: arrivals that fill the list with one flow, then hit, miss,
  leave and arrive again.
-/

namespace StabilizedRed

open ExtRat (fin)

/-- What an arrival of flow `flowID` makes of the zombie that it is compared with, where a miss
draws `u`. -/
def ZombieKind.compare {Z : Type} (K : ZombieKind Z) (pOverwrite u : ℚ) (now : Time)
    (flowID : Int32) (z : Z) : Z :=
  if K.flowID z = flowID then K.hit now z
  else if fin u < K.overwriteProbability pOverwrite z then K.overwrite flowID now z
  else z

/-- The flow id that a disc with attributes `a` gives to the item of a call. -/
def Event.flowIDOf {α : Type} [QueueDiscItem α] (a : Attributes α) (e : Event α) : Option Int32 :=
  match e.call with
  | .enqueue item => ZombieQueueDisc.flowIDOf a item
  | _ => none

namespace ZombieQueueDisc

variable {Z α : Type} [QueueDiscItem α] {K : ZombieKind Z} {a : Attributes α}
  {d : ZombieQueueDisc Z α}

/-! ## Warm-up on a queue that is full -/

/-- An arrival that overflows the queue while the zombie list is not full. -/
theorem next_warmUp_overflow (K : ZombieKind Z) (now : Time) {item : α} {hash : UInt32}
    (hc : flowHash d.toQueueDisc item = some hash) (hf : ¬ d.Full)
    (ho : ¬ d.queue.getCurrentSize.value + getSize item ≤ d.queue.maxSize.value) :
    ∃ b : QueueDisc α, b.queue = d.queue ∧ b.filters = d.filters ∧
      (machine K).next d ⟨now, .enqueue item⟩ =
        { d with toQueueDisc := b, zombies := d.zombies ++ [K.create hash.toInt32 now] } := by
  have hr : d.dropReason K now hash.toInt32 item = some "QUEUE_OVERFLOW" := by
    unfold dropReason
    rw [if_neg hf, if_neg ho]
  refine ⟨_, ?_, ?_, by rw [next_enqueue, enqueue_eq hc, hr, recordArrival_of_not_full hf]; rfl⟩
  · exact d.receive_noteFlowID_queue item hash.toInt32
  · exact QueueDisc.noteFlowID_filters (d.receive item) item hash.toInt32

/-- The list fills with one flow while all its arrivals overflow. -/
theorem run_warmUp_overflow (K : ZombieKind Z) (now : Time) {item : α} {hash : UInt32}
    (hc : flowHash d.toQueueDisc item = some hash)
    (ho : ¬ d.queue.getCurrentSize.value + getSize item ≤ d.queue.maxSize.value) {n : ℕ}
    (hn : d.zombies.length + n ≤ maxZombieListSize) :
    ∃ b : QueueDisc α, b.queue = d.queue ∧ b.filters = d.filters ∧
      (machine K).run d (List.replicate n ⟨now, .enqueue item⟩) =
        { d with
          toQueueDisc := b
          zombies := d.zombies ++ List.replicate n (K.create hash.toInt32 now) } := by
  induction n generalizing d with
  | zero => exact ⟨d.toQueueDisc, rfl, rfl, by simp⟩
  | succ n ih =>
    have hf : ¬ d.Full := by unfold Full; omega
    obtain ⟨b, hq, hb, he⟩ := next_warmUp_overflow K now hc hf ho
    rw [List.replicate_succ, Machine.run_cons, he]
    obtain ⟨b', hq', hb', he'⟩ := ih (d := { d with
      toQueueDisc := b, zombies := d.zombies ++ [K.create hash.toInt32 now] })
      ((flowHash_congr hb item).trans hc) (by rw [hq]; exact ho)
      (by simp only [List.length_append, List.length_singleton]; omega)
    refine ⟨b', hq'.trans hq, hb'.trans hb, he'.trans ?_⟩
    simp [List.replicate_succ]

/-- The first packet is taken in if its bytes are within the limit. -/
theorem next_first (K : ZombieKind Z) (a : Attributes α) (now : Time) {item : α} {hash : UInt32}
    (hc : flowHash (doInitialize a : ZombieQueueDisc Z α).toQueueDisc item = some hash)
    (hfirst : getSize item ≤ a.maxSize.value) :
    let d := (machine K).next (doInitialize a) ⟨now, .enqueue item⟩
    d.zombies = [K.create hash.toInt32 now] ∧ d.pHitFreq = 0 ∧ d.uv = a.uv ∧
      d.queue = (doInitialize a : ZombieQueueDisc Z α).queue.insertEnd item := by
  have hzero : (doInitialize a : ZombieQueueDisc Z α).queue.getCurrentSize.value = 0 := by
    unfold Queue.getCurrentSize
    split <;> rfl
  have hr : dropReason K now hash.toInt32 item (doInitialize a) = none := by
    unfold dropReason
    rw [if_neg (not_full_doInitialize a), hzero, zero_add]
    exact if_pos hfirst
  have hfits : (doInitialize a : ZombieQueueDisc Z α).queue.fits item := by
    unfold Queue.fits
    rw [hzero, zero_add]
    show a.maxSize.unit.cost item ≤ a.maxSize.value
    cases a.maxSize.unit with
    | packets =>
      have h0 := a.maxSize_pos
      rw [UInt32.lt_iff_toNat_lt] at h0
      exact UInt32.le_iff_toNat_le.mpr h0
    | bytes => exact hfirst
  have hqn := (doInitialize a : ZombieQueueDisc Z α).receive_noteFlowID_queue item hash.toInt32
  rw [next_enqueue, enqueue_eq hc, hr, recordArrival_of_not_full (not_full_doInitialize a)]
  refine ⟨rfl, rfl, rfl, ?_⟩
  show (QueueDisc.enqueueInternal _ item).2.queue = _
  rw [QueueDisc.enqueueInternal_of_fits (hqn.symm ▸ hfits), ← hqn]
  rfl

/-- The list fills with one flow: its first packet fills the queue, and the others overflow it. -/
theorem run_warmUp_oneFlow (K : ZombieKind Z) (a : Attributes α) (now : Time) {item : α}
    {hash : UInt32} (hc : flowHash (doInitialize a : ZombieQueueDisc Z α).toQueueDisc item = some hash)
    (hfirst : getSize item ≤ a.maxSize.value)
    (ho : ¬ a.maxSize.unit.cost item + getSize item ≤ a.maxSize.value) :
    let d := (machine K).run (doInitialize a)
      (List.replicate maxZombieListSize ⟨now, .enqueue item⟩)
    d.zombies = List.replicate maxZombieListSize (K.create hash.toInt32 now) ∧
      d.queue.packets = [item] ∧ d.pHitFreq = 0 ∧ d.uv = a.uv := by
  obtain ⟨hz, hp, hu, hq⟩ := next_first K a now hc hfirst
  have hs := (steady_doInitialize a).next (K := K) ⟨now, .enqueue item⟩
  rw [show maxZombieListSize = 999 + 1 from rfl, List.replicate_succ, Machine.run_cons]
  generalize (machine K).next (doInitialize a) ⟨now, .enqueue item⟩ = d at hz hp hu hq hs
  have hsize : d.queue.getCurrentSize.value = a.maxSize.unit.cost item := by
    have hm : d.queue.maxSize.unit = a.maxSize.unit := by rw [hs.maxSize]
    unfold Queue.getCurrentSize QueueSizeUnit.cost
    rw [hm, hq]
    cases a.maxSize.unit with
    | packets => rfl
    | bytes => exact zero_add _
  have hc' : flowHash d.toQueueDisc item = some hash := (flowHash_congr hs.filters item).trans hc
  have hn : d.zombies.length + 999 ≤ maxZombieListSize := by
    rw [hz]
    exact Nat.le_refl 1000
  obtain ⟨b, hqb, -, hrun⟩ := run_warmUp_overflow K now hc' (by rw [hsize, hs.maxSize]; exact ho) hn
  rw [hrun]
  refine ⟨?_, ?_, hp, hu⟩
  · show d.zombies ++ List.replicate 999 _ = _
    rw [hz]
    exact List.replicate_succ.symm
  · simp only [hqb, hq]
    rfl

/-! ## Constant draws -/

/-- A generator that repeats one number goes on to do so. -/
theorem Steady.next_repeats (h : Steady a d) {u : U01} (hu : d.uv.Repeats u) (e : Event α) :
    ((machine K).next d e).uv.Repeats u := by
  cases hg : d.givenFlowID e with
  | none =>
    obtain ⟨b, he⟩ := next_of_none (K := K) hg
    rw [he]
    exact hu
  | some f =>
    obtain ⟨b, he⟩ := next_of_some (K := K) hg
    rw [he]
    by_cases hf : d.Full
    · obtain ⟨z, hz⟩ := exists_sampled hf h.length_le
      rw [recordArrival_of_full hf]
      rcases sampleZombie_cases K e.now f hz with ⟨-, hc⟩ | ⟨-, -, hc⟩ | ⟨-, -, hc⟩ <;> rw [hc]
      · exact hu.advance.advance
      · exact hu.advance.advance.advance
      · exact hu.advance.advance.advance
    · rw [recordArrival_of_not_full hf]
      exact hu

/-- The zombie list is full, all draws are `u`, and `z` is the zombie that an arrival is compared
with. -/
structure Comparing (a : Attributes α) (u : U01) (z : Z) (d : ZombieQueueDisc Z α) : Prop where
  steady : Steady a d
  full : d.Full
  repeats : d.uv.Repeats u
  sampled : d.sampled = some z

section Comparing

variable {u : U01} {z : Z}

theorem Comparing.givenFlowID (h : Comparing a u z d) (e : Event α) :
    d.givenFlowID e = e.flowIDOf a := by
  obtain ⟨now, c⟩ := e
  cases c with
  | enqueue item => exact (h.steady.flowIDOf_eq item).symm
  | dequeue => rfl
  | peek => rfl

/-- Wherever the draws come from, `u` selects the same slot. -/
theorem Comparing.sampleIndex (h : Comparing a u z d) :
    d.sampleIndex = ((UniformRandomVariable.constant u).getInteger 0 999).1 := by
  have hlen : d.zombies.length = maxZombieListSize :=
    Nat.le_antisymm h.steady.length_le (Nat.not_lt.mp h.full)
  unfold ZombieQueueDisc.sampleIndex
  rw [hlen]
  exact h.repeats.getInteger (UniformRandomVariable.repeats_constant u) _ _

/-- A state whose list differs in the sampled slot only. -/
theorem Comparing.set {z' : Z} {d' : ZombieQueueDisc Z α} (h : Comparing a u z d) (hs : Steady a d')
    (hu : d'.uv.Repeats u) (hz : d'.zombies = d.zombies.set d.sampleIndex.toNat z') :
    Comparing a u z' d' := by
  have hlen : d'.zombies.length = d.zombies.length := by rw [hz, List.length_set]
  have hindex : d'.sampleIndex = d.sampleIndex := by
    unfold ZombieQueueDisc.sampleIndex
    rw [hlen]
    exact hu.getInteger h.repeats _ _
  refine ⟨hs, ?_, hu, ?_⟩
  · unfold Full
    rw [hlen]
    exact h.full
  · unfold ZombieQueueDisc.sampled
    rw [hindex, hz]
    exact List.getElem?_set_self (sampleIndex_lt h.full h.steady.length_le)

/-- **Step lemma.** The slot goes on being compared, and its zombie changes as `compare` says. -/
theorem Comparing.next (h : Comparing a u z d) (e : Event α) :
    Comparing a u ((e.flowIDOf a).elim z fun f =>
      K.compare a.overwriteProbability u.val e.now f z) ((machine K).next d e) := by
  have hs := h.steady.next (K := K) e
  have hu := h.steady.next_repeats (K := K) h.repeats e
  rw [← h.givenFlowID e]
  cases hg : d.givenFlowID e with
  | none =>
    obtain ⟨b, he⟩ := next_of_none (K := K) hg
    rw [he] at hs ⊢
    exact ⟨hs, h.full, h.repeats, h.sampled⟩
  | some f =>
    obtain ⟨b, he⟩ := next_of_some (K := K) hg
    have hdraw := h.repeats.advance.getValue
    rw [recordArrival_of_full h.full] at he
    rw [Option.elim_some, ZombieKind.compare, ← h.steady.pOverwrite, ← hdraw]
    rcases sampleZombie_cases K e.now f h.sampled with ⟨hid, hc⟩ | ⟨hid, hr, hc⟩ | ⟨hid, hr, hc⟩ <;>
      rw [hc] at he <;> rw [he] at hs hu ⊢
    · rw [if_pos hid]
      exact h.set hs hu rfl
    · rw [if_neg hid, if_pos hr]
      exact h.set hs hu rfl
    · rw [if_neg hid, if_neg hr]
      obtain ⟨hlt, hz⟩ := List.getElem?_eq_some_iff.mp h.sampled
      refine h.set hs hu ?_
      rw [← hz, List.set_getElem_self]

/-- **Run lemma.** -/
theorem Comparing.run (h : Comparing a u z d) (es : List (Event α)) :
    ∃ z', Comparing a u z' ((machine K).run d es) :=
  Machine.run_invariant' (I := fun d => ∃ z, Comparing a u z d) (fun _ e ⟨_, h⟩ => ⟨_, h.next e⟩)
    ⟨z, h⟩ es

end Comparing

/-! ## Hits and misses -/

/-- `x` hits, `y` takes the place of its flow in the zombie list or not, `x` arrives again, a packet
leaves, and `y` arrives again. -/
def afterWarmUp (t : Time) (x y : α) : List (Event α) :=
  [⟨0, .enqueue x⟩, ⟨t, .enqueue y⟩, ⟨2 * t, .enqueue x⟩, ⟨2 * t, .dequeue⟩, ⟨3 * t, .enqueue y⟩]

/-- The zombie list fills with `x` first. -/
def hitAndMiss (t : Time) (x y : α) : List (Event α) :=
  List.replicate maxZombieListSize ⟨0, .enqueue x⟩ ++ afterWarmUp t x y

omit [QueueDiscItem α] in
theorem length_hitAndMiss (t : Time) (x y : α) : (hitAndMiss t x y).length = 1005 := by
  unfold hitAndMiss
  rw [List.length_append, List.length_replicate]
  rfl

omit [QueueDiscItem α] in
theorem now_mem_of_mem_hitAndMiss {t : Time} (ht : 0 ≤ t) {x y : α} :
    ∀ e ∈ hitAndMiss t x y, 0 ≤ e.now ∧ e.now ≤ 3 * t := by
  intro e he
  rcases List.mem_append.mp he with he | he
  · rw [List.eq_of_mem_replicate he]
    constructor <;> dsimp only <;> linarith
  · simp only [afterWarmUp, List.mem_cons, List.not_mem_nil, or_false] at he
    rcases he with rfl | rfl | rfl | rfl | rfl <;> constructor <;> dsimp only <;> linarith

omit [QueueDiscItem α] in
theorem offered_of_mem_hitAndMiss {t : Time} {x y item : α} {e : Event α}
    (he : e ∈ hitAndMiss t x y) (hc : e.call = .enqueue item) : item = x ∨ item = y := by
  rcases List.mem_append.mp he with he | he
  · rw [List.eq_of_mem_replicate he] at hc
    cases hc
    exact .inl rfl
  · simp only [afterWarmUp, List.mem_cons, List.not_mem_nil, or_false] at he
    rcases he with rfl | rfl | rfl | rfl | rfl <;> cases hc <;> simp

/-- A draw of `1 / 2` overwrites every zombie of SRED, and those of ESRED with a time below one
second. There is room for one packet of 40 bytes. -/
def alwaysOverwrite : Attributes Ipv4QueueDiscItem :=
  { Attributes.fortyBytes with
    overwriteProbability := 1
    overwriteProbability_nonneg := zero_le_one
    overwriteProbability_le_one := le_refl 1 }

/-- The flow id of TCP packets from port 49153. -/
def flowA : Int32 := (QueueDiscItem.hash (Ipv4QueueDiscItem.tcp 0 49153) 0).toInt32

/-- The flow id of TCP packets from port 49154. -/
def flowB : Int32 := (QueueDiscItem.hash (Ipv4QueueDiscItem.tcp 0 49154) 0).toInt32

/-- The 1000 arrivals of one flow that fill the zombie list; the first fills the buffer too. -/
def oneFlow : List (Event Ipv4QueueDiscItem) := List.replicate 1000 ⟨0, .enqueue (.tcp 0 49153)⟩

/-- The state that these arrivals lead to if the first one fills the buffer. -/
theorem run_oneFlow (k : DiscKind) {a : Attributes Ipv4QueueDiscItem} (hfilters : a.filters = [])
    (hfirst : 40 ≤ a.maxSize.value)
    (ho : ¬ a.maxSize.unit.cost (Ipv4QueueDiscItem.tcp 0 49153) + 40 ≤ a.maxSize.value) :
    let d := (k.machine Ipv4QueueDiscItem).run (doInitialize a) oneFlow
    d.zombies = List.replicate maxZombieListSize (k.kind.create flowA 0) ∧
      d.queue.packets = [.tcp 0 49153] ∧ d.queue.nBytes = 40 ∧ d.pHitFreq = 0 ∧ d.uv = a.uv := by
  have hsize : getSize (Ipv4QueueDiscItem.tcp 0 49153) = 40 := by decide
  unfold DiscKind.machine flowA
  rw [show oneFlow = List.replicate maxZombieListSize ⟨0, .enqueue (.tcp 0 49153)⟩ from rfl]
  generalize Ipv4QueueDiscItem.tcp 0 49153 = x at hsize ho ⊢
  have hc : flowHash (doInitialize a : ZombieQueueDisc k.Zombie _).toQueueDisc x =
      some (QueueDiscItem.hash x 0) := if_pos (congrArg List.length hfilters)
  rw [← hsize] at hfirst ho
  obtain ⟨hz, hq, hp, hu⟩ := run_warmUp_oneFlow k.kind a 0 hc hfirst ho
  have hb := (run_steady k.kind a
    (List.replicate maxZombieListSize ⟨0, .enqueue x⟩)).counted.nBytes
  rw [hq, Queue.bytes_cons, hsize] at hb
  refine ⟨hz, hq, ?_, hp, hu⟩
  rw [hb]
  rfl

/-- From then on the draw `1 / 2` compares all arrivals with one slot. -/
theorem comparing_oneFlow (k : DiscKind) :
    Comparing alwaysOverwrite .half (k.kind.create flowA 0)
      ((k.machine Ipv4QueueDiscItem).run (doInitialize alwaysOverwrite) oneFlow) := by
  obtain ⟨hz, -, -, -, hu⟩ := run_oneFlow k (a := alwaysOverwrite) rfl (by decide) (by decide)
  obtain ⟨hf, hsampled⟩ := sampled_of_replicate hz
  refine ⟨run_steady k.kind alwaysOverwrite oneFlow, hf, ?_, hsampled⟩
  rw [hu]
  exact UniformRandomVariable.repeats_constant .half

end ZombieQueueDisc

end StabilizedRed
