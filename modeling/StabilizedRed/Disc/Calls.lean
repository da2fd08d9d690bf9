import StabilizedRed.Disc.Lemmas

/-!
# What calls keep

* `QueueDisc.conclude_cases`: an arrival ends in `take`, `refuse` or a drop by the disc itself.
* `ZombieQueueDisc.enqueue_frame`: one equation for all that `Enqueue` can change.
* `Steady a d`: what is true of a disc with attributes `a` after any calls of `Enqueue`, `Dequeue`
  and `Peek` (`run_steady`). The attributes are never written, nothing is requeued, and the counters
  of the internal queue are those of its list.
-/

namespace StabilizedRed

namespace QueueDisc

variable {α : Type} [QueueItem α]

/-- The internal queue takes the item. -/
def take (d : QueueDisc α) (item : α) : QueueDisc α :=
  { d with queue := d.queue.insertEnd item }.packetEnqueued item

/-- The internal queue drops the item. -/
def refuse (d : QueueDisc α) (item : α) : QueueDisc α :=
  { d with queue := d.queue.dropBeforeEnqueue item }.dropBeforeEnqueue item internalQueueDrop

/-- How an arrival can end. -/
theorem conclude_cases (d : QueueDisc α) (item : α) (reason : Option String) :
    (reason = none ∧ d.queue.fits item ∧ d.conclude item reason = (true, d.take item)) ∨
    (reason = none ∧ ¬ d.queue.fits item ∧ d.conclude item reason = (false, d.refuse item)) ∨
    (∃ r, reason = some r ∧ d.conclude item reason = (false, d.dropBeforeEnqueue item r)) := by
  cases reason with
  | none =>
    by_cases h : d.queue.fits item
    · exact .inl ⟨rfl, h, enqueueInternal_of_fits h⟩
    · exact .inr (.inl ⟨rfl, h, enqueueInternal_of_not_fits h⟩)
  | some r => exact .inr (.inr ⟨r, rfl, rfl⟩)

/-- The internal queue gets the item exactly when the result is `true`. -/
theorem conclude_packets (d : QueueDisc α) (item : α) (reason : Option String) :
    (d.conclude item reason).2.queue.packets =
      d.queue.packets ++ if (d.conclude item reason).1 then [item] else [] := by
  rcases d.conclude_cases item reason with ⟨-, -, h⟩ | ⟨-, -, h⟩ | ⟨_, -, h⟩ <;> rw [h]
  · rfl
  · exact (List.append_nil _).symm
  · exact (List.append_nil _).symm

/-- The two states agree on what no call of `Enqueue`, `Dequeue` or `Peek` writes. -/
structure Keeps (d d' : QueueDisc α) : Prop where
  filters : d'.filters = d.filters
  maxSize : d'.queue.maxSize = d.queue.maxSize
  requeued : d'.requeued = d.requeued
  peeked : d'.peeked = d.peeked

omit [QueueItem α] in
theorem Keeps.trans {d₁ d₂ d₃ : QueueDisc α} (h : Keeps d₁ d₂) (h' : Keeps d₂ d₃) : Keeps d₁ d₃ where
  filters := h'.filters.trans h.filters
  maxSize := h'.maxSize.trans h.maxSize
  requeued := h'.requeued.trans h.requeued
  peeked := h'.peeked.trans h.peeked

theorem keeps_receive (d : QueueDisc α) (item : α) : Keeps d (d.receive item) := ⟨rfl, rfl, rfl, rfl⟩

theorem keeps_noteFlowID (d : QueueDisc α) (item : α) (flowID : Int32) :
    Keeps d (d.noteFlowID item flowID) := by
  unfold noteFlowID
  split <;> exact ⟨rfl, rfl, rfl, rfl⟩

theorem keeps_conclude (d : QueueDisc α) (item : α) (reason : Option String) :
    Keeps d (d.conclude item reason).2 := by
  rcases d.conclude_cases item reason with ⟨-, -, h⟩ | ⟨-, -, h⟩ | ⟨_, -, h⟩ <;> rw [h] <;>
    exact ⟨rfl, rfl, rfl, rfl⟩

theorem noteFlowID_counted {d : QueueDisc α} (h : d.queue.Counted) (item : α) (flowID : Int32) :
    (d.noteFlowID item flowID).queue.Counted := by
  rw [noteFlowID_queue]
  exact h

theorem conclude_counted {d : QueueDisc α} (h : d.queue.Counted) (item : α)
    (reason : Option String) : (d.conclude item reason).2.queue.Counted := by
  rcases d.conclude_cases item reason with ⟨-, -, he⟩ | ⟨-, -, he⟩ | ⟨_, -, he⟩ <;> rw [he]
  · exact h.insertEnd item
  · exact h.dropBeforeEnqueue item
  · exact h

end QueueDisc

namespace ZombieQueueDisc

variable {Z α : Type}

/-- Recording an arrival changes the zombies, the hit frequency and the random stream only. -/
theorem recordArrival_frame (K : ZombieKind Z) (now : Time) (flowID : Int32)
    (d : ZombieQueueDisc Z α) : ∃ zombies pHitFreq uv,
      (d.zombies.length ≤ maxZombieListSize → zombies.length ≤ maxZombieListSize) ∧
      d.recordArrival K now flowID =
        { d with zombies := zombies, pHitFreq := pHitFreq, uv := uv } := by
  by_cases h : d.Full
  · obtain ⟨zombies, uv, hl, hs⟩ := sampleZombie_frame K now flowID d
    exact ⟨zombies, _, uv.advance, fun hd => hl ▸ hd, by rw [recordArrival_of_full h, hs]⟩
  · have hlt : d.zombies.length < maxZombieListSize := not_not.mp h
    exact ⟨_, d.pHitFreq, d.uv, fun _ => by simpa using hlt, recordArrival_of_not_full h⟩

variable [QueueDiscItem α] {K : ZombieKind Z}

/-- **All that `Enqueue` can change.** -/
theorem enqueue_frame (K : ZombieKind Z) (now : Time) (d : ZombieQueueDisc Z α) (item : α) :
    ∃ flowID reason zombies pHitFreq uv,
      (d.zombies.length ≤ maxZombieListSize → zombies.length ≤ maxZombieListSize) ∧
      d.enqueue K now item =
        ({ d with zombies := zombies, pHitFreq := pHitFreq, uv := uv }).onBase
          (((d.receive item).noteFlowID item flowID).conclude item reason) := by
  cases h : flowHash d.toQueueDisc item with
  | none =>
    -- An item without a flow id is dropped as one with any valid id would be.
    refine ⟨0, some "Packet filter no match", d.zombies, d.pHitFreq, d.uv, id, ?_⟩
    rw [enqueue_of_noMatch h, QueueDisc.noteFlowID_of_ne (by decide)]
    rfl
  | some hash =>
    obtain ⟨zombies, pHitFreq, uv, hl, hr⟩ := recordArrival_frame K now hash.toInt32 d
    exact ⟨hash.toInt32, d.dropReason K now hash.toInt32 item, zombies, pHitFreq, uv, hl, by
      rw [enqueue_eq h, hr]⟩

/-- The flow id that an arrival is given. -/
def givenFlowID (d : ZombieQueueDisc Z α) (e : Event α) : Option Int32 :=
  match e.call with
  | .enqueue item => (flowHash d.toQueueDisc item).map UInt32.toInt32
  | _ => none

/-- The flow id that a disc with these attributes gives to an item. -/
def flowIDOf (a : Attributes α) (item : α) : Option Int32 :=
  (flowHash { queue := { maxSize := a.maxSize }, filters := a.filters } item).map UInt32.toInt32

section Machine

variable (K)

@[simp] theorem next_enqueue (d : ZombieQueueDisc Z α) (now : Time) (item : α) :
    (machine K).next d ⟨now, .enqueue item⟩ = (d.enqueue K now item).2 := rfl

@[simp] theorem next_dequeue (d : ZombieQueueDisc Z α) (now : Time) :
    (machine K).next d ⟨now, .dequeue⟩ = { d with toQueueDisc := d.dequeue.2 } := rfl

@[simp] theorem next_peek (d : ZombieQueueDisc Z α) (now : Time) :
    (machine K).next d ⟨now, .peek⟩ = d := rfl

@[simp] theorem out_enqueue (d : ZombieQueueDisc Z α) (now : Time) (item : α) :
    (machine K).out d ⟨now, .enqueue item⟩ = .enqueued (d.enqueue K now item).1 := rfl

@[simp] theorem out_dequeue (d : ZombieQueueDisc Z α) (now : Time) :
    (machine K).out d ⟨now, .dequeue⟩ = .dequeued d.dequeue.1 := rfl

@[simp] theorem out_peek (d : ZombieQueueDisc Z α) (now : Time) :
    (machine K).out d ⟨now, .peek⟩ = .peeked d.peek := rfl

end Machine

variable {d : ZombieQueueDisc Z α}

/-- A call that is given no flow id changes the base part only. -/
theorem next_of_none {e : Event α} (h : d.givenFlowID e = none) :
    ∃ b, (machine K).next d e = { d with toQueueDisc := b } := by
  obtain ⟨now, c⟩ := e
  cases c with
  | enqueue item =>
    have hc : flowHash d.toQueueDisc item = none := Option.map_eq_none_iff.mp h
    rw [next_enqueue, enqueue_of_noMatch hc]
    exact ⟨_, rfl⟩
  | dequeue => exact ⟨_, rfl⟩
  | peek => exact ⟨d.toQueueDisc, rfl⟩

/-- A call that is given a flow id changes all else as `recordArrival` does. -/
theorem next_of_some {e : Event α} {flowID : Int32} (h : d.givenFlowID e = some flowID) :
    ∃ b, (machine K).next d e = { d.recordArrival K e.now flowID with toQueueDisc := b } := by
  obtain ⟨now, c⟩ := e
  cases c with
  | enqueue item =>
    obtain ⟨hash, hc, rfl⟩ := Option.map_eq_some_iff.mp h
    rw [next_enqueue, enqueue_eq hc]
    exact ⟨_, rfl⟩
  | dequeue => cases h
  | peek => cases h

theorem next_zombies_of_none {e : Event α} (h : d.givenFlowID e = none) :
    ((machine K).next d e).zombies = d.zombies := by
  obtain ⟨b, he⟩ := next_of_none (K := K) h
  rw [he]

theorem next_zombies_of_some {e : Event α} {flowID : Int32} (h : d.givenFlowID e = some flowID) :
    ((machine K).next d e).zombies = (d.recordArrival K e.now flowID).zombies := by
  obtain ⟨b, he⟩ := next_of_some (K := K) h
  rw [he]

/-- What the operations on a zombie keep, for the flow id that the call is given, stays true of
every zombie. -/
theorem next_zombies_forall {P : Z → Prop} {e : Event α}
    (hcreate : ∀ f, d.givenFlowID e = some f → P (K.create f e.now))
    (hhit : ∀ z, P z → P (K.hit e.now z))
    (hover : ∀ f z, d.givenFlowID e = some f → P z → P (K.overwrite f e.now z))
    (hl : d.zombies.length ≤ maxZombieListSize) (h : ∀ z ∈ d.zombies, P z) :
    ∀ z ∈ ((machine K).next d e).zombies, P z := by
  intro z hz
  cases hg : d.givenFlowID e with
  | none =>
    rw [next_zombies_of_none hg] at hz
    exact h z hz
  | some flowID =>
    rw [next_zombies_of_some hg] at hz
    by_cases hf : d.Full
    · obtain ⟨z₀, hz₀⟩ := exists_sampled hf hl
      have h₀ := h z₀ (List.mem_of_getElem? hz₀)
      rw [recordArrival_of_full hf] at hz
      rcases sampleZombie_cases K e.now flowID hz₀ with ⟨-, he⟩ | ⟨-, -, he⟩ | ⟨-, -, he⟩ <;>
        rw [he] at hz
      · rcases List.mem_or_eq_of_mem_set hz with hz | rfl
        · exact h z hz
        · exact hhit z₀ h₀
      · rcases List.mem_or_eq_of_mem_set hz with hz | rfl
        · exact h z hz
        · exact hover flowID z₀ hg h₀
      · exact h z hz
    · rw [recordArrival_of_not_full hf] at hz
      rcases List.mem_append.mp hz with hz | hz
      · exact h z hz
      · rw [List.mem_singleton.mp hz]
        exact hcreate flowID hg

/-! ## The steady part of the state -/

/-- The state is one of a disc with attributes `a`. -/
structure HasAttributes (a : Attributes α) (d : ZombieQueueDisc Z α) : Prop where
  filters : d.filters = a.filters
  maxSize : d.queue.maxSize = a.maxSize
  pOverwrite : d.pOverwrite = a.overwriteProbability
  pMax : d.pMax = a.maximumDropProbability
  alpha : d.alpha = a.overwriteProbability / maxZombieListSize
  stabilizedRedMode : d.stabilizedRedMode = a.stabilizedRedMode

/-- What is true of a disc with attributes `a` also while it serves a device. -/
structure Configured (a : Attributes α) (d : ZombieQueueDisc Z α) : Prop
    extends HasAttributes a d where
  peeked : d.peeked = false
  counted : d.queue.Counted
  length_le : d.zombies.length ≤ maxZombieListSize

/-- What is true of a disc with attributes `a` after any calls: nothing is requeued. -/
structure Steady (a : Attributes α) (d : ZombieQueueDisc Z α) : Prop
    extends configured : Configured a d where
  requeued : d.requeued = none

variable {a : Attributes α}

theorem steady_doInitialize (a : Attributes α) :
    Steady a (doInitialize a : ZombieQueueDisc Z α) where
  filters := rfl
  maxSize := rfl
  requeued := rfl
  peeked := rfl
  pOverwrite := rfl
  pMax := rfl
  alpha := rfl
  stabilizedRedMode := rfl
  counted := ⟨rfl, rfl⟩
  length_le := Nat.zero_le _

omit [QueueDiscItem α] in
theorem not_full_doInitialize (a : Attributes α) :
    ¬ (doInitialize a : ZombieQueueDisc Z α).Full :=
  not_not.mpr (show 0 < maxZombieListSize by decide)

theorem Steady.flowIDOf_eq (h : Steady a d) (item : α) :
    flowIDOf a item = (flowHash d.toQueueDisc item).map UInt32.toInt32 := by
  unfold flowIDOf flowHash
  rw [h.filters]

theorem Configured.steady (h : Configured a d) (hr : d.requeued = none) : Steady a d :=
  { h with requeued := hr }

theorem configured_doInitialize (a : Attributes α) :
    Configured a (doInitialize a : ZombieQueueDisc Z α) := (steady_doInitialize a).configured

/-- A change of the base part that keeps its configuration. -/
theorem Configured.onBase (h : Configured a d) {b : QueueDisc α} (hf : b.filters = d.filters)
    (hm : b.queue.maxSize = d.queue.maxSize) (hp : b.peeked = d.peeked) (hc : b.queue.Counted) :
    Configured a { d with toQueueDisc := b } :=
  { h with
    filters := hf.trans h.filters
    maxSize := hm.trans h.maxSize
    peeked := hp.trans h.peeked
    counted := hc }

theorem enqueue_keeps (now : Time) (d : ZombieQueueDisc Z α) (item : α) :
    QueueDisc.Keeps d.toQueueDisc (d.enqueue K now item).2.toQueueDisc := by
  obtain ⟨flowID, reason, _, _, _, -, he⟩ := enqueue_frame K now d item
  rw [he]
  exact ((d.keeps_receive item).trans (QueueDisc.keeps_noteFlowID _ item flowID)).trans
    (QueueDisc.keeps_conclude _ item reason)

/-- The internal queue gets the item exactly when `Enqueue` returns `true`. -/
theorem enqueue_packets (K : ZombieKind Z) (now : Time) (d : ZombieQueueDisc Z α) (item : α) :
    (d.enqueue K now item).2.queue.packets =
      d.queue.packets ++ if (d.enqueue K now item).1 then [item] else [] := by
  obtain ⟨flowID, reason, _, _, _, -, he⟩ := enqueue_frame K now d item
  have hq := d.receive_noteFlowID_queue item flowID
  rw [he, ← hq]
  exact QueueDisc.conclude_packets _ item reason

/-- `Enqueue` returns true if the item is classified, not dropped by the disc, and fits. -/
theorem enqueue_eq_true_iff {now : Time} {item : α} : (d.enqueue K now item).1 = true ↔
    ∃ hash, flowHash d.toQueueDisc item = some hash ∧
      d.dropReason K now hash.toInt32 item = none ∧ d.queue.fits item := by
  constructor
  · intro h
    cases hc : flowHash d.toQueueDisc item with
    | none =>
      rw [enqueue_of_noMatch hc] at h
      cases h
    | some hash =>
      have hq := d.receive_noteFlowID_queue item hash.toInt32
      rw [enqueue_eq hc] at h
      rw [← hq]
      rcases QueueDisc.conclude_cases _ item (d.dropReason K now hash.toInt32 item) with
        ⟨hn, hf, -⟩ | ⟨-, -, he⟩ | ⟨r, -, he⟩
      · exact ⟨hash, rfl, hn, hf⟩
      · exact absurd ((congrArg Prod.fst he).symm.trans h) Bool.false_ne_true
      · exact absurd ((congrArg Prod.fst he).symm.trans h) Bool.false_ne_true
  · rintro ⟨hash, hc, hn, hf⟩
    have hqn := d.receive_noteFlowID_queue item hash.toInt32
    rw [enqueue_eq hc, hn]
    exact congrArg Prod.fst (QueueDisc.enqueueInternal_of_fits (hqn.symm ▸ hf))

/-- The internal queue has room for what `Enqueue` accepts. -/
theorem fits_of_enqueue {now : Time} {item : α} (h : (d.enqueue K now item).1 = true) :
    d.queue.fits item := by
  obtain ⟨_, -, -, hf⟩ := enqueue_eq_true_iff.mp h
  exact hf

theorem Configured.enqueue (h : Configured a d) (now : Time) (item : α) :
    Configured a (d.enqueue K now item).2 := by
  have hk := enqueue_keeps (K := K) now d item
  obtain ⟨flowID, reason, zombies, pHitFreq, uv, hl, he⟩ := enqueue_frame K now d item
  rw [he] at hk ⊢
  have hz : Configured a { d with zombies := zombies, pHitFreq := pHitFreq, uv := uv } :=
    { h with length_le := hl h.length_le }
  have hr : (d.receive item).queue.Counted := h.counted
  have hc := QueueDisc.conclude_counted (QueueDisc.noteFlowID_counted hr item flowID) item reason
  exact hz.onBase hk.filters hk.maxSize hk.peeked hc

theorem Steady.enqueue (h : Steady a d) (now : Time) (item : α) :
    Steady a (d.enqueue K now item).2 :=
  (h.configured.enqueue now item).steady ((enqueue_keeps now d item).requeued.trans h.requeued)

/-- What `Dequeue` can do: nothing on an empty queue, else the head leaves. -/
theorem Steady.dequeue_cases (h : Steady a d) :
    (d.queue.nPackets = 0 ∧ d.dequeue = (none, d.toQueueDisc)) ∨
    (∃ item rest, d.queue.packets = item :: rest ∧ d.queue.nPackets ≠ 0 ∧
      d.dequeue = (some item, d.dequeueHead item rest)) := by
  rw [QueueDisc.dequeue_of_not_requeued h.requeued]
  exact QueueDisc.doDequeue_cases h.counted h.peeked

/-- **Step lemma.** -/
theorem Steady.next (h : Steady a d) (e : Event α) : Steady a ((machine K).next d e) := by
  obtain ⟨now, c⟩ := e
  cases c with
  | enqueue item => exact h.enqueue now item
  | dequeue =>
    rw [next_dequeue]
    rcases h.dequeue_cases with ⟨-, he⟩ | ⟨item, rest, hq, -, he⟩ <;> rw [he]
    · exact h
    · exact (h.configured.onBase (b := d.dequeueHead item rest) rfl rfl rfl
        (h.counted.eraseBegin hq)).steady h.requeued
  | peek => exact h

/-- **Run lemma.** Every state that calls lead to is steady. -/
theorem run_steady (K : ZombieKind Z) (a : Attributes α) (es : List (Event α)) :
    Steady a ((machine K).run (doInitialize a) es) :=
  Machine.run_invariant' (fun _ e h => h.next e) (steady_doInitialize a) es

end ZombieQueueDisc

end StabilizedRed
