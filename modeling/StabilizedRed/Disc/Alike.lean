import StabilizedRed.Disc.Calls

/-!
# Two discs with related items

`QueueDisc.Alike I b b'`: the base parts `b` and `b'` hold and have dropped items that `I` relates
one by one, and agree in everything else. Related items have the same size, so every operation of
the base class on related items keeps two alike discs alike and gives the same result. Only the
items themselves differ, and the base class does not look into them.
-/

namespace StabilizedRed

namespace QueueDisc

variable {α : Type} {I : α → α → Prop}

/-- The two base parts agree up to their items, which `I` relates one by one. -/
structure Alike (I : α → α → Prop) (b b' : QueueDisc α) : Prop where
  packets : List.Forall₂ I b.queue.packets b'.queue.packets
  /-- The internal queues agree but for their items. -/
  queue : { b'.queue with packets := b.queue.packets } = b.queue
  filters : b'.filters = b.filters
  nPackets : b'.nPackets = b.nPackets
  nBytes : b'.nBytes = b.nBytes
  stats : b'.stats = b.stats
  quota : b'.quota = b.quota
  devQueueIface : b'.devQueueIface = b.devQueueIface
  running : b'.running = b.running
  dropTrace : List.Forall₂ (fun x x' => I x.1 x'.1 ∧ x.2 = x'.2) b.dropTrace b'.dropTrace

variable {b b' : QueueDisc α} {x x' : α}

section

variable (h : Alike I b b')
include h

theorem Alike.queue_nPackets : b'.queue.nPackets = b.queue.nPackets :=
  (congrArg Queue.nPackets h.queue :)

theorem Alike.queue_nBytes : b'.queue.nBytes = b.queue.nBytes :=
  (congrArg Queue.nBytes h.queue :)

theorem Alike.maxSize : b'.queue.maxSize = b.queue.maxSize :=
  (congrArg Queue.maxSize h.queue :)

theorem Alike.getCurrentSize : b'.queue.getCurrentSize = b.queue.getCurrentSize := by
  unfold Queue.getCurrentSize
  rw [h.maxSize, h.queue_nPackets, h.queue_nBytes]

/-- Both are peeked with the same result. -/
theorem Alike.peek : Option.Rel I b.peek b'.peek := by
  have hp := h.packets
  unfold QueueDisc.peek QueueDisc.doPeek Queue.isEmpty Queue.peek
  rw [h.queue_nPackets]
  generalize b.queue.packets = l, b'.queue.packets = l' at hp
  split
  · exact .none
  · split
    · exact .none
    · cases hp with
      | nil => exact .none
      | cons hx _ => exact .some hx

variable [QueueDiscItem α]

theorem Alike.fits (hs : getSize x' = getSize x) : b'.queue.fits x' ↔ b.queue.fits x := by
  unfold Queue.fits QueueSizeUnit.cost
  rw [h.getCurrentSize, h.maxSize, hs]

theorem Alike.receive (hs : getSize x' = getSize x) : Alike I (b.receive x) (b'.receive x') :=
  { h with stats := by simp only [QueueDisc.receive, h.stats, hs] }

theorem Alike.dropBeforeEnqueue (hx : I x x') (hs : getSize x' = getSize x) (reason : String) :
    Alike I (b.dropBeforeEnqueue x reason) (b'.dropBeforeEnqueue x' reason) :=
  { h with
    stats := by simp only [QueueDisc.dropBeforeEnqueue, h.stats, hs]
    dropTrace := List.rel_append h.dropTrace (.cons ⟨hx, rfl⟩ .nil) }

theorem Alike.noteFlowID (hx : I x x') (hs : getSize x' = getSize x) {f f' : Int32}
    (hf : f' = -1 ↔ f = -1) : Alike I (b.noteFlowID x f) (b'.noteFlowID x' f') := by
  unfold QueueDisc.noteFlowID
  by_cases hid : f = -1
  · rw [if_pos hid, if_pos (hf.mpr hid)]
    exact h.dropBeforeEnqueue hx hs _
  · rw [if_neg hid, if_neg fun hid' => hid (hf.mp hid')]
    exact h

theorem Alike.take (hx : I x x') (hs : getSize x' = getSize x) : Alike I (b.take x) (b'.take x') :=
  { h with
    packets := List.rel_append h.packets (.cons hx .nil)
    queue := by
      have hq := congrArg (fun q => q.insertEnd x) h.queue
      simp only [Queue.insertEnd] at hq
      simp only [QueueDisc.take, packetEnqueued, Queue.insertEnd, hs]
      exact hq
    nPackets := congrArg (· + 1) h.nPackets
    nBytes := by simp only [QueueDisc.take, packetEnqueued, h.nBytes, hs]
    stats := by simp only [QueueDisc.take, packetEnqueued, h.stats, hs] }

theorem Alike.refuse (hx : I x x') (hs : getSize x' = getSize x) :
    Alike I (b.refuse x) (b'.refuse x') := by
  have hq := congrArg (fun q => q.dropBeforeEnqueue x) h.queue
  simp only [Queue.dropBeforeEnqueue] at hq
  have h' : Alike I { b with queue := b.queue.dropBeforeEnqueue x }
      { b' with queue := b'.queue.dropBeforeEnqueue x' } :=
    { h with
      queue := by
        simp only [Queue.dropBeforeEnqueue, hs]
        exact hq }
  exact h'.dropBeforeEnqueue hx hs internalQueueDrop

/-- An arrival ends in the same way in both. -/
theorem Alike.conclude (hx : I x x') (hs : getSize x' = getSize x) (reason : Option String) :
    (b'.conclude x' reason).1 = (b.conclude x reason).1 ∧
      Alike I (b.conclude x reason).2 (b'.conclude x' reason).2 := by
  cases reason with
  | none =>
    by_cases hf : b.queue.fits x
    · have hf' := (h.fits hs).mpr hf
      rw [show b.conclude x none = _ from enqueueInternal_of_fits hf,
        show b'.conclude x' none = _ from enqueueInternal_of_fits hf']
      exact ⟨rfl, h.take hx hs⟩
    · have hf' := fun hf' => hf ((h.fits hs).mp hf')
      rw [show b.conclude x none = _ from enqueueInternal_of_not_fits hf,
        show b'.conclude x' none = _ from enqueueInternal_of_not_fits hf']
      exact ⟨rfl, h.refuse hx hs⟩
  | some reason => exact ⟨rfl, h.dropBeforeEnqueue hx hs reason⟩

theorem Alike.dequeueHead {rest rest' : List α} (hs : getSize x' = getSize x)
    (hr : List.Forall₂ I rest rest') : Alike I (b.dequeueHead x rest) (b'.dequeueHead x' rest') :=
  { h with
    packets := hr
    queue := by
      have hq := congrArg (fun q => q.eraseBegin x rest) h.queue
      simp only [Queue.eraseBegin] at hq
      simp only [QueueDisc.dequeueHead, Queue.eraseBegin, hs]
      exact hq
    nPackets := congrArg (· - 1) h.nPackets
    nBytes := by simp only [QueueDisc.dequeueHead, h.nBytes, hs]
    stats := by simp only [QueueDisc.dequeueHead, h.stats, hs] }

end

/-- With equality for `I`, alike means equal. -/
theorem alike_eq_iff (hr : b.requeued = b'.requeued) (hp : b.peeked = b'.peeked) :
    Alike Eq b b' ↔ b = b' := by
  constructor
  · intro h
    have hpk : b.queue.packets = b'.queue.packets := by
      have := h.packets
      rwa [List.forall₂_eq_eq_eq] at this
    have hq : b.queue = b'.queue := by rw [← h.queue, hpk]
    have hd : b.dropTrace = b'.dropTrace := by
      have : List.Forall₂ Eq b.dropTrace b'.dropTrace :=
        h.dropTrace.imp fun x y hxy => Prod.ext hxy.1 hxy.2
      rwa [List.forall₂_eq_eq_eq] at this
    obtain ⟨-, -, hf, hn, hb, hs, hquota, hi, hrun, -⟩ := h
    cases b
    cases b'
    simp_all
  · rintro rfl
    exact ⟨List.forall₂_refl _, rfl, rfl, rfl, rfl, rfl, rfl, rfl, rfl,
      List.forall₂_same.mpr fun _ _ => ⟨rfl, rfl⟩⟩

end QueueDisc

end StabilizedRed
