import StabilizedRed.Root.Basic
import StabilizedRed.Root.Tally

/-!
# Packets leave in the order they were accepted

`InOrder`: what the send callback was given, the requeued item and the internal queue are, in this
order, the accepted items; those that left the queue have their header, the others do not; and the
counters agree (`QueueDisc.Tallied`). No event but a direct call of `Dequeue` breaks it
(`InOrder.next`), whatever the device queues do and wherever the send callbacks return
(`run_inOrder`).
-/

namespace StabilizedRed.Root

variable {Z α : Type} [QueueDiscItem α] {K : ZombieKind Z}

/-- The accepted items are those that left the internal queue, then those in it. The former were
given to the send callback, except for the last one if it is requeued, each with one header. -/
structure InOrder (m : QueueSize) (r : Root Z α) : Prop where
  peeked : r.disc.peeked = false
  order : ∃ left, r.disc.Tallied m left ∧ r.accepted = left ++ r.disc.queue.packets ∧
    r.sent ++ r.disc.requeued.toList = left.map addHeader

variable {m : QueueSize} {r : Root Z α}

theorem inOrder_doInitialize (a : Attributes α) :
    InOrder a.maxSize (doInitialize a : Root Z α) where
  peeked := rfl
  order := ⟨[], ⟨rfl, ⟨rfl, rfl⟩, rfl, rfl, rfl, rfl, rfl, rfl, fun _ => by
    cases a.maxSize.unit <;> exact Nat.zero_le _⟩, rfl, rfl⟩

theorem InOrder.counted (h : InOrder m r) : r.disc.queue.Counted := by
  obtain ⟨left, ht, -, -⟩ := h.order
  exact ht.counted

/-- A change of the base part that keeps the items where they are. -/
theorem InOrder.onBase (h : InOrder m r) {b : QueueDisc α} (hp : b.peeked = r.disc.peeked)
    (hr : b.requeued = r.disc.requeued) (hq : b.queue = r.disc.queue)
    (ht : ∀ left, r.disc.Tallied m left → b.Tallied m left) : InOrder m (r.onBase b) := by
  obtain ⟨left, htally, hacc, hsent⟩ := h.order
  refine ⟨hp.trans h.peeked, left, ht left htally, ?_, ?_⟩
  · rw [show (r.onBase b).disc.queue = b.queue from rfl, hq]
    exact hacc
  · rw [show (r.onBase b).disc.requeued = b.requeued from rfl, hr]
    exact hsent

/-- `Enqueue` appends the item to the queue exactly if it accepts it. -/
theorem InOrder.enqueue (h : InOrder m r) (now : Time) (item : α) :
    InOrder m (next K r (.enqueue now item)) := by
  obtain ⟨flowID, reason, zombies, pHitFreq, uv, -, he⟩ :=
    ZombieQueueDisc.enqueue_frame K now r.disc item
  obtain ⟨left, ht, hacc, hsent⟩ := h.order
  have ht' := ((ht.receive item).noteFlowID item flowID).conclude item reason
  have hq := r.disc.receive_noteFlowID_queue item flowID
  have hk := ((r.disc.keeps_receive item).trans (QueueDisc.keeps_noteFlowID _ item flowID)).trans
    (QueueDisc.keeps_conclude _ item reason)
  generalize (r.disc.receive item).noteFlowID item flowID = b at he ht' hq hk
  unfold next
  simp only [he]
  refine ⟨hk.peeked.trans h.peeked, left, ht', ?_, ?_⟩
  · show (if (b.conclude item reason).1 then r.accepted ++ [item] else r.accepted) =
      left ++ (b.conclude item reason).2.queue.packets
    rw [QueueDisc.conclude_packets, hq, hacc]
    split
    · rw [List.append_assoc]
    · rw [List.append_nil]
  · show r.sent ++ (b.conclude item reason).2.requeued.toList = _
    rw [hk.requeued]
    exact hsent

/-- The head of the queue is the next one to leave it. -/
theorem left_concat {left rest : List α} {item : α}
    (hacc : r.accepted = left ++ r.disc.queue.packets)
    (hsent : r.sent ++ r.disc.requeued.toList = left.map addHeader)
    (hq : r.disc.queue.packets = item :: rest) (hr : r.disc.requeued = none) :
    r.accepted = (left ++ [item]) ++ rest ∧
      r.sent ++ [addHeader item] = (left ++ [item]).map addHeader := by
  constructor
  · rw [hacc, hq, List.append_assoc, List.singleton_append]
  · rw [List.map_append, ← hsent, hr, Option.toList_none, List.append_nil, List.map_singleton]

/-- One turn of the loop of `Run` moves at most one item: to the callback or into the requeue
slot. -/
theorem InOrder.runLoop (h : InOrder m r) (quota : UInt32) : InOrder m (r.runLoop quota) := by
  obtain ⟨left, ht, hacc, hsent⟩ := h.order
  unfold Root.runLoop
  rcases QueueDisc.restart_cases ht.counted h.peeked with
    he | ⟨item, hr, he⟩ | ⟨item, rest, hr, hq, -, he⟩ | ⟨item, rest, hr, hq, -, he⟩ <;> rw [he]
  · exact h.onBase rfl rfl rfl fun _ ht => { ht with }
  · refine ⟨h.peeked, left, { ht with }, hacc, ?_⟩
    rw [← hsent, hr]
    exact List.append_nil _
  · obtain ⟨hacc', hsent'⟩ := left_concat hacc hsent hq hr
    have ht' := (ht.dequeueHead hq).requeue (addHeader item)
    exact ⟨h.peeked, left ++ [item], { ht' with }, hacc', hsent'⟩
  · obtain ⟨hacc', hsent'⟩ := left_concat hacc hsent hq hr
    refine ⟨h.peeked, left ++ [item], ht.dequeueHead hq, hacc', ?_⟩
    rw [← hsent']
    show (r.sent ++ [addHeader item]) ++ r.disc.requeued.toList = _
    rw [hr]
    exact List.append_nil _

theorem InOrder.sendReturned (h : InOrder m r) : InOrder m r.sendReturned := by
  unfold Root.sendReturned
  cases r.pending with
  | nil => exact h
  | cons p pending =>
    have h' : InOrder m { r with pending := pending } := ⟨h.peeked, h.order⟩
    dsimp only
    split
    · split
      · exact h'.onBase rfl rfl rfl fun _ ht => { ht with }
      · exact h'.runLoop _
    · exact h'.onBase rfl rfl rfl fun _ ht => { ht with }

theorem InOrder.run (h : InOrder m r) : InOrder m r.run := by
  unfold Root.run QueueDisc.runBegin
  by_cases hr : r.disc.running = true
  · rw [if_pos hr]
    exact h
  · rw [if_neg hr]
    have hb := h.onBase (b := { r.disc.toQueueDisc with running := true }) rfl rfl rfl
      fun _ ht => { ht with }
    exact hb.runLoop _

/-- **Step lemma.** Every event but a direct `Dequeue` keeps the order. -/
theorem InOrder.next (h : InOrder m r) {e : RootEvent α} (he : ¬ e.IsDequeue) :
    InOrder m (next K r e) := by
  cases e with
  | enqueue now item => exact h.enqueue now item
  | dequeue => exact absurd trivial he
  | peek => exact h
  | run => exact h.run
  | sendReturned => exact h.sendReturned
  | getStats => exact h.onBase rfl rfl rfl fun _ ht => ht.getStats
  | device txq c => exact h.onBase rfl rfl rfl fun _ ht => { ht with }

/-- **Run lemma.** -/
theorem run_inOrder (K : ZombieKind Z) (a : Attributes α) {es : List (RootEvent α)}
    (he : ∀ e ∈ es, ¬ e.IsDequeue) : InOrder a.maxSize ((machine K).run (doInitialize a) es) := by
  refine Machine.run_invariant (P := fun _ e => ¬ e.IsDequeue) ?_ (inOrder_doInitialize a)
    (Machine.along_of_forall he)
  intro r e he h
  exact h.next he

/-- **No accepted packet is lost, duplicated or reordered.** After any events but direct calls of
`Dequeue`, the accepted items are those that left the internal queue followed by those in it, and
the former, each with its header added once, are what the send callback was given followed by the
requeued item. -/
theorem accepted_eq_sent_requeued_queued (k : DiscKind) (a : Attributes α)
    (es : List (RootEvent α)) (he : ∀ e ∈ es, ¬ e.IsDequeue) :
    let r := (k.rootMachine α).run (doInitialize a) es
    ∃ left, r.accepted = left ++ r.disc.queue.packets ∧
      r.sent ++ r.disc.requeued.toList = left.map addHeader := by
  obtain ⟨left, -, hacc, hsent⟩ := (run_inOrder k.kind a he).order
  exact ⟨left, hacc, hsent⟩

/-- A limit of 40 bytes, on a device with two transmission queues. -/
def twoQueues : Attributes Ipv4QueueDiscItem :=
  { Attributes.fortyBytes with
    devQueueIface := some ⟨[{}, {}], List.cons_ne_nil _ _⟩ }

/-- A packet meets a stopped device queue, is requeued, and is sent once the queue is woken. -/
def stopAndWake : List (RootEvent Ipv4QueueDiscItem) :=
  [.device 0 .stop, .enqueue 0 (.tcp 0 49153), .run, .device 0 .wake, .run, .sendReturned]

theorem accepted_eq_sent_requeued_queued_stopAndWake :
    let r := (DiscKind.es.rootMachine Ipv4QueueDiscItem).run (doInitialize twoQueues) stopAndWake
    ∃ left, r.accepted = left ++ r.disc.queue.packets ∧
      r.sent ++ r.disc.requeued.toList = left.map addHeader :=
  accepted_eq_sent_requeued_queued .es twoQueues stopAndWake
    (by simp [stopAndWake, RootEvent.IsDequeue])

example : ((DiscKind.es.rootMachine Ipv4QueueDiscItem).run (doInitialize twoQueues)
    stopAndWake).sent = [addHeader (.tcp 0 49153)] := by decide

end StabilizedRed.Root
