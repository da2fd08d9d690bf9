import StabilizedRed.TrafficControl.QueueDisc

/-!
# `QueueDisc::Run` and what it calls (`traffic-control/model/queue-disc.cc`)

`Run` takes packets out of the disc and gives them to the send callback until its quota is used up,
the disc is empty or a device queue is stopped. The callback may do anything before it returns, also
stop a queue, enqueue packets or call `Run` again, so `Run` is cut there: `restart` goes up to a
call of the callback, and `transmitReturn` is what happens first after it has returned.
-/

namespace StabilizedRed

namespace QueueDisc

variable {α : Type} [QueueDiscItem α]

/-- `m_devQueueIface && m_devQueueIface->GetTxQueue (txq)->IsStopped ()`. -/
def txStopped (d : QueueDisc α) (txq : ℕ) : Bool :=
  d.devQueueIface.any (·.isStopped txq)

/-- `RunBegin`. -/
def runBegin (d : QueueDisc α) : Bool × QueueDisc α :=
  if d.running then (false, d) else (true, { d with running := true })

/-- `RunEnd`. -/
def runEnd (d : QueueDisc α) : QueueDisc α := { d with running := false }

/-- `DequeuePacket`: the requeued packet if its queue is not stopped; without one, a packet from the
disc, which gets its header. A device with a single queue that is stopped gets none. -/
def dequeuePacket (d : QueueDisc α) : Option α × QueueDisc α :=
  match d.requeued with
  | some item =>
    if d.txStopped (getTxQueueIndex item).toNat then (none, d)
    else
      let d := { d with requeued := none }
      let d := if d.peeked then { d with peeked := false }.packetDequeued item else d
      (some item, d)
  | none =>
    if d.devQueueIface.all (fun i => decide (1 < i.getNTxQueues) || !i.isStopped 0) then
      let (item, d) := d.dequeue
      (item.map addHeader, d)
    else (none, d)

/-- `Requeue`. -/
def requeue (d : QueueDisc α) (item : α) : QueueDisc α :=
  { d with
    requeued := some item
    stats := { d.stats with
      nTotalRequeuedPackets := d.stats.nTotalRequeuedPackets + 1
      nTotalRequeuedBytes := d.stats.nTotalRequeuedBytes + (getSize item).toUInt64 } }

/-- `Restart` up to the call of the send callback in `Transmit`: the packet for the callback, or
`none` if `Restart` returns false before it. -/
def restart (d : QueueDisc α) : Option α × QueueDisc α :=
  match d.dequeuePacket with
  | (none, d) => (none, d)
  | (some item, d) =>
    if d.txStopped (getTxQueueIndex item).toNat then (none, d.requeue item) else (some item, d)

/-- What `Transmit` returns after the callback for `item`. -/
def transmitReturn (d : QueueDisc α) (item : α) : Bool :=
  !(d.nPackets == 0 || d.txStopped (getTxQueueIndex item).toNat)

/-! ## What a restart does -/

/-- What `DequeuePacket` can do: nothing, or the requeued packet goes out, or the head of the
internal queue goes out with its header. -/
theorem dequeuePacket_cases {d : QueueDisc α} (hc : d.queue.Counted) (hp : d.peeked = false) :
    d.dequeuePacket = (none, d) ∨
    (∃ item, d.requeued = some item ∧ ¬ d.txStopped (getTxQueueIndex item).toNat ∧
      d.dequeuePacket = (some item, { d with requeued := none })) ∨
    (∃ item rest, d.requeued = none ∧ d.queue.packets = item :: rest ∧ d.queue.nPackets ≠ 0 ∧
      d.dequeuePacket = (some (addHeader item), d.dequeueHead item rest)) := by
  unfold dequeuePacket
  cases hr : d.requeued with
  | some item =>
    by_cases hs : d.txStopped (getTxQueueIndex item).toNat = true
    · exact .inl (if_pos hs)
    · refine .inr (.inl ⟨item, rfl, hs, ?_⟩)
      dsimp only
      rw [if_neg hs, hp]
      rfl
  | none =>
    dsimp only
    split
    · rw [dequeue_of_not_requeued hr]
      rcases doDequeue_cases hc hp with ⟨-, he⟩ | ⟨item, rest, hq, hn, he⟩
      · rw [he]
        exact .inl rfl
      · rw [he]
        exact .inr (.inr ⟨item, rest, rfl, hq, hn, rfl⟩)
    · exact .inl rfl

/-- **What a restart can do**: nothing; the requeued packet goes to the callback; the head of the
internal queue is requeued, or goes to the callback. A requeue finds the slot empty. -/
theorem restart_cases {d : QueueDisc α} (hc : d.queue.Counted) (hp : d.peeked = false) :
    d.restart = (none, d) ∨
    (∃ item, d.requeued = some item ∧ d.restart = (some item, { d with requeued := none })) ∨
    (∃ item rest, d.requeued = none ∧ d.queue.packets = item :: rest ∧ d.queue.nPackets ≠ 0 ∧
      d.restart = (none, (d.dequeueHead item rest).requeue (addHeader item))) ∨
    (∃ item rest, d.requeued = none ∧ d.queue.packets = item :: rest ∧ d.queue.nPackets ≠ 0 ∧
      d.restart = (some (addHeader item), d.dequeueHead item rest)) := by
  unfold restart
  rcases dequeuePacket_cases hc hp with he | ⟨item, hr, hs, he⟩ | ⟨item, rest, hr, hq, hn, he⟩ <;>
    rw [he]
  · exact .inl rfl
  · exact .inr (.inl ⟨item, hr, if_neg hs⟩)
  · by_cases hs : (d.dequeueHead item rest).txStopped (getTxQueueIndex (addHeader item)).toNat = true
    · exact .inr (.inr (.inl ⟨item, rest, hr, hq, hn, if_pos hs⟩))
    · exact .inr (.inr (.inr ⟨item, rest, hr, hq, hn, if_neg hs⟩))

end QueueDisc

end StabilizedRed
