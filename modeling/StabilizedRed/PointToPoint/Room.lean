import StabilizedRed.PointToPoint.Device
import StabilizedRed.Root.Tally

/-!
# When the device stops its transmission queue

The device stops the transmission queue when its own queue might not take another packet: one packet
more, or as many bytes as the MTU (`QueueSizeUnit.reserve`). On a limit that is at least this
reserve and does not wrap (`QueueSize.HasRoom`), the transmission queue is stopped exactly while the
reserve is not free (`PointToPointNetDevice.Sound`), so a packet that comes while it is not stopped
fits.
-/

namespace StabilizedRed

/-- What a device queue keeps free for the next packet. -/
def QueueSizeUnit.reserve (u : QueueSizeUnit) (mtu : UInt16) : ℕ :=
  match u with
  | .packets => 1
  | .bytes => mtu.toNat

/-- The limit leaves room for one packet, and its sums do not wrap. -/
structure QueueSize.HasRoom (m : QueueSize) (mtu : UInt16) : Prop where
  reserve_le : m.unit.reserve mtu ≤ m.value.toNat
  add_reserve_lt : m.value.toNat + m.unit.reserve mtu < 2 ^ 32

theorem QueueSizeUnit.used_nil {α : Type} [QueueItem α] (u : QueueSizeUnit) :
    u.used ([] : List α) = 0 := by
  cases u <;> rfl

/-- Where each packet takes something, there are no more packets than are used. -/
theorem QueueSizeUnit.length_le_used {α : Type} [QueueItem α] {u : QueueSizeUnit} {l : List α}
    (h : ∀ x ∈ l, 0 < (u.cost x).toNat) : l.length ≤ u.used l := by
  induction l with
  | nil => exact Nat.zero_le _
  | cons x l ih =>
    obtain ⟨hx, hl⟩ := List.forall_mem_cons.mp h
    rw [← List.singleton_append, used_append, used_singleton, List.length_append]
    exact Nat.add_le_add hx (ih hl)

namespace Queue

variable {α : Type} [QueueItem α] {q : Queue α} {mtu : UInt16}

/-- What the queue holds, in the unit of its limit. -/
abbrev used (q : Queue α) : ℕ := q.maxSize.unit.used q.packets

theorem used_insertEnd (q : Queue α) (item : α) :
    (q.insertEnd item).used = q.used + (q.maxSize.unit.cost item).toNat := by
  show q.maxSize.unit.used (q.packets ++ [item]) = _
  rw [QueueSizeUnit.used_append, QueueSizeUnit.used_singleton]

theorem used_eraseBegin {item : α} {rest : List α} (hq : q.packets = item :: rest) :
    q.used = (q.maxSize.unit.cost item).toNat + (q.eraseBegin item rest).used := by
  show q.maxSize.unit.used q.packets = _ + q.maxSize.unit.used rest
  rw [hq, ← List.singleton_append, QueueSizeUnit.used_append, QueueSizeUnit.used_singleton]

theorem Counted.getCurrentSize_toNat (h : q.Counted) (hle : q.used ≤ q.maxSize.value.toNat) :
    q.getCurrentSize.value.toNat = q.used := by
  rw [h.getCurrentSize_value]
  exact UInt32.toNat_ofNat_of_lt' (hle.trans_lt q.maxSize.value.toNat_lt)

/-- `WouldOverflow (1, MTU)`, without the words. -/
theorem Counted.wouldOverflow_iff (h : q.Counted) (hle : q.used ≤ q.maxSize.value.toNat)
    (hm : q.maxSize.HasRoom mtu) :
    q.wouldOverflow 1 mtu.toUInt32 = true ↔
      q.maxSize.value.toNat < q.used + q.maxSize.unit.reserve mtu := by
  have hsize := h.getCurrentSize_toNat hle
  have hlt := hm.add_reserve_lt
  have hval : ∀ w : UInt32, w.toNat = q.maxSize.unit.reserve mtu →
      (decide (q.maxSize.value < q.getCurrentSize.value + w) = true ↔
        q.maxSize.value.toNat < q.used + q.maxSize.unit.reserve mtu) := by
    intro w hw
    rw [decide_eq_true_eq, UInt32.lt_iff_toNat_lt, UInt32.toNat_add, hsize, hw,
      Nat.mod_eq_of_lt (by omega)]
  unfold wouldOverflow
  unfold getCurrentSize at hval
  cases hu : q.maxSize.unit with
  | packets =>
    simp only [hu] at hval ⊢
    exact hval 1 rfl
  | bytes =>
    simp only [hu] at hval ⊢
    exact hval mtu.toUInt32 mtu.toNat_toUInt32

/-- The admission test, without the words, for a packet within the reserve. -/
theorem Counted.fits_iff (h : q.Counted) (hle : q.used ≤ q.maxSize.value.toNat)
    (hm : q.maxSize.HasRoom mtu) {item : α}
    (hcost : (q.maxSize.unit.cost item).toNat ≤ q.maxSize.unit.reserve mtu) :
    q.fits item ↔ q.used + (q.maxSize.unit.cost item).toNat ≤ q.maxSize.value.toNat := by
  have hlt := hm.add_reserve_lt
  unfold fits
  rw [UInt32.le_iff_toNat_le, UInt32.toNat_add, h.getCurrentSize_toNat hle,
    Nat.mod_eq_of_lt (by omega)]

end Queue

/-! ## What the trace sources of the queue do to the transmission queue -/

namespace NetDeviceQueue

theorem perform_append (q : NetDeviceQueue) (cs ds : List Change) :
    q.perform (cs ++ ds) =
      ((q.perform cs).1 + ((q.perform cs).2.perform ds).1, ((q.perform cs).2.perform ds).2) := by
  induction cs generalizing q with
  | nil => exact Prod.ext (Nat.zero_add _).symm rfl
  | cons c cs ih =>
    show ((if q.requestsRun c then 1 else 0) + ((q.apply c).perform (cs ++ ds)).1,
      ((q.apply c).perform (cs ++ ds)).2) = _
    rw [ih]
    exact Prod.ext (Nat.add_assoc _ _ _).symm rfl

variable {α : Type} [QueueItem α] {now : Time} {mtu : UInt16} {queue : Queue α} {item : α}
  {queueLimits : Option DynamicQueueLimits}

/-- What the queue limits do is none of the device's. -/
theorem notifyQueuedBytes_stoppedByDevice (tx : NetDeviceQueue) (bytes : UInt32)
    (queueLimits : Option DynamicQueueLimits) :
    (tx.perform (notifyQueuedBytes bytes queueLimits).1).2.stoppedByDevice =
      tx.stoppedByDevice := by
  cases queueLimits with
  | none => rfl
  | some l =>
    unfold notifyQueuedBytes
    dsimp only
    split <;> rfl

theorem notifyTransmittedBytes_stoppedByDevice (now : Time) (tx : NetDeviceQueue) (bytes : UInt32)
    (queueLimits : Option DynamicQueueLimits) :
    (tx.perform (notifyTransmittedBytes now bytes queueLimits).1).2.stoppedByDevice =
      tx.stoppedByDevice := by
  cases queueLimits with
  | none => rfl
  | some l =>
    unfold notifyTransmittedBytes
    dsimp only
    split
    · rfl
    · split <;> rfl

/-- After an enqueue the device has stopped the queue if another packet might not fit. -/
theorem enqueue_stoppedByDevice (tx : NetDeviceQueue) :
    (tx.perform (queueTrace now mtu queue queueLimits (.enqueue item)).1).2.stoppedByDevice =
      (tx.stoppedByDevice || queue.wouldOverflow 1 mtu.toUInt32) := by
  show (tx.perform ((notifyQueuedBytes (getSize item) queueLimits).1 ++ _)).2.stoppedByDevice = _
  rw [perform_append]
  have h := notifyQueuedBytes_stoppedByDevice tx (getSize item) queueLimits
  cases queue.wouldOverflow 1 mtu.toUInt32 with
  | true => exact (Bool.or_true _).symm
  | false => exact h.trans (Bool.or_false _).symm

/-- After a dequeue it is still stopped only if another packet might not fit. -/
theorem dequeue_stoppedByDevice (tx : NetDeviceQueue) :
    (tx.perform (queueTrace now mtu queue queueLimits (.dequeue item)).1).2.stoppedByDevice =
      (tx.stoppedByDevice && queue.wouldOverflow 1 mtu.toUInt32) := by
  show (tx.perform ((notifyTransmittedBytes now (getSize item) queueLimits).1 ++ _)).2.stoppedByDevice
    = _
  rw [perform_append]
  have h := notifyTransmittedBytes_stoppedByDevice now tx (getSize item) queueLimits
  cases queue.wouldOverflow 1 mtu.toUInt32 with
  | true => exact h.trans (Bool.and_true _).symm
  | false => exact (Bool.and_false _).symm

theorem perform_runs_le (q : NetDeviceQueue) (cs : List Change) : (q.perform cs).1 ≤ cs.length := by
  induction cs generalizing q with
  | nil => exact Nat.le_refl _
  | cons c cs ih =>
    have := ih (q.apply c)
    show (if q.requestsRun c then 1 else 0) + ((q.apply c).perform cs).1 ≤ cs.length + 1
    split <;> omega

/-- An enqueue schedules no run of the queue disc. -/
theorem enqueue_runs (tx : NetDeviceQueue) :
    (tx.perform (queueTrace now mtu queue queueLimits (.enqueue item)).1).1 = 0 := by
  show (tx.perform ((notifyQueuedBytes (getSize item) queueLimits).1 ++ _)).1 = 0
  have hqueued : (tx.perform (notifyQueuedBytes (getSize item) queueLimits).1).1 = 0 := by
    cases queueLimits with
    | none => rfl
    | some l =>
      unfold notifyQueuedBytes
      dsimp only
      split <;> rfl
  rw [perform_append, hqueued]
  split <;> rfl

/-- A dequeue schedules two at most: the device's and that of the queue limits. -/
theorem dequeue_runs_le (tx : NetDeviceQueue) :
    (tx.perform (queueTrace now mtu queue queueLimits (.dequeue item)).1).1 ≤ 2 := by
  refine (perform_runs_le tx _).trans ?_
  show ((notifyTransmittedBytes now (getSize item) queueLimits).1 ++ _).length ≤ 2
  have htransmitted : (notifyTransmittedBytes now (getSize item) queueLimits).1.length ≤ 1 := by
    cases queueLimits with
    | none => exact Nat.zero_le _
    | some l =>
      unfold notifyTransmittedBytes
      dsimp only
      split
      · exact Nat.zero_le _
      · split
        · exact Nat.zero_le _
        · exact Nat.le_refl _
  have hwoken : (if queue.wouldOverflow 1 mtu.toUInt32 then [] else [Change.wake]).length ≤ 1 := by
    split
    · exact Nat.zero_le _
    · exact Nat.le_refl _
  rw [List.length_append]
  exact Nat.add_le_add htransmitted hwoken

/-- Without queue limits there are none afterwards, and they stop nothing. -/
theorem queueTrace_none (tx : NetDeviceQueue) (trace : QueueTrace α) :
    (queueTrace now mtu queue none trace).2 = none ∧
      (tx.perform (queueTrace now mtu queue none trace).1).2.stoppedByQueueLimits =
        tx.stoppedByQueueLimits := by
  unfold queueTrace
  cases trace with
  | enqueue item =>
    unfold packetEnqueued notifyQueuedBytes
    dsimp only
    split <;> exact ⟨rfl, rfl⟩
  | dequeue item =>
    unfold packetDequeued notifyTransmittedBytes
    dsimp only
    split <;> exact ⟨rfl, rfl⟩
  | dropBeforeEnqueue item => exact ⟨rfl, rfl⟩

/-- A dequeue that makes room wakes a stopped queue, which schedules a run of the queue disc. -/
theorem dequeue_runs {tx : NetDeviceQueue} (hs : tx.stoppedByDevice = true)
    (hw : queue.wouldOverflow 1 mtu.toUInt32 = false) :
    0 < (tx.perform (queueTrace now mtu queue queueLimits (.dequeue item)).1).1 := by
  show 0 < (tx.perform ((notifyTransmittedBytes now (getSize item) queueLimits).1 ++ _)).1
  rw [perform_append, hw]
  have h := notifyTransmittedBytes_stoppedByDevice now tx (getSize item) queueLimits
  refine Nat.add_pos_right _ ?_
  show 0 < (if (tx.perform _).2.stoppedByDevice = true then 1 else 0) + 0
  rw [h, hs]
  exact Nat.one_pos

end NetDeviceQueue

namespace PointToPointNetDevice

variable {α : Type} [NetDeviceItem α]

/-- The device is up, its queue is within the limit `m`, of which each packet takes something, and
its transmission queue is stopped exactly while the reserve is not free. -/
structure Sound (m : QueueSize) (mtu : UInt16) (tx : NetDeviceQueue)
    (d : PointToPointNetDevice α) : Prop where
  maxSize_eq : d.queue.maxSize = m
  mtu_eq : d.mtu = mtu
  linkUp : d.linkUp = true
  counted : d.queue.Counted
  used_le : d.queue.used ≤ m.value.toNat
  cost_pos : ∀ p ∈ d.queue.packets, 0 < (m.unit.cost p).toNat
  stopped : tx.stoppedByDevice = true ↔ m.value.toNat < d.queue.used + m.unit.reserve mtu

variable {m : QueueSize} {mtu : UInt16} {tx : NetDeviceQueue} {d : PointToPointNetDevice α}
  {p : PppPacket α}

/-- The changes of the transmission queue when a trace source fires. -/
def changes (now : Time) (d : PointToPointNetDevice α) (trace : QueueTrace (PppPacket α))
    (queue : Queue (PppPacket α)) : List NetDeviceQueue.Change :=
  (NetDeviceQueue.queueTrace now d.mtu queue d.queueLimits trace).1

/-! ### The operations, as equations -/

theorem transmitNext_nil (now : Time) (h : d.queue.nPackets = 0) :
    d.transmitNext now = ([], d) := by
  unfold transmitNext Queue.dequeue
  rw [if_pos h]

theorem transmitNext_cons (now : Time) (h : d.queue.nPackets ≠ 0) {rest : List (PppPacket α)}
    (hq : d.queue.packets = p :: rest) :
    d.transmitNext now =
      ((d.changes now (.dequeue p) (d.queue.eraseBegin p rest)).map .change ++
        [.transmit p (calculateBytesTxTime d.bps (getSize p)) d.tInterframeGap],
      { (d.traced now (.dequeue p) (d.queue.eraseBegin p rest)).2 with
        txMachineState := .busy
        currentPkt := some p }) := by
  unfold transmitNext Queue.dequeue
  rw [if_neg h, hq]
  rfl

/-- `Send` while the device transmits. -/
theorem send_busy (now : Time) {x : α} {proto : UInt16} (hp : p = ⟨etherToPpp proto, x⟩)
    (hup : d.linkUp = true) (hf : d.queue.fits p) (hb : d.txMachineState = .busy) :
    d.send now x proto =
      (true, (d.changes now (.enqueue p) (d.queue.insertEnd p)).map .change,
        (d.traced now (.enqueue p) (d.queue.insertEnd p)).2) := by
  unfold send
  rw [if_neg (by rw [hup]; exact Bool.noConfusion), ← hp, Queue.enqueue_of_fits hf]
  have hb' : (d.traced now (.enqueue p) (d.queue.insertEnd p)).2.txMachineState ≠ .ready := by
    show d.txMachineState ≠ .ready
    rw [hb]
    exact TxMachineState.noConfusion
  exact if_neg hb'

/-- `Send` while the device is idle: the packet goes through the queue and out. -/
theorem send_ready (now : Time) {x : α} {proto : UInt16} (hp : p = ⟨etherToPpp proto, x⟩)
    (hup : d.linkUp = true) (hf : d.queue.fits p) (hr : d.txMachineState = .ready)  :
    d.send now x proto =
      (true, (d.changes now (.enqueue p) (d.queue.insertEnd p)).map .change ++
          ((d.traced now (.enqueue p) (d.queue.insertEnd p)).2.transmitNext now).1,
        ((d.traced now (.enqueue p) (d.queue.insertEnd p)).2.transmitNext now).2) := by
  unfold send
  rw [if_neg (by rw [hup]; exact Bool.noConfusion), ← hp, Queue.enqueue_of_fits hf]
  exact if_pos hr

/-! ### The invariant -/

theorem Sound.wouldOverflow_iff (h : d.Sound m mtu tx) (hm : m.HasRoom mtu) :
    d.queue.wouldOverflow 1 mtu.toUInt32 = true ↔
      m.value.toNat < d.queue.used + m.unit.reserve mtu := by
  obtain ⟨rfl, -, -, hc, hle, -, -⟩ := h
  exact hc.wouldOverflow_iff hle hm

/-- A queue that holds packets counts some. -/
theorem Sound.nPackets_ne_zero (h : d.Sound m mtu tx) (hne : d.queue.packets ≠ []) :
    d.queue.nPackets ≠ 0 := by
  obtain ⟨rfl, -, -, hc, hle, hpos, -⟩ := h
  have hlen : d.queue.packets.length ≤ d.queue.used := QueueSizeUnit.length_le_used hpos
  have hlt := d.queue.maxSize.value.toNat_lt
  have hlen' := List.length_pos_iff.mpr hne
  intro h0
  have hn := congrArg UInt32.toNat h0
  rw [hc.nPackets, UInt32.toNat_ofNat_of_lt' (by simp only [UInt32.size]; omega)] at hn
  exact hlen'.ne' hn

/-- **A packet that comes while the transmission queue is not stopped fits.** -/
theorem Sound.fits (h : d.Sound m mtu tx) (hm : m.HasRoom mtu) (hs : tx.stoppedByDevice = false)
    (hcost : (m.unit.cost p).toNat ≤ m.unit.reserve mtu) : d.queue.fits p := by
  have hroom := mt h.stopped.mpr (hs ▸ Bool.false_ne_true)
  obtain ⟨rfl, -, -, hc, hle, -, -⟩ := h
  rw [hc.fits_iff hle hm hcost]
  omega

/-- The queue takes a packet that fits, and the transmission queue follows. -/
theorem Sound.enqueue (h : d.Sound m mtu tx) (hm : m.HasRoom mtu)
    (hs : tx.stoppedByDevice = false) (hcost : (m.unit.cost p).toNat ≤ m.unit.reserve mtu)
    (hpos : 0 < (m.unit.cost p).toNat) (now : Time) :
    (d.traced now (.enqueue p) (d.queue.insertEnd p)).2.Sound m mtu
      (tx.perform (d.changes now (.enqueue p) (d.queue.insertEnd p))).2 := by
  have hroom := mt h.stopped.mpr (hs ▸ Bool.false_ne_true)
  obtain ⟨rfl, rfl, hup, hc, hle, hall, -⟩ := h
  have hused := d.queue.used_insertEnd p
  have hle' : (d.queue.insertEnd p).used ≤ (d.queue.insertEnd p).maxSize.value.toNat := by
    show (d.queue.insertEnd p).used ≤ d.queue.maxSize.value.toNat
    omega
  refine ⟨rfl, rfl, hup, hc.insertEnd p, hle', ?_, ?_⟩
  · exact List.forall_mem_append.mpr ⟨hall, List.forall_mem_singleton.mpr hpos⟩
  unfold changes
  rw [NetDeviceQueue.enqueue_stoppedByDevice, hs, Bool.false_or]
  exact (hc.insertEnd p).wouldOverflow_iff hle' hm

/-- A packet leaves the queue, and the transmission queue follows. -/
theorem Sound.dequeue (h : d.Sound m mtu tx) (hm : m.HasRoom mtu) {rest : List (PppPacket α)}
    (hq : d.queue.packets = p :: rest) (now : Time) :
    (d.traced now (.dequeue p) (d.queue.eraseBegin p rest)).2.Sound m mtu
      (tx.perform (d.changes now (.dequeue p) (d.queue.eraseBegin p rest))).2 := by
  obtain ⟨rfl, rfl, hup, hc, hle, hall, hstop⟩ := h
  have hused := Queue.used_eraseBegin hq
  have hle' : (d.queue.eraseBegin p rest).used ≤
      (d.queue.eraseBegin p rest).maxSize.value.toNat := by
    show (d.queue.eraseBegin p rest).used ≤ d.queue.maxSize.value.toNat
    omega
  refine ⟨rfl, rfl, hup, hc.eraseBegin hq, hle', ?_, ?_⟩
  · exact fun x hx => hall x (hq ▸ List.mem_cons_of_mem _ hx)
  have hover := (hc.eraseBegin hq).wouldOverflow_iff hle' hm
  unfold changes
  rw [NetDeviceQueue.dequeue_stoppedByDevice, Bool.and_eq_true, hstop, hover]
  show _ ∧ d.queue.maxSize.value.toNat < (d.queue.eraseBegin p rest).used +
    d.queue.maxSize.unit.reserve d.mtu ↔ d.queue.maxSize.value.toNat <
      (d.queue.eraseBegin p rest).used + d.queue.maxSize.unit.reserve d.mtu
  omega

end PointToPointNetDevice

end StabilizedRed
