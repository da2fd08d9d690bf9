import StabilizedRed.Link.Basic
import StabilizedRed.PointToPoint.Room
import StabilizedRed.Root.Single

/-!
# What the operations of a link do

The changes of the transmission queue that a device operation makes, carried out one after the
other, are one change of the queue and a number of scheduled runs (`Link.perform_changes`). With
this, the send callback and the end of a transmission are given by equations: `callback_busy`,
`callback_ready`, `transmitComplete_empty` and `transmitComplete_cons`.
-/

namespace StabilizedRed

variable {Z α : Type} [NetDeviceItem α]

/-- The disc's device has the one transmission queue `tx`. -/
def Root.setTx (r : Root Z α) (tx : NetDeviceQueue) : Root Z α :=
  r.onBase { r.disc.toQueueDisc with devQueueIface := some ⟨[tx], List.cons_ne_nil _ _⟩ }

namespace Root

variable {r : Root Z α} {tx : NetDeviceQueue}

theorem setTx_onSingle (h : r.disc.OnSingle tx) (tx' : NetDeviceQueue) :
    (r.setTx tx').disc.OnSingle tx' := ⟨rfl, h.requeued, h.txq⟩

theorem setTx_inOrder {m : QueueSize} (h : InOrder m r) (tx : NetDeviceQueue) :
    InOrder m (r.setTx tx) := h.onBase rfl rfl rfl fun _ ht => { ht with }

theorem Steady.setTx {m : QueueSize} {C : α → Prop} (h : Steady m C tx r) (tx' : NetDeviceQueue) :
    Steady m C tx' (r.setTx tx') where
  inOrder := setTx_inOrder h.inOrder tx'
  single := setTx_onSingle h.single tx'
  accepted := h.accepted
  running := h.running
  pending := h.pending

theorem setTx_self (h : r.disc.OnSingle tx) : r.setTx tx = r := by
  obtain ⟨i, hi, hq⟩ := h.exists_iface
  obtain ⟨txQueues, hne⟩ := i
  obtain rfl : txQueues = [tx] := hq
  unfold setTx
  rw [← hi]
  rfl

/-- A change of the only transmission queue. -/
theorem next_device_zero (K : ZombieKind Z) (h : r.disc.OnSingle tx) (c : NetDeviceQueue.Change) :
    Root.next K r (.device 0 c) = r.setTx (tx.apply c) := by
  obtain ⟨i, hi, hq⟩ := h.exists_iface
  obtain ⟨txQueues, hne⟩ := i
  obtain rfl : txQueues = [tx] := hq
  unfold Root.next setTx
  rw [hi]
  rfl

end Root

namespace Link

variable {K : ZombieKind Z} {l : Link Z α} {tx : NetDeviceQueue}

/-- Runs of the queue disc, scheduled for now. -/
def runLater (n : ℕ) (a : Agenda Time (LinkCall α)) : Agenda Time (LinkCall α) :=
  (fun a => a.schedule 0 .run)^[n] a

omit [NetDeviceItem α] in
theorem runLater_runLater (n k : ℕ) (a : Agenda Time (LinkCall α)) :
    runLater n (runLater k a) = runLater (k + n) a := by
  unfold runLater
  rw [← Function.iterate_add_apply, Nat.add_comm]

omit [NetDeviceItem α] in
@[simp] theorem runLater_now (n : ℕ) (a : Agenda Time (LinkCall α)) :
    (runLater n a).now = a.now := by
  induction n generalizing a with
  | zero => rfl
  | succ n ih => exact ih (a.schedule 0 .run)

theorem txQueue_eq (h : l.root.disc.OnSingle tx) : l.txQueue = tx := by
  obtain ⟨i, hi, hq⟩ := h.exists_iface
  unfold txQueue
  rw [hi, Option.bind_some, hq]
  rfl

theorem txQueue_enqueue (K : ZombieKind Z) (l : Link Z α) (now : Time) (x : α) :
    ({ l with root := Root.next K l.root (.enqueue now x) } : Link Z α).txQueue = l.txQueue := by
  obtain ⟨hiface, -, -⟩ := ZombieQueueDisc.enqueue_service K now l.root.disc x
  unfold txQueue
  show ((l.root.disc.enqueue K now x).2.devQueueIface.bind _).getD _ = _
  rw [hiface]

/-- **The changes of the transmission queue, carried out one after the other.** -/
theorem perform_changes (K : ZombieKind Z) (h : l.root.disc.OnSingle tx)
    (cs : List NetDeviceQueue.Change) :
    (cs.map DeviceEffect.change).foldl (perform K) l =
      { l with
        root := l.root.setTx (tx.perform cs).2
        agenda := runLater (tx.perform cs).1 l.agenda } := by
  induction cs generalizing l tx with
  | nil =>
    show l = { l with root := l.root.setTx tx }
    rw [Root.setTx_self h]
  | cons c cs ih =>
    have hstep : perform K l (.change c) =
        { l with
          root := l.root.setTx (tx.apply c)
          agenda := runLater (if tx.requestsRun c then 1 else 0) l.agenda } := by
      show ({ l with
        root := Root.next K l.root (.device 0 c)
        agenda := if l.txQueue.requestsRun c then l.agenda.schedule 0 .run else l.agenda } :
          Link Z α) = _
      rw [Root.next_device_zero K h, txQueue_eq h]
      cases tx.requestsRun c <;> rfl
    rw [List.map_cons, List.foldl_cons, hstep, ih (Root.setTx_onSingle h _), runLater_runLater]
    rfl

/-! ## The equations -/

/-- The packet as the device sends it. -/
def frame (x : α) : PppPacket α := ⟨etherToPpp (getProtocol x), x⟩

/-- The device's queue takes `p`, and the changes of the transmission queue are carried out. -/
def takeIn (l : Link Z α) (p : PppPacket α) : Link Z α :=
  let queue := l.device.queue.insertEnd p
  let (runs, tx) := l.txQueue.perform (l.device.changes l.agenda.now (.enqueue p) queue)
  { l with
    device := (l.device.traced l.agenda.now (.enqueue p) queue).2
    root := l.root.setTx tx
    agenda := runLater runs l.agenda }

/-- The packet `p` leaves the device's queue, in which `rest` stays, and the changes of the
transmission queue are carried out. -/
def takeOut (l : Link Z α) (p : PppPacket α) (rest : List (PppPacket α)) : Link Z α :=
  let queue := l.device.queue.eraseBegin p rest
  let (runs, tx) := l.txQueue.perform (l.device.changes l.agenda.now (.dequeue p) queue)
  { l with
    device := (l.device.traced l.agenda.now (.dequeue p) queue).2
    root := l.root.setTx tx
    agenda := runLater runs l.agenda }

/-- The device starts to transmit `p`. -/
def startTransmit (l : Link Z α) (p : PppPacket α) : Link Z α :=
  let txTime := calculateBytesTxTime l.device.bps (getSize p)
  { l with
    device := { l.device with txMachineState := .busy, currentPkt := some p }
    wire := l.wire ++ [p]
    agenda := (l.agenda.schedule (txTime + l.device.tInterframeGap) .transmitComplete).schedule
      (txTime + l.delay) (.receive p) }

/-- The send callback returns to `Run`. -/
def sendReturned (K : ZombieKind Z) (l : Link Z α) : Link Z α :=
  { l with root := Root.next K l.root .sendReturned }

/-- Carrying out changes does not depend on the device, and leaves it. -/
theorem perform_traced (K : ZombieKind Z) (h : l.root.disc.OnSingle tx)
    (d : PointToPointNetDevice α) (cs : List NetDeviceQueue.Change) :
    (cs.map DeviceEffect.change).foldl (perform K) { l with device := d } =
      { l with
        device := d
        root := l.root.setTx (tx.perform cs).2
        agenda := runLater (tx.perform cs).1 l.agenda } :=
  perform_changes (l := { l with device := d }) K h cs

theorem callback_nil (hp : l.root.pending = []) : callback K l = l := by
  unfold callback
  rw [hp]

/-- The callback while the device transmits: the packet waits in the device's queue. -/
theorem callback_busy (h : l.root.disc.OnSingle tx) {p : PendingRun α} {ps : List (PendingRun α)}
    (hp : l.root.pending = p :: ps) (hup : l.device.linkUp = true)
    (hf : l.device.queue.fits (frame p.item)) (hb : l.device.txMachineState = .busy) :
    callback K l = (l.takeIn (frame p.item)).sendReturned K := by
  unfold callback takeIn
  rw [hp]
  dsimp only
  rw [PointToPointNetDevice.send_busy _ rfl hup hf hb, txQueue_eq h]
  dsimp only
  rw [perform_traced K h]
  rfl

/-- The device takes the next packet out of its queue and starts to transmit it. -/
theorem perform_transmitNext (K : ZombieKind Z) (h : l.root.disc.OnSingle tx) {p : PppPacket α}
    {rest : List (PppPacket α)} (hn : l.device.queue.nPackets ≠ 0)
    (hq : l.device.queue.packets = p :: rest) :
    (l.device.transmitNext l.agenda.now).1.foldl (perform K)
        { l with device := (l.device.transmitNext l.agenda.now).2 } =
      (l.takeOut p rest).startTransmit p := by
  unfold takeOut
  rw [PointToPointNetDevice.transmitNext_cons _ hn hq, List.foldl_append, perform_traced K h,
    txQueue_eq h]
  rfl

/-- The callback while the device is idle: the packet goes through its queue and out. -/
theorem callback_ready (h : l.root.disc.OnSingle tx) {p : PendingRun α} {ps : List (PendingRun α)}
    (hp : l.root.pending = p :: ps) (hup : l.device.linkUp = true)
    (hf : l.device.queue.fits (frame p.item)) (hr : l.device.txMachineState = .ready)
    (hn : (l.takeIn (frame p.item)).device.queue.nPackets ≠ 0)
    (hq : l.device.queue.packets = []) :
    callback K l =
      (((l.takeIn (frame p.item)).takeOut (frame p.item) []).startTransmit
        (frame p.item)).sendReturned K := by
  have hnow : (l.takeIn (frame p.item)).agenda.now = l.agenda.now := runLater_now _ _
  have hpk : (l.takeIn (frame p.item)).device.queue.packets = [frame p.item] := by
    show l.device.queue.packets ++ [frame p.item] = _
    rw [hq, List.nil_append]
  have hsingle : (l.takeIn (frame p.item)).root.disc.OnSingle
      (tx.perform (l.device.changes l.agenda.now (.enqueue (frame p.item))
        (l.device.queue.insertEnd (frame p.item)))).2 := by
    unfold takeIn
    rw [txQueue_eq h]
    exact Root.setTx_onSingle h _
  have hnext := perform_transmitNext K hsingle hn hpk
  rw [hnow] at hnext
  unfold callback
  rw [hp]
  dsimp only
  rw [PointToPointNetDevice.send_ready _ rfl hup hf hr]
  dsimp only
  rw [List.foldl_append, perform_traced K h, ← hnext]
  unfold takeIn
  rw [txQueue_eq h]
  rfl

/-- The end of a transmission with no packet waiting. -/
theorem transmitComplete_empty (hn : l.device.queue.nPackets = 0) :
    l.invoke K .transmitComplete =
      { l with device := { l.device with txMachineState := .ready, currentPkt := none } } := by
  have hnil : PointToPointNetDevice.transmitComplete l.agenda.now l.device =
      ([], { l.device with txMachineState := .ready, currentPkt := none }) :=
    PointToPointNetDevice.transmitNext_nil l.agenda.now hn
  show (PointToPointNetDevice.transmitComplete l.agenda.now l.device).1.foldl (perform K)
    { l with device := (PointToPointNetDevice.transmitComplete l.agenda.now l.device).2 } = _
  rw [hnil]
  rfl

/-- The end of a transmission with packets waiting: the next one is transmitted. -/
theorem transmitComplete_cons (h : l.root.disc.OnSingle tx) {p : PppPacket α}
    {rest : List (PppPacket α)} (hn : l.device.queue.nPackets ≠ 0)
    (hq : l.device.queue.packets = p :: rest) :
    l.invoke K .transmitComplete = (l.takeOut p rest).startTransmit p :=
  perform_transmitNext (l := { l with
    device := { l.device with txMachineState := .ready, currentPkt := none } }) K h hn hq

end Link

end StabilizedRed
