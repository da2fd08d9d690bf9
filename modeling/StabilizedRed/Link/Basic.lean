import StabilizedRed.PointToPoint.Device
import StabilizedRed.Core.Simulator
import StabilizedRed.Root.Fifo

/-!
# A queue disc on a point-to-point link

`Link` is a root queue disc on a point-to-point device with one transmission queue, the channel, and
what the device at the other end receives. The traffic control layer hands it packets
(`TrafficControlLayer::Send`), and the simulator calls it back: the wake callback of the
transmission queue, the end of a transmission, and the arrival at the other end.

Here the send callback of the disc is known (`TrafficControlLayer::ScanDevices` sets it to the
device's `Send`), so a call of `Run` is whole: `runDisc` calls back until nothing waits.
-/

namespace StabilizedRed

/-- What the simulator has been asked to call. -/
inductive LinkCall (α : Type) where
  /-- An upper layer's call of `TrafficControlLayer::Send`. -/
  | send (item : α)
  /-- The wake callback, which is `QueueDisc::Run`. -/
  | run
  /-- `PointToPointNetDevice::TransmitComplete`. -/
  | transmitComplete
  /-- `PointToPointNetDevice::Receive` of the other device. -/
  | receive (p : PppPacket α)

/-- A root queue disc, its device and its channel. -/
structure Link (Z α : Type) where
  root : Root Z α
  device : PointToPointNetDevice α
  /-- `m_delay` of the channel. -/
  delay : ℕ
  agenda : Agenda Time (LinkCall α)
  /-- The packets that the channel was given, in order. -/
  wire : List (PppPacket α) := []
  /-- The reports of the device's drop trace. -/
  dropped : List α := []
  /-- What the receive callback of the other device was given: packets and their protocols. -/
  received : List (α × UInt16) := []

namespace Link

variable {Z α : Type} [NetDeviceItem α]

/-- The transmission queue of the device. -/
def txQueue (l : Link Z α) : NetDeviceQueue :=
  (l.root.disc.devQueueIface.bind fun i => i.txQueues[0]?).getD {}

/-- Carry out an effect of the device. -/
def perform (K : ZombieKind Z) (l : Link Z α) : DeviceEffect α → Link Z α
  | .change c =>
    { l with
      root := Root.next K l.root (.device 0 c)
      agenda := if l.txQueue.requestsRun c then l.agenda.schedule 0 .run else l.agenda }
  | .macTxDrop packet => { l with dropped := l.dropped ++ [packet] }
  | .transmit p txTime gap =>
    { l with
      wire := l.wire ++ [p]
      agenda := (l.agenda.schedule (txTime + gap) .transmitComplete).schedule (txTime + l.delay)
        (.receive p) }

/-- The send callback for the call of `Run` that waits for it, and the loop of `Run` up to the next
call of the callback. -/
def callback (K : ZombieKind Z) (l : Link Z α) : Link Z α :=
  match l.root.pending with
  | [] => l
  | p :: _ =>
    let (_, effects, device) := l.device.send l.agenda.now p.item (getProtocol p.item)
    let l := effects.foldl (perform K) { l with device := device }
    { l with root := Root.next K l.root .sendReturned }

/-- `QueueDisc::Run`. The callback is called at most once for each packet in the disc. -/
def runDisc (K : ZombieKind Z) (l : Link Z α) : Link Z α :=
  let l := { l with root := Root.next K l.root .run }
  (callback K)^[l.root.disc.queue.packets.length + 1] l

/-- `TrafficControlLayer::Send` on a device with one transmission queue and a root queue disc. -/
def send (K : ZombieKind Z) (l : Link Z α) (item : α) : Link Z α :=
  let item := setTxQueueIndex 0 item
  runDisc K { l with root := Root.next K l.root (.enqueue l.agenda.now item) }

/-- A call of the simulator. -/
def invoke (K : ZombieKind Z) (l : Link Z α) : LinkCall α → Link Z α
  | .send item => l.send K item
  | .run => l.runDisc K
  | .transmitComplete =>
    let (effects, device) := l.device.transmitComplete l.agenda.now
    effects.foldl (perform K) { l with device := device }
  | .receive p => { l with received := l.received ++ [(p.packet, pppToEther p.protocol)] }

/-- What can happen to a link: an upper layer schedules a packet, and the simulator processes an
event. -/
inductive Event (α : Type) where
  | schedule (delay : ℕ) (item : α)
  | processOneEvent

/-- A link under events; the output is what the simulator calls, with the reading of the clock. -/
def machine (K : ZombieKind Z) : Machine (Link Z α) (Event α) (Option (Time × LinkCall α)) where
  step l
    | .schedule delay item => (none, { l with agenda := l.agenda.schedule delay (.send item) })
    | .processOneEvent =>
      match l.agenda.pop with
      | none => (none, l)
      | some (c, agenda) => (some (agenda.now, c), { l with agenda := agenda }.invoke K c)

/-- The attributes of a link. A limit of zero is ignored by `SetMaxSize`, and at a rate of zero no
transmission ends. -/
structure Attributes (α : Type) where
  disc : StabilizedRed.Attributes α
  maxSize : QueueSize := { unit := .packets, value := 100 }
  maxSize_pos : 0 < maxSize.value := by decide
  bps : UInt64 := 32768
  bps_pos : 0 < bps := by decide
  tInterframeGap : ℕ := 0
  mtu : UInt16 := 1500
  queueLimits : Option DynamicQueueLimits.Attributes := none
  delay : ℕ := 0

/-- A link whose device was installed with flow control (`PointToPointHelper::Install`) and whose
disc was initialised (`TrafficControlLayer::DoInitialize`). -/
def install (a : Attributes α) : Link Z α where
  root := Root.doInitialize { a.disc with devQueueIface := some ⟨[{}], List.cons_ne_nil _ _⟩ }
  device :=
    { queue := { maxSize := a.maxSize }
      bps := a.bps
      bps_pos := a.bps_pos
      tInterframeGap := a.tInterframeGap
      mtu := a.mtu
      queueLimits := a.queueLimits.map fun b => { toAttributes := b } }
  delay := a.delay
  agenda := .empty 0

end Link

/-- The disc on a link. -/
abbrev DiscKind.linkMachine (k : DiscKind) (α : Type) [NetDeviceItem α] :
    Machine (Link k.Zombie α) (Link.Event α) (Option (Time × LinkCall α)) :=
  Link.machine k.kind

end StabilizedRed
