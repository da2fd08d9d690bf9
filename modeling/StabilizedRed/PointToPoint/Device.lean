import StabilizedRed.Network.FlowControl

/-!
# The point-to-point device (`point-to-point/model/point-to-point-net-device.cc`)

The device puts a PPP header on each packet and transmits one packet at a time; the others wait in
its queue, which is connected to its transmission queue (`NetDeviceQueue.queueTrace`). What an
operation does outside the device is a list of effects, in order: changes of the transmission queue,
reports of dropped packets, and the start of a transmission.

The receive error model, the sniffers and the MAC addresses are left out.
-/

namespace StabilizedRed

/-- What the traffic control layer and a device read of an item, and set in it. -/
class NetDeviceItem (α : Type) extends QueueDiscItem α where
  /-- `GetProtocol`. -/
  getProtocol : α → UInt16
  /-- The item after `SetTxQueueIndex (txq)`. -/
  setTxQueueIndex : UInt8 → α → α

export NetDeviceItem (getProtocol setTxQueueIndex)

/-- The index of the transmission queue is a field of the item of its own. -/
class LawfulNetDeviceItem (α : Type) [NetDeviceItem α] : Prop extends SizedItem α where
  getTxQueueIndex_set (txq : UInt8) (x : α) : getTxQueueIndex (setTxQueueIndex txq x) = txq
  getSize_set (txq : UInt8) (x : α) : getSize (setTxQueueIndex txq x) = getSize x
  getProtocol_set (txq : UInt8) (x : α) : getProtocol (setTxQueueIndex txq x) = getProtocol x
  getTxQueueIndex_addHeader (x : α) : getTxQueueIndex (addHeader x) = getTxQueueIndex x
  getProtocol_addHeader (x : α) : getProtocol (addHeader x) = getProtocol x

export LawfulNetDeviceItem (getTxQueueIndex_set getSize_set getProtocol_set
  getTxQueueIndex_addHeader getProtocol_addHeader)
attribute [simp] getTxQueueIndex_set getSize_set getProtocol_set getTxQueueIndex_addHeader
  getProtocol_addHeader

/-- `Ipv4Interface::Send` makes its items for the protocol `0x0800`. -/
instance : NetDeviceItem Ipv4QueueDiscItem where
  getProtocol _ := 0x0800
  setTxQueueIndex txq x := { x with txq := txq }

instance : LawfulNetDeviceItem Ipv4QueueDiscItem where
  getTxQueueIndex_set _ _ := rfl
  getSize_set _ _ := rfl
  getProtocol_set _ _ := rfl
  getProtocol_addHeader _ := rfl
  getTxQueueIndex_addHeader x := by
    show (Ipv4QueueDiscItem.addHeader x).txq = x.txq
    unfold Ipv4QueueDiscItem.addHeader
    split <;> rfl

/-- A packet with a `PppHeader`. -/
structure PppPacket (α : Type) where
  protocol : UInt16
  packet : α
  deriving DecidableEq, Repr

/-- The header has two bytes. -/
instance {α : Type} [QueueItem α] : QueueItem (PppPacket α) where
  getSize p := getSize p.packet + 2

/-- `EtherToPpp`. The code asserts that the protocol is one of the two. -/
def etherToPpp (proto : UInt16) : UInt16 :=
  if proto = 0x0800 then 0x0021 else if proto = 0x86DD then 0x0057 else 0

/-- `PppToEther`. -/
def pppToEther (proto : UInt16) : UInt16 :=
  if proto = 0x0021 then 0x0800 else if proto = 0x0057 then 0x86DD else 0

/-- A protocol that the header can carry comes back from it. -/
theorem pppToEther_etherToPpp {proto : UInt16} (h : proto = 0x0800 ∨ proto = 0x86DD) :
    pppToEther (etherToPpp proto) = proto := by
  rcases h with rfl | rfl <;> rfl

/-- `DataRate::CalculateBytesTxTime`, in nanoseconds. It divides by the rate, which no device has as
zero. -/
def calculateBytesTxTime (bps : UInt64) (bytes : UInt32) : ℕ :=
  (bytes * 8).toNat * 1000000000 / bps.toNat

/-- `TxMachineState`. -/
inductive TxMachineState where
  | ready
  | busy
  deriving DecidableEq, Repr

/-- `PointToPointNetDevice`, with the queue limits of its transmission queue. -/
structure PointToPointNetDevice (α : Type) where
  queue : Queue (PppPacket α)
  txMachineState : TxMachineState := .ready
  currentPkt : Option (PppPacket α) := none
  linkUp : Bool := true
  bps : UInt64 := 32768
  bps_pos : 0 < bps := by decide
  tInterframeGap : ℕ := 0
  mtu : UInt16 := 1500
  queueLimits : Option DynamicQueueLimits := none

/-- What a device does outside itself. -/
inductive DeviceEffect (α : Type) where
  /-- A change of the transmission queue. -/
  | change (c : NetDeviceQueue.Change)
  /-- `m_macTxDropTrace`. -/
  | macTxDrop (packet : α)
  /-- The packet goes to the channel, which takes `txTime`; `TransmitComplete` comes after the
  interframe gap. -/
  | transmit (packet : PppPacket α) (txTime gap : ℕ)

namespace PointToPointNetDevice

variable {α : Type} [NetDeviceItem α]

/-- The device after a trace source of its queue has fired, with the changes of its transmission
queue. -/
def traced (now : Time) (d : PointToPointNetDevice α) (trace : QueueTrace (PppPacket α))
    (queue : Queue (PppPacket α)) : List (DeviceEffect α) × PointToPointNetDevice α :=
  let (changes, queueLimits) := NetDeviceQueue.queueTrace now d.mtu queue d.queueLimits trace
  (changes.map .change, { d with queue := queue, queueLimits := queueLimits })

/-- `TransmitStart`. -/
def transmitStart (d : PointToPointNetDevice α) (p : PppPacket α) :
    List (DeviceEffect α) × PointToPointNetDevice α :=
  ([.transmit p (calculateBytesTxTime d.bps (getSize p)) d.tInterframeGap],
    { d with txMachineState := .busy, currentPkt := some p })

/-- Take a packet out of the queue and transmit it, if there is one. -/
def transmitNext (now : Time) (d : PointToPointNetDevice α) :
    List (DeviceEffect α) × PointToPointNetDevice α :=
  match d.queue.dequeue with
  | (none, queue) => ([], { d with queue := queue })
  | (some (p, trace), queue) =>
    let (changes, d) := d.traced now trace queue
    let (start, d) := d.transmitStart p
    (changes ++ start, d)

/-- `Send`: what it returns, does outside and leaves. -/
def send (now : Time) (d : PointToPointNetDevice α) (packet : α) (protocolNumber : UInt16) :
    Bool × List (DeviceEffect α) × PointToPointNetDevice α :=
  if d.linkUp = false then (false, [.macTxDrop packet], d)
  else
    match d.queue.enqueue ⟨etherToPpp protocolNumber, packet⟩ with
    | (true, trace, queue) =>
      let (changes, d) := d.traced now trace queue
      if d.txMachineState = .ready then
        let (start, d) := d.transmitNext now
        (true, changes ++ start, d)
      else (true, changes, d)
    | (false, trace, queue) =>
      let (changes, d) := d.traced now trace queue
      (false, changes ++ [.macTxDrop packet], d)

/-- `TransmitComplete`. -/
def transmitComplete (now : Time) (d : PointToPointNetDevice α) :
    List (DeviceEffect α) × PointToPointNetDevice α :=
  { d with txMachineState := .ready, currentPkt := none }.transmitNext now

end PointToPointNetDevice

end StabilizedRed
