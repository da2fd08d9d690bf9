import Mathlib

/-!
# Items of queues and queue discs

* `QueueItem`, `QueueDiscItem`: what `Queue<Item>` and `QueueDisc` read of an item
  (`network/utils/queue-item.h`). The queue code is generic in the item, so the model is too.
* `Ipv4QueueDiscItem`: the IPv4 item (`internet/model/ipv4-queue-disc-item.cc`), with its size and
  its flow hash, the 32-bit Murmur3 hash (`core/model/hash-murmur3.cc`) of the 5-tuple and the
  perturbation.

An item is a value: an operation that changes the object (`AddHeader`) gives the changed item.
-/

namespace StabilizedRed

/-- What a queue reads of an item. -/
class QueueItem (α : Type) where
  /-- `GetSize`, in bytes. -/
  getSize : α → UInt32

/-- What a queue disc reads of an item, and what it does to one. -/
class QueueDiscItem (α : Type) extends QueueItem α where
  /-- `Hash (perturbation)`. -/
  hash : α → UInt32 → UInt32
  /-- The item after `AddHeader ()`. -/
  addHeader : α → α
  /-- `GetTxQueueIndex`. -/
  getTxQueueIndex : α → UInt8

export QueueItem (getSize)
export QueueDiscItem (addHeader getTxQueueIndex)

/-- The items keep the size they arrived with when their header is added. -/
class SizedItem (α : Type) [QueueDiscItem α] : Prop where
  getSize_addHeader (x : α) : getSize (addHeader x) = getSize x

export SizedItem (getSize_addHeader)
attribute [simp] getSize_addHeader

/-! ## The 32-bit Murmur3 hash -/

namespace Murmur3

/-- `rotl32`. -/
def rotl32 (x r : UInt32) : UInt32 := (x <<< r) ||| (x >>> (32 - r))

/-- `fmix`: the finalization mix. -/
def fmix (h : UInt32) : UInt32 :=
  let h := h ^^^ (h >>> 16)
  let h := h * 0x85ebca6b
  let h := h ^^^ (h >>> 13)
  let h := h * 0xc2b2ae35
  h ^^^ (h >>> 16)

/-- The scrambling of a block `k1` before it goes into the hash. -/
def mixBlock (k1 : UInt32) : UInt32 := rotl32 (k1 * 0xcc9e2d51) 15 * 0x1b873593

/-- The bytes `b0`, `b1`, … of a block, the first one lowest (`getblock` on a little-endian
machine, and the tail's `k1 ^= tail[i] << (8 * i)`). -/
def block : List UInt8 → UInt32
  | [] => 0
  | b :: bs => b.toUInt32 ^^^ (block bs <<< 8)

/-- `MurmurHash3_x86_32_incr`: the blocks of four bytes, then the tail. -/
def incr (h1 : UInt32) : List UInt8 → UInt32
  | b0 :: b1 :: b2 :: b3 :: rest =>
    let h1 := h1 ^^^ mixBlock (block [b0, b1, b2, b3])
    let h1 := rotl32 h1 13
    incr (h1 * 5 + 0xe6546b64) rest
  | [] => h1
  | tail => h1 ^^^ mixBlock (block tail)

/-- `MurmurHash3_x86_32_fin`. -/
def fin (len h1 : UInt32) : UInt32 := fmix (h1 ^^^ len)

/-- `Hash32`: the hash of one buffer from a cleared state (`SEED`). -/
def hash32 (buffer : List UInt8) : UInt32 :=
  fin (UInt32.ofNat buffer.length) (incr 0x8BADF00D buffer)

end Murmur3

/-! ## IPv4 items -/

/-- The fields of `Ipv4Header` that the item reads, and those that the first four bytes of the
serialized header hold. -/
structure Ipv4Header where
  source : UInt32
  destination : UInt32
  protocol : UInt8
  fragmentOffset : UInt16
  tos : UInt8 := 0
  payloadSize : UInt16
  /-- `GetSerializedSize`. -/
  serializedSize : UInt32
  deriving DecidableEq, Repr

/-- The least size of the transport header that `Hash` peeks: that of the first fragment of a TCP or
UDP packet. -/
def Ipv4Header.transportSize (h : Ipv4Header) : UInt32 :=
  if h.fragmentOffset ≠ 0 then 0
  else if h.protocol = 6 then 20
  else if h.protocol = 17 then 8
  else 0

/-- An IPv4 packet with its header apart. `packetSize` is the size of the packet that the item was
created with, and `sourcePort` and `destinationPort` are the ports of the transport header at its
start, for which it is large enough. -/
structure Ipv4QueueDiscItem where
  packetSize : UInt32
  sourcePort : UInt16
  destinationPort : UInt16
  header : Ipv4Header
  transportSize_le : header.transportSize ≤ packetSize := by decide
  headerAdded : Bool := false
  txq : UInt8 := 0
  deriving DecidableEq, Repr

namespace Ipv4QueueDiscItem

/-- `GetPacket ()->GetSize ()`: the packet grows by its header when that is added. -/
def getPacketSize (x : Ipv4QueueDiscItem) : UInt32 :=
  if x.headerAdded then x.packetSize + x.header.serializedSize else x.packetSize

/-- `Ipv4QueueDiscItem::GetSize`. -/
def getSize (x : Ipv4QueueDiscItem) : UInt32 :=
  if x.headerAdded then x.getPacketSize else x.getPacketSize + x.header.serializedSize

/-- `Ipv4QueueDiscItem::AddHeader`. The code asserts that the item is without its header; one that
has it stops there, and stays as it is. -/
def addHeader (x : Ipv4QueueDiscItem) : Ipv4QueueDiscItem :=
  if x.headerAdded then x else { x with headerAdded := true }

/-- The four bytes of a word, the highest first (`Ipv4Address::Serialize` and the perturbation). -/
def bytes32 (w : UInt32) : List UInt8 :=
  [(w >>> 24).toUInt8, (w >>> 16).toUInt8, (w >>> 8).toUInt8, w.toUInt8]

/-- The two bytes of a port, the higher first. -/
def bytes16 (w : UInt16) : List UInt8 := [(w >>> 8).toUInt8, w.toUInt8]

/-- What `PeekHeader` reads as the two ports, the first four bytes of the packet. With the IPv4
header in front these are its version and length, its type of service and its total length. -/
def peekPorts (x : Ipv4QueueDiscItem) : UInt16 × UInt16 :=
  if x.headerAdded then (0x4500 ||| x.header.tos.toUInt16, x.header.payloadSize + 20)
  else (x.sourcePort, x.destinationPort)

/-- The ports that go into the hash: those of the first fragment of a TCP or UDP packet. -/
def ports (x : Ipv4QueueDiscItem) : UInt16 × UInt16 :=
  if (x.header.protocol = 6 ∨ x.header.protocol = 17) ∧ x.header.fragmentOffset = 0 then
    x.peekPorts
  else (0, 0)

/-- `Ipv4QueueDiscItem::Hash`: the 5-tuple and the perturbation, 17 bytes. -/
def hash (x : Ipv4QueueDiscItem) (perturbation : UInt32) : UInt32 :=
  Murmur3.hash32 (bytes32 x.header.source ++ bytes32 x.header.destination ++
    [x.header.protocol] ++ bytes16 x.ports.1 ++ bytes16 x.ports.2 ++ bytes32 perturbation)

instance : QueueDiscItem Ipv4QueueDiscItem where
  getSize := getSize
  hash := hash
  addHeader := addHeader
  getTxQueueIndex := txq

/-- A payload fits into 32 bits with the header in front of it. -/
theorem le_payload_add (payload : UInt16) : 20 ≤ payload.toUInt32 + 20 := by
  have h := payload.toNat_lt
  rw [UInt32.le_iff_toNat_le, UInt32.toNat_add, UInt16.toNat_toUInt32]
  show 20 ≤ (payload.toNat + 20) % 2 ^ 32
  omega

/-- A TCP packet from 10.1.1.1 to port 5001 of 10.2.1.1, with an IPv4 header and a TCP header of 20
bytes. -/
def tcp (payload : UInt16) (sourcePort : UInt16) : Ipv4QueueDiscItem where
  packetSize := payload.toUInt32 + 20
  sourcePort := sourcePort
  destinationPort := 5001
  header :=
    { source := 0x0A010101
      destination := 0x0A020101
      protocol := 6
      fragmentOffset := 0
      payloadSize := payload + 20
      serializedSize := 20 }
  transportSize_le := le_payload_add payload

/-- Adding the header moves its bytes from the header to the packet. -/
instance : SizedItem Ipv4QueueDiscItem where
  getSize_addHeader x := by
    show getSize (addHeader x) = getSize x
    unfold addHeader getSize getPacketSize
    cases h : x.headerAdded <;> simp [h]

end Ipv4QueueDiscItem

end StabilizedRed
