import StabilizedRed.Network.Queue
import StabilizedRed.Network.Device

/-!
# The base class of queue discs (`traffic-control/model/queue-disc.cc`)

The state that every queue disc has, and the operations that `StabilizedRedQueueDisc` and
`ESRedQueueDisc` inherit. Both have one internal queue (`CheckConfig`), which is the field `queue`.
The disc keeps its own counters of what it holds, and statistics of all that passed; the trace
callbacks of the internal queue (`notify`) keep them up to date.

`doDequeue` and `doPeek` are the overrides of the two discs, which are the same text in both files.

The reports of the `DropBeforeEnqueue` trace source are kept in `dropTrace`, each item with its
reason. The time stamps of items are left out: only the sojourn trace reads them.
-/

namespace StabilizedRed

/-! ## Statistics -/

/-- `std::map<std::string, T>`, in the order of the keys. -/
abbrev ReasonMap (β : Type) := List (String × β)

/-- Add `n` to the entry of `reason`, which starts at `n` if there is none. -/
def ReasonMap.add {β : Type} [Add β] (reason : String) (n : β) : ReasonMap β → ReasonMap β
  | [] => [(reason, n)]
  | (r, m) :: rest =>
    if reason = r then (r, m + n) :: rest
    else if reason < r then (reason, n) :: (r, m) :: rest
    else (r, m) :: ReasonMap.add reason n rest

/-- `QueueDisc::Stats`. Nothing here marks packets; `nTotalMarkedBytes` is of 32 bits. -/
structure Stats where
  nTotalReceivedPackets : UInt32 := 0
  nTotalReceivedBytes : UInt64 := 0
  nTotalSentPackets : UInt32 := 0
  nTotalSentBytes : UInt64 := 0
  nTotalEnqueuedPackets : UInt32 := 0
  nTotalEnqueuedBytes : UInt64 := 0
  nTotalDequeuedPackets : UInt32 := 0
  nTotalDequeuedBytes : UInt64 := 0
  nTotalDroppedPackets : UInt32 := 0
  nTotalDroppedPacketsBeforeEnqueue : UInt32 := 0
  nDroppedPacketsBeforeEnqueue : ReasonMap UInt32 := []
  nTotalDroppedPacketsAfterDequeue : UInt32 := 0
  nDroppedPacketsAfterDequeue : ReasonMap UInt32 := []
  nTotalDroppedBytes : UInt64 := 0
  nTotalDroppedBytesBeforeEnqueue : UInt64 := 0
  nDroppedBytesBeforeEnqueue : ReasonMap UInt64 := []
  nTotalDroppedBytesAfterDequeue : UInt64 := 0
  nDroppedBytesAfterDequeue : ReasonMap UInt64 := []
  nTotalRequeuedPackets : UInt32 := 0
  nTotalRequeuedBytes : UInt64 := 0
  nTotalMarkedPackets : UInt32 := 0
  nMarkedPackets : ReasonMap UInt32 := []
  nTotalMarkedBytes : UInt32 := 0
  nMarkedBytes : ReasonMap UInt64 := []
  deriving DecidableEq, Repr

/-! ## Packet filters -/

/-- `PacketFilter`: the two virtual methods of a filter. -/
structure PacketFilter (α : Type) where
  checkProtocol : α → Bool
  doClassify : α → Int32

namespace PacketFilter

/-- `PF_NO_MATCH`. -/
def noMatch : Int32 := -1

/-- `PacketFilter::Classify`. -/
def classify {α : Type} (f : PacketFilter α) (item : α) : Int32 :=
  if f.checkProtocol item then f.doClassify item else noMatch

/-- `QueueDisc::Classify`: the value of the first filter that matches. -/
def classifyAll {α : Type} : List (PacketFilter α) → α → Int32
  | [], _ => noMatch
  | f :: fs, item =>
    let ret := f.classify item
    if ret = noMatch then classifyAll fs item else ret

end PacketFilter

/-! ## The state -/

/-- `QueueDisc`. -/
structure QueueDisc (α : Type) where
  /-- `GetInternalQueue (0)`. -/
  queue : Queue α
  filters : List (PacketFilter α) := []
  nPackets : UInt32 := 0
  nBytes : UInt32 := 0
  stats : Stats := {}
  quota : UInt32 := 64
  devQueueIface : Option NetDeviceQueueInterface := none
  running : Bool := false
  requeued : Option α := none
  peeked : Bool := false
  /-- The reports of the trace source `DropBeforeEnqueue`. -/
  dropTrace : List (α × String) := []

namespace QueueDisc

/-- `INTERNAL_QUEUE_DROP`. -/
def internalQueueDrop : String := "Dropped by internal queue"

variable {α : Type} [QueueItem α]

/-- `PacketEnqueued`. -/
def packetEnqueued (d : QueueDisc α) (item : α) : QueueDisc α :=
  { d with
    nPackets := d.nPackets + 1
    nBytes := d.nBytes + getSize item
    stats := { d.stats with
      nTotalEnqueuedPackets := d.stats.nTotalEnqueuedPackets + 1
      nTotalEnqueuedBytes := d.stats.nTotalEnqueuedBytes + (getSize item).toUInt64 } }

/-- `PacketDequeued`. -/
def packetDequeued (d : QueueDisc α) (item : α) : QueueDisc α :=
  if d.peeked then d
  else
    { d with
      nPackets := d.nPackets - 1
      nBytes := d.nBytes - getSize item
      stats := { d.stats with
        nTotalDequeuedPackets := d.stats.nTotalDequeuedPackets + 1
        nTotalDequeuedBytes := d.stats.nTotalDequeuedBytes + (getSize item).toUInt64 } }

/-- `DropBeforeEnqueue`. -/
def dropBeforeEnqueue (d : QueueDisc α) (item : α) (reason : String) : QueueDisc α :=
  { d with
    stats := { d.stats with
      nTotalDroppedPackets := d.stats.nTotalDroppedPackets + 1
      nTotalDroppedBytes := d.stats.nTotalDroppedBytes + (getSize item).toUInt64
      nTotalDroppedPacketsBeforeEnqueue := d.stats.nTotalDroppedPacketsBeforeEnqueue + 1
      nTotalDroppedBytesBeforeEnqueue :=
        d.stats.nTotalDroppedBytesBeforeEnqueue + (getSize item).toUInt64
      nDroppedPacketsBeforeEnqueue := d.stats.nDroppedPacketsBeforeEnqueue.add reason 1
      nDroppedBytesBeforeEnqueue :=
        d.stats.nDroppedBytesBeforeEnqueue.add reason (getSize item).toUInt64 }
    dropTrace := d.dropTrace ++ [(item, reason)] }

/-- The callbacks that `AddInternalQueue` connects to the trace sources of the internal queue. -/
def notify (d : QueueDisc α) : QueueTrace α → QueueDisc α
  | .enqueue item => d.packetEnqueued item
  | .dequeue item => d.packetDequeued item
  | .dropBeforeEnqueue item => d.dropBeforeEnqueue item internalQueueDrop

/-- `GetInternalQueue (0)->Enqueue (item)`. -/
def enqueueInternal (d : QueueDisc α) (item : α) : Bool × QueueDisc α :=
  let (retval, trace, queue) := d.queue.enqueue item
  (retval, { d with queue := queue }.notify trace)

/-- `GetInternalQueue (0)->Dequeue ()`. -/
def dequeueInternal (d : QueueDisc α) : Option α × QueueDisc α :=
  match d.queue.dequeue with
  | (none, queue) => (none, { d with queue := queue })
  | (some (item, trace), queue) => (some item, { d with queue := queue }.notify trace)

/-- `StabilizedRedQueueDisc::DoDequeue` and `ESRedQueueDisc::DoDequeue`. -/
def doDequeue (d : QueueDisc α) : Option α × QueueDisc α :=
  if d.queue.isEmpty then (none, d) else d.dequeueInternal

/-- `StabilizedRedQueueDisc::DoPeek` and `ESRedQueueDisc::DoPeek`. -/
def doPeek (d : QueueDisc α) : Option α :=
  if d.queue.isEmpty then none else d.queue.peek

/-- `QueueDisc::Dequeue`: the requeued packet first. -/
def dequeue (d : QueueDisc α) : Option α × QueueDisc α :=
  match d.requeued with
  | some item =>
    let d := { d with requeued := none }
    let d := if d.peeked then { d with peeked := false }.packetDequeued item else d
    (some item, d)
  | none => d.doDequeue

/-- `QueueDisc::Peek`. -/
def peek (d : QueueDisc α) : Option α := d.doPeek

/-- The first lines of `QueueDisc::Enqueue`: the item counts as received. -/
def receive (d : QueueDisc α) (item : α) : QueueDisc α :=
  { d with
    stats := { d.stats with
      nTotalReceivedPackets := d.stats.nTotalReceivedPackets + 1
      nTotalReceivedBytes := d.stats.nTotalReceivedBytes + (getSize item).toUInt64 } }

/-- `QueueDisc::GetStats`: the sent counters are computed here. -/
def getStats (d : QueueDisc α) : QueueDisc α :=
  { d with
    stats := { d.stats with
      nTotalSentPackets := d.stats.nTotalDequeuedPackets - (if d.requeued.isSome then 1 else 0)
        - d.stats.nTotalDroppedPacketsAfterDequeue
      nTotalSentBytes := d.stats.nTotalDequeuedBytes
        - (match d.requeued with | some item => (getSize item).toUInt64 | none => 0)
        - d.stats.nTotalDroppedBytesAfterDequeue } }

/-- The two assertions at the end of `QueueDisc::Enqueue`. -/
def EnqueueAsserts (d : QueueDisc α) : Prop :=
  d.stats.nTotalReceivedPackets =
    d.stats.nTotalDroppedPacketsBeforeEnqueue + d.stats.nTotalEnqueuedPackets ∧
  d.stats.nTotalReceivedBytes =
    d.stats.nTotalDroppedBytesBeforeEnqueue + d.stats.nTotalEnqueuedBytes

/-- The two assertions at the end of `QueueDisc::Dequeue`; the bytes are compared as `uint64_t`. -/
def DequeueAsserts (d : QueueDisc α) : Prop :=
  d.nPackets = d.stats.nTotalEnqueuedPackets - d.stats.nTotalDequeuedPackets ∧
  d.nBytes.toUInt64 = d.stats.nTotalEnqueuedBytes - d.stats.nTotalDequeuedBytes

/-- The two assertions at the start of `QueueDisc::GetStats`. -/
def GetStatsAsserts (d : QueueDisc α) : Prop :=
  d.stats.nTotalDroppedPackets =
    d.stats.nTotalDroppedPacketsBeforeEnqueue + d.stats.nTotalDroppedPacketsAfterDequeue ∧
  d.stats.nTotalDroppedBytes =
    d.stats.nTotalDroppedBytesBeforeEnqueue + d.stats.nTotalDroppedBytesAfterDequeue

/-! ## What each operation does -/

/-- The internal queue takes an item that fits. -/
theorem enqueueInternal_of_fits {d : QueueDisc α} {item : α} (h : d.queue.fits item) :
    d.enqueueInternal item =
      (true, { d with queue := d.queue.insertEnd item }.packetEnqueued item) := by
  unfold enqueueInternal
  rw [Queue.enqueue_of_fits h]
  rfl

/-- The internal queue drops an item that does not fit, and the disc records it. -/
theorem enqueueInternal_of_not_fits {d : QueueDisc α} {item : α} (h : ¬ d.queue.fits item) :
    d.enqueueInternal item =
      (false, { d with queue := d.queue.dropBeforeEnqueue item }.dropBeforeEnqueue item
        internalQueueDrop) := by
  unfold enqueueInternal
  rw [Queue.enqueue_of_not_fits h]
  rfl

/-- The head of the internal queue leaves the disc (`PacketDequeued` outside a peek). -/
def dequeueHead (d : QueueDisc α) (item : α) (rest : List α) : QueueDisc α :=
  { d with
    queue := d.queue.eraseBegin item rest
    nPackets := d.nPackets - 1
    nBytes := d.nBytes - getSize item
    stats := { d.stats with
      nTotalDequeuedPackets := d.stats.nTotalDequeuedPackets + 1
      nTotalDequeuedBytes := d.stats.nTotalDequeuedBytes + (getSize item).toUInt64 } }

/-- What `DoDequeue` can do: nothing on an empty queue, else the head leaves. -/
theorem doDequeue_cases {d : QueueDisc α} (hc : d.queue.Counted) (hp : d.peeked = false) :
    (d.queue.nPackets = 0 ∧ d.doDequeue = (none, d)) ∨
    (∃ item rest, d.queue.packets = item :: rest ∧ d.queue.nPackets ≠ 0 ∧
      d.doDequeue = (some item, d.dequeueHead item rest)) := by
  unfold doDequeue Queue.isEmpty
  rcases hc.dequeue_cases with ⟨hn, -⟩ | ⟨item, rest, hq, hn, hdeq⟩
  · exact .inl ⟨hn, by simp [hn]⟩
  · refine .inr ⟨item, rest, hq, hn, ?_⟩
    simp [hn, dequeueInternal, hdeq, notify, packetDequeued, hp, dequeueHead]

/-- What `Dequeue` can do while nothing has been requeued. -/
theorem dequeue_of_not_requeued {d : QueueDisc α} (h : d.requeued = none) :
    d.dequeue = d.doDequeue := by
  unfold dequeue
  rw [h]

end QueueDisc

end StabilizedRed
