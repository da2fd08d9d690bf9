import StabilizedRed.Network.Item

/-!
# Queues with a limit (`network/utils/queue.h`, `queue-size.h`, `drop-tail-queue.h`)

`Queue<Item>` keeps a list of items, two counters of what it holds, and a limit in packets or in
bytes. `DropTailQueue` appends at the end and takes from the front. An operation also gives the
trace callback that it fires last: a queue disc listens to these (`QueueDisc.notify`).

All counters are `uint32_t` and wrap. `Queue.Counted` ties them to the list without a bound on its
length (both sides modulo `2 ^ 32`), so it holds in every reachable state. `Queue.fits` is the test
that the queue makes of an arriving item.
-/

namespace StabilizedRed

/-- `QueueSizeUnit`. -/
inductive QueueSizeUnit where
  | packets
  | bytes
  deriving DecidableEq, Repr

/-- `QueueSize`. -/
structure QueueSize where
  unit : QueueSizeUnit
  value : UInt32
  deriving DecidableEq, Repr

/-- What the queue reports to the listeners of its trace sources. -/
inductive QueueTrace (α : Type) where
  | enqueue (item : α)
  | dequeue (item : α)
  | dropBeforeEnqueue (item : α)

/-- `Queue<Item>` with its base `QueueBase`. -/
structure Queue (α : Type) where
  packets : List α := []
  nBytes : UInt32 := 0
  nTotalReceivedBytes : UInt32 := 0
  nPackets : UInt32 := 0
  nTotalReceivedPackets : UInt32 := 0
  nTotalDroppedBytes : UInt32 := 0
  nTotalDroppedBytesBeforeEnqueue : UInt32 := 0
  nTotalDroppedPackets : UInt32 := 0
  nTotalDroppedPacketsBeforeEnqueue : UInt32 := 0
  maxSize : QueueSize
  deriving DecidableEq

variable {α : Type} [QueueItem α]

/-- What one item takes of a limit in this unit. -/
def QueueSizeUnit.cost (u : QueueSizeUnit) (item : α) : UInt32 :=
  match u with
  | .packets => 1
  | .bytes => getSize item

namespace QueueSize

/-- `operator+ (QueueSize, Ptr<Item>)`. -/
def addItem (lhs : QueueSize) (item : α) : QueueSize :=
  match lhs.unit with
  | .packets => { unit := lhs.unit, value := lhs.value + 1 }
  | .bytes => { unit := lhs.unit, value := lhs.value + getSize item }

/-- `operator >`. The code aborts if the units differ; a queue compares sizes of one unit only. -/
def gt (lhs rhs : QueueSize) : Bool := decide (rhs.value < lhs.value)

@[simp] theorem addItem_value (s : QueueSize) (item : α) :
    (s.addItem item).value = s.value + s.unit.cost item := by
  unfold addItem QueueSizeUnit.cost
  cases s.unit <;> rfl

end QueueSize

namespace Queue

/-- `QueueBase::GetCurrentSize`. -/
def getCurrentSize (q : Queue α) : QueueSize :=
  match q.maxSize.unit with
  | .packets => { unit := .packets, value := q.nPackets }
  | .bytes => { unit := .bytes, value := q.nBytes }

/-- `QueueBase::IsEmpty`. -/
def isEmpty (q : Queue α) : Bool := q.nPackets == 0

/-- `Queue::DropBeforeEnqueue`. -/
def dropBeforeEnqueue (q : Queue α) (item : α) : Queue α :=
  { q with
    nTotalDroppedPackets := q.nTotalDroppedPackets + 1
    nTotalDroppedPacketsBeforeEnqueue := q.nTotalDroppedPacketsBeforeEnqueue + 1
    nTotalDroppedBytes := q.nTotalDroppedBytes + getSize item
    nTotalDroppedBytesBeforeEnqueue := q.nTotalDroppedBytesBeforeEnqueue + getSize item }

/-- `Queue::DoEnqueue` past its test: the item goes to the end of the list. -/
def insertEnd (q : Queue α) (item : α) : Queue α :=
  { q with
    packets := q.packets ++ [item]
    nBytes := q.nBytes + getSize item
    nTotalReceivedBytes := q.nTotalReceivedBytes + getSize item
    nPackets := q.nPackets + 1
    nTotalReceivedPackets := q.nTotalReceivedPackets + 1 }

/-- `Queue::DoDequeue` past its test: `item` leaves, `rest` stays. -/
def eraseBegin (q : Queue α) (item : α) (rest : List α) : Queue α :=
  { q with
    packets := rest
    nBytes := q.nBytes - getSize item
    nPackets := q.nPackets - 1 }

/-- `DropTailQueue::Enqueue`, that is `Queue::DoEnqueue (end (), item)`. -/
def enqueue (q : Queue α) (item : α) : Bool × QueueTrace α × Queue α :=
  if (q.getCurrentSize.addItem item).gt q.maxSize then
    (false, .dropBeforeEnqueue item, q.dropBeforeEnqueue item)
  else
    (true, .enqueue item, q.insertEnd item)

/-- `DropTailQueue::Dequeue`, that is `Queue::DoDequeue (begin ())`. The code does not test the
list itself: on a nonzero counter and an empty list it would read past the end (`Counted` rules
this out). -/
def dequeue (q : Queue α) : Option (α × QueueTrace α) × Queue α :=
  if q.nPackets = 0 then (none, q)
  else match q.packets with
    | [] => (none, q)
    | item :: rest => (some (item, .dequeue item), q.eraseBegin item rest)

/-- The conditions that `Queue::DoDequeue` asserts before it counts an item out. -/
def DequeueAsserts (q : Queue α) : Prop :=
  q.nPackets ≠ 0 → ∀ item ∈ q.packets.head?, getSize item ≤ q.nBytes ∧ 0 < q.nPackets

/-- `DropTailQueue::Peek`, that is `Queue::DoPeek (begin ())`. -/
def peek (q : Queue α) : Option α :=
  if q.nPackets = 0 then none else q.packets.head?

/-! ## The admission test -/

/-- The queue has room for `item`, in the `uint32_t` arithmetic of the code. -/
def fits (q : Queue α) (item : α) : Prop :=
  q.getCurrentSize.value + q.maxSize.unit.cost item ≤ q.maxSize.value

instance (q : Queue α) (item : α) : Decidable (q.fits item) :=
  inferInstanceAs (Decidable (_ ≤ _))

omit [QueueItem α] in
@[simp] theorem getCurrentSize_unit (q : Queue α) : q.getCurrentSize.unit = q.maxSize.unit := by
  unfold getCurrentSize
  split <;> simp_all

theorem enqueue_of_fits {q : Queue α} {item : α} (h : q.fits item) :
    q.enqueue item = (true, .enqueue item, q.insertEnd item) := by
  have hle := UInt32.not_lt.mpr h
  unfold enqueue QueueSize.gt
  rw [QueueSize.addItem_value, getCurrentSize_unit, decide_eq_false hle, if_neg Bool.false_ne_true]

theorem enqueue_of_not_fits {q : Queue α} {item : α} (h : ¬ q.fits item) :
    q.enqueue item = (false, .dropBeforeEnqueue item, q.dropBeforeEnqueue item) := by
  have hlt := UInt32.not_le.mp h
  unfold enqueue QueueSize.gt
  rw [QueueSize.addItem_value, getCurrentSize_unit, decide_eq_true hlt, if_pos rfl]

/-! ## The counters and the list -/

/-- The bytes of a list of items. -/
def bytes (l : List α) : ℕ := (l.map fun x => (getSize x).toNat).sum

@[simp] theorem bytes_nil : bytes ([] : List α) = 0 := rfl

@[simp] theorem bytes_cons (x : α) (l : List α) : bytes (x :: l) = (getSize x).toNat + bytes l := by
  simp [bytes]

@[simp] theorem bytes_append (l l' : List α) : bytes (l ++ l') = bytes l + bytes l' := by
  simp [bytes]

/-- The counters are those of the list, modulo `2 ^ 32`. -/
structure Counted (q : Queue α) : Prop where
  nPackets : q.nPackets = UInt32.ofNat q.packets.length
  nBytes : q.nBytes = UInt32.ofNat (bytes q.packets)

theorem Counted.dropBeforeEnqueue {q : Queue α} (h : q.Counted) (item : α) :
    (q.dropBeforeEnqueue item).Counted := ⟨h.nPackets, h.nBytes⟩

theorem Counted.insertEnd {q : Queue α} (h : q.Counted) (item : α) : (q.insertEnd item).Counted where
  nPackets := by simp [Queue.insertEnd, h.nPackets, UInt32.ofNat_add]
  nBytes := by simp [Queue.insertEnd, h.nBytes, UInt32.ofNat_add]

theorem Counted.eraseBegin {q : Queue α} (h : q.Counted) {item : α} {rest : List α}
    (hq : q.packets = item :: rest) : (q.eraseBegin item rest).Counted where
  nPackets := by simp [Queue.eraseBegin, h.nPackets, hq, UInt32.ofNat_add]
  nBytes := by simp [Queue.eraseBegin, h.nBytes, hq, UInt32.ofNat_add]

theorem Counted.ne_nil {q : Queue α} (h : q.Counted) (hn : q.nPackets ≠ 0) : q.packets ≠ [] := by
  rintro hq
  exact hn (by rw [h.nPackets, hq]; rfl)

/-- What a dequeue can do: nothing on a zero counter, else the first item leaves. -/
theorem Counted.dequeue_cases {q : Queue α} (h : q.Counted) :
    (q.nPackets = 0 ∧ q.dequeue = (none, q)) ∨
    (∃ item rest, q.packets = item :: rest ∧ q.nPackets ≠ 0 ∧
      q.dequeue = (some (item, .dequeue item), q.eraseBegin item rest)) := by
  unfold dequeue
  by_cases hn : q.nPackets = 0
  · exact .inl ⟨hn, if_pos hn⟩
  · obtain ⟨item, rest, hq⟩ := List.exists_cons_of_ne_nil (h.ne_nil hn)
    exact .inr ⟨item, rest, hq, hn, by rw [if_neg hn, hq]⟩

end Queue

end StabilizedRed
