import StabilizedRed.TrafficControl.Run
import StabilizedRed.Disc.Calls

/-!
# The counters of a queue disc and the packets that passed through it

`Tallied m d left`: the disc `d` with limit `m` has taken in the items `left` and those in its
internal queue, and given out `left`; its counters say the same, each modulo its word size. Every
operation keeps this and moves at most one item. Modulo `2 ^ 32` nothing needs a bound.

The limit of the queue does: `Bounded m item` says that the sums of the admission test for `item` do
not wrap, and the queue respects its limit if all items taken in are so (`Tallied.limited`).
-/

namespace StabilizedRed

variable {α : Type}

/-! ## The limit of a queue -/

section Limit

variable [QueueItem α]

/-- What a list of items takes of a limit in this unit. -/
def QueueSizeUnit.used (u : QueueSizeUnit) (l : List α) : ℕ :=
  match u with
  | .packets => l.length
  | .bytes => Queue.bytes l

/-- The item is small enough for the limit `m`: a queue with limit `m` of such items holds less than
`2 ^ 32` bytes. -/
def Bounded (m : QueueSize) (item : α) : Prop :=
  match m.unit with
  | .packets => m.value.toNat + 1 < 2 ^ 32 ∧ m.value.toNat * (getSize item).toNat < 2 ^ 32
  | .bytes => m.value.toNat + (getSize item).toNat < 2 ^ 32

theorem QueueSizeUnit.used_append (u : QueueSizeUnit) (l l' : List α) :
    u.used (l ++ l') = u.used l + u.used l' := by
  cases u
  · exact List.length_append
  · exact Queue.bytes_append l l'

theorem QueueSizeUnit.used_singleton (u : QueueSizeUnit) (item : α) :
    u.used [item] = (u.cost item).toNat := by
  cases u <;> rfl

theorem Bounded.add_cost_lt {m : QueueSize} {item : α} (h : Bounded m item) :
    m.value.toNat + (m.unit.cost item).toNat < 2 ^ 32 := by
  obtain ⟨u, v⟩ := m
  cases u
  · exact h.1
  · exact h

namespace Queue

theorem Counted.getCurrentSize_value {q : Queue α} (h : q.Counted) :
    q.getCurrentSize.value = UInt32.ofNat (q.maxSize.unit.used q.packets) := by
  unfold getCurrentSize QueueSizeUnit.used
  cases q.maxSize.unit
  · exact h.nPackets
  · exact h.nBytes

/-- An item that fits leaves the queue within its limit. -/
theorem Counted.used_le_of_fits {q : Queue α} (h : q.Counted) {item : α}
    (hb : Bounded q.maxSize item)
    (hu : q.maxSize.unit.used q.packets ≤ q.maxSize.value.toNat) (hf : q.fits item) :
    q.maxSize.unit.used (q.packets ++ [item]) ≤ q.maxSize.value.toNat := by
  have hlt := hb.add_cost_lt
  unfold fits at hf
  rw [h.getCurrentSize_value, UInt32.le_iff_toNat_le, UInt32.toNat_add,
    UInt32.toNat_ofNat_of_lt' (by simp only [UInt32.size]; omega), Nat.mod_eq_of_lt (by omega)] at hf
  rw [QueueSizeUnit.used_append, QueueSizeUnit.used_singleton]
  exact hf

theorem bytes_le_mul {l : List α} {B : ℕ} (h : ∀ x ∈ l, (getSize x).toNat ≤ B) :
    bytes l ≤ l.length * B := by
  have := List.sum_le_card_nsmul (l.map fun x => (getSize x).toNat) B (by simpa using h)
  simpa [bytes] using this

/-- A queue within its limit holds less than `2 ^ 32` bytes. -/
theorem bytes_lt_of_used_le {m : QueueSize} {l : List α} (hb : ∀ x ∈ l, Bounded m x)
    (hu : m.unit.used l ≤ m.value.toNat) : bytes l < 2 ^ 32 := by
  obtain ⟨u, v⟩ := m
  have hv := v.toNat_lt
  cases u with
  | bytes => exact Nat.lt_of_le_of_lt hu hv
  | packets =>
    have hlen : l.length ≤ v.toNat := hu
    by_cases hl : l = []
    · rw [hl, bytes_nil]
      norm_num
    · have hpos : 0 < v.toNat := Nat.lt_of_lt_of_le (List.length_pos_iff.mpr hl) hlen
      have hle : ∀ x ∈ l, (getSize x).toNat ≤ (2 ^ 32 - 1) / v.toNat := fun x hx => by
        have h2 : v.toNat * (getSize x).toNat < 2 ^ 32 := (hb x hx).2
        rw [Nat.le_div_iff_mul_le hpos, Nat.mul_comm]
        omega
      calc bytes l ≤ l.length * ((2 ^ 32 - 1) / v.toNat) := bytes_le_mul hle
        _ ≤ v.toNat * ((2 ^ 32 - 1) / v.toNat) := Nat.mul_le_mul_right _ hlen
        _ ≤ 2 ^ 32 - 1 := Nat.mul_div_le _ _
        _ < 2 ^ 32 := by norm_num

end Queue

end Limit

/-! ## The counters -/

section Tally

variable [QueueDiscItem α]

/-- The packets and bytes of a list of items, as the statistics count them. -/
def tally (l : List α) : UInt32 × UInt64 := (UInt32.ofNat l.length, UInt64.ofNat (Queue.bytes l))

theorem tally_concat (l : List α) (item : α) :
    tally (l ++ [item]) = tally l + (1, (getSize item).toUInt64) := by
  unfold tally
  rw [List.length_append, List.length_singleton, Queue.bytes_append, UInt32.ofNat_add,
    UInt64.ofNat_add, Queue.bytes_cons, Queue.bytes_nil, Nat.add_zero, UInt64.ofNat_uInt32ToNat]
  rfl

theorem tally_append (l l' : List α) : tally (l ++ l') = tally l + tally l' := by
  unfold tally
  rw [List.length_append, Queue.bytes_append, UInt32.ofNat_add, UInt64.ofNat_add]
  rfl

/-- Fewer than `2 ^ 32` packets are counted without wrapping, and so are their bytes. -/
theorem toNat_of_eq_tally {p : UInt32} {b : UInt64} {l : List α} (ht : (p, b) = tally l)
    (h : l.length < 2 ^ 32) : p.toNat = l.length ∧ b.toNat = Queue.bytes l := by
  have hb : Queue.bytes l ≤ l.length * (2 ^ 32 - 1) :=
    Queue.bytes_le_mul fun x _ => Nat.le_sub_one_of_lt (getSize x).toNat_lt
  have hlen : l.length * (2 ^ 32 - 1) ≤ (2 ^ 32 - 1) * (2 ^ 32 - 1) :=
    Nat.mul_le_mul_right _ (Nat.le_sub_one_of_lt h)
  cases ht
  exact ⟨UInt32.toNat_ofNat_of_lt' h, UInt64.toNat_ofNat_of_lt' (by
    simp only [UInt64.size]
    omega)⟩

namespace QueueDisc

/-- The disc has taken in `left` and what is in its internal queue, and given out `left`. -/
structure Tallied (m : QueueSize) (d : QueueDisc α) (left : List α) : Prop where
  maxSize : d.queue.maxSize = m
  counted : d.queue.Counted
  nPackets : d.nPackets = d.queue.nPackets
  nBytes : d.nBytes = d.queue.nBytes
  enqueued : (d.stats.nTotalEnqueuedPackets, d.stats.nTotalEnqueuedBytes) =
    tally (left ++ d.queue.packets)
  dequeued : (d.stats.nTotalDequeuedPackets, d.stats.nTotalDequeuedBytes) = tally left
  dropped : (d.stats.nTotalDroppedPackets, d.stats.nTotalDroppedBytes) =
    (d.stats.nTotalDroppedPacketsBeforeEnqueue, d.stats.nTotalDroppedBytesBeforeEnqueue)
  afterDequeue : (d.stats.nTotalDroppedPacketsAfterDequeue,
    d.stats.nTotalDroppedBytesAfterDequeue) = (0, 0)
  limited : (∀ x ∈ left ++ d.queue.packets, Bounded m x) →
    m.unit.used d.queue.packets ≤ m.value.toNat

variable {m : QueueSize} {d : QueueDisc α} {left : List α}

theorem Tallied.receive (h : Tallied m d left) (item : α) : Tallied m (d.receive item) left :=
  { h with }

theorem Tallied.requeue (h : Tallied m d left) (item : α) : Tallied m (d.requeue item) left :=
  { h with }

theorem Tallied.getStats (h : Tallied m d left) : Tallied m d.getStats left :=
  { h with }

theorem Tallied.dropBeforeEnqueue (h : Tallied m d left) (item : α) (reason : String) :
    Tallied m (d.dropBeforeEnqueue item reason) left :=
  { h with dropped := congrArg (· + (1, (getSize item).toUInt64)) h.dropped }

theorem Tallied.noteFlowID (h : Tallied m d left) (item : α) (flowID : Int32) :
    Tallied m (d.noteFlowID item flowID) left := by
  unfold QueueDisc.noteFlowID
  split
  · exact h.dropBeforeEnqueue item _
  · exact h

theorem Tallied.take (h : Tallied m d left) {item : α} (hf : d.queue.fits item) :
    Tallied m (d.take item) left where
  maxSize := h.maxSize
  counted := h.counted.insertEnd item
  nPackets := congrArg (· + 1) h.nPackets
  nBytes := congrArg (· + getSize item) h.nBytes
  enqueued := by
    show _ = tally (left ++ (d.queue.packets ++ [item]))
    rw [← List.append_assoc, tally_concat, ← h.enqueued]
    rfl
  dequeued := h.dequeued
  dropped := h.dropped
  afterDequeue := h.afterDequeue
  limited hb := by
    have hb : ∀ x ∈ left ++ (d.queue.packets ++ [item]), Bounded m x := hb
    rw [← List.append_assoc, List.forall_mem_append, List.forall_mem_singleton] at hb
    obtain ⟨hb, hitem⟩ := hb
    have := h.limited hb
    rw [← h.maxSize] at this hitem ⊢
    exact h.counted.used_le_of_fits hitem this hf

theorem Tallied.refuse (h : Tallied m d left) (item : α) : Tallied m (d.refuse item) left := by
  have hq : Tallied m { d with queue := d.queue.dropBeforeEnqueue item } left :=
    { h with counted := h.counted.dropBeforeEnqueue item }
  exact hq.dropBeforeEnqueue item internalQueueDrop

theorem Tallied.conclude (h : Tallied m d left) (item : α) (reason : Option String) :
    Tallied m (d.conclude item reason).2 left := by
  rcases d.conclude_cases item reason with ⟨-, hf, he⟩ | ⟨-, -, he⟩ | ⟨_, -, he⟩ <;> rw [he]
  · exact h.take hf
  · exact h.refuse item
  · exact h.dropBeforeEnqueue item _

theorem Tallied.dequeueHead (h : Tallied m d left) {item : α} {rest : List α}
    (hq : d.queue.packets = item :: rest) :
    Tallied m (d.dequeueHead item rest) (left ++ [item]) where
  maxSize := h.maxSize
  counted := h.counted.eraseBegin hq
  nPackets := congrArg (· - 1) h.nPackets
  nBytes := congrArg (· - getSize item) h.nBytes
  enqueued := by
    show _ = tally (left ++ [item] ++ rest)
    rw [List.append_assoc, List.singleton_append, ← hq]
    exact h.enqueued
  dequeued := by
    rw [tally_concat, ← h.dequeued]
    rfl
  dropped := h.dropped
  afterDequeue := h.afterDequeue
  limited hb := by
    have hu := h.limited (by
      rw [hq]
      simpa [QueueDisc.dequeueHead, Queue.eraseBegin] using hb)
    rw [hq, ← List.singleton_append, QueueSizeUnit.used_append] at hu
    exact Nat.le_of_add_left_le hu

end QueueDisc

end Tally

end StabilizedRed
