import StabilizedRed.Disc.Calls

/-!
# Every received packet is accounted once

`QueueDisc::Enqueue` asserts that the packets received are those dropped before enqueue plus those
enqueued, and the same of their bytes. `QueueDisc.ledger` is the difference of the two sides; each
operation moves it by the entry of one item or not at all (`receive_ledger`, `conclude_ledger`).

`DoEnqueue` reports an item with flow id `-1` as dropped and then goes on with it. `enqueue_ledger`
says what that leaves behind, and `run_conserves_iff` that it is the only way to break conservation.
-/

namespace StabilizedRed

namespace QueueDisc

variable {α : Type} [QueueItem α]

instance (d : QueueDisc α) : Decidable d.EnqueueAsserts := inferInstanceAs (Decidable (_ ∧ _))

/-- What is dropped before enqueue or enqueued, less what is received: packets and bytes. -/
def ledger (d : QueueDisc α) : UInt32 × UInt64 :=
  (d.stats.nTotalDroppedPacketsBeforeEnqueue, d.stats.nTotalDroppedBytesBeforeEnqueue) +
    (d.stats.nTotalEnqueuedPackets, d.stats.nTotalEnqueuedBytes) -
    (d.stats.nTotalReceivedPackets, d.stats.nTotalReceivedBytes)

/-- What one item counts for. -/
def entry (item : α) : UInt32 × UInt64 := (1, (getSize item).toUInt64)

theorem entry_ne_zero (item : α) : entry item ≠ 0 := fun h =>
  absurd (congrArg Prod.fst h) (by decide : (1 : UInt32) ≠ 0)

omit [QueueItem α] in
theorem enqueueAsserts_iff (d : QueueDisc α) : d.EnqueueAsserts ↔ d.ledger = 0 := by
  unfold EnqueueAsserts ledger
  rw [sub_eq_zero, Prod.mk_add_mk, Prod.mk.injEq]
  exact and_congr eq_comm eq_comm

theorem receive_ledger (d : QueueDisc α) (item : α) :
    (d.receive item).ledger = d.ledger - entry item := by
  unfold ledger entry receive
  simp only [Prod.mk_add_mk, Prod.mk_sub_mk, Prod.mk.injEq]
  constructor <;> grind

theorem dropBeforeEnqueue_ledger (d : QueueDisc α) (item : α) (reason : String) :
    (d.dropBeforeEnqueue item reason).ledger = d.ledger + entry item := by
  unfold ledger entry dropBeforeEnqueue
  simp only [Prod.mk_add_mk, Prod.mk_sub_mk, Prod.mk.injEq]
  constructor <;> grind

theorem take_ledger (d : QueueDisc α) (item : α) : (d.take item).ledger = d.ledger + entry item := by
  unfold ledger entry take packetEnqueued
  simp only [Prod.mk_add_mk, Prod.mk_sub_mk, Prod.mk.injEq]
  constructor <;> grind

theorem dequeueHead_ledger (d : QueueDisc α) (item : α) (rest : List α) :
    (d.dequeueHead item rest).ledger = d.ledger := rfl

theorem conclude_ledger (d : QueueDisc α) (item : α) (reason : Option String) :
    (d.conclude item reason).2.ledger = d.ledger + entry item := by
  rcases d.conclude_cases item reason with ⟨-, -, h⟩ | ⟨-, -, h⟩ | ⟨_, -, h⟩ <;> rw [h]
  · exact take_ledger d item
  · exact dropBeforeEnqueue_ledger _ item _
  · exact dropBeforeEnqueue_ledger d item _

/-- All that a drop before enqueue writes: the trace and the counters of drops. -/
def drops (d : QueueDisc α) :=
  (d.dropTrace, d.stats.nTotalDroppedPackets, d.stats.nTotalDroppedBytes,
    d.stats.nTotalDroppedPacketsBeforeEnqueue, d.stats.nTotalDroppedBytesBeforeEnqueue,
    d.stats.nDroppedPacketsBeforeEnqueue, d.stats.nDroppedBytesBeforeEnqueue)

theorem conclude_retval (d : QueueDisc α) (item : α) (reason : Option String) :
    (d.conclude item reason).1 = true ↔
      (d.conclude item reason).2.queue.packets = d.queue.packets ++ [item] := by
  rw [conclude_packets, List.append_cancel_left_eq]
  split <;> simp_all

theorem conclude_drops (d : QueueDisc α) (item : α) (reason : Option String)
    (ht : (d.conclude item reason).1 = true) : (d.conclude item reason).2.drops = d.drops := by
  rcases d.conclude_cases item reason with ⟨-, -, h⟩ | ⟨-, -, h⟩ | ⟨_, -, h⟩ <;> rw [h] at ht ⊢
  · rfl
  · cases ht
  · cases ht

end QueueDisc

namespace ZombieQueueDisc

variable {Z α : Type} [QueueDiscItem α] {K : ZombieKind Z}

/-! ## Items with flow id `-1` -/

/-- The item has flow id `-1`: no filter is installed, and `Hash (0)` is the largest word. -/
def InvalidFlowID (filters : List (PacketFilter α)) (item : α) : Prop :=
  filters = [] ∧ QueueDiscItem.hash item 0 = 0xFFFFFFFF

instance (filters : List (PacketFilter α)) (item : α) : Decidable (InvalidFlowID filters item) :=
  inferInstanceAs (Decidable (_ ∧ _))

theorem toInt32_eq_neg_one_iff {hash : UInt32} : hash.toInt32 = -1 ↔ hash = 0xFFFFFFFF :=
  ⟨fun h => congrArg Int32.toUInt32 h, fun h => congrArg UInt32.toInt32 h⟩

/-- The value of a filter is never taken for the flow id `-1`. -/
theorem flowHash_eq_neg_one_iff {d : QueueDisc α} {item : α} {hash : UInt32}
    (h : flowHash d item = some hash) :
    hash.toInt32 = -1 ↔ InvalidFlowID d.filters item := by
  unfold flowHash at h
  split at h
  · have hf : d.filters = [] := List.length_eq_zero_iff.mp ‹_›
    cases h
    rw [toInt32_eq_neg_one_iff]
    exact ⟨fun hh => ⟨hf, hh⟩, fun hh => hh.2⟩
  · have hf : d.filters ≠ [] := fun hf => ‹¬ d.filters.length = 0› (by rw [hf]; rfl)
    dsimp only at h
    split at h
    · cases h
      rw [Int32.toInt32_toUInt32]
      exact iff_of_false ‹_› fun hi => hf hi.1
    · cases h

/-- An item that no filter matches is not one of flow id `-1`. -/
theorem not_invalid_of_noMatch {d : QueueDisc α} {item : α} (h : flowHash d item = none) :
    ¬ InvalidFlowID d.filters item := by
  rintro ⟨hf, -⟩
  rw [flowHash_of_filters_nil hf] at h
  cases h

/-- An item of flow id `-1` is counted once too often. -/
theorem enqueue_ledger (now : Time) (d : ZombieQueueDisc Z α) (item : α) :
    (d.enqueue K now item).2.ledger =
      d.ledger + if InvalidFlowID d.filters item then QueueDisc.entry item else 0 := by
  cases h : flowHash d.toQueueDisc item with
  | none =>
    rw [enqueue_of_noMatch h, if_neg (not_invalid_of_noMatch h)]
    exact (QueueDisc.dropBeforeEnqueue_ledger _ item _).trans (by
      rw [QueueDisc.receive_ledger, sub_add_cancel, add_zero])
  | some hash =>
    have hc : (d.enqueue K now item).2.ledger =
        ((d.receive item).noteFlowID item hash.toInt32).ledger + QueueDisc.entry item := by
      rw [enqueue_eq h]
      exact QueueDisc.conclude_ledger _ item _
    rw [hc]
    by_cases hv : InvalidFlowID d.filters item
    · have hid := (flowHash_eq_neg_one_iff h).mpr hv
      rw [if_pos hv, QueueDisc.noteFlowID, if_pos hid, QueueDisc.dropBeforeEnqueue_ledger,
        QueueDisc.receive_ledger, sub_add_cancel]
    · have hid := fun hid => hv ((flowHash_eq_neg_one_iff h).mp hid)
      rw [if_neg hv, QueueDisc.noteFlowID_of_ne hid, QueueDisc.receive_ledger, sub_add_cancel,
        add_zero]

/-! ## Conservation -/

/-- What is promised of one call: the assertions of `Enqueue` hold after it, and an `Enqueue`
returns `true` exactly if the internal queue gets the item, and then records no drop. -/
structure Conserves (K : ZombieKind Z) (d : ZombieQueueDisc Z α) (e : Event α) : Prop where
  asserts : ((machine K).next d e).EnqueueAsserts
  retval : ∀ item, e.call = .enqueue item → ((machine K).out d e = .enqueued true ↔
    ((machine K).next d e).queue.packets = d.queue.packets ++ [item])
  no_drop : (machine K).out d e = .enqueued true → ((machine K).next d e).drops = d.drops

/-- The call offers an item with flow id `-1`. -/
def OffersInvalid (filters : List (PacketFilter α)) (e : Event α) : Prop :=
  ∃ item, e.call = .enqueue item ∧ InvalidFlowID filters item

variable {a : Attributes α} {d : ZombieQueueDisc Z α}

theorem enqueue_conserves (now : Time) {item : α} (h0 : d.ledger = 0)
    (hv : ¬ InvalidFlowID d.filters item) : Conserves K d ⟨now, .enqueue item⟩ := by
  have hl : ((d.enqueue K now item).2).EnqueueAsserts := by
    rw [QueueDisc.enqueueAsserts_iff, enqueue_ledger, if_neg hv, h0, add_zero]
  have hret : ((d.enqueue K now item).1 = true ↔
      (d.enqueue K now item).2.queue.packets = d.queue.packets ++ [item]) ∧
      ((d.enqueue K now item).1 = true → (d.enqueue K now item).2.drops = d.drops) := by
    cases h : flowHash d.toQueueDisc item with
    | none =>
      rw [enqueue_of_noMatch h]
      refine ⟨iff_of_false Bool.false_ne_true fun hq => ?_, fun ht => by cases ht⟩
      exact List.cons_ne_nil item [] (List.self_eq_append_right.mp hq)
    | some hash =>
      have hid := fun hid => hv ((flowHash_eq_neg_one_iff h).mp hid)
      rw [enqueue_eq h, QueueDisc.noteFlowID_of_ne hid]
      exact ⟨QueueDisc.conclude_retval (d.receive item) item _,
        QueueDisc.conclude_drops (d.receive item) item _⟩
  refine ⟨hl, ?_, ?_⟩
  · rintro _ ⟨⟩
    rw [out_enqueue, Result.enqueued.injEq]
    exact hret.1
  · intro ht
    rw [out_enqueue, Result.enqueued.injEq] at ht
    exact hret.2 ht

/-- **Step lemma.** From a balanced ledger a call keeps its promise unless it offers an item of
flow id `-1`. -/
theorem conserves_iff (hs : Steady a d) (h0 : d.ledger = 0) (e : Event α) :
    Conserves K d e ↔ ¬ OffersInvalid a.filters e := by
  obtain ⟨now, c⟩ := e
  rw [← hs.filters]
  cases c with
  | enqueue item =>
    have hoff : OffersInvalid d.filters ⟨now, .enqueue item⟩ ↔ InvalidFlowID d.filters item := by
      constructor
      · rintro ⟨_, ⟨⟩, hi⟩
        exact hi
      · exact fun hi => ⟨item, rfl, hi⟩
    rw [hoff]
    refine ⟨fun hc hi => ?_, fun hv => enqueue_conserves now h0 hv⟩
    have := (QueueDisc.enqueueAsserts_iff _).mp hc.asserts
    rw [next_enqueue, enqueue_ledger, if_pos hi, h0, zero_add] at this
    exact QueueDisc.entry_ne_zero item this
  | dequeue =>
    refine iff_of_true ⟨?_, fun _ => nofun, nofun⟩ (by rintro ⟨_, ⟨⟩, -⟩)
    rw [QueueDisc.enqueueAsserts_iff, next_dequeue]
    rcases hs.dequeue_cases with ⟨-, he⟩ | ⟨item, rest, -, -, he⟩ <;> rw [he]
    · exact h0
    · exact (QueueDisc.dequeueHead_ledger _ _ _).trans h0
  | peek =>
    refine iff_of_true ⟨?_, fun _ => nofun, nofun⟩ (by rintro ⟨_, ⟨⟩, -⟩)
    exact (QueueDisc.enqueueAsserts_iff _).mpr h0

omit [QueueDiscItem α] in
theorem doInitialize_ledger (a : Attributes α) :
    (doInitialize a : ZombieQueueDisc Z α).ledger = 0 := sub_self _

/-- **Conservation.** Every call of a run keeps its promise exactly when no call offers an item of
flow id `-1`. -/
theorem run_conserves_iff (k : DiscKind) (a : Attributes α) (es : List (Event α)) :
    (k.machine α).Along (Conserves k.kind) (doInitialize a) es ↔
      ∀ e ∈ es, ¬ OffersInvalid a.filters e :=
  Machine.along_iff_forall (I := fun d => Steady a d ∧ d.ledger = 0)
    (fun _ e h => conserves_iff h.1 h.2 e)
    (fun _ e h hc => ⟨h.1.next e, (QueueDisc.enqueueAsserts_iff _).mp hc.asserts⟩)
    ⟨steady_doInitialize a, doInitialize_ledger a⟩ es

/-- A TCP packet from 10.98.74.86, port 49321, to 10.2.1.1, port 5001. Its hash is `0xFFFFFFFF`. -/
def packetOfInvalidFlow (payload : UInt16) : Ipv4QueueDiscItem where
  packetSize := payload.toUInt32 + 20
  sourcePort := 49321
  destinationPort := 5001
  header :=
    { source := 0x0A624A56
      destination := 0x0A020101
      protocol := 6
      fragmentOffset := 0
      payloadSize := payload + 20
      serializedSize := 20 }
  transportSize_le := Ipv4QueueDiscItem.le_payload_add payload

example : InvalidFlowID [] (packetOfInvalidFlow 0) := by
  unfold InvalidFlowID
  decide

/-- With the default limit of 25 packets, a packet of 40 bytes is recorded as dropped for its flow
id and once more as it overflows the queue. -/
theorem not_conserves_invalidFlow (k : DiscKind) :
    ¬ (k.machine Ipv4QueueDiscItem).Along (Conserves k.kind)
      (doInitialize .plain) [⟨0, .enqueue (packetOfInvalidFlow 0)⟩] := by
  rintro ⟨h, -⟩
  have := h.asserts
  cases k <;> revert this <;> decide

/-- It is counted twice in either disc. -/
theorem invalidFlow_counted_twice :
    ¬ (DiscKind.stabilizedRed.machine Ipv4QueueDiscItem).Along
      (Conserves DiscKind.stabilizedRed.kind) (doInitialize .plain)
      [⟨0, .enqueue (packetOfInvalidFlow 0)⟩] ∧
    ¬ (DiscKind.es.machine Ipv4QueueDiscItem).Along (Conserves DiscKind.es.kind)
      (doInitialize .plain) [⟨0, .enqueue (packetOfInvalidFlow 0)⟩] :=
  ⟨not_conserves_invalidFlow .stabilizedRed, not_conserves_invalidFlow .es⟩

end ZombieQueueDisc

end StabilizedRed
