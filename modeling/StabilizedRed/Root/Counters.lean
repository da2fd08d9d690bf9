import StabilizedRed.Root.Fifo
import StabilizedRed.Root.Frame

/-!
# The counters mirror the store

`Exact`: the counters of the disc and of its internal queue are the number and the bytes of the
items held, without any wrapping; the queue is within its limit; enqueued less dequeued is what is
held, so nothing underflows and no assertion fails; and `GetStats` reports exactly what was sent. It
follows from `QueueDisc.Tallied`, the same modulo the word sizes, where the sums stay small:
`run_exact`.
-/

namespace StabilizedRed.Root

variable {Z α : Type} [QueueDiscItem α] {K : ZombieKind Z} {m : QueueSize} {r : Root Z α}

/-! ## Accepted items were offered -/

theorem next_accepted (e : RootEvent α) :
    (next K r e).accepted.Sublist (r.accepted ++ e.offered.toList) := by
  rcases e.offered_cases with ho | ⟨now, item, rfl⟩
  · rw [next_accepted_of_offered_none ho]
    exact List.sublist_append_left _ _
  · unfold next
    dsimp only
    split
    · exact List.Sublist.refl _
    · exact List.sublist_append_left _ _

/-- Only offered items are accepted, and each once. -/
theorem accepted_sublist (K : ZombieKind Z) (r : Root Z α) (es : List (RootEvent α)) :
    ((machine K).run r es).accepted.Sublist (r.accepted ++ es.filterMap RootEvent.offered) := by
  induction es generalizing r with
  | nil => exact List.sublist_append_left _ _
  | cons e es ih =>
    have hstep := (next_accepted (K := K) (r := r) e).append_right
      (es.filterMap RootEvent.offered)
    refine (ih (next K r e)).trans (hstep.trans ?_)
    rw [List.append_assoc]
    cases e <;> exact List.Sublist.refl _

/-! ## Exact counters -/

/-- The counters mirror the store, and the store respects its limit `m`. -/
structure Exact (m : QueueSize) (r : Root Z α) : Prop where
  queue_nPackets : r.disc.queue.nPackets.toNat = r.disc.queue.packets.length
  queue_nBytes : r.disc.queue.nBytes.toNat = Queue.bytes r.disc.queue.packets
  nPackets : r.disc.nPackets = r.disc.queue.nPackets
  nBytes : r.disc.nBytes = r.disc.queue.nBytes
  limit : m.unit.used r.disc.queue.packets ≤ m.value.toNat
  enqueued_packets : r.disc.stats.nTotalEnqueuedPackets.toNat =
    r.disc.stats.nTotalDequeuedPackets.toNat + r.disc.nPackets.toNat
  enqueued_bytes : r.disc.stats.nTotalEnqueuedBytes.toNat =
    r.disc.stats.nTotalDequeuedBytes.toNat + r.disc.nBytes.toNat
  dequeueAsserts : r.disc.DequeueAsserts
  queue_dequeueAsserts : r.disc.queue.DequeueAsserts
  getStatsAsserts : r.disc.GetStatsAsserts
  sent_packets : r.disc.getStats.stats.nTotalSentPackets.toNat = r.sent.length
  sent_bytes : r.disc.getStats.stats.nTotalSentBytes.toNat = Queue.bytes r.sent

/-- Headers do not change what the statistics count. -/
theorem tally_map_addHeader [SizedItem α] (l : List α) : tally (l.map addHeader) = tally l := by
  simp [tally, Queue.bytes, Function.comp_def]

/-- What is left of the dequeued items once the requeued one is taken off is what was sent. -/
theorem getStats_sent {left : List α} (ht : r.disc.Tallied m left)
    (hsent : tally left = tally (r.sent ++ r.disc.requeued.toList)) :
    (r.disc.getStats.stats.nTotalSentPackets, r.disc.getStats.stats.nTotalSentBytes) =
      tally r.sent := by
  obtain ⟨hp, hb⟩ := Prod.mk.injEq .. ▸ ht.afterDequeue
  have hd := ht.dequeued
  rw [hsent, tally_append] at hd
  obtain ⟨hdp, hdb⟩ := Prod.mk.injEq .. ▸ hd
  unfold QueueDisc.getStats
  dsimp only
  rw [hp, hb, hdp, hdb, sub_zero, sub_zero]
  cases r.disc.requeued with
  | none => simp [tally]
  | some item => simp [tally]

omit [QueueDiscItem α] in
/-- The assertions of `Dequeue` compare in `uint32_t` and `uint64_t`. -/
theorem dequeueAsserts_of_balance {d : QueueDisc α}
    (hp : d.stats.nTotalEnqueuedPackets.toNat =
      d.stats.nTotalDequeuedPackets.toNat + d.nPackets.toNat)
    (hb : d.stats.nTotalEnqueuedBytes.toNat =
      d.stats.nTotalDequeuedBytes.toNat + d.nBytes.toNat) : d.DequeueAsserts := by
  constructor
  · have : d.stats.nTotalEnqueuedPackets = d.stats.nTotalDequeuedPackets + d.nPackets := by
      have := d.stats.nTotalEnqueuedPackets.toNat_lt
      rw [← UInt32.toNat_inj, UInt32.toNat_add, Nat.mod_eq_of_lt (by omega), hp]
    rw [this, add_sub_cancel_left]
  · have : d.stats.nTotalEnqueuedBytes = d.stats.nTotalDequeuedBytes + d.nBytes.toUInt64 := by
      have := d.stats.nTotalEnqueuedBytes.toNat_lt
      rw [← UInt64.toNat_inj, UInt64.toNat_add, UInt32.toNat_toUInt64, Nat.mod_eq_of_lt (by omega),
        hb]
    rw [this, add_sub_cancel_left]

omit [QueueDiscItem α] in
theorem queue_dequeueAsserts_of_eq [QueueItem α] {q : Queue α}
    (hp : q.nPackets.toNat = q.packets.length) (hb : q.nBytes.toNat = Queue.bytes q.packets) :
    q.DequeueAsserts := by
  rintro - item hi
  obtain ⟨rest, hq⟩ := List.head?_eq_some_iff.mp hi
  rw [hq, List.length_cons] at hp
  rw [hq, Queue.bytes_cons] at hb
  rw [UInt32.le_iff_toNat_le, UInt32.lt_iff_toNat_lt, UInt32.toNat_zero]
  omega

theorem getStatsAsserts_of_tallied {d : QueueDisc α} {left : List α} (ht : d.Tallied m left) :
    d.GetStatsAsserts := by
  obtain ⟨hap, hab⟩ := Prod.mk.injEq .. ▸ ht.afterDequeue
  obtain ⟨hp, hb⟩ := Prod.mk.injEq .. ▸ ht.dropped
  unfold QueueDisc.GetStatsAsserts
  rw [hap, hab, add_zero, add_zero]
  exact ⟨hp, hb⟩

/-- Modulo the word sizes the counters are those of the items; without wrapping they are exact. -/
theorem InOrder.exact [SizedItem α] (h : InOrder m r) (hlen : r.accepted.length < 2 ^ 32)
    (hb : ∀ x ∈ r.accepted, Bounded m x) : Exact m r := by
  obtain ⟨left, ht, hacc, hsent⟩ := h.order
  rw [hacc] at hlen hb
  have hq : r.disc.queue.packets.length ≤ (left ++ r.disc.queue.packets).length := by
    rw [List.length_append]
    exact Nat.le_add_left _ _
  have hl : left.length < 2 ^ 32 := by
    rw [List.length_append] at hlen
    omega
  have hused := ht.limited hb
  have hbytes := Queue.bytes_lt_of_used_le (fun x hx => hb x (List.mem_append_right left hx)) hused
  have hqp : r.disc.queue.nPackets.toNat = r.disc.queue.packets.length := by
    rw [ht.counted.nPackets]
    exact UInt32.toNat_ofNat_of_lt' (Nat.lt_of_le_of_lt hq hlen)
  have hqb : r.disc.queue.nBytes.toNat = Queue.bytes r.disc.queue.packets := by
    rw [ht.counted.nBytes]
    exact UInt32.toNat_ofNat_of_lt' hbytes
  have hsl : r.sent.length < 2 ^ 32 := by
    have := congrArg List.length hsent
    rw [List.length_append, List.length_map] at this
    omega
  obtain ⟨hep, heb⟩ := toNat_of_eq_tally ht.enqueued hlen
  obtain ⟨hdp, hdb⟩ := toNat_of_eq_tally ht.dequeued hl
  obtain ⟨hsp, hsb⟩ := toNat_of_eq_tally (getStats_sent ht (by rw [hsent, tally_map_addHeader])) hsl
  have heqp : r.disc.stats.nTotalEnqueuedPackets.toNat =
      r.disc.stats.nTotalDequeuedPackets.toNat + r.disc.nPackets.toNat := by
    rw [hep, hdp, ht.nPackets, hqp, List.length_append]
  have heqb : r.disc.stats.nTotalEnqueuedBytes.toNat =
      r.disc.stats.nTotalDequeuedBytes.toNat + r.disc.nBytes.toNat := by
    rw [heb, hdb, ht.nBytes, hqb, Queue.bytes_append]
  exact
    { queue_nPackets := hqp
      queue_nBytes := hqb
      nPackets := ht.nPackets
      nBytes := ht.nBytes
      limit := hused
      enqueued_packets := heqp
      enqueued_bytes := heqb
      dequeueAsserts := dequeueAsserts_of_balance heqp heqb
      queue_dequeueAsserts := queue_dequeueAsserts_of_eq hqp hqb
      getStatsAsserts := getStatsAsserts_of_tallied ht
      sent_packets := hsp
      sent_bytes := hsb }

/-- **The counters mirror the store.** If the items offered are bounded by the limit, keep their
size under a header and are fewer than `2 ^ 32`, the counters are exact in every state that any
events but direct calls of `Dequeue` lead to. -/
theorem run_exact [SizedItem α] (k : DiscKind) (a : Attributes α) (es : List (RootEvent α))
    (he : ∀ e ∈ es, ¬ e.IsDequeue)
    (hb : ∀ item ∈ es.filterMap RootEvent.offered, Bounded a.maxSize item)
    (hlen : (es.filterMap RootEvent.offered).length < 2 ^ 32) :
    Exact a.maxSize ((k.rootMachine α).run (doInitialize a) es) := by
  have hsub := accepted_sublist k.kind (doInitialize a) es
  exact (run_inOrder k.kind a he).exact (Nat.lt_of_le_of_lt hsub.length_le hlen)
    fun x hx => hb x (hsub.subset hx)

/-- A packet meets a stopped device queue, is requeued, and is sent once the queue is woken. -/
theorem run_exact_stopAndWake : Exact twoQueues.maxSize
    ((DiscKind.es.rootMachine Ipv4QueueDiscItem).run (doInitialize twoQueues) stopAndWake) := by
  refine run_exact .es twoQueues stopAndWake (by simp [stopAndWake, RootEvent.IsDequeue]) ?_
    (by decide)
  intro item hi
  rw [show stopAndWake.filterMap RootEvent.offered = [.tcp 0 49153] from rfl,
    List.mem_singleton] at hi
  rw [hi]
  exact (by decide : 40 + 40 < 2 ^ 32)

end StabilizedRed.Root
