import StabilizedRed.Root.Frame
import StabilizedRed.Root.Fifo

/-!
# What Peek says about Dequeue

`QueueDisc::Dequeue` gives the requeued packet first. The `DoPeek` of the base class looks at it
too, the `DoPeek` that the two discs override it with only looks at the internal queue. So `Peek`
predicts the next `Dequeue` as long as nothing is requeued; and not otherwise, as the requeued
packet has its header and the packets in the queue do not (`run_peekPredicts_iff`).
-/

namespace StabilizedRed

namespace QueueDisc

variable {α : Type} [QueueItem α] {d : QueueDisc α}

/-- On the internal queue, the two overrides agree. -/
theorem doPeek_eq_doDequeue (hc : d.queue.Counted) (hp : d.peeked = false) :
    d.doPeek = d.doDequeue.1 := by
  unfold doPeek Queue.isEmpty Queue.peek
  rcases doDequeue_cases hc hp with ⟨hn, he⟩ | ⟨item, rest, hq, hn, he⟩ <;> rw [he]
  · rw [hn]
    rfl
  · rw [if_neg (by simpa using hn), if_neg hn, hq]
    rfl

theorem peek_eq_dequeue (hc : d.queue.Counted) (hp : d.peeked = false) (hr : d.requeued = none) :
    d.peek = d.dequeue.1 := by
  rw [dequeue_of_not_requeued hr]
  exact doPeek_eq_doDequeue hc hp

theorem dequeue_of_requeued {item : α} (hr : d.requeued = some item) : d.dequeue.1 = some item := by
  unfold dequeue
  rw [hr]

omit [QueueItem α] in
/-- A peeked item is in the internal queue. -/
theorem mem_of_peek {item : α} (h : d.peek = some item) : item ∈ d.queue.packets := by
  unfold peek doPeek Queue.peek at h
  split at h
  · cases h
  · split at h
    · cases h
    · exact List.mem_of_head? h

end QueueDisc

namespace Root

open ZombieQueueDisc (Configured configured_doInitialize)

variable {Z α : Type} [QueueDiscItem α] {K : ZombieKind Z} {a : Attributes α} {r : Root Z α}

/-- `Peek` returns an item exactly if a `Dequeue` right after it returns this item, and nothing
exactly if the `Dequeue` returns nothing; and it changes nothing. -/
structure PeekPredicts (K : ZombieKind Z) (r : Root Z α) : Prop where
  same : ∀ item, out K r .peek = some (.peeked item) ↔
    out K (next K r .peek) .dequeue = some (.dequeued item)
  unchanged : next K r .peek = r

theorem peekPredicts_iff : PeekPredicts K r ↔ r.disc.peek = r.disc.dequeue.1 := by
  have hpeek : ∀ item, out K r .peek = some (.peeked item) ↔ r.disc.peek = item := fun item => by
    show some (Result.peeked r.disc.peek) = _ ↔ _
    rw [Option.some.injEq, Result.peeked.injEq]
  have hdequeue : ∀ item, out K (next K r .peek) .dequeue = some (.dequeued item) ↔
      r.disc.dequeue.1 = item := fun item => by
    show some (Result.dequeued r.disc.dequeue.1) = _ ↔ _
    rw [Option.some.injEq, Result.dequeued.injEq]
  constructor
  · intro h
    exact ((hdequeue _).mp ((h.same _).mp ((hpeek _).mpr rfl))).symm
  · intro h
    refine ⟨fun item => ?_, rfl⟩
    rw [hpeek, hdequeue, h]

/-! ## Where the items come from -/

/-- The items of the queue were offered, and the requeued one is an offered item with its header. -/
structure Sourced (a : Attributes α) (r : Root Z α) (offered : List α) : Prop where
  configured : Configured a r.disc
  queued : ∀ x ∈ r.disc.queue.packets, x ∈ offered
  requeued : ∀ x ∈ r.disc.requeued, ∃ y ∈ offered, x = addHeader y

/-- **Step lemma.** -/
theorem Sourced.next {offered : List α} (h : Sourced a r offered) (e : RootEvent α) :
    Sourced a (next K r e) (offered ++ e.offered.toList) := by
  have hc := next_configured (K := K) h.configured e
  rcases e.offered_cases with ho | ⟨now, item, rfl⟩
  · obtain ⟨b, he, hb⟩ := next_of_offered_none (K := K) h.configured ho
    rw [ho, Option.toList_none, List.append_nil]
    refine ⟨hc, ?_, ?_⟩
    · rw [he]
      exact fun x hx => h.queued x (hb.moved.sublist.subset hx)
    · rw [he]
      intro x hx
      rcases hb.moved.mem_slot hx with hx | ⟨y, hy, rfl⟩
      · exact h.requeued x hx
      · exact ⟨y, h.queued y hy, rfl⟩
  · rw [RootEvent.offered_enqueue, Option.toList_some]
    refine ⟨hc, ?_, ?_⟩
    · intro x hx
      rcases List.mem_append.mp (ZombieQueueDisc.enqueue_packets K now r.disc item ▸ hx) with
        hx | hx
      · exact List.mem_append_left _ (h.queued x hx)
      · refine List.mem_append_right _ ?_
        split at hx
        · exact hx
        · cases hx
    · intro x hx
      have hk := (ZombieQueueDisc.enqueue_keeps (K := K) now r.disc item).requeued
      obtain ⟨y, hy, hxy⟩ := h.requeued x (hk ▸ hx)
      exact ⟨y, List.mem_append_left _ hy, hxy⟩

/-- **Run lemma.** -/
theorem run_sourced (K : ZombieKind Z) (a : Attributes α) (es : List (RootEvent α)) :
    Sourced a ((machine K).run (doInitialize a) es) (es.filterMap RootEvent.offered) :=
  Machine.event_invariant (M := machine K) (I := Sourced a) (fun _ e _ h => h.next e)
    ⟨configured_doInitialize a, fun _ hx => absurd hx List.not_mem_nil,
      fun _ hx => absurd hx (Option.not_mem_none _)⟩ es

/-! ## Peek predicts Dequeue -/

/-- **Peek predicts Dequeue where nothing is requeued.** In every state that events lead to in which
no packet is requeued, `Peek` predicts the next `Dequeue`. If no item arrives with its header (which
`AddHeader` asserts), `Peek` predicts it in no other state. -/
theorem run_peekPredicts_iff (k : DiscKind) (a : Attributes α) (es : List (RootEvent α)) :
    let r := (k.rootMachine α).run (doInitialize a) es
    let offered := es.filterMap RootEvent.offered
    (r.disc.requeued = none → PeekPredicts k.kind r) ∧
    ((∀ x ∈ offered, ∀ y ∈ offered, addHeader x ≠ y) →
      PeekPredicts k.kind r → r.disc.requeued = none) := by
  intro r offered
  have h : Sourced a r offered := run_sourced k.kind a es
  constructor
  · intro hr
    exact peekPredicts_iff.mpr
      (QueueDisc.peek_eq_dequeue h.configured.counted h.configured.peeked hr)
  · intro hnew hp
    cases hr : r.disc.requeued with
    | none => rfl
    | some x =>
      obtain ⟨y, hy, rfl⟩ := h.requeued x hr
      have hpeek := (peekPredicts_iff.mp hp).trans (QueueDisc.dequeue_of_requeued hr)
      exact absurd rfl (hnew y hy _ (h.queued _ (QueueDisc.mem_of_peek hpeek)))

/-- A packet leaves the internal queue and is requeued as its device queue is stopped. -/
def stopAndRun : List (RootEvent Ipv4QueueDiscItem) :=
  [.device 0 .stop, .enqueue 0 (.tcp 0 49153), .run]

/-- The next packet arrives after the first one has been sent. -/
def sentAndNext : List (RootEvent Ipv4QueueDiscItem) :=
  stopAndWake ++ [.enqueue 1 (.tcp 0 49154)]

/-- The next packet arrives while the first one is requeued. -/
def requeuedAndNext : List (RootEvent Ipv4QueueDiscItem) :=
  stopAndRun ++ [.enqueue 1 (.tcp 0 49154)]

/-- `Peek` predicts the next packet after the first one has been sent, and so nothing is requeued;
it predicts it too while the first one is requeued, which is wrong. -/
theorem peekPredicts_sentAndNext :
    ((DiscKind.es.rootMachine Ipv4QueueDiscItem).run (doInitialize twoQueues)
      sentAndNext).disc.peek = some (.tcp 0 49154) ∧
    PeekPredicts DiscKind.es.kind
      ((DiscKind.es.rootMachine Ipv4QueueDiscItem).run (doInitialize twoQueues) sentAndNext) ∧
    ((DiscKind.es.rootMachine Ipv4QueueDiscItem).run (doInitialize twoQueues)
      sentAndNext).disc.requeued = none ∧
    ((DiscKind.es.rootMachine Ipv4QueueDiscItem).run (doInitialize twoQueues)
      requeuedAndNext).disc.peek = some (.tcp 0 49154) ∧
    ¬ PeekPredicts DiscKind.es.kind
      ((DiscKind.es.rootMachine Ipv4QueueDiscItem).run (doInitialize twoQueues)
        requeuedAndNext) := by
  have h := run_peekPredicts_iff .es twoQueues sentAndNext
  have h' := run_peekPredicts_iff .es twoQueues requeuedAndNext
  have hr := h.1 (by decide +kernel)
  refine ⟨by decide +kernel, hr, h.2 (by decide +kernel) hr, by decide +kernel, fun hp => ?_⟩
  exact absurd (h'.2 (by decide +kernel) hp) (by decide +kernel)

/-- `Peek` does not see the requeued packet. -/
theorem not_peekPredicts_requeued (k : DiscKind) :
    ¬ PeekPredicts k.kind
      ((k.rootMachine Ipv4QueueDiscItem).run (doInitialize twoQueues) stopAndRun) := by
  rw [peekPredicts_iff]
  cases k <;> decide

/-- It does not see it in either disc. -/
theorem peek_misses_requeued :
    ¬ PeekPredicts DiscKind.stabilizedRed.kind
      ((DiscKind.stabilizedRed.rootMachine Ipv4QueueDiscItem).run (doInitialize twoQueues)
        stopAndRun) ∧
    ¬ PeekPredicts DiscKind.es.kind
      ((DiscKind.es.rootMachine Ipv4QueueDiscItem).run (doInitialize twoQueues) stopAndRun) :=
  ⟨not_peekPredicts_requeued .stabilizedRed, not_peekPredicts_requeued .es⟩

end Root

end StabilizedRed
