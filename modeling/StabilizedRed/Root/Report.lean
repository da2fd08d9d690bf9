import StabilizedRed.Root.Frame
import StabilizedRed.Root.Tally
import StabilizedRed.Disc.Conservation
import StabilizedRed.Disc.WarmUp

/-!
# The statistics report is coherent

`QueueDisc.Recorded`: the counters of drops, and the packets and bytes of each reason, are those of
the reports in the drop trace. With the packets received and accepted (`Reported`) this determines
what `Print` writes: the report is `Coherent` exactly if no item of flow id `-1` arrived
(`run_coherent_iff`), as each such item is dropped once and then accounted a second time.
-/

namespace StabilizedRed

/-! ## Records of drops -/

namespace QueueDisc

variable {α : Type} [QueueDiscItem α] {d d' : QueueDisc α}

/-- The items that were reported as dropped. -/
def droppedItems (d : QueueDisc α) : List α := d.dropTrace.map Prod.fst

/-- The statistics record the drops of the trace, and no others. -/
structure Recorded (d : QueueDisc α) : Prop where
  dropped : (d.stats.nTotalDroppedPackets, d.stats.nTotalDroppedBytes) = tally d.droppedItems
  beforeEnqueue : (d.stats.nTotalDroppedPacketsBeforeEnqueue,
    d.stats.nTotalDroppedBytesBeforeEnqueue) = tally d.droppedItems
  reasons : d.stats.nDroppedPacketsBeforeEnqueue.reasons =
    d.stats.nDroppedBytesBeforeEnqueue.reasons
  packets : d.droppedItems.length < 2 ^ 32 →
    d.stats.nDroppedPacketsBeforeEnqueue.total UInt32.toNat = d.droppedItems.length
  bytes : Queue.bytes d.droppedItems < 2 ^ 64 →
    d.stats.nDroppedBytesBeforeEnqueue.total UInt64.toNat = Queue.bytes d.droppedItems
  afterDequeue : d.stats.nDroppedPacketsAfterDequeue = [] ∧ d.stats.nDroppedBytesAfterDequeue = []
  marked : d.stats.nMarkedPackets = [] ∧ d.stats.nMarkedBytes = []

/-- Only the trace and the counters that arrivals write matter. -/
theorem Recorded.congr (h : Recorded d) (ht : d'.dropTrace = d.dropTrace)
    (hs : d'.stats.ofArrivals = d.stats.ofArrivals) : Recorded d' := by
  have hitems : d'.droppedItems = d.droppedItems := congrArg (List.map Prod.fst) ht
  have hp := congrArg Stats.nDroppedPacketsBeforeEnqueue hs
  have hb := congrArg Stats.nDroppedBytesBeforeEnqueue hs
  constructor
  · rw [hitems]
    have hd := congrArg (fun st : Stats => (st.nTotalDroppedPackets, st.nTotalDroppedBytes)) hs
    exact hd.trans h.dropped
  · rw [hitems]
    have hd := congrArg (fun st : Stats => (st.nTotalDroppedPacketsBeforeEnqueue,
      st.nTotalDroppedBytesBeforeEnqueue)) hs
    exact hd.trans h.beforeEnqueue
  · exact (congrArg ReasonMap.reasons hp).trans (h.reasons.trans (congrArg ReasonMap.reasons hb).symm)
  · rw [hitems]
    exact fun hlt => (congrArg (ReasonMap.total UInt32.toNat) hp).trans (h.packets hlt)
  · rw [hitems]
    exact fun hlt => (congrArg (ReasonMap.total UInt64.toNat) hb).trans (h.bytes hlt)
  · exact ⟨(congrArg Stats.nDroppedPacketsAfterDequeue hs).trans h.afterDequeue.1,
      (congrArg Stats.nDroppedBytesAfterDequeue hs).trans h.afterDequeue.2⟩
  · exact ⟨(congrArg Stats.nMarkedPackets hs).trans h.marked.1,
      (congrArg Stats.nMarkedBytes hs).trans h.marked.2⟩

theorem droppedItems_dropBeforeEnqueue (d : QueueDisc α) (item : α) (reason : String) :
    (d.dropBeforeEnqueue item reason).droppedItems = d.droppedItems ++ [item] := List.map_append

theorem length_droppedItems_noteFlowID (d : QueueDisc α) (item : α) (flowID : Int32) :
    (d.noteFlowID item flowID).droppedItems.length =
      d.droppedItems.length + if flowID = -1 then 1 else 0 := by
  unfold noteFlowID
  split
  · rw [droppedItems_dropBeforeEnqueue, List.length_append, List.length_singleton]
  · rfl

/-- An item that the internal queue does not take is reported once. -/
theorem length_droppedItems_conclude (d : QueueDisc α) (item : α) (reason : Option String) :
    (d.conclude item reason).2.droppedItems.length + (if (d.conclude item reason).1 then 1 else 0) =
      d.droppedItems.length + 1 := by
  rcases d.conclude_cases item reason with ⟨-, -, he⟩ | ⟨-, -, he⟩ | ⟨r, -, he⟩ <;> rw [he]
  · rfl
  · exact congrArg List.length (droppedItems_dropBeforeEnqueue _ item internalQueueDrop) |>.trans
      List.length_append
  · exact congrArg List.length (droppedItems_dropBeforeEnqueue d item r) |>.trans List.length_append

@[simp] theorem noteFlowID_nTotalReceivedPackets (d : QueueDisc α) (item : α) (flowID : Int32) :
    (d.noteFlowID item flowID).stats.nTotalReceivedPackets = d.stats.nTotalReceivedPackets := by
  unfold noteFlowID
  split <;> rfl

@[simp] theorem conclude_nTotalReceivedPackets (d : QueueDisc α) (item : α)
    (reason : Option String) :
    (d.conclude item reason).2.stats.nTotalReceivedPackets = d.stats.nTotalReceivedPackets := by
  rcases d.conclude_cases item reason with ⟨-, -, he⟩ | ⟨-, -, he⟩ | ⟨_, -, he⟩ <;> rw [he] <;> rfl

/-- A drop is recorded in every counter. -/
theorem Recorded.dropBeforeEnqueue (h : Recorded d) (item : α) (reason : String) :
    Recorded (d.dropBeforeEnqueue item reason) := by
  have hitems := droppedItems_dropBeforeEnqueue d item reason
  constructor
  · rw [hitems, tally_concat, ← h.dropped]
    rfl
  · rw [hitems, tally_concat, ← h.beforeEnqueue]
    rfl
  · exact ReasonMap.reasons_add_congr h.reasons reason _ _
  · rw [hitems, List.length_append, List.length_singleton]
    intro hlt
    have hp := h.packets (by omega)
    rw [← hp] at hlt ⊢
    exact ReasonMap.total_add (fun x y hxy => by rw [UInt32.toNat_add, Nat.mod_eq_of_lt hxy])
      reason (1 : UInt32) hlt
  · rw [hitems, Queue.bytes_append, Queue.bytes_cons, Queue.bytes_nil, Nat.add_zero]
    intro hlt
    have hb := h.bytes (by omega)
    rw [← hb] at hlt ⊢
    rw [← UInt32.toNat_toUInt64] at hlt ⊢
    exact ReasonMap.total_add (fun x y hxy => by rw [UInt64.toNat_add, Nat.mod_eq_of_lt hxy])
      reason (getSize item).toUInt64 hlt
  · exact h.afterDequeue
  · exact h.marked

theorem Recorded.noteFlowID (h : Recorded d) (item : α) (flowID : Int32) :
    Recorded (d.noteFlowID item flowID) := by
  unfold QueueDisc.noteFlowID
  split
  · exact h.dropBeforeEnqueue item _
  · exact h

theorem Recorded.conclude (h : Recorded d) (item : α) (reason : Option String) :
    Recorded (d.conclude item reason).2 := by
  rcases d.conclude_cases item reason with ⟨-, -, he⟩ | ⟨-, -, he⟩ | ⟨_, -, he⟩ <;> rw [he]
  · exact { h with }
  · have hq : Recorded { d with queue := d.queue.dropBeforeEnqueue item } := { h with }
    exact hq.dropBeforeEnqueue item internalQueueDrop
  · exact h.dropBeforeEnqueue item _

end QueueDisc

namespace ZombieQueueDisc

variable {Z α : Type} [QueueDiscItem α] {K : ZombieKind Z}

theorem enqueue_recorded {d : ZombieQueueDisc Z α} (h : d.Recorded) (now : Time) (item : α) :
    (d.enqueue K now item).2.Recorded := by
  obtain ⟨flowID, reason, _, _, _, -, he⟩ := enqueue_frame K now d item
  have hreceive : (d.receive item).Recorded := { h with }
  rw [he]
  exact (hreceive.noteFlowID item flowID).conclude item reason

/-- Each arrival is accepted or reported as dropped; one of flow id `-1` is reported once more. -/
theorem length_droppedItems_enqueue (now : Time) (d : ZombieQueueDisc Z α) (item : α) :
    (d.enqueue K now item).2.droppedItems.length + (if (d.enqueue K now item).1 then 1 else 0) =
      d.droppedItems.length + 1 + if InvalidFlowID d.filters item then 1 else 0 := by
  cases hc : flowHash d.toQueueDisc item with
  | none =>
    rw [enqueue_of_noMatch hc, if_neg (not_invalid_of_noMatch hc)]
    have hd := QueueDisc.droppedItems_dropBeforeEnqueue (d.receive item) item "Packet filter no match"
    exact (congrArg List.length hd).trans List.length_append
  | some hash =>
    have hn := QueueDisc.length_droppedItems_noteFlowID (d.receive item) item hash.toInt32
    have hd := QueueDisc.length_droppedItems_conclude
      ((d.receive item).noteFlowID item hash.toInt32) item (d.dropReason K now hash.toInt32 item)
    rw [hn] at hd
    simp only [flowHash_eq_neg_one_iff hc] at hd
    rw [enqueue_eq hc]
    exact hd.trans (Nat.add_right_comm _ _ _)

end ZombieQueueDisc

/-! ## The report -/

/-- What the report of the statistics is to say when `accepted` calls of `Enqueue` have returned
true: no more packets dropped than received, as many delivered as accepted, two percentages that sum
up to 100, and the drops of each reason in packets and bytes, with the right sums. -/
structure Stats.Coherent (st : Stats) (accepted : ℕ) : Prop where
  no_wrap : st.nTotalDroppedPackets ≤ st.nTotalReceivedPackets
  printed : ∃ drop delivery : ℚ, 0 ≤ drop ∧ drop ≤ 100 ∧ 0 ≤ delivery ∧ delivery ≤ 100 ∧
    drop + delivery = 100 ∧ st.print = st.printCounters ++ Stats.ratioLines
      st.nTotalDroppedPackets.toNat drop accepted delivery st.nTotalReceivedPackets.toNat
  reasons : st.nDroppedPacketsBeforeEnqueue.reasons = st.nDroppedBytesBeforeEnqueue.reasons
  asserts : st.PrintAsserts
  packets : st.nDroppedPacketsBeforeEnqueue.total UInt32.toNat =
    st.nTotalDroppedPacketsBeforeEnqueue.toNat
  bytes : st.nDroppedBytesBeforeEnqueue.total UInt64.toNat =
    st.nTotalDroppedBytesBeforeEnqueue.toNat

/-- If the received packets are those dropped and `n` more, the ratios are those of the dropped
packets and of `n`. -/
theorem Stats.printed_of_delivered (st : Stats) {n : ℕ}
    (h : st.nTotalReceivedPackets.toNat = st.nTotalDroppedPackets.toNat + n)
    (hpos : 0 < st.nTotalReceivedPackets.toNat) :
    st.nTotalDroppedPackets ≤ st.nTotalReceivedPackets ∧
    ∃ drop delivery : ℚ, 0 ≤ drop ∧ drop ≤ 100 ∧ 0 ≤ delivery ∧ delivery ≤ 100 ∧
      drop + delivery = 100 ∧ st.print = st.printCounters ++ Stats.ratioLines
        st.nTotalDroppedPackets.toNat drop n delivery st.nTotalReceivedPackets.toNat := by
  have hle : st.nTotalDroppedPackets ≤ st.nTotalReceivedPackets := by
    rw [UInt32.le_iff_toNat_le]
    omega
  have hdelivered : (st.nTotalReceivedPackets - st.nTotalDroppedPackets).toNat = n := by
    rw [UInt32.toNat_sub_of_le _ _ hle]
    omega
  have hr : (0 : ℚ) < st.nTotalReceivedPackets.toNat := Nat.cast_pos.mpr hpos
  have hsum : (st.nTotalDroppedPackets.toNat * 100 : ℚ) / st.nTotalReceivedPackets.toNat +
      n * 100 / st.nTotalReceivedPackets.toNat = 100 := by
    rw [← add_div, ← add_mul, ← Nat.cast_add, ← h]
    exact mul_div_cancel_left₀ 100 hr.ne'
  have hdrop : (0 : ℚ) ≤ st.nTotalDroppedPackets.toNat * 100 / st.nTotalReceivedPackets.toNat := by
    positivity
  have hdelivery : (0 : ℚ) ≤ n * 100 / st.nTotalReceivedPackets.toNat := by positivity
  refine ⟨hle, _, _, hdrop, by linarith, hdelivery, by linarith, hsum, ?_⟩
  unfold Stats.print Stats.printRatios
  dsimp only
  rw [hdelivered, ExtRat.fin_div_fin _ hr.ne', ExtRat.fin_div_fin _ hr.ne']

/-- In a coherent report the received packets are those dropped and those accepted. -/
theorem Stats.received_of_coherent (st : Stats) {n : ℕ} (h : st.Coherent n) :
    st.nTotalReceivedPackets.toNat = st.nTotalDroppedPackets.toNat + n := by
  obtain ⟨drop, delivery, -, -, -, -, -, hprint⟩ := h.printed
  have hlines := List.append_cancel_left hprint
  -- The packets delivered are the thirteenth token of these lines.
  have htoken : some (PrintToken.count (st.nTotalReceivedPackets - st.nTotalDroppedPackets).toNat) =
      some (.count n) := congrArg (fun lines => lines[12]?) hlines
  have hdelivered := PrintToken.count.inj (Option.some.inj htoken)
  have hle := UInt32.le_iff_toNat_le.mp h.no_wrap
  rw [UInt32.toNat_sub_of_le _ _ h.no_wrap] at hdelivered
  omega

namespace ZombieQueueDisc

variable {Z α : Type} [QueueDiscItem α] {K : ZombieKind Z}

theorem enqueue_nTotalReceivedPackets (now : Time) (d : ZombieQueueDisc Z α) (item : α) :
    (d.enqueue K now item).2.stats.nTotalReceivedPackets = d.stats.nTotalReceivedPackets + 1 := by
  obtain ⟨flowID, reason, _, _, _, -, he⟩ := enqueue_frame K now d item
  rw [he]
  exact (QueueDisc.conclude_nTotalReceivedPackets _ item reason).trans
    (QueueDisc.noteFlowID_nTotalReceivedPackets (d.receive item) item flowID)

end ZombieQueueDisc

namespace Root

open ZombieQueueDisc (Configured configured_doInitialize InvalidFlowID alwaysOverwrite hitAndMiss
  length_hitAndMiss offered_of_mem_hitAndMiss)

variable {Z α : Type} [QueueDiscItem α] {K : ZombieKind Z} {a : Attributes α} {r : Root Z α}

theorem length_next_accepted (now : Time) (item : α) (r : Root Z α) :
    (next K r (.enqueue now item)).accepted.length =
      r.accepted.length + if (r.disc.enqueue K now item).1 then 1 else 0 := by
  unfold next
  dsimp only
  split
  · exact List.length_append
  · rfl

/-- What `GetStats` returns gives a coherent report. -/
def ReportsCoherently (r : Root Z α) : Prop := r.disc.getStats.stats.Coherent r.accepted.length

/-- The statistics record what was offered: an item of flow id `-1` gives one drop too many. -/
structure Reported (a : Attributes α) (r : Root Z α) (offered : List α) : Prop where
  configured : Configured a r.disc
  recorded : r.disc.Recorded
  received : r.disc.stats.nTotalReceivedPackets = UInt32.ofNat offered.length
  balance : r.disc.droppedItems.length + r.accepted.length =
    offered.length + offered.countP (InvalidFlowID a.filters ·)

/-- **Step lemma.** -/
theorem Reported.next {offered : List α} (h : Reported a r offered) (e : RootEvent α) :
    Reported a (Root.next K r e) (offered ++ e.offered.toList) := by
  have hc := next_configured (K := K) h.configured e
  rcases e.offered_cases with ho | ⟨now, item, rfl⟩
  · obtain ⟨b, he, hq⟩ := next_of_offered_none (K := K) h.configured ho
    have hacc := next_accepted_of_offered_none (K := K) (r := r) ho
    rw [ho, Option.toList_none, List.append_nil]
    refine ⟨hc, ?_, ?_, ?_⟩
    · rw [he]
      exact h.recorded.congr hq.dropTrace hq.stats
    · rw [he]
      exact (congrArg Stats.nTotalReceivedPackets hq.stats).trans h.received
    · rw [hacc, he, ← h.balance]
      exact congrArg (fun l : List (α × String) => (l.map Prod.fst).length + _) hq.dropTrace
  · rw [RootEvent.offered_enqueue, Option.toList_some]
    refine ⟨hc, ZombieQueueDisc.enqueue_recorded h.recorded now item, ?_, ?_⟩
    · rw [List.length_append, UInt32.ofNat_add, ← h.received]
      exact ZombieQueueDisc.enqueue_nTotalReceivedPackets now r.disc item
    · have hd := ZombieQueueDisc.length_droppedItems_enqueue (K := K) now r.disc item
      have hb := h.balance
      have hacc := length_next_accepted (K := K) now item r
      rw [h.configured.filters] at hd
      rw [List.length_append, List.countP_append, List.countP_singleton, hacc]
      simp only [decide_eq_true_eq, List.length_singleton]
      show (r.disc.enqueue K now item).2.droppedItems.length + _ = _
      omega

theorem recorded_doInitialize (a : Attributes α) :
    (doInitialize a : Root Z α).disc.Recorded where
  dropped := rfl
  beforeEnqueue := rfl
  reasons := rfl
  packets _ := rfl
  bytes _ := rfl
  afterDequeue := ⟨rfl, rfl⟩
  marked := ⟨rfl, rfl⟩

/-- **Run lemma.** -/
theorem run_reported (K : ZombieKind Z) (a : Attributes α) (es : List (RootEvent α)) :
    Reported a ((machine K).run (doInitialize a) es) (es.filterMap RootEvent.offered) :=
  Machine.event_invariant (M := machine K) (I := Reported a) (fun _ e _ h => h.next e)
    ⟨configured_doInitialize a, recorded_doInitialize a, rfl, rfl⟩ es

/-! ## Coherence -/

/-- Without items of flow id `-1` the report is coherent. -/
theorem Reported.coherent {offered : List α} (h : Reported a r offered)
    (hpos : 1 ≤ offered.length) (hlt : offered.length < 2 ^ 32)
    (hv : ∀ item ∈ offered, ¬ InvalidFlowID a.filters item) : ReportsCoherently r := by
  have hbalance := h.balance
  rw [List.countP_eq_zero.mpr (by simpa using hv), Nat.add_zero] at hbalance
  have hlen : r.disc.droppedItems.length < 2 ^ 32 := by omega
  obtain ⟨hdp, -⟩ := toNat_of_eq_tally h.recorded.dropped hlen
  obtain ⟨hbp, hbb⟩ := toNat_of_eq_tally h.recorded.beforeEnqueue hlen
  have hrp : r.disc.stats.nTotalReceivedPackets.toNat = offered.length := by
    rw [h.received]
    exact UInt32.toNat_ofNat_of_lt' hlt
  have hdelivered : r.disc.stats.nTotalReceivedPackets.toNat =
      r.disc.stats.nTotalDroppedPackets.toNat + r.accepted.length := by
    rw [hrp, hdp, hbalance]
  have hbytes : Queue.bytes r.disc.droppedItems < 2 ^ 64 := by
    rw [← hbb]
    exact UInt64.toNat_lt _
  have hreceived : 0 < r.disc.stats.nTotalReceivedPackets.toNat := by omega
  obtain ⟨hle, hprint⟩ := r.disc.getStats.stats.printed_of_delivered hdelivered hreceived
  refine ⟨hle, hprint, h.recorded.reasons, ?_, ?_, ?_⟩
  · refine ⟨Stats.lockStep_of_reasons_eq h.recorded.reasons, ?_, ?_⟩
    · show Stats.LockStep r.disc.stats.nDroppedPacketsAfterDequeue _
      rw [h.recorded.afterDequeue.1]
      nofun
    · show Stats.LockStep r.disc.stats.nMarkedPackets _
      rw [h.recorded.marked.1]
      nofun
  · exact (h.recorded.packets hlen).trans hbp.symm
  · exact (h.recorded.bytes hbytes).trans hbb.symm

/-- A coherent report leaves no room for a packet that was dropped twice. -/
theorem Reported.valid_of_coherent {offered : List α} (h : Reported a r offered)
    (hlt : offered.length < 2 ^ 32) (hc : ReportsCoherently r) :
    ∀ item ∈ offered, ¬ InvalidFlowID a.filters item := by
  have hsum : r.disc.stats.nTotalReceivedPackets.toNat =
      r.disc.stats.nTotalDroppedPackets.toNat + r.accepted.length :=
    r.disc.getStats.stats.received_of_coherent hc
  have hdp : r.disc.stats.nTotalDroppedPackets = UInt32.ofNat r.disc.droppedItems.length :=
    congrArg Prod.fst h.recorded.dropped
  have hbalance := h.balance
  have hcount := List.countP_le_length (p := (InvalidFlowID a.filters ·)) (l := offered)
  rw [h.received, hdp, UInt32.toNat_ofNat_of_lt' hlt, UInt32.toNat_ofNat'] at hsum
  -- The drops counted fall short of the drops by a multiple of `2 ^ 32`.
  have hzero : offered.countP (InvalidFlowID a.filters ·) = 0 := by omega
  simpa using List.countP_eq_zero.mp hzero

/-- **The report is coherent where no packet is dropped twice.** After events that offer at least
one and fewer than `2 ^ 32` items, the report of the statistics is coherent exactly if no item of
flow id `-1` was among them. -/
theorem run_coherent_iff (k : DiscKind) (a : Attributes α) (es : List (RootEvent α))
    (hpos : 1 ≤ (es.filterMap RootEvent.offered).length)
    (hlt : (es.filterMap RootEvent.offered).length < 2 ^ 32) :
    ReportsCoherently ((k.rootMachine α).run (doInitialize a) es) ↔
      ∀ item ∈ es.filterMap RootEvent.offered, ¬ InvalidFlowID a.filters item := by
  have h := run_reported k.kind a es
  exact ⟨h.valid_of_coherent hlt, h.coherent hpos hlt⟩

/-- The report after warm-up, with its drops, and hits, misses and a dequeue on the full list. -/
theorem reportsCoherently_hitAndMiss : ReportsCoherently
    ((DiscKind.es.rootMachine Ipv4QueueDiscItem).run (doInitialize alwaysOverwrite)
      ((hitAndMiss 2000000000 (.tcp 0 49153) (.tcp 0 49154)).map RootEvent.ofEvent)) := by
  refine (run_coherent_iff .es alwaysOverwrite _ ?_ ?_).mpr ?_
  · refine List.length_pos_of_mem (a := Ipv4QueueDiscItem.tcp 0 49154) ?_
    refine List.mem_filterMap.mpr ⟨_, List.mem_map_of_mem (a := ⟨2000000000, .enqueue _⟩) ?_, rfl⟩
    exact List.mem_append_right _ (.tail _ (.head _))
  · refine (List.length_filterMap_le _ _).trans_lt ?_
    rw [List.length_map, length_hitAndMiss]
    decide
  · intro item hitem
    obtain ⟨e', he', ho⟩ := List.mem_filterMap.mp hitem
    obtain ⟨e, he, rfl⟩ := List.mem_map.mp he'
    unfold InvalidFlowID
    rcases offered_of_mem_hitAndMiss he (RootEvent.offered_ofEvent.mp ho) with rfl | rfl <;> decide

/-- A packet of flow id `-1` that overflows the queue. -/
def invalidAndOverflow : List (RootEvent Ipv4QueueDiscItem) :=
  [.enqueue 0 (ZombieQueueDisc.packetOfInvalidFlow 1460)]

theorem not_reportsCoherently_overflow (k : DiscKind) :
    ¬ ReportsCoherently
      ((k.rootMachine Ipv4QueueDiscItem).run (doInitialize .plain) invalidAndOverflow) := by
  intro h
  have := h.no_wrap
  cases k <;> revert this <;> decide

/-- Either disc drops it twice, and reports `2 ^ 32 - 1` packets as delivered. -/
theorem delivered_count_wraps :
    ¬ ReportsCoherently ((DiscKind.stabilizedRed.rootMachine Ipv4QueueDiscItem).run
      (doInitialize .plain) invalidAndOverflow) ∧
    ¬ ReportsCoherently ((DiscKind.es.rootMachine Ipv4QueueDiscItem).run
      (doInitialize .plain) invalidAndOverflow) :=
  ⟨not_reportsCoherently_overflow .stabilizedRed, not_reportsCoherently_overflow .es⟩

end Root

end StabilizedRed
