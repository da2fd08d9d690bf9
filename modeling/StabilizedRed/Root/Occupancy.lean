import StabilizedRed.Root.Frame
import StabilizedRed.Root.Tally
import StabilizedRed.Disc.Occupancy

/-!
# The occupancy of a root queue disc

`run_unitAgrees_iff`: in which reachable states the probability by occupancy is measured in the unit
of the limit. With a limit in bytes these are all states that items small enough for the limit lead
to (`run_unitAgrees_of_bytes`), as the internal queue keeps within its limit (`Within`).
-/

namespace StabilizedRed

theorem QueueSizeUnit.used_le_of_sublist {α : Type} [QueueItem α] (u : QueueSizeUnit) {l l' : List α}
    (h : l.Sublist l') : u.used l ≤ u.used l' := by
  cases u with
  | packets => exact h.length_le
  | bytes => exact (h.map _).sum_le_sum fun _ _ => Nat.zero_le _

namespace Root

open ZombieQueueDisc (Configured configured_doInitialize)

variable {Z α : Type} [QueueDiscItem α] {K : ZombieKind Z} {a : Attributes α} {r : Root Z α}

/-- The internal queue is within its limit, and its items are small enough for the limit. -/
structure Within (a : Attributes α) (r : Root Z α) : Prop where
  configured : Configured a r.disc
  bounded : ∀ x ∈ r.disc.queue.packets, Bounded a.maxSize x
  limit : a.maxSize.unit.used r.disc.queue.packets ≤ a.maxSize.value.toNat

theorem within_doInitialize (a : Attributes α) : Within a (doInitialize a : Root Z α) where
  configured := configured_doInitialize a
  bounded := nofun
  limit := by
    cases a.maxSize.unit <;> exact Nat.zero_le _

/-- **Step lemma.** -/
theorem Within.next (h : Within a r) {e : RootEvent α}
    (hb : ∀ item ∈ e.offered, Bounded a.maxSize item) : Within a (next K r e) := by
  have hc := next_configured (K := K) h.configured e
  rcases e.offered_cases with ho | ⟨now, item, rfl⟩
  · obtain ⟨b, he, hq⟩ := next_of_offered_none (K := K) h.configured ho
    have hs : (Root.next K r e).disc.queue.packets.Sublist r.disc.queue.packets := by
      rw [he]
      exact hq.moved.sublist
    exact ⟨hc, fun x hx => h.bounded x (hs.subset hx),
      (QueueSizeUnit.used_le_of_sublist _ hs).trans h.limit⟩
  · have hitem : Bounded a.maxSize item := hb item rfl
    have hp := ZombieQueueDisc.enqueue_packets K now r.disc item
    by_cases ht : (r.disc.enqueue K now item).1 = true
    · rw [if_pos ht] at hp
      have hlimit := h.configured.counted.used_le_of_fits (h.configured.maxSize ▸ hitem)
        (h.configured.maxSize ▸ h.limit) (ZombieQueueDisc.fits_of_enqueue ht)
      rw [h.configured.maxSize, ← hp] at hlimit
      refine ⟨hc, fun x hx => ?_, hlimit⟩
      rcases List.mem_append.mp (hp ▸ hx) with hx | hx
      · exact h.bounded x hx
      · exact List.mem_singleton.mp hx ▸ hitem
    · rw [if_neg ht, List.append_nil] at hp
      exact ⟨hc, fun x hx => h.bounded x (hp ▸ hx), hp ▸ h.limit⟩

/-- **Run lemma.** -/
theorem run_within (K : ZombieKind Z) {es : List (RootEvent α)}
    (hb : ∀ e ∈ es, ∀ item ∈ e.offered, Bounded a.maxSize item) :
    Within a ((machine K).run (doInitialize a) es) :=
  Machine.run_invariant (M := machine K) (P := fun _ e => ∀ item ∈ e.offered, Bounded a.maxSize item)
    (fun _ _ hb h => h.next hb) (within_doInitialize a) (Machine.along_of_forall hb)

/-- With a limit in bytes that no arrival makes wrap, the units agree in every reachable state. -/
theorem run_unitAgrees_of_bytes (K : ZombieKind Z) (hu : a.maxSize.unit = .bytes)
    {es : List (RootEvent α)}
    (hb : ∀ e ∈ es, ∀ item ∈ e.offered, a.maxSize.value.toNat + (getSize item).toNat < 2 ^ 32) :
    ((machine K).run (doInitialize a) es).disc.UnitAgrees := by
  have h : Within a ((machine K).run (doInitialize a) es) := run_within K fun e he item hi => by
    unfold Bounded
    rw [hu]
    exact hb e he item hi
  generalize (machine K).run (doInitialize a) es = r at h
  have hlimit := h.limit
  have hlt := a.maxSize.value.toNat_lt
  unfold ZombieQueueDisc.UnitAgrees
  rw [h.configured.maxSize, h.configured.counted.nBytes]
  rw [hu] at hlimit ⊢
  refine .inr ?_
  show (UInt32.ofNat (Queue.bytes r.disc.queue.packets)).toNat ≤ _
  have hlimit : Queue.bytes r.disc.queue.packets ≤ a.maxSize.value.toNat := hlimit
  rw [UInt32.toNat_ofNat_of_lt' (by simp only [UInt32.size]; omega)]
  exact hlimit

/-- **The unit of the step function.** In every state that events lead to, the probability by
occupancy is the step function of the occupancy in the unit of the limit exactly if the units agree;
and among the reachable states where they do, a fuller buffer never gives less. -/
theorem run_unitAgrees_iff (k : DiscKind) (a : Attributes α) (es es' : List (RootEvent α)) :
    let d := ((k.rootMachine α).run (doInitialize a) es).disc
    let d' := ((k.rootMachine α).run (doInitialize a) es').disc
    (d.calculateProbabilityStabilizedRed =
        occupancyStep a.maximumDropProbability a.maxSize.value.toNat d.used ↔ d.UnitAgrees) ∧
      (d.UnitAgrees → d'.UnitAgrees → d.used ≤ d'.used →
        d.calculateProbabilityStabilizedRed ≤ d'.calculateProbabilityStabilizedRed) := by
  intro d d'
  have h : Configured a d := run_configured k.kind a es
  have h' : Configured a d' := run_configured k.kind a es'
  have h0 : 0 < d.queue.maxSize.value := by
    rw [h.maxSize]
    exact a.maxSize_pos
  constructor
  · rw [ZombieQueueDisc.unitAgrees_iff h0, h.pMax, h.maxSize]
  · intro hd hd' hle
    refine ZombieQueueDisc.calculateProbabilityStabilizedRed_mono hd hd' h0
      (h'.maxSize.trans h.maxSize.symm) (h'.pMax.trans h.pMax.symm) ?_ hle
    rw [h.pMax]
    exact a.maximumDropProbability_nonneg

/-- With a limit of 100 packets, one packet of 40 bytes counts as more than a third. -/
theorem not_measured_in_packets (k : DiscKind) :
    let d := ((k.rootMachine Ipv4QueueDiscItem).run (doInitialize .hundredPackets)
      [.enqueue 0 (.tcp 0 49153)]).disc
    d.calculateProbabilityStabilizedRed ≠ occupancyStep (3 / 20) 100 d.used := by
  cases k <;> decide +kernel

/-- It does in either disc. -/
theorem one_packet_counts_as_third :
    ((DiscKind.stabilizedRed.rootMachine Ipv4QueueDiscItem).run (doInitialize .hundredPackets)
        [.enqueue 0 (.tcp 0 49153)]).disc.calculateProbabilityStabilizedRed ≠
      occupancyStep (3 / 20) 100 ((DiscKind.stabilizedRed.rootMachine Ipv4QueueDiscItem).run
        (doInitialize .hundredPackets) [.enqueue 0 (.tcp 0 49153)]).disc.used ∧
    ((DiscKind.es.rootMachine Ipv4QueueDiscItem).run (doInitialize .hundredPackets)
        [.enqueue 0 (.tcp 0 49153)]).disc.calculateProbabilityStabilizedRed ≠
      occupancyStep (3 / 20) 100 ((DiscKind.es.rootMachine Ipv4QueueDiscItem).run
        (doInitialize .hundredPackets) [.enqueue 0 (.tcp 0 49153)]).disc.used :=
  ⟨not_measured_in_packets .stabilizedRed, not_measured_in_packets .es⟩

end Root

end StabilizedRed
