import StabilizedRed.Root.Frame
import StabilizedRed.Disc.Conservation
import StabilizedRed.Disc.ZombieList

/-!
# Packets without a valid flow

`DoEnqueue` rejects an item that no filter matches, and one of flow id `-1`. The first rejection
returns at once. The second one has no `return`: the item is recorded as dropped and then treated
like any other, so it gets a zombie or a comparison, draws random numbers and may be enqueued.
`run_rejectsCleanly_iff`: in a run every rejection leaves the disc alone, and no zombie has the flow
id `-1`, exactly if no item of flow id `-1` arrives.
-/

namespace StabilizedRed

namespace ZombieQueueDisc

variable {Z α : Type} [QueueDiscItem α] {K : ZombieKind Z} {d : ZombieQueueDisc Z α} {item : α}

/-- The reason for which an item is reported as dropped for lack of a valid flow. -/
def rejection (d : QueueDisc α) (item : α) : Option String :=
  match flowHash d item with
  | none => some "Packet filter no match"
  | some hash => if hash.toInt32 = -1 then some "InvalidFlowID" else none

/-- `Enqueue` returns false, records one drop of the item for this reason, and changes nothing of
what it decides with. -/
structure Untouched (K : ZombieKind Z) (now : Time) (d : ZombieQueueDisc Z α) (item : α)
    (reason : String) : Prop where
  retval : (d.enqueue K now item).1 = false
  dropTrace : (d.enqueue K now item).2.dropTrace = d.dropTrace ++ [(item, reason)]
  dropped : (d.enqueue K now item).2.stats.nTotalDroppedPackets = d.stats.nTotalDroppedPackets + 1
  zombies : (d.enqueue K now item).2.zombies = d.zombies
  pHitFreq : (d.enqueue K now item).2.pHitFreq = d.pHitFreq
  queue : (d.enqueue K now item).2.queue = d.queue
  uv : (d.enqueue K now item).2.uv = d.uv

/-- The rejection of an item that no filter matches. -/
theorem untouched_of_noMatch (now : Time) (h : flowHash d.toQueueDisc item = none) :
    Untouched K now d item "Packet filter no match" := by
  have he : d.enqueue K now item =
      d.onBase (false, (d.receive item).dropBeforeEnqueue item "Packet filter no match") :=
    enqueue_of_noMatch h
  constructor <;> rw [he] <;> rfl

omit [QueueDiscItem α] in
theorem length_zombies_recordArrival (now : Time) (flowID : Int32) (hf : ¬ d.Full) :
    (d.recordArrival K now flowID).zombies.length = d.zombies.length + 1 := by
  rw [recordArrival_of_not_full hf]
  exact List.length_append

omit [QueueDiscItem α] in
/-- A comparison with a zombie moves the position in the random stream. -/
theorem drawn_recordArrival (now : Time) (flowID : Int32) (hf : d.Full)
    (hl : d.zombies.length ≤ maxZombieListSize) :
    d.uv.drawn < (d.recordArrival K now flowID).uv.drawn := by
  obtain ⟨z, hz⟩ := exists_sampled hf hl
  rw [recordArrival_of_full hf]
  rcases sampleZombie_cases K now flowID hz with ⟨-, h⟩ | ⟨-, -, h⟩ | ⟨-, -, h⟩ <;> rw [h] <;>
    simp only [UniformRandomVariable.advance] <;> omega

/-- An item of flow id `-1` leaves a trace in the list or in the random stream. -/
theorem not_untouched_of_invalid {now : Time} {reason : String} {hash : UInt32}
    (hc : flowHash d.toQueueDisc item = some hash) (hl : d.zombies.length ≤ maxZombieListSize) :
    ¬ Untouched K now d item reason := by
  intro h
  have hz := h.zombies
  have hu := h.uv
  rw [enqueue_eq hc] at hz hu
  by_cases hf : d.Full
  · have hd := drawn_recordArrival (K := K) now hash.toInt32 hf hl
    exact absurd (congrArg UniformRandomVariable.drawn hu) hd.ne'
  · have hlen := length_zombies_recordArrival (K := K) now hash.toInt32 hf
    have hsame : (d.recordArrival K now hash.toInt32).zombies.length = d.zombies.length :=
      congrArg List.length hz
    omega

theorem rejection_of_invalid (h : InvalidFlowID d.filters item) :
    rejection d.toQueueDisc item = some "InvalidFlowID" ∧
      ∃ hash, flowHash d.toQueueDisc item = some hash := by
  have hc := flowHash_of_filters_nil h.1 item
  refine ⟨?_, _, hc⟩
  unfold rejection
  rw [hc]
  exact if_pos ((flowHash_eq_neg_one_iff hc).mpr h)

/-- Without items of flow id `-1` the only reason is that no filter matches. -/
theorem flowHash_of_rejection {reason : String} (hv : ¬ InvalidFlowID d.filters item)
    (h : rejection d.toQueueDisc item = some reason) :
    flowHash d.toQueueDisc item = none ∧ reason = "Packet filter no match" := by
  unfold rejection at h
  cases hc : flowHash d.toQueueDisc item with
  | none =>
    rw [hc] at h
    exact ⟨rfl, (Option.some.inj h).symm⟩
  | some hash =>
    rw [hc] at h
    dsimp only at h
    rw [if_neg fun hid => hv ((flowHash_eq_neg_one_iff hc).mp hid)] at h
    cases h

end ZombieQueueDisc

namespace Root

open ZombieQueueDisc (Configured configured_doInitialize InvalidFlowID Untouched)

variable {Z α : Type} [QueueDiscItem α] {K : ZombieKind Z} {a : Attributes α} {r : Root Z α}

/-- An arrival that is rejected for lack of a valid flow leaves the disc alone; and after the event
no zombie has the flow id `-1`. -/
structure RejectsCleanly (K : ZombieKind Z) (r : Root Z α) (e : RootEvent α) : Prop where
  untouched : ∀ now item reason, e = .enqueue now item →
    ZombieQueueDisc.rejection r.disc.toQueueDisc item = some reason →
    Untouched K now r.disc item reason
  no_invalid : ∀ z ∈ (next K r e).disc.zombies, K.flowID z ≠ -1

/-- Zombies have the flow ids of items that arrived. -/
theorem next_no_invalid {stamped : Z → Time → Prop} (L : K.Lawful stamped)
    (hr : Configured a r.disc) (hz : ∀ z ∈ r.disc.zombies, K.flowID z ≠ -1) {e : RootEvent α}
    (he : ∀ item ∈ e.offered, ¬ InvalidFlowID a.filters item) :
    ∀ z ∈ (next K r e).disc.zombies, K.flowID z ≠ -1 := by
  rcases e.offered_cases with ho | ⟨now, item, rfl⟩
  · obtain ⟨b, hb, -⟩ := next_of_offered_none (K := K) hr ho
    rw [hb]
    exact hz
  · have hgiven : ∀ f, r.disc.givenFlowID ⟨now, .enqueue item⟩ = some f → f ≠ -1 := by
      intro f hf
      obtain ⟨hash, hc, rfl⟩ := Option.map_eq_some_iff.mp hf
      rw [Ne, ZombieQueueDisc.flowHash_eq_neg_one_iff hc, hr.filters]
      exact he item rfl
    exact ZombieQueueDisc.next_zombies_forall (K := K) (e := ⟨now, .enqueue item⟩)
      (fun f hf => by rw [L.flowID_create]; exact hgiven f hf)
      (fun z hz => by rw [L.flowID_hit]; exact hz)
      (fun f z hf _ => by rw [L.flowID_overwrite]; exact hgiven f hf) hr.length_le hz

/-- **Step lemma.** -/
theorem rejectsCleanly_iff {stamped : Z → Time → Prop} (L : K.Lawful stamped)
    (hr : Configured a r.disc) (hz : ∀ z ∈ r.disc.zombies, K.flowID z ≠ -1) (e : RootEvent α) :
    RejectsCleanly K r e ↔ ∀ item ∈ e.offered, ¬ InvalidFlowID a.filters item := by
  constructor
  · intro h item ho hi
    cases e with
    | enqueue now item' =>
      obtain rfl : item' = item := Option.some.inj ho
      rw [← hr.filters] at hi
      obtain ⟨hrej, hash, hc⟩ := ZombieQueueDisc.rejection_of_invalid hi
      exact ZombieQueueDisc.not_untouched_of_invalid hc hr.length_le (h.untouched now _ _ rfl hrej)
    | _ => cases ho
  · intro he
    refine ⟨?_, next_no_invalid L hr hz he⟩
    rintro now item reason rfl hrej
    have hv : ¬ InvalidFlowID r.disc.filters item := by
      rw [hr.filters]
      exact he item rfl
    obtain ⟨hc, rfl⟩ := ZombieQueueDisc.flowHash_of_rejection hv hrej
    exact ZombieQueueDisc.untouched_of_noMatch now hc

/-- **Rejected packets leave the disc untouched.** In a run every arrival that is rejected for lack
of a valid flow leaves the disc untouched, and no zombie ever has the flow id `-1`, exactly if no
item of flow id `-1` arrives. -/
theorem run_rejectsCleanly_iff (k : DiscKind) (a : Attributes α) (es : List (RootEvent α)) :
    (k.rootMachine α).Along (RejectsCleanly k.kind) (doInitialize a) es ↔
      ∀ e ∈ es, ∀ item ∈ e.offered, ¬ InvalidFlowID a.filters item :=
  Machine.along_iff_forall (M := k.rootMachine α)
    (I := fun r => Configured a r.disc ∧ ∀ z ∈ r.disc.zombies, k.kind.flowID z ≠ -1)
    (fun _ e h => rejectsCleanly_iff k.lawful h.1 h.2 e)
    (fun _ e h hc => ⟨next_configured h.1 e, hc.no_invalid⟩)
    ⟨configured_doInitialize a, fun _ hz => absurd hz List.not_mem_nil⟩ es

/-- The packet of flow id `-1` is reported as dropped, and `Enqueue` returns true. -/
theorem not_rejectsCleanly_invalidFlow (k : DiscKind) :
    ¬ (k.rootMachine Ipv4QueueDiscItem).Along (RejectsCleanly k.kind) (doInitialize .hundredPackets)
      [.enqueue 0 (ZombieQueueDisc.packetOfInvalidFlow 0)] := by
  rintro ⟨h, -⟩
  have := (h.untouched 0 _ "InvalidFlowID" rfl (by cases k <;> decide)).retval
  cases k <;> revert this <;> decide

/-- It does in either disc. -/
theorem rejected_packet_is_enqueued :
    ¬ (DiscKind.stabilizedRed.rootMachine Ipv4QueueDiscItem).Along
      (RejectsCleanly DiscKind.stabilizedRed.kind) (doInitialize .hundredPackets)
      [.enqueue 0 (ZombieQueueDisc.packetOfInvalidFlow 0)] ∧
    ¬ (DiscKind.es.rootMachine Ipv4QueueDiscItem).Along
      (RejectsCleanly DiscKind.es.kind) (doInitialize .hundredPackets)
      [.enqueue 0 (ZombieQueueDisc.packetOfInvalidFlow 0)] :=
  ⟨not_rejectsCleanly_invalidFlow .stabilizedRed, not_rejectsCleanly_invalidFlow .es⟩

end Root

end StabilizedRed
