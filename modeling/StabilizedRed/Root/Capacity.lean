import StabilizedRed.Root.Frame
import StabilizedRed.Disc.DropTail
import StabilizedRed.Disc.Zap

/-!
# The capacity check of the discs

`DoEnqueue` checks the capacity itself before it hands an item to the internal queue, so that the
queue never has to drop one. After warm-up it compares the occupancy with the limit and not with the
size of the item, which is too little for a limit in bytes. In warm-up it adds the bytes of the
item, which is too little for a limit in packets only if the sum wraps or the item is empty.
`Overruns` says when an item passes the check without room for it; `run_checksCapacity_iff`: no
other arrival is dropped by the internal queue.
-/

namespace StabilizedRed

namespace ZombieQueueDisc

variable {Z α : Type} [QueueDiscItem α] {K : ZombieKind Z} {now : Time} {flowID : Int32} {item : α}
  {d : ZombieQueueDisc Z α}

/-- The arrival passes the capacity check of the disc, and the internal queue has no room for it. -/
def Overruns (K : ZombieKind Z) (now : Time) (flowID : Int32) (item : α)
    (d : ZombieQueueDisc Z α) : Prop :=
  let capacity := d.queue.maxSize.value
  match d.queue.maxSize.unit with
  | .bytes => d.Full ∧ ¬ Zaps K now flowID d ∧ d.queue.nBytes < capacity ∧
      capacity < d.queue.nBytes + getSize item
  | .packets => ¬ d.Full ∧ d.queue.nPackets + getSize item ≤ capacity ∧
      capacity < d.queue.nPackets + 1

theorem add_one_le_of_lt {x y : UInt32} (h : x < y) : x + 1 ≤ y := by
  rw [UInt32.lt_iff_toNat_lt] at h
  have hy := y.toNat_lt
  rw [UInt32.le_iff_toNat_le, UInt32.toNat_add, Nat.mod_eq_of_lt (by simp; omega)]
  simpa using h

/-- `Overruns` says what it is meant to say. -/
theorem overruns_iff : Overruns K now flowID item d ↔
    d.dropReason K now flowID item = none ∧ ¬ d.queue.fits item := by
  rw [dropReason_eq_none_iff_hasRoom]
  unfold Overruns hasRoom Queue.fits Queue.getCurrentSize QueueSizeUnit.cost
  by_cases hf : d.Full
  · rw [if_pos hf]
    cases d.queue.maxSize.unit with
    | bytes =>
      simp only [hf, true_and, UInt32.not_le, and_assoc]
    | packets =>
      -- One more packet fits as long as the queue holds less than its limit.
      exact iff_of_false (fun h => h.1 hf) fun h => h.2 (add_one_le_of_lt h.1.2)
  · have hz : ¬ Zaps K now flowID d := fun h => hf h.1
    rw [if_neg hf]
    cases d.queue.maxSize.unit with
    | bytes => exact iff_of_false (fun h => hf h.1) fun h => h.2 h.1.2
    | packets => simp only [hf, hz, not_false_eq_true, true_and, UInt32.not_le]

theorem not_overruns_iff : ¬ Overruns K now flowID item d ↔
    (d.dropReason K now flowID item = none → d.queue.fits item) := by
  rw [overruns_iff, not_and_not_right]

theorem dropReason_mem {reason : String} (h : d.dropReason K now flowID item = some reason) :
    reason = "Zap" ∨ reason = "QUEUE_OVERFLOW" ∨ reason = "Overflow" := by
  unfold dropReason at h
  dsimp only at h
  split at h
  · split at h
    · exact .inl (Option.some.inj h).symm
    · split at h
      · cases h
      · exact .inr (.inr (Option.some.inj h).symm)
  · split at h
    · cases h
    · exact .inr (.inl (Option.some.inj h).symm)

end ZombieQueueDisc

/-! ## Drops by the internal queue -/

namespace QueueDisc

variable {α : Type} [QueueItem α] {d : QueueDisc α}

/-- The internal queue has dropped nothing. -/
def NoInternalDrop (d : QueueDisc α) : Prop :=
  d.stats.nDroppedPacketsBeforeEnqueue.lookup internalQueueDrop = none ∧
    d.stats.nDroppedPacketsAfterDequeue = []

omit [QueueItem α] in
theorem NoInternalDrop.getNDroppedPackets (h : d.NoInternalDrop) :
    d.stats.getNDroppedPackets internalQueueDrop = 0 := by
  unfold Stats.getNDroppedPackets
  rw [h.1, h.2]
  rfl

theorem NoInternalDrop.dropBeforeEnqueue (h : d.NoInternalDrop) (item : α) {reason : String}
    (hr : reason ≠ internalQueueDrop) : (d.dropBeforeEnqueue item reason).NoInternalDrop := by
  refine ⟨?_, h.2⟩
  rw [← h.1]
  exact ReasonMap.lookup_add_of_ne hr.symm 1 _

theorem NoInternalDrop.noteFlowID (h : d.NoInternalDrop) (item : α) (flowID : Int32) :
    (d.noteFlowID item flowID).NoInternalDrop := by
  unfold QueueDisc.noteFlowID
  split
  · exact h.dropBeforeEnqueue item (by decide)
  · exact h

/-- The internal queue drops nothing if it has room for what it is handed. -/
theorem NoInternalDrop.conclude (h : d.NoInternalDrop) {item : α} {reason : Option String}
    (hr : reason ≠ some internalQueueDrop) (hfits : reason = none → d.queue.fits item) :
    (d.conclude item reason).2.NoInternalDrop := by
  rcases d.conclude_cases item reason with ⟨-, -, he⟩ | ⟨hn, hf, -⟩ | ⟨r, rfl, he⟩
  · rw [he]
    exact h
  · exact absurd (hfits hn) hf
  · rw [he]
    exact h.dropBeforeEnqueue item fun hi => hr (congrArg some hi)

end QueueDisc

namespace Root

open ZombieQueueDisc (Configured configured_doInitialize Overruns)

variable {Z α : Type} [QueueDiscItem α] {K : ZombieKind Z} {a : Attributes α} {r : Root Z α}

/-- What the capacity check is to do at an arrival: the internal queue accepts an item that it is
handed; the disc itself drops an item that does not fit; and there are no drops by the internal
queue. -/
structure ChecksCapacity (K : ZombieKind Z) (r : Root Z α) (e : RootEvent α) : Prop where
  accepted : ∀ now item hash, e = .enqueue now item →
    ZombieQueueDisc.flowHash r.disc.toQueueDisc item = some hash →
    r.disc.dropReason K now hash.toInt32 item = none → (r.disc.enqueue K now item).1 = true
  own_drop : ∀ now item hash, e = .enqueue now item →
    ZombieQueueDisc.flowHash r.disc.toQueueDisc item = some hash → ¬ r.disc.queue.fits item →
    ∃ reason, (reason = "Zap" ∨ reason = "QUEUE_OVERFLOW" ∨ reason = "Overflow") ∧
      (next K r e).disc.dropTrace.getLast? = some (item, reason)
  no_internal :
    (next K r e).disc.stats.getNDroppedPackets QueueDisc.internalQueueDrop = 0

/-- A classified arrival does not pass the check of the disc without room for it. -/
def NoOverrun (K : ZombieKind Z) (r : Root Z α) (e : RootEvent α) : Prop :=
  ∀ now item hash, e = .enqueue now item →
    ZombieQueueDisc.flowHash r.disc.toQueueDisc item = some hash →
    ¬ Overruns K now hash.toInt32 item r.disc

/-- **Step lemma.** Without an overrun the internal queue drops nothing. -/
theorem next_noInternalDrop (hr : Configured a r.disc) (h0 : r.disc.NoInternalDrop)
    {e : RootEvent α} (he : NoOverrun K r e) : (next K r e).disc.NoInternalDrop := by
  rcases e.offered_cases with ho | ⟨now, item, rfl⟩
  · obtain ⟨b, hb, hq⟩ := next_of_offered_none (K := K) hr ho
    rw [hb]
    exact ⟨(congrArg (fun st : Stats => st.nDroppedPacketsBeforeEnqueue.lookup
        QueueDisc.internalQueueDrop) hq.stats).trans h0.1,
      (congrArg Stats.nDroppedPacketsAfterDequeue hq.stats).trans h0.2⟩
  · have hreceive : (r.disc.receive item).NoInternalDrop := h0
    show (r.disc.enqueue K now item).2.NoInternalDrop
    cases hc : ZombieQueueDisc.flowHash r.disc.toQueueDisc item with
    | none =>
      rw [ZombieQueueDisc.enqueue_of_noMatch hc]
      exact hreceive.dropBeforeEnqueue item (by decide)
    | some hash =>
      have hover := ZombieQueueDisc.not_overruns_iff.mp (he now item hash rfl hc)
      rw [ZombieQueueDisc.enqueue_eq hc]
      refine (hreceive.noteFlowID item hash.toInt32).conclude ?_ fun hn => ?_
      · intro hi
        rcases ZombieQueueDisc.dropReason_mem hi with h | h | h <;> revert h <;> decide
      · rw [r.disc.receive_noteFlowID_queue]
        exact hover hn

/-- **Step lemma.** The check does what it is to do exactly if the arrival does not overrun it. -/
theorem checksCapacity_iff (hr : Configured a r.disc) (h0 : r.disc.NoInternalDrop)
    (e : RootEvent α) : ChecksCapacity K r e ↔ NoOverrun K r e := by
  constructor
  · intro h now item hash he hc hover
    obtain ⟨hn, hf⟩ := ZombieQueueDisc.overruns_iff.mp hover
    exact hf (ZombieQueueDisc.fits_of_enqueue (h.accepted now item hash he hc hn))
  · intro h
    refine ⟨?_, ?_, (next_noInternalDrop hr h0 h).getNDroppedPackets⟩
    · intro now item hash he hc hn
      have hfits := ZombieQueueDisc.not_overruns_iff.mp (h now item hash he hc) hn
      exact ZombieQueueDisc.enqueue_eq_true_iff.mpr ⟨hash, hc, hn, hfits⟩
    · rintro now item hash rfl hc hf
      have hover := ZombieQueueDisc.not_overruns_iff.mp (h now item hash rfl hc)
      cases hd : r.disc.dropReason K now hash.toInt32 item with
      | none => exact absurd (hover hd) hf
      | some reason =>
        refine ⟨reason, ZombieQueueDisc.dropReason_mem hd, ?_⟩
        show (r.disc.enqueue K now item).2.dropTrace.getLast? = _
        rw [ZombieQueueDisc.enqueue_eq hc, hd]
        exact (congrArg List.getLast? (QueueDisc.conclude_dropTrace _ item _)).trans
          List.getLast?_concat

omit [QueueDiscItem α] in
theorem noInternalDrop_doInitialize (a : Attributes α) :
    (doInitialize a : Root Z α).disc.NoInternalDrop := ⟨rfl, rfl⟩

/-- **The capacity check is complete where no arrival overruns it.** In a run the internal queue
accepts all that it is handed, the disc itself drops all that does not fit, and there are no drops
by the internal queue, exactly if no arrival passes the check of the disc without room for it. -/
theorem run_checksCapacity_iff (k : DiscKind) (a : Attributes α) (es : List (RootEvent α)) :
    (k.rootMachine α).Along (ChecksCapacity k.kind) (doInitialize a) es ↔
      (k.rootMachine α).Along (NoOverrun k.kind) (doInitialize a) es :=
  Machine.along_congr (M := k.rootMachine α)
    (I := fun r => Configured a r.disc ∧ r.disc.NoInternalDrop)
    (fun _ e h => checksCapacity_iff h.1 h.2 e)
    (fun _ e h hc => ⟨next_configured h.1 e,
      next_noInternalDrop h.1 h.2 ((checksCapacity_iff h.1 h.2 e).mp hc)⟩)
    ⟨configured_doInitialize a, noInternalDrop_doInitialize a⟩ es

/-! ## An overrun -/

/-- A limit of 50 bytes. -/
def fiftyBytes : Attributes Ipv4QueueDiscItem :=
  { Attributes.plain with maxSize := { unit := .bytes, value := 50 }, maxSize_pos := by decide }

/-- With the draw `1 / 2`, simple SRED does not zap a hit: its probability is `3 / 20` at most. -/
theorem not_zaps_half {k : DiscKind} {d : ZombieQueueDisc k.Zombie Ipv4QueueDiscItem}
    (hs : ZombieQueueDisc.Steady fiftyBytes d) (hu : d.uv = .constant .half) {z : k.Zombie}
    (hz : d.sampled = some z) : ¬ ZombieQueueDisc.Zaps k.kind 0 (k.kind.flowID z) d := by
  rintro ⟨-, hlt⟩
  have hm : (d.sampleZombie k.kind 0 (k.kind.flowID z)).stabilizedRedMode = 1 := by
    rw [ZombieQueueDisc.sampleZombie_mode, hs.stabilizedRedMode]
    rfl
  have hmax : (d.sampleZombie k.kind 0 (k.kind.flowID z)).pMax = 3 / 20 := by
    rw [ZombieQueueDisc.sampleZombie_pMax, hs.pMax]
    rfl
  have hdraw : (d.sampleZombie k.kind 0 (k.kind.flowID z)).uv.getValue.1 = 1 / 2 := by
    rw [ZombieQueueDisc.sampleZombie_of_hit hz 0 rfl, hu]
    norm_num [UniformRandomVariable.getValue, UniformRandomVariable.getValueIn,
      UniformRandomVariable.advance, UniformRandomVariable.constant, U01.half]
  obtain ⟨q, hq, -, hle⟩ := ZombieQueueDisc.probabilityZap_simple_mem hm (by rw [hmax]; norm_num)
  rw [hq, ExtRat.fin_lt_fin, hdraw] at hlt
  rw [hmax] at hle
  linarith

/-- After warm-up with a packet of 40 bytes in a buffer of 50 bytes, one more passes the check. -/
theorem not_checksCapacity_of_oneFlow {k : DiscKind} {r : Root k.Zombie Ipv4QueueDiscItem}
    (hs : ZombieQueueDisc.Steady fiftyBytes r.disc) (hu : r.disc.uv = .constant .half)
    (hz : r.disc.zombies = List.replicate maxZombieListSize (k.kind.create
      (QueueDiscItem.hash (.tcp 0 49153 : Ipv4QueueDiscItem) 0).toInt32 0))
    (hq : r.disc.queue.packets = [.tcp 0 49153]) :
    ¬ ChecksCapacity k.kind r (.enqueue 0 (.tcp 0 49153)) := by
  obtain ⟨hf, hsampled⟩ := ZombieQueueDisc.sampled_of_replicate hz
  have hb : r.disc.queue.nBytes = 40 := by
    rw [hs.counted.nBytes, hq]
    decide
  have hc := ZombieQueueDisc.flowHash_of_filters_nil (b := r.disc.toQueueDisc) hs.filters
    (Ipv4QueueDiscItem.tcp 0 49153)
  have hzaps := not_zaps_half hs hu hsampled
  have hid : k.kind.flowID (k.kind.create (QueueDiscItem.hash (Ipv4QueueDiscItem.tcp 0 49153)
      0).toInt32 0) = (QueueDiscItem.hash (Ipv4QueueDiscItem.tcp 0 49153) 0).toInt32 := by
    cases k <;> rfl
  rw [hid] at hzaps
  have hroom : r.disc.hasRoom (Ipv4QueueDiscItem.tcp 0 49153) := by
    unfold ZombieQueueDisc.hasRoom Queue.getCurrentSize
    rw [if_pos hf, hs.maxSize]
    show r.disc.queue.nBytes < 50
    rw [hb]
    decide
  intro h
  have hfits := ZombieQueueDisc.fits_of_enqueue (h.accepted 0 _ _ rfl hc
    (ZombieQueueDisc.dropReason_eq_none_iff_hasRoom.mpr ⟨hzaps, hroom⟩))
  unfold Queue.fits Queue.getCurrentSize QueueSizeUnit.cost at hfits
  rw [hs.maxSize] at hfits
  have hfits : r.disc.queue.nBytes + getSize (Ipv4QueueDiscItem.tcp 0 49153) ≤ 50 := hfits
  rw [hb] at hfits
  revert hfits
  decide

/-- The arrivals that fill the zombie list, and one more. -/
def warmUpAndOneMore : List (RootEvent Ipv4QueueDiscItem) :=
  ZombieQueueDisc.oneFlow.map RootEvent.ofEvent ++ [.enqueue 0 (.tcp 0 49153)]

theorem not_checksCapacity_warmUpAndOneMore (k : DiscKind) :
    ¬ (k.rootMachine Ipv4QueueDiscItem).Along (ChecksCapacity k.kind) (doInitialize fiftyBytes)
      warmUpAndOneMore := by
  have hs := ZombieQueueDisc.run_steady k.kind fiftyBytes ZombieQueueDisc.oneFlow
  have hrun : ((k.rootMachine Ipv4QueueDiscItem).run (doInitialize fiftyBytes)
      (ZombieQueueDisc.oneFlow.map RootEvent.ofEvent)).disc =
      (k.machine Ipv4QueueDiscItem).run (ZombieQueueDisc.doInitialize fiftyBytes)
        ZombieQueueDisc.oneFlow := run_ofEvent k.kind _ _
  obtain ⟨hz, hq, -, -, hu⟩ := ZombieQueueDisc.run_oneFlow k (a := fiftyBytes) rfl (by decide)
    (by decide)
  generalize (k.machine Ipv4QueueDiscItem).run (ZombieQueueDisc.doInitialize fiftyBytes)
    ZombieQueueDisc.oneFlow = d at hs hz hq hu hrun
  subst hrun
  unfold warmUpAndOneMore
  rw [Machine.along_append]
  rintro ⟨-, h, -⟩
  exact not_checksCapacity_of_oneFlow hs hu hz hq h

/-- The internal queue drops it in either disc. -/
theorem internal_queue_drops :
    ¬ (DiscKind.stabilizedRed.rootMachine Ipv4QueueDiscItem).Along
      (ChecksCapacity DiscKind.stabilizedRed.kind) (doInitialize fiftyBytes) warmUpAndOneMore ∧
    ¬ (DiscKind.es.rootMachine Ipv4QueueDiscItem).Along
      (ChecksCapacity DiscKind.es.kind) (doInitialize fiftyBytes) warmUpAndOneMore :=
  ⟨not_checksCapacity_warmUpAndOneMore .stabilizedRed, not_checksCapacity_warmUpAndOneMore .es⟩

end Root

end StabilizedRed
