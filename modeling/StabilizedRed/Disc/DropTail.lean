import StabilizedRed.Disc.WarmUp

/-!
# The discs and a drop-tail queue

Without its zaps a disc should be a `DropTailQueue` of the same limit: `FollowsDropTail` compares
the disc after a run with a queue that is offered the arrivals that were not zapped (`offer`).

The disc makes a capacity test of its own before it hands an item to the internal queue, and this
test differs from the queue's. In warm-up it adds the bytes of the item to the number of packets if
the limit is in packets; afterwards it does not look at the item. `run_followsDropTail_iff`: a run
follows the drop-tail queue exactly as long as each item that the queue has room for passes the
disc's test. `along_testsAgree`: with a limit in bytes that no item makes wrap, each one does.
-/

namespace StabilizedRed

/-! ## A drop-tail queue under calls -/

/-- What a queue is asked to do. -/
inductive QueueCall (α : Type) where
  | enqueue (item : α)
  | dequeue

namespace Queue

variable {α : Type} [QueueItem α]

/-- A `DropTailQueue`, one call after the other; the output is the item that is dequeued. -/
def machine : Machine (Queue α) (QueueCall α) (Option α) where
  step q c :=
    match c with
    | .enqueue item => (none, (q.enqueue item).2.2)
    | .dequeue => (q.dequeue.1.map Prod.fst, q.dequeue.2)

@[simp] theorem next_enqueue (q : Queue α) (item : α) :
    machine.next q (.enqueue item) = (q.enqueue item).2.2 := rfl

@[simp] theorem next_dequeue (q : Queue α) : machine.next q .dequeue = q.dequeue.2 := rfl

theorem next_counted {q : Queue α} (h : q.Counted) (c : QueueCall α) :
    (machine.next q c).Counted ∧ (machine.next q c).maxSize = q.maxSize := by
  cases c with
  | enqueue item =>
    rw [next_enqueue]
    by_cases hf : q.fits item
    · rw [enqueue_of_fits hf]
      exact ⟨h.insertEnd item, rfl⟩
    · rw [enqueue_of_not_fits hf]
      exact ⟨h.dropBeforeEnqueue item, rfl⟩
  | dequeue =>
    rw [next_dequeue]
    rcases h.dequeue_cases with ⟨-, he⟩ | ⟨item, rest, hq, -, he⟩ <;> rw [he]
    · exact ⟨h, rfl⟩
    · exact ⟨h.eraseBegin hq, rfl⟩

theorem run_counted (maxSize : QueueSize) (cs : List (QueueCall α)) :
    (machine.run { maxSize := maxSize } cs).Counted ∧
      (machine.run { maxSize := maxSize } cs).maxSize = maxSize := by
  refine Machine.run_invariant' (I := fun q : Queue α => q.Counted ∧ q.maxSize = maxSize) ?_
    ⟨⟨rfl, rfl⟩, rfl⟩ cs
  rintro q c ⟨hq, hm⟩
  obtain ⟨hq', hm'⟩ := next_counted hq c
  exact ⟨hq', hm'.trans hm⟩

/-- Two queues with the same items and limit have the same counters. -/
theorem Counted.congr {q q' : Queue α} (h : q.Counted) (h' : q'.Counted)
    (hp : q.packets = q'.packets) : q.nPackets = q'.nPackets ∧ q.nBytes = q'.nBytes := by
  rw [h.nPackets, h'.nPackets, h.nBytes, h'.nBytes, hp]
  exact ⟨rfl, rfl⟩

/-- A drop-tail queue appends the item if it has room for it. -/
theorem enqueue_packets (q : Queue α) (item : α) :
    (q.enqueue item).2.2.packets = q.packets ++ if q.fits item then [item] else [] := by
  by_cases hf : q.fits item
  · rw [enqueue_of_fits hf, if_pos hf]
    rfl
  · rw [enqueue_of_not_fits hf, if_neg hf, List.append_nil]
    rfl

theorem fits_congr {q q' : Queue α} (h : q.Counted) (h' : q'.Counted)
    (hp : q.packets = q'.packets) (hm : q.maxSize = q'.maxSize) (item : α) :
    q.fits item ↔ q'.fits item := by
  obtain ⟨hn, hb⟩ := h.congr h' hp
  unfold fits getCurrentSize
  rw [hm, hn, hb]

end Queue

/-! ## The reasons of one call -/

namespace QueueDisc

variable {α : Type} [QueueItem α]

/-- The reasons of the drops between two states. -/
def newDropReasons (d d' : QueueDisc α) : List String :=
  (d'.dropTrace.drop d.dropTrace.length).map Prod.snd

theorem conclude_dropTrace (d : QueueDisc α) (item : α) (reason : Option String) :
    (d.conclude item reason).2.dropTrace = d.dropTrace ++ (match reason with
      | none => if d.queue.fits item then [] else [(item, internalQueueDrop)]
      | some r => [(item, r)]) := by
  rcases d.conclude_cases item reason with ⟨rfl, hf, h⟩ | ⟨rfl, hf, h⟩ | ⟨_, rfl, h⟩ <;> rw [h]
  · simp only [if_pos hf, List.append_nil]
    rfl
  · simp only [if_neg hf]
    rfl
  · rfl

theorem noteFlowID_dropTrace (d : QueueDisc α) (item : α) (flowID : Int32) :
    (d.noteFlowID item flowID).dropTrace =
      d.dropTrace ++ if flowID = -1 then [(item, "InvalidFlowID")] else [] := by
  unfold noteFlowID
  split
  · rfl
  · rw [List.append_nil]

end QueueDisc

/-- The item that a call returned from `Dequeue`. -/
def Result.dequeuedItem {α : Type} : Result α → Option α
  | .dequeued item => item
  | _ => none

namespace ZombieQueueDisc

open ExtRat (fin)

variable {Z α : Type} [QueueDiscItem α] {K : ZombieKind Z} {a : Attributes α}
  {d : ZombieQueueDisc Z α}

/-- The reasons of the drops that a call records. -/
def dropReasons (K : ZombieKind Z) (d : ZombieQueueDisc Z α) (e : Event α) : List String :=
  d.newDropReasons ((machine K).next d e).toQueueDisc

theorem dropReasons_enqueue (now : Time) (item : α) {hash : UInt32}
    (hc : flowHash d.toQueueDisc item = some hash) :
    dropReasons K d ⟨now, .enqueue item⟩ =
      (if hash.toInt32 = -1 then ["InvalidFlowID"] else []) ++
        match d.dropReason K now hash.toInt32 item with
        | none => if d.queue.fits item then [] else [QueueDisc.internalQueueDrop]
        | some r => [r] := by
  have hn := QueueDisc.noteFlowID_dropTrace (d.receive item) item hash.toInt32
  have ht := QueueDisc.conclude_dropTrace ((d.receive item).noteFlowID item hash.toInt32) item
    (d.dropReason K now hash.toInt32 item)
  rw [hn, List.append_assoc, QueueDisc.noteFlowID_queue] at ht
  unfold dropReasons QueueDisc.newDropReasons
  rw [next_enqueue, enqueue_eq hc]
  refine (congrArg (fun l => (List.drop d.dropTrace.length l).map Prod.snd) ht).trans ?_
  rw [show (d.receive item).dropTrace = d.dropTrace from rfl, List.drop_left, List.map_append]
  congr 1
  · split <;> rfl
  · cases d.dropReason K now hash.toInt32 item with
    | none =>
      simp only [show (d.receive item).queue = d.queue from rfl]
      split <;> rfl
    | some r => rfl

/-- A classified arrival is dropped with reason `"Zap"` exactly if that is the decision. -/
theorem zap_mem_dropReasons {now : Time} {item : α} {hash : UInt32}
    (hc : flowHash d.toQueueDisc item = some hash) :
    "Zap" ∈ dropReasons K d ⟨now, .enqueue item⟩ ↔
      d.dropReason K now hash.toInt32 item = some "Zap" := by
  have hinv : "Zap" ∉ if hash.toInt32 = -1 then ["InvalidFlowID"] else [] := by split <;> decide
  rw [dropReasons_enqueue now item hc, List.mem_append, or_iff_right hinv]
  generalize d.dropReason K now hash.toInt32 item = reason
  cases reason with
  | none =>
    dsimp only
    split <;> decide
  | some r => simp [eq_comm]

/-! ## The two tests -/

/-- The capacity test that the disc makes of an item itself. -/
def hasRoom (d : ZombieQueueDisc Z α) (item : α) : Prop :=
  if d.Full then d.queue.getCurrentSize.value < d.queue.maxSize.value
  else d.queue.getCurrentSize.value + getSize item ≤ d.queue.maxSize.value

/-- An arrival that is not zapped is handed to the internal queue if it passes the disc's test. -/
theorem dropReason_eq_none_iff {now : Time} {item : α} {flowID : Int32}
    (hz : d.dropReason K now flowID item ≠ some "Zap") :
    d.dropReason K now flowID item = none ↔ d.hasRoom item := by
  have hz' := fun h => hz (dropReason_eq_zap_iff.mpr h)
  unfold dropReason hasRoom
  by_cases hf : d.Full
  · have hnz := fun h => hz' ⟨hf, h⟩
    rw [if_pos hf, if_pos hf]
    simp only [if_neg hnz]
    split
    · exact iff_of_true rfl ‹_›
    · exact iff_of_false nofun ‹_›
  · rw [if_neg hf, if_neg hf]
    split
    · exact iff_of_true rfl ‹_›
    · exact iff_of_false nofun ‹_›

/-- The arrival is compared with a zombie and zapped. -/
def Zaps (K : ZombieKind Z) (now : Time) (flowID : Int32) (d : ZombieQueueDisc Z α) : Prop :=
  d.Full ∧ fin (d.sampleZombie K now flowID).uv.getValue.1 <
    (d.sampleZombie K now flowID).probabilityZap

theorem dropReason_eq_zap_iff_zaps {now : Time} {flowID : Int32} {item : α} :
    d.dropReason K now flowID item = some "Zap" ↔ Zaps K now flowID d := dropReason_eq_zap_iff

/-- The disc hands an item over if it does not zap it and its own check lets it pass. -/
theorem dropReason_eq_none_iff_hasRoom {now : Time} {flowID : Int32} {item : α} :
    d.dropReason K now flowID item = none ↔ ¬ Zaps K now flowID d ∧ d.hasRoom item := by
  by_cases hz : d.dropReason K now flowID item = some "Zap"
  · rw [hz]
    exact iff_of_false nofun fun h => h.1 (dropReason_eq_zap_iff_zaps.mp hz)
  · rw [dropReason_eq_none_iff hz]
    exact ⟨fun h => ⟨fun hzaps => hz (dropReason_eq_zap_iff_zaps.mpr hzaps), h⟩, And.right⟩

/-- The disc's test lets the item pass if the internal queue has room for it. Nothing is asked for
an arrival that is zapped. -/
def TestsAgree (K : ZombieKind Z) (d : ZombieQueueDisc Z α) (e : Event α) : Prop :=
  ∀ item hash, e.call = .enqueue item → flowHash d.toQueueDisc item = some hash →
    ¬ Zaps K e.now hash.toInt32 d → d.queue.fits item → d.hasRoom item

/-! ## When the tests agree -/

/-- In warm-up with a limit in bytes the two tests are the same. -/
theorem hasRoom_iff_fits (hf : ¬ d.Full) (hu : d.queue.maxSize.unit = .bytes) (item : α) :
    d.hasRoom item ↔ d.queue.fits item := by
  unfold hasRoom Queue.fits
  rw [if_neg hf, hu]
  rfl

/-- After warm-up the tests agree unless the sum of the queue's test wraps. -/
theorem hasRoom_of_full (hf : d.Full) {item : α} (hpos : 0 < d.queue.maxSize.unit.cost item)
    (hw : d.queue.getCurrentSize.value.toNat + (d.queue.maxSize.unit.cost item).toNat < 2 ^ 32)
    (hfits : d.queue.fits item) : d.hasRoom item := by
  unfold Queue.fits at hfits
  unfold hasRoom
  rw [if_pos hf, UInt32.lt_iff_toNat_lt]
  rw [UInt32.le_iff_toNat_le, UInt32.toNat_add, Nat.mod_eq_of_lt hw] at hfits
  rw [UInt32.lt_iff_toNat_lt, UInt32.toNat_zero] at hpos
  omega

/-- In warm-up with a limit in packets the disc drops an item that the queue has room for exactly if
its bytes and the packets together exceed the limit. -/
theorem not_hasRoom_iff (hf : ¬ d.Full) {item : α} :
    ¬ d.hasRoom item ↔ d.queue.maxSize.value < d.queue.getCurrentSize.value + getSize item := by
  unfold hasRoom
  rw [if_neg hf, UInt32.not_le]

/-- An arrival that the limit does not make wrap. -/
def NoWrap (a : Attributes α) (e : Event α) : Prop :=
  ∀ item, e.call = .enqueue item →
    0 < getSize item ∧ a.maxSize.value.toNat + (getSize item).toNat < 2 ^ 32

theorem toNat_nBytes (hs : Steady a d)
    (hb : Queue.bytes d.queue.packets ≤ a.maxSize.value.toNat) :
    d.queue.nBytes.toNat = Queue.bytes d.queue.packets := by
  rw [hs.counted.nBytes]
  exact UInt32.toNat_ofNat_of_lt' (hb.trans_lt a.maxSize.value.toNat_lt)

/-- With a limit in bytes the bytes of the queue stay within it. -/
theorem next_bytes_le (hs : Steady a d) (hu : a.maxSize.unit = .bytes)
    (hb : Queue.bytes d.queue.packets ≤ a.maxSize.value.toNat) {e : Event α} (he : NoWrap a e) :
    Queue.bytes ((machine K).next d e).queue.packets ≤ a.maxSize.value.toNat := by
  have hn := toNat_nBytes hs hb
  obtain ⟨now, c⟩ := e
  cases c with
  | enqueue item =>
    obtain ⟨-, hlt⟩ := he item rfl
    rw [next_enqueue, enqueue_packets, Queue.bytes_append]
    split
    · have hfits := fits_of_enqueue ‹_›
      unfold Queue.fits Queue.getCurrentSize at hfits
      rw [hs.maxSize, hu] at hfits
      have hfits : d.queue.nBytes + getSize item ≤ a.maxSize.value := hfits
      rw [UInt32.le_iff_toNat_le, UInt32.toNat_add, hn, Nat.mod_eq_of_lt (by omega)] at hfits
      exact hfits
    · exact hb
  | dequeue =>
    rw [next_dequeue]
    rcases hs.dequeue_cases with ⟨-, hd⟩ | ⟨item, rest, hq, -, hd⟩ <;> rw [hd]
    · exact hb
    · rw [hq, Queue.bytes_cons] at hb
      exact (Nat.le_add_left _ _).trans hb
  | peek => exact hb

/-- **With a limit in bytes that no item makes wrap the tests agree.** -/
theorem along_testsAgree (k : DiscKind) (hu : a.maxSize.unit = .bytes) {es : List (Event α)}
    (he : ∀ e ∈ es, NoWrap a e) :
    (k.machine α).Along (TestsAgree k.kind) (doInitialize a) es := by
  refine Machine.along_of_invariant (Q := NoWrap a)
    (I := fun d => Steady a d ∧ Queue.bytes d.queue.packets ≤ a.maxSize.value.toNat)
    ?_ (fun d e ⟨hs, hb⟩ he => ⟨hs.next e, next_bytes_le hs hu hb he⟩)
    ⟨steady_doInitialize a, Nat.zero_le _⟩ he
  rintro d e ⟨hs, hb⟩ he item hash hcall - - hfits
  obtain ⟨hpos, hlt⟩ := he item hcall
  have hun : d.queue.maxSize.unit = .bytes := by rw [hs.maxSize, hu]
  by_cases hf : d.Full
  · refine hasRoom_of_full hf (by rw [hun]; exact hpos) ?_ hfits
    have hn := toNat_nBytes hs hb
    unfold Queue.getCurrentSize
    rw [hun]
    show d.queue.nBytes.toNat + (getSize item).toNat < 2 ^ 32
    omega
  · exact (hasRoom_iff_fits hf hun item).mpr hfits

/-! ## Following the drop-tail queue -/

/-- What the drop-tail queue is asked to do at a call: arrivals that are zapped are left out. -/
def offer (K : ZombieKind Z) (d : ZombieQueueDisc Z α) (e : Event α) : Option (QueueCall α) :=
  match e.call with
  | .enqueue item => if "Zap" ∈ dropReasons K d e then none else some (.enqueue item)
  | .dequeue => some .dequeue
  | .peek => none

/-- What the drop-tail queue is asked to do in the run `es`. -/
def offered (K : ZombieKind Z) (a : Attributes α) (es : List (Event α)) : List (QueueCall α) :=
  (machine K).observe (offer K) (doInitialize a) es

/-- After the calls `es` the internal queue and the items dequeued so far are those of a drop-tail
queue that was offered the same arrivals without the zapped ones. -/
structure FollowsDropTail (K : ZombieKind Z) (a : Attributes α) (es : List (Event α)) : Prop where
  contents : ((machine K).run (doInitialize a) es).queue.packets =
    (Queue.machine.run { maxSize := a.maxSize } (offered K a es)).packets
  dequeued : ((machine K).outputs (doInitialize a) es).filterMap Result.dequeuedItem =
    (Queue.machine.outputs { maxSize := a.maxSize } (offered K a es)).reduceOption

theorem offered_concat (K : ZombieKind Z) (a : Attributes α) (es : List (Event α)) (e : Event α) :
    offered K a (es ++ [e]) =
      offered K a es ++ (offer K ((machine K).run (doInitialize a) es) e).toList := by
  unfold offered
  rw [Machine.observe_append, Machine.observe_cons, Machine.observe_nil, List.append_nil]

/-- An arrival of the call is classified: there are no filters, or one of them matches. -/
def Classified (filters : List (PacketFilter α)) (e : Event α) : Prop :=
  ∀ item, e.call = .enqueue item →
    filters = [] ∨ PacketFilter.classifyAll filters item ≠ PacketFilter.noMatch

theorem exists_flowHash {d : QueueDisc α} {e : Event α} (h : Classified d.filters e) {item : α}
    (he : e.call = .enqueue item) : ∃ hash, flowHash d item = some hash := by
  unfold flowHash
  split
  · exact ⟨_, rfl⟩
  · rcases h item he with hf | hf
    · exact absurd (congrArg List.length hf) ‹_›
    · exact ⟨_, if_pos hf⟩

/-- An arrival that is not zapped is taken in exactly if both tests let it pass. -/
theorem enqueue_eq_true_iff_hasRoom {now : Time} {item : α} {hash : UInt32}
    (hh : flowHash d.toQueueDisc item = some hash)
    (hnz : d.dropReason K now hash.toInt32 item ≠ some "Zap") :
    (d.enqueue K now item).1 = true ↔ d.hasRoom item ∧ d.queue.fits item := by
  rw [enqueue_eq_true_iff]
  constructor
  · rintro ⟨hash', hh', hn, hf⟩
    obtain rfl : hash = hash' := Option.some.inj (hh.symm.trans hh')
    exact ⟨(dropReason_eq_none_iff hnz).mp hn, hf⟩
  · rintro ⟨hr, hf⟩
    exact ⟨hash, hh, (dropReason_eq_none_iff hnz).mpr hr, hf⟩

theorem enqueue_of_zap {now : Time} {item : α} {hash : UInt32}
    (hh : flowHash d.toQueueDisc item = some hash)
    (hz : d.dropReason K now hash.toInt32 item = some "Zap") :
    ¬ (d.enqueue K now item).1 = true := by
  rw [enqueue_eq_true_iff]
  rintro ⟨hash', hh', hn, -⟩
  obtain rfl : hash = hash' := Option.some.inj (hh.symm.trans hh')
  rw [hz] at hn
  cases hn

section Step

variable {q : Queue α}

/-- From equal contents, an arrival keeps them equal exactly if the tests agree. -/
theorem next_follows_enqueue (hs : Steady a d) (hq : q.Counted) (hm : q.maxSize = a.maxSize)
    (hp : d.queue.packets = q.packets) {now : Time} {item : α}
    (hc : Classified a.filters ⟨now, .enqueue item⟩) :
    (d.enqueue K now item).2.queue.packets =
        (Queue.machine.run q (offer K d ⟨now, .enqueue item⟩).toList).packets ↔
      TestsAgree K d ⟨now, .enqueue item⟩ := by
  have hfits := Queue.fits_congr hs.counted hq hp (hs.maxSize.trans hm.symm) item
  rw [← hs.filters] at hc
  obtain ⟨hash, hh⟩ := exists_flowHash hc rfl
  rw [enqueue_packets, hp]
  by_cases hz : "Zap" ∈ dropReasons K d ⟨now, .enqueue item⟩
  · -- A zapped arrival is offered to neither queue.
    have ho : offer K d ⟨now, .enqueue item⟩ = none := if_pos hz
    rw [ho, if_neg (enqueue_of_zap hh ((zap_mem_dropReasons hh).mp hz)), List.append_nil]
    refine iff_of_true rfl ?_
    rintro _ hash' ⟨⟩ hh' hnz
    obtain rfl : hash = hash' := Option.some.inj (hh.symm.trans hh')
    exact absurd (dropReason_eq_zap_iff_zaps.mp ((zap_mem_dropReasons hh).mp hz)) hnz
  · have htake : (d.enqueue K now item).1 = true ↔ d.hasRoom item ∧ d.queue.fits item :=
      enqueue_eq_true_iff_hasRoom hh fun hr => hz ((zap_mem_dropReasons hh).mpr hr)
    have ho : offer K d ⟨now, .enqueue item⟩ = some (.enqueue item) := if_neg hz
    have hagree : TestsAgree K d ⟨now, .enqueue item⟩ ↔ (d.queue.fits item → d.hasRoom item) := by
      refine ⟨fun h => h item hash rfl hh fun hzaps => hz ?_, ?_⟩
      · exact (zap_mem_dropReasons hh).mpr (dropReason_eq_zap_iff_zaps.mpr hzaps)
      · rintro h _ _ ⟨⟩ - -
        exact h
    rw [hagree, ho, Option.toList_some, Machine.run_cons, Machine.run_nil, Queue.next_enqueue,
      Queue.enqueue_packets, List.append_cancel_left_eq]
    by_cases hf : d.queue.fits item
    · rw [if_pos (hfits.mp hf)]
      by_cases hr : d.hasRoom item
      · rw [if_pos (htake.mpr ⟨hr, hf⟩)]
        exact iff_of_true rfl fun _ => hr
      · rw [if_neg fun ht => hr (htake.mp ht).1]
        exact iff_of_false (List.cons_ne_nil _ _).symm fun h => hr (h hf)
    · rw [if_neg fun h => hf (hfits.mpr h), if_neg fun ht => hf (htake.mp ht).2]
      exact iff_of_true rfl fun h => absurd h hf

/-- From equal contents, the same item is dequeued. -/
theorem next_follows_dequeue (hs : Steady a d) (hq : q.Counted)
    (hp : d.queue.packets = q.packets) :
    d.dequeue.2.queue.packets = q.dequeue.2.packets ∧
      d.dequeue.1 = q.dequeue.1.map Prod.fst := by
  obtain ⟨hn, -⟩ := hs.counted.congr hq hp
  rcases hs.dequeue_cases with ⟨h0, he⟩ | ⟨item, rest, hl, h0, he⟩
  · rcases hq.dequeue_cases with ⟨-, he'⟩ | ⟨_, _, -, h0', -⟩
    · rw [he, he']
      exact ⟨hp, rfl⟩
    · exact absurd (hn ▸ h0) h0'
  · rcases hq.dequeue_cases with ⟨h0', -⟩ | ⟨item', rest', hl', -, he'⟩
    · exact absurd (hn.trans h0') h0
    · obtain ⟨rfl, rfl⟩ : item = item' ∧ rest = rest' := by
        rw [← List.cons.injEq, ← hl, ← hl', hp]
      rw [he, he']
      exact ⟨rfl, rfl⟩

/-- **Step lemma.** From equal contents, the contents stay equal exactly if the tests agree. The
item that is dequeued is the same anyway. -/
theorem next_follows (hs : Steady a d) (hq : q.Counted) (hm : q.maxSize = a.maxSize)
    (hp : d.queue.packets = q.packets) {e : Event α} (hc : Classified a.filters e) :
    (((machine K).next d e).queue.packets =
        (Queue.machine.run q (offer K d e).toList).packets ↔ TestsAgree K d e) ∧
      ((machine K).out d e).dequeuedItem.toList =
        (Queue.machine.outputs q (offer K d e).toList).reduceOption := by
  obtain ⟨now, c⟩ := e
  cases c with
  | enqueue item =>
    refine ⟨next_follows_enqueue hs hq hm hp hc, ?_⟩
    unfold offer
    dsimp only
    split <;> rfl
  | dequeue =>
    obtain ⟨hpackets, hitem⟩ := next_follows_dequeue hs hq hp
    refine ⟨iff_of_true hpackets fun _ _ => nofun, ?_⟩
    show d.dequeue.1.toList = [q.dequeue.1.map Prod.fst].reduceOption
    rw [hitem]
    cases q.dequeue.1 <;> rfl
  | peek => exact ⟨iff_of_true hp fun _ _ => nofun, rfl⟩

end Step

/-- As long as the contents are the same, one more call keeps them so exactly if the tests agree. -/
theorem followsDropTail_concat_iff {es : List (Event α)} (hf : FollowsDropTail K a es)
    {e : Event α} (hc : Classified a.filters e) : FollowsDropTail K a (es ++ [e]) ↔
      TestsAgree K ((machine K).run (doInitialize a) es) e := by
  obtain ⟨hq, hm⟩ := Queue.run_counted a.maxSize (offered K a es)
  obtain ⟨hiff, hout⟩ := next_follows (K := K) (run_steady K a es) hq hm hf.contents hc
  have hcontents : ((machine K).run (doInitialize a) (es ++ [e])).queue.packets =
      (Queue.machine.run { maxSize := a.maxSize } (offered K a (es ++ [e]))).packets ↔
      TestsAgree K ((machine K).run (doInitialize a) es) e := by
    rw [offered_concat, Machine.run_append, Machine.run_append]
    exact hiff
  refine ⟨fun h => hcontents.mp h.contents, fun h => ⟨hcontents.mpr h, ?_⟩⟩
  rw [offered_concat, Machine.outputs_append, Machine.outputs_append, List.filterMap_append,
    List.reduceOption_append, ← hf.dequeued, ← hout, Machine.outputs_cons, Machine.outputs_nil]
  congr 1

/-- **Following a drop-tail queue.** At every point of a run the internal queue and the dequeued
items are those of the drop-tail queue exactly if the two tests agree on each arrival that is not
zapped. -/
theorem run_followsDropTail_iff (k : DiscKind) (a : Attributes α) (es : List (Event α))
    (hc : ∀ e ∈ es, Classified a.filters e) :
    (∀ es', es' <+: es → FollowsDropTail k.kind a es') ↔
      (k.machine α).Along (TestsAgree k.kind) (doInitialize a) es := by
  induction es using List.reverseRecOn with
  | nil =>
    refine iff_of_true (fun es' h => ?_) trivial
    rw [List.prefix_nil.mp h]
    exact ⟨rfl, rfl⟩
  | append_singleton es e ih =>
    have ih := ih fun x hx => hc x (by simp [hx])
    rw [Machine.along_append, ← ih]
    constructor
    · intro h
      have hpre : ∀ es', es' <+: es → FollowsDropTail k.kind a es' := fun es' h' =>
        h es' (h'.trans (List.prefix_append es [e]))
      have hlast := h _ List.prefix_rfl
      rw [followsDropTail_concat_iff (hpre es List.prefix_rfl) (hc e (by simp))] at hlast
      exact ⟨hpre, hlast, trivial⟩
    · rintro ⟨hpre, hlast, -⟩ es' h'
      rcases List.prefix_concat_iff.mp h' with rfl | h'
      · exact (followsDropTail_concat_iff (hpre es List.prefix_rfl) (hc e (by simp))).mpr hlast
      · exact hpre es' h'

/-- Through warm-up, with its drops, and a hit, a miss, an overwrite and a dequeue on the full list,
the disc follows a drop-tail queue of 40 bytes. -/
theorem run_followsDropTail_iff_hitAndMiss :
    FollowsDropTail DiscKind.es.kind alwaysOverwrite oneFlow ∧
      FollowsDropTail DiscKind.es.kind alwaysOverwrite
        (hitAndMiss 2000000000 (.tcp 0 49153) (.tcp 0 49154)) := by
  have h := (run_followsDropTail_iff .es alwaysOverwrite
    (hitAndMiss 2000000000 (.tcp 0 49153) (.tcp 0 49154)) fun _ _ _ _ => .inl rfl).mpr
    (along_testsAgree .es rfl fun e he item hcall => by
      rcases offered_of_mem_hitAndMiss he hcall with rfl | rfl <;> decide)
  exact ⟨h _ (List.prefix_append _ _), h _ List.prefix_rfl⟩

/-- With the default limit of 25 packets, a first packet of 1500 bytes is dropped: the disc compares
`0 + 1500` with `25`. -/
theorem not_followsDropTail_firstPacket (k : DiscKind) :
    ¬ FollowsDropTail k.kind .plain [⟨0, .enqueue (.tcp 1460 49153)⟩] := by
  intro h
  have := h.contents
  cases k <;> revert this <;> decide

/-- It is dropped in either disc. -/
theorem warmUp_drops_packet :
    ¬ FollowsDropTail DiscKind.stabilizedRed.kind .plain [⟨0, .enqueue (.tcp 1460 49153)⟩] ∧
    ¬ FollowsDropTail DiscKind.es.kind .plain [⟨0, .enqueue (.tcp 1460 49153)⟩] :=
  ⟨not_followsDropTail_firstPacket .stabilizedRed, not_followsDropTail_firstPacket .es⟩

end ZombieQueueDisc

end StabilizedRed
