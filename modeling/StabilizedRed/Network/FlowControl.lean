import StabilizedRed.Network.Queue
import StabilizedRed.Network.Device
import StabilizedRed.Network.DynamicQueueLimits
import StabilizedRed.Lib.Machine

/-!
# Flow control of a transmission queue (`network/utils/net-device-queue-interface.h`)

A device that supports flow control connects the trace sources of its queue to a `NetDeviceQueue`.
An enqueue stops the transmission queue if another packet might not fit, a dequeue wakes it once it
would, and both report the bytes to the queue limits, if there are any. Each method here gives the
changes of the transmission queue, in order; `requestsRun` says which of them schedule a run of the
queue disc.

`TxQueue` is a transmission queue with dynamic queue limits under reports in any order. Its limits
work as if the totals did not wrap (`TxQueue.run_totals`), what the device holds is bounded, and a
queue that the limits have stopped is released by completions alone (`TxQueue.run_bounded`).
-/

namespace StabilizedRed

/-- `QueueBase::WouldOverflow`. -/
def Queue.wouldOverflow {α : Type} (q : Queue α) (nPackets nBytes : UInt32) : Bool :=
  match q.maxSize.unit with
  | .packets => decide (q.maxSize.value < q.nPackets + nPackets)
  | .bytes => decide (q.maxSize.value < q.nBytes + nBytes)

namespace NetDeviceQueue

/-- The change schedules a call of the wake callback, which runs the queue disc. -/
def requestsRun (q : NetDeviceQueue) : Change → Bool
  | .wake => q.stoppedByDevice
  | .release => q.stoppedByQueueLimits
  | _ => false

/-- `NotifyQueuedBytes`. -/
def notifyQueuedBytes (bytes : UInt32) :
    Option DynamicQueueLimits → List Change × Option DynamicQueueLimits
  | none => ([], none)
  | some queueLimits =>
    let queueLimits := queueLimits.queued bytes
    (if 0 ≤ queueLimits.available then [] else [.limit], some queueLimits)

/-- `NotifyTransmittedBytes`. -/
def notifyTransmittedBytes (now : Time) (bytes : UInt32) :
    Option DynamicQueueLimits → List Change × Option DynamicQueueLimits
  | none => ([], none)
  | some queueLimits =>
    if bytes = 0 then ([], some queueLimits)
    else
      let queueLimits := queueLimits.completed now bytes
      (if queueLimits.available < 0 then [] else [.release], some queueLimits)

variable {α : Type} [QueueItem α]

/-- `PacketEnqueued`, on a device with the given MTU. -/
def packetEnqueued (mtu : UInt16) (queue : Queue α) (item : α)
    (queueLimits : Option DynamicQueueLimits) : List Change × Option DynamicQueueLimits :=
  let (changes, queueLimits) := notifyQueuedBytes (getSize item) queueLimits
  (changes ++ if queue.wouldOverflow 1 mtu.toUInt32 then [.stop] else [], queueLimits)

/-- `PacketDequeued`. -/
def packetDequeued (now : Time) (mtu : UInt16) (queue : Queue α) (item : α)
    (queueLimits : Option DynamicQueueLimits) : List Change × Option DynamicQueueLimits :=
  let (changes, queueLimits) := notifyTransmittedBytes now (getSize item) queueLimits
  (changes ++ if queue.wouldOverflow 1 mtu.toUInt32 then [] else [.wake], queueLimits)

/-- `PacketDiscarded`, which logs a bug. -/
def packetDiscarded (queueLimits : Option DynamicQueueLimits) :
    List Change × Option DynamicQueueLimits := ([.stop], queueLimits)

/-- The methods that `ConnectQueueTraces` connects to the trace sources of the device's queue. -/
def queueTrace (now : Time) (mtu : UInt16) (queue : Queue α)
    (queueLimits : Option DynamicQueueLimits) :
    QueueTrace α → List Change × Option DynamicQueueLimits
  | .enqueue item => packetEnqueued mtu queue item queueLimits
  | .dequeue item => packetDequeued now mtu queue item queueLimits
  | .dropBeforeEnqueue _ => packetDiscarded queueLimits

end NetDeviceQueue

/-- The queue after the changes, and how many runs of the queue disc they schedule. -/
def NetDeviceQueue.perform (q : NetDeviceQueue) : List Change → ℕ × NetDeviceQueue
  | [] => (0, q)
  | c :: cs =>
    let (runs, q') := (q.apply c).perform cs
    ((if q.requestsRun c then 1 else 0) + runs, q')

/-! ## A transmission queue with dynamic queue limits -/

/-- A transmission queue with its queue limits. -/
structure TxQueue (Λ : Type) where
  queue : NetDeviceQueue := {}
  queueLimits : Λ

namespace TxQueue

/-- The calls of the methods of a transmission queue. -/
inductive Event where
  | stop
  | start
  | wake
  | notifyQueuedBytes (bytes : UInt32)
  | notifyTransmittedBytes (now : Time) (bytes : UInt32)

/-- What a call does to the queue and to its limits. -/
def effect (queueLimits : Option DynamicQueueLimits) :
    Event → List NetDeviceQueue.Change × Option DynamicQueueLimits
  | .stop => ([.stop], queueLimits)
  | .start => ([.start], queueLimits)
  | .wake => ([.wake], queueLimits)
  | .notifyQueuedBytes bytes => NetDeviceQueue.notifyQueuedBytes bytes queueLimits
  | .notifyTransmittedBytes now bytes => NetDeviceQueue.notifyTransmittedBytes now bytes queueLimits

open DynamicQueueLimits (Totals)
open DynamicQueueLimits.Totals (maxLimit_add_dqlMaxObject)

/-- The same on totals without a bound. -/
def totalsEffect (a : DynamicQueueLimits.Attributes) (totals : Totals) :
    Event → List NetDeviceQueue.Change × Totals
  | .stop => ([.stop], totals)
  | .start => ([.start], totals)
  | .wake => ([.wake], totals)
  | .notifyQueuedBytes bytes =>
    let totals := totals.queued bytes.toNat
    (if 0 ≤ totals.available then [] else [.limit], totals)
  | .notifyTransmittedBytes now bytes =>
    if bytes = 0 then ([], totals)
    else
      let totals := totals.completed a now bytes.toNat
      (if totals.available < 0 then [] else [.release], totals)

/-- A transmission queue with limits `Λ` under calls; the output is the number of runs of the queue
disc that the call schedules. -/
def machine {Λ : Type} (effect : Λ → Event → List NetDeviceQueue.Change × Λ) :
    Machine (TxQueue Λ) Event ℕ where
  step q e :=
    let (changes, queueLimits) := effect q.queueLimits e
    let (runs, queue) := q.queue.perform changes
    (runs, { queue := queue, queueLimits := queueLimits })

/-- What the callers of a transmission queue keep to, and what its assertions demand: nothing is
queued while the limits have stopped it, an object has `DQL_MAX_OBJECT` bytes at most, and no more
is completed than is in the device, and less than `2 ^ 30` bytes at once. -/
def Obeys (q : TxQueue (Option DynamicQueueLimits)) : Event → Prop
  | .notifyQueuedBytes bytes =>
    q.queue.stoppedByQueueLimits = false ∧ DynamicQueueLimits.QueuedAsserts bytes
  | .notifyTransmittedBytes _ bytes =>
    bytes.toNat < 2 ^ 30 ∧ ∀ l ∈ q.queueLimits, DynamicQueueLimits.CompletedAsserts bytes l
  | _ => True

/-- The object stands for sound totals, and what the limits have stopped is over the limit. -/
structure Stands (a : DynamicQueueLimits.Attributes) (q : TxQueue (Option DynamicQueueLimits))
    (t : TxQueue Totals) : Prop where
  queue : q.queue = t.queue
  words : q.queueLimits = some (t.queueLimits.words a)
  sound : Totals.Sound a t.queueLimits
  held : t.queueLimits.inFlight ≤ a.maxLimit.toNat + t.queueLimits.lastObjCnt
  stopped : t.queue.stoppedByQueueLimits = true → t.queueLimits.available < 0
  passing : t.queue.stoppedByQueueLimits = false → t.queueLimits.inFlight ≤ a.maxLimit.toNat

variable {a : DynamicQueueLimits.Attributes} {T : Totals}

theorem available_nonneg_words (h : Totals.Sound a T) :
    0 ≤ (T.words a).available ↔ 0 ≤ T.available := by
  rw [Int32.le_iff_toInt_le, Int32.toInt_zero, h.available_words]

theorem available_neg_words (h : Totals.Sound a T) :
    (T.words a).available < 0 ↔ T.available < 0 := by
  rw [Int32.lt_iff_toInt_lt, Int32.toInt_zero, h.available_words]

/-- `NotifyQueuedBytes` in words and on the totals. -/
theorem notifyQueuedBytes_words {bytes : UInt32} (h : Totals.Sound a (T.queued bytes.toNat)) :
    NetDeviceQueue.notifyQueuedBytes bytes (some (T.words a)) =
      (if 0 ≤ (T.queued bytes.toNat).available then [] else [.limit],
        some ((T.queued bytes.toNat).words a)) := by
  have hw : (T.words a).queued bytes = (T.queued bytes.toNat).words a := by
    rw [← DynamicQueueLimits.Totals.queued_words, UInt32.ofNat_toNat]
  unfold NetDeviceQueue.notifyQueuedBytes
  simp only [hw, available_nonneg_words h]

/-- `NotifyTransmittedBytes` in words and on the totals, if there is something to report. -/
theorem notifyTransmittedBytes_words (h : Totals.Sound a T) (now : Time) {bytes : UInt32}
    (h0 : bytes ≠ 0) (hlt : bytes.toNat < 2 ^ 30) (hle : bytes.toNat ≤ T.inFlight) :
    NetDeviceQueue.notifyTransmittedBytes now bytes (some (T.words a)) =
      (if (T.completed a now bytes.toNat).available < 0 then [] else [.release],
        some ((T.completed a now bytes.toNat).words a)) := by
  have hw : (T.words a).completed now bytes = (T.completed a now bytes.toNat).words a := by
    rw [← h.completed_words now hle hlt, UInt32.ofNat_toNat]
  unfold NetDeviceQueue.notifyTransmittedBytes
  simp only [if_neg h0, hw, available_neg_words (h.completed now hle)]

/-- What the device holds, as the object computes it. -/
theorem inFlight_words (h : Totals.Sound a T) :
    ((T.words a).numQueued - (T.words a).numCompleted).toNat = T.inFlight := by
  have hlt := h.inFlight_lt
  unfold Totals.inFlight at hlt ⊢
  exact Serial.toNat_sub_ofNat h.completed_le_queued (by omega)

/-- The code's assertion about completed bytes, read on the totals. -/
theorem completedAsserts_words (h : Totals.Sound a T) {bytes : UInt32} :
    DynamicQueueLimits.CompletedAsserts bytes (T.words a) ↔ bytes.toNat ≤ T.inFlight := by
  unfold DynamicQueueLimits.CompletedAsserts
  rw [UInt32.le_iff_toNat_le, inFlight_words h]

variable {q : TxQueue (Option DynamicQueueLimits)} {t : TxQueue Totals}

theorem Stands.notifyQueuedBytes (h : Stands a q t) {bytes : UInt32}
    (ho : q.Obeys (.notifyQueuedBytes bytes)) :
    Stands a ((machine effect).next q (.notifyQueuedBytes bytes))
        ((machine (totalsEffect a)).next t (.notifyQueuedBytes bytes)) ∧
      (machine effect).out q (.notifyQueuedBytes bytes) =
        (machine (totalsEffect a)).out t (.notifyQueuedBytes bytes) := by
  obtain ⟨hpass, hobj⟩ := ho
  have hobj := UInt32.le_iff_toNat_le.mp hobj
  rw [h.queue] at hpass
  have hin := h.passing hpass
  have hsound := h.sound.queued hobj (by omega)
  have havail := hsound.available_eq
  have hlim := hsound.limit_le
  -- Before the call the device held no more than the limit.
  have hheld : (t.queueLimits.queued bytes.toNat).inFlight ≤ a.maxLimit.toNat + bytes.toNat := by
    rw [DynamicQueueLimits.Totals.queued_inFlight h.sound]
    exact Nat.add_le_add_right hin _
  unfold Machine.next Machine.out machine effect totalsEffect
  simp only [h.words, notifyQueuedBytes_words hsound, h.queue]
  refine ⟨?_, trivial⟩
  split
  · rename_i h0
    refine ⟨rfl, rfl, hsound, hheld, ?_, fun _ => ?_⟩
    · intro hs
      exact absurd (hs.symm.trans hpass) Bool.noConfusion
    · show (t.queueLimits.queued bytes.toNat).inFlight ≤ _
      omega
  · rename_i h0
    exact ⟨rfl, rfl, hsound, hheld, fun _ => not_le.mp h0, fun hs => absurd hs Bool.noConfusion⟩

theorem Stands.notifyTransmittedBytes (h : Stands a q t) {now : Time} {bytes : UInt32}
    (ho : q.Obeys (.notifyTransmittedBytes now bytes)) :
    Stands a ((machine effect).next q (.notifyTransmittedBytes now bytes))
        ((machine (totalsEffect a)).next t (.notifyTransmittedBytes now bytes)) ∧
      (machine effect).out q (.notifyTransmittedBytes now bytes) =
        (machine (totalsEffect a)).out t (.notifyTransmittedBytes now bytes) := by
  obtain ⟨hlt, hle⟩ := ho
  rw [h.words] at hle
  have hle := (completedAsserts_words h.sound).mp (hle _ rfl)
  unfold Machine.next Machine.out machine effect totalsEffect
  simp only [h.words, h.queue]
  by_cases h0 : bytes = 0
  · rw [if_pos h0]
    unfold NetDeviceQueue.notifyTransmittedBytes
    simp only [if_pos h0]
    exact ⟨⟨rfl, rfl, h.sound, h.held, h.stopped, h.passing⟩, trivial⟩
  · have hsound := h.sound.completed now hle
    have havail := hsound.available_eq
    have hlim := hsound.limit_le
    have hheld : (t.queueLimits.completed a now bytes.toNat).inFlight ≤
        a.maxLimit.toNat + t.queueLimits.lastObjCnt := by
      rw [DynamicQueueLimits.Totals.completed_inFlight]
      exact (Nat.sub_le _ _).trans h.held
    rw [if_neg h0, notifyTransmittedBytes_words h.sound now h0 hlt hle]
    refine ⟨?_, rfl⟩
    split
    · rename_i hneg
      refine ⟨rfl, rfl, hsound, hheld, fun _ => hneg, fun hs => ?_⟩
      have := h.passing hs
      show (t.queueLimits.completed a now bytes.toNat).inFlight ≤ _
      rw [DynamicQueueLimits.Totals.completed_inFlight]
      omega
    · rename_i hneg
      refine ⟨rfl, rfl, hsound, hheld, fun hs => absurd hs Bool.noConfusion, fun _ => ?_⟩
      show (t.queueLimits.completed a now bytes.toNat).inFlight ≤ _
      omega

/-- **Step lemma.** Every call that is made as the assertions demand. -/
theorem Stands.step (h : Stands a q t) {e : Event} (ho : q.Obeys e) :
    Stands a ((machine effect).next q e) ((machine (totalsEffect a)).next t e) ∧
      (machine effect).out q e = (machine (totalsEffect a)).out t e := by
  obtain ⟨queue, queueLimits⟩ := q
  obtain ⟨rfl⟩ := h.queue
  cases e with
  | stop => exact ⟨⟨rfl, h.words, h.sound, h.held, h.stopped, h.passing⟩, rfl⟩
  | start => exact ⟨⟨rfl, h.words, h.sound, h.held, h.stopped, h.passing⟩, rfl⟩
  | wake => exact ⟨⟨rfl, h.words, h.sound, h.held, h.stopped, h.passing⟩, rfl⟩
  | notifyQueuedBytes bytes => exact h.notifyQueuedBytes ho
  | notifyTransmittedBytes now bytes => exact h.notifyTransmittedBytes ho

/-- A transmission queue with new limits. -/
def init (a : DynamicQueueLimits.Attributes) : TxQueue (Option DynamicQueueLimits) where
  queueLimits := some { toAttributes := a }

theorem stands_init (a : DynamicQueueLimits.Attributes) :
    Stands a (init a) { queueLimits := {} } where
  queue := rfl
  words := rfl
  sound := DynamicQueueLimits.Totals.sound_default
  held := Nat.zero_le _
  stopped h := absurd h Bool.noConfusion
  passing _ := Nat.zero_le _

/-- **Run lemma.** -/
theorem Stands.run (h : Stands a q t) {es : List Event} (ho : (machine effect).Along Obeys q es) :
    Stands a ((machine effect).run q es) ((machine (totalsEffect a)).run t es) ∧
      (machine effect).outputs q es = (machine (totalsEffect a)).outputs t es := by
  have hstep : ∀ q t (e e' : Event), Stands a q t → e = e' → q.Obeys e →
      Stands a ((machine effect).next q e) ((machine (totalsEffect a)).next t e') ∧
        (machine effect).out q e = (machine (totalsEffect a)).out t e' := by
    rintro q t e _ hs rfl hob
    exact hs.step hob
  obtain ⟨hrun, hout⟩ := Machine.run_sim hstep h (List.forall₂_eq_eq_eq ▸ rfl) ho
  exact ⟨hrun, List.forall₂_eq_eq_eq ▸ hout⟩

/-- A call that releases a queue stopped by its limits schedules a run of the queue disc. -/
theorem release_runs (q : TxQueue (Option DynamicQueueLimits)) (e : Event)
    (hs : q.queue.stoppedByQueueLimits = true)
    (hs' : ((machine effect).next q e).queue.stoppedByQueueLimits = false) :
    0 < (machine effect).out q e := by
  obtain ⟨queue, queueLimits⟩ := q
  have hkeep : ∀ {b : Bool}, b = queue.stoppedByQueueLimits → b = false → False := by
    rintro b rfl hb
    exact absurd (hs.symm.trans hb) Bool.noConfusion
  cases e with
  | stop => exact (hkeep rfl hs').elim
  | start => exact (hkeep rfl hs').elim
  | wake => exact (hkeep rfl hs').elim
  | notifyQueuedBytes bytes =>
    cases queueLimits with
    | none => exact (hkeep rfl hs').elim
    | some l =>
      unfold Machine.next machine effect NetDeviceQueue.notifyQueuedBytes at hs'
      dsimp only at hs'
      split at hs'
      · exact (hkeep rfl hs').elim
      · exact absurd hs' Bool.noConfusion
  | notifyTransmittedBytes now bytes =>
    cases queueLimits with
    | none => exact (hkeep rfl hs').elim
    | some l =>
      unfold Machine.next Machine.out machine effect NetDeviceQueue.notifyTransmittedBytes at *
      dsimp only at *
      split at hs'
      · exact (hkeep rfl hs').elim
      · rename_i h0
        split at hs'
        · exact (hkeep rfl hs').elim
        · rename_i hneg
          rw [if_neg h0, if_neg hneg]
          show 0 < (if queue.stoppedByQueueLimits = true then 1 else 0) + 0
          rw [if_pos hs]
          exact Nat.one_pos

instance (q : TxQueue (Option DynamicQueueLimits)) : (e : Event) → Decidable (q.Obeys e)
  | .stop | .start | .wake => isTrue trivial
  | .notifyQueuedBytes _ => inferInstanceAs (Decidable (_ = _ ∧ _ ≤ _))
  | .notifyTransmittedBytes _ _ => inferInstanceAs (Decidable (_ < _ ∧ ∀ l ∈ _, _ ≤ _))

/-- A packet is queued and stops the queue, and its completion releases it. -/
def oneByOne : List Event :=
  [.notifyQueuedBytes 1500, .notifyTransmittedBytes 10 1500, .notifyQueuedBytes 1500,
    .notifyQueuedBytes 40, .stop, .notifyTransmittedBytes 20 1500]

example : (machine effect).outputs (init {}) oneByOne = [0, 1, 0, 0, 0, 1] := by decide

end TxQueue

end StabilizedRed
