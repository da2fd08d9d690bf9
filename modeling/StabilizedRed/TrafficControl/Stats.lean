import StabilizedRed.TrafficControl.QueueDisc
import StabilizedRed.Lib.ExtRat

/-!
# What the statistics report (`QueueDisc::Stats` in `traffic-control/model/queue-disc.cc`)

`GetNDroppedPackets` looks a reason up, `Print` writes everything. `Print` goes through the packets
and the bytes of each reason in lock-step and asserts that the two maps have the same reasons; it
ends with two ratios that it computes from unsigned counters. Its output is a list of tokens; a
ratio keeps its exact value, without the digits that a stream would show.
-/

namespace StabilizedRed

open ExtRat (fin)

/-! ## Maps of reasons -/

namespace ReasonMap

variable {β γ : Type}

/-- The reasons, in order. -/
def reasons (m : ReasonMap β) : List String := m.map Prod.fst

/-- The sum of all values, each read by `f`. -/
def total (f : β → ℕ) (m : ReasonMap β) : ℕ := (m.map fun x => f x.2).sum

variable [Add β] [Add γ]

/-- Which reasons a map has after an addition does not depend on its values. -/
theorem reasons_add_congr {m : ReasonMap β} {m' : ReasonMap γ} (h : m.reasons = m'.reasons)
    (reason : String) (n : β) (n' : γ) :
    (m.add reason n).reasons = (m'.add reason n').reasons := by
  induction m generalizing m' with
  | nil =>
    cases m' with
    | nil => rfl
    | cons x' rest' => cases h
  | cons x rest ih =>
    cases m' with
    | nil => cases h
    | cons x' rest' =>
      obtain ⟨r, v⟩ := x
      obtain ⟨r', v'⟩ := x'
      obtain ⟨rfl, hrest⟩ := List.cons.inj h
      unfold ReasonMap.add
      split
      · exact congrArg (r :: ·) hrest
      · split
        · exact congrArg (fun l => reason :: r :: l) hrest
        · exact congrArg (r :: ·) (ih hrest)

/-- As long as `f` of no sum wraps, an addition raises the total by what is added. -/
theorem total_add {f : β → ℕ} {bound : ℕ}
    (hf : ∀ x y, f x + f y < bound → f (x + y) = f x + f y) (reason : String) (n : β)
    {m : ReasonMap β} (h : m.total f + f n < bound) :
    (m.add reason n).total f = m.total f + f n := by
  induction m with
  | nil => exact Nat.add_comm _ _
  | cons x rest ih =>
    obtain ⟨r, v⟩ := x
    have hcons : ReasonMap.total f ((r, v) :: rest) = f v + ReasonMap.total f rest := rfl
    rw [hcons] at h ⊢
    unfold ReasonMap.add
    split
    · show f (v + n) + ReasonMap.total f rest = _
      rw [hf v n (by omega)]
      omega
    · split
      · show f n + (f v + ReasonMap.total f rest) = _
        omega
      · show f v + (ReasonMap.add reason n rest).total f = _
        rw [ih (by omega)]
        omega

theorem lookup_add_of_ne {reason reason' : String} (h : reason' ≠ reason) (n : β)
    (m : ReasonMap β) : List.lookup reason' (m.add reason n) = m.lookup reason' := by
  have hne : (reason' == reason) = false := beq_false_of_ne h
  induction m with
  | nil => simp [ReasonMap.add, List.lookup, hne]
  | cons x rest ih =>
    obtain ⟨r, v⟩ := x
    unfold ReasonMap.add
    split
    · rename_i hr
      rw [← hr]
      simp [List.lookup, hne]
    · split
      · rw [List.lookup_cons, hne]
      · rw [List.lookup_cons, List.lookup_cons, ih]

end ReasonMap

/-! ## The output of `Print` -/

/-- What `Print` writes to its stream. -/
inductive PrintToken where
  | text (s : String)
  | endl
  | count (n : ℕ)
  | ratio (x : ExtRat)
  deriving DecidableEq

namespace Stats

/-- `GetNDroppedPackets`. -/
def getNDroppedPackets (st : Stats) (reason : String) : UInt32 :=
  (st.nDroppedPacketsBeforeEnqueue.lookup reason).getD 0 +
    (st.nDroppedPacketsAfterDequeue.lookup reason).getD 0

/-- A line with a count of packets and one of bytes. -/
def printCounts (label : String) (packets bytes : ℕ) : List PrintToken :=
  [.endl, .text label, .count packets, .text " / ", .count bytes]

/-- A loop over the reasons: it ends with the shorter map, and prints the reason of the packets. -/
def printReasons : ReasonMap UInt32 → ReasonMap UInt64 → List PrintToken
  | (reason, packets) :: ps, (_, bytes) :: bs =>
    [.endl, .text "  ", .text reason, .text ": ", .count packets.toNat, .text " / ",
      .count bytes.toNat] ++ printReasons ps bs
  | _, _ => []

/-- The assertion in such a loop. -/
def LockStep (ps : ReasonMap UInt32) (bs : ReasonMap UInt64) : Prop :=
  ∀ x ∈ ps.zip bs, x.1.1 = x.2.1

/-- All lines up to the ratios. -/
def printCounters (st : Stats) : List PrintToken :=
  printCounts "Packets/Bytes received: " st.nTotalReceivedPackets.toNat
    st.nTotalReceivedBytes.toNat ++
  printCounts "Packets/Bytes enqueued: " st.nTotalEnqueuedPackets.toNat
    st.nTotalEnqueuedBytes.toNat ++
  printCounts "Packets/Bytes dequeued: " st.nTotalDequeuedPackets.toNat
    st.nTotalDequeuedBytes.toNat ++
  printCounts "Packets/Bytes requeued: " st.nTotalRequeuedPackets.toNat
    st.nTotalRequeuedBytes.toNat ++
  printCounts "Packets/Bytes dropped: " st.nTotalDroppedPackets.toNat
    st.nTotalDroppedBytes.toNat ++
  printCounts "Packets/Bytes dropped before enqueue: " st.nTotalDroppedPacketsBeforeEnqueue.toNat
    st.nTotalDroppedBytesBeforeEnqueue.toNat ++
  printReasons st.nDroppedPacketsBeforeEnqueue st.nDroppedBytesBeforeEnqueue ++
  printCounts "Packets/Bytes dropped after dequeue: " st.nTotalDroppedPacketsAfterDequeue.toNat
    st.nTotalDroppedBytesAfterDequeue.toNat ++
  printReasons st.nDroppedPacketsAfterDequeue st.nDroppedBytesAfterDequeue ++
  printCounts "Packets/Bytes sent: " st.nTotalSentPackets.toNat st.nTotalSentBytes.toNat ++
  printCounts "Packets/Bytes marked: " st.nTotalMarkedPackets.toNat st.nTotalMarkedBytes.toNat ++
  printReasons st.nMarkedPackets st.nMarkedBytes

/-- The lines with the ratios, for given values. -/
def ratioLines (dropped : ℕ) (dropRatio : ExtRat) (delivered : ℕ) (deliveryRatio : ExtRat)
    (received : ℕ) : List PrintToken :=
  [.endl, .text "--------------------------", .endl,
    .text "Drop Ratio: ", .count dropped, .text " / ", .count received, .text " = ",
    .ratio dropRatio, .text "%", .endl,
    .text "Delivery Ratio: ", .count delivered, .text " / ", .count received, .text " = ",
    .ratio deliveryRatio, .text "%", .endl]

/-- The lines with the ratios. The packets delivered are an unsigned difference. -/
def printRatios (st : Stats) : List PrintToken :=
  let dropped := st.nTotalDroppedPackets.toNat
  let received := st.nTotalReceivedPackets.toNat
  let delivered := (st.nTotalReceivedPackets - st.nTotalDroppedPackets).toNat
  ratioLines dropped (fin (dropped * 100) / fin received)
    delivered (fin (delivered * 100) / fin received) received

/-- `Print`. -/
def print (st : Stats) : List PrintToken := st.printCounters ++ st.printRatios

/-- The assertions in `Print`. -/
def PrintAsserts (st : Stats) : Prop :=
  LockStep st.nDroppedPacketsBeforeEnqueue st.nDroppedBytesBeforeEnqueue ∧
  LockStep st.nDroppedPacketsAfterDequeue st.nDroppedBytesAfterDequeue ∧
  LockStep st.nMarkedPackets st.nMarkedBytes

theorem lockStep_of_reasons_eq {ps : ReasonMap UInt32} {bs : ReasonMap UInt64}
    (h : ps.reasons = bs.reasons) : LockStep ps bs := by
  induction ps generalizing bs with
  | nil => nofun
  | cons p ps ih =>
    cases bs with
    | nil => cases h
    | cons b bs =>
      obtain ⟨hp, hps⟩ := List.cons.inj h
      intro x hx
      rcases List.mem_cons.mp hx with rfl | hx
      · exact hp
      · exact ih hps x hx

/-- The statistics without the counters of dequeued, sent and requeued packets. -/
def ofArrivals (st : Stats) : Stats :=
  { st with
    nTotalSentPackets := 0
    nTotalSentBytes := 0
    nTotalDequeuedPackets := 0
    nTotalDequeuedBytes := 0
    nTotalRequeuedPackets := 0
    nTotalRequeuedBytes := 0 }

end Stats

end StabilizedRed
