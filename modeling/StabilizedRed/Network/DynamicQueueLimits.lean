import StabilizedRed.Core.Random
import StabilizedRed.Lib.Serial

/-!
# Dynamic queue limits (`network/utils/dynamic-queue-limits.cc`)

The object counts the bytes ever queued and ever completed, and adapts the number of bytes that a
device may hold. All its numbers are `uint32_t`, and the two totals wrap. `Totals` is the same
algorithm on totals without a bound and on natural numbers; `Totals.words` is the object that
stands for it. `Totals.completed_words` says that as long as the device holds no more than the two
constants of the code allow (`Totals.Sound`), the wrapping object computes what the totals do.
-/

namespace StabilizedRed

/-- `UINTMAX`. -/
def uintMax : UInt32 := 0xFFFFFFFF

/-- `DQL_MAX_OBJECT`. -/
def dqlMaxObject : UInt32 := uintMax / 16

/-- `DQL_MAX_LIMIT`. -/
def dqlMaxLimit : UInt32 := uintMax / 2 - dqlMaxObject

/-- The attributes of `DynamicQueueLimits`, in the ranges that their checkers demand. -/
structure DynamicQueueLimits.Attributes where
  slackHoldTime : Time := 1000000000
  maxLimit : UInt32 := dqlMaxLimit
  maxLimit_le : maxLimit ≤ dqlMaxLimit := by decide
  minLimit : UInt32 := 0
  deriving DecidableEq

/-- `DynamicQueueLimits`. -/
structure DynamicQueueLimits extends DynamicQueueLimits.Attributes where
  numQueued : UInt32 := 0
  adjLimit : UInt32 := 0
  lastObjCnt : UInt32 := 0
  limit : UInt32 := 0
  numCompleted : UInt32 := 0
  prevOvlimit : UInt32 := 0
  prevNumQueued : UInt32 := 0
  prevLastObjCnt : UInt32 := 0
  lowestSlack : UInt32 := uintMax
  slackStartTime : Time := 0
  deriving DecidableEq

namespace DynamicQueueLimits

/-- `Posdiff`: the arguments and the result are converted at the call. -/
def posdiff (a b : UInt32) : UInt32 := (Serial.posdiff a.toInt32 b.toInt32).toUInt32

/-- `Reset`, which leaves the field `adjLimit` alone. -/
def reset (now : Time) (d : DynamicQueueLimits) : DynamicQueueLimits :=
  { d with
    limit := 0
    numQueued := 0
    numCompleted := 0
    lastObjCnt := 0
    prevNumQueued := 0
    prevLastObjCnt := 0
    prevOvlimit := 0
    lowestSlack := uintMax
    slackStartTime := now }

/-- What `Completed` recalculates before it enforces the bounds: the limit, the time since which
slack was seen, and the lowest slack. -/
structure Revision (ν : Type) where
  limit : ν
  slackStartTime : Time
  lowestSlack : ν

/-- Change the way the numbers are written. -/
def Revision.map {ν μ : Type} (f : ν → μ) (r : Revision ν) : Revision μ :=
  ⟨f r.limit, r.slackStartTime, f r.lowestSlack⟩

/-- The middle part of `Completed`, on the sum `completed` of the completed bytes. -/
def revise (now : Time) (d : DynamicQueueLimits) (completed : UInt32) : Revision UInt32 :=
  let ovlimit := posdiff (d.numQueued - d.numCompleted) d.limit
  let inprogress := d.numQueued - completed
  let prevInprogress := d.prevNumQueued - d.numCompleted
  let allPrevCompleted := 0 ≤ (completed - d.prevNumQueued).toInt32
  if (ovlimit ≠ 0 ∧ inprogress = 0) ∨ (d.prevOvlimit ≠ 0 ∧ allPrevCompleted) then
    -- The queue was starved: increase the limit.
    ⟨d.limit + (posdiff completed d.prevNumQueued + d.prevOvlimit), now, uintMax⟩
  else if inprogress ≠ 0 ∧ prevInprogress ≠ 0 ∧ ¬ allPrevCompleted then
    -- The queue was busy in the whole interval: the limit may be decreased.
    let slack := posdiff (d.limit + d.prevOvlimit) (2 * (completed - d.numCompleted))
    let slackLastObjs := if d.prevOvlimit ≠ 0 then posdiff d.prevLastObjCnt d.prevOvlimit else 0
    let slack := max slack slackLastObjs
    let lowestSlack := if slack < d.lowestSlack then slack else d.lowestSlack
    if d.slackStartTime + d.slackHoldTime < now then
      ⟨posdiff d.limit lowestSlack, now, uintMax⟩
    else ⟨d.limit, d.slackStartTime, lowestSlack⟩
  else ⟨d.limit, d.slackStartTime, d.lowestSlack⟩

/-- `Completed`. -/
def completed (now : Time) (count : UInt32) (d : DynamicQueueLimits) : DynamicQueueLimits :=
  let completed := d.numCompleted + count
  let ovlimit := posdiff (d.numQueued - d.numCompleted) d.limit
  let r := d.revise now completed
  let limit := min (max r.limit d.minLimit) d.maxLimit
  { d with
    limit := limit
    slackStartTime := r.slackStartTime
    lowestSlack := r.lowestSlack
    adjLimit := limit + completed
    prevOvlimit := if limit ≠ d.limit then 0 else ovlimit
    prevLastObjCnt := d.lastObjCnt
    numCompleted := completed
    prevNumQueued := d.numQueued }

/-- `Available`. -/
def available (d : DynamicQueueLimits) : Int32 := (d.adjLimit - d.numQueued).toInt32

/-- `Queued`. -/
def queued (count : UInt32) (d : DynamicQueueLimits) : DynamicQueueLimits :=
  { d with lastObjCnt := count, numQueued := d.numQueued + count }

/-- The assertion of `Queued`. -/
def QueuedAsserts (count : UInt32) : Prop := count ≤ dqlMaxObject

/-- The assertion of `Completed`: no more is completed than is in the device. -/
def CompletedAsserts (count : UInt32) (d : DynamicQueueLimits) : Prop :=
  count ≤ d.numQueued - d.numCompleted

/-! ## The algorithm on totals without a bound -/

/-- The numbers of `DynamicQueueLimits` without a bound. -/
structure Totals where
  numQueued : ℕ := 0
  adjLimit : ℕ := 0
  lastObjCnt : ℕ := 0
  limit : ℕ := 0
  numCompleted : ℕ := 0
  prevOvlimit : ℕ := 0
  prevNumQueued : ℕ := 0
  prevLastObjCnt : ℕ := 0
  lowestSlack : ℕ := uintMax.toNat
  slackStartTime : Time := 0

namespace Totals

variable (a : Attributes)

/-- What the device holds: queued and not completed. -/
def inFlight (t : Totals) : ℕ := t.numQueued - t.numCompleted

/-- The middle part of `Completed`: a starved queue raises the limit by what it sent and completed
in the last interval; a queue busy all the time lowers it by the least slack of the hold time. -/
def revise (now : Time) (t : Totals) (completed : ℕ) : Revision ℕ :=
  let allPrevCompleted := t.prevNumQueued ≤ completed
  if (t.limit < t.inFlight ∧ t.numQueued = completed) ∨ (t.prevOvlimit ≠ 0 ∧ allPrevCompleted) then
    ⟨t.limit + (completed - t.prevNumQueued + t.prevOvlimit), now, uintMax.toNat⟩
  else if t.numQueued ≠ completed ∧ t.prevNumQueued ≠ t.numCompleted ∧ ¬ allPrevCompleted then
    let slack := max (t.limit + t.prevOvlimit - 2 * (completed - t.numCompleted))
      (if t.prevOvlimit ≠ 0 then t.prevLastObjCnt - t.prevOvlimit else 0)
    let lowestSlack := min slack t.lowestSlack
    if t.slackStartTime + a.slackHoldTime < now then ⟨t.limit - lowestSlack, now, uintMax.toNat⟩
    else ⟨t.limit, t.slackStartTime, lowestSlack⟩
  else ⟨t.limit, t.slackStartTime, t.lowestSlack⟩

/-- `Completed`. -/
def completed (now : Time) (count : ℕ) (t : Totals) : Totals :=
  let completed := t.numCompleted + count
  let r := t.revise a now completed
  let limit := min (max r.limit a.minLimit.toNat) a.maxLimit.toNat
  { t with
    limit := limit
    slackStartTime := r.slackStartTime
    lowestSlack := r.lowestSlack
    adjLimit := limit + completed
    prevOvlimit := if limit ≠ t.limit then 0 else t.inFlight - t.limit
    prevLastObjCnt := t.lastObjCnt
    numCompleted := completed
    prevNumQueued := t.numQueued }

/-- `Available`. -/
def available (t : Totals) : ℤ := t.adjLimit - t.numQueued

/-- `Queued`. -/
def queued (count : ℕ) (t : Totals) : Totals :=
  { t with lastObjCnt := count, numQueued := t.numQueued + count }

/-- The object that stands for the totals. -/
def words (t : Totals) : DynamicQueueLimits :=
  { toAttributes := a
    numQueued := .ofNat t.numQueued
    adjLimit := .ofNat t.adjLimit
    lastObjCnt := .ofNat t.lastObjCnt
    limit := .ofNat t.limit
    numCompleted := .ofNat t.numCompleted
    prevOvlimit := .ofNat t.prevOvlimit
    prevNumQueued := .ofNat t.prevNumQueued
    prevLastObjCnt := .ofNat t.prevLastObjCnt
    lowestSlack := .ofNat t.lowestSlack
    slackStartTime := t.slackStartTime }

/-! ## The object computes what the totals do -/

/-- What holds of the totals as long as no object is queued past the limit. -/
structure Sound (t : Totals) : Prop where
  completed_le : t.numCompleted ≤ t.prevNumQueued
  prev_le : t.prevNumQueued ≤ t.numQueued
  limit_le : t.limit ≤ a.maxLimit.toNat
  inFlight_le : t.inFlight ≤ a.maxLimit.toNat + dqlMaxObject.toNat
  prevOvlimit_le : t.limit + t.prevOvlimit ≤ a.maxLimit.toNat + dqlMaxObject.toNat
  adjLimit : t.adjLimit = t.limit + t.numCompleted
  lastObjCnt_le : t.lastObjCnt ≤ dqlMaxObject.toNat
  prevLastObjCnt_le : t.prevLastObjCnt ≤ dqlMaxObject.toNat
  lowestSlack_le : t.lowestSlack ≤ uintMax.toNat

variable {a} {t : Totals}

theorem sound_default : Sound a {} where
  completed_le := Nat.le_refl _
  prev_le := Nat.le_refl _
  limit_le := Nat.zero_le _
  inFlight_le := Nat.zero_le _
  prevOvlimit_le := Nat.zero_le _
  adjLimit := rfl
  lastObjCnt_le := Nat.zero_le _
  prevLastObjCnt_le := Nat.zero_le _
  lowestSlack_le := Nat.le_refl _

/-- **The two constants leave the arithmetic of `int32_t` exact.** -/
theorem maxLimit_add_dqlMaxObject (a : Attributes) :
    a.maxLimit.toNat + dqlMaxObject.toNat < 2 ^ 31 := by
  have h := UInt32.le_iff_toNat_le.mp a.maxLimit_le
  have hmax : dqlMaxLimit.toNat = 1879048192 := rfl
  have hobj : dqlMaxObject.toNat = 268435455 := rfl
  omega

theorem Sound.completed_le_queued (h : Sound a t) : t.numCompleted ≤ t.numQueued :=
  h.completed_le.trans h.prev_le

theorem Sound.inFlight_lt (h : Sound a t) : t.inFlight < 2 ^ 31 :=
  h.inFlight_le.trans_lt (maxLimit_add_dqlMaxObject a)

/-- `Available` of the object. -/
theorem Sound.available_words (h : Sound a t) : (t.words a).available.toInt = t.available := by
  have hlt := h.inFlight_lt
  have hle := h.completed_le_queued
  have hlim := h.limit_le
  have hmax := maxLimit_add_dqlMaxObject a
  have hadj := h.adjLimit
  unfold inFlight at hlt
  unfold DynamicQueueLimits.available
  rw [Serial.toInt32_sub]
  exact Serial.toInt_sub_ofNat (by omega) (by omega)

/-- What may be queued is the limit less what is in the device. -/
theorem Sound.available_eq (h : Sound a t) : t.available = (t.limit : ℤ) - t.inFlight := by
  have hle := h.completed_le_queued
  unfold available inFlight
  rw [h.adjLimit]
  omega

theorem queued_words (t : Totals) (count : ℕ) :
    (t.words a).queued (.ofNat count) = (t.queued count).words a := by
  unfold words DynamicQueueLimits.queued queued
  simp only [UInt32.ofNat_add]

/-- `Posdiff` on numbers below `2 ^ 31`. -/
theorem posdiff_ofNat {x y : ℕ} (hx : x < 2 ^ 31) (hy : y < 2 ^ 31) :
    posdiff (.ofNat x) (.ofNat y) = .ofNat (x - y) :=
  Serial.posdiff_ofNat (by omega) (by omega)

/-- **The recalculation in words is that on the totals**, if less than `2 ^ 30` bytes are completed
at once: the code doubles their number. -/
theorem Sound.revise_words (h : Sound a t) (now : Time) {completed : ℕ}
    (hlo : t.numCompleted ≤ completed) (hhi : completed ≤ t.numQueued)
    (hlt : completed - t.numCompleted < 2 ^ 30) :
    (t.words a).revise now (.ofNat completed) =
      (t.revise a now completed).map UInt32.ofNat := by
  obtain ⟨hcp, hpq, hlim, hin, hov, -, -, hobj, hslack⟩ := h
  have hmax := maxLimit_add_dqlMaxObject a
  have hmaxObj : dqlMaxObject.toNat = 268435455 := rfl
  have hmaxInt : uintMax.toNat = 4294967295 := rfl
  unfold inFlight at hin
  have hover : posdiff (.ofNat t.numQueued - .ofNat t.numCompleted) (.ofNat t.limit) ≠ 0 ↔
      t.limit < t.inFlight := by
    rw [← UInt32.ofNat_sub (by omega), posdiff_ofNat (by omega) (by omega), Ne,
      Serial.ofNat_eq_zero_iff (by omega)]
    unfold inFlight
    omega
  have hdone : UInt32.ofNat t.numQueued - .ofNat completed = 0 ↔ t.numQueued = completed := by
    rw [← UInt32.ofNat_sub hhi, Serial.ofNat_eq_zero_iff (by omega)]
    omega
  have hbusy : UInt32.ofNat t.numQueued - .ofNat completed ≠ 0 ↔ t.numQueued ≠ completed :=
    not_congr hdone
  have hprevOv : UInt32.ofNat t.prevOvlimit ≠ 0 ↔ t.prevOvlimit ≠ 0 :=
    not_congr (Serial.ofNat_eq_zero_iff (by omega))
  have hall : 0 ≤ (UInt32.ofNat completed - .ofNat t.prevNumQueued).toInt32 ↔
      t.prevNumQueued ≤ completed := by
    rw [Serial.toInt32_sub, Int32.le_iff_toInt_le, Int32.toInt_zero,
      Serial.toInt_sub_ofNat (by omega) (by omega)]
    omega
  have hprev : UInt32.ofNat t.prevNumQueued - .ofNat t.numCompleted ≠ 0 ↔
      t.prevNumQueued ≠ t.numCompleted := by
    rw [← UInt32.ofNat_sub hcp, Ne, Serial.ofNat_eq_zero_iff (by omega)]
    omega
  have hstarved : posdiff (.ofNat completed) (.ofNat t.prevNumQueued) =
      .ofNat (completed - t.prevNumQueued) :=
    Serial.posdiff_ofNat (by omega) (by omega)
  -- The slack of this interval.
  have hdouble : (2 : UInt32) * (.ofNat completed - .ofNat t.numCompleted) =
      .ofNat (2 * (completed - t.numCompleted)) := by
    rw [← UInt32.ofNat_sub hlo, UInt32.ofNat_mul]
    rfl
  have hslackLimit : posdiff (.ofNat t.limit + .ofNat t.prevOvlimit)
      (2 * (.ofNat completed - .ofNat t.numCompleted)) =
      .ofNat (t.limit + t.prevOvlimit - 2 * (completed - t.numCompleted)) := by
    rw [hdouble, ← UInt32.ofNat_add]
    exact posdiff_ofNat (by omega) (by omega)
  have hslackObjs : (if t.prevOvlimit ≠ 0 then
      posdiff (.ofNat t.prevLastObjCnt) (.ofNat t.prevOvlimit) else 0) =
      .ofNat (if t.prevOvlimit ≠ 0 then t.prevLastObjCnt - t.prevOvlimit else 0) := by
    rw [posdiff_ofNat (by omega) (by omega)]
    exact Serial.ite_ofNat (n := 0) Iff.rfl
  have hobjs : (if t.prevOvlimit ≠ 0 then t.prevLastObjCnt - t.prevOvlimit else 0) ≤
      t.prevLastObjCnt := by
    split <;> omega
  have hslacks : max (posdiff (.ofNat t.limit + .ofNat t.prevOvlimit)
      (2 * (.ofNat completed - .ofNat t.numCompleted))) (if t.prevOvlimit ≠ 0 then
        posdiff (.ofNat t.prevLastObjCnt) (.ofNat t.prevOvlimit) else 0) =
      .ofNat (max (t.limit + t.prevOvlimit - 2 * (completed - t.numCompleted))
        (if t.prevOvlimit ≠ 0 then t.prevLastObjCnt - t.prevOvlimit else 0)) := by
    rw [hslackLimit, hslackObjs]
    exact Serial.max_ofNat (by omega) (by omega)
  unfold DynamicQueueLimits.revise revise
  simp only [words, hover, hdone, hbusy, hprevOv, hall, hprev, hstarved, hslacks]
  generalize hs : max (t.limit + t.prevOvlimit - 2 * (completed - t.numCompleted))
    (if t.prevOvlimit ≠ 0 then t.prevLastObjCnt - t.prevOvlimit else 0) = slack
  have hle : slack < 2 ^ 31 := by omega
  rw [Serial.ite_lt_ofNat (by omega) (by omega)]
  simp only [apply_ite (Revision.map UInt32.ofNat)]
  congr 1
  · simp only [Revision.map, UInt32.ofNat_add]
    rfl
  · congr 1
    congr 1
    rw [posdiff_ofNat (by omega) (by omega)]
    rfl

theorem Sound.revise_limit_lt (h : Sound a t) (now : Time) {completed : ℕ}
    (hhi : completed ≤ t.numQueued) : (t.revise a now completed).limit < 2 ^ 32 := by
  obtain ⟨hcp, -, hlim, hin, hov, -, -, -, -⟩ := h
  have hmax := maxLimit_add_dqlMaxObject a
  unfold inFlight at hin
  unfold revise
  dsimp only
  split
  · show t.limit + (completed - t.prevNumQueued + t.prevOvlimit) < 2 ^ 32
    omega
  · split
    · split
      · show t.limit - _ < 2 ^ 32
        omega
      · show t.limit < 2 ^ 32
        omega
    · show t.limit < 2 ^ 32
      omega

theorem Sound.revise_lowestSlack_le (h : Sound a t) (now : Time) (completed : ℕ) :
    (t.revise a now completed).lowestSlack ≤ uintMax.toNat := by
  have hs := h.lowestSlack_le
  unfold revise
  dsimp only
  split
  · exact Nat.le_refl _
  · split
    · split
      · exact Nat.le_refl _
      · exact (Nat.min_le_right _ _).trans hs
    · exact hs

/-- **`Completed` in words is `Completed` on the totals.** -/
theorem Sound.completed_words (h : Sound a t) (now : Time) {count : ℕ}
    (hle : count ≤ t.inFlight) (hlt : count < 2 ^ 30) :
    (t.words a).completed now (.ofNat count) = (t.completed a now count).words a := by
  have hq := h.completed_le_queued
  have hin := h.inFlight_lt
  have hlim := h.limit_le
  have hmax := maxLimit_add_dqlMaxObject a
  unfold inFlight at hle hin
  have hhi : t.numCompleted + count ≤ t.numQueued := by omega
  have hr := h.revise_words now (Nat.le_add_right t.numCompleted count) hhi (by omega)
  have hrl := h.revise_limit_lt now hhi
  have hsum : UInt32.ofNat t.numCompleted + .ofNat count = .ofNat (t.numCompleted + count) :=
    (UInt32.ofNat_add _ _).symm
  have hlimit : min (max (UInt32.ofNat (t.revise a now (t.numCompleted + count)).limit) a.minLimit)
      a.maxLimit = .ofNat (min (max (t.revise a now (t.numCompleted + count)).limit
        a.minLimit.toNat) a.maxLimit.toNat) := by
    have hmin := a.minLimit.toNat_lt
    conv_lhs => rw [← UInt32.ofNat_toNat (x := a.minLimit), ← UInt32.ofNat_toNat (x := a.maxLimit)]
    rw [Serial.max_ofNat hrl hmin, Serial.min_ofNat (by omega) (by omega)]
  have hover : posdiff (UInt32.ofNat t.numQueued - .ofNat t.numCompleted) (.ofNat t.limit) =
      .ofNat (t.inFlight - t.limit) := by
    rw [← UInt32.ofNat_sub hq]
    exact posdiff_ofNat hin (by omega)
  have hprev : (if UInt32.ofNat (t.completed a now count).limit ≠ .ofNat t.limit then 0
      else UInt32.ofNat (t.inFlight - t.limit)) = .ofNat (t.completed a now count).prevOvlimit := by
    have hc : (t.completed a now count).limit ≤ a.maxLimit.toNat := Nat.min_le_right _ _
    exact Serial.ite_ofNat (m := 0)
      (not_congr (Serial.ofNat_eq_ofNat_iff (by omega) (by omega)))
  unfold DynamicQueueLimits.completed
  have hw : (t.words a).numCompleted + .ofNat count = .ofNat (t.numCompleted + count) := hsum
  simp only [hw, hr]
  unfold completed at hprev ⊢
  simp only [words, Revision.map, hlimit, hover, UInt32.ofNat_add] at hprev ⊢
  rw [hprev]

@[simp] theorem queued_inFlight (h : Sound a t) (count : ℕ) :
    (t.queued count).inFlight = t.inFlight + count := by
  have hq := h.completed_le_queued
  show t.numQueued + count - t.numCompleted = t.numQueued - t.numCompleted + count
  omega

@[simp] theorem completed_inFlight (t : Totals) (now : Time) (count : ℕ) :
    (t.completed a now count).inFlight = t.inFlight - count :=
  Nat.sub_add_eq _ _ _

/-- `Queued` keeps the totals sound while they stay within the bound. -/
theorem Sound.queued (h : Sound a t) {count : ℕ} (hobj : count ≤ dqlMaxObject.toNat)
    (hin : t.inFlight + count ≤ a.maxLimit.toNat + dqlMaxObject.toNat) :
    Sound a (t.queued count) :=
  { h with
    prev_le := h.prev_le.trans (Nat.le_add_right _ _)
    inFlight_le := (queued_inFlight h count).trans_le hin
    lastObjCnt_le := hobj }

/-- `Completed` keeps the totals sound, whatever part of what is in the device it completes. -/
theorem Sound.completed (h : Sound a t) (now : Time) {count : ℕ} (hle : count ≤ t.inFlight) :
    Sound a (t.completed a now count) where
  completed_le := by
    have hq := h.completed_le_queued
    unfold inFlight at hle
    show t.numCompleted + count ≤ t.numQueued
    omega
  prev_le := Nat.le_refl _
  limit_le := Nat.min_le_right _ _
  inFlight_le := by
    rw [completed_inFlight]
    exact (Nat.sub_le _ _).trans h.inFlight_le
  prevOvlimit_le := by
    have hin := h.inFlight_le
    have hlim := h.limit_le
    have hc : (t.completed a now count).limit ≤ a.maxLimit.toNat := Nat.min_le_right _ _
    have hov : (t.completed a now count).prevOvlimit =
      if (t.completed a now count).limit ≠ t.limit then 0 else t.inFlight - t.limit := rfl
    rw [hov]
    split <;> omega
  adjLimit := rfl
  lastObjCnt_le := h.lastObjCnt_le
  prevLastObjCnt_le := h.lastObjCnt_le
  lowestSlack_le := h.revise_lowestSlack_le now _

end Totals

end DynamicQueueLimits

end StabilizedRed
