import StabilizedRed.TrafficControl.QueueDisc
import StabilizedRed.Core.Random
import StabilizedRed.Lib.ExtRat
import StabilizedRed.Lib.Machine

/-!
# `StabilizedRedQueueDisc` and `ESRedQueueDisc`

The two discs (`sred/stabilized-red-queue-disc.cc`, `esred/es-red-queue-disc.cc`) are one text up
to what they do to a zombie: ESRED keeps a time in it, and divides the overwrite probability by one
second plus that time. `ZombieKind` holds these lines; everything else is written once over it.

`DiscKind.kind` names the two discs. `machine` is a disc under calls of `Enqueue`, `Dequeue` and
`Peek`, each with the reading of the simulation clock.
-/

namespace StabilizedRed

open ExtRat (fin)

/-! ## Zombies -/

/-- `Zombie`. -/
structure Zombie where
  flowID : Int32
  count : Int32
  deriving DecidableEq, Repr

/-- `EZombie`. -/
structure EZombie where
  flowID : Int32
  count : Int32
  time : Time
  deriving DecidableEq, Repr

/-- The lines of `DoEnqueue` in which the two discs differ. -/
structure ZombieKind (Z : Type) where
  flowID : Z → Int32
  count : Z → Int32
  /-- The zombie appended for `flowID` while the list is not full. -/
  create (flowID : Int32) (now : Time) : Z
  /-- The zombie after a hit. -/
  hit (now : Time) (z : Z) : Z
  /-- The probability that a draw is compared with after a miss. -/
  overwriteProbability (pOverwrite : ℚ) (z : Z) : ExtRat
  /-- The zombie after it is overwritten. -/
  overwrite (flowID : Int32) (now : Time) (z : Z) : Z

/-- The zombies of `StabilizedRedQueueDisc`. -/
def StabilizedRedQueueDisc.zombieKind : ZombieKind Zombie where
  flowID := Zombie.flowID
  count := Zombie.count
  create flowID _ := { flowID := flowID, count := 0 }
  hit _ z := { z with count := z.count + 1 }
  overwriteProbability pOverwrite _ := fin pOverwrite
  overwrite flowID _ z := { z with flowID := flowID, count := 0 }

/-- The zombies of `ESRedQueueDisc`. -/
def ESRedQueueDisc.zombieKind : ZombieKind EZombie where
  flowID := EZombie.flowID
  count := EZombie.count
  create flowID now := { flowID := flowID, count := 0, time := now }
  hit now z := { z with count := z.count + 1, time := now }
  overwriteProbability pOverwrite z := fin pOverwrite / fin (1 + z.time.getSeconds)
  overwrite flowID now z := { z with flowID := flowID, count := 0, time := now }

/-- `MAX_ZOMBIE_LIST_SIZE`. -/
def maxZombieListSize : ℕ := 1000

/-! ## The state -/

/-- The members of `StabilizedRedQueueDisc` and `ESRedQueueDisc`, with zombies of type `Z`. -/
structure ZombieQueueDisc (Z α : Type) extends QueueDisc α where
  zombies : List Z
  pHitFreq : ℚ
  pOverwrite : ℚ
  pMax : ℚ
  alpha : ℚ
  stabilizedRedMode : Int32
  uv : UniformRandomVariable

/-- The attributes of a disc and of what it is attached to. The probabilities are in the range that
their checkers demand, and `SetMaxSize` ignores a limit of zero. -/
structure Attributes (α : Type) where
  overwriteProbability : ℚ := 1 / 4
  overwriteProbability_nonneg : 0 ≤ overwriteProbability := by norm_num
  overwriteProbability_le_one : overwriteProbability ≤ 1 := by norm_num
  maximumDropProbability : ℚ := 3 / 20
  maximumDropProbability_nonneg : 0 ≤ maximumDropProbability := by norm_num
  maximumDropProbability_le_one : maximumDropProbability ≤ 1 := by norm_num
  maxSize : QueueSize := { unit := .packets, value := 25 }
  maxSize_pos : 0 < maxSize.value := by decide
  stabilizedRedMode : Int32 := 1
  quota : UInt32 := 64
  filters : List (PacketFilter α) := []
  devQueueIface : Option NetDeviceQueueInterface := none
  uv : UniformRandomVariable

/-- The default attributes, with a generator that gives `1 / 2` every time. -/
def Attributes.plain : Attributes Ipv4QueueDiscItem := { uv := .constant .half }

/-- The same with a limit of 40 bytes. -/
def Attributes.fortyBytes : Attributes Ipv4QueueDiscItem :=
  { Attributes.plain with maxSize := { unit := .bytes, value := 40 }, maxSize_pos := by decide }

/-- The same with a limit of 100 packets. -/
def Attributes.hundredPackets : Attributes Ipv4QueueDiscItem :=
  { Attributes.plain with
    maxSize := { unit := .packets, value := 100 }
    maxSize_pos := by decide }

namespace ZombieQueueDisc

variable {Z α : Type}

/-- `DoInitialize`: `CheckConfig` adds a drop-tail queue with the limit of the disc, and
`InitializeParams` clears the zombie list and the hit frequency. -/
def doInitialize (a : Attributes α) : ZombieQueueDisc Z α where
  queue := { maxSize := a.maxSize }
  filters := a.filters
  quota := a.quota
  devQueueIface := a.devQueueIface
  zombies := []
  pHitFreq := 0
  pOverwrite := a.overwriteProbability
  pMax := a.maximumDropProbability
  alpha := a.overwriteProbability / maxZombieListSize
  stabilizedRedMode := a.stabilizedRedMode
  uv := a.uv

/-! ## The probabilities -/

/-- `calculateProbabilityStabilizedRed`. -/
def calculateProbabilityStabilizedRed (d : ZombieQueueDisc Z α) : ℚ :=
  let bufferCapacity := d.queue.maxSize.value
  let q := d.queue.nBytes
  let bufferCapacity3 : ℚ := bufferCapacity.toNat / 3
  let bufferCapacity6 : ℚ := bufferCapacity.toNat / 6
  if bufferCapacity3 ≤ q.toNat ∧ q ≤ bufferCapacity then d.pMax
  else if bufferCapacity6 ≤ q.toNat ∧ (q.toNat : ℚ) < bufferCapacity3 then d.pMax / 4
  else 0

/-- `calculateProbabilityZapSimple`. -/
def calculateProbabilityZapSimple (d : ZombieQueueDisc Z α) (probabilityStabilizedRed : ℚ) :
    ExtRat :=
  let multiply := 1 / fin (256 * d.pHitFreq * d.pHitFreq)
  if multiply < 1 then fin probabilityStabilizedRed * multiply
  else fin probabilityStabilizedRed

/-- `calculateProbabilityZap`. -/
def calculateProbabilityZap (d : ZombieQueueDisc Z α) (probabilityStabilizedRed : ℚ)
    (hit : Int32) : ExtRat :=
  let multiply1 := 1 / fin (256 * d.pHitFreq * d.pHitFreq)
  let multiply2 := 1 + fin hit.toInt / fin d.pHitFreq
  if multiply1 < 1 then fin probabilityStabilizedRed * multiply1 * multiply2
  else fin probabilityStabilizedRed * multiply2

/-- The value of `probabilityZap` in `DoEnqueue`. Mode `2` passes the constant `1` for `hit`. -/
def probabilityZap (d : ZombieQueueDisc Z α) : ExtRat :=
  let probabilityStabilizedRed := d.calculateProbabilityStabilizedRed
  if d.stabilizedRedMode = 1 then d.calculateProbabilityZapSimple probabilityStabilizedRed
  else if d.stabilizedRedMode = 2 then d.calculateProbabilityZap probabilityStabilizedRed 1
  else 0

/-! ## The zombie list -/

/-- The zombie list has its full size: an arrival is compared with one zombie. -/
def Full (d : ZombieQueueDisc Z α) : Prop := ¬ d.zombies.length < maxZombieListSize

instance (d : ZombieQueueDisc Z α) : Decidable d.Full := inferInstanceAs (Decidable (¬ _))

/-- The random index of the zombie that an arrival is compared with. -/
def sampleIndex (d : ZombieQueueDisc Z α) : UInt32 :=
  (d.uv.getInteger 0 (UInt32.ofNat d.zombies.length - 1)).1

/-- The comparison of an arrival with the zombie `index`: `hit` and the changed list. A second
number is drawn only on a miss. An index past the end would be undefined behaviour. -/
def compareZombie (K : ZombieKind Z) (now : Time) (flowID : Int32) (index : ℕ)
    (d : ZombieQueueDisc Z α) : Int32 × ZombieQueueDisc Z α :=
  match d.zombies[index]? with
  | none => (0, d)
  | some z =>
    if K.flowID z = flowID then
      (1, { d with zombies := d.zombies.set index (K.hit now z) })
    else
      let (rand, uv) := d.uv.getValue
      if fin rand < K.overwriteProbability d.pOverwrite z then
        (0, { d with uv := uv, zombies := d.zombies.set index (K.overwrite flowID now z) })
      else
        (0, { d with uv := uv })

/-- `DoEnqueue` on a full list: sample a zombie, then update the hit frequency. -/
def sampleZombie (K : ZombieKind Z) (now : Time) (flowID : Int32) (d : ZombieQueueDisc Z α) :
    ZombieQueueDisc Z α :=
  let (index, uv) := d.uv.getInteger 0 (UInt32.ofNat d.zombies.length - 1)
  let (hit, d) := compareZombie K now flowID index.toNat { d with uv := uv }
  { d with pHitFreq := (1 - d.alpha) * d.pHitFreq + d.alpha * hit.toInt }

/-! ## `DoEnqueue` -/

variable [QueueDiscItem α]

/-- `flowHash`: the hash of the item without packet filters, else what the filters return; `none`
if no filter matches. -/
def flowHash (d : QueueDisc α) (item : α) : Option UInt32 :=
  if d.filters.length = 0 then some (QueueDiscItem.hash item 0)
  else
    let ret := PacketFilter.classifyAll d.filters item
    if ret ≠ PacketFilter.noMatch then some ret.toUInt32 else none

/-- Change the part of the state that the base class has. -/
def onBase (d : ZombieQueueDisc Z α) (r : Bool × QueueDisc α) : Bool × ZombieQueueDisc Z α :=
  (r.1, { d with toQueueDisc := r.2 })

/-- `DoEnqueue`. An item with flow id `-1` is reported as dropped, and the function goes on. -/
def doEnqueue (K : ZombieKind Z) (now : Time) (d : ZombieQueueDisc Z α) (item : α) :
    Bool × ZombieQueueDisc Z α :=
  match flowHash d.toQueueDisc item with
  | none => d.onBase (false, d.dropBeforeEnqueue item "Packet filter no match")
  | some flowHash =>
    let flowID := flowHash.toInt32
    let nQueued := d.queue.getCurrentSize.value
    let capacity := d.queue.maxSize.value
    let d :=
      if flowID = -1 then { d with toQueueDisc := d.dropBeforeEnqueue item "InvalidFlowID" } else d
    if d.zombies.length < maxZombieListSize then
      let d := { d with zombies := d.zombies ++ [K.create flowID now] }
      -- In either unit of the limit the size of the item is its size in bytes.
      if nQueued + getSize item ≤ capacity then d.onBase (d.enqueueInternal item)
      else d.onBase (false, d.dropBeforeEnqueue item "QUEUE_OVERFLOW")
    else
      let d := d.sampleZombie K now flowID
      let probabilityZap := d.probabilityZap
      let (rand, uv) := d.uv.getValue
      let d := { d with uv := uv }
      if fin rand < probabilityZap then d.onBase (false, d.dropBeforeEnqueue item "Zap")
      else if nQueued < capacity then d.onBase (d.enqueueInternal item)
      else d.onBase (false, d.dropBeforeEnqueue item "Overflow")

/-- `QueueDisc::Enqueue`. -/
def enqueue (K : ZombieKind Z) (now : Time) (d : ZombieQueueDisc Z α) (item : α) :
    Bool × ZombieQueueDisc Z α :=
  doEnqueue K now { d with toQueueDisc := d.receive item } item

end ZombieQueueDisc

/-! ## A disc under calls -/

/-- A call of a public method. -/
inductive Call (α : Type) where
  | enqueue (item : α)
  | dequeue
  | peek

/-- A call at a reading of the simulation clock. -/
structure Event (α : Type) where
  now : Time
  call : Call α

/-- What a call returns. -/
inductive Result (α : Type) where
  | enqueued (retval : Bool)
  | dequeued (item : Option α)
  | peeked (item : Option α)
  deriving DecidableEq, Repr

namespace ZombieQueueDisc

variable {Z α : Type} [QueueDiscItem α]

/-- One call. -/
def call (K : ZombieKind Z) (d : ZombieQueueDisc Z α) (e : Event α) :
    Result α × ZombieQueueDisc Z α :=
  match e.call with
  | .enqueue item =>
    let (retval, d) := d.enqueue K e.now item
    (.enqueued retval, d)
  | .dequeue =>
    let (item, b) := d.dequeue
    (.dequeued item, { d with toQueueDisc := b })
  | .peek => (.peeked d.peek, d)

/-- A disc with zombies of kind `K`, one call after the other. -/
def machine (K : ZombieKind Z) : Machine (ZombieQueueDisc Z α) (Event α) (Result α) where
  step := call K

end ZombieQueueDisc

/-- The two discs. -/
inductive DiscKind where
  | stabilizedRed
  | es
  deriving DecidableEq, Repr

/-- The zombies of the disc. -/
abbrev DiscKind.Zombie : DiscKind → Type
  | .stabilizedRed => StabilizedRed.Zombie
  | .es => EZombie

/-- What the disc does to its zombies. -/
def DiscKind.kind : (k : DiscKind) → ZombieKind k.Zombie
  | .stabilizedRed => StabilizedRedQueueDisc.zombieKind
  | .es => ESRedQueueDisc.zombieKind

/-- The disc as a machine. -/
abbrev DiscKind.machine (k : DiscKind) (α : Type) [QueueDiscItem α] :
    Machine (ZombieQueueDisc k.Zombie α) (Event α) (Result α) :=
  ZombieQueueDisc.machine k.kind

end StabilizedRed
