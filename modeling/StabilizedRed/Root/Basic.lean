import StabilizedRed.TrafficControl.Run
import StabilizedRed.Disc.Basic

/-!
# A disc as the root queue disc of a device

`Root` is a disc together with the calls of `Run` that wait for the send callback, and with two
records: the items that the callback was given and the items that `Enqueue` accepted. `RootEvent`
are the things that can happen to it, in any order: calls of the public methods, the return of a
send callback, and changes of the device's transmission queues.
-/

namespace StabilizedRed

/-- A call of `Run` that waits for the send callback to return. -/
structure PendingRun (α : Type) where
  quota : UInt32
  /-- The item that the callback was given. -/
  item : α

/-- A root queue disc. -/
structure Root (Z α : Type) where
  disc : ZombieQueueDisc Z α
  /-- The innermost call first. -/
  pending : List (PendingRun α) := []
  /-- The items that the send callback was given, in order. -/
  sent : List α := []
  /-- The items for which `Enqueue` returned true, in order. -/
  accepted : List α := []

/-- What can happen to a root queue disc. -/
inductive RootEvent (α : Type) where
  | enqueue (now : Time) (item : α)
  | dequeue
  | peek
  | run
  /-- The send callback returns to the call of `Run` that waits for it. -/
  | sendReturned
  | getStats
  | device (txq : ℕ) (change : NetDeviceQueue.Change)

/-- The item that an event offers to the disc. -/
def RootEvent.offered {α : Type} : RootEvent α → Option α
  | .enqueue _ item => some item
  | _ => none

/-- A direct call of `Dequeue`. -/
def RootEvent.IsDequeue {α : Type} : RootEvent α → Prop
  | .dequeue => True
  | _ => False

namespace Root

variable {Z α : Type} [QueueDiscItem α]

/-- Change the part of the disc that the base class has. -/
def onBase (r : Root Z α) (b : QueueDisc α) : Root Z α :=
  { r with disc := { r.disc with toQueueDisc := b } }

/-- The loop of `Run` from the head of the loop to the next call of the send callback, or to the end
of `Run`. -/
def runLoop (quota : UInt32) (r : Root Z α) : Root Z α :=
  match r.disc.restart with
  | (none, b) => r.onBase b.runEnd
  | (some item, b) =>
    { r.onBase b with pending := ⟨quota, item⟩ :: r.pending, sent := r.sent ++ [item] }

/-- `Run`. -/
def run (r : Root Z α) : Root Z α :=
  match r.disc.runBegin with
  | (false, b) => r.onBase b
  | (true, b) => runLoop r.disc.quota (r.onBase b)

/-- The loop of `Run` after the send callback has returned. -/
def sendReturned (r : Root Z α) : Root Z α :=
  match r.pending with
  | [] => r
  | p :: pending =>
    let r := { r with pending := pending }
    if r.disc.transmitReturn p.item then
      let quota := p.quota - 1
      if quota ≤ 0 then r.onBase r.disc.runEnd else runLoop quota r
    else r.onBase r.disc.runEnd

/-- One event. -/
def next (K : ZombieKind Z) (r : Root Z α) : RootEvent α → Root Z α
  | .enqueue now item =>
    let (retval, disc) := r.disc.enqueue K now item
    { r with disc := disc, accepted := if retval then r.accepted ++ [item] else r.accepted }
  | .dequeue => r.onBase r.disc.dequeue.2
  | .peek => r
  | .run => r.run
  | .sendReturned => r.sendReturned
  | .getStats => r.onBase r.disc.getStats
  | .device txq c =>
    r.onBase { r.disc.toQueueDisc with devQueueIface := r.disc.devQueueIface.map (·.change txq c) }

/-- What an event returns to its caller. -/
def out (K : ZombieKind Z) (r : Root Z α) : RootEvent α → Option (Result α)
  | .enqueue now item => some (.enqueued (r.disc.enqueue K now item).1)
  | .dequeue => some (.dequeued r.disc.dequeue.1)
  | .peek => some (.peeked r.disc.peek)
  | _ => none

/-- A root queue disc with zombies of kind `K`, one event after the other. -/
def machine (K : ZombieKind Z) : Machine (Root Z α) (RootEvent α) (Option (Result α)) where
  step r e := (out K r e, next K r e)

/-- A freshly initialised disc on its device. -/
def doInitialize (a : Attributes α) : Root Z α where
  disc := ZombieQueueDisc.doInitialize a

end Root

/-- The disc as a root queue disc. -/
abbrev DiscKind.rootMachine (k : DiscKind) (α : Type) [QueueDiscItem α] :
    Machine (Root k.Zombie α) (RootEvent α) (Option (Result α)) :=
  Root.machine k.kind

end StabilizedRed
