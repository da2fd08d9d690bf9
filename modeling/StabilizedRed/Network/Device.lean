import Mathlib

/-!
# The transmission queues of a device (`network/utils/net-device-queue-interface.cc`)

A device stops a transmission queue that has no room and wakes it later; byte queue limits stop and
release it on their own. A queue disc only asks `IsStopped`.
-/

namespace StabilizedRed

/-- `NetDeviceQueue`: stopped by the device, by its byte limits, or by neither. -/
structure NetDeviceQueue where
  stoppedByDevice : Bool := false
  stoppedByQueueLimits : Bool := false
  deriving DecidableEq, Repr

/-- What happens to a transmission queue. `wake` and `release` also schedule a run of the queue
disc, a later event of its own. -/
inductive NetDeviceQueue.Change where
  /-- `Stop ()`. -/
  | stop
  /-- `Start ()`. -/
  | start
  /-- `Wake ()`. -/
  | wake
  /-- `NotifyQueuedBytes` past the limit. -/
  | limit
  /-- `NotifyTransmittedBytes` back below the limit. -/
  | release
  deriving DecidableEq, Repr

namespace NetDeviceQueue

/-- `IsStopped`. -/
def isStopped (q : NetDeviceQueue) : Bool := q.stoppedByDevice || q.stoppedByQueueLimits

/-- The transmission queue after a change. -/
def apply (q : NetDeviceQueue) : Change → NetDeviceQueue
  | .stop => { q with stoppedByDevice := true }
  | .start | .wake => { q with stoppedByDevice := false }
  | .limit => { q with stoppedByQueueLimits := true }
  | .release => { q with stoppedByQueueLimits := false }

end NetDeviceQueue

/-- `NetDeviceQueueInterface`: at least one transmission queue (`NTxQueues` is at least `1`). -/
structure NetDeviceQueueInterface where
  txQueues : List NetDeviceQueue
  nonempty : txQueues ≠ []

namespace NetDeviceQueueInterface

/-- `GetNTxQueues`. -/
def getNTxQueues (i : NetDeviceQueueInterface) : ℕ := i.txQueues.length

/-- `GetTxQueue (i)->IsStopped ()`. The code asserts that the index is in range, as the traffic
control layer chooses it; a queue that is not there is not stopped. -/
def isStopped (i : NetDeviceQueueInterface) (txq : ℕ) : Bool :=
  (i.txQueues[txq]?).any NetDeviceQueue.isStopped

/-- The device changes its queue `txq`. -/
def change (i : NetDeviceQueueInterface) (txq : ℕ) (c : NetDeviceQueue.Change) :
    NetDeviceQueueInterface where
  txQueues := i.txQueues.modify txq (·.apply c)
  nonempty h := i.nonempty (by simpa using congrArg List.length h)

end NetDeviceQueueInterface

end StabilizedRed
