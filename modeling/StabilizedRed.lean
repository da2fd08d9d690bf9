import StabilizedRed.Core.Draws
import StabilizedRed.Core.SeedManager
import StabilizedRed.Core.Simulator
import StabilizedRed.Disc.Admission
import StabilizedRed.Disc.Conservation
import StabilizedRed.Disc.DropTail
import StabilizedRed.Disc.Flows
import StabilizedRed.Disc.HitFrequency
import StabilizedRed.Disc.Lockstep
import StabilizedRed.Disc.Penalty
import StabilizedRed.Disc.Renaming
import StabilizedRed.Disc.TimeShift
import StabilizedRed.Disc.Zap
import StabilizedRed.Disc.ZombieList
import StabilizedRed.Link.Drain
import StabilizedRed.Link.Service
import StabilizedRed.Link.Stall
import StabilizedRed.Network.FlowControl
import StabilizedRed.Network.Text
import StabilizedRed.Root.Capacity
import StabilizedRed.Root.Counters
import StabilizedRed.Root.Fifo
import StabilizedRed.Root.Occupancy
import StabilizedRed.Root.Peek
import StabilizedRed.Root.Rejection
import StabilizedRed.Root.Report
