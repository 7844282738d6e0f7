import FlashBench.Safety
import FlashBench.HostContract
import FlashBench.ForegroundRuns
import FlashBench.ReadSweep
import FlashBench.Striping
import FlashBench.Supply
import FlashBench.BufferRefinement
import FlashBench.DiscardRange
import FlashBench.WriteLoop
import FlashBench.Locking
import FlashBench.BusyTime
import FlashBench.Overwrites
import FlashBench.ReadCompletion
import FlashBench.GcTrigger
import FlashBench.VirtualDevice
import FlashBench.SlabAllocator
import FlashBench.AddressFormat
import FlashBench.Durability
import FlashBench.Deadlock
import FlashBench.ResponseTime
import FlashBench.Wear
import FlashBench.WriteBufferLinks
import FlashBench.BufferLifetime
import FlashBench.Preemption
import FlashBench.WriteAmplification
import FlashBench.ModuleInit
