import SkiVmm.Apic.Delivery
import SkiVmm.Apic.Start
import SkiVmm.Coop.Resume
import SkiVmm.Detect.InstructionTable
import SkiVmm.Detect.MemoryDetector
import SkiVmm.Detect.Paging
import SkiVmm.Forkall.FilterFile
import SkiVmm.Forkall.PreemptionList
import SkiVmm.Forkall.RangeFormat
import SkiVmm.Guest.Protocol
import SkiVmm.Hyper.OtherCpus
import SkiVmm.Hyper.Request
import SkiVmm.Memfs.Append
import SkiVmm.Memfs.Bounds
import SkiVmm.Memfs.Fgets
import SkiVmm.Memfs.Hooks
import SkiVmm.Priorities.Bounds
import SkiVmm.Priorities.Participants
import SkiVmm.Sched.Entering
import SkiVmm.Sched.Halting
import SkiVmm.Sched.Inversion
import SkiVmm.Sched.Leftover
import SkiVmm.Sched.Overlap
import SkiVmm.Sched.Pairing
import SkiVmm.Sched.ReadSetCells
import SkiVmm.Sched.Reevaluate
import SkiVmm.Sched.Trigger
import SkiVmm.Trace.Arrangement
