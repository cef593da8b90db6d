import HyperPlotter.Poc.PathEquivalence
import HyperPlotter.Poc.Schedule
import HyperPlotter.Poc.WorkItems
import HyperPlotter.Pipeline.Finished
import HyperPlotter.Verify.Accepts
import HyperPlotter.Queue.Wakeups
import HyperPlotter.Queue.Counter
import HyperPlotter.Queue.Atomic
import HyperPlotter.Pipeline.BlockMaps
import HyperPlotter.Pipeline.Lanes
import HyperPlotter.Pipeline.InOrder
import HyperPlotter.Plan.Tolerance
import HyperPlotter.Pipeline.Iterations
import HyperPlotter.Pipeline.Counters
import HyperPlotter.Plan.Volumes
import HyperPlotter.Plan.Resume
import HyperPlotter.Plan.Directories
import HyperPlotter.Pipeline.FileWrite
import HyperPlotter.Plan.Exhaustive
import HyperPlotter.Plan.Names
import HyperPlotter.Pipeline.DirectWrites
import HyperPlotter.Pipeline.WorkSize
import HyperPlotter.Pipeline.HostBuffers
import HyperPlotter.Pipeline.Returns
import HyperPlotter.Plotter.Verified
import HyperPlotter.Plotter.Resumed
import HyperPlotter.Plotter.Agreement
import HyperPlotter.Verify.Verdict
import HyperPlotter.Poc.ShabalStream
import HyperPlotter.Plotter.RunTest
import HyperPlotter.Plan.Repeats
import HyperPlotter.Pipeline.Win32Writer
