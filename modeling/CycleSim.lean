import CycleSim.Memory.History
import CycleSim.Pipeline.Operands
import CycleSim.Pipeline.InstructionCount
import CycleSim.Pipeline.Exception
import CycleSim.Pipeline.Fault
import CycleSim.Cache.Inclusion
import CycleSim.Isa.Conformance
import CycleSim.Pipeline.Stalls
import CycleSim.Pipeline.FallThrough
import CycleSim.Print
import CycleSim.Isa.Mnemonic
import CycleSim.Isa.Immediate
import CycleSim.Memory.Image
import CycleSim.Pipeline.Status
import CycleSim.Pipeline.Interlock
import CycleSim.Cache.Representation
import CycleSim.Memory.Listing
import CycleSim.Cache.Workload
import CycleSim.Pipeline.Progress
import CycleSim.Pipeline.Restart
import CycleSim.Isa.Program
import CycleSim.Memory.Loader
import CycleSim.Dump.Readback
import CycleSim.Config.Parse
import CycleSim.Main.Agreement
import CycleSim.Dump.Trace
import CycleSim.Dump.PipeState
import CycleSim.Pipeline.Calls
import CycleSim.Pipeline.Shape
import CycleSim.Lib.Assembly
import CycleSim.Isa.Verified
import CycleSim.Isa.Fib
