import CycleSim.Cycle
import CycleSim.Funct
import CycleSim.Cache
import CycleSim.Print
import CycleSim.Lib.Text

/-! The files the simulators write: `dumpRegisterState` of `RegisterInfo.h`, `dumpMemoryState`
of `MemoryStore.cpp`, `dumpPipeState` and `dumpSimStats` of `Utilities.cpp`.

A file is its text; that it can be opened is taken for granted. -/
namespace CycleSim

open Text (unlines terminate)
open MemoryStore (hexSetw)

/-- The line above and below a heading. -/
def rule : String := "---------------------"

/-! ### `dumpRegisterState` -/

/-- The registers in the order they are printed, and the empty lines between them. Register 0 is
not printed. -/
def registerOrder : List (Option Nat) :=
  [1, 2, 3, 4].map some ++ none :: [5, 6, 7].map some ++ none :: [8, 9].map some ++
    none :: [10, 11, 12, 13, 14, 15, 16, 17].map some ++
    none :: [18, 19, 20, 21, 22, 23, 24, 25, 26, 27].map some ++ none :: [28, 29, 30, 31].map some

def registerLine (reg : Regs) : Option Nat → String
  | some i => "$" ++ (regNames[i]?.getD "") ++ (" = 0x" ++ hexSetw 8 (reg.get (BitVec.ofNat 64 i)).toNat)
  | none => ""

def dumpRegisterState (reg : Regs) : String :=
  unlines ([rule, "Begin Register Values", rule] ++ registerOrder.map (registerLine reg) ++
    [rule, "End Register Values", rule])

/-! ### `dumpMemoryState` -/

/-- The range to print: that of the file `print_mem_range`, if there is one. -/
def printRange (memRange : Option String) : BitVec 64 × BitVec 64 :=
  let stream := openInitMem memRange
  if stream.fail then (0#64, 0x1f4#64)
  else
    let (startAddr, stream) := stream.extract 0#64
    let (endAddr, _) := stream.extract 0x1f4#64
    (startAddr, endAddr)

/-- `dumpMemoryState` writes this text. The error code of `printMemArray` is not looked at. -/
def DumpMemoryState (memRange : Option String) (mem : MemoryStore) (text : String) : Prop :=
  ∃ fuel ret out, mem.printMemArray fuel (printRange memRange).1 (printRange memRange).2 4#64 5#64
      (unlines [rule, "Begin Memory State", rule]) = some (ret, out) ∧
    text = out ++ unlines [rule, "End Memory State", rule]

/-! ### `dumpPipeState` -/

/-- `std::setw(width)`, right aligned. -/
def rightSetw (width : Nat) (text : String) : String :=
  String.ofList (text.toList.leftpad width ' ')

/-- `printIFPC`. -/
def printIFPC (pc : BitVec 64) (status : StageStatus) : String :=
  leftSetw 25 (" Inst at 0x" ++ String.ofList (Nat.toDigits 16 pc.toNat) ++ stageStatusStr status)

/-- The cells of `dumpPipeState`. `printInstr` takes the low 32 bits. -/
def pipeCells (state : PipeState) : List String :=
  [printIFPC state.ifPC state.ifStatus,
    printInstr (state.idInstr.setWidth 32) state.idStatus,
    printInstr (state.exInstr.setWidth 32) state.exStatus,
    printInstr (state.memInstr.setWidth 32) state.memStatus,
    printInstr (state.wbInstr.setWidth 32) state.wbStatus]

/-- The line `dumpPipeState` appends to its file. -/
def dumpPipeState (state : PipeState) : String :=
  "Cycle: " ++ (rightSetw 8 (toString state.cycle.toNat) ++
    ("\t|" ++ ("|" ++ (terminate '|' (pipeCells state) ++ "\n"))))

/-! ### `dumpSimStats` -/

/-- `struct SimulationStats`. -/
structure SimulationStats where
  dynamicInstructions : BitVec 64
  totalCycles : BitVec 64
  icHits : BitVec 64 := 0#64
  icMisses : BitVec 64 := 0#64
  dcHits : BitVec 64 := 0#64
  dcMisses : BitVec 64 := 0#64
  loadUseStalls : BitVec 64 := 0#64
  deriving DecidableEq, Repr

/-- The lines of the file: a label and a counter each. -/
def SimulationStats.cells (stats : SimulationStats) : List (String × BitVec 64) :=
  [("Dynamic instructions: ", stats.dynamicInstructions), ("Total cycles: ", stats.totalCycles),
    ("I-cache hits: ", stats.icHits), ("I-cache misses: ", stats.icMisses),
    ("D-cache hits: ", stats.dcHits), ("D-cache misses: ", stats.dcMisses),
    ("Load-use stalls: ", stats.loadUseStalls)]

def dumpSimStats (stats : SimulationStats) : String :=
  unlines (stats.cells.map (fun cell => leftSetw 23 cell.1 ++ toString cell.2.toNat))

/-! ### `finalizeSimulator` -/

/-- The files a simulator leaves. -/
structure Output where
  regState : String
  memState : String
  simStats : String

/-- `Simulator::dumpRegMem`, then `dumpSimStats`. -/
def Finalize (memRange : Option String) (simulator : Simulator) (stats : SimulationStats)
    (out : Output) : Prop :=
  out.regState = dumpRegisterState simulator.regData ∧
    DumpMemoryState memRange simulator.memory out.memState ∧ out.simStats = dumpSimStats stats

/-- `finalizeSimulator` of `funct.cpp`. -/
def Funct.FinalizeSimulator (memRange : Option String) (s : Funct.State) (out : Output) : Prop :=
  Finalize memRange s.simulator ⟨s.simulator.din, 0#64, 0#64, 0#64, 0#64, 0#64, 0#64⟩ out

/-- `finalizeSimulator` of `cycle.cpp`. -/
def FinalizeSimulator (memRange : Option String) (iCache dCache : Cache) (m : Machine)
    (out : Output) : Prop :=
  Finalize memRange m.simulator ⟨m.simulator.din, m.cycleCount, iCache.getHits, iCache.getMisses,
    dCache.getHits, dCache.getMisses, 0#64⟩ out

end CycleSim
