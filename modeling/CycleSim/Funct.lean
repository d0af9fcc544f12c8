import CycleSim.Simulator
import CycleSim.Lib.Loop

/-! `funct.cpp`: the functional simulator's driver. -/
namespace CycleSim

namespace Funct

/-- The globals of `funct.cpp`, less the output file name. -/
structure State where
  simulator : Simulator
  pc : BitVec 64 := 0#64
  deriving DecidableEq, Repr

/-- `initSimulator`. -/
def initSimulator (mem : MemoryStore) : State := { simulator := { memory := mem } }

/-- The body of the loop of `runInstructions` up to its two tests: the instruction
executed, and the globals after it. -/
def step (s : State) : Instruction × State :=
  let (inst, simulator) := s.simulator.simInstruction s.pc
  (inst, { simulator := simulator, pc := inst.nextPC })

/-- The loop of `runInstructions`, over `numInstructions` and the globals. -/
def runInstructionsBody (instructions : BitVec 64) (x : BitVec 64 × State) :
    (BitVec 64 × State) ⊕ (Status × State) :=
  if instructions = 0#64 ∨ x.1 < instructions then
    let (inst, s) := step x.2
    if inst.isHalt then .inr (.halt, s)
    else if !inst.isLegal then .inr (.error, s)
    else .inl (x.1 + 1#64, s)
  else .inr (.success, x.2)

/-- `runInstructions`, when its loop ends within `fuel` iterations. -/
def runInstructions (fuel : Nat) (instructions : BitVec 64) (s : State) : Option (Status × State) :=
  Loop.run (runInstructionsBody instructions) fuel (0#64, s)

/-- The loop of `runTillHalt`. A call `runInstructions(1)` ends within two
iterations of its loop. -/
def runTillHaltBody (s : State) : State ⊕ (Status × State) :=
  match runInstructions 2 1#64 s with
  | some (.halt, s') => .inr (.halt, s')
  | some (.error, s') => .inr (.error, s')
  | some (.success, s') => .inl s'
  | none => .inl s

end Funct

end CycleSim
