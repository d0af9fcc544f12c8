import CycleSim.Simulator
import CycleSim.Lib.Loop

/-! `cycle.cpp`: the five-stage pipeline.

`runCycle` is the body of the loop of `runCycles`. It is written stage by stage
in the order of the source: the stall tests read the latches as the previous
cycle left them, and each stage reads what the stages before it in the same
cycle have already replaced. The two caches are built by `initSimulator` and
never accessed, so they are not part of the state. -/
namespace CycleSim

/-- `nop`: an inserted instruction. -/
def nop (status : StageStatus) : Instruction :=
  { instruction := 0x00000013#64, isLegal := true, isNop := true, status := status }

/-- `struct PipelineInfo`. -/
structure PipelineInfo where
  ifInst : Instruction := nop .idle
  idInst : Instruction := nop .idle
  exInst : Instruction := nop .idle
  memInst : Instruction := nop .idle
  wbInst : Instruction := nop .idle
  deriving DecidableEq, Repr

/-- The globals of `cycle.cpp`, less the caches and the output file name. -/
structure Machine where
  simulator : Simulator
  cycleCount : BitVec 64 := 0#64
  pc : BitVec 64 := 0#64
  doneInst : Instruction := nop .idle
  pipelineInfo : PipelineInfo := {}
  deriving DecidableEq, Repr

/-- `initSimulator`. -/
def initSimulator (mem : MemoryStore) : Machine := { simulator := { memory := mem } }

/-- `hazard`. -/
def hazard (dstInst : Instruction) (srcReg : BitVec 64) : Bool :=
  dstInst.writesRd && dstInst.rd != 0#64 && dstInst.rd == srcReg

def isControl (inst : Instruction) : Bool := inst.opcode == opBranch || inst.opcode == opJalr

/-- One operand through the forwarding network: from MEM, else from WB, else from
the instruction WB held in the previous cycle, else unchanged. -/
def forward (memInst wbInst doneInst : Instruction) (srcReg old : BitVec 64) : BitVec 64 :=
  if hazard memInst srcReg then memInst.result
  else if hazard wbInst srcReg then wbInst.result
  else if hazard doneInst srcReg then doneInst.result
  else old

/-- Both operands through the forwarding network. -/
def forwardOperands (memInst wbInst doneInst inst : Instruction) : Instruction :=
  { inst with
    op1Val := forward memInst wbInst doneInst inst.rs1 inst.op1Val
    op2Val := forward memInst wbInst doneInst inst.rs2 inst.op2Val }

/-- The status given to an instruction that moved to ID, EX or MEM. -/
def stageStatus (inst : Instruction) : StageStatus :=
  if inst.isNop || inst.isHalt then .bubble else .normal

namespace Machine

/-! ### The stall tests at the top of the loop -/

/-- "Check load-use stalls". -/
def loadUseStall (m : Machine) : Bool :=
  let ID := m.pipelineInfo.idInst
  let EX := m.pipelineInfo.exInst
  EX.readsMem && EX.rd != 0#64 && (EX.rd == ID.rs1 || EX.rd == ID.rs2)

/-- "Check arithmetic-branch stall". -/
def arithBranchStall (m : Machine) : Bool :=
  let ID := m.pipelineInfo.idInst
  let EX := m.pipelineInfo.exInst
  EX.writesRd && isControl ID && EX.rd != 0#64 && (ID.rs1 == EX.rd || ID.rs2 == EX.rd)

/-- "load-branch stall number 2". -/
def loadBranchStall (m : Machine) : Bool :=
  let ID := m.pipelineInfo.idInst
  let MEM := m.pipelineInfo.memInst
  MEM.readsMem && MEM.writesRd && isControl ID && MEM.rd != 0#64 &&
    (MEM.rd == ID.rs1 || MEM.rd == ID.rs2)

def stall (m : Machine) : Bool := m.loadUseStall || m.arithBranchStall || m.loadBranchStall

/-! ### WB, MEM and EX -/

/-- WB: the latch, and the simulator after it. -/
def wbStage (m : Machine) : Instruction × Simulator :=
  let wb := m.simulator.simWB m.pipelineInfo.memInst
  ({ wb.1 with status := .normal }, wb.2)

/-- "Do a WB to MEM forward to give load to a store". -/
def storeForward (exInst wbInst : Instruction) : Instruction :=
  if exInst.writesMem && wbInst.rd != 0#64 && wbInst.readsMem then
    if exInst.rs2 == wbInst.rd then { exInst with op2Val := wbInst.memResult } else exInst
  else exInst

/-- MEM: the latch, and the simulator after it. -/
def memStage (m : Machine) : Instruction × Simulator :=
  let wb := m.wbStage
  let mem := wb.2.simMEM (storeForward m.pipelineInfo.exInst wb.1)
  ({ mem.1 with status := stageStatus mem.1 }, mem.2)

/-- The record passed to `simEX`: the ID latch with its operands forwarded. -/
def exInput (m : Machine) : Instruction :=
  forwardOperands m.memStage.1 m.wbStage.1 m.doneInst m.pipelineInfo.idInst

/-- EX. -/
def exStage (m : Machine) : Instruction :=
  if m.stall then nop .bubble
  else
    let inst := Simulator.simEX m.exInput
    { inst with status := stageStatus inst }

/-! ### ID -/

/-- `simulator->simID(pipelineInfo.ifInst)`: `newIDInst`, and the simulator after it. -/
def newIDInst (m : Machine) : Instruction × Simulator :=
  m.memStage.2.simID m.pipelineInfo.ifInst

/-- `branchStall` as the ID stage sets it. -/
def branchStall (m : Machine) : Bool :=
  let inst := m.newIDInst.1
  !m.stall && isControl inst &&
    ((hazard m.exStage inst.rs1 || hazard m.exStage inst.rs2) ||
      ((hazard m.memStage.1 inst.rs1 || hazard m.memStage.1 inst.rs2) && m.memStage.1.readsMem))

/-- The record passed to `simNextPCResolution` in "branch forwarding": `newIDInst` with its
operands forwarded. -/
def resolveInput (m : Machine) : Instruction :=
  forwardOperands m.memStage.1 m.wbStage.1 m.doneInst m.newIDInst.1

/-- `newIDInst` after "branch forwarding": the next PC of a branch or `jalr` is
resolved again on the forwarded operands. -/
def resolvedID (m : Machine) : Instruction :=
  let inst := m.newIDInst.1
  if isControl inst then simNextPCResolution m.resolveInput else inst

/-- ID. -/
def idStage (m : Machine) : Instruction :=
  if m.stall then m.pipelineInfo.idInst
  else if m.branchStall then nop .bubble
  else { m.resolvedID with status := stageStatus m.resolvedID }

/-- The simulator after ID. -/
def idSimulator (m : Machine) : Simulator := if m.stall then m.memStage.2 else m.newIDInst.2

/-- `flush`. -/
def flush (m : Machine) : Bool :=
  !m.stall && !m.branchStall && m.idStage.nextPC != m.pipelineInfo.ifInst.pc + 4#64

/-! ### IF, and the whole cycle -/

/-- `PC` as the ID stage leaves it. -/
def redirectedPC (m : Machine) : BitVec 64 := if m.flush then m.idStage.nextPC else m.pc

/-- IF. -/
def ifStage (m : Machine) : Instruction :=
  if m.stall || m.branchStall then m.pipelineInfo.ifInst
  else if m.flush then nop .bubble
  else { m.idSimulator.simIF m.redirectedPC with status := .normal }

/-- `PC` at the end of the cycle. -/
def nextPC (m : Machine) : BitVec 64 :=
  if m.stall || m.branchStall then m.redirectedPC
  else if m.flush then m.redirectedPC
  else m.redirectedPC + 4#64

/-- The body of the loop of `runCycles`. -/
def runCycle (m : Machine) : Machine :=
  { simulator := m.idSimulator
    cycleCount := m.cycleCount + 1#64
    pc := m.nextPC
    doneInst := m.wbStage.1
    pipelineInfo :=
      { ifInst := m.ifStage
        idInst := m.idStage
        exInst := m.exStage
        memInst := m.memStage.1
        wbInst := m.wbStage.1 } }

end Machine

/-! ### The drivers -/

/-- `struct PipeState`. -/
structure PipeState where
  cycle : BitVec 64
  ifStatus : StageStatus
  ifPC : BitVec 64
  idStatus : StageStatus
  idInstr : BitVec 64
  exStatus : StageStatus
  exInstr : BitVec 64
  memStatus : StageStatus
  memInstr : BitVec 64
  wbStatus : StageStatus
  wbInstr : BitVec 64
  deriving DecidableEq, Repr

/-- The `PipeState` filled in after the loop of `runCycles`. -/
def Machine.pipeState (m : Machine) (cycle : BitVec 64) : PipeState where
  cycle := cycle
  ifPC := m.pipelineInfo.ifInst.pc
  ifStatus := m.pipelineInfo.ifInst.status
  idInstr := m.pipelineInfo.idInst.instruction
  idStatus := m.pipelineInfo.idInst.status
  exInstr := m.pipelineInfo.exInst.instruction
  exStatus := m.pipelineInfo.exInst.status
  memInstr := m.pipelineInfo.memInst.instruction
  memStatus := m.pipelineInfo.memInst.status
  wbInstr := m.pipelineInfo.wbInst.instruction
  wbStatus := m.pipelineInfo.wbInst.status

/-- What `runCycles` carries from one iteration to the next. -/
structure CycleLoop where
  count : BitVec 64
  cycle : BitVec 64
  machine : Machine

/-- The loop of `runCycles`: the status, the `PipeState` dumped and the globals. -/
def runCyclesBody (cycles : BitVec 64) (x : CycleLoop) :
    CycleLoop ⊕ (Status × PipeState × Machine) :=
  if cycles = 0#64 ∨ x.count < cycles then
    let m := x.machine.runCycle
    if m.pipelineInfo.wbInst.isHalt then
      .inr (.halt, m.pipeState x.machine.cycleCount, m)
    else .inl ⟨x.count + 1#64, x.machine.cycleCount, m⟩
  else .inr (.success, x.machine.pipeState x.cycle, x.machine)

/-- `runCycles`, when its loop ends within `fuel` iterations. -/
def runCycles (fuel : Nat) (cycles : BitVec 64) (m : Machine) :
    Option (Status × PipeState × Machine) :=
  Loop.run (runCyclesBody cycles) fuel ⟨0#64, 0#64, m⟩

/-- The loop of `runTillHalt`, with the dumps written so far. A call
`runCycles(1)` ends within two iterations of its loop. -/
def runTillHaltBody (x : List PipeState × Machine) :
    (List PipeState × Machine) ⊕ (Status × List PipeState × Machine) :=
  match runCycles 2 1#64 x.2 with
  | some (.halt, dump, m) => .inr (.halt, x.1 ++ [dump], m)
  | some (_, dump, m) => .inl (x.1 ++ [dump], m)
  | none => .inl x

end CycleSim
