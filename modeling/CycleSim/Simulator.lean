import CycleSim.MemoryStore

/-! `simulator.h`, `simulator.cpp`: the instruction record, the functional steps
that fill it in, the five pipeline stages built from them, and the
one-instruction functional simulator.

Every step takes the record and returns it with fields assigned, as the source
does; a field no step has assigned keeps its default. -/
namespace CycleSim

/-- `EXCEPTION_HANDLER`. -/
def exceptionHandler : BitVec 64 := 0x8000#64

/-- The fields of `Simulator::Instruction` that `simFetch` and `simDecode` assign. -/
structure Decoding where
  pc : BitVec 64 := 0#64
  instruction : BitVec 64 := 0#64
  isHalt : Bool := false
  isLegal : Bool := false
  isNop : Bool := false
  readsMem : Bool := false
  writesMem : Bool := false
  doesArithLogic : Bool := false
  writesRd : Bool := false
  readsRs1 : Bool := false
  readsRs2 : Bool := false
  opcode : BitVec 64 := 0#64
  funct3 : BitVec 64 := 0#64
  funct7 : BitVec 64 := 0#64
  rd : BitVec 64 := 0#64
  rs1 : BitVec 64 := 0#64
  rs2 : BitVec 64 := 0#64
  deriving DecidableEq, Repr

/-- `Simulator::Instruction`, less `memException` and `valToWrite`, which nothing
reads or assigns. -/
structure Instruction extends Decoding where
  nextPC : BitVec 64 := 0#64
  op1Val : BitVec 64 := 0#64
  op2Val : BitVec 64 := 0#64
  arithResult : BitVec 64 := 0#64
  memAddress : BitVec 64 := 0#64
  memResult : BitVec 64 := 0#64
  instructionID : BitVec 64 := 0#64
  status : StageStatus := .normal
  deriving DecidableEq, Repr

/-- `union REGS`, as its array of registers. -/
structure Regs where
  registers : Vector (BitVec 64) 32
  deriving DecidableEq, Repr

namespace Regs

def zero : Regs := ⟨Vector.replicate 32 0#64⟩

/-- `registers[i]`. Register numbers are five-bit fields, so the default is never reached. -/
def get (r : Regs) (i : BitVec 64) : BitVec 64 := r.registers[i.toNat]?.getD 0#64

/-- `registers[i] = value`. -/
def set (r : Regs) (i value : BitVec 64) : Regs :=
  ⟨r.registers.setIfInBounds i.toNat value⟩

end Regs

/-! ### Functional steps -/

/-- `Simulator::simFetch`. A failed read leaves the bytes it got before the error. -/
def simFetch (pc : BitVec 64) (myMem : MemoryStore) : Instruction :=
  let instruction := (myMem.getMemValue pc 0#64 .wordSize).value
  { pc := pc, instruction := (instruction.setWidth 32).setWidth 64 }

/-! The conditions `simDecode` tests in each case of its `switch` on the opcode. -/

def acceptsInt (funct3 funct7 : BitVec 64) : Bool :=
  (funct3 == funct3Add && (funct7 == funct7Add || funct7 == funct7Sub)) ||
    funct3 == funct3Sll || funct3 == funct3Slt || funct3 == funct3Sltu ||
    funct3 == funct3Xor || (funct3 == funct3Sr && (funct7 >>> 1 == upperImmArith ||
    funct7 >>> 1 == upperImmLogical)) || funct3 == funct3Or || funct3 == funct3And

def acceptsIntW (funct3 funct7 : BitVec 64) : Bool :=
  (funct3 == funct3Add && (funct7 == funct7Add || funct7 == funct7Sub)) ||
    funct3 == funct3Sll || (funct3 == funct3Sr && (funct7 == funct7Arith ||
    funct7 == funct7Logical))

def acceptsLoad (funct3 : BitVec 64) : Bool :=
  funct3 == funct3B || funct3 == funct3H ||
    funct3 == funct3W || funct3 == funct3D ||
    funct3 == funct3BU || funct3 == funct3HU ||
    funct3 == funct3WU

def acceptsIntImm (funct3 funct7 : BitVec 64) : Bool :=
  funct3 == funct3Add || funct3 == funct3Sll || funct3 == funct3Slt ||
    funct3 == funct3Sltu || funct3 == funct3Xor || (funct3 == funct3Sr &&
    (funct7 >>> 1 == upperImmArith || funct7 >>> 1 == upperImmLogical)) ||
    funct3 == funct3Or || funct3 == funct3And

def acceptsIntImmW (funct3 funct7 : BitVec 64) : Bool :=
  funct3 == funct3Add || funct3 == funct3Sll ||
    (funct3 == funct3Sr && (funct7 == funct7Arith ||
    funct7 == funct7Logical))

def acceptsStore (funct3 : BitVec 64) : Bool :=
  funct3 == funct3B || funct3 == funct3H ||
    funct3 == funct3W || funct3 == funct3D

def acceptsBranch (funct3 : BitVec 64) : Bool :=
  funct3 == funct3Beq || funct3 == funct3Bne ||
    funct3 == funct3Blt || funct3 == funct3Bge ||
    funct3 == funct3Bltu || funct3 == funct3Bgeu

/-- The assignments of `simDecode` before its first test. -/
def decodeFields (inst : Instruction) : Instruction :=
  { inst with
    opcode := extractBits inst.instruction 6 0
    rd := extractBits inst.instruction 11 7
    funct3 := extractBits inst.instruction 14 12
    rs1 := extractBits inst.instruction 19 15
    rs2 := extractBits inst.instruction 24 20
    funct7 := extractBits inst.instruction 31 25
    isLegal := true }

/-- The `switch` of `simDecode`. -/
def decodeOpcode (inst : Instruction) : Instruction :=
  if inst.opcode = opInt then
    if acceptsInt inst.funct3 inst.funct7 then
      { inst with doesArithLogic := true, writesRd := true, readsRs1 := true, readsRs2 := true }
    else { inst with isLegal := false }
  else if inst.opcode = opIntW then
    if acceptsIntW inst.funct3 inst.funct7 then
      { inst with doesArithLogic := true, writesRd := true, readsRs1 := true, readsRs2 := true }
    else { inst with isLegal := false }
  else if inst.opcode = opLoad then
    if acceptsLoad inst.funct3 then
      { inst with readsRs1 := true, writesRd := true, readsMem := true }
    else { inst with isLegal := false }
  else if inst.opcode = opIntImm then
    if acceptsIntImm inst.funct3 inst.funct7 then
      { inst with doesArithLogic := true, writesRd := true, readsRs1 := true }
    else { inst with isLegal := false }
  else if inst.opcode = opIntImmW then
    if acceptsIntImmW inst.funct3 inst.funct7 then
      { inst with doesArithLogic := true, writesRd := true, readsRs1 := true }
    else { inst with isLegal := false }
  else if inst.opcode = opJalr then
    { inst with isLegal := true, doesArithLogic := true, writesRd := true, readsRs1 := true }
  else if inst.opcode = opStore then
    if acceptsStore inst.funct3 then
      { inst with readsRs1 := true, readsRs2 := true, writesMem := true }
    else { inst with isLegal := false }
  else if inst.opcode = opBranch then
    if acceptsBranch inst.funct3 then
      { inst with readsRs1 := true, readsRs2 := true }
    else { inst with isLegal := false }
  else if inst.opcode = opAuipc ∨ inst.opcode = opLui ∨ inst.opcode = opJal then
    { inst with isLegal := true, doesArithLogic := true, writesRd := true }
  else { inst with isLegal := false }

/-- `Simulator::simDecode`. -/
def simDecode (inst : Instruction) : Instruction :=
  let inst := decodeFields inst
  if inst.instruction = 0xfeedfeed#64 then { inst with isHalt := true }
  else if inst.instruction = 0x00000013#64 then { inst with isNop := true }
  else decodeOpcode inst

/-- `Simulator::simOperandCollection`: `regData` is a copy, so clearing its register 0
leaves the registers alone. -/
def simOperandCollection (inst : Instruction) (regData : Regs) : Instruction :=
  let regData := regData.set 0#64 0#64
  { inst with
    op1Val := if inst.readsRs1 then regData.get inst.rs1 else inst.op1Val
    op2Val := if inst.readsRs2 then regData.get inst.rs2 else inst.op2Val }

/-- The B-type immediate of `simNextPCResolution`. -/
def branchImm (imm5 imm7 : BitVec 64) : BitVec 64 :=
  sext64 ((extractBits imm7 6 6 <<< 12) ||| (extractBits imm7 5 0 <<< 5) |||
    (extractBits imm5 4 1 <<< 1) ||| (extractBits imm5 0 0 <<< 11)) 12

/-- The J-type immediate of `simNextPCResolution`. -/
def jalImm (imm20 : BitVec 64) : BitVec 64 :=
  sext64 ((extractBits imm20 19 19 <<< 20) ||| (extractBits imm20 18 9 <<< 1) |||
    (extractBits imm20 8 8 <<< 11) ||| (extractBits imm20 7 0 <<< 12)) 20

/-- The inner `switch` on `funct3` of `simNextPCResolution`: whether the branch is taken. -/
def branchTaken (funct3 op1Val op2Val : BitVec 64) : Bool :=
  if funct3 = funct3Beq then op1Val == op2Val
  else if funct3 = funct3Bne then op1Val != op2Val
  else if funct3 = funct3Blt then op1Val.slt op2Val
  else if funct3 = funct3Bge then !op1Val.slt op2Val
  else if funct3 = funct3Bltu then op1Val.ult op2Val
  else if funct3 = funct3Bgeu then !op1Val.ult op2Val
  else false

/-- `Simulator::simNextPCResolution`. -/
def simNextPCResolution (inst : Instruction) : Instruction :=
  let imm5 := inst.rd
  let imm7 := inst.funct7
  let imm12 := extractBits inst.instruction 31 20
  let imm20 := extractBits inst.instruction 31 12
  let branchTarget := inst.pc + branchImm imm5 imm7
  let jalTarget := inst.pc + jalImm imm20
  { inst with nextPC :=
      if inst.opcode = opJalr then (inst.op1Val + sext64 imm12 11) &&& ~~~1#64
      else if inst.opcode = opBranch then
        if branchTaken inst.funct3 inst.op1Val inst.op2Val then branchTarget else inst.pc + 4#64
      else if inst.opcode = opJal then jalTarget
      else inst.pc + 4#64 }

/-- The operand masking at the top of `simArithLogic`. -/
def maskShift (inst : Instruction) : BitVec 64 :=
  if inst.opcode = opInt ∧ (inst.funct3 = funct3Sll ∨ inst.funct3 = funct3Sr) then
    inst.op2Val &&& 0x3F#64
  else if inst.opcode = opIntW ∧ (inst.funct3 = funct3Sll ∨ inst.funct3 = funct3Sr) then
    inst.op2Val &&& 0x1F#64
  else inst.op2Val

/-- A C++ comparison stored in a `uint64_t`. -/
def ofBool (b : Bool) : BitVec 64 := if b then 1#64 else 0#64

/-- `(uint32_t)x`, and back to `uint64_t` sign extended from bit 31 by `sext64`. -/
def sextWord (x : BitVec 32) : BitVec 64 := sext64 (x.setWidth 64) 31

/-- `case OP_INT` of `simArithLogic`: the value assigned to `arithResult`, if any. -/
def arithInt (funct3 funct7 upperImm12 op1Val op2Val : BitVec 64) : Option (BitVec 64) :=
  if funct3 = funct3Add then
    if funct7 = funct7Add then some (op1Val + op2Val)
    else if funct7 = funct7Sub then some (op1Val - op2Val)
    else none
  else if funct3 = funct3Sll then some (op1Val <<< op2Val)
  else if funct3 = funct3Slt then some (ofBool (op1Val.slt op2Val))
  else if funct3 = funct3Sltu then some (ofBool (op1Val.ult op2Val))
  else if funct3 = funct3Xor then some (op1Val ^^^ op2Val)
  else if funct3 = funct3Sr then
    if upperImm12 = funct7Logical then some (op1Val >>> op2Val)
    else if upperImm12 = upperImmArith then some (op1Val.sshiftRight' op2Val)
    else none
  else if funct3 = funct3Or then some (op1Val ||| op2Val)
  else if funct3 = funct3And then some (op1Val &&& op2Val)
  else none

/-- `case OP_INTW`. An `int32_t` shifted right arithmetically becomes a `uint64_t`
by sign extension, before `sext64`. -/
def arithIntW (funct3 funct7 upperImm12 op1Val op2Val : BitVec 64) : Option (BitVec 64) :=
  let word1 := op1Val.setWidth 32
  let word2 := op2Val.setWidth 32
  if funct3 = funct3Add then
    if funct7 = funct7Add then some (sextWord (word1 + word2))
    else if funct7 = funct7Sub then some (sextWord (word1 - word2))
    else none
  else if funct3 = funct3Sll then some (sextWord (word1 <<< word2))
  else if funct3 = funct3Sr then
    if upperImm12 = funct7Logical then some (sextWord (word1 >>> word2))
    else if upperImm12 = upperImmArith then
      some (sext64 ((word1.sshiftRight' word2).signExtend 64) 31)
    else none
  else none

/-- `case OP_INTIMM`. -/
def arithIntImm (funct3 upperImm12 imm12 op1Val : BitVec 64) : Option (BitVec 64) :=
  if funct3 = funct3Add then some (op1Val + sext64 imm12 11)
  else if funct3 = funct3Sll then some (op1Val <<< (imm12 &&& 0x3F#64))
  else if funct3 = funct3Slt then some (ofBool (op1Val.slt (sext64 imm12 11)))
  else if funct3 = funct3Sltu then some (ofBool (op1Val.ult (sext64 imm12 11)))
  else if funct3 = funct3Xor then some (op1Val ^^^ sext64 imm12 11)
  else if funct3 = funct3Sr then
    if upperImm12 = upperImmLogical then some (op1Val >>> (imm12 &&& 0x3F#64))
    else if upperImm12 = upperImmArith then some (op1Val.sshiftRight' (imm12 &&& 0x3F#64))
    else none
  else if funct3 = funct3Or then some (op1Val ||| sext64 imm12 11)
  else if funct3 = funct3And then some (op1Val &&& sext64 imm12 11)
  else none

/-- `case OP_INTIMMW`. -/
def arithIntImmW (funct3 upperImm12 imm12 op1Val : BitVec 64) : Option (BitVec 64) :=
  let word1 := op1Val.setWidth 32
  let shamt := (imm12 &&& 0x1F#64).setWidth 32
  if funct3 = funct3Add then some (sextWord (word1 + sext32 (imm12.setWidth 32) 11))
  else if funct3 = funct3Sll then some (sextWord (word1 <<< shamt))
  else if funct3 = funct3Sr then
    if upperImm12 = upperImmLogical then some (sextWord (word1 >>> shamt))
    else if upperImm12 = upperImmArith then
      some (sext64 ((word1.sshiftRight' shamt).signExtend 64) 31)
    else none
  else none

/-- The `switch` of `simArithLogic`: the value some case assigns to `arithResult`,
`none` when no case does. -/
def arithAssigned (inst : Instruction) : Option (BitVec 64) :=
  let imm12 := extractBits inst.instruction 31 20
  let upperImm12 := extractBits inst.instruction 31 26
  let imm20 := extractBits inst.instruction 31 12
  if inst.opcode = opInt then
    arithInt inst.funct3 inst.funct7 upperImm12 inst.op1Val (maskShift inst)
  else if inst.opcode = opIntW then
    arithIntW inst.funct3 inst.funct7 upperImm12 inst.op1Val (maskShift inst)
  else if inst.opcode = opIntImm then arithIntImm inst.funct3 upperImm12 imm12 inst.op1Val
  else if inst.opcode = opIntImmW then arithIntImmW inst.funct3 upperImm12 imm12 inst.op1Val
  else if inst.opcode = opJalr then some (inst.pc + 4#64)
  else if inst.opcode = opAuipc then some (inst.pc + sext64 (imm20 <<< 12) 31)
  else if inst.opcode = opLui then some (sext64 (imm20 <<< 12) 31)
  else if inst.opcode = opJal then some (inst.pc + 4#64)
  else none

/-- `Simulator::simArithLogic`. -/
def simArithLogic (inst : Instruction) : Instruction :=
  { inst with
    op2Val := maskShift inst
    arithResult := (arithAssigned inst).getD inst.arithResult }

/-- `Simulator::simAddrGen`. -/
def simAddrGen (inst : Instruction) : Instruction :=
  let imm5 := inst.rd
  let imm7 := inst.funct7
  let imm12 := extractBits inst.instruction 31 20
  let storeImm := sext64 ((imm7 <<< 5) ||| imm5) 11
  { inst with memAddress :=
      if inst.readsMem then inst.op1Val + sext64 imm12 11
      else if inst.writesMem then inst.op1Val + storeImm
      else inst.memAddress }

/-- The access size `simMemAccess` derives from `funct3`. -/
def accessSize (funct3 : BitVec 64) : MemEntrySize :=
  if funct3 = funct3B ∨ funct3 = funct3BU then .byteSize
  else if funct3 = funct3H ∨ funct3 = funct3HU then .halfSize
  else if funct3 = funct3W ∨ funct3 = funct3WU then .wordSize
  else .doubleSize

/-- `Simulator::simMemAccess`. Neither error code is looked at. -/
def simMemAccess (inst : Instruction) (myMem : MemoryStore) : Instruction × MemoryStore :=
  let size := accessSize inst.funct3
  if inst.readsMem then
    let value := (myMem.getMemValue inst.memAddress 0#64 size).value
    let memResult :=
      if inst.funct3 = funct3B ∨ inst.funct3 = funct3H ∨ inst.funct3 = funct3W then
        sext64 value (size.toNat * 8 - 1)
      else value
    ({ inst with memResult := memResult }, myMem)
  else if inst.writesMem then
    (inst, (myMem.setMemValue inst.memAddress inst.op2Val size).store)
  else (inst, myMem)

/-- The value an instruction writes to its destination register. -/
def Instruction.result (inst : Instruction) : BitVec 64 :=
  if inst.readsMem then inst.memResult else inst.arithResult

/-- `Simulator::simCommit`. -/
def simCommit (inst : Instruction) (regData : Regs) : Regs :=
  regData.set inst.rd inst.result

/-! ### The simulator object -/

/-- The state of class `Simulator`. -/
structure Simulator where
  regData : Regs := .zero
  memory : MemoryStore
  din : BitVec 64 := 0#64
  deriving DecidableEq, Repr

namespace Simulator

/-- `Simulator::simIF`. -/
def simIF (s : Simulator) (pc : BitVec 64) : Instruction := simFetch pc s.memory

/-- `Simulator::simID`. -/
def simID (s : Simulator) (inst : Instruction) : Instruction × Simulator :=
  let inst := simDecode inst
  let inst := { inst with instructionID := s.din }
  let s := { s with din := s.din + 1#64 }
  if !inst.isLegal || inst.isHalt then (inst, s)
  else
    let inst := simOperandCollection inst s.regData
    let inst := simNextPCResolution inst
    (inst, s)

/-- `Simulator::simEX`. -/
def simEX (inst : Instruction) : Instruction :=
  let inst := if inst.doesArithLogic then simArithLogic inst else inst
  if inst.readsMem || inst.writesMem then simAddrGen inst else inst

/-- `Simulator::simMEM`. -/
def simMEM (s : Simulator) (inst : Instruction) : Instruction × Simulator :=
  if inst.readsMem || inst.writesMem then
    let (inst, memory) := simMemAccess inst s.memory
    (inst, { s with memory := memory })
  else (inst, s)

/-- `Simulator::simWB`. -/
def simWB (s : Simulator) (inst : Instruction) : Instruction × Simulator :=
  if inst.writesRd then (inst, { s with regData := simCommit inst s.regData }) else (inst, s)

/-- `Simulator::simInstruction`. -/
def simInstruction (s : Simulator) (pc : BitVec 64) : Instruction × Simulator :=
  let inst := simFetch pc s.memory
  let inst := simDecode inst
  let inst := { inst with instructionID := s.din }
  let s := { s with din := s.din + 1#64 }
  if !inst.isLegal || inst.isHalt then (inst, s)
  else
    let inst := simOperandCollection inst s.regData
    let inst := simNextPCResolution inst
    let inst := if inst.doesArithLogic then simArithLogic inst else inst
    let (inst, s) :=
      if inst.readsMem || inst.writesMem then
        let inst := simAddrGen inst
        let (inst, memory) := simMemAccess inst s.memory
        (inst, { s with memory := memory })
      else (inst, s)
    if inst.writesRd then (inst, { s with regData := simCommit inst s.regData }) else (inst, s)

end Simulator

end CycleSim
