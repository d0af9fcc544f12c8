import CycleSim.Utilities

/-! `Utilities.cpp`: the text of an instruction in the pipeline dump.

An output stream is the list of what has been inserted into it, strings and integers, so
that a printed number is not lost in its digits; `render` gives the characters. -/
namespace CycleSim

/-- One insertion into an output stream. -/
inductive Piece
  | str (text : String)
  | num (value : Int)
  deriving DecidableEq, Repr

/-- An `int64_t`, printed with its sign. -/
def Piece.int64 (value : BitVec 64) : Piece := .num value.toInt

/-- A `uint64_t`. -/
def Piece.uint64 (value : BitVec 64) : Piece := .num value.toNat

def Piece.render : Piece → String
  | .str text => text
  | .num value => toString value

def render (pieces : List Piece) : String := String.join (pieces.map Piece.render)

/-- `std::left << std::setw(width)`. -/
def leftSetw (width : Nat) (text : String) : String := text.pushn ' ' (width - text.length)

/-- `regNames`. -/
def regNames : List String :=
  ["zero", "ra", "sp", "gp", "tp", "t0", "t1", "t2",
    "s0", "s1", "a0", "a1", "a2", "a3", "a4", "a5",
    "a6", "a7", "s2", "s3", "s4", "s5", "s6", "s7", "s8",
    "s9", "s10", "s11", "t3", "t4", "t5", "t6"]

/-- `regNames[i]`. Register numbers are five-bit fields, so the default is never reached. -/
def regName (i : BitVec 64) : Piece := .str (regNames[i.toNat]?.getD "")

/-- `stageStatusStr`. -/
def stageStatusStr : StageStatus → String
  | .bubble => " (bubble) "
  | .idle => " (idle) "
  | .normal => " "
  | .speculative => " (spcu) "
  | .squashed => " (squashed) "

/-! ### `getOpString`: `none` is its `return "ILLEGAL"` -/

/-- `case OP_INTIMM` and `case OP_INT`. -/
def intBody (opcode funct3 funct7 : BitVec 64) : Option String :=
  if funct3 = funct3Add then
    if opcode = opInt then
      if funct7 = funct7Add then some "add"
      else if funct7 = funct7Sub then some "sub"
      else none
    else some "add"
  else if funct3 = funct3Sll then some "sll"
  else if funct3 = funct3Slt then some "slt"
  else if funct3 = funct3Sltu then some "sltu"
  else if funct3 = funct3Xor then some "xor"
  else if funct3 = funct3Sr then
    if funct7 >>> 1 = upperImmLogical then some "srl"
    else if funct7 >>> 1 = upperImmArith then some "sra"
    else none
  else if funct3 = funct3Or then some "or"
  else if funct3 = funct3And then some "and"
  else none

/-- `case OP_INTIMMW` and `case OP_INTW`. -/
def intWBody (funct3 funct7 : BitVec 64) : Option String :=
  if funct3 = funct3Add then
    if funct7 = funct7Add then some "add"
    else if funct7 = funct7Sub then some "sub"
    else none
  else if funct3 = funct3Sll then some "sll"
  else if funct3 = funct3Sr then
    if funct7 = funct7Logical then some "srl"
    else if funct7 = funct7Arith then some "sra"
    else none
  else none

/-- `case OP_LOAD`. -/
def loadBody (funct3 : BitVec 64) : Option String :=
  if funct3 = funct3B then some "b"
  else if funct3 = funct3H then some "h"
  else if funct3 = funct3W then some "w"
  else if funct3 = funct3D then some "d"
  else if funct3 = funct3BU then some "bu"
  else if funct3 = funct3HU then some "hu"
  else if funct3 = funct3WU then some "wu"
  else none

/-- `case OP_STORE`. -/
def storeBody (funct3 : BitVec 64) : Option String :=
  if funct3 = funct3B then some "b"
  else if funct3 = funct3H then some "h"
  else if funct3 = funct3W then some "w"
  else if funct3 = funct3D then some "d"
  else none

/-- `case OP_BRANCH`. -/
def branchBody (funct3 : BitVec 64) : Option String :=
  if funct3 = funct3Beq then some "eq"
  else if funct3 = funct3Bne then some "ne"
  else if funct3 = funct3Blt then some "lt"
  else if funct3 = funct3Bge then some "ge"
  else if funct3 = funct3Bltu then some "ltu"
  else if funct3 = funct3Bgeu then some "geu"
  else none

/-- The `switch` of `getOpString`. -/
def opBody (opcode funct3 funct7 : BitVec 64) : Option String :=
  if opcode = opIntImm then (intBody opcode funct3 funct7).map (fun body => body ++ "i")
  else if opcode = opInt then intBody opcode funct3 funct7
  else if opcode = opIntImmW then (intWBody funct3 funct7).map (fun body => body ++ ("i" ++ "w"))
  else if opcode = opIntW then (intWBody funct3 funct7).map (fun body => body ++ "w")
  else if opcode = opLoad then (loadBody funct3).map (fun body => "l" ++ body)
  else if opcode = opStore then (storeBody funct3).map (fun body => "s" ++ body)
  else if opcode = opBranch then (branchBody funct3).map (fun body => "b" ++ body)
  else if opcode = opJal then some "jal"
  else if opcode = opJalr then some "jalr"
  else if opcode = opLui then some "lui"
  else if opcode = opAuipc then some "auipc"
  else none

/-- `getOpString`. -/
def getOpString (opcode funct3 funct7 : BitVec 64) : String :=
  (opBody opcode funct3 funct7).getD "ILLEGAL"

/-! ### The formats -/

/-- `handleIAndR`. -/
def handleIAndR (curInst : BitVec 64) : List Piece :=
  let opcode := extractBits curInst 6 0
  let rd := extractBits curInst 11 7
  let funct3 := extractBits curInst 14 12
  let rs1 := extractBits curInst 19 15
  let rs2 := extractBits curInst 24 20
  let funct7 := extractBits curInst 31 25
  let imm12 := extractBits curInst 31 20
  let sextImm12 := sext64 imm12 11
  let opcodeStr := getOpString opcode funct3 funct7
  if opcodeStr = "ILLEGAL" then [.str " ILLEGAL"]
  else if opcode = opInt ∨ opcode = opIntW then
    [.str " ", .str opcodeStr, .str " ", regName rd, .str ", ", regName rs1, .str ", ", regName rs2]
  else
    [.str " ", .str opcodeStr, .str " ", regName rd, .str ", ", regName rs1, .str ", ",
      if funct3 = funct3Sll ∨ funct3 = funct3Sr then .uint64 (imm12 &&& 0x3F#64)
      else .int64 sextImm12]

/-- `handleLAndS`. -/
def handleLAndS (curInst : BitVec 64) : List Piece :=
  let opcode := extractBits curInst 6 0
  let rd := extractBits curInst 11 7
  let funct3 := extractBits curInst 14 12
  let rs1 := extractBits curInst 19 15
  let rs2 := extractBits curInst 24 20
  let imm5 := extractBits curInst 11 7
  let imm7 := extractBits curInst 31 25
  let imm12 := extractBits curInst 31 20
  let sextImm12 := sext64 imm12 11
  let storeImm := sext64 ((imm7 <<< 5) ||| imm5) 11
  let opcodeStr := getOpString opcode funct3 0#64
  if opcodeStr = "ILLEGAL" then [.str " ILLEGAL"]
  else if opcode = opLoad then
    [.str " ", .str opcodeStr, .str " ", regName rd, .str ", ", .int64 sextImm12, .str "(",
      regName rs1, .str ")"]
  else
    [.str " ", .str opcodeStr, .str " ", regName rs2, .str ", ", .int64 storeImm, .str "(",
      regName rs1, .str ")"]

/-- `handleBranch`. -/
def handleBranch (curInst : BitVec 64) : List Piece :=
  let opcode := extractBits curInst 6 0
  let rs1 := extractBits curInst 19 15
  let rs2 := extractBits curInst 24 20
  let funct3 := extractBits curInst 14 12
  let imm7 := extractBits curInst 31 25
  let imm5 := extractBits curInst 11 7
  let branchImm := sext64 ((extractBits imm7 6 6 <<< 12) ||| (extractBits imm7 5 0 <<< 5) |||
    (extractBits imm5 4 1 <<< 1) ||| (extractBits imm5 0 0 <<< 11)) 12
  let opcodeStr := getOpString opcode funct3 0#64
  if opcodeStr = "ILLEGAL" then [.str " ILLEGAL"]
  else
    [.str " ", .str opcodeStr, .str " ", regName rs1, .str ", ", regName rs2, .str ", ",
      .int64 branchImm]

/-- `handleSpecial`. -/
def handleSpecial (curInst : BitVec 64) : List Piece :=
  let opcode := extractBits curInst 6 0
  let rd := extractBits curInst 11 7
  let imm20 := extractBits curInst 31 12
  let sextUpper := sext64 (imm20 <<< 12) 19
  let jalImm := sext64 ((extractBits imm20 19 19 <<< 20) ||| (extractBits imm20 18 9 <<< 1) |||
    (extractBits imm20 8 8 <<< 11) ||| (extractBits imm20 7 0 <<< 12)) 20
  let opcodeStr := getOpString opcode 0#64 0#64
  if opcodeStr = "ILLEGAL" then [.str " ILLEGAL"]
  else if opcode = opJal then
    [.str " ", .str opcodeStr, .str " ", regName rd, .str ", ", .int64 jalImm]
  else
    [.str " ", .str opcodeStr, .str " ", regName rd, .str ", ", .int64 sextUpper]

/-- What `printInstr` inserts for an instruction, before its status. -/
def instrText (curInst : BitVec 32) : List Piece :=
  if curInst = 0xfeedfeed#32 then [.str " HALT"]
  else if curInst = 0x00000013#32 then [.str " NOP"]
  else
    let word := curInst.setWidth 64
    let opcode := extractBits word 6 0
    if opcode = opInt ∨ opcode = opIntW ∨ opcode = opIntImm ∨ opcode = opIntImmW ∨
        opcode = opJalr then handleIAndR word
    else if opcode = opLoad ∨ opcode = opStore then handleLAndS word
    else if opcode = opBranch then handleBranch word
    else if opcode = opJal ∨ opcode = opLui ∨ opcode = opAuipc then handleSpecial word
    else [.str " ILLEGAL"]

/-- `printInstr`. -/
def printInstr (curInst : BitVec 32) (status : StageStatus) : String :=
  leftSetw 25 (render (instrText curInst ++ [.str (stageStatusStr status)]))

end CycleSim
