/-! `Utilities.h`, `Utilities.cpp`: the constants of the instruction encoding and
the bit operations every other file is written with.

Every C++ integer keeps its width: `uint64_t` is `BitVec 64`, `uint32_t` and
`int` are `BitVec 32`, and the conversions between them are written out. -/
namespace CycleSim

/-- `enum Status`. -/
inductive Status
  | success
  | error
  | halt
  deriving DecidableEq, Repr

/-- `enum StageStatus`. -/
inductive StageStatus
  | normal
  | bubble
  | idle
  | speculative
  | squashed
  deriving DecidableEq, Repr

/-! ### `enum OPCODES` -/

def opInt : BitVec 64 := 0b0110011#64
def opIntW : BitVec 64 := 0b0111011#64
def opLoad : BitVec 64 := 0b0000011#64
def opIntImm : BitVec 64 := 0b0010011#64
def opIntImmW : BitVec 64 := 0b0011011#64
def opJalr : BitVec 64 := 0b1100111#64
def opStore : BitVec 64 := 0b0100011#64
def opBranch : BitVec 64 := 0b1100011#64
def opAuipc : BitVec 64 := 0b0010111#64
def opLui : BitVec 64 := 0b0110111#64
def opJal : BitVec 64 := 0b1101111#64

/-! ### `enum FUNCT3`: the same values mean different things under different opcodes -/

def funct3Add : BitVec 64 := 0b000#64
def funct3Sll : BitVec 64 := 0b001#64
def funct3Slt : BitVec 64 := 0b010#64
def funct3Sltu : BitVec 64 := 0b011#64
def funct3Xor : BitVec 64 := 0b100#64
def funct3Sr : BitVec 64 := 0b101#64
def funct3Or : BitVec 64 := 0b110#64
def funct3And : BitVec 64 := 0b111#64

def funct3B : BitVec 64 := 0b000#64
def funct3H : BitVec 64 := 0b001#64
def funct3W : BitVec 64 := 0b010#64
def funct3D : BitVec 64 := 0b011#64
def funct3BU : BitVec 64 := 0b100#64
def funct3HU : BitVec 64 := 0b101#64
def funct3WU : BitVec 64 := 0b110#64

def funct3Beq : BitVec 64 := 0b000#64
def funct3Bne : BitVec 64 := 0b001#64
def funct3Blt : BitVec 64 := 0b100#64
def funct3Bge : BitVec 64 := 0b101#64
def funct3Bltu : BitVec 64 := 0b110#64
def funct3Bgeu : BitVec 64 := 0b111#64

/-! ### `enum RI_FUNCT7` and `enum SR_UPPER_IMM12` -/

def funct7Add : BitVec 64 := 0b0000000#64
def funct7Sub : BitVec 64 := 0b0100000#64
def funct7Logical : BitVec 64 := 0b0000000#64
def funct7Arith : BitVec 64 := 0b0100000#64

def upperImmLogical : BitVec 64 := 0b000000#64
def upperImmArith : BitVec 64 := 0b010000#64

/-! ### Bit fields and sign extension -/

/-- `extractBits`: the mask is computed in `int` and converted to `uint64_t`. -/
def extractBits (instruction : BitVec 64) (start stop : Nat) : BitVec 64 :=
  let bitsToExtract := start - stop + 1
  let mask := ((1#32 <<< bitsToExtract) - 1#32).signExtend 64
  let clipped := instruction >>> stop
  clipped &&& mask

/-- `sext32`. -/
def sext32 (imm : BitVec 32) (signBit : Nat) : BitVec 32 :=
  if imm &&& (1#32 <<< signBit) ≠ 0#32 then
    imm ||| (~~~0#32 <<< (signBit + 1))
  else imm

/-- `sext64`. -/
def sext64 (imm : BitVec 64) (signBit : Nat) : BitVec 64 :=
  if imm &&& (1#64 <<< signBit) ≠ 0#64 then
    imm ||| (~~~0#64 <<< (signBit + 1))
  else imm

/-- The test `sext32` and `sext64` make. -/
theorem and_bit_ne_zero {n : Nat} (x : BitVec n) (k : Nat) :
    x &&& (1#n <<< k) ≠ 0#n ↔ x.getLsbD k = true := by
  rw [← BitVec.twoPow_eq, BitVec.and_twoPow]
  cases hbit : x.getLsbD k
  · simp
  · have hk : k < n := BitVec.lt_of_getLsbD hbit
    have hpow : BitVec.twoPow n k ≠ 0#n := by
      intro h
      have hone := congrArg (BitVec.getLsbD · k) h
      simp [hk] at hone
    simp [hpow]

theorem sext64_of_clear {imm : BitVec 64} {signBit : Nat} (h : imm.getLsbD signBit = false) :
    sext64 imm signBit = imm :=
  if_neg (by rw [and_bit_ne_zero, h]; exact Bool.false_ne_true)

theorem sext64_of_set {imm : BitVec 64} {signBit : Nat} (h : imm.getLsbD signBit = true) :
    sext64 imm signBit = imm ||| (~~~0#64 <<< (signBit + 1)) :=
  if_pos ((and_bit_ne_zero imm signBit).mpr h)

end CycleSim
