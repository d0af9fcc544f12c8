import CycleSim.Lib.Bytes

/-! The RV64I base instruction set, less `fence`, `ecall` and `ebreak`.

An instruction word selects an operation by its opcode, its `funct3` field and, for
add/sub and the right shifts, bit 30 (`select`); `Op.execute` is what the operation does
to the program counter, the registers and the memory. `Valid` are the words whose
remaining function bits have the value the encoding requires. -/
namespace Rv64i

/-! ### Fields -/

def opcode (w : BitVec 32) : BitVec 7 := w.extractLsb' 0 7
def rd (w : BitVec 32) : BitVec 5 := w.extractLsb' 7 5
def funct3 (w : BitVec 32) : BitVec 3 := w.extractLsb' 12 3
def rs1 (w : BitVec 32) : BitVec 5 := w.extractLsb' 15 5
def rs2 (w : BitVec 32) : BitVec 5 := w.extractLsb' 20 5
def funct7 (w : BitVec 32) : BitVec 7 := w.extractLsb' 25 7
def funct6 (w : BitVec 32) : BitVec 6 := w.extractLsb' 26 6
def bit30 (w : BitVec 32) : Bool := w.getLsbD 30

def immI (w : BitVec 32) : BitVec 64 := (w.extractLsb' 20 12).signExtend 64

def immS (w : BitVec 32) : BitVec 64 := (w.extractLsb' 25 7 ++ w.extractLsb' 7 5).signExtend 64

def immB (w : BitVec 32) : BitVec 64 :=
  (w.extractLsb' 31 1 ++ w.extractLsb' 7 1 ++ w.extractLsb' 25 6 ++ w.extractLsb' 8 4 ++
    0#1).signExtend 64

def immU (w : BitVec 32) : BitVec 64 := (w.extractLsb' 12 20 ++ 0#12).signExtend 64

def immJ (w : BitVec 32) : BitVec 64 :=
  (w.extractLsb' 31 1 ++ w.extractLsb' 12 8 ++ w.extractLsb' 20 1 ++ w.extractLsb' 21 10 ++
    0#1).signExtend 64

/-! ### Operations -/

/-- On 64-bit operands. -/
inductive AluOp
  | add | sub | sll | slt | sltu | xor | srl | sra | or | and
  deriving DecidableEq, Repr

/-- On the low words of the operands (`addw` and so on). -/
inductive WordOp
  | add | sub | sll | srl | sra
  deriving DecidableEq, Repr

inductive Width
  | byte | half | word | double
  deriving DecidableEq, Repr

inductive Cond
  | eq | ne | lt | ge | ltu | geu
  deriving DecidableEq, Repr

/-- The operations; an immediate form is the operation on the I-type immediate. -/
inductive Op
  | alu (f : AluOp)
  | aluWord (f : WordOp)
  | aluImm (f : AluOp)
  | aluImmWord (f : WordOp)
  | load (width : Width) (unsigned : Bool)
  | store (width : Width)
  | branch (c : Cond)
  | jalr
  | auipc
  | lui
  | jal
  deriving DecidableEq, Repr

/-! ### Selection -/

def aluOp (f3 : BitVec 3) (bit30 : Bool) : AluOp :=
  if f3 = 0b000#3 then if bit30 then .sub else .add
  else if f3 = 0b001#3 then .sll
  else if f3 = 0b010#3 then .slt
  else if f3 = 0b011#3 then .sltu
  else if f3 = 0b100#3 then .xor
  else if f3 = 0b101#3 then if bit30 then .sra else .srl
  else if f3 = 0b110#3 then .or
  else .and

/-- There is no `subi`: bit 30 belongs to the immediate. -/
def aluImmOp (f3 : BitVec 3) (bit30 : Bool) : AluOp :=
  if f3 = 0b000#3 then .add else aluOp f3 bit30

def wordOp (f3 : BitVec 3) (bit30 : Bool) : Option WordOp :=
  if f3 = 0b000#3 then some (if bit30 then .sub else .add)
  else if f3 = 0b001#3 then some .sll
  else if f3 = 0b101#3 then some (if bit30 then .sra else .srl)
  else none

def wordImmOp (f3 : BitVec 3) (bit30 : Bool) : Option WordOp :=
  if f3 = 0b000#3 then some .add else wordOp f3 bit30

def loadOp (f3 : BitVec 3) : Option Op :=
  if f3 = 0b000#3 then some (.load .byte false)
  else if f3 = 0b001#3 then some (.load .half false)
  else if f3 = 0b010#3 then some (.load .word false)
  else if f3 = 0b011#3 then some (.load .double false)
  else if f3 = 0b100#3 then some (.load .byte true)
  else if f3 = 0b101#3 then some (.load .half true)
  else if f3 = 0b110#3 then some (.load .word true)
  else none

def storeOp (f3 : BitVec 3) : Option Op :=
  if f3 = 0b000#3 then some (.store .byte)
  else if f3 = 0b001#3 then some (.store .half)
  else if f3 = 0b010#3 then some (.store .word)
  else if f3 = 0b011#3 then some (.store .double)
  else none

def branchOp (f3 : BitVec 3) : Option Op :=
  if f3 = 0b000#3 then some (.branch .eq)
  else if f3 = 0b001#3 then some (.branch .ne)
  else if f3 = 0b100#3 then some (.branch .lt)
  else if f3 = 0b101#3 then some (.branch .ge)
  else if f3 = 0b110#3 then some (.branch .ltu)
  else if f3 = 0b111#3 then some (.branch .geu)
  else none

/-- The operation an opcode, a `funct3` and bit 30 stand for. -/
def selectOp (opcode : BitVec 7) (f3 : BitVec 3) (bit30 : Bool) : Option Op :=
  if opcode = 0b0110011#7 then some (.alu (aluOp f3 bit30))
  else if opcode = 0b0111011#7 then (wordOp f3 bit30).map .aluWord
  else if opcode = 0b0000011#7 then loadOp f3
  else if opcode = 0b0010011#7 then some (.aluImm (aluImmOp f3 bit30))
  else if opcode = 0b0011011#7 then (wordImmOp f3 bit30).map .aluImmWord
  else if opcode = 0b1100111#7 then some .jalr
  else if opcode = 0b0100011#7 then storeOp f3
  else if opcode = 0b1100011#7 then branchOp f3
  else if opcode = 0b0010111#7 then some .auipc
  else if opcode = 0b0110111#7 then some .lui
  else if opcode = 0b1101111#7 then some .jal
  else none

/-- The operation an instruction word selects. -/
def select (w : BitVec 32) : Option Op := selectOp (opcode w) (funct3 w) (bit30 w)

/-! ### Valid encodings -/

def AluOp.isShift (f : AluOp) : Bool := f == .sll || f == .srl || f == .sra

def AluOp.funct7 (f : AluOp) : BitVec 7 := if f == .sub || f == .sra then 0b0100000#7 else 0#7

def WordOp.isShift (f : WordOp) : Bool := f == .sll || f == .srl || f == .sra

def WordOp.funct7 (f : WordOp) : BitVec 7 := if f == .sub || f == .sra then 0b0100000#7 else 0#7

/-- The function bits that selection has not looked at have the value required. -/
def Op.fixedBits : Op → BitVec 32 → Bool
  | .alu f, w => Rv64i.funct7 w == f.funct7
  | .aluWord f, w => Rv64i.funct7 w == f.funct7
  | .aluImm f, w => !f.isShift || funct6 w == f.funct7.extractLsb' 1 6
  | .aluImmWord f, w => !f.isShift || Rv64i.funct7 w == f.funct7
  | .jalr, w => funct3 w == 0#3
  | _, _ => true

/-- The word encodes one of the operations. -/
def Valid (w : BitVec 32) : Prop := ∃ op, select w = some op ∧ op.fixedBits w = true

instance (w : BitVec 32) : Decidable (Valid w) :=
  decidable_of_iff ((select w).any (·.fixedBits w) = true) (by
    rw [Option.any_eq_true]
    rfl)

/-! ### The meaning of the operations -/

/-- The registers, of which `x0` is 0, and the memory, a byte at every address. -/
@[ext]
structure State where
  pc : BitVec 64
  regs : BitVec 5 → BitVec 64
  mem : BitVec 64 → BitVec 8
  regs_zero : regs 0#5 = 0#64

/-- A shift takes the low six bits of its second operand. -/
def AluOp.eval : AluOp → BitVec 64 → BitVec 64 → BitVec 64
  | .add, a, b => a + b
  | .sub, a, b => a - b
  | .sll, a, b => a <<< b.extractLsb' 0 6
  | .slt, a, b => if a.slt b then 1#64 else 0#64
  | .sltu, a, b => if a.ult b then 1#64 else 0#64
  | .xor, a, b => a ^^^ b
  | .srl, a, b => a >>> b.extractLsb' 0 6
  | .sra, a, b => a.sshiftRight' (b.extractLsb' 0 6)
  | .or, a, b => a ||| b
  | .and, a, b => a &&& b

/-- A shift takes the low five bits of its second operand. -/
def WordOp.eval : WordOp → BitVec 32 → BitVec 32 → BitVec 32
  | .add, a, b => a + b
  | .sub, a, b => a - b
  | .sll, a, b => a <<< b.extractLsb' 0 5
  | .srl, a, b => a >>> b.extractLsb' 0 5
  | .sra, a, b => a.sshiftRight' (b.extractLsb' 0 5)

/-- The low words combined, the result sign extended. -/
def WordOp.evalWord (f : WordOp) (a b : BitVec 64) : BitVec 64 :=
  (f.eval (a.setWidth 32) (b.setWidth 32)).signExtend 64

def Cond.holds : Cond → BitVec 64 → BitVec 64 → Bool
  | .eq, a, b => a == b
  | .ne, a, b => a != b
  | .lt, a, b => a.slt b
  | .ge, a, b => !a.slt b
  | .ltu, a, b => a.ult b
  | .geu, a, b => !a.ult b

def Width.bytes : Width → Nat
  | .byte => 1
  | .half => 2
  | .word => 4
  | .double => 8

namespace State

def setReg (s : State) (r : BitVec 5) (v : BitVec 64) : State where
  pc := s.pc
  regs := fun i => if i = r ∧ r ≠ 0#5 then v else s.regs i
  mem := s.mem
  regs_zero := by
    split
    · rename_i h
      exact absurd h.1.symm h.2
    · exact s.regs_zero

def setPC (s : State) (pc : BitVec 64) : State := { s with pc := pc }

/-- The `n` bytes from an address on, least significant first. -/
def bytes (s : State) (address : BitVec 64) (n : Nat) : List (BitVec 8) :=
  (List.range n).map (fun i => s.mem (address + BitVec.ofNat 64 i))

def loaded (s : State) (address : BitVec 64) (width : Width) (unsigned : Bool) : BitVec 64 :=
  if unsigned then BitVec.ofNat 64 (Bytes.value (s.bytes address width.bytes))
  else (BitVec.ofNat (8 * width.bytes) (Bytes.value (s.bytes address width.bytes))).signExtend 64

def store (s : State) (address : BitVec 64) (width : Width) (v : BitVec 64) : State :=
  { s with
    mem := fun a =>
      if (a - address).toNat < width.bytes then v.extractLsb' (8 * (a - address).toNat) 8
      else s.mem a }

end State

/-- The operation of the instruction word `w`, executed. -/
def Op.execute (op : Op) (w : BitVec 32) (s : State) : State :=
  let a := s.regs (rs1 w)
  let b := s.regs (rs2 w)
  let next := s.setPC (s.pc + 4#64)
  match op with
  | .alu f => next.setReg (rd w) (f.eval a b)
  | .aluWord f => next.setReg (rd w) (f.evalWord a b)
  | .aluImm f => next.setReg (rd w) (f.eval a (immI w))
  | .aluImmWord f => next.setReg (rd w) (f.evalWord a (immI w))
  | .load width unsigned => next.setReg (rd w) (s.loaded (a + immI w) width unsigned)
  | .store width => next.store (a + immS w) width b
  | .branch c => if c.holds a b then s.setPC (s.pc + immB w) else next
  | .jalr => (s.setPC ((a + immI w) &&& ~~~1#64)).setReg (rd w) (s.pc + 4#64)
  | .auipc => next.setReg (rd w) (s.pc + immU w)
  | .lui => next.setReg (rd w) (immU w)
  | .jal => (s.setPC (s.pc + immJ w)).setReg (rd w) (s.pc + 4#64)

/-- The data a load or a store accesses. -/
def Op.access (op : Op) (w : BitVec 32) (s : State) : Option (BitVec 64 × Width) :=
  match op with
  | .load width _ => some (s.regs (rs1 w) + immI w, width)
  | .store width => some (s.regs (rs1 w) + immS w, width)
  | _ => none

/-! ### Assembly -/

def AluOp.name : AluOp → String
  | .add => "add"
  | .sub => "sub"
  | .sll => "sll"
  | .slt => "slt"
  | .sltu => "sltu"
  | .xor => "xor"
  | .srl => "srl"
  | .sra => "sra"
  | .or => "or"
  | .and => "and"

def WordOp.name : WordOp → String
  | .add => "add"
  | .sub => "sub"
  | .sll => "sll"
  | .srl => "srl"
  | .sra => "sra"

def Width.name : Width → String
  | .byte => "b"
  | .half => "h"
  | .word => "w"
  | .double => "d"

def Cond.name : Cond → String
  | .eq => "eq"
  | .ne => "ne"
  | .lt => "lt"
  | .ge => "ge"
  | .ltu => "ltu"
  | .geu => "geu"

def Op.mnemonic : Op → String
  | .alu f => f.name
  | .aluWord f => f.name ++ "w"
  | .aluImm .sltu => "sltiu"
  | .aluImm f => f.name ++ "i"
  | .aluImmWord f => f.name ++ "iw"
  | .load width unsigned => "l" ++ width.name ++ (if unsigned then "u" else "")
  | .store width => "s" ++ width.name
  | .branch c => "b" ++ c.name
  | .jalr => "jalr"
  | .auipc => "auipc"
  | .lui => "lui"
  | .jal => "jal"

/-- The immediate of an operation: a shift takes its amount. -/
def Op.immediate (op : Op) (w : BitVec 32) : Option (BitVec 64) :=
  match op with
  | .alu _ | .aluWord _ => none
  | .aluImm f => some (if f.isShift then (w.extractLsb' 20 6).setWidth 64 else immI w)
  | .aluImmWord f => some (if f.isShift then (w.extractLsb' 20 5).setWidth 64 else immI w)
  | .load .. | .jalr => some (immI w)
  | .store _ => some (immS w)
  | .branch _ => some (immB w)
  | .auipc | .lui => some (immU w)
  | .jal => some (immJ w)

/-- The operation on an immediate and registers given apart from the word. -/
def Op.executeOn (op : Op) (imm : BitVec 64) (rd rs1 rs2 : BitVec 5) (s : State) : State :=
  let a := s.regs rs1
  let b := s.regs rs2
  let next := s.setPC (s.pc + 4#64)
  match op with
  | .alu f => next.setReg rd (f.eval a b)
  | .aluWord f => next.setReg rd (f.evalWord a b)
  | .aluImm f => next.setReg rd (f.eval a imm)
  | .aluImmWord f => next.setReg rd (f.evalWord a imm)
  | .load width unsigned => next.setReg rd (s.loaded (a + imm) width unsigned)
  | .store width => next.store (a + imm) width b
  | .branch c => if c.holds a b then s.setPC (s.pc + imm) else next
  | .jalr => (s.setPC ((a + imm) &&& ~~~1#64)).setReg rd (s.pc + 4#64)
  | .auipc => next.setReg rd (s.pc + imm)
  | .lui => next.setReg rd imm
  | .jal => (s.setPC (s.pc + imm)).setReg rd (s.pc + 4#64)

theorem immI_low (w : BitVec 32) {k : Nat} (h : k ≤ 12) :
    (immI w).extractLsb' 0 k = w.extractLsb' 20 k := by
  apply BitVec.eq_of_getLsbD_eq
  intro i hi
  simp [immI, BitVec.getElem_signExtend, hi, show i < 64 by omega, show i < 12 by omega]

theorem AluOp.eval_shift {f : AluOp} (h : f.isShift = true) (a : BitVec 64) {b b' : BitVec 64}
    (hb : b.extractLsb' 0 6 = b'.extractLsb' 0 6) : f.eval a b = f.eval a b' := by
  cases f
  case sll => exact congrArg (a <<< ·) hb
  case srl => exact congrArg (a >>> ·) hb
  case sra => exact congrArg a.sshiftRight' hb
  all_goals cases h

theorem WordOp.evalWord_shift {f : WordOp} (h : f.isShift = true) (a : BitVec 64)
    {b b' : BitVec 64} (hb : (b.setWidth 32).extractLsb' 0 5 = (b'.setWidth 32).extractLsb' 0 5) :
    f.evalWord a b = f.evalWord a b' := by
  unfold WordOp.evalWord
  congr 1
  cases f
  case sll => exact congrArg (a.setWidth 32 <<< ·) hb
  case srl => exact congrArg (a.setWidth 32 >>> ·) hb
  case sra => exact congrArg (a.setWidth 32).sshiftRight' hb
  all_goals cases h

/-- Beyond its registers, an operation takes its immediate from the word and nothing else. -/
theorem Op.execute_eq_executeOn {op : Op} {w : BitVec 32} {v : BitVec 64}
    (h : op.immediate w = some v) (s : State) :
    op.execute w s = op.executeOn v (rd w) (rs1 w) (rs2 w) s := by
  cases op with
  | alu f => cases h
  | aluWord f => cases h
  | aluImm f =>
    obtain rfl := Option.some.inj h
    by_cases hf : f.isShift = true
    · refine congrArg (State.setReg _ _) (AluOp.eval_shift hf _ ?_)
      rw [if_pos hf, immI_low w (by decide)]
      apply BitVec.eq_of_getLsbD_eq
      intro i hi
      simp [hi, show i < 64 by omega]
    · rw [if_neg hf]
      rfl
  | aluImmWord f =>
    obtain rfl := Option.some.inj h
    by_cases hf : f.isShift = true
    · refine congrArg (State.setReg _ _) (WordOp.evalWord_shift hf _ ?_)
      rw [if_pos hf]
      apply BitVec.eq_of_getLsbD_eq
      intro i hi
      simp [immI, BitVec.getElem_signExtend, hi, show i < 32 by omega, show i < 64 by omega,
        show i < 12 by omega]
    · rw [if_neg hf]
      rfl
  | _ =>
    obtain rfl := Option.some.inj h
    rfl

/-! ### Opcodes -/

def Op.opcode : Op → BitVec 7
  | .alu _ => 0b0110011#7
  | .aluWord _ => 0b0111011#7
  | .aluImm _ => 0b0010011#7
  | .aluImmWord _ => 0b0011011#7
  | .load .. => 0b0000011#7
  | .store _ => 0b0100011#7
  | .branch _ => 0b1100011#7
  | .jalr => 0b1100111#7
  | .auipc => 0b0010111#7
  | .lui => 0b0110111#7
  | .jal => 0b1101111#7

theorem selectOp_opcode (opc : BitVec 7) (f3 : BitVec 3) (bit30 : Bool) :
    (selectOp opc f3 bit30).all (fun op => op.opcode == opc) = true := by
  revert opc f3 bit30
  decide +kernel

theorem select_opcode {w : BitVec 32} {op : Op} (h : select w = some op) :
    opcode w = op.opcode := by
  have hall := selectOp_opcode (opcode w) (funct3 w) (bit30 w)
  rw [show selectOp _ _ _ = some op from h] at hall
  exact (beq_iff_eq.mp hall).symm

/-! ### Runs -/

/-- The operation a valid word encodes. -/
def decode (w : BitVec 32) : Option Op := (select w).filter (·.fixedBits w)

theorem decode_eq_some {w : BitVec 32} {op : Op} :
    decode w = some op ↔ select w = some op ∧ op.fixedBits w = true := Option.filter_eq_some_iff

theorem decode_opcode {w : BitVec 32} {op : Op} (h : decode w = some op) :
    opcode w = op.opcode := select_opcode (decode_eq_some.mp h).1

namespace State

/-- The word at the program counter. -/
def word (s : State) : BitVec 32 := BitVec.ofNat 32 (Bytes.value (s.bytes s.pc 4))

/-- One instruction, when a valid word is at the program counter. -/
def step (s : State) : Option State := (decode s.word).map (fun op => op.execute s.word s)

/-- `k` instructions. -/
def run (s : State) : Nat → Option State
  | 0 => some s
  | k + 1 => (s.run k).bind step

theorem step_eq_some {s t : State} (h : s.step = some t) :
    ∃ op, decode s.word = some op ∧ t = op.execute s.word s := by
  obtain ⟨op, hop, rfl⟩ := Option.map_eq_some_iff.mp h
  exact ⟨op, hop, rfl⟩

theorem run_succ_eq_some {s t : State} {k : Nat} (h : s.run (k + 1) = some t) :
    ∃ u, s.run k = some u ∧ u.step = some t := Option.bind_eq_some_iff.mp h

/-- The instruction at the program counter accesses no byte from address `n` on. -/
def AccessesBelow (n : Nat) (s : State) : Prop :=
  ∀ x ∈ (decode s.word).bind (·.access s.word s), x.1.toNat + x.2.bytes ≤ n

instance (n : Nat) (s : State) : Decidable (s.AccessesBelow n) :=
  inferInstanceAs (Decidable (∀ x ∈ (decode s.word).bind (·.access s.word s), _))

end State

end Rv64i
