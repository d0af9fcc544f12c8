import CycleSim.Isa.State
import CycleSim.Pipeline.Trace

/-! `simInstruction` executes RV64I.

The operations are taken up by the flags that decoding leaves (`Kind`): what EX, MEM and WB
do under them, the value written, the next PC. A legal word does to the registers and the
memory what the operation it selects does (`simInstruction_conforms`). -/
namespace CycleSim

open Rv64i (Op AluOp WordOp Width)

/-! ### What the flags ask for -/

section
variable {x : Decoding}

/-- The record whose operands are read from the registers. -/
def Decoding.collected (x : Decoding) (r : Regs) : Instruction :=
  simOperandCollection { toDecoding := x } r

theorem Decoding.collected_op1 (r : Regs) (h : x.readsRs1 = true) :
    (x.collected r).op1Val = r.read x.rs1 := if_pos h

theorem Decoding.collected_op2 (r : Regs) (h : x.readsRs2 = true) :
    (x.collected r).op2Val = r.read x.rs2 := if_pos h

theorem Decoding.execute_of_arith (a : Arch) {v : BitVec 64} (ha : x.doesArithLogic = true)
    (hrd : x.writesRd = true) (hr : x.readsMem = false) (hw : x.writesMem = false)
    (hv : arithAssigned (x.collected a.regs) = some v) :
    x.execute a = ⟨a.regs.set x.rd v, a.memory⟩ := by
  have haccess : ∀ y : Instruction, y.toDecoding = x → access y a.memory = (y, a.memory) := by
    intro y hy
    simp [access, hy, hr, hw]
  have hdec : (Simulator.simEX (x.collected a.regs)).toDecoding = x := simEX_toDecoding _
  have hresult : (Simulator.simEX (x.collected a.regs)).arithResult = v := by
    have hc : (x.collected a.regs).doesArithLogic = true := ha
    simp only [simEX_eq, if_pos hc, hv]
    rfl
  show finish (Simulator.simEX (x.collected a.regs)) a = _
  rw [finish, haccess _ hdec]
  simp only [retire, simCommit, Instruction.result, hdec, hrd, hr, if_true, Bool.false_eq_true,
    if_false, hresult]

theorem Decoding.simEX_of_mem (r : Regs) (ha : x.doesArithLogic = false)
    (hm : (x.readsMem || x.writesMem) = true) :
    Simulator.simEX (x.collected r) = simAddrGen (x.collected r) := by
  have hac : (x.collected r).doesArithLogic = false := ha
  have hmc : ((x.collected r).readsMem || (x.collected r).writesMem) = true := hm
  simp only [Simulator.simEX, hac, Bool.false_eq_true, if_false, hmc, if_true]

/-- The value `simMemAccess` gives a load. -/
def loadResult (x : Instruction) (memory : MemoryStore) : BitVec 64 :=
  let value := (memory.getMemValue x.memAddress 0#64 (accessSize x.funct3)).value
  if x.funct3 = funct3B ∨ x.funct3 = funct3H ∨ x.funct3 = funct3W then
    sext64 value ((accessSize x.funct3).toNat * 8 - 1)
  else value

theorem Decoding.execute_of_load (a : Arch) (ha : x.doesArithLogic = false)
    (hr : x.readsMem = true) (hrd : x.writesRd = true) : x.execute a =
      ⟨a.regs.set x.rd (loadResult (simAddrGen (x.collected a.regs)) a.memory), a.memory⟩ := by
  have hm : (x.readsMem || x.writesMem) = true := by rw [hr, Bool.true_or]
  show finish (Simulator.simEX (x.collected a.regs)) a = _
  rw [Decoding.simEX_of_mem a.regs ha hm]
  have hdec : (simAddrGen (x.collected a.regs)).toDecoding = x := rfl
  generalize simAddrGen (x.collected a.regs) = y at hdec
  subst hdec
  simp only [finish, access, simMemAccess, hr, Bool.true_or, if_true, retire, simCommit,
    Instruction.result, hrd, loadResult]

theorem Decoding.execute_of_store (a : Arch) (ha : x.doesArithLogic = false)
    (hr : x.readsMem = false) (hw : x.writesMem = true) (hrd : x.writesRd = false) : x.execute a =
      ⟨a.regs, (a.memory.setMemValue (simAddrGen (x.collected a.regs)).memAddress
        (x.collected a.regs).op2Val (accessSize x.funct3)).store⟩ := by
  have hm : (x.readsMem || x.writesMem) = true := by rw [hw, Bool.or_true]
  show finish (Simulator.simEX (x.collected a.regs)) a = _
  rw [Decoding.simEX_of_mem a.regs ha hm]
  have hdec : (simAddrGen (x.collected a.regs)).toDecoding = x := rfl
  have hop2 : (simAddrGen (x.collected a.regs)).op2Val = (x.collected a.regs).op2Val := rfl
  rw [← hop2]
  generalize simAddrGen (x.collected a.regs) = y at hdec
  subst hdec
  simp only [finish, access, simMemAccess, hr, hw, Bool.or_true, Bool.false_eq_true, if_true,
    if_false, retire, hrd]

theorem Decoding.execute_of_branch (a : Arch) (ha : x.doesArithLogic = false)
    (hr : x.readsMem = false) (hw : x.writesMem = false) (hrd : x.writesRd = false) :
    x.execute a = a := by
  have hm : ¬((x.readsMem || x.writesMem) = true) := by simp [hr, hw]
  have hex : Simulator.simEX (x.collected a.regs) = x.collected a.regs := by
    have hac : (x.collected a.regs).doesArithLogic = false := ha
    simp only [Simulator.simEX, hac, Bool.false_eq_true, if_false]
    exact if_neg hm
  show finish (Simulator.simEX (x.collected a.regs)) a = a
  have hdec : (x.collected a.regs).toDecoding = x := rfl
  rw [hex]
  simp [finish, access, retire, hdec, hr, hw, hrd]

theorem Decoding.arith_link (r : Regs) (hop : x.opcode = opJalr ∨ x.opcode = opJal) :
    arithAssigned (x.collected r) = some (x.pc + 4#64) := by
  rcases hop with hop | hop
  all_goals
    have hopc : (x.collected r).opcode = _ := hop
    simp [arithAssigned, hopc, opInt, opIntW, opIntImm, opIntImmW, opJalr, opAuipc, opLui, opJal]
    rfl

theorem Decoding.next_sequential (r : Regs) (ht : x.traps = false) {c : BitVec 64}
    (hop : x.opcode = c) (hc : c ≠ opJalr ∧ c ≠ opBranch ∧ c ≠ opJal) :
    x.successor r = x.pc + 4#64 := by
  subst hop
  rw [Decoding.successor, if_neg (by simp [ht])]
  exact nextPC_of_sequential hc.1 hc.2.1 hc.2.2

end

/-! ### Operands -/

section
variable {x : Decoding} {w : BitVec 32} (hx : FieldsOf x w) (a : Arch)
include hx

theorem FieldsOf.select_eq (c : BitVec 7) (hop : x.opcode = c.setWidth 64) :
    Rv64i.select w = Rv64i.selectOp c (Rv64i.funct3 w) (Rv64i.bit30 w) := by
  rw [Rv64i.select, (hx.opcode_eq_iff c).mp hop]

theorem FieldsOf.op1 (h : x.readsRs1 = true) :
    (x.collected a.regs).op1Val = (archState a x.pc).regs (Rv64i.rs1 w) := by
  rw [Decoding.collected_op1 _ h, hx.rs1]
  rfl

theorem FieldsOf.op2 (h : x.readsRs2 = true) :
    (x.collected a.regs).op2Val = (archState a x.pc).regs (Rv64i.rs2 w) := by
  rw [Decoding.collected_op2 _ h, hx.rs2]
  rfl

theorem FieldsOf.load_address (h1 : x.readsRs1 = true) (hr : x.readsMem = true) :
    (simAddrGen (x.collected a.regs)).memAddress =
      (archState a x.pc).regs (Rv64i.rs1 w) + Rv64i.immI w := by
  rw [← hx.op1 a h1, ← sext64_imm12, ← hx.instruction]
  exact if_pos hr

theorem FieldsOf.store_address (h1 : x.readsRs1 = true) (hr : x.readsMem = false)
    (hw : x.writesMem = true) : (simAddrGen (x.collected a.regs)).memAddress =
      (archState a x.pc).regs (Rv64i.rs1 w) + Rv64i.immS w := by
  rw [← hx.op1 a h1, ← storeImm_eq, ← hx.funct7, ← hx.rd]
  exact (if_neg (Bool.eq_false_iff.mp hr)).trans (if_pos hw)

theorem FieldsOf.upperImm12 : extractBits x.instruction 31 26 =
    ((Rv64i.funct7 w).extractLsb' 1 6).setWidth 64 := by
  rw [hx.instruction, upperImm12_eq, funct6_eq]

theorem FieldsOf.isShift : x.funct3 = funct3Sll ∨ x.funct3 = funct3Sr ↔
    Rv64i.funct3 w = 0b001#3 ∨ Rv64i.funct3 w = 0b101#3 := by
  have hfunct3 : ∀ c : BitVec 3, x.funct3 = c.setWidth 64 ↔ Rv64i.funct3 w = c := by
    intro c
    rw [hx.funct3]
    exact setWidth_inj (by decide)
  exact or_congr (hfunct3 0b001#3) (hfunct3 0b101#3)

/-- Six bits of a shift amount are kept, or five. -/
theorem FieldsOf.maskShift_eq {mask : BitVec 64}
    (h : x.opcode = opInt ∧ mask = 0x3F#64 ∨ x.opcode = opIntW ∧ mask = 0x1F#64) :
    maskShift (x.collected a.regs) =
      if Rv64i.funct3 w = 0b001#3 ∨ Rv64i.funct3 w = 0b101#3 then
        (x.collected a.regs).op2Val &&& mask
      else (x.collected a.regs).op2Val := by
  have hshift : (x.collected a.regs).funct3 = funct3Sll ∨ (x.collected a.regs).funct3 = funct3Sr ↔ _ :=
    hx.isShift
  have hne : opInt ≠ opIntW := by decide
  rcases h with ⟨hop, rfl⟩ | ⟨hop, rfl⟩
  all_goals
    have hopc : (x.collected a.regs).opcode = _ := hop
    simp only [maskShift, hopc, true_and, hshift, hne, hne.symm, false_and, if_false]

/-! ### The value written -/

theorem FieldsOf.arith_alu (hop : x.opcode = opInt)
    (hck : checkedBits (.alu (Rv64i.aluOp (Rv64i.funct3 w) (Rv64i.bit30 w))) (Rv64i.funct7 w) = true) :
    arithAssigned (x.collected a.regs) =
      some ((Rv64i.aluOp (Rv64i.funct3 w) (Rv64i.bit30 w)).eval
        (x.collected a.regs).op1Val (x.collected a.regs).op2Val) := by
  have hopc : (x.collected a.regs).opcode = opInt := hop
  rw [bit30_eq] at hck ⊢
  rw [← arithInt_eq _ _ hck, ← hx.maskShift_eq a (.inl ⟨hop, rfl⟩), ← hx.funct3, ← hx.funct7,
    ← hx.upperImm12]
  simp only [arithAssigned, hopc, if_true]
  rfl

theorem FieldsOf.arith_aluWord (hop : x.opcode = opIntW) {f : WordOp}
    (hf : Rv64i.wordOp (Rv64i.funct3 w) (Rv64i.bit30 w) = some f)
    (hck : checkedBits (.aluWord f) (Rv64i.funct7 w) = true) :
    arithAssigned (x.collected a.regs) =
      some (f.evalWord (x.collected a.regs).op1Val (x.collected a.regs).op2Val) := by
  have hopc : (x.collected a.regs).opcode = opIntW := hop
  have hne : opIntW ≠ opInt := by decide
  rw [bit30_eq] at hf
  rw [← arithIntW_eq _ _ hf hck, ← hx.maskShift_eq a (.inr ⟨hop, rfl⟩), ← hx.funct3, ← hx.funct7,
    ← hx.upperImm12]
  simp only [arithAssigned, hopc, hne, if_true, if_false]
  rfl

theorem FieldsOf.arith_aluImm (hop : x.opcode = opIntImm)
    (hck : checkedBits (.aluImm (Rv64i.aluImmOp (Rv64i.funct3 w) (Rv64i.bit30 w)))
      (Rv64i.funct7 w) = true) : arithAssigned (x.collected a.regs) =
      some ((Rv64i.aluImmOp (Rv64i.funct3 w) (Rv64i.bit30 w)).eval
        (x.collected a.regs).op1Val (Rv64i.immI w)) := by
  have hopc : (x.collected a.regs).opcode = opIntImm := hop
  have hne : opIntImm ≠ opInt ∧ opIntImm ≠ opIntW := by decide
  rw [bit30_eq] at hck ⊢
  rw [Rv64i.immI, ← arithIntImm_eq _ _ hck, ← hx.funct3, ← hx.upperImm12, ← imm12_eq,
    ← hx.instruction]
  simp only [arithAssigned, hopc, hne.1, hne.2, if_true, if_false]
  rfl

theorem FieldsOf.arith_aluImmWord (hop : x.opcode = opIntImmW) {f : WordOp}
    (hf : Rv64i.wordImmOp (Rv64i.funct3 w) (Rv64i.bit30 w) = some f)
    (hck : checkedBits (.aluImmWord f) (Rv64i.funct7 w) = true) :
    arithAssigned (x.collected a.regs) =
      some (f.evalWord (x.collected a.regs).op1Val (Rv64i.immI w)) := by
  have hopc : (x.collected a.regs).opcode = opIntImmW := hop
  have hne : opIntImmW ≠ opInt ∧ opIntImmW ≠ opIntW ∧ opIntImmW ≠ opIntImm := by decide
  rw [bit30_eq] at hf
  rw [Rv64i.immI, ← arithIntImmW_eq _ _ hf hck, ← hx.funct3, ← hx.upperImm12, ← imm12_eq,
    ← hx.instruction]
  simp only [arithAssigned, hopc, hne.1, hne.2.1, hne.2.2, if_true, if_false]
  rfl

theorem FieldsOf.arith_auipc (hop : x.opcode = opAuipc) :
    arithAssigned (x.collected a.regs) = some (x.pc + Rv64i.immU w) := by
  have hopc : (x.collected a.regs).opcode = opAuipc := hop
  rw [← upperImm_eq, ← hx.instruction]
  simp [arithAssigned, hopc, opInt, opIntW, opIntImm, opIntImmW, opJalr, opAuipc]
  rfl

theorem FieldsOf.arith_lui (hop : x.opcode = opLui) :
    arithAssigned (x.collected a.regs) = some (Rv64i.immU w) := by
  have hopc : (x.collected a.regs).opcode = opLui := hop
  rw [← upperImm_eq, ← hx.instruction]
  simp [arithAssigned, hopc, opInt, opIntW, opIntImm, opIntImmW, opJalr, opAuipc, opLui]
  rfl

/-! ### The next PC -/

theorem FieldsOf.next_jalr (ht : x.traps = false) (hop : x.opcode = opJalr) :
    x.successor a.regs = ((x.collected a.regs).op1Val + Rv64i.immI w) &&& ~~~1#64 := by
  rw [Decoding.successor, if_neg (by simp [ht]), ← sext64_imm12, ← hx.instruction]
  exact if_pos hop

theorem FieldsOf.next_jal (ht : x.traps = false) (hop : x.opcode = opJal) :
    x.successor a.regs = x.pc + Rv64i.immJ w := by
  have hne : opJal ≠ opJalr ∧ opJal ≠ opBranch := by decide
  rw [Decoding.successor, if_neg (by simp [ht]), ← jalImm_eq, ← hx.instruction]
  have hopc : (simOperandCollection { toDecoding := x } a.regs).opcode = opJal := hop
  simp only [simNextPCResolution]
  rw [if_neg (hopc ▸ hne.1), if_neg (hopc ▸ hne.2), if_pos hopc]
  rfl

theorem FieldsOf.next_branch (ht : x.traps = false) (hop : x.opcode = opBranch) {c : Rv64i.Cond}
    (hc : Rv64i.branchOp (Rv64i.funct3 w) = some (.branch c)) :
    x.successor a.regs =
      if c.holds (x.collected a.regs).op1Val (x.collected a.regs).op2Val then x.pc + Rv64i.immB w
      else x.pc + 4#64 := by
  have hne : opBranch ≠ opJalr := by decide
  rw [Decoding.successor, if_neg (by simp [ht]), ← branchTaken_eq hc, ← branchImm_eq, ← hx.funct3,
    ← hx.rd, ← hx.funct7]
  have hopc : (simOperandCollection { toDecoding := x } a.regs).opcode = opBranch := hop
  simp only [simNextPCResolution]
  rw [if_neg (hopc ▸ hne), if_pos hopc]
  rfl

end

/-! ### Conformance -/

/-- The access of an operation lies inside the memory. -/
def InMemory (memory : MemoryStore) (access : Option (BitVec 64 × Width)) : Prop :=
  ∀ address width, access = some (address, width) →
    memory.offset address + width.bytes ≤ memory.memArr.length

/-- An instruction does to the state what the operation does, and what it writes to its
destination register has been assigned. -/
structure Conforms (x : Decoding) (w : BitVec 32) (a : Arch) (op : Op) : Prop where
  state : InMemory a.memory (op.access w (archState a x.pc)) →
    archState (x.execute a) (x.successor a.regs) = op.execute w (archState a x.pc)
  assigned : x.writesRd = true → x.readsMem = true ∨
    x.doesArithLogic = true ∧ (arithAssigned (x.collected a.regs)).isSome = true

section
variable {x : Decoding} {w : BitVec 32} (hx : FieldsOf x w) (a : Arch) (ht : x.traps = false)
include hx

/-- An operation that writes a value to its destination register. -/
theorem FieldsOf.conforms_of_arith {op : Op} {v : BitVec 64}
    (hf : x.doesArithLogic = true ∧ x.writesRd = true ∧ x.readsMem = false ∧ x.writesMem = false)
    (hv : arithAssigned (x.collected a.regs) = some v)
    (hop : ((archState a x.pc).setPC (x.successor a.regs)).setReg (Rv64i.rd w) v =
      op.execute w (archState a x.pc)) : Conforms x w a op := by
  obtain ⟨ha, hrd, hr, hw⟩ := hf
  refine ⟨fun _ => ?_, fun _ => .inr ⟨ha, by rw [hv]; rfl⟩⟩
  rw [Decoding.execute_of_arith a ha hrd hr hw hv, hx.rd, ← hop]
  exact archState_set a _ _ _ _

include ht

/-- `nop` is `addi x0, x0, 0`. -/
theorem FieldsOf.conforms_nop (hw : w = 0x00000013#32) (hf : x.flags = {}) :
    Conforms x w a (.aluImm .add) := by
  have hop : x.opcode = opIntImm := (hx.opcode_eq_iff 0b0010011#7).mpr (by rw [hw]; decide)
  have hnext := Decoding.next_sequential a.regs ht hop (by decide)
  have hrd : Rv64i.rd w = 0#5 := by
    rw [hw]
    decide
  have hwrites : x.writesRd = false := congrArg Flags.writesRd hf
  refine ⟨fun _ => ?_, fun h => absurd h (by rw [hwrites]; decide)⟩
  rw [Decoding.execute_of_idle hf, hnext]
  apply Rv64i.State.ext
  case pc => rfl
  case mem => rfl
  funext i
  show _ = if i = Rv64i.rd w ∧ Rv64i.rd w ≠ 0#5 then _ else _
  rw [if_neg (fun h => h.2 hrd)]
  rfl

theorem FieldsOf.conforms_register (hop : x.opcode = opInt ∨ x.opcode = opIntW)
    (hf : x.flags =
      {doesArithLogic := true, writesRd := true, readsRs1 := true, readsRs2 := true})
    {op : Op} (hsel : Rv64i.select w = some op) (hck : checkedBits op (Rv64i.funct7 w) = true) :
    Conforms x w a op := by
  simp only [Decoding.flags, Flags.mk.injEq] at hf
  obtain ⟨hr, hw, ha, hrd, h1, h2⟩ := hf
  rcases hop with hop | hop
  · have hnext := Decoding.next_sequential a.regs ht hop (by decide)
    rw [hx.select_eq 0b0110011#7 hop] at hsel
    obtain rfl := Option.some.inj hsel
    apply hx.conforms_of_arith a ⟨ha, hrd, hr, hw⟩ (hx.arith_alu a hop hck)
    rw [hnext, hx.op1 a h1, hx.op2 a h2]
    rfl
  · have hnext := Decoding.next_sequential a.regs ht hop (by decide)
    rw [hx.select_eq 0b0111011#7 hop] at hsel
    obtain ⟨f, hf, rfl⟩ := Option.map_eq_some_iff.mp hsel
    apply hx.conforms_of_arith a ⟨ha, hrd, hr, hw⟩ (hx.arith_aluWord a hop hf hck)
    rw [hnext, hx.op1 a h1, hx.op2 a h2]
    rfl

theorem FieldsOf.conforms_immediate
    (hop : x.opcode = opIntImm ∨ x.opcode = opIntImmW ∨ x.opcode = opJalr)
    (hf : x.flags = {doesArithLogic := true, writesRd := true, readsRs1 := true})
    {op : Op} (hsel : Rv64i.select w = some op) (hck : checkedBits op (Rv64i.funct7 w) = true) :
    Conforms x w a op := by
  simp only [Decoding.flags, Flags.mk.injEq] at hf
  obtain ⟨hr, hw, ha, hrd, h1, -⟩ := hf
  rcases hop with hop | hop | hop
  · have hnext := Decoding.next_sequential a.regs ht hop (by decide)
    rw [hx.select_eq 0b0010011#7 hop] at hsel
    obtain rfl := Option.some.inj hsel
    apply hx.conforms_of_arith a ⟨ha, hrd, hr, hw⟩ (hx.arith_aluImm a hop hck)
    rw [hnext, hx.op1 a h1]
    rfl
  · have hnext := Decoding.next_sequential a.regs ht hop (by decide)
    rw [hx.select_eq 0b0011011#7 hop] at hsel
    obtain ⟨f, hf, rfl⟩ := Option.map_eq_some_iff.mp hsel
    apply hx.conforms_of_arith a ⟨ha, hrd, hr, hw⟩ (hx.arith_aluImmWord a hop hf hck)
    rw [hnext, hx.op1 a h1]
    rfl
  · rw [hx.select_eq 0b1100111#7 hop] at hsel
    obtain rfl := Option.some.inj hsel
    apply hx.conforms_of_arith a ⟨ha, hrd, hr, hw⟩ (Decoding.arith_link _ (.inl hop))
    rw [hx.next_jalr a ht hop, hx.op1 a h1]
    rfl

theorem FieldsOf.conforms_upper (hop : x.opcode = opAuipc ∨ x.opcode = opLui ∨ x.opcode = opJal)
    (hf : x.flags = {doesArithLogic := true, writesRd := true}) {op : Op}
    (hsel : Rv64i.select w = some op) : Conforms x w a op := by
  simp only [Decoding.flags, Flags.mk.injEq] at hf
  obtain ⟨hr, hw, ha, hrd, -⟩ := hf
  rcases hop with hop | hop | hop
  · have hnext := Decoding.next_sequential a.regs ht hop (by decide)
    rw [hx.select_eq 0b0010111#7 hop] at hsel
    obtain rfl := Option.some.inj hsel
    apply hx.conforms_of_arith a ⟨ha, hrd, hr, hw⟩ (hx.arith_auipc a hop)
    rw [hnext]
    rfl
  · have hnext := Decoding.next_sequential a.regs ht hop (by decide)
    rw [hx.select_eq 0b0110111#7 hop] at hsel
    obtain rfl := Option.some.inj hsel
    apply hx.conforms_of_arith a ⟨ha, hrd, hr, hw⟩ (hx.arith_lui a hop)
    rw [hnext]
    rfl
  · rw [hx.select_eq 0b1101111#7 hop] at hsel
    obtain rfl := Option.some.inj hsel
    apply hx.conforms_of_arith a ⟨ha, hrd, hr, hw⟩ (Decoding.arith_link _ (.inr hop))
    rw [hx.next_jal a ht hop]
    rfl

/-- A load writes what `simMemAccess` reads, extended. -/
theorem FieldsOf.conforms_load (hlen : a.memory.memArr.length ≤ MemoryStore.maxEntries)
    (hop : x.opcode = opLoad)
    (hf : x.flags = {readsRs1 := true, writesRd := true, readsMem := true}) {op : Op}
    (hsel : Rv64i.select w = some op) : Conforms x w a op := by
  simp only [Decoding.flags, Flags.mk.injEq] at hf
  obtain ⟨hr, hw, ha, hrd, h1, -⟩ := hf
  have hnext := Decoding.next_sequential a.regs ht hop (by decide)
  rw [hx.select_eq 0b0000011#7 hop] at hsel
  have hload : Rv64i.loadOp (Rv64i.funct3 w) = some op := hsel
  obtain ⟨width, unsigned, rfl⟩ := loadOp_eq hload
  refine ⟨fun hin => ?_, fun _ => .inl hr⟩
  obtain ⟨hsize, hvalue⟩ := loaded_eq hload (archState a x.pc)
    ((archState a x.pc).regs (Rv64i.rs1 w) + Rv64i.immI w)
  have hinb : a.memory.InBounds ((archState a x.pc).regs (Rv64i.rs1 w) + Rv64i.immI w)
      (accessSize ((Rv64i.funct3 w).setWidth 64)) := by
    rw [MemoryStore.InBounds, hsize]
    exact hin _ _ rfl
  have hread := getMemValue_bytes hlen hinb a.regs x.pc
  rw [hsize] at hread
  have hresult : loadResult (simAddrGen (x.collected a.regs)) a.memory =
      (archState a x.pc).loaded ((archState a x.pc).regs (Rv64i.rs1 w) + Rv64i.immI w)
        width unsigned := by
    have hfunct3 : (simAddrGen (x.collected a.regs)).funct3 = (Rv64i.funct3 w).setWidth 64 :=
      hx.funct3
    rw [loadResult, hfunct3, hx.load_address a h1 hr]
    exact hvalue _ hread
  rw [Decoding.execute_of_load a ha hr hrd, hresult, hnext, hx.rd]
  exact archState_set a _ _ _ _

theorem FieldsOf.conforms_store (hlen : a.memory.memArr.length ≤ MemoryStore.maxEntries)
    (hop : x.opcode = opStore)
    (hf : x.flags = {readsRs1 := true, readsRs2 := true, writesMem := true}) {op : Op}
    (hsel : Rv64i.select w = some op) : Conforms x w a op := by
  simp only [Decoding.flags, Flags.mk.injEq] at hf
  obtain ⟨hr, hw, ha, hrd, h1, h2⟩ := hf
  have hnext := Decoding.next_sequential a.regs ht hop (by decide)
  rw [hx.select_eq 0b0100011#7 hop] at hsel
  have hstore : Rv64i.storeOp (Rv64i.funct3 w) = some op := hsel
  obtain ⟨width, rfl, hsize⟩ := storeOp_eq hstore
  refine ⟨fun hin => ?_, fun h => absurd h (by rw [hrd]; decide)⟩
  have hinb : a.memory.InBounds ((archState a x.pc).regs (Rv64i.rs1 w) + Rv64i.immS w)
      (accessSize x.funct3) := by
    rw [MemoryStore.InBounds, hx.funct3, hsize]
    exact hin _ _ rfl
  rw [Decoding.execute_of_store a ha hr hw hrd, hnext, hx.store_address a h1 hr hw, hx.op2 a h2,
    MemoryStore.setMemValue_eq hlen]
  apply Rv64i.State.ext
  case pc => rfl
  case regs => rfl
  funext address
  have hbyte := byte_write hlen hinb ((archState a x.pc).regs (Rv64i.rs2 w)) address
  rw [hx.funct3, hsize, ← hx.funct3] at hbyte
  exact hbyte

/-- A branch writes nothing. -/
theorem FieldsOf.conforms_branch (hop : x.opcode = opBranch)
    (hf : x.flags = {readsRs1 := true, readsRs2 := true}) {op : Op}
    (hsel : Rv64i.select w = some op) : Conforms x w a op := by
  simp only [Decoding.flags, Flags.mk.injEq] at hf
  obtain ⟨hr, hw, ha, hrd, h1, h2⟩ := hf
  rw [hx.select_eq 0b1100011#7 hop] at hsel
  have hbranch : Rv64i.branchOp (Rv64i.funct3 w) = some op := hsel
  obtain ⟨c, rfl⟩ := branchOp_eq hbranch
  refine ⟨fun _ => ?_, fun h => absurd h (by rw [hrd]; decide)⟩
  rw [Decoding.execute_of_branch a ha hr hw hrd, hx.next_branch a ht hop hbranch, hx.op1 a h1,
    hx.op2 a h2]
  show _ = if _ then _ else _
  split <;> rfl

/-- By the flags decoding leaves. -/
theorem FieldsOf.conforms (hd : Decoded x) (hlen : a.memory.memArr.length ≤ MemoryStore.maxEntries)
    (hnop : x.isNop = true → w = 0x00000013#32) {op : Op} (hsel : Rv64i.select w = some op)
    (hck : checkedBits op (Rv64i.funct7 w) = true) : Conforms x w a op := by
  have hlegal : x.isLegal = true ∧ x.isHalt = false := by
    simpa only [Decoding.traps, Bool.or_eq_false_iff, Bool.not_eq_false'] using ht
  cases hd.kind with
  | special hs _ _ hf =>
    have hn : x.isNop = true := hs.resolve_left (by rw [hlegal.2]; decide)
    have hw := hnop hn
    have hadd : Rv64i.select w = some (.aluImm .add) := by
      rw [hw]
      decide
    obtain rfl := Option.some.inj (hsel.symm.trans hadd)
    exact hx.conforms_nop a ht hw hf
  | illegal hl _ => exact absurd hl (by rw [hlegal.1]; decide)
  | register _ hop hf => exact hx.conforms_register a ht hop hf hsel hck
  | immediate _ hop hf => exact hx.conforms_immediate a ht hop hf hsel hck
  | load _ hop hf => exact hx.conforms_load a ht hlen hop hf hsel
  | store _ hop hf => exact hx.conforms_store a ht hlen hop hf hsel
  | branch _ hop hf => exact hx.conforms_branch a ht hop hf hsel
  | upper _ hop hf => exact hx.conforms_upper a ht hop hf hsel

end

/-! ### `simInstruction` -/

theorem decodeAt_fieldsOf (pc : BitVec 64) (memory : MemoryStore) :
    FieldsOf (decodeAt pc memory) (wordAt pc memory) := by
  have hfields := decodeFields_fieldsOf (x := simFetch pc memory) rfl
  have hsame := simDecode_fields (simFetch pc memory)
  exact ⟨(congrArg (·.instruction) hsame).trans hfields.instruction,
    (congrArg (·.opcode) hsame).trans hfields.opcode,
    (congrArg (·.funct3) hsame).trans hfields.funct3,
    (congrArg (·.funct7) hsame).trans hfields.funct7,
    (congrArg (·.rd) hsame).trans hfields.rd,
    (congrArg (·.rs1) hsame).trans hfields.rs1,
    (congrArg (·.rs2) hsame).trans hfields.rs2⟩

/-- Register 0 is read as 0, by every instruction. -/
def ReadsZero (r : Regs) : Prop :=
  ∀ y : Instruction,
    (y.readsRs1 = true → y.rs1 = 0#64 → (simOperandCollection y r).op1Val = 0#64) ∧
    (y.readsRs2 = true → y.rs2 = 0#64 → (simOperandCollection y r).op2Val = 0#64)

theorem readsZero (r : Regs) : ReadsZero r := by
  have hread : r.read 0#64 = 0#64 := by
    rw [Regs.read_eq]
    rfl
  intro y
  constructor
  · intro h h0
    rw [← hread, ← h0]
    exact if_pos h
  · intro h h0
    rw [← hread, ← h0]
    exact if_pos h

/-- A legal word other than HALT selects an operation, and its decoding conforms to it. -/
theorem decodeAt_conforms (s : Simulator) (pc : BitVec 64)
    (hlen : s.memory.memArr.length ≤ MemoryStore.maxEntries)
    (hlegal : (simDecode (simFetch pc s.memory)).isLegal = true)
    (hhalt : wordAt pc s.memory ≠ 0xfeedfeed#32) : ∃ op,
      Rv64i.select (wordAt pc s.memory) = some op ∧
        Conforms (decodeAt pc s.memory) (wordAt pc s.memory) s.arch op := by
  have hword : ∀ c : BitVec 32, (simFetch pc s.memory).instruction = c.setWidth 64 →
      wordAt pc s.memory = c := fun c hc => (setWidth_inj (by decide)).mp hc
  have ht : (decodeAt pc s.memory).traps = false := by
    have hnot : (decodeAt pc s.memory).isHalt = false :=
      Bool.eq_false_iff.mpr (fun h => hhalt (hword _ (simDecode_halt rfl h).1))
    have hl : (decodeAt pc s.memory).isLegal = true := hlegal
    rw [Decoding.traps, hnot, hl]
    rfl
  obtain ⟨op, hsel, hck⟩ : Accepted (wordAt pc s.memory) :=
    ((simDecode_isLegal (w := wordAt pc s.memory) rfl).mp hlegal).resolve_left hhalt
  exact ⟨op, hsel, (decodeAt_fieldsOf pc s.memory).conforms s.arch ht (decodeAt_decoded pc s.memory)
    hlen (fun hn => hword _ (simDecode_nop_word rfl hn)) hsel hck⟩

/-- `simInstruction` leaves the state of an operation to which the decoding conforms. -/
theorem Conforms.simInstruction {s : Simulator} {pc : BitVec 64} {op : Op}
    (h : Conforms (decodeAt pc s.memory) (wordAt pc s.memory) s.arch op)
    (hin : InMemory s.memory (op.access (wordAt pc s.memory) (archState s.arch pc))) :
    archState (s.simInstruction pc).2.arch (s.simInstruction pc).1.nextPC =
      op.execute (wordAt pc s.memory) (archState s.arch pc) := by
  have hpc := decodeAt_pc pc s.memory
  have harch : (s.simInstruction pc).2.arch = (decodeAt pc s.memory).execute s.arch :=
    Funct.step_arch ⟨s, pc⟩
  have hnext : (s.simInstruction pc).1.nextPC = (decodeAt pc s.memory).successor s.regData :=
    Funct.step_pc ⟨s, pc⟩
  have hstate := h.state
  rw [hpc] at hstate
  rw [harch, hnext]
  exact hstate hin

/-- **Conformance.** A word other than HALT that `simDecode` accepts selects an operation of
RV64I, and unless its access leaves the memory `simInstruction` takes the registers, the memory
and the PC to the state the operation gives. Whatever the operands, a result that is written
back has been assigned. -/
theorem simInstruction_conforms (s : Simulator) (pc : BitVec 64)
    (hlen : s.memory.memArr.length ≤ MemoryStore.maxEntries)
    (hlegal : (simDecode (simFetch pc s.memory)).isLegal = true)
    (hhalt : wordAt pc s.memory ≠ 0xfeedfeed#32) :
    ∃ op, Rv64i.select (wordAt pc s.memory) = some op ∧
      (InMemory s.memory (op.access (wordAt pc s.memory) (archState s.arch pc)) →
        archState (s.simInstruction pc).2.arch (s.simInstruction pc).1.nextPC =
          op.execute (wordAt pc s.memory) (archState s.arch pc)) ∧
      ReadsZero (s.simInstruction pc).2.regData ∧
      ((decodeAt pc s.memory).writesRd = true → (decodeAt pc s.memory).readsMem = true ∨
        (decodeAt pc s.memory).doesArithLogic = true ∧
          (arithAssigned ((decodeAt pc s.memory).collected s.regData)).isSome = true) := by
  obtain ⟨op, hsel, hconforms⟩ := decodeAt_conforms s pc hlen hlegal hhalt
  exact ⟨op, hsel, hconforms.simInstruction, readsZero _, hconforms.assigned⟩

/-- `lw x1, 12(x0)`. -/
theorem simInstruction_conforms_sample :
    archState (Simulator.simInstruction { memory := sampleImage.store } 0#64).2.arch
        (Simulator.simInstruction { memory := sampleImage.store } 0#64).1.nextPC =
      (Op.load .word false).execute 0x00c02083#32
        (archState (Simulator.arch { memory := sampleImage.store }) 0#64) := by
  have himage : IsImage sampleImage.store := Funct.memory_isImage 0
  have hword : wordAt 0#64 sampleImage.store = 0x00c02083#32 := by decide
  obtain ⟨op, hsel, hstate, -⟩ := simInstruction_conforms { memory := sampleImage.store } 0#64
    himage.length_le (by decide) (by rw [hword]; decide)
  rw [hword] at hsel hstate
  obtain rfl : op = .load .word false := Option.some.inj (hsel.symm.trans (by decide))
  refine hstate (fun address width h => ?_)
  obtain ⟨rfl, rfl⟩ := Prod.mk.inj (Option.some.inj h)
  rw [himage.length]
  decide
end CycleSim
