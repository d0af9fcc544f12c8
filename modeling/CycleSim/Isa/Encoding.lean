import CycleSim.Isa.Fields

/-! Which words `simDecode` accepts.

It tests the opcode and `funct3`, and further function bits only where they select the
operation: all of `funct7` for add/sub and the right shifts of the word operations, its
upper six bits for the other right shifts. The remaining bits an encoding fixes, and the
`funct3` of `jalr`, are not looked at. -/
namespace CycleSim

open Rv64i (Op AluOp WordOp)

/-- The function bits `simDecode` looks at beyond opcode, `funct3` and bit 30. -/
def checkedBits : Op → BitVec 7 → Bool
  | .alu f, funct7 =>
    match f with
    | .add | .sub => funct7 == f.funct7
    | .srl | .sra => funct7.extractLsb' 1 6 == f.funct7.extractLsb' 1 6
    | _ => true
  | .aluWord f, funct7 => f == .sll || funct7 == f.funct7
  | .aluImm f, funct7 =>
    match f with
    | .srl | .sra => funct7.extractLsb' 1 6 == f.funct7.extractLsb' 1 6
    | _ => true
  | .aluImmWord f, funct7 =>
    match f with
    | .srl | .sra => funct7 == f.funct7
    | _ => true
  | _, _ => true

/-- The word selects an operation, and the bits looked at are those of the operation. -/
def Accepted (w : BitVec 32) : Prop :=
  ∃ op, Rv64i.select w = some op ∧ checkedBits op (Rv64i.funct7 w) = true

theorem accepted_iff (w : BitVec 32) :
    Accepted w ↔ (Rv64i.select w).any (checkedBits · (Rv64i.funct7 w)) = true := by
  rw [Option.any_eq_true]
  rfl

instance (w : BitVec 32) : Decidable (Accepted w) := decidable_of_iff _ (accepted_iff w).symm

/-! ### The tables agree -/

theorem bit30_eq (w : BitVec 32) : Rv64i.bit30 w = (Rv64i.funct7 w).getLsbD 5 := by
  simp [Rv64i.bit30, Rv64i.funct7]

theorem funct6_eq (w : BitVec 32) : Rv64i.funct6 w = (Rv64i.funct7 w).extractLsb' 1 6 := by
  apply BitVec.eq_of_getLsbD_eq
  intro i hi
  simp [Rv64i.funct6, Rv64i.funct7, hi, show 1 + i < 7 by omega, ← Nat.add_assoc]

section
variable (f3 : BitVec 3) (f7 : BitVec 7)

theorem acceptsInt_eq : acceptsInt (f3.setWidth 64) (f7.setWidth 64) =
    checkedBits (.alu (Rv64i.aluOp f3 (f7.getLsbD 5))) f7 := by
  revert f3 f7
  decide +kernel

theorem acceptsIntW_eq : acceptsIntW (f3.setWidth 64) (f7.setWidth 64) =
    ((Rv64i.wordOp f3 (f7.getLsbD 5)).map .aluWord).any (checkedBits · f7) := by
  revert f3 f7
  decide +kernel

theorem acceptsIntImm_eq : acceptsIntImm (f3.setWidth 64) (f7.setWidth 64) =
    checkedBits (.aluImm (Rv64i.aluImmOp f3 (f7.getLsbD 5))) f7 := by
  revert f3 f7
  decide +kernel

theorem acceptsIntImmW_eq : acceptsIntImmW (f3.setWidth 64) (f7.setWidth 64) =
    ((Rv64i.wordImmOp f3 (f7.getLsbD 5)).map .aluImmWord).any (checkedBits · f7) := by
  revert f3 f7
  decide +kernel

theorem acceptsLoad_eq : acceptsLoad (f3.setWidth 64) =
    (Rv64i.loadOp f3).any (checkedBits · f7) := by
  revert f3 f7
  decide +kernel

theorem acceptsStore_eq : acceptsStore (f3.setWidth 64) =
    (Rv64i.storeOp f3).any (checkedBits · f7) := by
  revert f3 f7
  decide +kernel

theorem acceptsBranch_eq : acceptsBranch (f3.setWidth 64) =
    (Rv64i.branchOp f3).any (checkedBits · f7) := by
  revert f3 f7
  decide +kernel

end

theorem FieldsOf.opcode_eq_iff {x : Decoding} {w : BitVec 32} (h : FieldsOf x w) (c : BitVec 7) :
    x.opcode = c.setWidth 64 ↔ Rv64i.opcode w = c := by
  rw [h.opcode]
  exact setWidth_inj (by decide)

theorem isLegal_ite {c : Bool} {x y : Instruction} (hx : x.isLegal = true)
    (hy : y.isLegal = false) : (if c then x else y).isLegal = c := by
  cases c
  · exact hy
  · exact hx

/-- One test of the two `switch`es. -/
theorem isLegal_switch {p q : Prop} [Decidable p] [Decidable q] {x y : Instruction}
    {o r : Option Op} {check : Op → Bool} (h : p ↔ q) (hx : x.isLegal = o.any check)
    (hy : y.isLegal = r.any check) :
    (if p then x else y).isLegal = (if q then o else r).any check := by
  by_cases hp : p
  · rw [if_pos hp, if_pos (h.mp hp), hx]
  · rw [if_neg hp, if_neg (mt h.mpr hp), hy]

/-- The `switch` accepts the words that select an operation and pass its check. -/
theorem decodeOpcode_isLegal {x : Instruction} {w : BitVec 32} (h : FieldsOf x.toDecoding w)
    (hl : x.isLegal = true) : (decodeOpcode x).isLegal =
      (Rv64i.select w).any (checkedBits · (Rv64i.funct7 w)) := by
  have hop : ∀ c : BitVec 7, x.opcode = c.setWidth 64 ↔ Rv64i.opcode w = c := h.opcode_eq_iff
  rw [decodeOpcode, Rv64i.select, Rv64i.selectOp, bit30_eq]
  apply isLegal_switch (hop 0b0110011#7)
  · refine Eq.trans (isLegal_ite hl rfl) ?_
    rw [h.funct3, h.funct7, acceptsInt_eq]
    rfl
  apply isLegal_switch (hop 0b0111011#7)
  · refine Eq.trans (isLegal_ite hl rfl) ?_
    rw [h.funct3, h.funct7, acceptsIntW_eq]
  apply isLegal_switch (hop 0b0000011#7)
  · refine Eq.trans (isLegal_ite hl rfl) ?_
    rw [h.funct3, acceptsLoad_eq]
  apply isLegal_switch (hop 0b0010011#7)
  · refine Eq.trans (isLegal_ite hl rfl) ?_
    rw [h.funct3, h.funct7, acceptsIntImm_eq]
    rfl
  apply isLegal_switch (hop 0b0011011#7)
  · refine Eq.trans (isLegal_ite hl rfl) ?_
    rw [h.funct3, h.funct7, acceptsIntImmW_eq]
  apply isLegal_switch (hop 0b1100111#7) rfl
  apply isLegal_switch (hop 0b0100011#7)
  · refine Eq.trans (isLegal_ite hl rfl) ?_
    rw [h.funct3, acceptsStore_eq]
  apply isLegal_switch (hop 0b1100011#7)
  · refine Eq.trans (isLegal_ite hl rfl) ?_
    rw [h.funct3, acceptsBranch_eq]
  -- `auipc`, `lui` and `jal` share a case of the source
  have hupper : (x.opcode = opAuipc ∨ x.opcode = opLui ∨ x.opcode = opJal) ↔
      Rv64i.opcode w = 0b0010111#7 ∨ Rv64i.opcode w = 0b0110111#7 ∨ Rv64i.opcode w = 0b1101111#7 :=
    or_congr (hop 0b0010111#7) (or_congr (hop 0b0110111#7) (hop 0b1101111#7))
  by_cases h1 : Rv64i.opcode w = 0b0010111#7
  · rw [if_pos (hupper.mpr (.inl h1)), if_pos h1]
    rfl
  by_cases h2 : Rv64i.opcode w = 0b0110111#7
  · rw [if_pos (hupper.mpr (.inr (.inl h2))), if_neg h1, if_pos h2]
    rfl
  by_cases h3 : Rv64i.opcode w = 0b1101111#7
  · rw [if_pos (hupper.mpr (.inr (.inr h3))), if_neg h1, if_neg h2, if_pos h3]
    rfl
  · rw [if_neg (mt hupper.mp (not_or.mpr ⟨h1, not_or.mpr ⟨h2, h3⟩⟩)), if_neg h1, if_neg h2,
      if_neg h3]
    rfl

/-! ### `simDecode` -/

/-- An encoding has the bits that are looked at. -/
theorem checkedBits_of_fixedBits {op : Op} {w : BitVec 32} (h : op.fixedBits w = true) :
    checkedBits op (Rv64i.funct7 w) = true := by
  cases op with
  | alu f =>
    have hf : Rv64i.funct7 w = f.funct7 := beq_iff_eq.mp h
    rw [hf]
    cases f <;> rfl
  | aluWord f =>
    have hf : Rv64i.funct7 w = f.funct7 := beq_iff_eq.mp h
    rw [hf]
    cases f <;> rfl
  | aluImm f =>
    rw [Rv64i.Op.fixedBits, funct6_eq] at h
    cases f
    case srl => exact h
    case sra => exact h
    all_goals rfl
  | aluImmWord f =>
    cases f
    case srl => exact h
    case sra => exact h
    all_goals rfl
  | _ => rfl

theorem simDecode_isLegal {x : Instruction} {w : BitVec 32} (hx : x.instruction = w.setWidth 64) :
    (simDecode x).isLegal = true ↔ w = 0xfeedfeed#32 ∨ Accepted w := by
  have hword : ∀ c : BitVec 32, (decodeFields x).instruction = c.setWidth 64 ↔ w = c := by
    intro c
    show x.instruction = _ ↔ _
    rw [hx]
    exact setWidth_inj (by decide)
  have hhalt : (decodeFields x).instruction = 0xfeedfeed#64 ↔ _ := hword 0xfeedfeed#32
  have hnop : (decodeFields x).instruction = 0x00000013#64 ↔ _ := hword 0x00000013#32
  unfold simDecode
  by_cases h1 : w = 0xfeedfeed#32
  · rw [if_pos (hhalt.mpr h1)]
    exact iff_of_true rfl (.inl h1)
  by_cases h2 : w = 0x00000013#32
  · rw [if_neg (mt hhalt.mp h1), if_pos (hnop.mpr h2)]
    refine iff_of_true rfl (.inr ?_)
    rw [h2]
    decide
  · rw [if_neg (mt hhalt.mp h1), if_neg (mt hnop.mp h2), accepted_iff,
      decodeOpcode_isLegal (decodeFields_fieldsOf hx) rfl]
    simp only [h1, false_or]

/-- **What `simDecode` accepts.** HALT and the words that select an operation and pass the
check of its function bits; among these are all valid encodings. -/
theorem simDecode_accepts (x : Instruction) (w : BitVec 32) :
    ((simDecode { x with instruction := w.setWidth 64 }).isLegal = true ↔
      w = 0xfeedfeed#32 ∨ Accepted w) ∧
    (Rv64i.Valid w → (simDecode { x with instruction := w.setWidth 64 }).isLegal = true) := by
  refine ⟨simDecode_isLegal rfl, ?_⟩
  intro ⟨op, hop, hbits⟩
  exact (simDecode_isLegal rfl).mpr (.inr ⟨op, hop, checkedBits_of_fixedBits hbits⟩)

/-- `mulh x1, x2, x3` is taken for `sll`. -/
theorem simDecode_accepts_mulh : ¬∀ (x : Instruction) (w : BitVec 32),
    (simDecode { x with instruction := w.setWidth 64 }).isLegal = true ↔
      w = 0xfeedfeed#32 ∨ Rv64i.Valid w := by
  intro hall
  have hlegal : (simDecode { instruction := (0x023110b3#32).setWidth 64 }).isLegal = true := by
    decide
  exact absurd ((hall {} 0x023110b3#32).mp hlegal) (by decide)

end CycleSim
