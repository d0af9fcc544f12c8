import CycleSim.Isa.Encoding

/-! What `simArithLogic` and `simNextPCResolution` compute, operation by operation.

Each `switch` on `funct3` is compared with the operation the word selects, on arbitrary
operands. The shift amounts are masked in the source and sliced in the specification. -/
namespace CycleSim

open Rv64i (AluOp WordOp)

/-! ### Shift amounts -/

section
variable {m n : Nat}

theorem and_mask_toNat (b : BitVec 64) {k : Nat} (mask : BitVec 64) (h : mask.toNat = 2 ^ k - 1) :
    (b &&& mask).toNat = (b.extractLsb' 0 k).toNat := by
  rw [BitVec.toNat_and, h, Nat.and_two_pow_sub_one_eq_mod, BitVec.extractLsb'_toNat,
    Nat.shiftRight_zero]

theorem shiftLeft_congr (a : BitVec m) {x : BitVec n} {k : Nat} {y : BitVec k}
    (h : x.toNat = y.toNat) : a <<< x = a <<< y := by
  rw [BitVec.shiftLeft_eq', BitVec.shiftLeft_eq', h]

theorem ushiftRight_congr (a : BitVec m) {x : BitVec n} {k : Nat} {y : BitVec k}
    (h : x.toNat = y.toNat) : a >>> x = a >>> y := by
  rw [BitVec.ushiftRight_eq', BitVec.ushiftRight_eq', h]

theorem sshiftRight_congr (a : BitVec m) {x : BitVec n} {k : Nat} {y : BitVec k}
    (h : x.toNat = y.toNat) : a.sshiftRight' x = a.sshiftRight' y := by
  show a.sshiftRight x.toNat = a.sshiftRight y.toNat
  rw [h]

end

theorem mask6_toNat (b : BitVec 64) : (b &&& 0x3F#64).toNat = (b.extractLsb' 0 6).toNat :=
  and_mask_toNat b _ (by decide)

theorem funct3_cases (f3 : BitVec 3) : f3 = 0b000#3 ∨ f3 = 0b001#3 ∨ f3 = 0b010#3 ∨
    f3 = 0b011#3 ∨ f3 = 0b100#3 ∨ f3 = 0b101#3 ∨ f3 = 0b110#3 ∨ f3 = 0b111#3 := by
  revert f3
  decide

section
variable {f3 : BitVec 3} {f7 : BitVec 7} (a b : BitVec 64)

theorem arithInt_eq (h : checkedBits (.alu (Rv64i.aluOp f3 (f7.getLsbD 5))) f7 = true) :
    arithInt (f3.setWidth 64) (f7.setWidth 64) ((f7.extractLsb' 1 6).setWidth 64) a
        (if f3 = 0b001#3 ∨ f3 = 0b101#3 then b &&& 0x3F#64 else b) =
      some ((Rv64i.aluOp f3 (f7.getLsbD 5)).eval a b) := by
  generalize f7.getLsbD 5 = bit at h ⊢
  rcases funct3_cases f3 with rfl | rfl | rfl | rfl | rfl | rfl | rfl | rfl
  · cases bit
    · have hf : f7 = 0b0000000#7 := beq_iff_eq.mp h
      rw [hf]
      rfl
    · have hf : f7 = 0b0100000#7 := beq_iff_eq.mp h
      rw [hf]
      rfl
  · exact congrArg some (shiftLeft_congr a (mask6_toNat b))
  · rfl
  · rfl
  · rfl
  · cases bit
    · have hf : f7.extractLsb' 1 6 = 0b000000#6 := beq_iff_eq.mp h
      rw [hf]
      exact congrArg some (ushiftRight_congr a (mask6_toNat b))
    · have hf : f7.extractLsb' 1 6 = 0b010000#6 := beq_iff_eq.mp h
      rw [hf]
      exact congrArg some (sshiftRight_congr a (mask6_toNat b))
  · rfl
  · rfl

theorem mask5_toNat (b : BitVec 64) :
    ((b &&& 0x1F#64).setWidth 32).toNat = ((b.setWidth 32).extractLsb' 0 5).toNat := by
  have hmask := and_mask_toNat b 0x1F#64 (show (0x1F#64).toNat = 2 ^ 5 - 1 by decide)
  rw [BitVec.toNat_setWidth, hmask, BitVec.extractLsb'_toNat, BitVec.extractLsb'_toNat,
    BitVec.toNat_setWidth, Nat.shiftRight_zero, Nat.shiftRight_zero]
  omega

theorem arithIntW_eq {f : WordOp} (hf : Rv64i.wordOp f3 (f7.getLsbD 5) = some f)
    (h : checkedBits (.aluWord f) f7 = true) :
    arithIntW (f3.setWidth 64) (f7.setWidth 64) ((f7.extractLsb' 1 6).setWidth 64) a
        (if f3 = 0b001#3 ∨ f3 = 0b101#3 then b &&& 0x1F#64 else b) = some (f.evalWord a b) := by
  generalize f7.getLsbD 5 = bit at hf
  rcases funct3_cases f3 with rfl | rfl | rfl | rfl | rfl | rfl | rfl | rfl
  · obtain rfl := Option.some.inj hf
    cases bit
    · have hf : f7 = 0b0000000#7 := beq_iff_eq.mp h
      rw [hf]
      exact congrArg some (sextWord_eq _)
    · have hf : f7 = 0b0100000#7 := beq_iff_eq.mp h
      rw [hf]
      exact congrArg some (sextWord_eq _)
  · obtain rfl := Option.some.inj hf
    refine congrArg some ((sextWord_eq _).trans (congrArg _ ?_))
    exact shiftLeft_congr _ (mask5_toNat b)
  · cases hf
  · cases hf
  · cases hf
  · obtain rfl := Option.some.inj hf
    cases bit
    · have hf : f7 = 0b0000000#7 := beq_iff_eq.mp h
      rw [hf]
      refine congrArg some ((sextWord_eq _).trans (congrArg _ ?_))
      exact ushiftRight_congr _ (mask5_toNat b)
    · have hf : f7 = 0b0100000#7 := beq_iff_eq.mp h
      rw [hf]
      refine congrArg some ((sext64_signExtend _).trans (congrArg _ ?_))
      exact sshiftRight_congr _ (mask5_toNat b)
  · cases hf
  · cases hf

end

/-! ### Immediate operands -/

section
variable (imm : BitVec 12)

theorem imm_mask6_toNat : (imm.setWidth 64 &&& 0x3F#64).toNat =
    ((imm.signExtend 64).extractLsb' 0 6).toNat := by
  rw [mask6_toNat]
  congr 1
  apply BitVec.eq_of_getLsbD_eq
  intro i hi
  simp [BitVec.getElem_signExtend, hi, show i < 64 by omega, show i < 12 by omega]

theorem imm_mask5_toNat : ((imm.setWidth 64 &&& 0x1F#64).setWidth 32).toNat =
    (((imm.signExtend 64).setWidth 32).extractLsb' 0 5).toNat := by
  rw [mask5_toNat]
  congr 1
  apply BitVec.eq_of_getLsbD_eq
  intro i hi
  simp [BitVec.getElem_signExtend, hi, show i < 64 by omega, show i < 32 by omega,
    show i < 12 by omega]

theorem imm_sext32 : sext32 ((imm.setWidth 64).setWidth 32) 11 = (imm.signExtend 64).setWidth 32 := by
  have hwidth : (imm.setWidth 64).setWidth 32 = imm.setWidth 32 := by
    rw [BitVec.setWidth_setWidth_of_le _ (by decide)]
  rw [hwidth, sext32_setWidth imm rfl (by decide)]
  apply BitVec.eq_of_getLsbD_eq
  intro i hi
  simp [BitVec.getElem_signExtend, hi, show i < 64 by omega]

variable {f3 : BitVec 3} {f7 : BitVec 7} (a : BitVec 64)

theorem arithIntImm_eq (h : checkedBits (.aluImm (Rv64i.aluImmOp f3 (f7.getLsbD 5))) f7 = true) :
    arithIntImm (f3.setWidth 64) ((f7.extractLsb' 1 6).setWidth 64) (imm.setWidth 64) a =
      some ((Rv64i.aluImmOp f3 (f7.getLsbD 5)).eval a (imm.signExtend 64)) := by
  have hsext : sext64 (imm.setWidth 64) 11 = imm.signExtend 64 :=
    sext64_setWidth imm rfl (by decide)
  generalize f7.getLsbD 5 = bit at h ⊢
  rw [arithIntImm, hsext]
  rcases funct3_cases f3 with rfl | rfl | rfl | rfl | rfl | rfl | rfl | rfl
  · rfl
  · exact congrArg some (shiftLeft_congr a (imm_mask6_toNat imm))
  · rfl
  · rfl
  · rfl
  · cases bit
    · have hf : f7.extractLsb' 1 6 = 0b000000#6 := beq_iff_eq.mp h
      rw [hf]
      exact congrArg some (ushiftRight_congr a (imm_mask6_toNat imm))
    · have hf : f7.extractLsb' 1 6 = 0b010000#6 := beq_iff_eq.mp h
      rw [hf]
      exact congrArg some (sshiftRight_congr a (imm_mask6_toNat imm))
  · rfl
  · rfl

theorem arithIntImmW_eq {f : WordOp} (hf : Rv64i.wordImmOp f3 (f7.getLsbD 5) = some f)
    (h : checkedBits (.aluImmWord f) f7 = true) :
    arithIntImmW (f3.setWidth 64) ((f7.extractLsb' 1 6).setWidth 64) (imm.setWidth 64) a =
      some (f.evalWord a (imm.signExtend 64)) := by
  generalize f7.getLsbD 5 = bit at hf
  rw [arithIntImmW, imm_sext32]
  rcases funct3_cases f3 with rfl | rfl | rfl | rfl | rfl | rfl | rfl | rfl
  · obtain rfl := Option.some.inj hf
    exact congrArg some (sextWord_eq _)
  · obtain rfl := Option.some.inj hf
    refine congrArg some ((sextWord_eq _).trans (congrArg _ ?_))
    exact shiftLeft_congr _ (imm_mask5_toNat imm)
  · cases hf
  · cases hf
  · cases hf
  · obtain rfl := Option.some.inj hf
    cases bit
    · have hf : f7 = 0b0000000#7 := beq_iff_eq.mp h
      rw [hf]
      refine congrArg some ((sextWord_eq _).trans (congrArg _ ?_))
      exact ushiftRight_congr _ (imm_mask5_toNat imm)
    · have hf : f7 = 0b0100000#7 := beq_iff_eq.mp h
      rw [hf]
      refine congrArg some ((sext64_signExtend _).trans (congrArg _ ?_))
      exact sshiftRight_congr _ (imm_mask5_toNat imm)
  · cases hf
  · cases hf

end

theorem branchOp_eq {f3 : BitVec 3} {op : Rv64i.Op} (h : Rv64i.branchOp f3 = some op) :
    ∃ c, op = .branch c := by
  rcases funct3_cases f3 with rfl | rfl | rfl | rfl | rfl | rfl | rfl | rfl
  case inr.inr.inl => cases h
  case inr.inr.inr.inl => cases h
  all_goals exact ⟨_, (Option.some.inj h).symm⟩

theorem branchTaken_eq {f3 : BitVec 3} {c : Rv64i.Cond} (h : Rv64i.branchOp f3 = some (.branch c))
    (a b : BitVec 64) : branchTaken (f3.setWidth 64) a b = c.holds a b := by
  rcases funct3_cases f3 with rfl | rfl | rfl | rfl | rfl | rfl | rfl | rfl
  case inr.inr.inl => cases h
  case inr.inr.inr.inl => cases h
  all_goals
    obtain rfl := Rv64i.Op.branch.inj (Option.some.inj h)
    rfl

end CycleSim
