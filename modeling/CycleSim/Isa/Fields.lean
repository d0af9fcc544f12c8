import CycleSim.Simulator
import CycleSim.Lib.Rv64i

/-! The bit fields and immediates of the source, as slices of the instruction word.

The source keeps every field in a `uint64_t` and assembles immediates with masks and
shifts; here each is the zero or sign extension of a slice of the word. -/
namespace CycleSim

section
variable {m n : Nat}

theorem fieldMask_toNat (h : n ≤ 30) : (((1#32 <<< n) - 1#32).signExtend 64).toNat = 2 ^ n - 1 := by
  have hall : ∀ n ≤ 30, (((1#32 <<< n) - 1#32).signExtend 64).toNat = 2 ^ n - 1 := by decide
  exact hall n h

/-- A field of `n` bits. -/
theorem extractBits_setWidth (x : BitVec m) {start stop : Nat} (h : start - stop + 1 = n)
    (hn : n ≤ 30) (hm : m ≤ 64) :
    extractBits (x.setWidth 64) start stop = (x.extractLsb' stop n).setWidth 64 := by
  have hx : x.toNat < 2 ^ 64 := Nat.lt_of_lt_of_le x.isLt (Nat.pow_le_pow_right (by decide) hm)
  have hfield : x.toNat >>> stop % 2 ^ n < 2 ^ 64 :=
    Nat.lt_of_lt_of_le (Nat.mod_lt _ (Nat.two_pow_pos n)) (Nat.pow_le_pow_right (by decide) (by omega))
  apply BitVec.eq_of_toNat_eq
  rw [extractBits, h, BitVec.toNat_and, BitVec.toNat_ushiftRight, fieldMask_toNat hn,
    Nat.and_two_pow_sub_one_eq_mod, BitVec.toNat_setWidth, Nat.mod_eq_of_lt hx,
    BitVec.toNat_setWidth, BitVec.extractLsb'_toNat, Nat.mod_eq_of_lt hfield]

theorem setWidth_inj (h : m ≤ n) {x y : BitVec m} : x.setWidth n = y.setWidth n ↔ x = y := by
  constructor
  · intro he
    have hback := congrArg (BitVec.setWidth m) he
    simpa [BitVec.setWidth_setWidth_of_le, h] using hback
  · exact fun he => he ▸ rfl

/-- Setting the bits above the top bit of a field when that bit is set is sign extension. -/
theorem ite_signBit (x : BitVec m) (hm : 0 < m) (hn : m < n) :
    (if x.setWidth n &&& (1#n <<< (m - 1)) ≠ 0#n then x.setWidth n ||| (~~~0#n <<< m)
      else x.setWidth n) = x.signExtend n := by
  have htop : (x.setWidth n).getLsbD (m - 1) = x.msb := by
    rw [BitVec.getLsbD_setWidth, BitVec.msb_eq_getLsbD_last, decide_eq_true (by omega), Bool.true_and]
  simp only [and_bit_ne_zero, htop]
  cases hmsb : x.msb
  · simp [BitVec.signExtend_eq_setWidth_of_msb_false hmsb]
  · rw [if_pos rfl]
    apply BitVec.eq_of_getLsbD_eq
    intro i hi
    rw [BitVec.getLsbD_signExtend, hmsb]
    by_cases him : i < m
    · simp [hi, him]
    · simp [hi, him, BitVec.getLsbD_of_ge x i (by omega)]

/-- `sext64` from the top bit of a field. -/
theorem sext64_setWidth (x : BitVec m) {signBit : Nat} (h : signBit + 1 = m) (hm : m < 64) :
    sext64 (x.setWidth 64) signBit = x.signExtend 64 := by
  subst h
  exact ite_signBit x (Nat.succ_pos _) hm

/-- `sext32` from the top bit of a field. -/
theorem sext32_setWidth (x : BitVec m) {signBit : Nat} (h : signBit + 1 = m) (hm : m < 32) :
    sext32 (x.setWidth 32) signBit = x.signExtend 32 := by
  subst h
  exact ite_signBit x (Nat.succ_pos _) hm

theorem sextWord_eq (x : BitVec 32) : sextWord x = x.signExtend 64 :=
  sext64_setWidth x rfl (by decide)

theorem signExtend_or_high (x : BitVec m) (h : x.msb = true) :
    x.signExtend n ||| (~~~0#n <<< m) = x.signExtend n := by
  apply BitVec.eq_of_getLsbD_eq
  intro i hi
  rw [BitVec.getLsbD_or, BitVec.getLsbD_signExtend, h]
  by_cases him : i < m
  · simp [hi, him]
  · simp [hi, him]

/-- Extending twice is extending once. -/
theorem sext64_signExtend (x : BitVec 32) : sext64 (x.signExtend 64) 31 = x.signExtend 64 := by
  have htop : (x.signExtend 64).getLsbD 31 = x.msb := by
    rw [BitVec.getLsbD_signExtend, BitVec.msb_eq_getLsbD_last]
    simp
  cases hmsb : x.msb
  · exact sext64_of_clear (htop.trans hmsb)
  · rw [sext64_of_set (htop.trans hmsb)]
    exact signExtend_or_high x hmsb

end

section
variable {m : Nat} (x : BitVec m) {k : Nat}

theorem sext64_of_no_sign (h : x.getLsbD k = false) :
    sext64 (x.setWidth 64) k = x.setWidth 64 := by
  have hbit : (x.setWidth 64).getLsbD k = false := by
    rw [BitVec.getLsbD_setWidth, h, Bool.and_false]
  exact sext64_of_clear hbit

/-- The bits above the one extended from are set. -/
theorem sext64_of_sign (hk : k < 64) (h : x.getLsbD k = true) {i : Nat} (hi : i < 64) :
    (sext64 (x.setWidth 64) k).getLsbD i = if k < i then true else x.getLsbD i := by
  have hbit : (x.setWidth 64).getLsbD k = true := by
    rw [BitVec.getLsbD_setWidth, h, decide_eq_true hk]
    rfl
  rw [sext64_of_set hbit, BitVec.getLsbD_or, BitVec.getLsbD_setWidth, BitVec.getLsbD_shiftLeft,
    BitVec.getLsbD_not]
  by_cases hlt : k < i
  · simp [hi, hlt, show ¬i < k + 1 by omega, show i - (k + 1) < 64 by omega]
  · simp [hi, hlt, show i < k + 1 by omega]

/-- `sext64` from a bit below the top one agrees with sign extension when the bits from there
on are equal. -/
theorem sext64_setWidth_iff (hk : k < m) (hm : m < 64) :
    sext64 (x.setWidth 64) k = x.signExtend 64 ↔
      (x.getLsbD k = false ∧ x.msb = false) ∨ ∀ j, k ≤ j → j < m → x.getLsbD j = true := by
  cases hsign : x.getLsbD k
  · rw [sext64_of_no_sign x hsign]
    have hnot : ¬∀ j, k ≤ j → j < m → x.getLsbD j = true := by
      intro h
      rw [h k (Nat.le_refl k) hk] at hsign
      cases hsign
    rw [or_iff_left hnot, eq_self_iff_true, true_and]
    constructor
    · intro h
      have hbit := congrArg (BitVec.getLsbD · m) h
      simpa [BitVec.getLsbD_signExtend, hm, -BitVec.getLsbD_eq_getElem] using hbit.symm
    · exact fun h => (BitVec.signExtend_eq_setWidth_of_msb_false h).symm
  · simp only [Bool.true_eq_false, false_and, false_or]
    constructor
    · intro h j hj hlt
      by_cases heq : j = k
      · exact heq ▸ hsign
      · have hbit := sext64_of_sign x (by omega) hsign (show j < 64 by omega)
        rw [h, BitVec.getLsbD_signExtend, decide_eq_true (by omega), Bool.true_and, if_pos hlt,
          if_pos (by omega)] at hbit
        exact hbit
    · intro h
      have hmsb : x.msb = true := by
        rw [BitVec.msb_eq_getLsbD_last]
        exact h (m - 1) (by omega) (by omega)
      apply BitVec.eq_of_getLsbD_eq
      intro i hi
      rw [sext64_of_sign x (by omega) hsign hi, BitVec.getLsbD_signExtend, hmsb,
        decide_eq_true hi, Bool.true_and]
      by_cases hlt : k < i
      · by_cases him : i < m
        · rw [if_pos hlt, if_pos him, h i (by omega) him]
        · rw [if_pos hlt, if_neg him]
      · rw [if_neg hlt, if_pos (by omega)]

end

/-! ### The instruction record -/

/-- The word `simFetch` reads. -/
def wordAt (pc : BitVec 64) (memory : MemoryStore) : BitVec 32 :=
  (memory.getMemValue pc 0#64 .wordSize).value.setWidth 32

/-- The fields of a decoded word. -/
structure FieldsOf (x : Decoding) (w : BitVec 32) : Prop where
  instruction : x.instruction = w.setWidth 64
  opcode : x.opcode = (Rv64i.opcode w).setWidth 64
  funct3 : x.funct3 = (Rv64i.funct3 w).setWidth 64
  funct7 : x.funct7 = (Rv64i.funct7 w).setWidth 64
  rd : x.rd = (Rv64i.rd w).setWidth 64
  rs1 : x.rs1 = (Rv64i.rs1 w).setWidth 64
  rs2 : x.rs2 = (Rv64i.rs2 w).setWidth 64

theorem decodeFields_fieldsOf {x : Instruction} {w : BitVec 32} (h : x.instruction = w.setWidth 64) :
    FieldsOf (decodeFields x).toDecoding w := by
  have hfield : ∀ {start stop n : Nat}, start - stop + 1 = n → n ≤ 30 →
      extractBits x.instruction start stop = (w.extractLsb' stop n).setWidth 64 := by
    intro start stop n hn hle
    rw [h]
    exact extractBits_setWidth w hn hle (by decide)
  exact ⟨h, hfield rfl (by decide), hfield rfl (by decide), hfield rfl (by decide),
    hfield rfl (by decide), hfield rfl (by decide), hfield rfl (by decide)⟩

/-! ### Immediates -/

section
variable (w : BitVec 32)

theorem imm12_eq : extractBits (w.setWidth 64) 31 20 = (w.extractLsb' 20 12).setWidth 64 :=
  extractBits_setWidth w rfl (by decide) (by decide)

theorem upperImm12_eq : extractBits (w.setWidth 64) 31 26 = (Rv64i.funct6 w).setWidth 64 :=
  extractBits_setWidth w rfl (by decide) (by decide)

theorem imm20_eq : extractBits (w.setWidth 64) 31 12 = (w.extractLsb' 12 20).setWidth 64 :=
  extractBits_setWidth w rfl (by decide) (by decide)

theorem sext64_imm12 : sext64 (extractBits (w.setWidth 64) 31 20) 11 = Rv64i.immI w := by
  rw [imm12_eq]
  exact sext64_setWidth _ rfl (by decide)

theorem storeImm_eq : sext64 (((Rv64i.funct7 w).setWidth 64 <<< 5) ||| (Rv64i.rd w).setWidth 64) 11 =
    Rv64i.immS w := by
  rw [← BitVec.setWidth_append_eq_shiftLeft_setWidth_or]
  exact sext64_setWidth _ rfl (by decide)

theorem upperShift_eq : extractBits (w.setWidth 64) 31 12 <<< 12 =
    (w.extractLsb' 12 20 ++ 0#12).setWidth 64 := by
  rw [imm20_eq, BitVec.setWidth_append_eq_shiftLeft_setWidth_or]
  exact (BitVec.or_zero).symm

theorem upperImm_eq : sext64 (extractBits (w.setWidth 64) 31 12 <<< 12) 31 = Rv64i.immU w := by
  rw [upperShift_eq]
  exact sext64_setWidth _ rfl (by decide)

/-- A field of a field of the word. -/
theorem extractBits_slice {start stop n k i : Nat} (h : start - stop + 1 = n) (hn : n ≤ 30)
    (hk : k ≤ 64) (hle : stop + n ≤ k) :
    extractBits ((w.extractLsb' i k).setWidth 64) start stop =
      (w.extractLsb' (i + stop) n).setWidth 64 := by
  rw [extractBits_setWidth _ h hn hk]
  congr 1
  apply BitVec.eq_of_getLsbD_eq
  intro b hb
  simp [hb, show stop + b < k by omega, Nat.add_assoc]

/-- Four fields and a zero bit, side by side. -/
theorem setWidth_fields {a b c d : Nat} (x : BitVec a) (y : BitVec b) (z : BitVec c) (t : BitVec d) :
    (x ++ y ++ z ++ t ++ 0#1).setWidth 64 = (x.setWidth 64 <<< (b + (c + (d + 1)))) |||
      (y.setWidth 64 <<< (c + (d + 1))) ||| (z.setWidth 64 <<< (d + 1)) |||
        (t.setWidth 64 <<< 1) := by
  have hzero : (0#1).setWidth 64 = 0#64 := rfl
  rw [BitVec.setWidth_append_eq_shiftLeft_setWidth_or, hzero, BitVec.or_zero,
    BitVec.setWidth_append_append_append_eq_shiftLeft_setWidth_or]
  simp only [BitVec.shiftLeft_or_distrib, ← BitVec.shiftLeft_add, Nat.add_assoc]

/-- The source assembles the immediate of a branch field by field. -/
theorem branchImm_eq : branchImm ((Rv64i.rd w).setWidth 64) ((Rv64i.funct7 w).setWidth 64) =
    Rv64i.immB w := by
  have hfields : (extractBits ((Rv64i.funct7 w).setWidth 64) 6 6 <<< 12) |||
      (extractBits ((Rv64i.funct7 w).setWidth 64) 5 0 <<< 5) |||
      (extractBits ((Rv64i.rd w).setWidth 64) 4 1 <<< 1) |||
      (extractBits ((Rv64i.rd w).setWidth 64) 0 0 <<< 11) =
      (w.extractLsb' 31 1 ++ w.extractLsb' 7 1 ++ w.extractLsb' 25 6 ++ w.extractLsb' 8 4 ++
        0#1).setWidth 64 := by
    rw [Rv64i.funct7, Rv64i.rd,
      @extractBits_slice w 6 6 1 7 25 rfl (by decide) (by decide) (by decide),
      @extractBits_slice w 5 0 6 7 25 rfl (by decide) (by decide) (by decide),
      @extractBits_slice w 4 1 4 5 7 rfl (by decide) (by decide) (by decide),
      @extractBits_slice w 0 0 1 5 7 rfl (by decide) (by decide) (by decide)]
    have hor : ∀ a b c d : BitVec 64, a ||| b ||| c ||| d = a ||| d ||| b ||| c := by
      intro a b c d
      ac_rfl
    rw [setWidth_fields]
    exact hor _ _ _ _
  rw [branchImm, hfields]
  exact sext64_setWidth _ rfl (by decide)

/-- The source assembles the immediate of `jal` field by field. -/
theorem jalImm_eq : jalImm (extractBits (w.setWidth 64) 31 12) = Rv64i.immJ w := by
  have hfields : (extractBits ((w.extractLsb' 12 20).setWidth 64) 19 19 <<< 20) |||
      (extractBits ((w.extractLsb' 12 20).setWidth 64) 18 9 <<< 1) |||
      (extractBits ((w.extractLsb' 12 20).setWidth 64) 8 8 <<< 11) |||
      (extractBits ((w.extractLsb' 12 20).setWidth 64) 7 0 <<< 12) =
      (w.extractLsb' 31 1 ++ w.extractLsb' 12 8 ++ w.extractLsb' 20 1 ++ w.extractLsb' 21 10 ++
        0#1).setWidth 64 := by
    rw [@extractBits_slice w 19 19 1 20 12 rfl (by decide) (by decide) (by decide),
      @extractBits_slice w 18 9 10 20 12 rfl (by decide) (by decide) (by decide),
      @extractBits_slice w 8 8 1 20 12 rfl (by decide) (by decide) (by decide),
      @extractBits_slice w 7 0 8 20 12 rfl (by decide) (by decide) (by decide)]
    have hor : ∀ a b c d : BitVec 64, a ||| b ||| c ||| d = a ||| d ||| c ||| b := by
      intro a b c d
      ac_rfl
    rw [setWidth_fields]
    exact hor _ _ _ _
  rw [imm20_eq, jalImm, hfields]
  exact sext64_setWidth _ rfl (by decide)

end

end CycleSim
