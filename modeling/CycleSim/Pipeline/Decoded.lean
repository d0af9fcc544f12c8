import CycleSim.Cycle

/-! What decoding settles about an instruction.

`simDecode` is the only step that assigns the flags and the register fields; no
later step changes them. `Decoded` lists the combinations it leaves. -/
namespace CycleSim

/-- What an instruction asks of the stages after ID. -/
structure Flags where
  readsMem : Bool := false
  writesMem : Bool := false
  doesArithLogic : Bool := false
  writesRd : Bool := false
  readsRs1 : Bool := false
  readsRs2 : Bool := false
  deriving DecidableEq

def Decoding.flags (x : Decoding) : Flags :=
  ⟨x.readsMem, x.writesMem, x.doesArithLogic, x.writesRd, x.readsRs1, x.readsRs2⟩

/-- Neither HALT, nor NOP, nor illegal. -/
structure Ordinary (x : Decoding) : Prop where
  isHalt : x.isHalt = false
  isNop : x.isNop = false
  isLegal : x.isLegal = true

/-- The combinations of opcode and flags `simDecode` leaves. -/
inductive Kind (x : Decoding) : Prop
  | special : (x.isHalt = true ∨ x.isNop = true) → x.opcode ≠ opBranch → x.opcode ≠ opJalr →
      x.flags = {} → Kind x
  | illegal : x.isLegal = false → x.flags = {} → Kind x
  | register : Ordinary x → (x.opcode = opInt ∨ x.opcode = opIntW) →
      x.flags = {doesArithLogic := true, writesRd := true, readsRs1 := true, readsRs2 := true} →
      Kind x
  | immediate : Ordinary x → (x.opcode = opIntImm ∨ x.opcode = opIntImmW ∨ x.opcode = opJalr) →
      x.flags = {doesArithLogic := true, writesRd := true, readsRs1 := true} → Kind x
  | load : Ordinary x → x.opcode = opLoad →
      x.flags = {readsRs1 := true, writesRd := true, readsMem := true} → Kind x
  | store : Ordinary x → x.opcode = opStore →
      x.flags = {readsRs1 := true, readsRs2 := true, writesMem := true} → Kind x
  | branch : Ordinary x → x.opcode = opBranch →
      x.flags = {readsRs1 := true, readsRs2 := true} → Kind x
  | upper : Ordinary x → (x.opcode = opAuipc ∨ x.opcode = opLui ∨ x.opcode = opJal) →
      x.flags = {doesArithLogic := true, writesRd := true} → Kind x

/-- An instruction that went through `simDecode`, or an inserted `nop`. -/
structure Decoded (x : Decoding) : Prop where
  kind : Kind x
  halt : x.isHalt = true → x.isLegal = true
  nop : x.isNop = true → x.isLegal = true ∧ x.isHalt = false ∧ x.rs1 = 0#64 ∧ x.rs2 = 0#64
  rd_lt : x.rd.toNat < 32

/-- What `simDecode` may receive: a fetched word, or an inserted `nop`. -/
structure Fresh (x : Decoding) : Prop where
  isHalt : x.isHalt = false
  isNop : x.isNop = true → x.instruction = 0x00000013#64
  flags : x.flags = {}

theorem decodeOpcode_kind (x : Instruction) (ho : Ordinary x.toDecoding)
    (hf : x.flags = {}) : Kind (decodeOpcode x).toDecoding := by
  obtain ⟨hh, hn, hl⟩ := ho
  have hillegal : Kind ({ x with isLegal := false } : Instruction).toDecoding := .illegal rfl hf
  simp only [Decoding.flags, Flags.mk.injEq] at hf
  obtain ⟨h1, h2, h3, h4, h5, h6⟩ := hf
  let P := fun i : Instruction => Kind i.toDecoding
  -- one test of the `switch` after the other, each with its two outcomes
  refine iteInduction (motive := P) (fun hop => ?_) (fun _ => ?_)
  · exact iteInduction (motive := P) (fun _ => .register ⟨hh, hn, hl⟩ (.inl hop)
      (by simp only [Decoding.flags, h1, h2])) (fun _ => hillegal)
  refine iteInduction (motive := P) (fun hop => ?_) (fun _ => ?_)
  · exact iteInduction (motive := P) (fun _ => .register ⟨hh, hn, hl⟩ (.inr hop)
      (by simp only [Decoding.flags, h1, h2])) (fun _ => hillegal)
  refine iteInduction (motive := P) (fun hop => ?_) (fun _ => ?_)
  · exact iteInduction (motive := P) (fun _ => .load ⟨hh, hn, hl⟩ hop
      (by simp only [Decoding.flags, h2, h3, h6])) (fun _ => hillegal)
  refine iteInduction (motive := P) (fun hop => ?_) (fun _ => ?_)
  · exact iteInduction (motive := P) (fun _ => .immediate ⟨hh, hn, hl⟩ (.inl hop)
      (by simp only [Decoding.flags, h1, h2, h6])) (fun _ => hillegal)
  refine iteInduction (motive := P) (fun hop => ?_) (fun _ => ?_)
  · exact iteInduction (motive := P) (fun _ => .immediate ⟨hh, hn, hl⟩ (.inr (.inl hop))
      (by simp only [Decoding.flags, h1, h2, h6])) (fun _ => hillegal)
  refine iteInduction (motive := P) (fun hop => ?_) (fun _ => ?_)
  · exact .immediate ⟨hh, hn, rfl⟩ (.inr (.inr hop)) (by simp only [Decoding.flags, h1, h2, h6])
  refine iteInduction (motive := P) (fun hop => ?_) (fun _ => ?_)
  · exact iteInduction (motive := P) (fun _ => .store ⟨hh, hn, hl⟩ hop
      (by simp only [Decoding.flags, h1, h3, h4])) (fun _ => hillegal)
  refine iteInduction (motive := P) (fun hop => ?_) (fun _ => ?_)
  · exact iteInduction (motive := P) (fun _ => .branch ⟨hh, hn, hl⟩ hop
      (by simp only [Decoding.flags, h1, h2, h3, h4])) (fun _ => hillegal)
  exact iteInduction (motive := P) (fun hop => .upper ⟨hh, hn, rfl⟩ hop
      (by simp only [Decoding.flags, h1, h2, h5, h6])) (fun _ => hillegal)

theorem simDecode_kind (x : Instruction) (h : Fresh x.toDecoding) :
    Kind (simDecode x).toDecoding := by
  obtain ⟨hh, hn, hf⟩ := h
  have hs : ∀ w, x.instruction = w → w = 0xfeedfeed#64 ∨ w = 0x00000013#64 →
      (decodeFields x).opcode ≠ opBranch ∧ (decodeFields x).opcode ≠ opJalr := by
    rintro w rfl (hw | hw) <;> simp only [decodeFields, hw] <;> decide
  let P := fun i : Instruction => Kind i.toDecoding
  refine iteInduction (motive := P) (fun hw => ?_) (fun _ => ?_)
  · exact .special (.inl rfl) (hs _ hw (.inl rfl)).1 (hs _ hw (.inl rfl)).2 hf
  refine iteInduction (motive := P) (fun hw => ?_) (fun hw => ?_)
  · exact .special (.inr rfl) (hs _ hw (.inr rfl)).1 (hs _ hw (.inr rfl)).2 hf
  · refine decodeOpcode_kind _ ⟨hh, ?_, rfl⟩ hf
    exact Bool.eq_false_iff.mpr (fun h => hw (hn h))

theorem extractBits_five_lt (w : BitVec 64) (n : Nat) :
    (extractBits w (n + 4) n).toNat < 32 := by
  have hmask : ((1#32 <<< (n + 4 - n + 1)) - 1#32).signExtend 64 = 31#64 := by
    rw [Nat.add_sub_cancel_left]
    decide
  simp only [extractBits, hmask, BitVec.toNat_and]
  exact Nat.lt_of_le_of_lt Nat.and_le_right (by decide)

/-! ### HALT and NOP -/

theorem decodeOpcode_special (x : Instruction) :
    (decodeOpcode x).isHalt = x.isHalt ∧ (decodeOpcode x).isNop = x.isNop := by
  let P := fun i : Instruction => i.isHalt = x.isHalt ∧ i.isNop = x.isNop
  show P (decodeOpcode x)
  unfold decodeOpcode
  repeat' refine iteInduction (motive := P) (fun _ => ?_) (fun _ => ?_)
  all_goals exact ⟨rfl, rfl⟩

/-- HALT is one word, and it is legal. -/
theorem simDecode_halt {x : Instruction} (hx : x.isHalt = false)
    (h : (simDecode x).isHalt = true) :
    x.instruction = 0xfeedfeed#64 ∧ (simDecode x).isLegal = true := by
  unfold simDecode at h ⊢
  by_cases hw : (decodeFields x).instruction = 0xfeedfeed#64
  · simp only [hw, if_true]
    exact ⟨hw, rfl⟩
  · simp only [hw, if_false] at h
    by_cases hn : (decodeFields x).instruction = 0x00000013#64
    · simp only [hn, if_true] at h
      exact absurd h (by simp [decodeFields, hx])
    · simp only [hn, if_false, (decodeOpcode_special _).1] at h
      exact absurd h (by simp [decodeFields, hx])

theorem simDecode_nop_word {x : Instruction} (hx : x.isNop = false)
    (h : (simDecode x).isNop = true) : x.instruction = 0x00000013#64 := by
  unfold simDecode at h
  by_cases hw : (decodeFields x).instruction = 0xfeedfeed#64
  · simp only [hw, if_true] at h
    exact absurd h (by simp [decodeFields, hx])
  · simp only [hw, if_false] at h
    by_cases hn : (decodeFields x).instruction = 0x00000013#64
    · exact hn
    · simp only [hn, if_false, (decodeOpcode_special _).2] at h
      exact absurd h (by simp [decodeFields, hx])

/-- NOP is one word: neither HALT nor illegal, and its register fields are 0. -/
theorem simDecode_nop {x : Instruction} (hx : Fresh x.toDecoding)
    (h : (simDecode x).isNop = true) :
    (simDecode x).isLegal = true ∧ (simDecode x).isHalt = false ∧ (simDecode x).rs1 = 0#64 ∧
      (simDecode x).rs2 = 0#64 := by
  unfold simDecode at h ⊢
  by_cases hw : (decodeFields x).instruction = 0xfeedfeed#64
  · simp only [hw, if_true] at h
    rw [show (decodeFields x).instruction = 0x00000013#64 from hx.isNop h] at hw
    exact absurd hw (by decide)
  · simp only [hw, if_false] at h ⊢
    by_cases hn : (decodeFields x).instruction = 0x00000013#64
    · have hword : x.instruction = 0x00000013#64 := hn
      simp only [hn, if_true]
      refine ⟨rfl, hx.isHalt, ?_, ?_⟩
      · show extractBits x.instruction 19 15 = 0#64
        rw [hword]
        decide
      · show extractBits x.instruction 24 20 = 0#64
        rw [hword]
        decide
    · simp only [hn, if_false, (decodeOpcode_special _).2] at h
      exact absurd (hx.isNop h) hn

/-- A record with its flags cleared. -/
def eraseFlags (x : Instruction) : Instruction :=
  { x with
    isHalt := false, isLegal := false, isNop := false, readsMem := false, writesMem := false,
    doesArithLogic := false, writesRd := false, readsRs1 := false, readsRs2 := false }

/-- Beyond the bit fields, `simDecode` assigns flags only. -/
theorem simDecode_fields (x : Instruction) :
    eraseFlags (simDecode x) = eraseFlags (decodeFields x) := by
  let P := fun i : Instruction => eraseFlags i = eraseFlags (decodeFields x)
  show P (simDecode x)
  unfold simDecode decodeOpcode
  repeat' refine iteInduction (motive := P) (fun _ => ?_) (fun _ => ?_)
  all_goals rfl

theorem simDecode_pc (x : Instruction) : (simDecode x).pc = x.pc := by
  have h := congrArg (fun i : Instruction => i.pc) (simDecode_fields x)
  exact h

theorem simDecode_decoded (x : Instruction) (h : Fresh x.toDecoding) :
    Decoded (simDecode x).toDecoding where
  kind := simDecode_kind x h
  halt := fun hh => (simDecode_halt h.isHalt hh).2
  nop := simDecode_nop h
  rd_lt := by
    have hrd : (simDecode x).rd = extractBits x.instruction 11 7 :=
      congrArg (fun i : Instruction => i.rd) (simDecode_fields x)
    rw [hrd]
    exact extractBits_five_lt _ 7

theorem nop_decoded (status : StageStatus) : Decoded (nop status).toDecoding where
  kind := .special (.inr rfl) (by simp only [nop]; decide) (by simp only [nop]; decide) rfl
  halt := fun hh => nomatch hh
  nop := fun _ => ⟨rfl, rfl, rfl, rfl⟩
  rd_lt := by
    simp only [nop]
    decide

/-! ### Consequences -/

section
variable {x : Decoding}

theorem Decoded.load (h : Decoded x) (hr : x.readsMem = true) :
    x.writesRd = true ∧ x.readsRs1 = true ∧ x.writesMem = false := by
  cases h.kind <;> simp_all [Decoding.flags]

theorem Decoded.load_opcode (h : Decoded x) (hr : x.readsMem = true) : x.opcode = opLoad := by
  cases h.kind <;> simp_all [Decoding.flags]

theorem Decoded.store (h : Decoded x) (hw : x.writesMem = true) :
    x.readsRs1 = true ∧ x.readsRs2 = true ∧ x.readsMem = false ∧ x.doesArithLogic = false := by
  cases h.kind <;> simp_all [Decoding.flags]

theorem Decoded.store_writesRd (h : Decoded x) (hw : x.writesMem = true) : x.writesRd = false := by
  cases h.kind <;> simp_all [Decoding.flags]

/-- HALT, NOP and illegal instructions ask nothing of the stages after ID. -/
theorem Decoded.idle (h : Decoded x) (hi : x.isLegal = false ∨ x.isHalt = true ∨ x.isNop = true) :
    x.flags = {} := by
  cases h.kind
  case special hf => exact hf
  case illegal hf => exact hf
  all_goals
    rename_i ho _ _
    simp [ho.isHalt, ho.isNop, ho.isLegal] at hi

theorem Decoded.not_control {x : Instruction} (h : Decoded x.toDecoding)
    (hi : x.isHalt = true ∨ x.isNop = true) : isControl x = false := by
  cases h.kind
  case special hb hj _ => simp [isControl, hb, hj]
  case illegal hl _ =>
    rcases hi with hh | hn
    · rw [h.halt hh] at hl
      cases hl
    · rw [(h.nop hn).1] at hl
      cases hl
  all_goals
    rename_i ho _ _
    simp [ho.isHalt, ho.isNop] at hi

theorem Decoded.branch (h : Decoded x) (hl : x.isLegal = true) (hop : x.opcode = opBranch) :
    x.readsRs1 = true ∧ x.readsRs2 = true := by
  cases h.kind <;> simp_all [Decoding.flags, opBranch, opInt, opIntW, opIntImm, opIntImmW, opJalr,
    opLoad, opStore, opAuipc, opLui, opJal]

theorem Decoded.jalr (h : Decoded x) (hl : x.isLegal = true) (hop : x.opcode = opJalr) :
    x.readsRs1 = true := by
  cases h.kind <;> simp_all [Decoding.flags, opBranch, opInt, opIntW, opIntImm, opIntImmW, opJalr,
    opLoad, opStore, opAuipc, opLui, opJal]

theorem Decoded.control {x : Instruction} (h : Decoded x.toDecoding) (hl : x.isLegal = true)
    (hc : isControl x = true) : x.readsRs1 = true := by
  simp only [isControl, Bool.or_eq_true, beq_iff_eq] at hc
  rcases hc with hb | hj
  · exact (h.branch hl hb).1
  · exact h.jalr hl hj

end

end CycleSim
