import CycleSim.Pipeline.Decoded
import CycleSim.Lib.Bypass

/-! What an instruction in a latch still has to do.

`finish` is the effect of MEM and WB on an instruction that has been through EX,
`execute` the effect of EX, MEM and WB on one that has been decoded, its operands
read from the registers at hand. `execute` is what the functional simulator does
after decoding (`simInstruction_arch`); the lemmas before it say which fields
of a record these effects depend on. -/
namespace CycleSim

/-! ### Registers -/

/-- The register as `simOperandCollection` reads it: register 0 reads 0. -/
def Regs.read (r : Regs) (i : BitVec 64) : BitVec 64 := (r.set 0#64 0#64).get i

theorem Regs.get_set (r : Regs) (i j v : BitVec 64) (hi : i.toNat < 32) :
    (r.set i v).get j = if i = j then v else r.get j := by
  simp only [Regs.set, Regs.get, Vector.getElem?_setIfInBounds]
  by_cases h : i = j
  · subst h
    simp [hi]
  · have hne : i.toNat ≠ j.toNat := fun he => h (BitVec.eq_of_toNat_eq he)
    simp [h, hne]

theorem Regs.read_eq (r : Regs) (i : BitVec 64) : r.read i = if i = 0#64 then 0#64 else r.get i := by
  rw [Regs.read, Regs.get_set _ _ _ _ (by decide)]
  simp only [eq_comm]

theorem Regs.read_set (r : Regs) (i j v : BitVec 64) (hi : i.toNat < 32) :
    (r.set i v).read j = if i ≠ 0#64 ∧ i = j then v else r.read j := by
  rw [Regs.read_eq, Regs.read_eq, Regs.get_set _ _ _ _ hi]
  by_cases hj : j = 0#64
  · subst hj
    by_cases h : i = 0#64 <;> simp [h]
  · by_cases h : i = j
    · subst h
      simp [hj]
    · simp [hj, h]

/-- What `simWB` does to the registers. -/
def retire (x : Instruction) (r : Regs) : Regs := if x.writesRd then simCommit x r else r

theorem simWB_eq (s : Simulator) (x : Instruction) :
    s.simWB x = (x, { s with regData := retire x s.regData }) := by
  unfold Simulator.simWB retire
  split <;> rfl

/-- The register write an instruction carries; register 0 is never forwarded. -/
def Instruction.write (x : Instruction) : Option (BitVec 64 × BitVec 64) :=
  if x.writesRd && x.rd != 0#64 then some (x.rd, x.result) else none

theorem hit_write (x : Instruction) (r : BitVec 64) :
    Bypass.hit x.write r = if hazard x r then some x.result else none := by
  unfold Instruction.write hazard
  cases hw : x.writesRd
  · rfl
  · by_cases h0 : x.rd = 0#64
    · simp [h0, Bypass.hit]
    · by_cases hr : x.rd = r
      · subst hr
        simp [Bypass.hit, h0]
      · simp [Bypass.hit, h0, hr]

theorem hit_write_eq_none {x : Instruction} {r : BitVec 64} :
    Bypass.hit x.write r = none ↔ hazard x r = false := by
  rw [hit_write]
  cases hazard x r <;> simp

theorem read_retire (x : Instruction) (r : Regs) (h : x.rd.toNat < 32) :
    (retire x r).read = Bypass.apply r.read x.write := by
  funext i
  unfold retire Bypass.apply
  rw [hit_write]
  cases hw : x.writesRd
  · simp [hazard, hw]
  · simp only [if_true, simCommit, Regs.read_set _ _ _ _ h, hazard, hw, Bool.true_and,
      Bool.and_eq_true, bne_iff_ne, beq_iff_eq]
    split <;> rfl

theorem forward_eq (memInst wbInst doneInst : Instruction) (r old : BitVec 64) :
    forward memInst wbInst doneInst r old =
      Bypass.forward ([memInst.write, wbInst.write] ++ [doneInst.write]) r old := by
  simp only [forward, List.cons_append, List.nil_append, Bypass.forward, hit_write]
  cases hazard memInst r <;> cases hazard wbInst r <;> cases hazard doneInst r <;> rfl

theorem hazard_congr {x y : Instruction} (h : x.toDecoding = y.toDecoding) (r : BitVec 64) :
    hazard x r = hazard y r := by
  unfold hazard
  rw [h]

theorem isControl_congr {x y : Instruction} (h : x.toDecoding = y.toDecoding) :
    isControl x = isControl y := by
  unfold isControl
  rw [h]

/-! ### Fields no stage changes -/

@[simp] theorem simAddrGen_toDecoding (x : Instruction) :
    (simAddrGen x).toDecoding = x.toDecoding := rfl

@[simp] theorem simOperandCollection_toDecoding (x : Instruction) (r : Regs) :
    (simOperandCollection x r).toDecoding = x.toDecoding := rfl

/-- What EX sets. The address comes from the fields `simArithLogic` leaves alone. -/
theorem simEX_eq (x : Instruction) : Simulator.simEX x =
    { x with
      op2Val := if x.doesArithLogic then maskShift x else x.op2Val
      arithResult := if x.doesArithLogic then (arithAssigned x).getD x.arithResult
        else x.arithResult
      memAddress := if x.readsMem || x.writesMem then (simAddrGen x).memAddress
        else x.memAddress } := by
  unfold Simulator.simEX
  cases x.doesArithLogic
  · simp only [Bool.false_eq_true, if_false]
    split <;> rfl
  · have hmem : ((simArithLogic x).readsMem || (simArithLogic x).writesMem) =
        (x.readsMem || x.writesMem) := rfl
    simp only [if_true, hmem]
    split <;> rfl

@[simp] theorem simEX_toDecoding (x : Instruction) :
    (Simulator.simEX x).toDecoding = x.toDecoding := by
  rw [simEX_eq]

/-! ### ID -/

/-- The record after `simDecode` and the numbering in `simID`. -/
def Simulator.decoded (s : Simulator) (x : Instruction) : Instruction :=
  { simDecode x with instructionID := s.din }

theorem simID_of_trap {s : Simulator} {x : Instruction}
    (h : (!(simDecode x).isLegal || (simDecode x).isHalt) = true) :
    (s.simID x).1 = s.decoded x := by
  unfold Simulator.simID
  exact congrArg Prod.fst (if_pos h)

theorem simID_of_legal {s : Simulator} {x : Instruction}
    (h : (!(simDecode x).isLegal || (simDecode x).isHalt) = false) :
    (s.simID x).1 = simNextPCResolution (simOperandCollection (s.decoded x) s.regData) := by
  unfold Simulator.simID
  exact congrArg Prod.fst (if_neg (by simp only [h, Bool.false_eq_true, not_false_iff]))

theorem simID_simulator (s : Simulator) (x : Instruction) :
    (s.simID x).2 = { s with din := s.din + 1#64 } := by
  unfold Simulator.simID
  exact (apply_ite Prod.snd _ _ _).trans (ite_self _)

@[simp] theorem simID_toDecoding (s : Simulator) (x : Instruction) :
    (s.simID x).1.toDecoding = (simDecode x).toDecoding := by
  cases h : (!(simDecode x).isLegal || (simDecode x).isHalt)
  · rw [simID_of_legal h]
    rfl
  · rw [simID_of_trap h]
    rfl

theorem simID_arithResult (s : Simulator) (x : Instruction) :
    (s.simID x).1.arithResult = x.arithResult := by
  have hd := congrArg Instruction.arithResult (simDecode_fields x)
  cases h : (!(simDecode x).isLegal || (simDecode x).isHalt)
  · rw [simID_of_legal h]
    exact hd
  · rw [simID_of_trap h]
    exact hd

/-! ### MEM -/

/-- MEM: the record, and the memory. -/
def access (x : Instruction) (memory : MemoryStore) : Instruction × MemoryStore :=
  if x.readsMem || x.writesMem then simMemAccess x memory else (x, memory)

theorem simMEM_eq (s : Simulator) (x : Instruction) :
    s.simMEM x = ((access x s.memory).1, { s with memory := (access x s.memory).2 }) := by
  unfold Simulator.simMEM access
  split <;> rfl

@[simp] theorem simMemAccess_toDecoding (x : Instruction) (memory : MemoryStore) :
    (simMemAccess x memory).1.toDecoding = x.toDecoding := by
  unfold simMemAccess
  cases x.readsMem
  · cases x.writesMem <;> rfl
  · rfl

@[simp] theorem access_toDecoding (x : Instruction) (memory : MemoryStore) :
    (access x memory).1.toDecoding = x.toDecoding := by
  unfold access
  split
  · exact simMemAccess_toDecoding x memory
  · rfl

/-! ### Finishing an instruction -/

/-- The registers and the memory. -/
structure Arch where
  regs : Regs
  memory : MemoryStore

/-- MEM and WB. -/
def finish (x : Instruction) (a : Arch) : Arch :=
  ⟨retire (access x a.memory).1 a.regs, (access x a.memory).2⟩

/-- EX, MEM and WB on the operands the registers hold. -/
def execute (x : Instruction) (a : Arch) : Arch :=
  finish (Simulator.simEX (simOperandCollection x a.regs)) a

theorem access_of_idle {x : Instruction} (h : x.flags = {}) (memory : MemoryStore) :
    access x memory = (x, memory) := by
  simp only [Decoding.flags, Flags.mk.injEq] at h
  simp [access, h]

theorem finish_of_idle {x : Instruction} (h : x.flags = {}) (a : Arch) : finish x a = a := by
  rw [finish, access_of_idle h]
  simp only [Decoding.flags, Flags.mk.injEq] at h
  simp [retire, h]

theorem execute_of_idle {x : Instruction} (h : x.flags = {}) (a : Arch) : execute x a = a :=
  finish_of_idle (x := Simulator.simEX (simOperandCollection x a.regs)) (by
    rw [simEX_toDecoding]
    exact h) a

/-- Where an instruction does not write, the registers keep their value. -/
theorem read_finish {x : Instruction} (hrd : x.rd.toNat < 32) {r : BitVec 64}
    (hr : hazard x r = false) (a : Arch) : (finish x a).regs.read r = a.regs.read r := by
  have hmiss : Bypass.hit (access x a.memory).1.write r = none := by
    rw [hit_write_eq_none, hazard_congr (access_toDecoding x a.memory), hr]
  show (retire (access x a.memory).1 a.regs).read r = _
  rw [read_retire _ _ (by rw [access_toDecoding]; exact hrd), Bypass.apply_of_miss hmiss]

/-- What MEM and WB read of a record. -/
structure SameEffect (x y : Instruction) : Prop where
  decoding : x.toDecoding = y.toDecoding
  arith : x.writesRd = true → x.readsMem = false → x.arithResult = y.arithResult
  address : x.readsMem = true ∨ x.writesMem = true → x.memAddress = y.memAddress
  data : x.writesMem = true → x.op2Val = y.op2Val

theorem SameEffect.finish_eq {x y : Instruction} (h : SameEffect x y) (a : Arch) :
    finish x a = finish y a := by
  obtain ⟨hd, har, had, hdt⟩ := h
  obtain ⟨xd, _, _, _, _, _, _, _, _⟩ := x
  obtain ⟨yd, _, _, _, _, _, _, _, _⟩ := y
  obtain rfl : xd = yd := hd
  simp only at har had hdt
  cases hr : xd.readsMem
  · cases hw : xd.writesMem
    · cases hrd : xd.writesRd
      · simp [finish, access, retire, hr, hw, hrd]
      · simp [finish, access, retire, simCommit, Instruction.result, hr, hw, hrd, har hrd hr]
    · obtain rfl := had (.inr hw)
      obtain rfl := hdt hw
      cases hrd : xd.writesRd
      · simp [finish, access, simMemAccess, retire, hr, hw, hrd]
      · simp [finish, access, simMemAccess, retire, simCommit, Instruction.result, hr, hw, hrd,
          har hrd hr]
  · obtain rfl := had (.inl hr)
    simp [finish, access, simMemAccess, retire, simCommit, Instruction.result, hr]

theorem finish_status (x : Instruction) (status : StageStatus) (a : Arch) :
    finish { x with status := status } a = finish x a := by
  have h : SameEffect { x with status := status } x :=
    ⟨rfl, fun _ _ => rfl, fun _ => rfl, fun _ => rfl⟩
  exact h.finish_eq a

/-- What EX reads of a record. -/
structure SameOperands (x y : Instruction) : Prop where
  decoding : x.toDecoding = y.toDecoding
  arith : x.arithResult = y.arithResult
  op1 : x.readsRs1 = true → x.op1Val = y.op1Val
  op2 : x.readsRs2 = true → x.op2Val = y.op2Val

/-- Where `rs2` is an operand of the `switch` of `simArithLogic`. -/
theorem arithAssigned_congr_op2 {x y : Instruction} (hd : x.toDecoding = y.toDecoding)
    (h1 : x.op1Val = y.op1Val) (hop : x.opcode ≠ opInt) (hopw : x.opcode ≠ opIntW) :
    arithAssigned x = arithAssigned y := by
  unfold arithAssigned
  rw [← hd, ← h1, if_neg hop, if_neg hopw, if_neg hop, if_neg hopw]

theorem arithAssigned_upper {x y : Instruction} (hd : x.toDecoding = y.toDecoding)
    (hop : x.opcode = opAuipc ∨ x.opcode = opLui ∨ x.opcode = opJal) :
    arithAssigned x = arithAssigned y := by
  unfold arithAssigned
  rw [← hd]
  rcases hop with hop | hop | hop <;>
    simp [hop, opInt, opIntW, opIntImm, opIntImmW, opJalr, opAuipc, opLui, opJal]

/-- The `switch` assigns the same value when the operands an instruction reads agree. -/
theorem SameOperands.arithAssigned {x y : Instruction} (h : SameOperands x y)
    (hx : Decoded x.toDecoding) (ha : x.doesArithLogic = true) :
    arithAssigned x = arithAssigned y := by
  have hflags : ∀ f, x.flags = f → f.doesArithLogic = true := by
    rintro _ rfl
    exact ha
  cases hx.kind
  case register hop hf =>
    simp only [Decoding.flags, Flags.mk.injEq] at hf
    have h1 := h.op1 hf.2.2.2.2.1
    have h2 := h.op2 hf.2.2.2.2.2
    unfold CycleSim.arithAssigned maskShift
    rw [h.decoding, h1, h2]
  case immediate hop hf =>
    simp only [Decoding.flags, Flags.mk.injEq] at hf
    have h1 := h.op1 hf.2.2.2.2.1
    refine arithAssigned_congr_op2 h.decoding h1 ?_ ?_ <;>
      rcases hop with hop | hop | hop <;> rw [hop] <;> decide
  case upper hop _ => exact arithAssigned_upper h.decoding hop
  all_goals exact absurd (hflags _ ‹_›) (by decide)

/-- EX on the same operands leaves MEM and WB the same to do. -/
theorem SameOperands.simEX {x y : Instruction} (h : SameOperands x y) (hx : Decoded x.toDecoding) :
    SameEffect (Simulator.simEX x) (Simulator.simEX y) where
  decoding := by simp only [simEX_toDecoding, h.decoding]
  arith := by
    intro _ _
    simp only [simEX_eq, ← h.decoding, ← h.arith]
    cases ha : x.doesArithLogic
    · rfl
    · simp only [if_true, h.arithAssigned hx ha]
  address := by
    intro hm
    simp only [simEX_toDecoding] at hm
    have h1 : x.op1Val = y.op1Val := by
      rcases hm with hm | hm
      · exact h.op1 (hx.load hm).2.1
      · exact h.op1 (hx.store hm).1
    have hor : (x.readsMem || x.writesMem) = true := by
      rcases hm with hm | hm <;> simp [hm]
    simp only [simEX_eq, ← h.decoding, hor, if_true, simAddrGen, ← h1]
    rcases hm with hm | hm
    · simp only [hm, if_true]
    · simp only [hm, (hx.store hm).2.2.1, Bool.false_eq_true, if_true, if_false]
  data := by
    intro hw
    simp only [simEX_toDecoding] at hw
    obtain ⟨_, hrs2, _, ha⟩ := hx.store hw
    simp only [simEX_eq, ← h.decoding, ha, Bool.false_eq_true, if_false, h.op2 hrs2]

end CycleSim
