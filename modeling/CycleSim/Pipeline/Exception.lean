import CycleSim.Pipeline.Run

/-! Where an illegal instruction leads.

`simID` returns before it resolves a next PC for an illegal instruction, so the flush
redirects fetch to the default 0; only a record with the opcode of a branch has its next
PC resolved afterwards, and none of its conditions being met it falls through
(`Machine.Inv.fetchPC_of_illegal`). `EXCEPTION_HANDLER` is never used. -/
namespace CycleSim

/-- An illegal word has not the opcode of `jalr`, and with that of a branch it names no
condition. -/
theorem simDecode_illegal {x : Instruction} (h : (simDecode x).isLegal = false) :
    (simDecode x).opcode ≠ opJalr ∧
      ((simDecode x).opcode = opBranch → acceptsBranch (simDecode x).funct3 = false) := by
  let P := fun i : Instruction => i.isLegal = false →
    i.opcode ≠ opJalr ∧ (i.opcode = opBranch → acceptsBranch i.funct3 = false)
  revert h
  show P (simDecode x)
  have hlegal : ∀ i : Instruction, i.isLegal = true → P i := fun i hi h => by
    rw [hi] at h
    cases h
  have hother : ∀ i : Instruction, i.opcode ≠ opJalr → i.opcode ≠ opBranch → P i :=
    fun i hj hb _ => ⟨hj, fun h => absurd h hb⟩
  unfold simDecode
  refine iteInduction (motive := P) (fun _ => hlegal _ rfl) (fun _ => ?_)
  refine iteInduction (motive := P) (fun _ => hlegal _ rfl) (fun _ => ?_)
  have hl : (decodeFields x).isLegal = true := rfl
  generalize decodeFields x = y at hl
  -- the cases of the `switch` whose opcode is neither that of a branch nor that of `jalr`
  have hcase : ∀ {op : BitVec 64} {c : Bool} {i : Instruction}, y.opcode = op → op ≠ opJalr →
      op ≠ opBranch → i.isLegal = true → P (if c then i else { y with isLegal := false }) :=
    fun hop hj hb hi => iteInduction (motive := P) (fun _ => hlegal _ hi)
      (fun _ => hother _ (hop.trans_ne hj) (hop.trans_ne hb))
  unfold decodeOpcode
  refine iteInduction (motive := P) (fun h => hcase h (by decide) (by decide) hl) (fun _ => ?_)
  refine iteInduction (motive := P) (fun h => hcase h (by decide) (by decide) hl) (fun _ => ?_)
  refine iteInduction (motive := P) (fun h => hcase h (by decide) (by decide) hl) (fun _ => ?_)
  refine iteInduction (motive := P) (fun h => hcase h (by decide) (by decide) hl) (fun _ => ?_)
  refine iteInduction (motive := P) (fun h => hcase h (by decide) (by decide) hl) (fun _ => ?_)
  refine iteInduction (motive := P) (fun _ => hlegal _ rfl) (fun hj => ?_)
  refine iteInduction (motive := P) (fun h => hcase h (by decide) (by decide) hl) (fun _ => ?_)
  refine iteInduction (motive := P) (fun _ => ?_) (fun hb => ?_)
  · refine iteInduction (motive := P) (fun _ => hlegal _ hl) (fun hc _ => ?_)
    exact ⟨hj, fun _ => Bool.eq_false_iff.mpr hc⟩
  · exact iteInduction (motive := P) (fun _ => hlegal _ rfl) (fun _ => hother _ hj hb)

theorem branchTaken_of_not_accepts {funct3 : BitVec 64} (h : acceptsBranch funct3 = false)
    (op1Val op2Val : BitVec 64) : branchTaken funct3 op1Val op2Val = false := by
  simp only [acceptsBranch, Bool.or_eq_false_iff, beq_eq_false_iff_ne] at h
  obtain ⟨⟨⟨⟨⟨h0, h1⟩, h2⟩, h3⟩, h4⟩, h5⟩ := h
  simp only [branchTaken, h0, h1, h2, h3, h4, h5, if_false]

namespace Machine

/-- The instruction in IF enters ID in this cycle, and it is illegal. -/
structure IllegalEnters (m : Machine) : Prop where
  accepts : m.Accepts
  illegal : (simDecode m.pipelineInfo.ifInst).isLegal = false

theorem IllegalEnters.traps {m : Machine} (hi : m.IllegalEnters) : m.idStage.traps = true := by
  rw [Decoding.traps, hi.accepts.idStage_toDecoding, hi.illegal]
  rfl

theorem IllegalEnters.isNop {m : Machine} (h : m.Inv) (hi : m.IllegalEnters) :
    m.pipelineInfo.ifInst.isNop = false := by
  refine Bool.eq_false_iff.mpr (fun hn => ?_)
  have hnop := (h.accepted_bubble hi.accepts hn).1
  rw [h.idStage_decoded.not_nop hi.traps] at hnop
  cases hnop

theorem IllegalEnters.issue {m : Machine} (h : m.Inv) (hi : m.IllegalEnters) :
    m.issue = some m.idStage := by
  simp only [Machine.issue, hi.accepts.stall, hi.accepts.branchStall, hi.isNop h, Bool.or_self,
    Bool.false_eq_true, if_false]

theorem IllegalEnters.idStage_nextPC {m : Machine} (h : m.Inv) (hi : m.IllegalEnters) :
    m.idStage.nextPC = if (simDecode m.pipelineInfo.ifInst).opcode = opBranch then
      m.pipelineInfo.ifInst.pc + 4#64 else 0#64 := by
  obtain ⟨hj, hb⟩ := simDecode_illegal hi.illegal
  have hop : m.idStage.opcode = (simDecode m.pipelineInfo.ifInst).opcode := by
    rw [hi.accepts.idStage_toDecoding]
  split
  · rename_i hbr
    have hc : isControl m.idStage = true := by simp [isControl, hop, hbr]
    rw [hi.accepts.idStage_of_control (hi.accepts.isControl_eq.trans hc)]
    have hdec : m.resolveInput.toDecoding = (simDecode m.pipelineInfo.ifInst).toDecoding :=
      m.newIDInst_toDecoding
    have htaken : branchTaken m.resolveInput.funct3 m.resolveInput.op1Val
        m.resolveInput.op2Val = false := by
      rw [hdec]
      exact branchTaken_of_not_accepts (hb hbr) _ _
    simp only [simNextPCResolution, htaken, Bool.false_eq_true, if_false]
    simp only [hdec, hbr, if_true, simDecode_pc]
    rfl
  · rename_i hbr
    refine h.accepted_nextPC_of_traps hi.accepts hi.traps ?_
    simp [isControl, hop, hbr, hj]

/-- The cycle that takes an illegal instruction into ID moves fetch to the instruction after
it if its opcode is that of a branch, and to address 0 otherwise. -/
theorem Inv.fetchPC_of_illegal {m : Machine} (h : m.Inv) (hi : m.IllegalEnters) :
    m.runCycle.fetchPC = if (simDecode m.pipelineInfo.ifInst).opcode = opBranch then
      m.pipelineInfo.ifInst.pc + 4#64 else 0#64 := by
  rw [h.fetchPC_runCycle, hi.issue h]
  exact hi.idStage_nextPC h

/-- An illegal instruction has no effect on the registers and the memory. -/
theorem Inv.afterID_of_illegal {m : Machine} (h : m.Inv) (hi : m.IllegalEnters) :
    m.runCycle.afterID = m.afterID := by
  rw [h.afterID_runCycle, hi.issue h]
  exact h.idStage_decoded.execute_of_traps hi.traps _

end Machine

/-- In cycle `n` fetch is redirected to the exception handler, and what is fetched there will
be executed on the registers and the memory that the instructions before leave. -/
structure EntersHandler (image : MemoryImage) (n : Nat) : Prop where
  fetchPC : (machineAt image (n + 1)).fetchPC = exceptionHandler
  afterID : (machineAt image (n + 1)).afterID = replay (enterLog image n) (initialArch image)

/-- The word in IF has the opcode of a branch and lies just before the exception handler. -/
def FallsIntoHandler (m : Machine) : Prop :=
  (simDecode m.pipelineInfo.ifInst).opcode = opBranch ∧ m.pipelineInfo.ifInst.pc = 0x7FFC#64

theorem entersHandler_iff {image : MemoryImage} {n : Nat} (hi : (machineAt image n).IllegalEnters) :
    EntersHandler image n ↔ FallsIntoHandler (machineAt image n) := by
  have h : (machineAt image n).Inv := machineAt_inv n
  have hfetch := h.fetchPC_of_illegal hi
  have hstate := h.afterID_of_illegal hi
  rw [← machineAt_succ] at hfetch hstate
  have hiff : EntersHandler image n ↔ (machineAt image (n + 1)).fetchPC = exceptionHandler :=
    ⟨fun he => he.fetchPC, fun he => ⟨he, hstate.trans (afterID_eq_replay n)⟩⟩
  rw [hiff, hfetch, FallsIntoHandler]
  split
  · rename_i hb
    have hpc : ∀ pc : BitVec 64, pc + 4#64 = exceptionHandler ↔ pc = 0x7FFC#64 := by
      intro pc
      rw [exceptionHandler, ← BitVec.eq_sub_iff_add_eq]
      rfl
    rw [hpc]
    exact ⟨fun he => ⟨hb, he⟩, fun he => he.2⟩
  · rename_i hb
    refine ⟨fun he => ?_, fun he => absurd he.1 hb⟩
    exact absurd he (by decide)

/-- **Illegal instructions.** A run enters the exception handler on each of its illegal
instructions exactly when each of them falls into it. -/
theorem illegal_entersHandler_iff (image : MemoryImage) (k : Nat) :
    (∀ n < k, (machineAt image n).IllegalEnters → EntersHandler image n) ↔
      ∀ n < k, (machineAt image n).IllegalEnters → FallsIntoHandler (machineAt image n) := by
  refine forall_congr' (fun n => imp_congr_right (fun _ => ?_))
  exact imp_congr_right (fun hi => entersHandler_iff hi)

/-- `li t0, 60`, `li t5, 108`, `mul t1, t0, t5`, and HALT at the exception handler. -/
def illegalImage : MemoryImage where
  bytes := [0x93#8, 0x02#8, 0xc0#8, 0x03#8, 0x13#8, 0x0f#8, 0xc0#8, 0x06#8,
    0x33#8, 0x83#8, 0xe2#8, 0x03#8] ++ List.replicate 0x7ff4 0#8 ++
    [0xed#8, 0xfe#8, 0xed#8, 0xfe#8] ++ List.replicate 0x7FFC 0#8
  length_eq := by
    simp only [List.length_append, List.length_replicate]
    rfl

/-- `mul` is decoded in the fourth cycle, and fetch goes to address 0. -/
theorem illegal_not_entersHandler : ¬∀ (image : MemoryImage) (n : Nat),
    (machineAt image n).IllegalEnters → EntersHandler image n := by
  intro hall
  have henters : (machineAt illegalImage 3).IllegalEnters :=
    ⟨⟨by decide, by decide⟩, by decide⟩
  have hfetch : (machineAt illegalImage 4).fetchPC = 0#64 := by decide
  have hhandler := (hall illegalImage 3 henters).fetchPC
  rw [hfetch] at hhandler
  exact absurd hhandler (by decide)

end CycleSim
