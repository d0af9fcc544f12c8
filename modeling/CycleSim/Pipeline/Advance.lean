import CycleSim.Pipeline.Issue
import CycleSim.Pipeline.Sequential

/-! How a cycle advances the machine, seen from ID.

A cycle that issues `d` executes `d` after everything in flight and moves
`fetchPC` to its next PC; a cycle that issues nothing changes neither. -/
namespace CycleSim

theorem simDecode_of_nop {x : Instruction} (h : x.instruction = 0x00000013#64) :
    simDecode x = { decodeFields x with isNop := true } := by
  have hw : (decodeFields x).instruction = 0x00000013#64 := h
  unfold simDecode
  simp only [hw, if_true]
  rfl

namespace Machine

/-- A bubble in IF enters ID as a NOP at address 0, whose next PC is 4. -/
theorem Inv.accepted_bubble {m : Machine} (h : m.Inv) (ha : m.Accepts)
    (hn : m.pipelineInfo.ifInst.isNop = true) :
    m.idStage.isNop = true ∧ m.idStage.nextPC = m.pipelineInfo.ifInst.pc + 4#64 := by
  cases h.ifLatch with
  | fetched _ hw _ =>
    rw [hw] at hn
    cases hn
  | bubble status hb =>
    have hdec : simDecode m.pipelineInfo.ifInst =
        { decodeFields m.pipelineInfo.ifInst with isNop := true } :=
      simDecode_of_nop (by rw [hb]; rfl)
    have hop : (simDecode m.pipelineInfo.ifInst).opcode = opIntImm := by
      rw [hdec, hb]
      show extractBits 0x00000013#64 6 0 = opIntImm
      decide
    have hc : isControl m.newIDInst.1 = false :=
      h.newIDInst_decoded.not_control (.inr (by rw [newIDInst_toDecoding, hdec]))
    have ht : (!(simDecode m.pipelineInfo.ifInst).isLegal ||
        (simDecode m.pipelineInfo.ifInst).isHalt) = false := by
      rw [hdec, hb]
      rfl
    refine ⟨by rw [ha.idStage_toDecoding, hdec], ?_⟩
    rw [ha.idStage_of_not_control hc]
    show m.newIDInst.1.nextPC = _
    unfold newIDInst
    rw [simID_of_legal ht, nextPC_of_sequential]
    · exact congrArg (· + 4#64) (simDecode_pc _)
    all_goals
      show (simDecode m.pipelineInfo.ifInst).opcode ≠ _
      rw [hop]
      decide

/-- The next PC ID resolves is the one the instruction has on the registers that
everything older leaves. -/
theorem Inv.accepted_nextPC {m : Machine} (h : m.Inv) (ha : m.Accepts)
    (ht : m.idStage.traps = false) :
    m.idStage.nextPC = m.idStage.toDecoding.successor m.afterID.regs := by
  have hl : m.idStage.isLegal = true := by
    simp only [Decoding.traps, Bool.or_eq_false_iff, Bool.not_eq_false'] at ht
    exact ht.1
  simp only [Decoding.successor, ht, Bool.false_eq_true, if_false]
  cases hc : isControl m.newIDInst.1
  · have hop : m.idStage.opcode ≠ opBranch ∧ m.idStage.opcode ≠ opJalr := by
      rw [ha.isControl_eq] at hc
      simpa [isControl] using hc
    have hid : (!(simDecode m.pipelineInfo.ifInst).isLegal ||
        (simDecode m.pipelineInfo.ifInst).isHalt) = false := by
      rw [← ht, Decoding.traps, ha.idStage_toDecoding]
    have hnext : m.idStage.nextPC = (simNextPCResolution (simOperandCollection
        (m.memStage.2.decoded m.pipelineInfo.ifInst) m.memStage.2.regData)).nextPC := by
      rw [ha.idStage_of_not_control hc]
      show m.newIDInst.1.nextPC = _
      unfold newIDInst
      rw [simID_of_legal hid]
    rw [hnext]
    have hd : m.idStage.toDecoding = (m.memStage.2.decoded m.pipelineInfo.ifInst).toDecoding :=
      ha.idStage_toDecoding
    rw [hd] at hop ⊢
    refine simNextPCResolution_congr rfl (fun hcc => ?_) (fun hb => absurd hb hop.1)
    exact absurd hcc (by simp [isControl, hop.1, hop.2])
  · have hcov := h.control_operands ha (ha.isControl_eq ▸ hc)
    have hdec := h.idStage_decoded
    have hread : m.idStage.readsRs1 = true := hdec.control hl (ha.isControl_eq ▸ hc)
    have hself : m.idStage.nextPC = (simNextPCResolution m.idStage).nextPC := by
      rw [ha.idStage_of_control hc]
      rfl
    rw [hself]
    refine simNextPCResolution_congr rfl (fun _ => ?_) (fun hb => ?_)
    · rw [hcov.op1 hread (by simp)]
      exact (if_pos hread).symm
    · rw [hcov.op2 (hdec.branch hl hb).2 (by simp)]
      exact (if_pos (hdec.branch hl hb).2).symm

/-- HALT and an illegal instruction leave the next PC unset, unless ID takes the record
for a branch. -/
theorem Inv.accepted_nextPC_of_traps {m : Machine} (h : m.Inv) (ha : m.Accepts)
    (ht : m.idStage.traps = true) (hc : isControl m.idStage = false) :
    m.idStage.nextPC = 0#64 := by
  have hnext := congrArg Instruction.nextPC (simDecode_fields m.pipelineInfo.ifInst)
  have hid : (!(simDecode m.pipelineInfo.ifInst).isLegal ||
      (simDecode m.pipelineInfo.ifInst).isHalt) = true := by
    rw [← ht, Decoding.traps, ha.idStage_toDecoding]
  rw [ha.idStage_of_not_control (ha.isControl_eq.trans hc)]
  show m.newIDInst.1.nextPC = _
  unfold newIDInst
  rw [simID_of_trap hid]
  exact hnext.trans h.ifLatch.unset.1

/-! ### Issued instructions -/

/-- What a cycle issues: the decoding of the word in IF, fetched at `fetchPC`. -/
structure Issues (m : Machine) (d : Instruction) : Prop where
  accepts : m.Accepts
  idStage : m.idStage = d
  decoding : d.toDecoding = (simDecode m.pipelineInfo.ifInst).toDecoding
  pc : d.pc = m.fetchPC

theorem issues_of_eq {m : Machine} {d : Instruction} (h : m.issue = some d) : m.Issues d := by
  obtain ⟨ha, hn, rfl⟩ := issue_eq_some h
  refine ⟨ha, rfl, ha.idStage_toDecoding, ?_⟩
  rw [ha.idStage_toDecoding, fetchPC, hn, if_neg (by decide)]
  exact simDecode_pc _

/-- Everything in flight has completed; what was issued is executed after it. -/
theorem Inv.afterID_runCycle {m : Machine} (h : m.Inv) :
    m.runCycle.afterID = match m.issue with
      | some d => d.execute m.afterID
      | none => m.afterID := by
  show CycleSim.execute m.idStage m.runCycle.afterEX = _
  rw [h.afterEX_runCycle]
  cases hs : m.stall
  · rw [if_neg (by decide)]
    cases hb : m.branchStall
    · have hex := execute_eq h.idStage_decoded h.idStage_arithResult m.afterID
      cases hn : m.pipelineInfo.ifInst.isNop
      · simp only [issue, hs, hb, hn, Bool.or_self, Bool.false_eq_true, if_false]
        exact hex
      · simp only [issue, hs, hb, hn, Bool.or_true, if_true]
        rw [hex, h.idStage_decoded.execute_of_nop (h.accepted_bubble ⟨hs, hb⟩ hn).1]
    · simp only [issue, hs, hb, Bool.or_true, Bool.true_or, if_true]
      rw [idStage_of_branchStall hs hb]
      exact CycleSim.execute_of_idle (nop_flags _) _
  · simp only [issue, hs, Bool.true_or, if_true]
    rw [idStage_of_stall hs]
    rfl

theorem Accepts.flush_eq {m : Machine} (ha : m.Accepts) :
    m.flush = (m.idStage.nextPC != m.pipelineInfo.ifInst.pc + 4#64) := by
  simp only [flush, ha.stall, ha.branchStall, Bool.not_false, Bool.true_and]

theorem Inv.flush_of_bubble {m : Machine} (h : m.Inv) (ha : m.Accepts)
    (hn : m.pipelineInfo.ifInst.isNop = true) : m.flush = false := by
  rw [ha.flush_eq, (h.accepted_bubble ha hn).2, bne_self_eq_false]

/-- The fetch address moves to the next PC of what was issued, and not otherwise. -/
theorem Inv.fetchPC_runCycle {m : Machine} (h : m.Inv) :
    m.runCycle.fetchPC = match m.issue with
      | some d => d.nextPC
      | none => m.fetchPC := by
  show (if m.ifStage.isNop then m.nextPC else m.ifStage.pc) = _
  cases hs : (m.stall || m.branchStall)
  · have ha : m.Accepts := by
      rw [Bool.or_eq_false_iff] at hs
      exact ⟨hs.1, hs.2⟩
    have hfetch : (if m.ifStage.isNop then m.nextPC else m.ifStage.pc) =
        if m.flush then m.idStage.nextPC else m.pc := by
      cases hf : m.flush
      · rw [(ifStage_of_fetch hs hf).1]
        rfl
      · rw [(ifStage_of_flush hf).1, (ifStage_of_flush hf).2]
        rfl
    rw [hfetch]
    cases hn : m.pipelineInfo.ifInst.isNop
    · simp only [issue, hs, hn, ha.flush_eq, Bool.or_self, Bool.false_eq_true, if_false,
        bne_iff_ne, ne_eq, ite_not]
      split
      · rename_i heq
        cases h.ifLatch with
        | bubble _ hb =>
          rw [hb] at hn
          cases hn
        | fetched _ _ hpc => rw [heq, hpc]
      · rfl
    · simp only [issue, hs, hn, h.flush_of_bubble ha hn, Bool.or_true, Bool.false_eq_true, if_true,
        if_false, fetchPC]
  · obtain ⟨hi, hp⟩ := ifStage_of_stalled hs
    simp only [issue, hs, Bool.true_or, if_true]
    rw [hi, hp]
    rfl

end Machine

end CycleSim
