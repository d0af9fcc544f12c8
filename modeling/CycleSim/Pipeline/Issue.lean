import CycleSim.Pipeline.Invariant

/-! What ID accepts in a cycle, and that every cycle keeps the invariant.

`issue` is the fetched instruction that enters the ID latch, if one does.
`fetchPC` is the address of the next one to enter; it moves only when an
instruction is issued, and then to that instruction's `nextPC`
(`fetchPC_runCycle`). -/
namespace CycleSim

namespace Machine

/-- The fetched instruction ID accepts in this cycle. -/
def issue (m : Machine) : Option Instruction :=
  if m.stall || m.branchStall || m.pipelineInfo.ifInst.isNop then none else some m.idStage

/-- The address of the next instruction to enter ID. -/
def fetchPC (m : Machine) : BitVec 64 :=
  if m.pipelineInfo.ifInst.isNop then m.pc else m.pipelineInfo.ifInst.pc

theorem IfLatch.fresh {m : Machine} (h : m.IfLatch) : Fresh m.pipelineInfo.ifInst.toDecoding := by
  cases h with
  | bubble _ h =>
    rw [h]
    exact ⟨rfl, fun _ => rfl, rfl⟩
  | fetched _ h _ =>
    rw [h]
    refine ⟨rfl, ?_, rfl⟩
    intro hn
    cases hn

theorem IfLatch.unset {m : Machine} (h : m.IfLatch) :
    m.pipelineInfo.ifInst.nextPC = 0#64 ∧ m.pipelineInfo.ifInst.arithResult = 0#64 := by
  cases h with
  | bubble _ h =>
    rw [h]
    exact ⟨rfl, rfl⟩
  | fetched _ h _ =>
    rw [h]
    exact ⟨rfl, rfl⟩

/-- No stall: the two tests of the ID stage are off. -/
structure Accepts (m : Machine) : Prop where
  stall : m.stall = false
  branchStall : m.branchStall = false

theorem issue_eq_some {m : Machine} {d : Instruction} (h : m.issue = some d) :
    m.Accepts ∧ m.pipelineInfo.ifInst.isNop = false ∧ d = m.idStage := by
  unfold issue at h
  split at h
  · cases h
  · rename_i hn
    simp only [Bool.or_eq_true, not_or, Bool.not_eq_true] at hn
    exact ⟨⟨hn.1.1, hn.1.2⟩, hn.2, (Option.some.inj h).symm⟩

theorem Accepts.idStage_eq {m : Machine} (h : m.Accepts) :
    m.idStage = { m.resolvedID with status := stageStatus m.resolvedID } := by
  simp only [idStage, h.stall, h.branchStall, Bool.false_eq_true, if_false]

@[simp] theorem newIDInst_toDecoding (m : Machine) :
    m.newIDInst.1.toDecoding = (simDecode m.pipelineInfo.ifInst).toDecoding :=
  simID_toDecoding _ _

@[simp] theorem resolvedID_toDecoding (m : Machine) :
    m.resolvedID.toDecoding = (simDecode m.pipelineInfo.ifInst).toDecoding := by
  rw [← newIDInst_toDecoding]
  simp only [resolvedID]
  split <;> rfl

theorem Accepts.idStage_toDecoding {m : Machine} (h : m.Accepts) :
    m.idStage.toDecoding = (simDecode m.pipelineInfo.ifInst).toDecoding := by
  rw [h.idStage_eq]
  exact m.resolvedID_toDecoding

theorem Inv.newIDInst_decoded {m : Machine} (h : m.Inv) : Decoded m.newIDInst.1.toDecoding := by
  rw [newIDInst_toDecoding]
  exact simDecode_decoded _ h.ifLatch.fresh

/-- The operands `simID` reads are those of the registers once MEM has retired. -/
theorem Inv.newIDInst_operands {m : Machine} (h : m.Inv) :
    Covered [] m.afterMEM.regs m.newIDInst.1 := by
  cases ht : (!(simDecode m.pipelineInfo.ifInst).isLegal || (simDecode m.pipelineInfo.ifInst).isHalt)
  · unfold newIDInst
    rw [simID_of_legal ht, h.memStage_eq]
    exact ⟨fun h1 _ => if_pos h1, fun h2 _ => if_pos h2⟩
  · refine .of_idle (h.newIDInst_decoded.idle ?_)
    rw [newIDInst_toDecoding]
    simp only [Bool.or_eq_true, Bool.not_eq_true'] at ht
    rcases ht with ht | ht
    · exact .inl ht
    · exact .inr (.inl ht)

/-- **Forwarding to ID.** The network brings a register read after WB up to date
with MEM. -/
theorem Inv.forward_newID {m : Machine} (h : m.Inv) (r : BitVec 64) :
    forward m.memStage.1 m.wbStage.1 m.doneInst r (m.afterMEM.regs.read r) =
      m.afterEX.regs.read r := by
  rw [forward_eq, Bypass.forward_correct h.done, h.read_afterEX]
  intro hmiss
  rw [h.read_afterMEM]
  refine Bypass.apply_of_miss ?_
  rw [← wbStage_write]
  exact hmiss _ (by simp)

/-- The registers change under EX only where EX writes. -/
theorem Inv.read_afterID {m : Machine} (h : m.Inv) (hs : m.stall = false) {r : BitVec 64}
    (hr : hazard m.exStage r = false) : m.afterID.regs.read r = m.afterEX.regs.read r := by
  have hshift := h.afterEX_runCycle
  rw [if_neg (by simp [hs])] at hshift
  have hrd : m.exStage.rd.toNat < 32 := by
    simp only [exStage, hs, Bool.false_eq_true, if_false, simEX_toDecoding]
    exact h.idDecoded.rd_lt
  rw [← hshift, ← h.afterMEM_runCycle]
  exact read_finish hrd hr _

/-- The registers change under MEM only where MEM writes. -/
theorem Inv.read_afterEX_of_miss {m : Machine} (h : m.Inv) {r : BitVec 64}
    (hr : hazard m.memStage.1 r = false) : m.afterEX.regs.read r = m.afterMEM.regs.read r := by
  rw [hazard_congr (memStage_toDecoding m)] at hr
  exact read_finish h.exDecoded.rd_lt hr _

/-- A branch or `jalr` is accepted when EX writes neither operand and MEM has loaded
neither. -/
theorem Accepts.control {m : Machine} (h : m.Accepts) (hc : isControl m.newIDInst.1 = true)
    {r : BitVec 64} (hr : r = m.newIDInst.1.rs1 ∨ r = m.newIDInst.1.rs2) :
    hazard m.exStage r = false ∧
      (m.memStage.1.readsMem = true → hazard m.memStage.1 r = false) := by
  have hb := h.branchStall
  simp only [Machine.branchStall, h.stall, hc, Bool.not_false, Bool.true_and, Bool.or_eq_false_iff,
    Bool.and_eq_false_iff] at hb
  obtain ⟨hex, hmem⟩ := hb
  have hmiss : m.memStage.1.readsMem = true →
      hazard m.memStage.1 m.newIDInst.1.rs1 = false ∧ hazard m.memStage.1 m.newIDInst.1.rs2 = false :=
    fun hm => hmem.resolve_right (Bool.not_eq_false _ ▸ hm)
  rcases hr with rfl | rfl
  · exact ⟨hex.1, fun hm => (hmiss hm).1⟩
  · exact ⟨hex.2, fun hm => (hmiss hm).2⟩

theorem Accepts.isControl_eq {m : Machine} (h : m.Accepts) :
    isControl m.newIDInst.1 = isControl m.idStage :=
  isControl_congr (m.newIDInst_toDecoding.trans h.idStage_toDecoding.symm)

theorem Accepts.idStage_of_control {m : Machine} (h : m.Accepts)
    (hc : isControl m.newIDInst.1 = true) :
    m.idStage = { simNextPCResolution m.resolveInput with
      status := stageStatus m.newIDInst.1 } := by
  rw [h.idStage_eq]
  simp only [resolvedID, hc, if_true]
  rfl

theorem Accepts.idStage_of_not_control {m : Machine} (h : m.Accepts)
    (hc : isControl m.newIDInst.1 = false) :
    m.idStage = { m.newIDInst.1 with status := stageStatus m.newIDInst.1 } := by
  rw [h.idStage_eq]
  simp only [resolvedID, hc, Bool.false_eq_true, if_false]

/-- **Operands of a branch.** The operands its next PC is resolved on are those the
registers hold once everything older has completed. -/
theorem Inv.control_operands {m : Machine} (h : m.Inv) (ha : m.Accepts)
    (hc : isControl m.idStage = true) : Covered [] m.afterID.regs m.idStage := by
  rw [← ha.isControl_eq] at hc
  have hop := h.newIDInst_operands
  rw [ha.idStage_of_control hc]
  constructor
  · intro h1 _
    show forward _ _ _ m.newIDInst.1.rs1 m.newIDInst.1.op1Val = _
    rw [hop.op1 h1 (by simp), h.forward_newID]
    exact (h.read_afterID ha.stall (ha.control hc (.inl rfl)).1).symm
  · intro h2 _
    show forward _ _ _ m.newIDInst.1.rs2 m.newIDInst.1.op2Val = _
    rw [hop.op2 h2 (by simp), h.forward_newID]
    exact (h.read_afterID ha.stall (ha.control hc (.inr rfl)).1).symm

/-- The operands of an accepted instruction, as the next cycle finds them. -/
theorem Inv.accepted_operands {m : Machine} (h : m.Inv) (ha : m.Accepts) :
    Covered [m.exStage, m.memStage.1] m.afterMEM.regs m.idStage := by
  have hop := h.newIDInst_operands
  cases hc : isControl m.newIDInst.1
  · rw [ha.idStage_of_not_control hc]
    exact ⟨fun h1 _ => hop.op1 h1 (by simp), fun h2 _ => hop.op2 h2 (by simp)⟩
  · have hcov := h.control_operands ha (ha.isControl_eq ▸ hc)
    constructor
    · intro h1 hmiss
      rw [hcov.op1 h1 (by simp), h.read_afterID ha.stall (hmiss _ (by simp)),
        h.read_afterEX_of_miss (hmiss _ (by simp))]
    · intro h2 hmiss
      rw [hcov.op2 h2 (by simp), h.read_afterID ha.stall (hmiss _ (by simp)),
        h.read_afterEX_of_miss (hmiss _ (by simp))]

/-! ### The invariant is kept -/

theorem nop_flags (status : StageStatus) : (nop status).flags = {} := rfl

theorem nop_not_control (status : StageStatus) : isControl (nop status) = false := by
  simp only [isControl, nop]
  decide

theorem idStage_of_stall {m : Machine} (h : m.stall = true) :
    m.idStage = m.pipelineInfo.idInst := by
  simp only [idStage, h, if_true]

theorem idStage_of_branchStall {m : Machine} (hs : m.stall = false) (hb : m.branchStall = true) :
    m.idStage = nop .bubble := by
  simp only [idStage, hs, hb, Bool.false_eq_true, if_true, if_false]

theorem exStage_of_stall {m : Machine} (h : m.stall = true) : m.exStage = nop .bubble := by
  simp only [exStage, h, if_true]

theorem exStage_toDecoding {m : Machine} (h : m.stall = false) :
    m.exStage.toDecoding = m.pipelineInfo.idInst.toDecoding := by
  simp only [exStage, h, Bool.false_eq_true, if_false, simEX_toDecoding]
  rfl

theorem Inv.idStage_decoded {m : Machine} (h : m.Inv) : Decoded m.idStage.toDecoding := by
  cases hs : m.stall
  · cases hb : m.branchStall
    · rw [Accepts.idStage_toDecoding ⟨hs, hb⟩]
      exact simDecode_decoded _ h.ifLatch.fresh
    · rw [idStage_of_branchStall hs hb]
      exact nop_decoded _
  · rw [idStage_of_stall hs]
    exact h.idDecoded

theorem Inv.idStage_arithResult {m : Machine} (h : m.Inv) : m.idStage.arithResult = 0#64 := by
  have hnew : m.newIDInst.1.arithResult = 0#64 :=
    (simID_arithResult _ _).trans h.ifLatch.unset.2
  cases hs : m.stall
  · cases hb : m.branchStall
    · rw [Accepts.idStage_eq ⟨hs, hb⟩]
      simp only [resolvedID]
      split
      · exact hnew
      · exact hnew
    · rw [idStage_of_branchStall hs hb]
      rfl
  · rw [idStage_of_stall hs]
    exact h.idUnset

theorem Inv.exStage_decoded {m : Machine} (h : m.Inv) : Decoded m.exStage.toDecoding := by
  cases hs : m.stall
  · rw [exStage_toDecoding hs]
    exact h.idDecoded
  · rw [exStage_of_stall hs]
    exact nop_decoded _

/-- A held instruction keeps operands that the writes now in MEM, WB and `doneInst`
bring up to date. -/
theorem Inv.held_operands {m : Machine} (h : m.Inv) (hs : m.stall = true) :
    Covered [m.memStage.1, m.wbStage.1] m.afterMEM.regs m.pipelineInfo.idInst := by
  have hload : m.pipelineInfo.exInst.readsMem = true := by
    rw [h.stall_eq] at hs
    exact (h.loadUseStall_iff.mp hs).1
  have hcov : m.Collected := by
    refine h.operands.resolve_right ?_
    intro ⟨hidle, _⟩
    simp only [Decoding.flags, Flags.mk.injEq] at hidle
    rw [hidle.1] at hload
    cases hload
  have hstep : ∀ r, hazard m.memStage.1 r = false → hazard m.wbStage.1 r = false →
      (∀ w ∈ [m.pipelineInfo.exInst, m.pipelineInfo.memInst], hazard w r = false) ∧
        m.afterMEM.regs.read r = m.simulator.regData.read r := by
    intro r hmem hwb
    rw [hazard_congr (memStage_toDecoding m)] at hmem
    rw [hazard_congr (wbStage_toDecoding m)] at hwb
    refine ⟨by simp [hmem, hwb], ?_⟩
    rw [h.read_afterMEM]
    exact Bypass.apply_of_miss (hit_write_eq_none.mpr hwb)
  constructor
  · intro h1 hmiss
    obtain ⟨hold, hread⟩ := hstep _ (hmiss _ (by simp)) (hmiss _ (by simp))
    rw [hcov.op1 h1 hold, hread]
  · intro h2 hmiss
    obtain ⟨hold, hread⟩ := hstep _ (hmiss _ (by simp)) (hmiss _ (by simp))
    rw [hcov.op2 h2 hold, hread]

theorem Inv.runCycle_operands {m : Machine} (h : m.Inv) :
    m.runCycle.Collected ∨ m.runCycle.Held := by
  unfold Collected Held
  rw [h.runCycle_regData]
  show Covered [m.exStage, m.memStage.1] _ m.idStage ∨
    m.exStage.flags = {} ∧ Covered [m.memStage.1, m.wbStage.1] _ m.idStage
  cases hs : m.stall
  · left
    cases hb : m.branchStall
    · exact h.accepted_operands ⟨hs, hb⟩
    · rw [idStage_of_branchStall hs hb]
      exact .of_idle (nop_flags _)
  · right
    rw [exStage_of_stall hs, idStage_of_stall hs]
    exact ⟨nop_flags _, h.held_operands hs⟩

theorem Inv.runCycle_control {m : Machine} (h : m.Inv) (hc : isControl m.idStage = true)
    {r : BitVec 64} (hr : r = m.idStage.rs1 ∨ r = m.idStage.rs2) :
    hazard m.exStage r = false ∧
      (m.memStage.1.readsMem = true → hazard m.memStage.1 r = false) := by
  cases hs : m.stall
  · cases hb : m.branchStall
    · have ha : m.Accepts := ⟨hs, hb⟩
      rw [ha.idStage_toDecoding, ← newIDInst_toDecoding] at hr
      exact ha.control (ha.isControl_eq ▸ hc) hr
    · rw [idStage_of_branchStall hs hb, nop_not_control] at hc
      cases hc
  · rw [idStage_of_stall hs] at hc
    rw [h.stall_control hc] at hs
    cases hs

theorem Inv.runCycle_store {m : Machine} (h : m.Inv) (hw : m.exStage.writesMem = true)
    (hr : m.memStage.1.readsMem = true) : hazard m.memStage.1 m.exStage.rs2 = false := by
  cases hs : m.stall
  · rw [memStage_toDecoding] at hr
    rw [exStage_toDecoding hs, hazard_congr (memStage_toDecoding m)]
    by_contra hz
    have hload := h.loadUseStall_iff.mpr ⟨hr, .inr (Bool.not_eq_false _ ▸ hz)⟩
    rw [← h.stall_eq, hs] at hload
    cases hload
  · rw [exStage_of_stall hs] at hw
    cases hw

/-! ### Fetching -/

theorem stalled_flush {m : Machine} (h : (m.stall || m.branchStall) = true) : m.flush = false := by
  unfold flush
  cases hs : m.stall <;> simp_all

theorem ifStage_of_stalled {m : Machine} (h : (m.stall || m.branchStall) = true) :
    m.ifStage = m.pipelineInfo.ifInst ∧ m.nextPC = m.pc := by
  simp [ifStage, nextPC, redirectedPC, h, stalled_flush h]

theorem ifStage_of_flush {m : Machine} (h : m.flush = true) :
    m.ifStage = nop .bubble ∧ m.nextPC = m.idStage.nextPC := by
  have hs : (m.stall || m.branchStall) = false := by
    cases hs : (m.stall || m.branchStall)
    · rfl
    · rw [stalled_flush hs] at h
      cases h
  simp [ifStage, nextPC, redirectedPC, h, hs]

theorem ifStage_of_fetch {m : Machine} (hs : (m.stall || m.branchStall) = false)
    (h : m.flush = false) :
    m.ifStage = { simFetch m.pc m.idSimulator.memory with status := .normal } ∧
      m.nextPC = m.pc + 4#64 := by
  simp [ifStage, nextPC, redirectedPC, h, hs, Simulator.simIF]

theorem Inv.runCycle_ifLatch {m : Machine} (h : m.Inv) : m.runCycle.IfLatch := by
  cases hs : (m.stall || m.branchStall)
  · cases hf : m.flush
    · obtain ⟨hi, hp⟩ := ifStage_of_fetch hs hf
      refine .fetched m.idSimulator.memory ?_ ?_
      · show m.ifStage = { simFetch m.ifStage.pc _ with status := .normal }
        rw [hi]
        rfl
      · show m.ifStage.pc + 4#64 = m.nextPC
        rw [hi, hp]
        rfl
    · exact .bubble .bubble (ifStage_of_flush hf).1
  · obtain ⟨hi, hp⟩ := ifStage_of_stalled hs
    cases h.ifLatch with
    | bubble status hb => exact .bubble status (hi.trans hb)
    | fetched memory hw hpc =>
      refine .fetched memory ?_ ?_
      · show m.ifStage = { simFetch m.ifStage.pc _ with status := .normal }
        rw [hi]
        exact hw
      · show m.ifStage.pc + 4#64 = m.nextPC
        rw [hi, hp]
        exact hpc

/-- Every cycle keeps the invariant. -/
theorem Inv.runCycle {m : Machine} (h : m.Inv) : m.runCycle.Inv where
  idDecoded := h.idStage_decoded
  idUnset := h.idStage_arithResult
  exDecoded := h.exStage_decoded
  memDecoded := (memStage_toDecoding m) ▸ h.exDecoded
  done := by
    rw [h.runCycle_regData, h.read_afterMEM]
    show Bypass.Absorbs _ m.wbStage.1.write
    rw [wbStage_write]
    exact Bypass.absorbs_apply _ _
  operands := h.runCycle_operands
  control := fun hc _ hr => h.runCycle_control hc hr
  store := h.runCycle_store
  ifLatch := h.runCycle_ifLatch

/-- A stall puts a bubble in EX, so the next cycle does not stall. -/
theorem Inv.stall_runCycle {m : Machine} (h : m.Inv) (hs : m.stall = true) :
    m.runCycle.stall = false := by
  have hex : m.runCycle.pipelineInfo.exInst = nop .bubble := exStage_of_stall hs
  rw [h.runCycle.stall_eq, loadUseStall, hex]
  rfl

theorem initSimulator_inv (mem : MemoryStore) : (initSimulator mem).Inv where
  idDecoded := nop_decoded _
  idUnset := rfl
  exDecoded := nop_decoded _
  memDecoded := nop_decoded _
  done := Bypass.absorbs_none _
  operands := .inl (.of_idle (nop_flags _))
  control := by
    intro hc
    have hnop : isControl (initSimulator mem).pipelineInfo.idInst = false := nop_not_control .idle
    rw [hnop] at hc
    cases hc
  store := fun hw => nomatch hw
  ifLatch := .bubble .idle rfl

end Machine

end CycleSim
