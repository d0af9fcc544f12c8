import CycleSim.Pipeline.Latch

/-! The invariant of the pipeline, on every program and after any number of cycles.

`afterMEM`, `afterEX` and `afterID` are the registers and the memory once the
instructions in MEM, then EX, then ID have completed. One cycle shifts them
(`afterMEM_runCycle`, `afterEX_runCycle`, `afterID_runCycle`): WB commits MEM, MEM
completes EX, EX executes ID on the operands the forwarding network gives it, and
ID either holds, inserts a bubble or accepts one instruction (`issue`). Nothing is
assumed of the program: the statements hold past HALT and illegal instructions. -/
namespace CycleSim

/-- The operands of `x` are up to date in the registers `r`, except where one of
the instructions `ws` is about to overwrite them. -/
structure Covered (ws : List Instruction) (r : Regs) (x : Instruction) : Prop where
  op1 : x.readsRs1 = true → (∀ w ∈ ws, hazard w x.rs1 = false) → x.op1Val = r.read x.rs1
  op2 : x.readsRs2 = true → (∀ w ∈ ws, hazard w x.rs2 = false) → x.op2Val = r.read x.rs2

theorem Covered.of_idle {ws : List Instruction} {r : Regs} {x : Instruction} (h : x.flags = {}) :
    Covered ws r x := by
  simp only [Decoding.flags, Flags.mk.injEq] at h
  exact ⟨fun h1 => by simp [h] at h1, fun h2 => by simp [h] at h2⟩

namespace Machine

/-- The ID latch was filled in the last cycle. -/
def Collected (m : Machine) : Prop :=
  Covered [m.pipelineInfo.exInst, m.pipelineInfo.memInst] m.simulator.regData m.pipelineInfo.idInst

/-- The ID latch was held by a stall in the last cycle: EX got a bubble, and what
was in MEM when the operands were read has been through WB since. -/
def Held (m : Machine) : Prop :=
  m.pipelineInfo.exInst.flags = {} ∧
    Covered [m.pipelineInfo.memInst, m.doneInst] m.simulator.regData m.pipelineInfo.idInst

/-- The IF latch: an inserted `nop`, or an instruction fetched four bytes before `PC`. -/
inductive IfLatch (m : Machine) : Prop
  | bubble (status : StageStatus) : m.pipelineInfo.ifInst = nop status → IfLatch m
  | fetched (memory : MemoryStore) :
      m.pipelineInfo.ifInst = { simFetch m.pipelineInfo.ifInst.pc memory with status := .normal } →
      m.pipelineInfo.ifInst.pc + 4#64 = m.pc → IfLatch m

structure Inv (m : Machine) : Prop where
  idDecoded : Decoded m.pipelineInfo.idInst.toDecoding
  idUnset : m.pipelineInfo.idInst.arithResult = 0#64
  exDecoded : Decoded m.pipelineInfo.exInst.toDecoding
  memDecoded : Decoded m.pipelineInfo.memInst.toDecoding
  done : Bypass.Absorbs m.simulator.regData.read m.doneInst.write
  operands : m.Collected ∨ m.Held
  /-- A branch or `jalr` enters ID only when its operands are ready. -/
  control : isControl m.pipelineInfo.idInst = true → ∀ r,
    r = m.pipelineInfo.idInst.rs1 ∨ r = m.pipelineInfo.idInst.rs2 →
    hazard m.pipelineInfo.exInst r = false ∧
      (m.pipelineInfo.memInst.readsMem = true → hazard m.pipelineInfo.memInst r = false)
  /-- A store never follows directly the load of its data. -/
  store : m.pipelineInfo.exInst.writesMem = true → m.pipelineInfo.memInst.readsMem = true →
    hazard m.pipelineInfo.memInst m.pipelineInfo.exInst.rs2 = false
  ifLatch : m.IfLatch

/-! ### Stalls -/

theorem Inv.arithBranchStall_eq {m : Machine} (h : m.Inv) : m.arithBranchStall = false := by
  cases hc : isControl m.pipelineInfo.idInst
  · simp [arithBranchStall, hc]
  · have h1 := h.control hc _ (.inl rfl)
    have h2 := h.control hc _ (.inr rfl)
    simp only [arithBranchStall]
    simp only [hazard] at h1 h2
    grind

theorem Inv.loadBranchStall_eq {m : Machine} (h : m.Inv) : m.loadBranchStall = false := by
  cases hc : isControl m.pipelineInfo.idInst
  · simp [loadBranchStall, hc]
  · have h1 := h.control hc _ (.inl rfl)
    have h2 := h.control hc _ (.inr rfl)
    simp only [loadBranchStall]
    simp only [hazard] at h1 h2
    grind

/-- With the invariant, the second and the third stall test never fire. -/
theorem Inv.stall_eq {m : Machine} (h : m.Inv) : m.stall = m.loadUseStall := by
  rw [stall, h.arithBranchStall_eq, h.loadBranchStall_eq, Bool.or_false, Bool.or_false]

theorem Inv.loadUseStall_iff {m : Machine} (h : m.Inv) : m.loadUseStall = true ↔
    m.pipelineInfo.exInst.readsMem = true ∧
      (hazard m.pipelineInfo.exInst m.pipelineInfo.idInst.rs1 = true ∨
        hazard m.pipelineInfo.exInst m.pipelineInfo.idInst.rs2 = true) := by
  have hw : m.pipelineInfo.exInst.readsMem = true → m.pipelineInfo.exInst.writesRd = true :=
    fun hr => (h.exDecoded.load hr).1
  simp only [loadUseStall, hazard]
  grind

/-- A branch or `jalr` in ID is never held there. -/
theorem Inv.stall_control {m : Machine} (h : m.Inv)
    (hc : isControl m.pipelineInfo.idInst = true) : m.stall = false := by
  rw [h.stall_eq]
  by_contra hs
  obtain ⟨_, hr | hr⟩ := h.loadUseStall_iff.mp (by simpa using hs)
  · rw [(h.control hc _ (.inl rfl)).1] at hr
    cases hr
  · rw [(h.control hc _ (.inr rfl)).1] at hr
    cases hr

/-! ### The stages, one at a time -/

theorem wbStage_eq (m : Machine) : m.wbStage =
    ({ m.pipelineInfo.memInst with status := .normal },
      { m.simulator with regData := retire m.pipelineInfo.memInst m.simulator.regData }) := by
  unfold wbStage
  rw [simWB_eq]

@[simp] theorem wbStage_toDecoding (m : Machine) :
    m.wbStage.1.toDecoding = m.pipelineInfo.memInst.toDecoding := by rw [wbStage_eq]

theorem wbStage_write (m : Machine) : m.wbStage.1.write = m.pipelineInfo.memInst.write := by
  rw [wbStage_eq]
  rfl

theorem storeForward_toDecoding (x w : Instruction) :
    (storeForward x w).toDecoding = x.toDecoding := by
  unfold storeForward
  split
  · split <;> rfl
  · rfl

@[simp] theorem memStage_toDecoding (m : Machine) :
    m.memStage.1.toDecoding = m.pipelineInfo.exInst.toDecoding := by
  simp only [memStage, simMEM_eq, access_toDecoding, storeForward_toDecoding]

/-- With the invariant, the WB to MEM forward never changes a record. -/
theorem Inv.storeForward {m : Machine} (h : m.Inv) :
    storeForward m.pipelineInfo.exInst m.wbStage.1 = m.pipelineInfo.exInst := by
  have hs := h.store
  have hw : m.pipelineInfo.memInst.readsMem = true → m.pipelineInfo.memInst.writesRd = true :=
    fun hr => (h.memDecoded.load hr).1
  simp only [CycleSim.hazard] at hs
  simp only [Machine.storeForward, wbStage_eq]
  split
  · split
    · exfalso
      grind
    · rfl
  · rfl

/-- The record MEM leaves, less its status. -/
def memResult (m : Machine) : Instruction × MemoryStore :=
  access m.pipelineInfo.exInst m.simulator.memory

theorem Inv.memStage_eq {m : Machine} (h : m.Inv) : m.memStage =
    ({ m.memResult.1 with status := stageStatus m.memResult.1 },
      { m.simulator with
        regData := retire m.pipelineInfo.memInst m.simulator.regData
        memory := m.memResult.2 }) := by
  have hst := h.storeForward
  rw [wbStage_eq] at hst
  simp only [memStage, wbStage_eq, hst, simMEM_eq]
  rfl

theorem Inv.memStage_write {m : Machine} (h : m.Inv) :
    m.memStage.1.write = m.memResult.1.write := by
  rw [h.memStage_eq]
  rfl

theorem idSimulator_regData (m : Machine) : m.idSimulator.regData = m.memStage.2.regData := by
  unfold idSimulator newIDInst
  rw [simID_simulator]
  split <;> rfl

theorem idSimulator_memory (m : Machine) : m.idSimulator.memory = m.memStage.2.memory := by
  unfold idSimulator newIDInst
  rw [simID_simulator]
  split <;> rfl

/-! ### Completing the instructions in flight -/

/-- Once MEM has retired. -/
def afterMEM (m : Machine) : Arch :=
  ⟨retire m.pipelineInfo.memInst m.simulator.regData, m.simulator.memory⟩

/-- Once MEM and EX have completed. -/
def afterEX (m : Machine) : Arch := finish m.pipelineInfo.exInst m.afterMEM

/-- Once MEM, EX and ID have completed. -/
def afterID (m : Machine) : Arch := execute m.pipelineInfo.idInst m.afterEX

theorem Inv.read_afterMEM {m : Machine} (h : m.Inv) : m.afterMEM.regs.read =
    Bypass.apply m.simulator.regData.read m.pipelineInfo.memInst.write :=
  read_retire _ _ h.memDecoded.rd_lt

/-- The registers before ID executes, as the network sees them. -/
theorem Inv.read_afterEX {m : Machine} (h : m.Inv) : m.afterEX.regs.read =
    Bypass.applyAll m.simulator.regData.read [m.memStage.1.write, m.wbStage.1.write] := by
  have hrd : (access m.pipelineInfo.exInst m.afterMEM.memory).1.rd.toNat < 32 := by
    rw [access_toDecoding]
    exact h.exDecoded.rd_lt
  rw [h.memStage_write, wbStage_write]
  show (retire (access m.pipelineInfo.exInst m.afterMEM.memory).1 m.afterMEM.regs).read = _
  rw [read_retire _ _ hrd, h.read_afterMEM]
  rfl

/-- **Forwarding to EX.** The record passed to `simEX` has the operands of the
instruction in ID as the registers will hold them before it executes. -/
theorem Inv.exInput_operands {m : Machine} (h : m.Inv) :
    Covered [] m.afterEX.regs m.exInput := by
  have hex : ∀ r, hazard m.memStage.1 r = hazard m.pipelineInfo.exInst r :=
    hazard_congr (memStage_toDecoding m)
  have hmem : ∀ r, hazard m.wbStage.1 r = hazard m.pipelineInfo.memInst r :=
    hazard_congr (wbStage_toDecoding m)
  -- the old operand is current wherever none of the three instructions hits
  have hold : ∀ r old, (∀ ws, Covered ws m.simulator.regData m.pipelineInfo.idInst →
      (∀ w ∈ ws, hazard w r = false) → old = m.simulator.regData.read r) →
      forward m.memStage.1 m.wbStage.1 m.doneInst r old = m.afterEX.regs.read r := by
    intro r old hcov
    rw [forward_eq, Bypass.forward_correct h.done, h.read_afterEX]
    intro hmiss
    simp only [List.cons_append, List.nil_append, List.forall_mem_cons, hit_write_eq_none, hex,
      hmem] at hmiss
    rcases h.operands with hc | hc
    · exact hcov _ hc (by simp [hmiss])
    · exact hcov _ hc.2 (by simp [hmiss])
  exact ⟨fun h1 _ => hold _ _ (fun ws hc hw => hc.op1 h1 hw),
    fun h2 _ => hold _ _ (fun ws hc hw => hc.op2 h2 hw)⟩

theorem Inv.runCycle_regData {m : Machine} (h : m.Inv) :
    m.runCycle.simulator.regData = m.afterMEM.regs := by
  show m.idSimulator.regData = _
  rw [idSimulator_regData, h.memStage_eq]
  rfl

theorem Inv.runCycle_memory {m : Machine} (h : m.Inv) :
    m.runCycle.simulator.memory = m.afterEX.memory := by
  show m.idSimulator.memory = _
  rw [idSimulator_memory, h.memStage_eq]
  rfl

/-- WB commits MEM, and MEM completes EX. -/
theorem Inv.afterMEM_runCycle {m : Machine} (h : m.Inv) : m.runCycle.afterMEM = m.afterEX := by
  show (⟨retire m.memStage.1 m.runCycle.simulator.regData, m.runCycle.simulator.memory⟩ : Arch) = _
  rw [h.runCycle_regData, h.runCycle_memory, h.memStage_eq]
  rfl

/-- EX executes ID. -/
theorem Inv.afterEX_runCycle {m : Machine} (h : m.Inv) :
    m.runCycle.afterEX = if m.stall then m.afterEX else m.afterID := by
  show finish m.exStage m.runCycle.afterMEM = _
  rw [h.afterMEM_runCycle]
  unfold exStage
  split
  · exact finish_of_idle rfl _
  · have hsame : SameOperands m.exInput (simOperandCollection m.pipelineInfo.idInst m.afterEX.regs) := by
      have hop := h.exInput_operands
      refine ⟨rfl, rfl, fun h1 => ?_, fun h2 => ?_⟩
      · rw [hop.op1 h1 (by simp)]
        exact (if_pos h1).symm
      · rw [hop.op2 h2 (by simp)]
        exact (if_pos h2).symm
    exact (finish_status _ _ _).trans ((hsame.simEX h.idDecoded).finish_eq _)

end Machine

end CycleSim
