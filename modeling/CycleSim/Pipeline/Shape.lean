import CycleSim.Pipeline.Restart
import CycleSim.Pipeline.InstructionCount

/-! What a machine shows.

A dump and the counters tell which instructions stand where and with which status. Operands,
results, registers and memory do not show, and they move what shows in one place only, the next
PC of a branch or `jalr`. So the cycles of a program are those of the instructions it executes:
two programs that execute the same instructions at the same addresses, those behind HALT included
that the pipeline has taken up when HALT leaves it, leave the same trace and the same statistics,
whatever data they work on (`runTillHalt_sameTrace`). -/
namespace CycleSim

/-- A latch shows its instruction and its status. -/
structure SameSlot (x y : Instruction) : Prop where
  decoding : x.toDecoding = y.toDecoding
  status : x.status = y.status

/-- Two machines that show the same. -/
structure SameShape (m m' : Machine) : Prop where
  ifInst : m.pipelineInfo.ifInst = m'.pipelineInfo.ifInst
  idInst : SameSlot m.pipelineInfo.idInst m'.pipelineInfo.idInst
  exInst : SameSlot m.pipelineInfo.exInst m'.pipelineInfo.exInst
  memInst : SameSlot m.pipelineInfo.memInst m'.pipelineInfo.memInst
  wbInst : SameSlot m.pipelineInfo.wbInst m'.pipelineInfo.wbInst
  pc : m.pc = m'.pc
  cycleCount : m.cycleCount = m'.cycleCount
  din : m.simulator.din = m'.simulator.din

theorem stageStatus_congr {x y : Instruction} (h : x.toDecoding = y.toDecoding) :
    stageStatus x = stageStatus y := by
  unfold stageStatus
  rw [h]

theorem SameSlot.moved {x y : Instruction} (h : x.toDecoding = y.toDecoding) :
    SameSlot { x with status := stageStatus x } { y with status := stageStatus y } :=
  ⟨h, stageStatus_congr h⟩

/-! ### One cycle -/

namespace SameShape

variable {m m' : Machine}

theorem stall (h : SameShape m m') : m.stall = m'.stall := by
  simp only [Machine.stall, Machine.loadUseStall, Machine.arithBranchStall,
    Machine.loadBranchStall, isControl_congr h.idInst.decoding, h.idInst.decoding,
    h.exInst.decoding, h.memInst.decoding]

theorem newIDInst (h : SameShape m m') : m.newIDInst.1.toDecoding = m'.newIDInst.1.toDecoding := by
  rw [Machine.newIDInst_toDecoding, Machine.newIDInst_toDecoding, h.ifInst]

theorem memStage (h : SameShape m m') : SameSlot m.memStage.1 m'.memStage.1 := by
  have hd : m.memStage.1.toDecoding = m'.memStage.1.toDecoding := by
    rw [Machine.memStage_toDecoding, Machine.memStage_toDecoding, h.exInst.decoding]
  exact ⟨hd, stageStatus_congr hd⟩

theorem wbStage (h : SameShape m m') : SameSlot m.wbStage.1 m'.wbStage.1 := by
  refine ⟨?_, rfl⟩
  rw [Machine.wbStage_toDecoding, Machine.wbStage_toDecoding, h.memInst.decoding]

theorem exStage (h : SameShape m m') : SameSlot m.exStage m'.exStage := by
  unfold Machine.exStage
  rw [h.stall]
  split
  · exact ⟨rfl, rfl⟩
  · refine .moved ?_
    rw [simEX_toDecoding, simEX_toDecoding]
    exact h.idInst.decoding

theorem branchStall (h : SameShape m m') : m.branchStall = m'.branchStall := by
  simp only [Machine.branchStall, h.stall, isControl_congr h.newIDInst, h.newIDInst,
    hazard_congr h.exStage.decoding, hazard_congr h.memStage.decoding, h.memStage.decoding]

theorem idStage (h : SameShape m m') : SameSlot m.idStage m'.idStage := by
  unfold Machine.idStage
  rw [h.stall, h.branchStall]
  split
  · exact h.idInst
  · split
    · exact ⟨rfl, rfl⟩
    · refine .moved ?_
      rw [Machine.resolvedID_toDecoding, Machine.resolvedID_toDecoding, h.ifInst]

theorem issue_isSome (h : SameShape m m') : m.issue.isSome = m'.issue.isSome := by
  unfold Machine.issue
  rw [h.stall, h.branchStall, h.ifInst]
  split <;> rfl

variable (hm : m.Inv) (hm' : m'.Inv)
  (hnext : ∀ d d', m.issue = some d → m'.issue = some d' → d.nextPC = d'.nextPC)
include hm hm' hnext

/-- The one place where data may show. -/
theorem nextPC_idStage (h : SameShape m m') (hs : (m.stall || m.branchStall) = false) :
    m.idStage.nextPC = m'.idStage.nextPC := by
  have hs' : (m'.stall || m'.branchStall) = false := by rw [← h.stall, ← h.branchStall, hs]
  obtain ⟨hst, hb⟩ := Bool.or_eq_false_iff.mp hs
  obtain ⟨hst', hb'⟩ := Bool.or_eq_false_iff.mp hs'
  cases hn : m.pipelineInfo.ifInst.isNop
  · have hn' : m'.pipelineInfo.ifInst.isNop = false := by rw [← h.ifInst, hn]
    exact hnext _ _ (by simp only [Machine.issue, hs, hn, Bool.or_self, Bool.false_eq_true, if_false])
      (by simp only [Machine.issue, hs', hn', Bool.or_self, Bool.false_eq_true, if_false])
  · have hn' : m'.pipelineInfo.ifInst.isNop = true := by rw [← h.ifInst, hn]
    rw [(hm.accepted_bubble ⟨hst, hb⟩ hn).2, (hm'.accepted_bubble ⟨hst', hb'⟩ hn').2, h.ifInst]

theorem flush (h : SameShape m m') : m.flush = m'.flush := by
  cases hs : (m.stall || m.branchStall)
  · have hnextPC := h.nextPC_idStage hm hm' hnext hs
    simp only [Machine.flush, h.stall, h.branchStall, h.ifInst, hnextPC]
  · rw [Machine.stalled_flush hs, Machine.stalled_flush (by rw [← h.stall, ← h.branchStall, hs])]

/-- A cycle shows the same when what it issues goes on at the same address and what it fetches
is the same word. -/
theorem runCycle (h : SameShape m m') (hfetch : m.ifStage.isNop = false →
    m'.ifStage.isNop = false → m.ifStage = m'.ifStage) : SameShape m.runCycle m'.runCycle := by
  have hstalled : (m'.stall || m'.branchStall) = (m.stall || m.branchStall) := by
    rw [h.stall, h.branchStall]
  have hIF : m.ifStage = m'.ifStage ∧ m.nextPC = m'.nextPC := by
    cases hs : (m.stall || m.branchStall)
    · rw [hs] at hstalled
      have hf' := h.flush hm hm' hnext
      cases hf : m.flush
      · rw [hf] at hf'
        have hi := Machine.ifStage_of_fetch hs hf
        have hi' := Machine.ifStage_of_fetch hstalled hf'.symm
        exact ⟨hfetch (by rw [hi.1]; rfl) (by rw [hi'.1]; rfl), by rw [hi.2, hi'.2, h.pc]⟩
      · rw [hf] at hf'
        have hi := Machine.ifStage_of_flush hf
        have hi' := Machine.ifStage_of_flush hf'.symm
        exact ⟨by rw [hi.1, hi'.1], by rw [hi.2, hi'.2, h.nextPC_idStage hm hm' hnext hs]⟩
    · rw [hs] at hstalled
      have hi := Machine.ifStage_of_stalled hs
      have hi' := Machine.ifStage_of_stalled hstalled
      exact ⟨by rw [hi.1, hi'.1, h.ifInst], by rw [hi.2, hi'.2, h.pc]⟩
  exact {
    ifInst := hIF.1
    idInst := h.idStage
    exInst := h.exStage
    memInst := h.memStage
    wbInst := h.wbStage
    pc := hIF.2
    cycleCount := congrArg (· + 1#64) h.cycleCount
    din := by rw [Machine.runCycle_din, Machine.runCycle_din, h.stall, h.din] }

end SameShape

theorem SameShape.pipeState {m m' : Machine} (h : SameShape m m') (cycle : BitVec 64) :
    m.pipeState cycle = m'.pipeState cycle := by
  simp only [Machine.pipeState, h.ifInst, h.idInst.decoding, h.idInst.status, h.exInst.decoding,
    h.exInst.status, h.memInst.decoding, h.memInst.status, h.wbInst.decoding, h.wbInst.status]

/-! ### The run -/

/-- How many instructions enter ID in the first `n` cycles. -/
def issued (image : MemoryImage) (n : Nat) : Nat :=
  (List.range n).countP (fun i => (machineAt image i).issue.isSome)

section
variable {image : MemoryImage}

theorem issued_succ (n : Nat) :
    issued image (n + 1) = issued image n + (machineAt image n).issue.isSome.toNat := by
  rw [issued, List.range_succ, List.countP_append, ← issued]
  cases h : (machineAt image n).issue <;> simp [h]

theorem follows_issued (hstores : StoresSettle image) (hill : NoIllegalBranch image) (n : Nat) :
    Follows image n (issued image n) := by
  induction n with
  | zero => exact follows_zero
  | succ n ih =>
    rw [issued_succ]
    cases hi : (machineAt image n).issue with
    | none => exact ih.idle hi
    | some d => exact ih.issue hstores hill hi

/-- IF holds the word of the next instruction, as the run finds it. -/
theorem Follows.ifInst_eq (hstores : StoresSettle image) {n k : Nat} (h : Follows image n k)
    (hn : (machineAt image n).pipelineInfo.ifInst.isNop = false) :
    (machineAt image n).pipelineInfo.ifInst =
      { pc := (Funct.executed image k).pc, instruction := (Funct.executed image k).instruction } := by
  obtain ⟨i, hik, hki, hif⟩ := h.fetched hn
  have hword : (Funct.executed image k).instruction =
      (simFetch (Funct.stateAt image k).pc (Funct.stateAt image k).simulator.memory).instruction := by
    rw [Funct.executed_toDecoding]
    exact simDecode_instruction _
  rw [hif, fetch_settled hstores hik hki, hword, Funct.executed_pc]
  rfl

/-- What is issued goes on at the address of the next instruction of the run. -/
theorem Follows.issued_nextPC (hstores : StoresSettle image) (hill : NoIllegalBranch image)
    {n k : Nat} (h : Follows image n k) {d : Instruction}
    (hi : (machineAt image n).issue = some d) :
    d.nextPC = (Funct.executed image (k + 1)).pc := by
  have hpc := (h.issue hstores hill hi).pc
  rw [machineAt_succ, (machineAt_inv n).fetchPC_runCycle, hi] at hpc
  rw [Funct.executed_pc]
  exact hpc

end

section
variable {image image' : MemoryImage} (hstores : StoresSettle image)
  (hill : NoIllegalBranch image) (hstores' : StoresSettle image') (hill' : NoIllegalBranch image')
include hstores hill hstores' hill'

/-- As long as the instructions that enter the pipeline are the same, so is what it shows. -/
theorem sameShape_run {k : Nat} (htrace : ∀ i ≤ k,
    (Funct.executed image i).toDecoding = (Funct.executed image' i).toDecoding) (n : Nat)
    (hn : issued image n ≤ k) : SameShape (machineAt image n) (machineAt image' n) ∧
      issued image' n = issued image n := by
  induction n with
  | zero => exact ⟨⟨rfl, ⟨rfl, rfl⟩, ⟨rfl, rfl⟩, ⟨rfl, rfl⟩, ⟨rfl, rfl⟩, rfl, rfl, rfl⟩, rfl⟩
  | succ n ih =>
    have hsucc := @issued_succ image n
    obtain ⟨h, hcount⟩ := ih (by omega)
    have hcount' : issued image' (n + 1) = issued image (n + 1) := by
      rw [issued_succ, issued_succ, hcount, h.issue_isSome]
    refine ⟨?_, hcount'⟩
    have hf := follows_issued hstores hill n
    have hf' := follows_issued hstores' hill' n
    rw [hcount] at hf'
    rw [machineAt_succ, machineAt_succ]
    refine h.runCycle (machineAt_inv n) (machineAt_inv n) (fun d d' hi hi' => ?_) (fun hif hif' => ?_)
    · rw [hi] at hsucc
      rw [hf.issued_nextPC hstores hill hi, hf'.issued_nextPC hstores' hill' hi',
        htrace _ (by simpa [hsucc] using hn)]
    · have hg := follows_issued hstores hill (n + 1)
      have hg' := follows_issued hstores' hill' (n + 1)
      rw [hcount'] at hg'
      rw [← ifInst_succ] at hif hif' ⊢
      rw [← ifInst_succ, hg.ifInst_eq hstores hif, hg'.ifInst_eq hstores' hif', htrace _ hn]

/-- **Data does not show.** Two programs whose functional runs execute the same instructions at
the same addresses are dumped cycle by cycle alike and end with the same statistics. They must
agree past HALT, in the run that starts again behind it, as far as instructions have entered ID
when HALT is in WB, and in the next one. -/
theorem runTillHalt_sameTrace {status : Status} {dumps : List PipeState} {m : Machine}
    (hrun : Loop.Yields runTillHaltBody ([], initSimulator image.store) (status, dumps, m))
    (htrace : ∀ i ≤ issued image dumps.length,
      (Funct.executed image i).toDecoding = (Funct.executed image' i).toDecoding) :
    ∃ m', Loop.Yields runTillHaltBody ([], initSimulator image'.store) (status, dumps, m') ∧
      m'.cycleCount = m.cycleCount ∧ m'.simulator.din = m.simulator.din := by
  obtain ⟨n, rfl, rfl, rfl, hbefore, hh⟩ := runTillHalt_eq hrun
  rw [List.length_map, List.length_range] at htrace
  have hshape : ∀ i ≤ n, SameShape (machineAt image i) (machineAt image' i) := by
    intro i hi
    have hmono : issued image i ≤ issued image n := by
      unfold issued
      exact (List.range_sublist.mpr hi).countP_le
    exact (sameShape_run hstores hill hstores' hill' htrace i hmono).1
  have hwb : ∀ i ≤ n, (machineAt image' i).pipelineInfo.wbInst.isHalt =
      (machineAt image i).pipelineInfo.wbInst.isHalt := by
    intro i hi
    rw [(hshape i hi).wbInst.decoding]
  have hdumps : (List.range n).map (dumpAt image) = (List.range n).map (dumpAt image') := by
    refine List.map_congr_left (fun i hi => ?_)
    have hlt := List.mem_range.mp hi
    rw [dumpAt, dumpAt, (hshape i (Nat.le_of_lt hlt)).cycleCount, (hshape (i + 1) hlt).pipeState]
  have hend := hshape n (Nat.le_refl n)
  refine ⟨machineAt image' n, ?_, hend.cycleCount.symm, hend.din.symm⟩
  obtain ⟨k, rfl⟩ : ∃ k, n = k + 1 := by
    refine Nat.exists_eq_succ_of_ne_zero (fun h0 => ?_)
    subst h0
    cases hh
  rw [hdumps]
  exact runTillHalt_dumps
    (fun i hi => (hwb i (Nat.le_succ_of_le hi)).trans (hbefore i (Nat.lt_succ_of_le hi)))
    ((hwb (k + 1) (Nat.le_refl _)).trans hh)

end

/-- `lw x1, 8(x0)`, then HALT, then the word that is loaded. -/
def loadImage (data : BitVec 8) : MemoryImage where
  bytes := [0x83#8, 0x20#8, 0x80#8, 0x00#8, 0xed#8, 0xfe#8, 0xed#8, 0xfe#8, data] ++
    List.replicate 0xFFF7 0#8
  length_eq := by
    rw [List.length_append, List.length_replicate]
    show 9 + 0xFFF7 = memorySize
    rfl

/-- Two loads of different words. -/
theorem runTillHalt_sameTrace_sample : ∃ dumps m m',
    Loop.Yields runTillHaltBody ([], initSimulator (loadImage 1#8).store) (.halt, dumps, m) ∧
    Loop.Yields runTillHaltBody ([], initSimulator (loadImage 2#8).store) (.halt, dumps, m') ∧
    m.simulator.regData.get 1#64 = 1#64 ∧ m'.cycleCount = m.cycleCount := by
  have hsettles := @HaltsSecond.settles (loadImage 1#8) ⟨by decide, by decide, by decide⟩
  have hsettles' := @HaltsSecond.settles (loadImage 2#8) ⟨by decide, by decide, by decide⟩
  have hrun := @runTillHalt_dumps (loadImage 1#8) 5 (by decide) (by decide)
  have hissued : issued (loadImage 1#8) 6 = 4 := by decide
  obtain ⟨m', hrun', hcount, _⟩ := runTillHalt_sameTrace hsettles.1 hsettles.2 hsettles'.1
    hsettles'.2 hrun (by
      rw [List.length_map, List.length_range, hissued]
      decide)
  exact ⟨_, _, m', hrun, hrun', by decide, hcount⟩

end CycleSim
