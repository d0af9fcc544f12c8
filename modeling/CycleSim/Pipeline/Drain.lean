import CycleSim.Pipeline.Sync

/-! Nothing follows HALT closely.

A HALT entering ID turns fetch back to address 0 and empties IF, so the instruction
behind it is a bubble in every later stage (`Drained`): while HALT goes through WB,
MEM receives nothing. This needs HALT not to lie at the end of the address space,
which no image reaches. -/
namespace CycleSim

theorem access_isImage {memory : MemoryStore} (h : IsImage memory) (x : Instruction) :
    IsImage (access x memory).2 := by
  unfold access simMemAccess
  split
  · split
    · exact h
    · split
      · show IsImage (memory.setMemValue _ _ _).store
        rw [MemoryStore.setMemValue_eq h.length_le]
        exact h.write _ _ _
      · exact h
  · exact h

/-- The last word of the address space is in no image, so 0 is fetched from it. -/
theorem simFetch_last {pc : BitVec 64} {memory : MemoryStore} (h : IsImage memory)
    (hpc : pc + 4#64 = 0#64) : (simFetch pc memory).instruction = 0#64 := by
  have hoff : memory.offset pc = 2 ^ 64 - 4 := by
    rw [h.offset]
    bv_omega
  have hvalue : (memory.getMemValue pc 0#64 .wordSize).value = 0#64 := by
    apply BitVec.eq_of_toNat_eq
    rw [(MemoryStore.getMemValue_eq h.length_le pc 0#64 .wordSize).1, MemoryStore.slice, hoff,
      List.drop_eq_nil_of_le (by rw [h.length]; decide)]
    rfl
  simp only [simFetch, hvalue]
  rfl

theorem halt_pc {pc : BitVec 64} {memory : MemoryStore} (h : IsImage memory)
    (hh : (simDecode (simFetch pc memory)).isHalt = true) : pc + 4#64 ≠ 0#64 := by
  intro hpc
  have hword := (simDecode_halt rfl hh).1
  rw [simFetch_last h hpc] at hword
  exact absurd hword (by decide)

/-- A HALT in a latch has a bubble behind it. -/
structure Drained (m : Machine) : Prop where
  memory : IsImage m.simulator.memory
  word : m.pipelineInfo.ifInst.isNop = true ∨ ∃ memory, IsImage memory ∧
    m.pipelineInfo.ifInst = simFetch m.pipelineInfo.ifInst.pc memory
  id : m.pipelineInfo.idInst.isHalt = true → m.pipelineInfo.ifInst.isNop = true
  ex : m.pipelineInfo.exInst.isHalt = true → m.pipelineInfo.idInst.isNop = true
  mem : m.pipelineInfo.memInst.isHalt = true → m.pipelineInfo.exInst.isNop = true

namespace Machine

theorem idStage_of_bubble {m : Machine} (h : m.Inv) (hs : m.stall = false)
    (hn : m.pipelineInfo.ifInst.isNop = true) : m.idStage.isNop = true := by
  cases hb : m.branchStall
  · exact (h.accepted_bubble ⟨hs, hb⟩ hn).1
  · rw [idStage_of_branchStall hs hb]
    rfl

theorem Inv.flush_of_halt {m : Machine} (h : m.Inv) (hd : Drained m) (ha : m.Accepts)
    (hh : m.idStage.isHalt = true) : m.flush = true := by
  have hdec := ha.idStage_toDecoding
  have ht : m.idStage.traps = true := by
    simp only [Decoding.traps, hh, Bool.or_true]
  have hc : isControl m.idStage = false := h.idStage_decoded.not_control (.inl hh)
  have hpc : m.pipelineInfo.ifInst.pc + 4#64 ≠ 0#64 := by
    rcases hd.word with hn | ⟨memory, himage, hw⟩
    · have hword := (simDecode_halt h.ifLatch.fresh.isHalt (by rw [← hdec]; exact hh)).1
      rw [h.ifLatch.fresh.isNop hn] at hword
      exact absurd hword (by decide)
    · refine halt_pc himage ?_
      rw [← hw, ← hdec]
      exact hh
  rw [ha.flush_eq, h.accepted_nextPC_of_traps ha ht hc]
  simpa using hpc.symm

theorem Inv.drained_runCycle {m : Machine} (h : m.Inv) (hd : Drained m) : Drained m.runCycle where
  memory := by
    rw [h.runCycle_memory]
    exact access_isImage hd.memory _
  word := by
    show m.ifStage.isNop = true ∨ ∃ memory, IsImage memory ∧ m.ifStage = simFetch m.ifStage.pc memory
    rcases h.ifStage_cases with hn | ⟨hheld, _⟩ | hfetch
    · exact .inl hn
    · rw [hheld]
      exact hd.word
    · exact .inr ⟨_, access_isImage hd.memory _, hfetch⟩
  id := by
    show m.idStage.isHalt = true → m.ifStage.isNop = true
    intro hh
    cases hs : m.stall
    · cases hb : m.branchStall
      · rw [(ifStage_of_flush (h.flush_of_halt hd ⟨hs, hb⟩ hh)).1]
        rfl
      · rw [idStage_of_branchStall hs hb] at hh
        cases hh
    · rw [idStage_of_stall hs] at hh
      rw [(ifStage_of_stalled (by simp [hs])).1]
      exact hd.id hh
  ex := by
    show m.exStage.isHalt = true → m.idStage.isNop = true
    intro hh
    cases hs : m.stall
    · rw [exStage_toDecoding hs] at hh
      exact idStage_of_bubble h hs (hd.id hh)
    · rw [exStage_of_stall hs] at hh
      cases hh
  mem := by
    show m.memStage.1.isHalt = true → m.exStage.isNop = true
    intro hh
    rw [memStage_toDecoding] at hh
    cases hs : m.stall
    · rw [exStage_toDecoding hs]
      exact hd.ex hh
    · rw [exStage_of_stall hs]
      rfl

end Machine

theorem initSimulator_drained (image : MemoryImage) : Drained (initSimulator image.store) where
  memory := ⟨rfl, image.length_eq⟩
  word := .inl rfl
  id := fun hh => nomatch hh
  ex := fun hh => nomatch hh
  mem := fun hh => nomatch hh

theorem machineAt_drained (image : MemoryImage) (n : Nat) : Drained (machineAt image n) := by
  induction n with
  | zero => exact initSimulator_drained image
  | succ n ih =>
    rw [machineAt_succ]
    exact (machineAt_inv n).drained_runCycle ih

end CycleSim
