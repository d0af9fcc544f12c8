import CycleSim.Pipeline.Run

/-! The drivers, as the runs they perform.

`runInstructions` executes the trace up to its first HALT or illegal instruction;
`runCycles` executes cycles up to the first that takes a HALT through WB, or as many
as it was asked for. -/
namespace CycleSim

namespace Funct

/-- One iteration of `runInstructions` that goes on. -/
def next (x : BitVec 64 × State) : BitVec 64 × State := (x.1 + 1#64, (step x.2).2)

theorem iterate_next (k : Nat) (count : BitVec 64) (s : State) :
    (next^[k] (count, s)).2 = (fun s => (step s).2)^[k] s := by
  induction k generalizing count s with
  | zero => rfl
  | succ k ih => exact ih _ _

theorem body_inl {instructions : BitVec 64} {x x' : BitVec 64 × State}
    (h : runInstructionsBody instructions x = .inl x') :
    x' = next x ∧ (step x.2).1.traps = false := by
  unfold runInstructionsBody at h
  split at h
  · simp only at h
    split at h
    · cases h
    · split at h
      · cases h
      · rename_i hh hl
        refine ⟨(Sum.inl.inj h).symm, ?_⟩
        simp_all [Decoding.traps]
  · cases h

theorem body_of_legal {x : BitVec 64 × State} (h : (step x.2).1.traps = false) :
    runInstructionsBody 0#64 x = .inl (next x) := by
  simp only [step_toDecoding, Decoding.traps, Bool.or_eq_false_iff, Bool.not_eq_false'] at h
  simp [runInstructionsBody, h, next]

theorem body_of_halt {x : BitVec 64 × State} (h : (step x.2).1.isHalt = true) :
    runInstructionsBody 0#64 x = .inr (.halt, (step x.2).2) := by
  rw [step_toDecoding] at h
  simp [runInstructionsBody, h]

theorem body_inr_halt {instructions : BitVec 64} {x : BitVec 64 × State} {s : State}
    (h : runInstructionsBody instructions x = .inr (.halt, s)) :
    (step x.2).1.isHalt = true ∧ s = (step x.2).2 := by
  unfold runInstructionsBody at h
  split at h
  · simp only at h
    split at h
    · rename_i hh
      simp only [Sum.inr.injEq, Prod.mk.injEq, true_and] at h
      exact ⟨hh, h.symm⟩
    · split at h <;> simp at h
  · simp at h

variable {image : MemoryImage}

/-- The functional simulator ends with HALT exactly when its run comes to one. -/
theorem runInstructions_halt_iff {s : State} :
    (∃ fuel, runInstructions fuel 0#64 (initSimulator image.store) = some (.halt, s)) ↔
      ∃ k, Reaches image k ∧ (executed image k).isHalt = true ∧ s = stateAt image (k + 1) := by
  constructor
  · intro ⟨fuel, hrun⟩
    obtain ⟨k, hgo, hexit⟩ := Loop.exists_exit (fun _ _ h => (body_inl h).1) hrun
    have hstate : ∀ i, (next^[i] (0#64, initSimulator image.store)).2 = stateAt image i :=
      fun i => iterate_next i _ _
    obtain ⟨hh, hs⟩ := body_inr_halt hexit
    rw [hstate] at hh hs
    refine ⟨k, fun i hi => ?_, hh, hs.trans (stateAt_succ k).symm⟩
    have hlegal := (body_inl (hgo i hi)).2
    rwa [hstate] at hlegal
  · rintro ⟨k, hreach, hh, rfl⟩
    have hstate : ∀ i, (next^[i] (0#64, initSimulator image.store)).2 = stateAt image i :=
      fun i => iterate_next i _ _
    refine @Loop.Yields.iterate _ _ _ next _ _ k (fun i hi => ?_) ?_
    · rw [Function.iterate_succ_apply']
      refine body_of_legal ?_
      rw [hstate]
      exact hreach i hi
    · rw [stateAt_succ, ← hstate]
      refine body_of_halt ?_
      rw [hstate]
      exact hh

end Funct

/-! ### `runCycles` -/

/-- One iteration of `runCycles` that goes on. -/
def CycleLoop.next (x : CycleLoop) : CycleLoop :=
  ⟨x.count + 1#64, x.machine.cycleCount, x.machine.runCycle⟩

theorem CycleLoop.iterate_next (k : Nat) (x : CycleLoop) :
    (CycleLoop.next^[k] x).machine = Machine.runCycle^[k] x.machine := by
  induction k generalizing x with
  | zero => rfl
  | succ k ih => exact ih _

theorem runCyclesBody_inl {cycles : BitVec 64} {x x' : CycleLoop}
    (h : runCyclesBody cycles x = .inl x') :
    x' = x.next ∧ x.machine.runCycle.pipelineInfo.wbInst.isHalt = false := by
  unfold runCyclesBody at h
  split at h
  · simp only at h
    split at h
    · cases h
    · rename_i hh
      exact ⟨(Sum.inl.inj h).symm, Bool.eq_false_iff.mpr hh⟩
  · cases h

/-- The loop of `runCycles` ends after the cycle that takes a HALT through WB, or when it has
executed the cycles it was asked for. -/
theorem runCyclesBody_inr {cycles : BitVec 64} {x : CycleLoop} {status : Status}
    {dump : PipeState} {m : Machine} (h : runCyclesBody cycles x = .inr (status, dump, m)) :
    (status = .halt ∧ m = x.machine.runCycle ∧ m.pipelineInfo.wbInst.isHalt = true ∧
        dump = m.pipeState x.machine.cycleCount) ∨
      (status = .success ∧ m = x.machine ∧ ¬(cycles = 0#64 ∨ x.count < cycles) ∧
        dump = m.pipeState x.cycle) := by
  unfold runCyclesBody at h
  split at h
  · simp only at h
    split at h
    · rename_i hh
      simp only [Sum.inr.injEq, Prod.mk.injEq] at h
      obtain ⟨rfl, rfl, rfl⟩ := h
      exact .inl ⟨rfl, rfl, hh, rfl⟩
    · cases h
  · rename_i hdone
    simp only [Sum.inr.injEq, Prod.mk.injEq] at h
    obtain ⟨rfl, rfl, rfl⟩ := h
    exact .inr ⟨rfl, rfl, hdone, rfl⟩

/-- Whatever `runCycles` returns, it has executed some number of cycles, and no HALT had
passed WB before the last of them. -/
theorem runCycles_eq_some {image : MemoryImage} {fuel : Nat} {cycles : BitVec 64}
    {status : Status} {dump : PipeState} {m : Machine}
    (h : runCycles fuel cycles (initSimulator image.store) = some (status, dump, m)) :
    ∃ n, m = machineAt image n ∧
      (∀ i < n, (machineAt image i).pipelineInfo.wbInst.isHalt = false) ∧
      (status = .halt ↔ (machineAt image n).pipelineInfo.wbInst.isHalt = true) := by
  obtain ⟨k, hgo, hexit⟩ := Loop.exists_exit (fun _ _ h => (runCyclesBody_inl h).1) h
  have hstate : ∀ i, (CycleLoop.next^[i] ⟨0#64, 0#64, initSimulator image.store⟩).machine =
      machineAt image i := fun i => CycleLoop.iterate_next i _
  have hno : ∀ i ≤ k, (machineAt image i).pipelineInfo.wbInst.isHalt = false := by
    intro i hi
    cases i with
    | zero => rfl
    | succ i =>
      have hnot := (runCyclesBody_inl (hgo i hi)).2
      rwa [hstate, ← machineAt_succ] at hnot
  rcases runCyclesBody_inr hexit with ⟨hs, hm, hh, _⟩ | ⟨hs, hm, _⟩
  · rw [hm] at hh
    rw [hstate, ← machineAt_succ] at hm hh
    exact ⟨k + 1, hm, fun i hi => hno i (Nat.lt_succ_iff.mp hi), iff_of_true hs hh⟩
  · rw [hstate] at hm
    refine ⟨k, hm, fun i hi => hno i (Nat.le_of_lt hi), iff_of_false (by simp [hs]) ?_⟩
    rw [hno k (Nat.le_refl k)]
    decide

/-- `runCycles(0)` runs up to the first cycle that takes a HALT through WB. -/
theorem runCycles_zero {image : MemoryImage} {n : Nat}
    (hno : ∀ i ≤ n, (machineAt image i).pipelineInfo.wbInst.isHalt = false)
    (hh : (machineAt image (n + 1)).pipelineInfo.wbInst.isHalt = true) :
    ∃ fuel dump, runCycles fuel 0#64 (initSimulator image.store) =
      some (.halt, dump, machineAt image (n + 1)) := by
  have hstate : ∀ i, (CycleLoop.next^[i] ⟨0#64, 0#64, initSimulator image.store⟩).machine =
      machineAt image i := fun i => CycleLoop.iterate_next i _
  obtain ⟨fuel, hrun⟩ := @Loop.Yields.iterate _ _ (runCyclesBody 0#64) CycleLoop.next
    ⟨0#64, 0#64, initSimulator image.store⟩ _ n
    (fun i hi => by
      rw [Function.iterate_succ_apply']
      have hnot := hno (i + 1) hi
      rw [machineAt_succ, ← hstate] at hnot
      simp [runCyclesBody, CycleLoop.next, hnot])
    (by
      rw [machineAt_succ, ← hstate] at hh
      simp only [runCyclesBody, hh, true_or, if_true]
      rfl)
  rw [hstate, ← machineAt_succ] at hrun
  exact ⟨fuel, _, hrun⟩

/-! ### `runTillHalt` -/

namespace Funct

theorem runInstructions_one (s : State) : runInstructions 2 1#64 s = some
    (if s.current.isHalt then .halt else if s.current.isLegal then .success else .error,
      (step s).2) := by
  cases hh : s.current.isHalt
  · cases hl : s.current.isLegal
    · simp [runInstructions, Loop.run, runInstructionsBody, hh, hl]
    · simp [runInstructions, Loop.run, runInstructionsBody, hh, hl]
  · simp [runInstructions, Loop.run, runInstructionsBody, hh]

/-- `runTillHalt` executes the run up to its HALT. -/
theorem runTillHalt_yields {k : Nat} (hreach : Reaches image k)
    (hh : (executed image k).isHalt = true) : Loop.Yields runTillHaltBody
      (initSimulator image.store) (.halt, stateAt image (k + 1)) := by
  refine @Loop.Yields.iterate _ _ _ (fun s => (step s).2) _ _ k (fun i hi => ?_) ?_
  · have hlegal := hreach i hi
    rw [executed_toDecoding] at hlegal
    simp only [Decoding.traps, Bool.or_eq_false_iff, Bool.not_eq_false'] at hlegal
    rw [Function.iterate_succ_apply']
    show runTillHaltBody (stateAt image i) = .inl (step (stateAt image i)).2
    simp [runTillHaltBody, runInstructions_one, hlegal]
  · rw [executed_toDecoding] at hh
    show runTillHaltBody (stateAt image k) = _
    rw [stateAt_succ]
    simp [runTillHaltBody, runInstructions_one, hh]

end Funct

theorem runCycles_one (m : Machine) : runCycles 2 1#64 m = some
    (if m.runCycle.pipelineInfo.wbInst.isHalt then .halt else .success,
      m.runCycle.pipeState m.cycleCount, m.runCycle) := by
  cases hh : m.runCycle.pipelineInfo.wbInst.isHalt
  · simp [runCycles, Loop.run, runCyclesBody, hh]
  · simp [runCycles, Loop.run, runCyclesBody, hh]

/-- One cycle of `runTillHalt`. -/
def haltNext (x : List PipeState × Machine) : List PipeState × Machine :=
  (x.1 ++ [x.2.runCycle.pipeState x.2.cycleCount], x.2.runCycle)

theorem runTillHaltBody_inl {x x' : List PipeState × Machine}
    (h : runTillHaltBody x = .inl x') :
    x' = haltNext x ∧ x.2.runCycle.pipelineInfo.wbInst.isHalt = false := by
  simp only [runTillHaltBody, runCycles_one] at h
  cases hh : x.2.runCycle.pipelineInfo.wbInst.isHalt
  · simp only [hh, Bool.false_eq_true, if_false] at h
    exact ⟨(Sum.inl.inj h).symm, rfl⟩
  · simp only [hh, if_true] at h
    cases h

theorem runTillHaltBody_inr {x : List PipeState × Machine}
    {r : Status × List PipeState × Machine} (h : runTillHaltBody x = .inr r) :
    r = (.halt, haltNext x) ∧ x.2.runCycle.pipelineInfo.wbInst.isHalt = true := by
  simp only [runTillHaltBody, runCycles_one] at h
  cases hh : x.2.runCycle.pipelineInfo.wbInst.isHalt
  · simp only [hh, Bool.false_eq_true, if_false] at h
    cases h
  · simp only [hh, if_true] at h
    exact ⟨(Sum.inr.inj h).symm, rfl⟩

/-- The dump of cycle `i`. -/
def dumpAt (image : MemoryImage) (i : Nat) : PipeState :=
  (machineAt image (i + 1)).pipeState (machineAt image i).cycleCount

theorem haltNext_dumps (image : MemoryImage) (n : Nat) :
    haltNext^[n] ([], initSimulator image.store) =
      ((List.range n).map (dumpAt image), machineAt image n) := by
  induction n with
  | zero => rfl
  | succ n ih =>
    rw [Function.iterate_succ_apply', ih, haltNext, List.range_succ, List.map_append]
    simp only [← machineAt_succ]
    rfl

/-- `runTillHalt` runs up to the first cycle that takes a HALT through WB, and dumps each. -/
theorem runTillHalt_dumps {image : MemoryImage} {n : Nat}
    (hno : ∀ i ≤ n, (machineAt image i).pipelineInfo.wbInst.isHalt = false)
    (hh : (machineAt image (n + 1)).pipelineInfo.wbInst.isHalt = true) :
    Loop.Yields runTillHaltBody ([], initSimulator image.store)
      (.halt, (List.range (n + 1)).map (dumpAt image), machineAt image (n + 1)) := by
  refine @Loop.Yields.iterate _ _ _ haltNext _ _ n (fun i hi => ?_) ?_
  · have hnot := hno (i + 1) hi
    rw [machineAt_succ] at hnot
    rw [Function.iterate_succ_apply', haltNext_dumps]
    simp [runTillHaltBody, runCycles_one, hnot, haltNext]
  · rw [← haltNext_dumps, Function.iterate_succ_apply', haltNext_dumps]
    rw [machineAt_succ] at hh
    simp only [runTillHaltBody, runCycles_one, hh, if_true]
    rfl

theorem runTillHalt_yields {image : MemoryImage} {n : Nat}
    (hno : ∀ i ≤ n, (machineAt image i).pipelineInfo.wbInst.isHalt = false)
    (hh : (machineAt image (n + 1)).pipelineInfo.wbInst.isHalt = true) :
    ∃ dumps, Loop.Yields runTillHaltBody ([], initSimulator image.store)
      (.halt, dumps, machineAt image (n + 1)) :=
  ⟨_, runTillHalt_dumps hno hh⟩

end CycleSim
