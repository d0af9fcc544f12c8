import CycleSim.Pipeline.Drain
import CycleSim.Pipeline.Drivers

/-! The pipeline refines the functional simulator.

Up to the cycle that takes HALT through WB every log is a prefix of the functional
trace (`retired_log`, `accessed_log`, `entered_log`), and the state at each
point of the pipeline is the functional state after exactly that prefix. -/
namespace CycleSim

/-- The functional driver executes `k` instructions: none but the last is HALT or illegal. -/
def Funct.Executes (image : MemoryImage) (k : Nat) : Prop := Funct.Reaches image (k - 1)

/-- No HALT passed WB before cycle `n`. -/
def BeforeHalt (image : MemoryImage) (n : Nat) : Prop :=
  ∀ i < n, (machineAt image i).pipelineInfo.wbInst.isHalt = false

/-- The illegal instruction of the functional run, if it meets one, has not reached ID. -/
def BeforeIllegal (image : MemoryImage) (n : Nat) : Prop :=
  ∀ k, Funct.Reaches image k → (Funct.executed image k).isLegal = false → ∀ i ≤ n,
    ¬((machineAt image i).pipelineInfo.idInst.pc = (Funct.executed image k).pc ∧
      (machineAt image i).pipelineInfo.idInst.instruction = (Funct.executed image k).instruction)

/-- What the pipeline has done agrees with the functional run. -/
structure Refines (image : MemoryImage) (n : Nat) : Prop where
  /-- The retired instructions are the first `k` of the trace, and the registers are theirs. -/
  retired : ∃ k, Funct.Executes image k ∧ wbLog image n = Funct.visible image k ∧
    (machineAt image n).simulator.regData = (Funct.stateAt image k).simulator.regData
  /-- The instructions past MEM are the first `k` of the trace, and the memory is theirs. -/
  accessed : ∃ k, Funct.Executes image k ∧ memLog image n = Funct.visible image k ∧
    (machineAt image n).simulator.memory = (Funct.stateAt image k).simulator.memory
  /-- Before HALT is decoded only instructions of the trace enter ID. -/
  entered : (∀ i < n, (machineAt image i).pipelineInfo.idInst.isHalt = false) →
    ∃ k, Funct.Executes image k ∧ enterLog image n = Funct.visible image k

/-! ### Prefixes up to a HALT or an illegal instruction -/

section
variable {p : Decoding → Bool}

/-- No instruction of the log is of the kind `p`. -/
def FreeOf (p : Decoding → Bool) (log : List Decoding) : Prop := ∀ x ∈ log, p x = false

theorem freeOf_logged {x : Decoding} (h : p x = false) : FreeOf p x.logged := by
  intro y hy
  simp only [Decoding.logged, List.mem_filter, List.mem_singleton] at hy
  rw [hy.1, h]

theorem log_freeOf {image : MemoryImage} {latch : PipelineInfo → Instruction} {n : Nat}
    (h : ∀ i, 0 < i → i ≤ n → p (latch (machineAt image i).pipelineInfo).toDecoding = false) :
    FreeOf p (log image latch n) := by
  intro x hx
  simp only [log, List.mem_flatMap, List.mem_range] at hx
  obtain ⟨i, hi, hmem⟩ := hx
  exact freeOf_logged (h (i + 1) (Nat.succ_pos i) hi) x hmem

/-- A log that shows at most one instruction beyond one free of `p` does not pass the first
instruction of that kind. -/
theorem prefix_of_freeOf {l rest v : List Decoding} {x y : Decoding} (hy : p y = true)
    (hl : FreeOf p l) (hv : l ++ x.logged <+: (v ++ [y]) ++ rest) :
    l ++ x.logged <+: v ++ [y] := by
  have hfree : ¬v ++ [y] <+: l := by
    intro hp
    have hmem := hl y (hp.subset (by simp))
    rw [hy] at hmem
    cases hmem
  rcases List.prefix_or_prefix_of_prefix hv (List.prefix_append _ rest) with hp | hp
  · exact hp
  · cases hn : x.isNop
    · simp only [Decoding.logged, List.filter_cons, hn, Bool.not_false, if_true, List.filter_nil]
        at hp ⊢
      rcases List.prefix_concat_iff.mp hp with heq | hshort
      · rw [heq]
      · exact absurd hshort hfree
    · simp only [Decoding.logged, List.filter_cons, hn, Bool.not_true, Bool.false_eq_true, if_false,
        List.filter_nil, List.append_nil] at hp ⊢
      exact absurd hp hfree

end

section
variable {image : MemoryImage} {n : Nat}

/-- Either the run has been followed so far, or a HALT has entered ID and everything up to
it has been followed. -/
theorem followed (hself : NoSelfModification image) (hill : BeforeIllegal image n) :
    (∃ k, Sync image n k) ∨ ∃ c < n, ∃ k, Funct.Reaches image k ∧
      (Funct.executed image k).isHalt = true ∧
      enterLog image (c + 1) = Funct.visible image (k + 1) ∧
      (machineAt image (c + 1)).pipelineInfo.idInst.isHalt = true := by
  rcases sync_or_trapped hself n with hsync | ⟨c, hc, k, d, h, hi, ht⟩
  · exact .inl hsync
  · have hid : (machineAt image (c + 1)).pipelineInfo.idInst.toDecoding =
        (Funct.executed image k).toDecoding := h.idInst_issued hself hi
    have hhalt : (Funct.executed image k).isHalt = true := by
      cases hl : (Funct.executed image k).isLegal
      · refine absurd ?_ (hill k h.reaches hl (c + 1) hc)
        rw [hid]
        exact ⟨rfl, rfl⟩
      · simpa [Decoding.traps, hl] using ht
    refine .inr ⟨c, hc, k, h.reaches, hhalt, h.enter_succ hself hi, ?_⟩
    rw [hid, hhalt]

theorem visible_of_traps {k : Nat} (ht : (Funct.executed image k).traps = true) :
    Funct.visible image (k + 1) =
      Funct.visible image k ++ [(Funct.executed image k).toDecoding] := by
  rw [Funct.visible_succ]
  simp [Decoding.logged, (Funct.executed_decoded k).not_nop ht]

/-- A log ID is ahead of, and that shows at most one instruction beyond a HALT-free one,
is the trace of some number of instructions. -/
theorem log_visible (hself : NoSelfModification image) (hill : BeforeIllegal image n)
    {l : List Decoding} {x : Decoding} (hl : FreeOf Decoding.isHalt l)
    (hp : l ++ x.logged <+: enterLog image n) :
    ∃ k, Funct.Executes image k ∧ l ++ x.logged = Funct.visible image k := by
  rcases followed hself hill with ⟨k, hsync⟩ | ⟨c, hc, k, hreach, hh, henter, _⟩
  · rw [hsync.entered] at hp
    obtain ⟨i, hi, heq⟩ := Funct.prefix_visible hp
    exact ⟨i, hsync.reaches.mono (by omega), heq⟩
  · obtain ⟨rest, hrest⟩ := @enterLog_mono image _ _ hc
    rw [← hrest, henter, visible_of_traps (Decoding.traps_of_halt hh)] at hp
    have hv := prefix_of_freeOf hh hl hp
    rw [← visible_of_traps (Decoding.traps_of_halt hh)] at hv
    obtain ⟨i, hi, heq⟩ := Funct.prefix_visible hv
    exact ⟨i, hreach.mono (by omega), heq⟩

theorem retired_log (hself : NoSelfModification image) (hhalt : BeforeHalt image n)
    (hill : BeforeIllegal image n) :
    ∃ k, Funct.Executes image k ∧ wbLog image n = Funct.visible image k := by
  cases n with
  | zero => exact ⟨0, fun i hi => absurd hi (Nat.not_lt_zero i), rfl⟩
  | succ n =>
    have hfree : FreeOf Decoding.isHalt (wbLog image n) :=
      log_freeOf (fun i _ hi => hhalt i (Nat.lt_succ_of_le hi))
    have hlog : wbLog image (n + 1) =
      wbLog image n ++ (machineAt image (n + 1)).pipelineInfo.wbInst.logged := log_succ _ n
    have hp : wbLog image (n + 1) <+: enterLog image (n + 1) := wbLog_isPrefix (n + 1)
    rw [hlog] at hp ⊢
    exact log_visible hself hill hfree hp

/-- While HALT goes through WB, MEM receives nothing. -/
theorem accessed_log (hself : NoSelfModification image) (hhalt : BeforeHalt image n)
    (hill : BeforeIllegal image n) :
    ∃ k, Funct.Executes image k ∧ memLog image n = Funct.visible image k := by
  cases n with
  | zero => exact ⟨0, fun i hi => absurd hi (Nat.not_lt_zero i), rfl⟩
  | succ n =>
    have hfree : FreeOf Decoding.isHalt (wbLog image n) :=
      log_freeOf (fun i _ hi => hhalt i (Nat.lt_succ_of_le hi))
    have hlog : memLog image (n + 1) =
      memLog image n ++ (machineAt image (n + 1)).pipelineInfo.memInst.logged := log_succ _ n
    cases hm : (machineAt image n).pipelineInfo.memInst.isHalt
    · have hfree' : FreeOf Decoding.isHalt (memLog image n) := by
        rw [memLog_eq]
        intro x hx
        rcases List.mem_append.mp hx with hx | hx
        · exact hfree x hx
        · exact freeOf_logged hm x hx
      have hp : memLog image (n + 1) <+: enterLog image (n + 1) := memLog_isPrefix (n + 1)
      rw [hlog] at hp ⊢
      exact log_visible hself hill hfree' hp
    · have hempty : (machineAt image (n + 1)).pipelineInfo.memInst.logged = [] := by
        rw [memInst_succ]
        simp [Decoding.logged, (machineAt_drained image n).mem hm]
      obtain ⟨k, hk, heq⟩ := retired_log hself hhalt hill
      refine ⟨k, hk, ?_⟩
      rw [hlog, hempty, List.append_nil, ← wbLog_succ, heq]

theorem entered_log (hself : NoSelfModification image) (hill : BeforeIllegal image n)
    (hid : ∀ i < n, (machineAt image i).pipelineInfo.idInst.isHalt = false) :
    ∃ k, Funct.Executes image k ∧ enterLog image n = Funct.visible image k := by
  rcases followed hself hill with ⟨k, hsync⟩ | ⟨c, hc, k, hreach, _, henter, hh⟩
  · exact ⟨k, hsync.reaches.mono (by omega), hsync.entered⟩
  · rcases Nat.lt_or_eq_of_le (Nat.succ_le_of_lt hc) with hlt | rfl
    · rw [hid _ hlt] at hh
      cases hh
    · exact ⟨k + 1, hreach, henter⟩

theorem refines (hself : NoSelfModification image) (hhalt : BeforeHalt image n)
    (hill : BeforeIllegal image n) : Refines image n where
  retired := by
    obtain ⟨k, hk, hlog⟩ := retired_log hself hhalt hill
    refine ⟨k, hk, hlog, ?_⟩
    rw [regData_eq_replay, hlog, Funct.replay_visible]
    rfl
  accessed := by
    obtain ⟨k, hk, hlog⟩ := accessed_log hself hhalt hill
    refine ⟨k, hk, hlog, ?_⟩
    rw [memory_eq_replay, hlog, Funct.replay_visible]
    rfl
  entered := entered_log hself hill

/-! ### HALT in both simulators -/

/-- A trace that shows a HALT ends with the HALT of the run. -/
theorem visible_halt {j k : Nat} (hreach : Funct.Reaches image k)
    (hh : (Funct.executed image k).isHalt = true) (hj : Funct.Executes image j)
    {x : Decoding} (hx : x ∈ Funct.visible image j) (hxh : x.isHalt = true) : j = k + 1 := by
  simp only [Funct.visible, Funct.trace, List.mem_filter, List.mem_map, List.mem_range] at hx
  obtain ⟨⟨i, hi, rfl⟩, _⟩ := hx
  have hki : k ≤ i := hreach.le_of_traps (Decoding.traps_of_halt hxh)
  have hji : j - 1 ≤ i := hj.le_of_traps (Decoding.traps_of_halt hxh)
  have hjk : j - 1 ≤ k := hj.le_of_traps (Decoding.traps_of_halt hh)
  omega

theorem beforeIllegal_of_halt {k : Nat} (hreach : Funct.Reaches image k)
    (hh : (Funct.executed image k).isHalt = true) : BeforeIllegal image n := by
  intro j hj hl
  have hjk : j ≤ k := hj.le_of_traps (Decoding.traps_of_halt hh)
  have hkj : k ≤ j := hreach.le_of_traps (by simp [Decoding.traps, hl])
  obtain rfl := Nat.le_antisymm hjk hkj
  rw [(Funct.executed_decoded j).halt hh] at hl
  cases hl

/-- When HALT passes WB, the state is the final state of the functional run. -/
theorem final_state (hself : NoSelfModification image) {k : Nat}
    (hreach : Funct.Reaches image k) (hh : (Funct.executed image k).isHalt = true)
    (hhalt : BeforeHalt image n)
    (hwb : (machineAt image n).pipelineInfo.wbInst.isHalt = true) :
    (machineAt image n).simulator.arch = (Funct.stateAt image (k + 1)).arch := by
  have href := refines hself hhalt (beforeIllegal_of_halt hreach hh)
  obtain ⟨i, hi, hwblog, hregs⟩ := href.retired
  obtain ⟨j, hj, hmemlog, hmem⟩ := href.accessed
  have hshown : ∃ x ∈ wbLog image n, x.isHalt = true := by
    cases n with
    | zero => cases hwb
    | succ n =>
      refine ⟨_, ?_, hwb⟩
      rw [wbLog, log_succ]
      refine List.mem_append_right _ ?_
      rw [wbInst_succ] at hwb ⊢
      simp [Decoding.logged, (machineAt_inv n).memDecoded.not_nop (Decoding.traps_of_halt hwb)]
  obtain ⟨x, hx, hxh⟩ := hshown
  have hx' : x ∈ memLog image n := by
    rw [memLog_eq]
    exact List.mem_append_left _ hx
  rw [hwblog] at hx
  rw [hmemlog] at hx'
  obtain rfl := visible_halt hreach hh hi hx hxh
  obtain rfl := visible_halt hreach hh hj hx' hxh
  exact congrArg₂ Arch.mk hregs hmem

end

/-- **The pipeline refines the functional simulator.** On every image whose run does not
modify itself: after any number of cycles up to the one that takes HALT through WB, and
while the illegal instruction of the run has not reached ID, the retired instructions,
the registers, the memory and the instructions in ID are those of the functional run.
These are the machines `runCycles` goes through, and when it and `runInstructions` both
return HALT they leave the same registers and memory. -/
theorem pipeline_refines_functional (image : MemoryImage) (hself : NoSelfModification image) :
    (∀ n, BeforeHalt image n → BeforeIllegal image n → Refines image n) ∧
    (∀ fuel cycles status dump m,
      runCycles fuel cycles (initSimulator image.store) = some (status, dump, m) →
      ∃ n, m = machineAt image n ∧ BeforeHalt image n) ∧
    (∀ fuel fuel' cycles dump m s,
      runCycles fuel cycles (initSimulator image.store) = some (.halt, dump, m) →
      Funct.runInstructions fuel' 0#64 (Funct.initSimulator image.store) = some (.halt, s) →
      m.simulator.regData = s.simulator.regData ∧ m.simulator.memory = s.simulator.memory) := by
  refine ⟨fun n => refines hself, ?_, ?_⟩
  · intro fuel cycles status dump m hrun
    obtain ⟨n, hm, hhalt, _⟩ := runCycles_eq_some hrun
    exact ⟨n, hm, hhalt⟩
  · intro fuel fuel' cycles dump m s hrun hfunct
    obtain ⟨n, rfl, hhalt, hwb⟩ := runCycles_eq_some hrun
    obtain ⟨k, hreach, hh, rfl⟩ := Funct.runInstructions_halt_iff.mp ⟨fuel', hfunct⟩
    have hfinal := final_state hself hreach hh hhalt (hwb.mp rfl)
    exact ⟨congrArg Arch.regs hfinal, congrArg Arch.memory hfinal⟩

theorem pipeline_refines_functional_sample : Refines sampleImage 10 := by
  refine (pipeline_refines_functional sampleImage sampleImage_noSelfModification).1 10 ?_
    (beforeIllegal_of_halt sampleImage_reaches sampleImage_halts)
  unfold BeforeHalt
  decide

end CycleSim
