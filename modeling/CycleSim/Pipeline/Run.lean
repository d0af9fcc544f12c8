import CycleSim.Pipeline.Advance
import CycleSim.Pipeline.Trace

/-! The pipeline over a whole run.

The logs list, NOPs dropped, the instructions that have been through WB, MEM and EX
and those that have entered ID; from one cycle to the next each log becomes the
one behind it (`wbLog_succ` to `enterLog_succ`). Replaying a log gives the registers
and the memory at that point of the pipeline (`afterID_eq_replay` and the ones before
it), on every program. -/
namespace CycleSim

/-- An instruction as a log shows it. -/
def Decoding.logged (x : Decoding) : List Decoding := [x].filter (fun x => !x.isNop)

/-- The instructions of a log, executed one after the other. -/
def replay (log : List Decoding) (a : Arch) : Arch := log.foldl (fun a x => x.execute a) a

theorem replay_append (log log' : List Decoding) (a : Arch) :
    replay (log ++ log') a = replay log' (replay log a) := List.foldl_append ..

theorem Decoded.replay_logged {x : Decoding} (h : Decoded x) (a : Arch) :
    replay x.logged a = x.execute a := by
  cases hn : x.isNop
  · simp [Decoding.logged, hn, replay]
  · simp [Decoding.logged, hn, replay, h.execute_of_nop hn]

section
variable (image : MemoryImage)

/-- The machine after `n` cycles. -/
def machineAt (n : Nat) : Machine := Machine.runCycle^[n] (initSimulator image.store)

/-- What a latch held after each of the first `n` cycles. -/
def log (latch : PipelineInfo → Instruction) (n : Nat) : List Decoding :=
  (List.range n).flatMap (fun i => (latch (machineAt image (i + 1)).pipelineInfo).logged)

/-- The instructions that have passed `simWB`. -/
def wbLog (n : Nat) : List Decoding := log image (fun p => p.wbInst) n

/-- The instructions that have passed `simMEM`. -/
def memLog (n : Nat) : List Decoding := log image (fun p => p.memInst) n

/-- The instructions that have passed `simEX`. -/
def exLog (n : Nat) : List Decoding := log image (fun p => p.exInst) n

/-- The instructions that have entered the ID latch. -/
def enterLog (n : Nat) : List Decoding :=
  exLog image n ++ (machineAt image n).pipelineInfo.idInst.logged

/-- The registers and the memory both simulators start from. -/
def initialArch : Arch := ⟨.zero, image.store⟩

end

section
variable {image : MemoryImage}

theorem machineAt_succ (n : Nat) : machineAt image (n + 1) = (machineAt image n).runCycle :=
  Function.iterate_succ_apply' _ _ _

/-! ### The latches after a cycle -/

theorem ifInst_succ (n : Nat) :
    (machineAt image (n + 1)).pipelineInfo.ifInst = (machineAt image n).ifStage := by
  rw [machineAt_succ]
  rfl

theorem idInst_succ (n : Nat) :
    (machineAt image (n + 1)).pipelineInfo.idInst = (machineAt image n).idStage := by
  rw [machineAt_succ]
  rfl

theorem exInst_succ (n : Nat) :
    (machineAt image (n + 1)).pipelineInfo.exInst = (machineAt image n).exStage := by
  rw [machineAt_succ]
  rfl

theorem memInst_succ (n : Nat) : (machineAt image (n + 1)).pipelineInfo.memInst.toDecoding =
    (machineAt image n).pipelineInfo.exInst.toDecoding := by
  rw [machineAt_succ]
  exact (machineAt image n).memStage_toDecoding

theorem wbInst_succ (n : Nat) : (machineAt image (n + 1)).pipelineInfo.wbInst.toDecoding =
    (machineAt image n).pipelineInfo.memInst.toDecoding := by
  rw [machineAt_succ]
  exact (machineAt image n).wbStage_toDecoding

theorem machineAt_inv (n : Nat) : (machineAt image n).Inv := by
  induction n with
  | zero => exact Machine.initSimulator_inv image.store
  | succ n ih =>
    rw [machineAt_succ]
    exact ih.runCycle

theorem log_succ (latch : PipelineInfo → Instruction) (n : Nat) : log image latch (n + 1) =
    log image latch n ++ (latch (machineAt image (n + 1)).pipelineInfo).logged := by
  simp [log, List.range_succ]

/-! ### Each log is the one behind it, a cycle ago -/

theorem wbLog_succ (n : Nat) : wbLog image (n + 1) = memLog image n := by
  induction n with
  | zero =>
    rw [wbLog, log_succ, wbInst_succ]
    rfl
  | succ n ih =>
    rw [wbLog, log_succ, ← wbLog, ih, wbInst_succ]
    exact (log_succ _ n).symm

theorem memLog_succ (n : Nat) : memLog image (n + 1) = exLog image n := by
  induction n with
  | zero =>
    rw [memLog, log_succ, memInst_succ]
    rfl
  | succ n ih =>
    rw [memLog, log_succ, ← memLog, ih, memInst_succ]
    exact (log_succ _ n).symm

theorem exLog_succ (n : Nat) : exLog image (n + 1) =
    if (machineAt image n).stall then exLog image n else enterLog image n := by
  rw [exLog, log_succ, ← exLog, exInst_succ]
  cases hs : (machineAt image n).stall
  · rw [Machine.exStage_toDecoding hs]
    rfl
  · rw [Machine.exStage_of_stall hs]
    exact List.append_nil _

theorem enterLog_succ (n : Nat) : enterLog image (n + 1) = enterLog image n ++
    match (machineAt image n).issue with
    | some d => d.logged
    | none => [] := by
  rw [enterLog, exLog_succ, idInst_succ]
  cases hs : (machineAt image n).stall
  · rw [if_neg (by decide)]
    cases hb : (machineAt image n).branchStall
    · cases hn : (machineAt image n).pipelineInfo.ifInst.isNop
      · simp only [Machine.issue, hs, hb, hn, Bool.or_self, Bool.false_eq_true, if_false]
      · simp only [Machine.issue, hs, hb, hn, Bool.or_true, if_true]
        simp [Decoding.logged, ((machineAt_inv n).accepted_bubble ⟨hs, hb⟩ hn).1]
    · simp only [Machine.issue, hs, hb, Bool.or_true, Bool.true_or, if_true]
      rw [Machine.idStage_of_branchStall hs hb]
      rfl
  · rw [if_pos rfl, Machine.idStage_of_stall hs]
    simp only [Machine.issue, hs, Bool.true_or, if_true]
    rw [List.append_nil]
    rfl

/-! ### Replaying a log -/

theorem afterID_eq_replay (n : Nat) :
    (machineAt image n).afterID = replay (enterLog image n) (initialArch image) := by
  induction n with
  | zero => rfl
  | succ n ih =>
    have h : (machineAt image n).Inv := machineAt_inv n
    rw [enterLog_succ, replay_append, ← ih, machineAt_succ, h.afterID_runCycle]
    cases hi : (machineAt image n).issue with
    | none => rfl
    | some d =>
      have hd := Machine.issues_of_eq hi
      have hdec : Decoded d.toDecoding := hd.idStage ▸ h.idStage_decoded
      have harith : d.arithResult = 0#64 := hd.idStage ▸ h.idStage_arithResult
      simp only
      rw [hdec.replay_logged]

theorem afterEX_eq_replay (n : Nat) :
    (machineAt image n).afterEX = replay (exLog image n) (initialArch image) := by
  induction n with
  | zero => rfl
  | succ n ih =>
    rw [exLog_succ, machineAt_succ, (machineAt_inv n).afterEX_runCycle]
    split
    · exact ih
    · exact afterID_eq_replay n

theorem afterMEM_eq_replay (n : Nat) :
    (machineAt image n).afterMEM = replay (memLog image n) (initialArch image) := by
  cases n with
  | zero => rfl
  | succ n =>
    rw [memLog_succ, machineAt_succ, (machineAt_inv n).afterMEM_runCycle]
    exact afterEX_eq_replay n

theorem regData_eq_replay (n : Nat) :
    (machineAt image n).simulator.regData = (replay (wbLog image n) (initialArch image)).regs := by
  cases n with
  | zero => rfl
  | succ n =>
    rw [wbLog_succ, machineAt_succ, (machineAt_inv n).runCycle_regData, afterMEM_eq_replay]

theorem memory_eq_replay (n : Nat) :
    (machineAt image n).simulator.memory = (replay (memLog image n) (initialArch image)).memory :=
  congrArg Arch.memory (afterMEM_eq_replay n)

/-! ### Each log is part of the one behind it -/

theorem memLog_eq (n : Nat) :
    memLog image n = wbLog image n ++ (machineAt image n).pipelineInfo.memInst.logged := by
  cases n with
  | zero => rfl
  | succ n =>
    rw [wbLog_succ]
    exact log_succ _ n

theorem exLog_eq (n : Nat) :
    exLog image n = memLog image n ++ (machineAt image n).pipelineInfo.exInst.logged := by
  cases n with
  | zero => rfl
  | succ n =>
    rw [memLog_succ]
    exact log_succ _ n

theorem wbLog_isPrefix (n : Nat) : wbLog image n <+: enterLog image n := by
  rw [enterLog, exLog_eq, memLog_eq, List.append_assoc, List.append_assoc]
  exact List.prefix_append _ _

theorem memLog_isPrefix (n : Nat) : memLog image n <+: enterLog image n := by
  rw [enterLog, exLog_eq, List.append_assoc]
  exact List.prefix_append _ _

theorem exLog_isPrefix (n : Nat) : exLog image n <+: enterLog image n := List.prefix_append _ _

theorem enterLog_mono {n k : Nat} (h : n ≤ k) : enterLog image n <+: enterLog image k := by
  induction h with
  | refl => exact List.prefix_refl _
  | step _ ih =>
    rw [enterLog_succ]
    exact ih.trans (List.prefix_append _ _)

end

end CycleSim
