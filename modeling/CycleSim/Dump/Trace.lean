import CycleSim.Dump
import CycleSim.Pipeline.Restart

/-! The trace of the pipeline.

`sim_cycle` writes a line a cycle. In its WB column, once the NOPs are dropped, stand the
instructions of the functional run, in order and each once (`trace_column`): a NOP of the
program and a bubble look alike there, and nothing else does. -/
namespace CycleSim

/-- NOP is known by its word. -/
def Marked (x : Decoding) : Prop := x.isNop = true ↔ x.instruction = 0x00000013#64

theorem simDecode_marked {x : Instruction} (h : Fresh x.toDecoding) :
    Marked (simDecode x).toDecoding := by
  have hplain : x.instruction ≠ 0x00000013#64 → x.isNop = false :=
    fun hne => Bool.eq_false_iff.mpr (fun hn => hne (h.isNop hn))
  rw [Marked, simDecode_instruction]
  unfold simDecode
  by_cases hw : (decodeFields x).instruction = 0xfeedfeed#64
  · have hne : x.instruction ≠ 0x00000013#64 := by
      rw [show x.instruction = 0xfeedfeed#64 from hw]
      decide
    simp only [hw, if_true]
    exact iff_of_false (Bool.eq_false_iff.mp (hplain hne)) hne
  · simp only [hw, if_false]
    by_cases hn : (decodeFields x).instruction = 0x00000013#64
    · simp only [hn, if_true]
      exact iff_of_true trivial hn
    · simp only [hn, if_false, (decodeOpcode_special _).2]
      exact iff_of_false (Bool.eq_false_iff.mp (hplain hn)) hn

/-- NOP is known by its word in the latches from ID on. -/
structure MarkedLatches (p : PipelineInfo) : Prop where
  id : Marked p.idInst.toDecoding
  ex : Marked p.exInst.toDecoding
  mem : Marked p.memInst.toDecoding
  wb : Marked p.wbInst.toDecoding

theorem nop_marked (status : StageStatus) : Marked (nop status).toDecoding := iff_of_true rfl rfl

theorem Machine.Inv.marked_runCycle {m : Machine} (h : m.Inv)
    (hm : MarkedLatches m.pipelineInfo) : MarkedLatches m.runCycle.pipelineInfo where
  id := by
    show Marked m.idStage.toDecoding
    cases hs : m.stall
    · cases hb : m.branchStall
      · rw [Accepts.idStage_toDecoding ⟨hs, hb⟩]
        exact simDecode_marked h.ifLatch.fresh
      · rw [idStage_of_branchStall hs hb]
        exact nop_marked _
    · rw [idStage_of_stall hs]
      exact hm.id
  ex := by
    show Marked m.exStage.toDecoding
    cases hs : m.stall
    · rw [exStage_toDecoding hs]
      exact hm.id
    · rw [exStage_of_stall hs]
      exact nop_marked _
  mem := by
    show Marked m.memStage.1.toDecoding
    rw [memStage_toDecoding]
    exact hm.ex
  wb := by
    show Marked m.wbStage.1.toDecoding
    rw [wbStage_toDecoding]
    exact hm.mem

section
variable {image : MemoryImage}

theorem machineAt_marked (n : Nat) : MarkedLatches (machineAt image n).pipelineInfo := by
  induction n with
  | zero => exact ⟨nop_marked _, nop_marked _, nop_marked _, nop_marked _⟩
  | succ n ih =>
    rw [machineAt_succ]
    exact (machineAt_inv n).marked_runCycle ih

theorem executed_marked (k : Nat) : Marked (Funct.executed image k).toDecoding := by
  rw [Funct.executed_toDecoding]
  exact simDecode_marked (simFetch_fresh _ _)

end

/-! ### The words -/

/-- The words that are not NOP. -/
def words (column : List (BitVec 64)) : List (BitVec 64) :=
  column.filter (fun word => word != 0x00000013#64)

/-- The WB column of the first `n` lines. -/
def wbColumn (image : MemoryImage) (n : Nat) : List (BitVec 64) :=
  words (((List.range n).map (dumpAt image)).map PipeState.wbInstr)

/-- The words of the first `k` instructions. -/
def functWords (image : MemoryImage) (k : Nat) : List (BitVec 64) :=
  words ((List.range k).map (fun i => (Funct.executed image i).instruction))

theorem Marked.words_logged {x : Decoding} (h : Marked x) :
    words [x.instruction] = x.logged.map Decoding.instruction := by
  have hnop : (x.instruction != 0x00000013#64) = !x.isNop := by
    rw [Bool.eq_iff_iff, bne_iff_ne, Bool.not_eq_true', Bool.eq_false_iff]
    exact not_congr h.symm
  simp only [words, Decoding.logged, List.filter_singleton, hnop]
  cases x.isNop <;> rfl

section
variable {image : MemoryImage}

theorem wbColumn_eq (n : Nat) : wbColumn image n = (wbLog image n).map Decoding.instruction := by
  induction n with
  | zero => rfl
  | succ n ih =>
    have hlast := (@machineAt_marked image (n + 1)).wb.words_logged
    rw [wbLog, log_succ, List.map_append, ← wbLog, ← ih, ← hlast]
    simp only [wbColumn, words, List.range_succ, List.map_append, List.filter_append]
    rfl

theorem functWords_eq (k : Nat) :
    functWords image k = (Funct.visible image k).map Decoding.instruction := by
  induction k with
  | zero => rfl
  | succ k ih =>
    have hlast := (@executed_marked image k).words_logged
    rw [Funct.visible_succ, List.map_append, ← ih, ← hlast]
    simp only [functWords, words, List.range_succ, List.map_append, List.filter_append]
    rfl

end

/-! ### The run -/

/-- **The trace.** When every store leaves the two instructions behind it alone and no illegal
instruction looks like a branch, the WB column holds after any number of lines the first
instructions of the functional run, NOPs apart, and every instruction comes to stand there; the
file `runTillHalt` leaves ends with the first HALT of that run. -/
theorem trace_column (image : MemoryImage) (hstores : StoresSettle image)
    (hill : NoIllegalBranch image) :
    (∀ n, ∃ k, wbColumn image n = functWords image k) ∧
    (∀ k, ∃ n ≤ 4 * k + 4, wbColumn image n = functWords image k) ∧
    ∀ status dumps m,
      Loop.Yields runTillHaltBody ([], initSimulator image.store) (status, dumps, m) →
      ∃ k, FirstHalt image k ∧
        words (dumps.map PipeState.wbInstr) = functWords image (k + 1) := by
  refine ⟨fun n => ?_, fun k => ?_, fun status dumps m h => ?_⟩
  · obtain ⟨_, h⟩ := follows hstores hill n
    obtain ⟨i, _, hb⟩ := h.between
    exact ⟨i, by rw [wbColumn_eq, hb.retired, functWords_eq]⟩
  · obtain ⟨n, hn, _, hb⟩ := follows_retires hstores hill k
    exact ⟨n, hn, by rw [wbColumn_eq, hb.retired, functWords_eq]⟩
  · obtain ⟨n, _, rfl, _, hbefore, hh⟩ := runTillHalt_eq h
    obtain ⟨_, hf⟩ := follows hstores hill n
    obtain ⟨_, _, hb⟩ := hf.between
    obtain ⟨k, hk, hwb, _⟩ := hb.firstHalt hbefore hh
    refine ⟨k, hk, ?_⟩
    show wbColumn image n = _
    rw [wbColumn_eq, hwb, functWords_eq]

/-- The instruction and HALT, over and over. -/
theorem trace_column_sample : ∃ n ≤ 20, wbColumn restartImage n =
    [0x00108093#64, 0xfeedfeed#64, 0x00108093#64, 0xfeedfeed#64] := by
  obtain ⟨n, hn, hcolumn⟩ :=
    (trace_column restartImage restartImage_settles.1 restartImage_settles.2).2.1 4
  refine ⟨n, hn, hcolumn.trans ?_⟩
  decide

end CycleSim
