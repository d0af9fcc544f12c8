import CycleSim.Pipeline.Timing
import CycleSim.Pipeline.Refinement

/-! The number of cycles a program takes.

Every cycle keeps the latches on schedule (`Timed.idle`, `Timed.issue`), so HALT leaves ID
when the schedule says, and passes WB three cycles later. -/
namespace CycleSim

section
variable {image : MemoryImage} {n k : Nat}

/-- What a held IF latch tells about the schedule. -/
theorem Timed.bubble_idle (h : Timed image n k) (hi : (machineAt image n).issue = none) :
    (machineAt image (n + 1)).pipelineInfo.ifInst.isNop = true ↔
      k = 0 ∧ n + 1 = 0 ∨ ∃ j, k = j + 1 ∧ taken image j = 1 ∧ n + 1 ≤ entry image j := by
  have hbubble := h.bubble
  have hinv : (machineAt image n).Inv := machineAt_inv n
  rw [ifInst_succ]
  cases hs : (machineAt image n).stall
  · cases hn : (machineAt image n).pipelineInfo.ifInst.isNop
    · have hb : (machineAt image n).branchStall = true := by
        cases hb : (machineAt image n).branchStall
        · simp [Machine.issue, hn, hs, hb] at hi
        · rfl
      rw [(Machine.ifStage_of_stalled (by rw [hb, Bool.or_true])).1, hn]
      refine iff_of_false (by decide) ?_
      rintro (⟨_, h0⟩ | ⟨j, hk, ht, hle⟩)
      · omega
      · rw [hbubble.mpr (.inr ⟨j, hk, ht, by omega⟩)] at hn
        cases hn
    · have ha : (machineAt image n).Accepts := ⟨hs, hinv.branchStall_of_bubble hn⟩
      have hf := hinv.flush_of_bubble ha hn
      rw [(Machine.ifStage_of_fetch (by rw [ha.stall, ha.branchStall]; rfl) hf).1]
      refine iff_of_false Bool.false_ne_true ?_
      rintro (⟨_, h0⟩ | ⟨j, rfl, _, hle⟩)
      · omega
      · rcases h.inID with ⟨_, hlt⟩ | ⟨i, hik, _, he, _⟩
        · have := hlt j (Nat.lt_succ_self j)
          omega
        · obtain rfl := Nat.succ.inj hik
          rw [hs] at he
          simp only [Bool.toNat_false] at he
          omega
  · rw [(Machine.ifStage_of_stalled (by rw [hs, Bool.true_or])).1, hbubble]
    rcases h.inID with ⟨hn, _⟩ | ⟨i, rfl, _, he, _⟩
    · rw [hinv.stall_of_nop hn] at hs
      cases hs
    · rw [hs] at he
      simp only [Bool.toNat_true] at he
      refine or_congr (by omega) (exists_congr (fun j => and_congr_right (fun hj => ?_)))
      obtain rfl := Nat.succ.inj hj
      exact and_congr_right (fun _ => by omega)

variable (hself : NoSelfModification image)
include hself

theorem Timed.idle (h : Timed image n k) (hs : Sync image n k)
    (hi : (machineAt image n).issue = none) : Timed image (n + 1) k where
  lower := by
    by_cases ha : available image k ≤ n + 1
    · obtain ⟨hb, hc⟩ := h.held hself hs hi ha
      exact (h.branchStall_iff hself hs ha hc).mp hb
    · have hle : available image k ≤ entry image k := available_le_entry k
      omega
  first := by
    intro hc
    by_contra ha
    rw [(h.held hself hs hi (Nat.not_lt.mp ha)).2] at hc
    cases hc
  bubble := h.bubble_idle hi
  inID := h.inID_idle hi
  inEX := h.inEX_succ
  waited := by
    rw [stalls_succ, idle_stall hi]
    exact h.waited

theorem Timed.issue (h : Timed image n k) (hs : Sync image n k) {d : Instruction}
    (hi : (machineAt image n).issue = some d) (ht : (Funct.executed image k).traps = false) :
    Timed image (n + 1) (k + 1) where
  lower := by
    have hlow := h.lower
    have hlt : entry image k < entry image (k + 1) := entry_lt (Nat.lt_succ_self k)
    omega
  first := by
    intro _
    have hlow := h.lower
    rw [available_succ]
    omega
  bubble := by
    have haccept := (Machine.issues_of_eq hi).accepts
    have hnext : d.nextPC = (Funct.executed image k).nextPC := by
      have hpc := (hs.issue hself hi ht).pc
      rw [machineAt_succ, (machineAt_inv n).fetchPC_runCycle, hi] at hpc
      rw [Funct.executed_nextPC]
      exact hpc
    have hpc : (machineAt image n).pipelineInfo.ifInst.pc = (Funct.executed image k).pc := by
      rw [← hs.issued hself hi, (Machine.issues_of_eq hi).decoding]
      exact (simDecode_pc _).symm
    have hflush : (machineAt image n).flush = true ↔ taken image k = 1 := by
      rw [haccept.flush_eq, (Machine.issues_of_eq hi).idStage, hnext, hpc, taken]
      by_cases heq : (Funct.executed image k).nextPC = (Funct.executed image k).pc + 4#64 <;>
        simp [heq]
    have hlow := h.lower
    rw [ifInst_succ]
    cases hf : (machineAt image n).flush
    · rw [(Machine.ifStage_of_fetch (by rw [haccept.stall, haccept.branchStall]; rfl) hf).1]
      refine iff_of_false Bool.false_ne_true ?_
      rintro (⟨h0, _⟩ | ⟨j, hj, htk, _⟩)
      · omega
      · obtain rfl := Nat.succ.inj hj
        rw [hflush.mpr htk] at hf
        cases hf
    · rw [(Machine.ifStage_of_flush hf).1]
      exact iff_of_true rfl (.inr ⟨k, rfl, hflush.mp hf, hlow⟩)
  inID := h.inID_issue hself hs hi
  inEX := h.inEX_issue
  waited := h.waited_issue hself hs hi

/-- The pipeline comes to the HALT of the run, on schedule. -/
theorem reaches_halt (hreach : Funct.Reaches image k)
    (hh : (Funct.executed image k).isHalt = true) :
    ∃ c d, Sync image c k ∧ Timed image c k ∧ (machineAt image c).issue = some d := by
  have hrun := Sync.run hself (P := Timed image) (timed_zero image)
    (fun n k hs h hi => h.idle hself hs hi)
    (fun n k d hs h hi ht => h.issue hself hs hi ht) (entry image k)
  rcases hrun with ⟨j, hs, h⟩ | ⟨c, _, j, d, hs, h, hi, ht⟩
  · have hjk : j ≤ k := hs.reaches.le_of_traps (Decoding.traps_of_halt hh)
    have hle : entry image j ≤ entry image k := Schedule.start_strictMono.monotone hjk
    have hlow := h.lower
    omega
  · have hjk : j ≤ k := hs.reaches.le_of_traps (Decoding.traps_of_halt hh)
    have hkj : k ≤ j := hreach.le_of_traps ht
    obtain rfl := Nat.le_antisymm hjk hkj
    exact ⟨c, d, hs, h, hi⟩

/-- HALT leaves ID in the cycle after `entry image k`, behind everything older. -/
theorem halt_leaves (hreach : Funct.Reaches image k)
    (hh : (Funct.executed image k).isHalt = true) :
    (machineAt image (entry image k)).stall = false ∧
      (machineAt image (entry image k)).pipelineInfo.idInst.toDecoding =
        (Funct.executed image k).toDecoding ∧
      exLog image (entry image k) = Funct.visible image k ∧
      stalls image (entry image k) = loadWaits image (k + 1) := by
  obtain ⟨c, d, hs, h, hi⟩ := reaches_halt hself hreach hh
  have haccept := (Machine.issues_of_eq hi).accepts
  have he := h.enters hself hs hi
  have hid := hs.idInst_issued hself hi
  have hlog : exLog image (c + 1) = Funct.visible image k := by
    rw [exLog_succ, haccept.stall, if_neg (by decide), hs.entered]
  cases hst : (machineAt image (c + 1)).stall
  · rw [hst] at he
    rw [he]
    refine ⟨hst, hid, hlog, ?_⟩
    rw [← h.waited_issue hself hs hi, hst]
    rfl
  · rw [hst] at he
    rw [he]
    refine ⟨?_, ?_, ?_, ?_⟩
    · show (machineAt image (c + 1 + 1)).stall = false
      rw [machineAt_succ]
      exact (machineAt_inv (c + 1)).stall_runCycle hst
    · show (machineAt image (c + 1 + 1)).pipelineInfo.idInst.toDecoding = _
      rw [← hid, idInst_succ, Machine.idStage_of_stall hst]
    · show exLog image (c + 1 + 1) = _
      rw [exLog_succ, hst, if_pos rfl, hlog]
    · rw [← h.waited_issue hself hs hi]
      exact stalls_succ (c + 1)

/-- HALT passes WB three cycles after it has left ID, and no HALT does before. -/
theorem halt_passes_wb (hreach : Funct.Reaches image k)
    (hh : (Funct.executed image k).isHalt = true) :
    BeforeHalt image (entry image k + 3) ∧
      (machineAt image (entry image k + 3)).pipelineInfo.wbInst.isHalt = true := by
  obtain ⟨hst, hid, hlog, _⟩ := halt_leaves hself hreach hh
  constructor
  · intro i hi
    have hwb : wbLog image (entry image k + 2) = Funct.visible image k := by
      rw [wbLog_succ, memLog_succ, hlog]
    cases i with
    | zero => rfl
    | succ i =>
      by_contra hhalt
      have hx : (machineAt image (i + 1)).pipelineInfo.wbInst.isHalt = true :=
        Bool.not_eq_false _ ▸ hhalt
      have hdec : Decoded (machineAt image (i + 1)).pipelineInfo.wbInst.toDecoding := by
        rw [wbInst_succ]
        exact (machineAt_inv i).memDecoded
      have hmem : (machineAt image (i + 1)).pipelineInfo.wbInst.toDecoding ∈
          wbLog image (entry image k + 2) := by
        simp only [wbLog, log, List.mem_flatMap, List.mem_range]
        refine ⟨i, by omega, ?_⟩
        simp [Decoding.logged, hdec.not_nop (Decoding.traps_of_halt hx)]
      rw [hwb] at hmem
      have hk := visible_halt hreach hh (hreach.mono (Nat.sub_le k 1)) hmem hx
      omega
  · have hex : (machineAt image (entry image k + 1)).pipelineInfo.exInst.toDecoding =
        (Funct.executed image k).toDecoding := by
      rw [← hid, exInst_succ, Machine.exStage_toDecoding hst]
    have hmem : (machineAt image (entry image k + 2)).pipelineInfo.memInst.toDecoding =
        (Funct.executed image k).toDecoding := by
      rw [← hex, memInst_succ]
    have hwb : (machineAt image (entry image k + 3)).pipelineInfo.wbInst.toDecoding =
        (Funct.executed image k).toDecoding := by
      rw [← hmem, wbInst_succ]
    rw [hwb, hh]

end

theorem cycleCount_eq (image : MemoryImage) (n : Nat) :
    (machineAt image n).cycleCount = BitVec.ofNat 64 n := by
  induction n with
  | zero => rfl
  | succ n ih =>
    rw [machineAt_succ]
    show (machineAt image n).cycleCount + 1#64 = _
    rw [ih]
    exact (BitVec.ofNat_add n 1).symm

/-- **Exact cycle count.** When instruction `k` of a run that does not modify itself is
HALT and nothing before it is illegal, `runCycles(0)` ends with HALT after exactly
`entry image k + 3` cycles. -/
theorem runCycles_cycleCount (image : MemoryImage) (hself : NoSelfModification image) (k : Nat)
    (hreach : Funct.Reaches image k) (hh : (Funct.executed image k).isHalt = true) :
    ∃ fuel dump m, runCycles fuel 0#64 (initSimulator image.store) = some (.halt, dump, m) ∧
      m = machineAt image (entry image k + 3) ∧
      m.cycleCount = BitVec.ofNat 64 (entry image k + 3) := by
  obtain ⟨hbefore, hwb⟩ := halt_passes_wb hself hreach hh
  obtain ⟨fuel, dump, hrun⟩ := runCycles_zero (fun i hi => hbefore i (Nat.lt_succ_of_le hi)) hwb
  exact ⟨fuel, dump, _, hrun, rfl, cycleCount_eq image _⟩

theorem runCycles_cycleCount_sample : entry sampleImage 2 = 7 ∧
    ∃ fuel dump m, runCycles fuel 0#64 (initSimulator sampleImage.store) = some (.halt, dump, m) ∧
      m.cycleCount = 10#64 := by
  have hentry : entry sampleImage 2 = 7 := by decide
  obtain ⟨fuel, dump, m, hrun, _, hcount⟩ := runCycles_cycleCount sampleImage
    sampleImage_noSelfModification 2 sampleImage_reaches sampleImage_halts
  rw [hentry] at hcount
  exact ⟨hentry, fuel, dump, m, hrun, hcount⟩

end CycleSim
