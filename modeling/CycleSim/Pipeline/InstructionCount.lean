import CycleSim.Pipeline.CycleCount

/-! What the two simulators count as dynamic instructions.

`simID` counts its calls. The pipeline calls it in every cycle that does not stall: on
the bubbles of IF, again on a branch held in IF, and on what follows HALT. So at HALT it
has counted the cycles less those ID was held by a load. -/
namespace CycleSim

section
variable (image : MemoryImage)

/-- The taken control transfers among the first `k` instructions. -/
def takenCount (k : Nat) : Nat := ∑ i ∈ Finset.range k, taken image i

/-- The cycles the branches and `jalr`s among the first `k` instructions wait in IF. -/
def branchWaits (k : Nat) : Nat :=
  ∑ i ∈ Finset.range k, if isControl (Funct.executed image i) then wait image i else 0

end

namespace Machine

theorem runCycle_din (m : Machine) : m.runCycle.simulator.din =
    if m.stall then m.simulator.din else m.simulator.din + 1#64 := by
  have hmem : m.memStage.2.din = m.simulator.din := by
    simp only [memStage, simMEM_eq, wbStage_eq]
  show m.idSimulator.din = _
  unfold idSimulator newIDInst
  rw [simID_simulator, ← hmem]
  split <;> rfl

/-- An empty EX stalls nothing. -/
theorem Inv.stall_of_idle {m : Machine} (h : m.Inv) (hex : m.pipelineInfo.exInst.flags = {}) :
    m.stall = false := by
  have hr : m.pipelineInfo.exInst.readsMem = false := congrArg Flags.readsMem hex
  rw [h.stall_eq]
  simp [loadUseStall, hr]

end Machine

section
variable {image : MemoryImage}

theorem din_eq (n : Nat) :
    (machineAt image n).simulator.din + BitVec.ofNat 64 (stalls image n) = BitVec.ofNat 64 n := by
  induction n with
  | zero => rfl
  | succ n ih =>
    rw [machineAt_succ, Machine.runCycle_din, stalls_succ, BitVec.ofNat_add, BitVec.ofNat_add, ← ih]
    cases (machineAt image n).stall
    · simp only [Bool.false_eq_true, if_false, Bool.toNat_false, BitVec.add_zero]
      ac_rfl
    · simp only [if_true, Bool.toNat_true]
      ac_rfl

theorem Funct.din_eq (k : Nat) : (Funct.stateAt image k).simulator.din = BitVec.ofNat 64 k := by
  induction k with
  | zero => rfl
  | succ k ih =>
    rw [Funct.stateAt_succ, Funct.step_din, ih]
    exact (BitVec.ofNat_add k 1).symm

/-- Where the cycles before HALT leaves ID go. -/
theorem entry_eq_sum (k : Nat) : entry image k =
    2 + k + takenCount image k + (loadWaits image (k + 1) + branchWaits image (k + 1)) := by
  have hsplit : ∑ i ∈ Finset.range (k + 1), wait image i =
      loadWaits image (k + 1) + branchWaits image (k + 1) := by
    rw [loadWaits, branchWaits, ← Finset.sum_add_distrib]
    refine Finset.sum_congr rfl (fun i _ => ?_)
    split <;> simp
  have hready : available image k = 2 + k + takenCount image k +
      ∑ i ∈ Finset.range k, wait image i := Schedule.ready_eq_sum k
  have hle : available image k ≤ entry image k := available_le_entry k
  have hwait : wait image k = entry image k - available image k := rfl
  rw [Finset.sum_range_succ] at hsplit
  omega

/-- After HALT has left ID nothing stalls any more. -/
theorem stalls_at_halt (hself : NoSelfModification image) {k : Nat}
    (hreach : Funct.Reaches image k) (hh : (Funct.executed image k).isHalt = true) :
    stalls image (entry image k + 3) = loadWaits image (k + 1) := by
  obtain ⟨hst, hid, _, hstalls⟩ := halt_leaves hself hreach hh
  have hex : (machineAt image (entry image k + 1)).pipelineInfo.exInst.toDecoding =
      (Funct.executed image k).toDecoding := by
    rw [← hid, exInst_succ, Machine.exStage_toDecoding hst]
  have hst1 : (machineAt image (entry image k + 1)).stall = false := by
    refine (machineAt_inv _).stall_of_idle ?_
    rw [hex]
    exact (Funct.executed_decoded k).idle (.inr (.inl hh))
  have hst2 : (machineAt image (entry image k + 2)).stall = false := by
    refine (machineAt_inv _).stall_of_idle ?_
    have hnop := (machineAt_drained image (entry image k + 1)).ex (by rw [hex, hh])
    rw [exInst_succ, Machine.exStage_toDecoding hst1]
    exact (machineAt_inv _).idDecoded.idle (.inr (.inr hnop))
  rw [stalls_succ, stalls_succ, stalls_succ, hst, hst1, hst2, hstalls]
  rfl

/-- The pipeline counts the instructions, the taken transfers, the waits of the branches and
the four cycles around the program. -/
theorem din_at_halt (hself : NoSelfModification image) {k : Nat}
    (hreach : Funct.Reaches image k) (hh : (Funct.executed image k).isHalt = true) :
    (machineAt image (entry image k + 3)).simulator.din =
      BitVec.ofNat 64 (k + 1 + (4 + takenCount image k + branchWaits image k)) := by
  have hcontrol : isControl (Funct.executed image k) = false :=
    (Funct.executed_decoded k).not_control (.inl hh)
  have hbranch : branchWaits image (k + 1) = branchWaits image k := by
    rw [branchWaits, Finset.sum_range_succ, hcontrol]
    rfl
  have hdin : (machineAt image (entry image k + 3)).simulator.din +
      BitVec.ofNat 64 (stalls image (entry image k + 3)) = BitVec.ofNat 64 (entry image k + 3) :=
    din_eq _
  have hsum : entry image k + 3 = k + 1 + (4 + takenCount image k + branchWaits image k) +
      loadWaits image (k + 1) := by
    have hentry : entry image k = _ := entry_eq_sum k
    rw [hbranch] at hentry
    omega
  have hcycles := (congrArg (BitVec.ofNat 64) hsum).trans (BitVec.ofNat_add _ _)
  rw [stalls_at_halt hself hreach hh, hcycles] at hdin
  exact (BitVec.add_left_inj _).mp hdin

end

/-- **The two counts.** When instruction `k` of a run that does not modify itself is HALT,
both `runTillHalt` end with HALT, and the counts agree exactly when 2^64 divides what the
pipeline counts beside the instructions. -/
theorem getDin_agrees_iff (image : MemoryImage) (hself : NoSelfModification image) (k : Nat)
    (hreach : Funct.Reaches image k) (hh : (Funct.executed image k).isHalt = true) :
    (∃ dumps m s, Loop.Yields runTillHaltBody ([], initSimulator image.store) (.halt, dumps, m) ∧
      Loop.Yields Funct.runTillHaltBody (Funct.initSimulator image.store) (.halt, s)) ∧
    ∀ dumps m s, Loop.Yields runTillHaltBody ([], initSimulator image.store) (.halt, dumps, m) →
      Loop.Yields Funct.runTillHaltBody (Funct.initSimulator image.store) (.halt, s) →
      (m.simulator.din = s.simulator.din ↔ 2 ^ 64 ∣ 4 + takenCount image k + branchWaits image k) := by
  obtain ⟨hbefore, hwb⟩ := halt_passes_wb hself hreach hh
  obtain ⟨dumps, hpipe⟩ := runTillHalt_yields (fun i hi => hbefore i (Nat.lt_succ_of_le hi)) hwb
  have hfunct := Funct.runTillHalt_yields hreach hh
  refine ⟨⟨_, _, _, hpipe, hfunct⟩, fun dumps' m s hm hs => ?_⟩
  obtain rfl : m = machineAt image (entry image k + 3) :=
    congrArg (fun r => r.2.2) (hm.unique hpipe)
  obtain rfl : s = Funct.stateAt image (k + 1) := congrArg Prod.snd (hs.unique hfunct)
  rw [din_at_halt hself hreach hh, Funct.din_eq, BitVec.ofNat_add (k + 1)]
  rw [BitVec.add_right_eq_self, ← BitVec.toNat_inj, BitVec.toNat_ofNat]
  exact Nat.dvd_iff_mod_eq_zero.symm

theorem getDin_agrees_iff_sample : ∃ dumps m s,
    Loop.Yields runTillHaltBody ([], initSimulator sampleImage.store) (.halt, dumps, m) ∧
    Loop.Yields Funct.runTillHaltBody (Funct.initSimulator sampleImage.store) (.halt, s) ∧
    m.simulator.din ≠ s.simulator.din := by
  obtain ⟨⟨dumps, m, s, hm, hs⟩, hiff⟩ := getDin_agrees_iff sampleImage
    sampleImage_noSelfModification 2 sampleImage_reaches sampleImage_halts
  refine ⟨dumps, m, s, hm, hs, fun heq => ?_⟩
  exact absurd ((hiff dumps m s hm hs).mp heq) (by decide)

/-- The counts differ: 10 and 3 on the small program. -/
theorem getDin_disagrees : ¬∀ (image : MemoryImage) (k : Nat), NoSelfModification image →
    Funct.Reaches image k → (Funct.executed image k).isHalt = true → ∀ dumps m s,
    Loop.Yields runTillHaltBody ([], initSimulator image.store) (.halt, dumps, m) →
    Loop.Yields Funct.runTillHaltBody (Funct.initSimulator image.store) (.halt, s) →
    m.simulator.din = s.simulator.din := by
  intro hall
  have hpipe : (Loop.run runTillHaltBody 10 ([], initSimulator sampleImage.store)).map
      (fun r => (r.1, r.2.2.simulator.din)) = some (.halt, 10#64) := by decide
  have hfunct : (Loop.run Funct.runTillHaltBody 3 (Funct.initSimulator sampleImage.store)).map
      (fun r => (r.1, r.2.simulator.din)) = some (.halt, 3#64) := by decide
  obtain ⟨⟨_, dumps, m⟩, hm, hmd⟩ := Option.map_eq_some_iff.mp hpipe
  obtain ⟨⟨_, s⟩, hs, hsd⟩ := Option.map_eq_some_iff.mp hfunct
  simp only [Prod.mk.injEq] at hmd hsd
  obtain ⟨rfl, hmd⟩ := hmd
  obtain ⟨rfl, hsd⟩ := hsd
  have heq := hall sampleImage 2 sampleImage_noSelfModification sampleImage_reaches
    sampleImage_halts dumps m s ⟨10, hm⟩ ⟨3, hs⟩
  rw [hmd, hsd] at heq
  exact absurd heq (by decide)

end CycleSim
