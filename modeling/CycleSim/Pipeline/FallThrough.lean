import CycleSim.Pipeline.Drain
import CycleSim.Pipeline.Exception
import CycleSim.Pipeline.Stalls

/-! What follows an illegal instruction.

An illegal instruction does nothing itself and what is older completes (`Decoding.Harmless`,
`wbLog_of_accepts`). Behind it the fetch stream is flushed and goes on at address 0, except
behind a word with the opcode of a branch: its next PC is resolved once more without a look
at `isLegal`, and the instruction after it is the next to enter ID
(`neverFallsThrough_iff`). -/
namespace CycleSim

/-! ### The illegal instruction -/

/-- A record with this decoding writes nothing in MEM and WB and feeds no forwarding path. -/
structure Decoding.Harmless (d : Decoding) : Prop where
  memory : ∀ (x : Instruction) (s : Simulator), x.toDecoding = d → s.simMEM x = (x, s)
  registers : ∀ (x : Instruction) (s : Simulator), x.toDecoding = d → s.simWB x = (x, s)
  operands : ∀ (x : Instruction) (r : BitVec 64), x.toDecoding = d → hazard x r = false
  store : ∀ x y : Instruction, x.toDecoding = d → Machine.storeForward y x = y

theorem Decoding.harmless {d : Decoding} (h : d.flags = {}) : d.Harmless := by
  have hflags := h
  simp only [Decoding.flags, Flags.mk.injEq] at hflags
  constructor
  · intro x s hx
    simp [Simulator.simMEM, hx, hflags]
  · intro x s hx
    simp [Simulator.simWB, hx, hflags]
  · intro x r hx
    exact hazard_of_idle (hx ▸ h) r
  · intro x y hx
    simp [Machine.storeForward, hx, hflags]

/-! ### The instructions before it -/

section
variable {image : MemoryImage} {n : Nat}

/-- Three cycles after ID accepts an instruction everything older has been through WB. -/
theorem wbLog_of_accepts (ha : (machineAt image n).Accepts) :
    wbLog image (n + 3) = enterLog image n := by
  rw [wbLog_succ, memLog_succ, exLog_succ, if_neg (by simp [ha.stall])]

/-! ### The instruction after it -/

/-- The next instruction to enter ID after cycle `n` does so in cycle `j`; inserted `nop`s do
not count. -/
structure NextIssue (image : MemoryImage) (n j : Nat) (d : Instruction) : Prop where
  after : n < j
  none_between : ∀ i, n < i → i < j → (machineAt image i).issue = none
  issue : (machineAt image j).issue = some d

theorem fetchPC_of_idle (j : Nat)
    (h : ∀ i, n < i → i < n + 1 + j → (machineAt image i).issue = none) :
    (machineAt image (n + 1 + j)).fetchPC = (machineAt image (n + 1)).fetchPC := by
  induction j with
  | zero => rfl
  | succ j ih =>
    have hnone := h (n + 1 + j) (by omega) (by omega)
    rw [← Nat.add_assoc, machineAt_succ, (machineAt_inv _).fetchPC_runCycle, hnone]
    exact ih (fun i hi hlt => h i hi (by omega))

/-- It is the one cycle `n` has left fetch at. -/
theorem NextIssue.pc {j : Nat} {d : Instruction} (h : NextIssue image n j d) :
    d.pc = (machineAt image (n + 1)).fetchPC := by
  obtain ⟨k, rfl⟩ := Nat.exists_eq_add_of_le (Nat.succ_le_of_lt h.after)
  rw [(Machine.issues_of_eq h.issue).pc]
  exact fetchPC_of_idle k h.none_between

namespace Machine

theorem issue_of_not_stalled {m : Machine} (hn : m.pipelineInfo.ifInst.isNop = false)
    (hs : m.stall = false) (hb : m.branchStall = false) : ∃ d, m.issue = some d := by
  simp [Machine.issue, hn, hs, hb]

/-- Nothing is held in IF when no result is on its way in ID and EX. -/
theorem Inv.issue_of_free {m : Machine} (h : m.Inv) (hn : m.pipelineInfo.ifInst.isNop = false)
    (hid : ∀ r, hazard m.pipelineInfo.idInst r = false)
    (hex : ∀ r, hazard m.pipelineInfo.exInst r = false) : ∃ d, m.issue = some d := by
  apply issue_of_not_stalled hn
  · rw [Bool.eq_false_iff, ne_eq, h.stall_iff]
    intro ⟨r, _, hz, _⟩
    rw [hex] at hz
    cases hz
  · rw [Bool.eq_false_iff, ne_eq, m.branchStall_iff]
    intro ⟨_, _, r, _, hz⟩
    cases hz with
    | inl hz =>
      rw [hid] at hz
      cases hz
    | inr hz =>
      rw [hex] at hz
      cases hz.1

/-- Behind an instruction that does nothing, ID is held and IF is held at most once in all. -/
theorem Inv.issue_soon {m : Machine} (h : m.Inv) (hn : m.pipelineInfo.ifInst.isNop = false)
    (hidle : m.pipelineInfo.idInst.flags = {}) :
    (∃ d, m.issue = some d) ∨ m.issue = none ∧ ∃ d, m.runCycle.issue = some d := by
  have hbubble := hazard_of_idle (nop_flags .bubble)
  have hheld : (m.stall || m.branchStall) = true → m.runCycle.pipelineInfo.ifInst.isNop = false := by
    intro hst
    show m.ifStage.isNop = false
    rw [(ifStage_of_stalled hst).1, hn]
  cases hs : m.stall
  · cases hb : m.branchStall
    · exact .inl (issue_of_not_stalled hn hs hb)
    · -- IF is held: the idle instruction moves to EX and a bubble enters ID
      have hid : ∀ r, hazard m.idStage r = false := by
        rw [idStage_of_branchStall hs hb]
        exact hbubble
      have hex : ∀ r, hazard m.exStage r = false := by
        refine hazard_of_idle ?_
        rw [exStage_toDecoding hs]
        exact hidle
      exact .inr ⟨by simp [Machine.issue, hb],
        h.runCycle.issue_of_free (hheld (by rw [hb, Bool.or_true])) hid hex⟩
  · -- ID is held: the idle instruction stays and a bubble goes to EX
    have hid : ∀ r, hazard m.idStage r = false := by
      rw [idStage_of_stall hs]
      exact hazard_of_idle hidle
    have hex : ∀ r, hazard m.exStage r = false := by
      rw [exStage_of_stall hs]
      exact hbubble
    exact .inr ⟨by simp [Machine.issue, hs],
      h.runCycle.issue_of_free (hheld (by rw [hs, Bool.true_or])) hid hex⟩

/-- No image holds the opcode of a branch in the last word of the address space. -/
theorem IllegalEnters.pc_of_branch {m : Machine} (h : m.Inv) (hd : Drained m)
    (hi : m.IllegalEnters) (hb : (simDecode m.pipelineInfo.ifInst).opcode = opBranch) :
    m.pipelineInfo.ifInst.pc + 4#64 ≠ 0#64 := by
  intro hpc
  have hop : (simDecode m.pipelineInfo.ifInst).opcode =
      extractBits m.pipelineInfo.ifInst.instruction 6 0 :=
    congrArg (fun i : Instruction => i.opcode) (simDecode_fields _)
  rcases hd.word with hn | ⟨memory, himage, hw⟩
  · rw [hi.isNop h] at hn
    cases hn
  · rw [hw, simFetch_last himage hpc, ← hw] at hop
    rw [hop] at hb
    exact absurd hb (by decide)

end Machine

/-- The fetch stream is flushed behind the illegal instruction that enters ID in cycle `n`,
which does nothing, and what is older completes. -/
structure NeverFallsThrough (image : MemoryImage) (n : Nat) : Prop where
  flushed : (machineAt image n).pipelineInfo.ifInst.pc + 4#64 ≠ 0#64 → ∀ j d,
    NextIssue image n j d → d.pc ≠ (machineAt image n).pipelineInfo.ifInst.pc + 4#64
  harmless : (machineAt image (n + 1)).pipelineInfo.idInst.toDecoding.Harmless
  older : wbLog image (n + 3) = enterLog image n

theorem idInst_of_illegal (hi : (machineAt image n).IllegalEnters) :
    (machineAt image (n + 1)).pipelineInfo.idInst.flags = {} := by
  rw [idInst_succ]
  exact (machineAt_inv n).idStage_decoded.flags_of_traps hi.traps

/-- Behind the opcode of a branch the successor is the next to enter ID. -/
theorem nextIssue_of_branch (hi : (machineAt image n).IllegalEnters)
    (hb : (simDecode (machineAt image n).pipelineInfo.ifInst).opcode = opBranch) :
    ∃ j d, NextIssue image n j d := by
  have h : (machineAt image n).Inv := machineAt_inv n
  have hf : (machineAt image n).flush = false := by
    rw [hi.accepts.flush_eq, hi.idStage_nextPC h, if_pos hb, bne_self_eq_false]
  have hn : (machineAt image (n + 1)).pipelineInfo.ifInst.isNop = false := by
    rw [ifInst_succ, (Machine.ifStage_of_fetch (by
      rw [hi.accepts.stall, hi.accepts.branchStall]
      rfl) hf).1]
    rfl
  rcases (machineAt_inv (n + 1)).issue_soon hn (idInst_of_illegal hi) with ⟨d, hd⟩ | ⟨hnone, d, hd⟩
  · exact ⟨n + 1, d, by omega, fun i hi hlt => by omega, hd⟩
  · refine ⟨n + 2, d, by omega, fun i hi hlt => ?_, (machineAt_succ (n + 1)) ▸ hd⟩
    obtain rfl : i = n + 1 := by omega
    exact hnone

theorem neverFallsThrough_iff_opcode (hi : (machineAt image n).IllegalEnters) :
    NeverFallsThrough image n ↔
      (simDecode (machineAt image n).pipelineInfo.ifInst).opcode ≠ opBranch := by
  have h : (machineAt image n).Inv := machineAt_inv n
  have hfetch : (machineAt image (n + 1)).fetchPC = _ := (machineAt_succ n) ▸ h.fetchPC_of_illegal hi
  constructor
  · intro hnever hb
    obtain ⟨j, d, hnext⟩ := nextIssue_of_branch hi hb
    refine hnever.flushed (hi.pc_of_branch h (machineAt_drained image n) hb) j d hnext ?_
    rw [hnext.pc, hfetch, if_pos hb]
  · intro hb
    refine ⟨fun hpc j d hnext heq => ?_, Decoding.harmless (idInst_of_illegal hi),
      wbLog_of_accepts hi.accepts⟩
    rw [hnext.pc, hfetch, if_neg hb] at heq
    exact hpc heq.symm

end

/-- **Illegal instructions never fall through.** So it is in a run exactly when no illegal word
that enters ID has the opcode of a branch. -/
theorem neverFallsThrough_iff (image : MemoryImage) (k : Nat) :
    (∀ n < k, (machineAt image n).IllegalEnters → NeverFallsThrough image n) ↔
      ∀ n < k, (machineAt image n).IllegalEnters →
        (simDecode (machineAt image n).pipelineInfo.ifInst).opcode ≠ opBranch :=
  forall_congr' (fun _ => imp_congr_right (fun _ =>
    imp_congr_right (fun hi => neverFallsThrough_iff_opcode hi)))

/-- The opcode of a branch with a `funct3` of no branch, then `addi x1, x0, 1`. -/
def illegalBranchImage : MemoryImage where
  bytes := [0x63#8, 0x20#8, 0x00#8, 0x00#8, 0x93#8, 0x00#8, 0x10#8, 0x00#8] ++
    List.replicate 0xFFF8 0#8
  length_eq := by
    rw [List.length_append, List.length_replicate]
    rfl

/-- The `addi` at address 4 enters ID right behind the illegal word at address 0. -/
theorem illegalBranch_fallsThrough : ¬∀ (image : MemoryImage) (n : Nat),
    (machineAt image n).IllegalEnters → NeverFallsThrough image n := by
  intro hall
  have henters : (machineAt illegalBranchImage 1).IllegalEnters :=
    ⟨⟨by decide, by decide⟩, by decide⟩
  have hissue : (machineAt illegalBranchImage 2).issue =
      some (machineAt illegalBranchImage 2).idStage := by decide
  have hnext : NextIssue illegalBranchImage 1 2 (machineAt illegalBranchImage 2).idStage :=
    ⟨by decide, fun i hi hlt => by omega, hissue⟩
  exact (hall illegalBranchImage 1 henters).flushed (by decide) 2 _ hnext (by decide)

end CycleSim
