import CycleSim.Pipeline.Run

/-! The pipeline and the functional simulator, side by side.

`Sync image n k`: after `n` cycles exactly the first `k` instructions of the
functional run have entered ID, and IF holds or awaits instruction `k`. A cycle keeps
`k` or adds one to it (`Sync.idle`, `Sync.issue`), until a HALT or an illegal
instruction enters ID. -/
namespace CycleSim

namespace Funct

/-- The first `k` instructions, as a log shows them. -/
def visible (image : MemoryImage) (k : Nat) : List Decoding :=
  (trace image k).filter (fun x => !x.isNop)

variable {image : MemoryImage}

theorem visible_succ (k : Nat) :
    visible image (k + 1) = visible image k ++ (executed image k).logged := by
  rw [visible, trace_succ, List.filter_append]
  rfl

theorem replay_visible (k : Nat) :
    replay (visible image k) (initialArch image) = (stateAt image k).arch := by
  induction k with
  | zero => rfl
  | succ k ih =>
    rw [visible_succ, replay_append, ih, (executed_decoded k).replay_logged, arch_succ]

/-- A prefix of what the first `k` instructions show is what fewer of them show. -/
theorem prefix_visible {log : List Decoding} {k : Nat} (h : log <+: visible image k) :
    ∃ i ≤ k, log = visible image i := by
  induction k with
  | zero =>
    refine ⟨0, Nat.le_refl 0, ?_⟩
    exact List.prefix_nil.mp h
  | succ k ih =>
    rw [visible_succ] at h
    have hlogged : (executed image k).logged = [] ∨
        (executed image k).logged = [(executed image k).toDecoding] := by
      cases hn : (executed image k).isNop <;> simp [Decoding.logged, hn]
    rcases hlogged with hl | hl
    · rw [hl, List.append_nil] at h
      obtain ⟨i, hi, heq⟩ := ih h
      exact ⟨i, by omega, heq⟩
    · rw [hl, List.prefix_concat_iff] at h
      rcases h with heq | hp
      · refine ⟨k + 1, Nat.le_refl _, ?_⟩
        rw [visible_succ, hl, heq]
      · obtain ⟨i, hi, heq⟩ := ih hp
        exact ⟨i, by omega, heq⟩

end Funct

/-- After `n` cycles the first `k` instructions of the run have entered ID. -/
structure Sync (image : MemoryImage) (n k : Nat) : Prop where
  reaches : Funct.Reaches image k
  entered : enterLog image n = Funct.visible image k
  pc : (machineAt image n).fetchPC = (Funct.stateAt image k).pc
  fetched : (machineAt image n).pipelineInfo.ifInst.isNop = false →
    ∃ i ≤ k, (machineAt image n).pipelineInfo.ifInst =
      simFetch (Funct.stateAt image k).pc (Funct.stateAt image i).simulator.memory

namespace Machine

/-- What a cycle leaves in IF. -/
theorem Inv.ifStage_cases {m : Machine} (h : m.Inv) : m.ifStage.isNop = true ∨
    (m.ifStage = m.pipelineInfo.ifInst ∧ m.issue = none) ∨
    m.ifStage = simFetch m.ifStage.pc m.afterEX.memory := by
  cases hs : (m.stall || m.branchStall)
  · cases hf : m.flush
    · right
      right
      have hmem : m.idSimulator.memory = m.afterEX.memory := h.runCycle_memory
      rw [(ifStage_of_fetch hs hf).1, hmem]
      rfl
    · left
      rw [(ifStage_of_flush hf).1]
      rfl
  · right
    left
    refine ⟨(ifStage_of_stalled hs).1, ?_⟩
    rw [issue, hs]
    rfl

end Machine

section
variable {image : MemoryImage} {n k : Nat}

theorem sync_zero : Sync image 0 0 where
  reaches := fun i hi => absurd hi (Nat.not_lt_zero i)
  entered := rfl
  pc := rfl
  fetched := fun hn => nomatch hn

theorem Sync.arch (h : Sync image n k) :
    (machineAt image n).afterID = (Funct.stateAt image k).arch := by
  rw [afterID_eq_replay, h.entered, Funct.replay_visible]

/-- A log that ID is ahead of is a prefix of the run. -/
theorem Sync.log_arch (h : Sync image n k) {log : List Decoding}
    (hp : log <+: enterLog image n) :
    ∃ i ≤ k, log = Funct.visible image i ∧
      replay log (initialArch image) = (Funct.stateAt image i).arch := by
  rw [h.entered] at hp
  obtain ⟨i, hi, heq⟩ := Funct.prefix_visible hp
  exact ⟨i, hi, heq, by rw [heq, Funct.replay_visible]⟩

/-- What IF holds after the next cycle is the word of an instruction of the run, in a
memory of the run. -/
theorem Sync.fetched_succ (h : Sync image n k) {k' : Nat} (hk : k ≤ k')
    (hkeep : (machineAt image n).issue = none → k' = k)
    (hpc : (machineAt image (n + 1)).fetchPC = (Funct.stateAt image k').pc)
    (hn : (machineAt image (n + 1)).pipelineInfo.ifInst.isNop = false) :
    ∃ i ≤ k', (machineAt image (n + 1)).pipelineInfo.ifInst =
      simFetch (Funct.stateAt image k').pc (Funct.stateAt image i).simulator.memory := by
  have hpc' : (machineAt image n).ifStage.pc = (Funct.stateAt image k').pc := by
    rw [← hpc, Machine.fetchPC, hn, if_neg (by decide), ifInst_succ]
  rw [ifInst_succ] at hn ⊢
  rcases (machineAt_inv n).ifStage_cases with hnop | ⟨hheld, hnone⟩ | hfetch
  · rw [hn] at hnop
    cases hnop
  · rw [hheld] at hn ⊢
    rw [hkeep hnone]
    exact h.fetched hn
  · obtain ⟨i, hi, _, harch⟩ := h.log_arch (exLog_isPrefix n)
    refine ⟨i, hi.trans hk, ?_⟩
    rw [hfetch, hpc', afterEX_eq_replay, harch]
    rfl

/-- A cycle that issues nothing. -/
theorem Sync.idle (h : Sync image n k) (hi : (machineAt image n).issue = none) :
    Sync image (n + 1) k := by
  have hpc : (machineAt image (n + 1)).fetchPC = (Funct.stateAt image k).pc := by
    rw [machineAt_succ, (machineAt_inv n).fetchPC_runCycle, hi]
    exact h.pc
  refine ⟨h.reaches, ?_, hpc, h.fetched_succ (Nat.le_refl k) (fun _ => rfl) hpc⟩
  rw [enterLog_succ, hi, h.entered]
  exact List.append_nil _

variable (hself : NoSelfModification image)
include hself

/-- What IF holds is the next instruction of the run. -/
theorem Sync.decoded (h : Sync image n k)
    (hn : (machineAt image n).pipelineInfo.ifInst.isNop = false) :
    (simDecode (machineAt image n).pipelineInfo.ifInst).toDecoding =
      (Funct.executed image k).toDecoding := by
  obtain ⟨i, hik, hif⟩ := h.fetched hn
  rw [hif, Funct.fetch_eq hself h.reaches hik, Funct.executed_toDecoding]
  rfl

/-- What a cycle issues is the next instruction of the run. -/
theorem Sync.issued (h : Sync image n k) {d : Instruction}
    (hi : (machineAt image n).issue = some d) :
    d.toDecoding = (Funct.executed image k).toDecoding := by
  obtain ⟨_, hn, _⟩ := Machine.issue_eq_some hi
  rw [(Machine.issues_of_eq hi).decoding, h.decoded hself hn]

theorem Sync.idInst_issued (h : Sync image n k) {d : Instruction}
    (hi : (machineAt image n).issue = some d) :
    (machineAt image (n + 1)).pipelineInfo.idInst.toDecoding =
      (Funct.executed image k).toDecoding := by
  rw [idInst_succ, (Machine.issues_of_eq hi).idStage, h.issued hself hi]

theorem Sync.enter_succ (h : Sync image n k) {d : Instruction}
    (hi : (machineAt image n).issue = some d) :
    enterLog image (n + 1) = Funct.visible image (k + 1) := by
  rw [enterLog_succ, hi, Funct.visible_succ, h.entered, ← h.issued hself hi]

/-- A cycle that issues an instruction after which the run goes on. -/
theorem Sync.issue (h : Sync image n k) {d : Instruction}
    (hi : (machineAt image n).issue = some d) (ht : (Funct.executed image k).traps = false) :
    Sync image (n + 1) (k + 1) := by
  have hd := h.issued hself hi
  have hpc : (machineAt image (n + 1)).fetchPC = (Funct.stateAt image (k + 1)).pc := by
    have hnext := (machineAt_inv n).accepted_nextPC (Machine.issues_of_eq hi).accepts (by
      rw [(Machine.issues_of_eq hi).idStage, hd, ht])
    rw [(Machine.issues_of_eq hi).idStage] at hnext
    rw [machineAt_succ, (machineAt_inv n).fetchPC_runCycle, hi, Funct.pc_succ]
    show d.nextPC = _
    rw [hnext, hd, h.arch]
    rfl
  refine ⟨h.reaches.succ ht, h.enter_succ hself hi, hpc, ?_⟩
  exact h.fetched_succ (Nat.le_succ k) (fun hnone => by rw [hi] at hnone; cases hnone) hpc

/-- **Following the run.** What holds at the start and is kept by the cycles that issue
nothing and by those that issue the next instruction of the run holds until a HALT or an
illegal instruction is issued. -/
theorem Sync.run {P : Nat → Nat → Prop} (hzero : P 0 0)
    (hidle : ∀ n k, Sync image n k → P n k → (machineAt image n).issue = none → P (n + 1) k)
    (hissue : ∀ n k d, Sync image n k → P n k → (machineAt image n).issue = some d →
      (Funct.executed image k).traps = false → P (n + 1) (k + 1)) (n : Nat) :
    (∃ k, Sync image n k ∧ P n k) ∨ ∃ c < n, ∃ k d, Sync image c k ∧ P c k ∧
      (machineAt image c).issue = some d ∧ (Funct.executed image k).traps = true := by
  induction n with
  | zero => exact .inl ⟨0, sync_zero, hzero⟩
  | succ n ih =>
    rcases ih with ⟨k, h, hP⟩ | ⟨c, hc, hrest⟩
    · cases hi : (machineAt image n).issue with
      | none => exact .inl ⟨k, h.idle hi, hidle n k h hP hi⟩
      | some d =>
        cases ht : (Funct.executed image k).traps
        · exact .inl ⟨k + 1, h.issue hself hi ht, hissue n k d h hP hi ht⟩
        · exact .inr ⟨n, Nat.lt_succ_self n, k, d, h, hP, hi, ht⟩
    · exact .inr ⟨c, Nat.lt_succ_of_lt hc, hrest⟩

/-- The run is followed up to the first HALT or illegal instruction. -/
theorem sync_or_trapped (n : Nat) : (∃ k, Sync image n k) ∨
    ∃ c < n, ∃ k d, Sync image c k ∧ (machineAt image c).issue = some d ∧
      (Funct.executed image k).traps = true := by
  rcases Sync.run hself (P := fun _ _ => True) trivial (fun _ _ _ _ _ => trivial)
    (fun _ _ _ _ _ _ _ => trivial) n with ⟨k, h, _⟩ | ⟨c, hc, k, d, h, _, hi, ht⟩
  · exact .inl ⟨k, h⟩
  · exact .inr ⟨c, hc, k, d, h, hi, ht⟩

end

end CycleSim
