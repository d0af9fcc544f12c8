import CycleSim.Pipeline.Progress

/-! The pipeline past HALT, and programs that rewrite themselves.

HALT and an illegal instruction have the next PC 0, and neither simulator keeps a flag that
it has stopped: asked for more, each starts the program again on the registers and the memory
it has. `Follows` is `Sync` without an end to the run. A word is fetched when all but the last
two instructions before it have been through MEM, so a program may store to its own words when
two instructions at least stand between (`StoresSettle`). -/
namespace CycleSim

/-- A store writes no byte of the two instructions behind it. -/
def StoresSettle (image : MemoryImage) : Prop :=
  ∀ i k, i < k → k ≤ i + 2 → (Funct.executed image i).writesMem = true → ∀ b,
    Touches (Funct.executed image i).memAddress
      (accessSize (Funct.executed image i).funct3).toNat b →
    ¬Touches (Funct.executed image k).pc 4 b

/-- Illegal instructions do not look like a branch, whose next PC ID resolves all the same. -/
def NoIllegalBranch (image : MemoryImage) : Prop :=
  ∀ k, (Funct.executed image k).isLegal = false → isControl (Funct.executed image k) = false

/-- After `n` cycles the first `k` instructions have entered ID, and at most the last of them
has not reached EX. -/
structure Follows (image : MemoryImage) (n k : Nat) : Prop where
  entered : enterLog image n = Funct.visible image k
  left : ∃ i ≤ k, k ≤ i + 1 ∧ exLog image n = Funct.visible image i
  pc : (machineAt image n).fetchPC = (Funct.stateAt image k).pc
  fetched : (machineAt image n).pipelineInfo.ifInst.isNop = false →
    ∃ i ≤ k, k ≤ i + 2 ∧ (machineAt image n).pipelineInfo.ifInst =
      simFetch (Funct.stateAt image k).pc (Funct.stateAt image i).simulator.memory

section
variable {image : MemoryImage}

/-- What is fetched behind all but two instructions is fetched behind all of them. -/
theorem fetch_settled (hstores : StoresSettle image) {i k : Nat} (hik : i ≤ k)
    (hki : k ≤ i + 2) :
    simFetch (Funct.stateAt image k).pc (Funct.stateAt image i).simulator.memory =
      simFetch (Funct.stateAt image k).pc (Funct.stateAt image k).simulator.memory := by
  revert hki
  induction hik using Nat.decreasingInduction with
  | self => exact fun _ => rfl
  | of_succ i hlt ih =>
    intro hki
    rw [← ih (by omega), ← Funct.executed_pc]
    exact (Funct.fetch_succ_of_apart (hstores i k hlt hki)).symm

theorem not_control_of_traps (hill : NoIllegalBranch image) {k : Nat}
    (ht : (Funct.executed image k).traps = true) : isControl (Funct.executed image k) = false := by
  cases hl : (Funct.executed image k).isLegal
  · exact hill k hl
  · refine (Funct.executed_decoded k).not_control (.inl ?_)
    simpa [Decoding.traps, hl] using ht

end

/-- Where fetch goes on behind an issued instruction. -/
theorem Machine.Inv.fetchPC_issue {m : Machine} (h : m.Inv) {d : Instruction}
    (hi : m.issue = some d) (hc : d.traps = true → isControl d = false) :
    m.runCycle.fetchPC = d.successor m.afterID.regs := by
  have ha := (issues_of_eq hi).accepts
  have hid := (issues_of_eq hi).idStage
  rw [h.fetchPC_runCycle, hi]
  show d.nextPC = _
  cases ht : d.traps
  · have hnext := h.accepted_nextPC ha (by rw [hid, ht])
    rwa [hid] at hnext
  · have hnext := h.accepted_nextPC_of_traps ha (by rw [hid, ht]) (by rw [hid, hc ht])
    rw [hid] at hnext
    rw [hnext, Decoding.successor, ht, if_pos rfl]

/-! ### One cycle -/

section
variable {image : MemoryImage} {n k : Nat}

theorem follows_zero : Follows image 0 0 where
  entered := rfl
  left := ⟨0, Nat.le_refl 0, Nat.zero_le 1, rfl⟩
  pc := rfl
  fetched := fun hn => nomatch hn

theorem Follows.arch (h : Follows image n k) :
    (machineAt image n).afterID = (Funct.stateAt image k).arch := by
  rw [afterID_eq_replay, h.entered, Funct.replay_visible]

/-- What IF holds after the next cycle was fetched behind all but two instructions at most. -/
theorem Follows.fetched_succ (h : Follows image n k) {k' : Nat} (hk : k ≤ k') (hk' : k' ≤ k + 1)
    (hkeep : (machineAt image n).issue = none → k' = k)
    (hpc : (machineAt image (n + 1)).fetchPC = (Funct.stateAt image k').pc)
    (hn : (machineAt image (n + 1)).pipelineInfo.ifInst.isNop = false) :
    ∃ i ≤ k', k' ≤ i + 2 ∧ (machineAt image (n + 1)).pipelineInfo.ifInst =
      simFetch (Funct.stateAt image k').pc (Funct.stateAt image i).simulator.memory := by
  have hpc' : (machineAt image n).ifStage.pc = (Funct.stateAt image k').pc := by
    rw [← hpc, Machine.fetchPC, hn, if_neg (by decide), ifInst_succ]
  rw [ifInst_succ] at hn ⊢
  rcases (machineAt_inv n).ifStage_cases with hnop | ⟨hheld, hnone⟩ | hfetch
  · rw [hn] at hnop
    cases hnop
  · rw [hheld] at hn ⊢
    rw [hkeep hnone]
    exact h.fetched hn
  · obtain ⟨i, hi, hki, hleft⟩ := h.left
    refine ⟨i, hi.trans hk, by omega, ?_⟩
    rw [hfetch, hpc', afterEX_eq_replay, hleft, Funct.replay_visible]
    rfl

theorem Follows.idle (h : Follows image n k) (hi : (machineAt image n).issue = none) :
    Follows image (n + 1) k := by
  have hpc : (machineAt image (n + 1)).fetchPC = (Funct.stateAt image k).pc := by
    rw [machineAt_succ, (machineAt_inv n).fetchPC_runCycle, hi]
    exact h.pc
  refine ⟨?_, ?_, hpc, h.fetched_succ (Nat.le_refl k) (Nat.le_succ k) (fun _ => rfl) hpc⟩
  · rw [enterLog_succ, hi, h.entered]
    exact List.append_nil _
  · rw [exLog_succ]
    split
    · exact h.left
    · exact ⟨k, Nat.le_refl k, Nat.le_succ k, h.entered⟩

/-- What IF holds is the next instruction, as the run finds it when it comes there. -/
theorem Follows.issued (hstores : StoresSettle image) (h : Follows image n k) {d : Instruction}
    (hi : (machineAt image n).issue = some d) :
    d.toDecoding = (Funct.executed image k).toDecoding := by
  obtain ⟨_, hn, _⟩ := Machine.issue_eq_some hi
  obtain ⟨i, hik, hki, hif⟩ := h.fetched hn
  rw [(Machine.issues_of_eq hi).decoding, hif, fetch_settled hstores hik hki,
    Funct.executed_toDecoding]
  rfl

theorem Follows.issue (hstores : StoresSettle image) (hill : NoIllegalBranch image)
    (h : Follows image n k) {d : Instruction} (hi : (machineAt image n).issue = some d) :
    Follows image (n + 1) (k + 1) := by
  have hd := h.issued hstores hi
  have hpc : (machineAt image (n + 1)).fetchPC = (Funct.stateAt image (k + 1)).pc := by
    have hc : d.traps = true → isControl d = false := by
      rw [hd, isControl_congr hd]
      exact not_control_of_traps hill
    rw [machineAt_succ, (machineAt_inv n).fetchPC_issue hi hc, hd, h.arch, Funct.pc_succ]
    rfl
  have hs : (machineAt image n).stall = false := (Machine.issues_of_eq hi).accepts.stall
  refine ⟨?_, ?_, hpc, ?_⟩
  · rw [enterLog_succ, hi, Funct.visible_succ, h.entered, ← hd]
  · refine ⟨k, Nat.le_succ k, Nat.le_refl _, ?_⟩
    rw [exLog_succ, hs, if_neg (by decide), h.entered]
  · exact h.fetched_succ (Nat.le_succ k) (Nat.le_refl _)
      (fun hnone => by rw [hi] at hnone; cases hnone) hpc

end

/-! ### The run -/

section
variable {image : MemoryImage} (hstores : StoresSettle image) (hill : NoIllegalBranch image)
include hstores hill

theorem follows (n : Nat) : ∃ k, Follows image n k := by
  induction n with
  | zero => exact ⟨0, follows_zero⟩
  | succ n ih =>
    obtain ⟨k, h⟩ := ih
    cases hi : (machineAt image n).issue with
    | none => exact ⟨k, h.idle hi⟩
    | some d => exact ⟨k + 1, h.issue hstores hill hi⟩

theorem Follows.next {n k : Nat} (h : Follows image n k) (i : Nat)
    (hi : ∃ d, (machineAt image (n + i)).issue = some d) :
    ∃ n', n' ≤ n + i + 1 ∧ Follows image n' (k + 1) := by
  induction i generalizing n with
  | zero =>
    obtain ⟨d, hd⟩ := hi
    exact ⟨n + 1, Nat.le_refl _, h.issue hstores hill hd⟩
  | succ i ih =>
    cases hnow : (machineAt image n).issue with
    | none =>
      rw [show n + (i + 1) = n + 1 + i by omega] at hi
      obtain ⟨n', hle, h'⟩ := ih (h.idle hnow) hi
      exact ⟨n', by omega, h'⟩
    | some d => exact ⟨n + 1, by omega, h.issue hstores hill hnow⟩

/-- Every instruction of the functional run is issued, four cycles each at most. -/
theorem follows_all (k : Nat) : ∃ n ≤ 4 * k, Follows image n k := by
  induction k with
  | zero => exact ⟨0, Nat.le_refl 0, follows_zero⟩
  | succ k ih =>
    obtain ⟨n, hn, h⟩ := ih
    obtain ⟨i, hi, hissue⟩ := issues_within_four image n
    obtain ⟨n', hn', h'⟩ := h.next hstores hill i hissue
    exact ⟨n', by omega, h'⟩

end

section
variable {image : MemoryImage}

/-- Whatever has entered ID has passed WB four cycles later at most. -/
theorem wbLog_of_entered (n : Nat) : ∃ n', n' ≤ n + 4 ∧ wbLog image n' = enterLog image n := by
  have hex : ∃ n', n' ≤ n + 2 ∧ exLog image n' = enterLog image n := by
    cases hs : (machineAt image n).stall
    · exact ⟨n + 1, by omega, by rw [exLog_succ, hs, if_neg (by decide)]⟩
    · have hs' : (machineAt image (n + 1)).stall = false := by
        rw [machineAt_succ]
        exact (machineAt_inv n).stall_runCycle hs
      refine ⟨n + 2, Nat.le_refl _, ?_⟩
      rw [exLog_succ, hs', if_neg (by decide), enterLog_succ, Machine.issue, hs]
      exact List.append_nil _
  obtain ⟨n', hle, hlog⟩ := hex
  exact ⟨n' + 2, by omega, by rw [wbLog_succ, memLog_succ, hlog]⟩

/-- A trace that shows `x` last ends with `x` and NOPs. -/
theorem visible_eq_concat {k : Nat} {l : List Decoding} {x : Decoding}
    (h : Funct.visible image k = l ++ [x]) : ∃ i < k, (Funct.executed image i).toDecoding = x ∧
      Funct.visible image (i + 1) = Funct.visible image k := by
  induction k with
  | zero => exact absurd h (by simp [Funct.visible, Funct.trace])
  | succ k ih =>
    cases hn : (Funct.executed image k).isNop
    · refine ⟨k, Nat.lt_succ_self k, ?_, rfl⟩
      rw [Funct.visible_succ, Decoding.logged, List.filter_cons, hn] at h
      exact List.singleton_inj.mp (List.append_inj_right' h rfl)
    · have hsame : Funct.visible image (k + 1) = Funct.visible image k := by
        rw [Funct.visible_succ, Decoding.logged, List.filter_cons, hn]
        exact List.append_nil _
      rw [hsame] at h ⊢
      obtain ⟨i, hi, hx, heq⟩ := ih h
      exact ⟨i, Nat.lt_succ_of_lt hi, hx, heq⟩

/-- While HALT is in WB, MEM is empty: registers and memory have come equally far. -/
theorem memLog_of_halt {n : Nat} (hh : (machineAt image n).pipelineInfo.wbInst.isHalt = true) :
    memLog image n = wbLog image n := by
  cases n with
  | zero => cases hh
  | succ n =>
    rw [wbInst_succ] at hh
    rw [memLog_eq, memInst_succ]
    simp [Decoding.logged, (machineAt_drained image n).mem hh]

theorem wbLog_of_halt {n : Nat} (hh : (machineAt image n).pipelineInfo.wbInst.isHalt = true) :
    ∃ l, wbLog image n = l ++ [(machineAt image n).pipelineInfo.wbInst.toDecoding] ∧
      (BeforeHalt image n → FreeOf Decoding.isHalt l) := by
  cases n with
  | zero => cases hh
  | succ n =>
    have hdec : Decoded (machineAt image (n + 1)).pipelineInfo.wbInst.toDecoding := by
      rw [wbInst_succ]
      exact (machineAt_inv n).memDecoded
    refine ⟨wbLog image n, ?_, fun hbefore => ?_⟩
    · rw [wbLog, log_succ]
      simp [Decoding.logged, hdec.not_nop (Decoding.traps_of_halt hh), wbLog]
    · exact log_freeOf (fun i _ hi => hbefore i (Nat.lt_succ_of_le hi))

end

/-- The registers are those after `i` instructions, the memory that after as many or more. -/
structure Between (image : MemoryImage) (n i j : Nat) : Prop where
  le : i ≤ j
  retired : wbLog image n = Funct.visible image i
  regs : (machineAt image n).simulator.regData = (Funct.stateAt image i).simulator.regData
  accessed : memLog image n = Funct.visible image j
  memory : (machineAt image n).simulator.memory = (Funct.stateAt image j).simulator.memory

section
variable {image : MemoryImage} {n : Nat}

theorem between_of_logs {i j : Nat} (hij : i ≤ j) (hwb : wbLog image n = Funct.visible image i)
    (hmem : memLog image n = Funct.visible image j) : Between image n i j where
  le := hij
  retired := hwb
  regs := by
    rw [regData_eq_replay, hwb, Funct.replay_visible]
    rfl
  accessed := hmem
  memory := by
    rw [memory_eq_replay, hmem, Funct.replay_visible]
    rfl

theorem visible_mono {i j : Nat} (h : i ≤ j) :
    Funct.visible image i <+: Funct.visible image j := by
  induction h with
  | refl => exact List.prefix_refl _
  | step _ ih =>
    rw [Funct.visible_succ]
    exact ih.trans (List.prefix_append _ _)

/-- The memory is never behind the registers. -/
theorem Follows.between_of_retired {k i : Nat} (h : Follows image n k)
    (hwb : wbLog image n = Funct.visible image i) : ∃ j, Between image n i j := by
  have hmem : memLog image n <+: Funct.visible image k := h.entered ▸ memLog_isPrefix n
  obtain ⟨j, _, hj⟩ := Funct.prefix_visible hmem
  rcases Nat.le_total i j with hij | hji
  · exact ⟨j, between_of_logs hij hwb hj⟩
  · -- only NOPs lie between the two numbers
    have hp : Funct.visible image i <+: Funct.visible image j := by
      rw [← hj, ← hwb, memLog_eq]
      exact List.prefix_append _ _
    have heq : Funct.visible image j = Funct.visible image i :=
      (visible_mono hji).eq_of_length_le hp.length_le
    exact ⟨i, between_of_logs (Nat.le_refl i) hwb (hj.trans heq)⟩

theorem Follows.between {k : Nat} (h : Follows image n k) : ∃ i j, Between image n i j := by
  have hwb : wbLog image n <+: Funct.visible image k := h.entered ▸ wbLog_isPrefix n
  obtain ⟨i, _, hi⟩ := Funct.prefix_visible hwb
  exact ⟨i, h.between_of_retired hi⟩

theorem Between.halt {i j : Nat} (h : Between image n i j)
    (hh : (machineAt image n).pipelineInfo.wbInst.isHalt = true) :
    ∃ k, (Funct.executed image k).isHalt = true ∧
      (machineAt image n).simulator.arch = (Funct.stateAt image (k + 1)).arch := by
  obtain ⟨l, hl, _⟩ := wbLog_of_halt hh
  obtain ⟨k, _, hx, hk⟩ := visible_eq_concat (h.retired.symm.trans hl)
  have hwb : wbLog image n = Funct.visible image (k + 1) := h.retired.trans hk.symm
  have hb := between_of_logs (Nat.le_refl _) hwb ((memLog_of_halt hh).trans hwb)
  refine ⟨k, ?_, congrArg₂ Arch.mk hb.regs hb.memory⟩
  rw [hx]
  exact hh

end

/-- Every instruction of the functional run passes WB. -/
theorem follows_retires {image : MemoryImage} (hstores : StoresSettle image)
    (hill : NoIllegalBranch image) (k : Nat) : ∃ n ≤ 4 * k + 4, ∃ j, Between image n k j := by
  obtain ⟨n, hn, h⟩ := follows_all hstores hill k
  obtain ⟨n', hn', hwb⟩ := @wbLog_of_entered image n
  obtain ⟨k', h'⟩ := follows hstores hill n'
  exact ⟨n', by omega, h'.between_of_retired (hwb.trans h.entered)⟩

/-- **Past HALT.** When every store leaves the two instructions behind it alone and no illegal
instruction looks like a branch, the pipeline never leaves the functional run, which starts
again after HALT and after an illegal instruction: at any time the registers and the memory are
those after some number of its instructions, the same number whenever HALT is in WB, and every
number is reached. -/
theorem pipeline_follows_functional (image : MemoryImage) (hstores : StoresSettle image)
    (hill : NoIllegalBranch image) :
    (∀ n, ∃ i j, Between image n i j) ∧
    (∀ n, (machineAt image n).pipelineInfo.wbInst.isHalt = true →
      ∃ k, (Funct.executed image k).isHalt = true ∧
        (machineAt image n).simulator.arch = (Funct.stateAt image (k + 1)).arch) ∧
    ∀ k, ∃ n ≤ 4 * k + 4, ∃ j, Between image n k j := by
  refine ⟨fun n => ?_, fun n hh => ?_, fun k => ?_⟩
  · obtain ⟨k, h⟩ := follows hstores hill n
    exact h.between
  · obtain ⟨k, h⟩ := follows hstores hill n
    obtain ⟨i, j, hb⟩ := h.between
    exact hb.halt hh
  · exact follows_retires hstores hill k

/-- A first instruction that stores nothing and goes on behind it, then HALT. -/
structure HaltsSecond (image : MemoryImage) : Prop where
  first : (decodeAt 0#64 image.store).traps = false ∧ (decodeAt 0#64 image.store).isLegal = true ∧
    (decodeAt 0#64 image.store).writesMem = false
  sequential : (decodeAt 0#64 image.store).opcode ≠ opJalr ∧
    (decodeAt 0#64 image.store).opcode ≠ opBranch ∧ (decodeAt 0#64 image.store).opcode ≠ opJal
  last : (decodeAt 4#64 image.store).traps = true ∧ (decodeAt 4#64 image.store).isLegal = true ∧
    (decodeAt 4#64 image.store).writesMem = false

section
variable {image : MemoryImage} (h : HaltsSecond image)
include h

/-- The two instructions take turns. -/
theorem HaltsSecond.state (k : Nat) : (Funct.stateAt image k).simulator.memory = image.store ∧
    (Funct.stateAt image k).pc = if k % 2 = 0 then 0#64 else 4#64 := by
  induction k with
  | zero => exact ⟨rfl, rfl⟩
  | succ k ih =>
    obtain ⟨hm, hpc⟩ := ih
    have hd : (Funct.executed image k).toDecoding =
        decodeAt (if k % 2 = 0 then 0#64 else 4#64) image.store := by
      rw [Funct.executed_toDecoding, Funct.State.current, hm, hpc]
    rcases Nat.mod_two_eq_zero_or_one k with hk | hk
    · rw [if_pos hk] at hd
      obtain ⟨ht, _, hw⟩ := h.first
      obtain ⟨hj, hb, hl⟩ := h.sequential
      rw [Funct.memory_succ, Funct.pc_succ, hd, hw, if_neg Bool.false_ne_true, hm,
        if_neg (show ¬(k + 1) % 2 = 0 by omega)]
      refine ⟨rfl, ?_⟩
      have hnext := @nextPC_of_sequential (simOperandCollection
        { toDecoding := decodeAt 0#64 image.store } (Funct.stateAt image k).simulator.regData) hj hb hl
      rw [Decoding.successor, ht, if_neg Bool.false_ne_true, hnext]
      show (decodeAt 0#64 image.store).pc + 4#64 = 4#64
      rw [decodeAt_pc]
      rfl
    · rw [if_neg (show ¬k % 2 = 0 by omega)] at hd
      obtain ⟨ht, _, hw⟩ := h.last
      rw [Funct.memory_succ, Funct.pc_succ, hd, hw, if_neg Bool.false_ne_true, hm,
        if_pos (show (k + 1) % 2 = 0 by omega), Decoding.successor, ht]
      exact ⟨rfl, rfl⟩

theorem HaltsSecond.decoding (k : Nat) : (Funct.executed image k).isLegal = true ∧
    (Funct.executed image k).writesMem = false := by
  obtain ⟨hm, hpc⟩ := h.state k
  rw [Funct.executed_toDecoding, Funct.State.current, hm, hpc]
  split
  · exact h.first.2
  · exact h.last.2

/-- No store, and nothing illegal. -/
theorem HaltsSecond.settles : StoresSettle image ∧ NoIllegalBranch image := by
  constructor
  · intro i k _ _ hw
    rw [(h.decoding i).2] at hw
    cases hw
  · intro k hl
    rw [(h.decoding k).1] at hl
    cases hl

end

/-- `addi x1, x1, 1`, then HALT. -/
def restartImage : MemoryImage where
  bytes := [0x93#8, 0x80#8, 0x10#8, 0x00#8, 0xed#8, 0xfe#8, 0xed#8, 0xfe#8] ++
    List.replicate 0xFFF8 0#8
  length_eq := by
    rw [List.length_append, List.length_replicate]
    rfl

theorem restartImage_settles : StoresSettle restartImage ∧ NoIllegalBranch restartImage :=
  HaltsSecond.settles ⟨by decide, by decide, by decide⟩

/-- The program is run through twice. -/
theorem pipeline_follows_functional_sample : ∃ n ≤ 20, ∃ j, Between restartImage n 4 j :=
  (pipeline_follows_functional restartImage restartImage_settles.1 restartImage_settles.2).2.2 4

/-! ### The end of `runCycles` -/

/-- Instruction `k` is the first HALT. -/
structure FirstHalt (image : MemoryImage) (k : Nat) : Prop where
  halts : (Funct.executed image k).isHalt = true
  before : ∀ i < k, (Funct.executed image i).isHalt = false

/-- Asked for 0 cycles, `runCycles` ends on HALT only. -/
theorem runCycles_zero_status {image : MemoryImage} {fuel : Nat} {status : Status}
    {dump : PipeState} {m : Machine}
    (h : runCycles fuel 0#64 (initSimulator image.store) = some (status, dump, m)) :
    status = .halt := by
  obtain ⟨k, _, hexit⟩ := Loop.exists_exit (fun _ _ h => (runCyclesBody_inl h).1) h
  rcases runCyclesBody_inr hexit with ⟨hs, _⟩ | ⟨_, _, hdone, _⟩
  · exact hs
  · exact absurd (.inl rfl) hdone

theorem runCycles_to_halt {image : MemoryImage} {n : Nat} (hbefore : BeforeHalt image n)
    (hh : (machineAt image n).pipelineInfo.wbInst.isHalt = true) :
    ∃ fuel dump, runCycles fuel 0#64 (initSimulator image.store) =
      some (.halt, dump, machineAt image n) := by
  cases n with
  | zero => cases hh
  | succ n => exact runCycles_zero (fun i hi => hbefore i (Nat.lt_succ_of_le hi)) hh

section
variable {image : MemoryImage} {n : Nat}

theorem mem_visible {i k : Nat} (h : i < k) (ht : (Funct.executed image i).traps = true) :
    (Funct.executed image i).toDecoding ∈ Funct.visible image k := by
  simp only [Funct.visible, Funct.trace, List.mem_filter, List.mem_map, List.mem_range]
  exact ⟨⟨i, h, rfl⟩, by rw [(Funct.executed_decoded i).not_nop ht]; rfl⟩

/-- The first HALT in WB is the first of the run. -/
theorem Between.firstHalt {i j : Nat} (h : Between image n i j) (hbefore : BeforeHalt image n)
    (hh : (machineAt image n).pipelineInfo.wbInst.isHalt = true) :
    ∃ k, FirstHalt image k ∧ wbLog image n = Funct.visible image (k + 1) ∧
      (machineAt image n).simulator.arch = (Funct.stateAt image (k + 1)).arch := by
  obtain ⟨l, hl, hfree⟩ := wbLog_of_halt hh
  obtain ⟨k, _, hx, hk⟩ := visible_eq_concat (h.retired.symm.trans hl)
  have hwb : wbLog image n = Funct.visible image (k + 1) := h.retired.trans hk.symm
  have hb := between_of_logs (Nat.le_refl _) hwb ((memLog_of_halt hh).trans hwb)
  have hhalt : (Funct.executed image k).isHalt = true := by
    rw [hx]
    exact hh
  have hlk : Funct.visible image k = l := by
    have hlog := hwb
    rw [hl, visible_of_traps (Decoding.traps_of_halt hhalt)] at hlog
    exact (List.append_inj_left' hlog rfl).symm
  refine ⟨k, ⟨hhalt, fun i hi => ?_⟩, hwb, congrArg₂ Arch.mk hb.regs hb.memory⟩
  by_contra hi'
  have hih : (Funct.executed image i).isHalt = true := Bool.not_eq_false _ ▸ hi'
  have hmem := mem_visible hi (Decoding.traps_of_halt hih)
  rw [hlk] at hmem
  rw [hfree hbefore _ hmem] at hih
  cases hih

/-- A HALT in the trace of WB was in WB. -/
theorem exists_halt_of_wbLog {k : Nat} (hk : (Funct.executed image k).isHalt = true)
    (hwb : wbLog image n = Funct.visible image (k + 1)) :
    ∃ i ≤ n, (machineAt image i).pipelineInfo.wbInst.isHalt = true := by
  by_contra hno
  simp only [not_exists, not_and, Bool.not_eq_true] at hno
  have hmem := mem_visible (Nat.lt_succ_self k) (Decoding.traps_of_halt hk)
  rw [← hwb] at hmem
  have hfree : FreeOf Decoding.isHalt (wbLog image n) := log_freeOf (fun i _ hi => hno i hi)
  rw [hfree _ hmem] at hk
  cases hk

theorem FirstHalt.unique {j k : Nat} (hj : FirstHalt image j) (hk : FirstHalt image k) : j = k := by
  rcases Nat.lt_trichotomy j k with hlt | heq | hgt
  · have hnot := hk.before j hlt
    rw [hj.halts] at hnot
    cases hnot
  · exact heq
  · have hnot := hj.before k hgt
    rw [hk.halts] at hnot
    cases hnot

end

/-- **When `runCycles(0)` ends.** Under the same conditions it ends exactly when there is a HALT
in the functional run, started again after every illegal instruction: then within four cycles
an instruction and eight more, and with the registers and the memory of the first HALT. -/
theorem runCycles_firstHalt (image : MemoryImage) (hstores : StoresSettle image)
    (hill : NoIllegalBranch image) :
    ((∃ fuel r, runCycles fuel 0#64 (initSimulator image.store) = some r) →
      ∃ k, FirstHalt image k) ∧
    ∀ k, FirstHalt image k → ∃ c ≤ 4 * k + 8, ∃ fuel dump,
      runCycles fuel 0#64 (initSimulator image.store) = some (.halt, dump, machineAt image c) ∧
        (machineAt image c).simulator.arch = (Funct.stateAt image (k + 1)).arch := by
  constructor
  · rintro ⟨fuel, ⟨status, dump, m⟩, hrun⟩
    obtain ⟨n, rfl, hbefore, hhalt⟩ := runCycles_eq_some hrun
    have hstatus := runCycles_zero_status hrun
    obtain ⟨_, h⟩ := follows hstores hill n
    obtain ⟨_, _, hb⟩ := h.between
    obtain ⟨k, hk, _⟩ := hb.firstHalt hbefore (hhalt.mp hstatus)
    exact ⟨k, hk⟩
  · intro k hk
    obtain ⟨n, hn, _, hb⟩ := (follows_retires hstores hill (k + 1))
    obtain ⟨i, hi, hh⟩ := exists_halt_of_wbLog hk.halts hb.retired
    -- the first cycle that takes a HALT through WB
    have hex : ∃ i, (machineAt image i).pipelineInfo.wbInst.isHalt = true := ⟨i, hh⟩
    have hle : Nat.find hex ≤ i := Nat.find_min' hex hh
    have hfind := Nat.find_spec hex
    have hbefore : BeforeHalt image (Nat.find hex) :=
      fun j hj => Bool.not_eq_true _ ▸ Nat.find_min hex hj
    obtain ⟨_, h⟩ := follows hstores hill (Nat.find hex)
    obtain ⟨_, _, hb'⟩ := h.between
    obtain ⟨k', hk', _, harch⟩ := hb'.firstHalt hbefore hfind
    obtain rfl := hk'.unique hk
    obtain ⟨fuel, dump, hrun⟩ := runCycles_to_halt hbefore hfind
    exact ⟨Nat.find hex, by omega, fuel, dump, hrun, harch⟩

theorem runCycles_firstHalt_sample : ∃ c ≤ 12, ∃ fuel dump,
    runCycles fuel 0#64 (initSimulator restartImage.store) =
      some (.halt, dump, machineAt restartImage c) := by
  have hfirst : FirstHalt restartImage 1 := ⟨by decide, by decide⟩
  obtain ⟨c, hc, fuel, dump, hrun, _⟩ := (runCycles_firstHalt restartImage restartImage_settles.1
    restartImage_settles.2).2 1 hfirst
  exact ⟨c, hc, fuel, dump, hrun⟩

/-! ### `runTillHalt` -/

/-- `runTillHalt` dumps each cycle up to the first that takes a HALT through WB. -/
theorem runTillHalt_eq {image : MemoryImage} {status : Status} {dumps : List PipeState}
    {m : Machine} (h : Loop.Yields runTillHaltBody ([], initSimulator image.store) (status, dumps, m)) :
    ∃ n, status = .halt ∧ dumps = (List.range n).map (dumpAt image) ∧ m = machineAt image n ∧
      BeforeHalt image n ∧ (machineAt image n).pipelineInfo.wbInst.isHalt = true := by
  obtain ⟨fuel, hrun⟩ := h
  obtain ⟨k, hgo, hexit⟩ := Loop.exists_exit (fun _ _ h => (runTillHaltBody_inl h).1) hrun
  obtain ⟨hr, hh⟩ := runTillHaltBody_inr hexit
  rw [← Function.iterate_succ_apply' haltNext] at hr
  rw [haltNext_dumps, ← machineAt_succ] at hh
  rw [haltNext_dumps, Prod.mk.injEq, Prod.mk.injEq] at hr
  obtain ⟨rfl, rfl, rfl⟩ := hr
  refine ⟨k + 1, rfl, rfl, rfl, fun i hi => ?_, hh⟩
  cases i with
  | zero => rfl
  | succ i =>
    have hnot := (runTillHaltBody_inl (hgo i (Nat.lt_of_succ_lt_succ hi))).2
    rwa [haltNext_dumps, ← machineAt_succ] at hnot

end CycleSim
