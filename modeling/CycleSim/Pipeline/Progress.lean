import CycleSim.Pipeline.Interlock
import CycleSim.Pipeline.CycleCount

/-! The pipeline never stops.

A cycle issues nothing for one of three reasons: a load-use stall, a branch stall, or a bubble
in IF. None of them lasts, and none leads back to another, so of any four cycles in a row one
issues an instruction, on every program (`issues_within_four`). On a run up to HALT the waits
are shorter still: two instructions never take more than five cycles (`entry_add_two_le`),
which bounds the cycles of a program by those it cannot do without (`runCycles_cpi`). What an
instruction adds to them is settled by itself, the next one and the two before it
(`runCycles_gaps`). -/
namespace CycleSim

theorem Decoded.traps_of_load {x : Decoding} (h : Decoded x) (hr : x.readsMem = true) :
    x.traps = false := by
  by_contra ht
  have hidle : x.readsMem = false :=
    congrArg Flags.readsMem (h.flags_of_traps (Bool.not_eq_false _ ▸ ht))
  rw [hidle] at hr
  cases hr

/-- A load goes on to the next address. -/
theorem Decoded.successor_of_load {x : Decoding} (h : Decoded x) (hr : x.readsMem = true)
    (r : Regs) : x.successor r = x.pc + 4#64 := by
  have hop := h.load_opcode hr
  rw [Decoding.successor, h.traps_of_load hr, if_neg Bool.false_ne_true, nextPC_of_sequential]
  · rfl
  all_goals
    show x.opcode ≠ _
    rw [hop]
    decide

namespace Machine

/-! ### Why a cycle issues nothing -/

theorem issue_cases (m : Machine) : (∃ d, m.issue = some d) ∨ m.issue = none ∧ (m.stall = true ∨
    m.branchStall = true ∨ m.Accepts ∧ m.pipelineInfo.ifInst.isNop = true) := by
  unfold issue
  cases hs : m.stall
  · cases hb : m.branchStall
    · cases hn : m.pipelineInfo.ifInst.isNop
      · exact .inl ⟨m.idStage, rfl⟩
      · exact .inr ⟨rfl, .inr (.inr ⟨⟨hs, hb⟩, rfl⟩)⟩
    · exact .inr ⟨rfl, .inr (.inl rfl)⟩
  · exact .inr ⟨rfl, .inl rfl⟩

theorem issue_of_unblocked {m : Machine} (ha : m.Accepts)
    (hn : m.pipelineInfo.ifInst.isNop = false) : ∃ d, m.issue = some d := by
  refine ⟨m.idStage, ?_⟩
  simp only [issue, ha.stall, ha.branchStall, hn, Bool.or_self, Bool.false_eq_true, if_false]

/-- Behind a bubble in IF there is no load in ID: only a control transfer puts one there. -/
def LoadFirst (m : Machine) : Prop :=
  m.pipelineInfo.ifInst.isNop = true → m.pipelineInfo.idInst.readsMem = false

theorem Inv.flush_of_load {m : Machine} (h : m.Inv) (hr : m.idStage.readsMem = true) :
    m.flush = false := by
  cases hf : m.flush
  · rfl
  · have ha : m.Accepts := by
      cases hs : (m.stall || m.branchStall)
      · rw [Bool.or_eq_false_iff] at hs
        exact ⟨hs.1, hs.2⟩
      · rw [stalled_flush hs] at hf
        cases hf
    have hdec := h.idStage_decoded
    have hpc : m.idStage.pc = m.pipelineInfo.ifInst.pc := by
      rw [ha.idStage_toDecoding]
      exact simDecode_pc _
    rw [ha.flush_eq, h.accepted_nextPC ha (hdec.traps_of_load hr), hdec.successor_of_load hr,
      hpc] at hf
    exact absurd hf (by simp)

theorem Inv.loadFirst_runCycle {m : Machine} (h : m.Inv) (hl : m.LoadFirst) :
    m.runCycle.LoadFirst := by
  intro hn
  show m.idStage.readsMem = false
  have hif : m.ifStage.isNop = true := hn
  cases hs : m.stall
  · cases hb : m.branchStall
    · by_contra hr
      have hf : m.flush = false := h.flush_of_load (Bool.not_eq_false _ ▸ hr)
      rw [(ifStage_of_fetch (by rw [hs, hb]; rfl) hf).1] at hif
      cases hif
    · rw [idStage_of_branchStall hs hb]
      rfl
  · rw [(ifStage_of_stalled (by rw [hs, Bool.true_or])).1] at hif
    rw [idStage_of_stall hs]
    exact hl hif

/-! ### What follows a cycle that issues nothing -/

/-- Behind an accepted bubble, ID is empty and there is no load in EX. -/
theorem Inv.issue_after_bubble {m : Machine} (h : m.Inv) (hl : m.LoadFirst) (ha : m.Accepts)
    (hn : m.pipelineInfo.ifInst.isNop = true) : ∃ d, m.runCycle.issue = some d := by
  have hid : m.runCycle.pipelineInfo.idInst.isNop = true := (h.accepted_bubble ha hn).1
  have hidle := h.runCycle.idDecoded.idle (.inr (.inr hid))
  have hload : m.runCycle.pipelineInfo.exInst.readsMem = false := by
    show m.exStage.readsMem = false
    rw [exStage_toDecoding ha.stall]
    exact hl hn
  refine issue_of_unblocked ⟨h.runCycle.stall_of_nop hid, ?_⟩ ?_
  · rw [Bool.eq_false_iff, ne_eq, branchStall_iff]
    intro ⟨_, _, r, _, hz⟩
    rw [hazard_of_idle hidle, hload] at hz
    simp at hz
  · show m.ifStage.isNop = false
    rw [(ifStage_of_fetch (by rw [ha.stall, ha.branchStall]; rfl) (h.flush_of_bubble ha hn)).1]
    rfl

/-- The branch that waits stays in IF. -/
theorem Inv.branchStall_held {m : Machine} (h : m.Inv) (hb : m.branchStall = true) :
    m.runCycle.stall = false ∧ m.runCycle.pipelineInfo.ifInst.isNop = false := by
  have hs : m.stall = false := (m.branchStall_iff.mp hb).1
  constructor
  · refine h.runCycle.stall_of_nop ?_
    show m.idStage.isNop = true
    rw [idStage_of_branchStall hs hb]
    rfl
  · show m.ifStage.isNop = false
    rw [(ifStage_of_stalled (by rw [hb, Bool.or_true])).1]
    by_contra hn
    rw [h.branchStall_of_bubble (Bool.not_eq_false _ ▸ hn)] at hb
    cases hb

theorem Inv.issue_after_branchStall {m : Machine} (h : m.Inv) (hb : m.branchStall = true) :
    (∃ d, m.runCycle.issue = some d) ∨ m.runCycle.branchStall = true := by
  obtain ⟨hs, hn⟩ := h.branchStall_held hb
  cases hb' : m.runCycle.branchStall
  · exact .inl (issue_of_unblocked ⟨hs, hb'⟩ hn)
  · exact .inr rfl

theorem Inv.issue_after_branchStalls {m : Machine} (h : m.Inv) (hb : m.branchStall = true)
    (hb' : m.runCycle.branchStall = true) : ∃ d, m.runCycle.runCycle.issue = some d := by
  obtain ⟨hs, hn⟩ := h.runCycle.branchStall_held hb'
  exact issue_of_unblocked ⟨hs, branchStall_runCycle_runCycle hb hb'⟩ hn

end Machine

section
variable {image : MemoryImage}

theorem machineAt_loadFirst (n : Nat) : (machineAt image n).LoadFirst := by
  induction n with
  | zero => exact fun _ => rfl
  | succ n ih =>
    rw [machineAt_succ]
    exact (machineAt_inv n).loadFirst_runCycle ih

theorem issues_after_branchStall {n : Nat} (hb : (machineAt image n).branchStall = true) :
    ∃ i < 3, ∃ d, (machineAt image (n + i)).issue = some d := by
  have h : (machineAt image n).Inv := machineAt_inv n
  rcases h.issue_after_branchStall hb with hi | hb'
  · exact ⟨1, by decide, by rwa [machineAt_succ]⟩
  · refine ⟨2, by decide, ?_⟩
    rw [machineAt_succ, machineAt_succ]
    exact h.issue_after_branchStalls hb hb'

theorem issues_after_bubble {n : Nat} (ha : (machineAt image n).Accepts)
    (hn : (machineAt image n).pipelineInfo.ifInst.isNop = true) :
    ∃ d, (machineAt image (n + 1)).issue = some d := by
  rw [machineAt_succ]
  exact (machineAt_inv n).issue_after_bubble (machineAt_loadFirst n) ha hn

end

/-- **No deadlock.** Whatever the program, one of any four cycles in a row issues an
instruction. -/
theorem issues_within_four (image : MemoryImage) (n : Nat) :
    ∃ i < 4, ∃ d, (machineAt image (n + i)).issue = some d := by
  rcases (machineAt image n).issue_cases with hi | ⟨_, hs | hb | ⟨ha, hn⟩⟩
  · exact ⟨0, by decide, hi⟩
  · -- a load-use stall comes alone; behind it there is at most one of the other two
    have hs' : (machineAt image (n + 1)).stall = false := by
      rw [machineAt_succ]
      exact (machineAt_inv n).stall_runCycle hs
    rcases (machineAt image (n + 1)).issue_cases with hi | ⟨_, hs'' | hb | ⟨ha, hn⟩⟩
    · exact ⟨1, by decide, hi⟩
    · rw [hs'] at hs''
      cases hs''
    · obtain ⟨i, hlt, hi⟩ := issues_after_branchStall hb
      exact ⟨1 + i, by omega, by rwa [← Nat.add_assoc]⟩
    · exact ⟨2, by decide, issues_after_bubble ha hn⟩
  · obtain ⟨i, hlt, hi⟩ := issues_after_branchStall hb
    exact ⟨i, by omega, hi⟩
  · exact ⟨1, by decide, issues_after_bubble ha hn⟩

/-! ### How many cycles an instruction costs -/

section
variable {image : MemoryImage}

theorem entry_zero : entry image 0 = 2 := rfl

theorem latency_le {x y : Instruction} {d : Nat} (h : latency x y = some d) : d ≤ 3 := by
  cases hc : isControl y
  · rw [((latency_of_not_control hc).mp h).2.2]
    decide
  · rw [((latency_of_control hc).mp h).2]
    split <;> decide

/-- Only a branch behind the load of its operand waits three cycles. -/
theorem latency_le_two {x y : Instruction} {d : Nat} (h : latency x y = some d)
    (hxy : x.readsMem = false ∨ isControl y = false) : d ≤ 2 := by
  cases hc : isControl y
  · exact Nat.le_of_eq ((latency_of_not_control hc).mp h).2.2
  · rw [hc] at hxy
    rw [((latency_of_control hc).mp h).2, hxy.resolve_right (by decide)]
    decide

theorem entry_succ_le (i : Nat) : entry image (i + 1) ≤ entry image i + 3 := by
  refine (entry_le_iff _ _).mpr ⟨?_, fun j hj d hd => ?_⟩
  · have ht : taken image i ≤ 1 := taken_le i
    rw [available_succ]
    omega
  · have hle : entry image j ≤ entry image i :=
      Schedule.start_strictMono.monotone (Nat.le_of_lt_succ hj)
    have hd3 := latency_le hd
    omega

theorem entry_succ_le_two {i : Nat} (h : (Funct.executed image i).readsMem = false ∨
    isControl (Funct.executed image (i + 1)) = false) :
    entry image (i + 1) ≤ entry image i + 2 := by
  refine (entry_le_iff _ _).mpr ⟨?_, fun j hj d hd => ?_⟩
  · have ht : taken image i ≤ 1 := taken_le i
    rw [available_succ]
    omega
  · rcases Nat.lt_succ_iff_lt_or_eq.mp hj with hji | rfl
    · have hlt : entry image j < entry image i := entry_lt hji
      have hd3 := latency_le hd
      omega
    · have hd2 := latency_le_two hd h
      omega

theorem isControl_of_readsMem {i : Nat} (hr : (Funct.executed image i).readsMem = true) :
    isControl (Funct.executed image i) = false := by
  have hop := (@Funct.executed_decoded image i).load_opcode hr
  rw [isControl, hop]
  decide

/-- Two instructions take at most five cycles: the load a branch waits for is no branch that
waits for a load. -/
theorem entry_add_two_le (i : Nat) : entry image (i + 2) ≤ entry image i + 5 := by
  cases hr : (Funct.executed image (i + 1)).readsMem
  · have h1 : entry image (i + 1) ≤ entry image i + 3 := entry_succ_le i
    have h2 : entry image (i + 2) ≤ entry image (i + 1) + 2 := entry_succ_le_two (.inl hr)
    omega
  · have h1 : entry image (i + 1) ≤ entry image i + 2 :=
      entry_succ_le_two (.inr (isControl_of_readsMem hr))
    have h2 : entry image (i + 2) ≤ entry image (i + 1) + 3 := entry_succ_le (i + 1)
    omega

theorem two_mul_entry_le (k : Nat) : 2 * entry image k ≤ 5 * k + 5 := by
  induction k using Nat.twoStepInduction with
  | zero => exact show 2 * 2 ≤ 5 * 0 + 5 by decide
  | one =>
    have h1 : entry image 1 ≤ entry image 0 + 3 := entry_succ_le 0
    rw [entry_zero] at h1
    omega
  | more k ih _ =>
    have h2 : entry image (k + 2) ≤ entry image k + 5 := entry_add_two_le k
    omega

theorem le_entry (k : Nat) : k + 2 ≤ entry image k := by
  induction k with
  | zero => exact Nat.le_refl 2
  | succ k ih =>
    have hlt : entry image k < entry image (k + 1) := entry_lt (Nat.lt_succ_self k)
    omega

end

/-- **Cycles per instruction.** A run that does not modify itself and comes to HALT after `k`
instructions takes at least `k + 5` cycles, and at most five for every two of them above
five and a half. -/
theorem runCycles_cpi (image : MemoryImage) (hself : NoSelfModification image) (k : Nat)
    (hreach : Funct.Reaches image k) (hh : (Funct.executed image k).isHalt = true) :
    ∃ c fuel dump, runCycles fuel 0#64 (initSimulator image.store) =
        some (.halt, dump, machineAt image c) ∧
      (machineAt image c).cycleCount = BitVec.ofNat 64 c ∧ k + 5 ≤ c ∧ 2 * c ≤ 5 * k + 11 := by
  obtain ⟨hbefore, hwb⟩ := halt_passes_wb hself hreach hh
  obtain ⟨fuel, dump, hrun⟩ := runCycles_zero (fun i hi => hbefore i (Nat.lt_succ_of_le hi)) hwb
  have hlow : k + 2 ≤ entry image k := le_entry k
  have hhigh : 2 * entry image k ≤ 5 * k + 5 := two_mul_entry_le k
  exact ⟨_, fuel, dump, hrun, cycleCount_eq image _, by omega, by omega⟩

theorem runCycles_cpi_sample : ∃ c fuel dump,
    runCycles fuel 0#64 (initSimulator sampleImage.store) =
      some (.halt, dump, machineAt sampleImage c) ∧ 7 ≤ c ∧ 2 * c ≤ 21 := by
  obtain ⟨c, fuel, dump, hrun, _, hlow, hhigh⟩ := runCycles_cpi sampleImage
    sampleImage_noSelfModification 2 sampleImage_reaches sampleImage_halts
  exact ⟨c, fuel, dump, hrun, hlow, hhigh⟩

/-! ### A window of four instructions -/

/-- How long instruction `k` waits in ID after instruction `j` has left it. -/
def waitAfter (image : MemoryImage) (j k : Nat) : Nat :=
  (latency (Funct.executed image j) (Funct.executed image k)).getD 0

/-- How long instruction `k` waits for the one `d` places ahead of it, if there is one. -/
def waitBehind (image : MemoryImage) (d k : Nat) : Nat :=
  if d ≤ k then waitAfter image (k - d) k else 0

/-- The cycles from instruction `k` to the next: one, and a bubble behind a taken control transfer,
unless the next waits longer, for instruction `k` or for instruction `k - 1`. The second wait began
when instruction `k - 1` left ID, so what is left of it depends on how far behind that instruction
`k` was. -/
def gap (image : MemoryImage) (k : Nat) : Nat :=
  max (max (1 + taken image k) (waitBehind image 1 (k + 1)))
    (waitBehind image 2 (k + 1) - max (max 1 (waitBehind image 1 k))
      (waitBehind image 2 k - max 1 (waitBehind image 1 (k - 1))))

section
variable {image : MemoryImage}

theorem waitAfter_le {j k n : Nat} (h : entry image j ≤ n) :
    entry image j + waitAfter image j k ≤ n ↔
      ∀ d, latency (Funct.executed image j) (Funct.executed image k) = some d →
        entry image j + d ≤ n := by
  unfold waitAfter
  cases latency (Funct.executed image j) (Funct.executed image k) with
  | none => exact iff_of_true h (fun _ hd => nomatch hd)
  | some d => exact ⟨fun hd _ hd' => Option.some.inj hd' ▸ hd, fun hd => hd d rfl⟩

/-- More than two cycles are waited by a branch or `jalr` only, and for a load. -/
theorem two_lt_waitBehind {d k : Nat} (h : 2 < waitBehind image d k) :
    ∃ j, j + d = k ∧ (Funct.executed image j).readsMem = true ∧
      isControl (Funct.executed image k) = true := by
  unfold waitBehind waitAfter at h
  split at h
  next hle =>
    cases hd : latency (Funct.executed image (k - d)) (Funct.executed image k) with
    | none => simp [hd] at h
    | some c =>
      rw [hd, Option.getD_some] at h
      refine ⟨k - d, Nat.sub_add_cancel hle, ?_, ?_⟩
      · by_contra hr
        exact absurd (latency_le_two hd (.inl (Bool.eq_false_iff.mpr hr))) (Nat.not_le_of_lt h)
      · by_contra hc
        exact absurd (latency_le_two hd (.inr (Bool.eq_false_iff.mpr hc))) (Nat.not_le_of_lt h)
  next => exact absurd h (by decide)

theorem waitBehind_le_two {d k : Nat} (hc : isControl (Funct.executed image k) = false) :
    waitBehind image d k ≤ 2 := by
  by_contra h
  obtain ⟨_, _, _, hc'⟩ := two_lt_waitBehind (Nat.lt_of_not_le h)
  rw [hc] at hc'
  cases hc'

theorem taken_of_load {k : Nat} (hr : (Funct.executed image k).readsMem = true) :
    taken image k = 0 := by
  have hdec : Decoded (Funct.executed image k).toDecoding := Funct.executed_decoded k
  rw [taken, Funct.executed_nextPC, Funct.pc_succ, hdec.successor_of_load hr]
  exact if_pos rfl

/-- Whoever is three places ahead or more is no longer waited for. -/
theorem latency_le_available {j i d : Nat} (hj : j + 2 < i)
    (hd : latency (Funct.executed image j) (Funct.executed image i) = some d) :
    entry image j + d ≤ available image i := by
  obtain ⟨k, rfl⟩ : ∃ k, i = k + 1 := ⟨i - 1, by omega⟩
  have hlt1 : entry image j < entry image (j + 1) := entry_lt (Nat.lt_succ_self j)
  have hlt2 : entry image (j + 1) < entry image k := entry_lt (by omega)
  have hd3 := latency_le hd
  rw [available_succ]
  omega

theorem entry_succ_le_iff (k n : Nat) : entry image (k + 1) ≤ n ↔
    entry image k + 1 + taken image k ≤ n ∧ entry image k + waitBehind image 1 (k + 1) ≤ n ∧
      entry image (k - 1) + waitBehind image 2 (k + 1) ≤ n := by
  rw [entry_le_iff, available_succ]
  refine and_congr_right (fun havail => ⟨fun h => ⟨?_, ?_⟩, fun ⟨hnear, hfar⟩ j hj d hd => ?_⟩)
  · exact (waitAfter_le (by omega)).mpr (h k (Nat.lt_succ_self k))
  · cases k with
    | zero =>
      show entry image 0 + 0 ≤ n
      omega
    | succ k =>
      have hlt : entry image k < entry image (k + 1) := entry_lt (Nat.lt_succ_self k)
      show entry image k + waitAfter image k (k + 2) ≤ n
      exact (waitAfter_le (by omega)).mpr (h k (by omega))
  · by_cases hthree : j + 2 < k + 1
    · exact (latency_le_available hthree hd).trans havail
    · have hcases : j = k ∨ j + 1 = k := by omega
      have hle : entry image j ≤ entry image k := Schedule.start_strictMono.monotone (by omega)
      rcases hcases with rfl | rfl
      · exact (waitAfter_le (by omega)).mp hnear d hd
      · exact (waitAfter_le (by omega)).mp hfar d hd

/-- The same, with the time instruction `k` stayed behind the one before it. -/
theorem entry_succ_eq_lead (k : Nat) : entry image (k + 1) = entry image k +
    max (max (1 + taken image k) (waitBehind image 1 (k + 1)))
      (waitBehind image 2 (k + 1) - (entry image k - entry image (k - 1))) := by
  have hle : entry image (k - 1) ≤ entry image k :=
    Schedule.start_strictMono.monotone (Nat.sub_le k 1)
  refine eq_of_forall_ge_iff (fun n => ?_)
  rw [entry_succ_le_iff]
  omega

theorem lead_pos {k : Nat} (hfar : waitBehind image 2 (k + 1) ≠ 0) :
    entry image (k - 1) < entry image k := by
  cases k with
  | zero => exact absurd rfl hfar
  | succ k => exact entry_lt (Nat.lt_succ_self k)

/-- A wait of two cycles that has begun is over with the next one. -/
theorem max_sub_eq {step far lead lead' : Nat} (hstep : 1 ≤ step) (hfar : far ≤ 2)
    (hlead : far ≠ 0 → 1 ≤ lead) (hlead' : 1 ≤ lead') :
    max step (far - lead) = max step (far - lead') := by
  have hle : far - lead ≤ step := by omega
  have hle' : far - lead' ≤ step := by omega
  rw [max_eq_left hle, max_eq_left hle']

/-- Behind a load, an instruction that is no branch is held by that load alone. -/
theorem entry_succ_of_load {k : Nat} (hr : (Funct.executed image k).readsMem = true)
    (hc : isControl (Funct.executed image (k + 1)) = false) :
    entry image (k + 1) = entry image k + max 1 (waitBehind image 1 (k + 1)) := by
  have hpos : 1 ≤ max 1 (waitBehind image 1 (k + 1)) := Nat.le_max_left _ _
  have htwo : waitBehind image 2 (k + 1) ≤ 2 := waitBehind_le_two hc
  have hlead := @lead_pos image k
  have hover : waitBehind image 2 (k + 1) - (entry image k - entry image (k - 1)) ≤
      max 1 (waitBehind image 1 (k + 1)) := by omega
  rw [entry_succ_eq_lead, taken_of_load hr, Nat.add_zero, max_eq_left hover]

/-- How long the instruction behind a load is after it. -/
theorem lead_of_load {k : Nat} (hr : (Funct.executed image k).readsMem = true) :
    entry image (k + 1) - entry image k = max (max 1 (waitBehind image 1 (k + 1)))
      (waitBehind image 2 (k + 1) - max 1 (waitBehind image 1 k)) := by
  rw [entry_succ_eq_lead, taken_of_load hr, Nat.add_zero, Nat.add_sub_cancel_left]
  rcases Nat.lt_or_ge 2 (waitBehind image 2 (k + 1)) with hfar | hfar
  · -- a branch behind two loads: the second of them is held by the first alone
    obtain ⟨j, hj, hr', _⟩ := two_lt_waitBehind hfar
    obtain rfl : k = j + 1 := by omega
    rw [Nat.add_sub_cancel, entry_succ_of_load hr' (isControl_of_readsMem hr),
      Nat.add_sub_cancel_left]
  · exact max_sub_eq (Nat.le_max_left _ _) hfar (fun h => Nat.sub_pos_of_lt (lead_pos h))
      (Nat.le_max_left _ _)

theorem entry_succ_eq (k : Nat) : entry image (k + 1) = entry image k + gap image k := by
  have hpos : 1 ≤ max (1 + taken image k) (waitBehind image 1 (k + 1)) :=
    le_max_of_le_left (Nat.le_add_right 1 _)
  rw [entry_succ_eq_lead, gap]
  refine congrArg (entry image k + ·) ?_
  rcases Nat.lt_or_ge 2 (waitBehind image 2 (k + 1)) with hfar | hfar
  · obtain ⟨j, hj, hr, _⟩ := two_lt_waitBehind hfar
    obtain rfl : k = j + 1 := by omega
    rw [Nat.add_sub_cancel, lead_of_load hr]
  · exact max_sub_eq hpos hfar (fun h => Nat.sub_pos_of_lt (lead_pos h))
      (le_max_of_le_left (Nat.le_max_left _ _))

theorem entry_eq_sum_gap (k : Nat) : entry image k = 2 + ∑ i ∈ Finset.range k, gap image i := by
  induction k with
  | zero => rfl
  | succ k ih =>
    rw [entry_succ_eq, ih, Finset.sum_range_succ, Nat.add_assoc]

/-- Only a branch waits for an instruction that is not right before it. -/
theorem gap_eq {k : Nat} (hfar : ∀ j, j + 1 = k → waitAfter image j (k + 1) ≤ 2) :
    gap image k = max (1 + taken image k) (waitAfter image k (k + 1)) := by
  have hnear : waitBehind image 1 (k + 1) = waitAfter image k (k + 1) := if_pos (by omega)
  have htwo : waitBehind image 2 (k + 1) ≤ 2 := by
    cases k with
    | zero => exact Nat.zero_le 2
    | succ k => exact hfar k rfl
  rw [gap, hnear]
  omega

end

/-- **A cost model.** The cycles of a run that does not modify itself are a sum over its
instructions, of the steps from one to the next in its schedule; in the schedule no instruction
is held by one three places ahead of it or more. -/
theorem runCycles_gaps (image : MemoryImage) (hself : NoSelfModification image) (k : Nat)
    (hreach : Funct.Reaches image k) (hh : (Funct.executed image k).isHalt = true) :
    (∃ fuel dump m, runCycles fuel 0#64 (initSimulator image.store) = some (.halt, dump, m) ∧
      m.cycleCount = BitVec.ofNat 64 (5 + ∑ i ∈ Finset.range k, gap image i)) ∧
    (∀ i, entry image (i + 1) = entry image i + gap image i) ∧
    ∀ j i d, j + 2 < i → latency (Funct.executed image j) (Funct.executed image i) = some d →
      entry image j + d ≤ available image i := by
  obtain ⟨hbefore, hwb⟩ := halt_passes_wb hself hreach hh
  obtain ⟨fuel, dump, hrun⟩ := runCycles_zero (fun i hi => hbefore i (Nat.lt_succ_of_le hi)) hwb
  refine ⟨⟨fuel, dump, _, hrun, ?_⟩, entry_succ_eq, fun j i d hj hd => latency_le_available hj hd⟩
  rw [cycleCount_eq, entry_eq_sum_gap]
  congr 1
  omega

/-- `lw x1, 20(x0)`, `lw x2, 20(x0)`, `beq x1, x0, 8`, `bne x2, x0, 8`, and HALT at address 20. -/
def loadsImage : MemoryImage where
  bytes := [0x83#8, 0x20#8, 0x40#8, 0x01#8, 0x03#8, 0x21#8, 0x40#8, 0x01#8,
    0x63#8, 0x84#8, 0x00#8, 0x00#8, 0x63#8, 0x14#8, 0x01#8, 0x00#8,
    0x00#8, 0x00#8, 0x00#8, 0x00#8, 0xed#8, 0xfe#8, 0xed#8, 0xfe#8] ++ List.replicate 0xFFE8 0#8
  length_eq := by
    rw [List.length_append, List.length_replicate]
    rfl

theorem loadsImage_halts : (Funct.executed loadsImage 4).isHalt = true := by decide

theorem loadsImage_noSelfModification : NoSelfModification loadsImage := by
  intro i j hi _ hw
  have hstore : ∀ i ≤ 4, (Funct.executed loadsImage i).writesMem = false := by decide
  rw [hstore i (hi.le_of_traps (Decoding.traps_of_halt loadsImage_halts))] at hw
  cases hw

/-- Each branch waits three cycles for its load. The first makes up for them, so the second
goes on behind it at once. -/
theorem runCycles_gaps_sample : gap loadsImage 1 = 2 ∧ gap loadsImage 2 = 1 ∧
    ∃ fuel dump m, runCycles fuel 0#64 (initSimulator loadsImage.store) = some (.halt, dump, m) ∧
      m.cycleCount = 11#64 := by
  have hreach : Funct.Reaches loadsImage 4 := by
    unfold Funct.Reaches
    decide
  have hgaps : ∑ i ∈ Finset.range 4, gap loadsImage i = 6 := by decide
  obtain ⟨⟨fuel, dump, m, hrun, hcount⟩, _⟩ := runCycles_gaps loadsImage
    loadsImage_noSelfModification 4 hreach loadsImage_halts
  rw [hgaps] at hcount
  exact ⟨by decide, by decide, fuel, dump, m, hrun, hcount⟩

end CycleSim
