import CycleSim.Pipeline.Drain
import CycleSim.Lib.Schedule

/-! When each instruction of the run leaves ID.

`entry image k` is the number of cycles after which instruction `k` has been in ID for
the last time. It is a schedule of the functional trace alone: one instruction a cycle,
a bubble after a taken control transfer, and the waits for older results. `Timed` says
that the latches follow it. -/
namespace CycleSim

section
variable (image : MemoryImage)

/-- The bubble after a taken control transfer. -/
def taken (k : Nat) : Nat :=
  if (Funct.executed image k).nextPC = (Funct.executed image k).pc + 4#64 then 0 else 1

/-- An operand field of `consumer` names the register `producer` writes. -/
def conflict (producer consumer : Instruction) : Bool :=
  hazard producer consumer.rs1 || hazard producer consumer.rs2

/-- How long `consumer` waits in ID after `producer` has left it: a load is waited for, and a
branch or `jalr` waits one cycle longer, for every result. -/
def latency (producer consumer : Instruction) : Option Nat :=
  if conflict producer consumer then
    if isControl consumer then some (if producer.readsMem then 3 else 2)
    else if producer.readsMem then some 2 else none
  else none

/-- The cycle in which instruction `k` leaves ID is the one after cycle `entry image k`. -/
def entry (k : Nat) : Nat :=
  Schedule.start 2 (taken image)
    (fun j i => latency (Funct.executed image j) (Funct.executed image i)) k

/-- The first cycle in which IF can hand instruction `k` to ID. -/
def available (k : Nat) : Nat :=
  Schedule.ready 2 (taken image)
    (fun j i => latency (Funct.executed image j) (Funct.executed image i)) k

/-- How long instruction `k` waits for older results. -/
def wait (k : Nat) : Nat := entry image k - available image k

/-- The cycles the first `k` instructions wait in ID, held by a load. -/
def loadWaits (k : Nat) : Nat :=
  ∑ i ∈ Finset.range k, if isControl (Funct.executed image i) then 0 else wait image i

/-- The cycles in which the stall tests held ID. -/
def stalls (n : Nat) : Nat := (List.range n).countP (fun i => (machineAt image i).stall)

end

section
variable {image : MemoryImage}

theorem stalls_succ (n : Nat) :
    stalls image (n + 1) = stalls image n + (machineAt image n).stall.toNat := by
  rw [stalls, List.range_succ, List.countP_append, ← stalls]
  cases h : (machineAt image n).stall <;> simp [h]

theorem loadWaits_succ (k : Nat) : loadWaits image (k + 1) = loadWaits image k +
    if isControl (Funct.executed image k) then 0 else wait image k := Finset.sum_range_succ _ _

theorem taken_le (k : Nat) : taken image k ≤ 1 := by
  unfold taken
  split <;> omega

theorem entry_le_iff (k n : Nat) : entry image k ≤ n ↔ available image k ≤ n ∧ ∀ j < k, ∀ d,
    latency (Funct.executed image j) (Funct.executed image k) = some d → entry image j + d ≤ n :=
  Schedule.start_le_iff k n

theorem available_le_entry (k : Nat) : available image k ≤ entry image k :=
  Schedule.ready_le_start k

theorem entry_lt {j k : Nat} (h : j < k) : entry image j < entry image k :=
  Schedule.start_strictMono h

theorem available_succ (k : Nat) :
    available image (k + 1) = entry image k + 1 + taken image k := rfl

theorem conflict_congr {x x' y y' : Instruction} (hx : x.toDecoding = x'.toDecoding)
    (hy : y.toDecoding = y'.toDecoding) : conflict x y = conflict x' y' := by
  unfold conflict
  rw [hazard_congr hx, hazard_congr hx, hy]

theorem latency_of_control {x y : Instruction} (hc : isControl y = true) {d : Nat} :
    latency x y = some d ↔ conflict x y = true ∧ d = if x.readsMem then 3 else 2 := by
  unfold latency
  cases conflict x y
  · simp
  · simp only [hc, if_true, Option.some.injEq, true_and]
    exact eq_comm

theorem latency_of_not_control {x y : Instruction} (hc : isControl y = false) {d : Nat} :
    latency x y = some d ↔ conflict x y = true ∧ x.readsMem = true ∧ d = 2 := by
  unfold latency
  cases conflict x y
  · simp
  · cases x.readsMem
    · simp [hc]
    · simp only [hc, Bool.false_eq_true, if_true, if_false, Option.some.injEq, true_and]
      exact eq_comm

end

/-- EX holds the instruction of the run that left ID a cycle ago, or a bubble. -/
def InEX (image : MemoryImage) (n k : Nat) : Prop :=
  (∃ j < k, (machineAt image n).pipelineInfo.exInst.toDecoding =
      (Funct.executed image j).toDecoding ∧ entry image j + 1 = n) ∨
    (machineAt image n).pipelineInfo.exInst.flags = {} ∧ ∀ j < k, entry image j + 1 ≠ n

/-- ID holds a bubble, everything having left it, or the last instruction that entered. -/
def InID (image : MemoryImage) (n k : Nat) : Prop :=
  ((machineAt image n).pipelineInfo.idInst.isNop = true ∧ ∀ j < k, entry image j < n) ∨
    ∃ j, k = j + 1 ∧ (machineAt image n).pipelineInfo.idInst.toDecoding =
        (Funct.executed image j).toDecoding ∧
      entry image j = n + (machineAt image n).stall.toNat ∧ ∀ i < j, entry image i < n

/-- After `n` cycles, with `k` instructions issued, the latches are on schedule. -/
structure Timed (image : MemoryImage) (n k : Nat) : Prop where
  lower : n < entry image k
  first : isControl (Funct.executed image k) = false → n < available image k
  bubble : (machineAt image n).pipelineInfo.ifInst.isNop = true ↔
    k = 0 ∧ n = 0 ∨ ∃ j, k = j + 1 ∧ taken image j = 1 ∧ n ≤ entry image j
  inID : InID image n k
  inEX : InEX image n k
  waited : stalls image n + (machineAt image n).stall.toNat = loadWaits image k

theorem timed_zero (image : MemoryImage) : Timed image 0 0 where
  lower := by
    have h : available image 0 ≤ entry image 0 := available_le_entry 0
    exact Nat.lt_of_lt_of_le (show 0 < 2 by decide) h
  first := fun _ => show 0 < 2 by decide
  bubble := iff_of_true rfl (.inl ⟨rfl, rfl⟩)
  inID := .inl ⟨rfl, fun j hj => absurd hj (Nat.not_lt_zero j)⟩
  inEX := .inr ⟨rfl, fun j hj => absurd hj (Nat.not_lt_zero j)⟩
  waited := rfl

namespace Machine

/-- A bubble in ID never stalls. -/
theorem Inv.stall_of_nop {m : Machine} (h : m.Inv) (hn : m.pipelineInfo.idInst.isNop = true) :
    m.stall = false := by
  obtain ⟨_, _, h1, h2⟩ := h.idDecoded.nop hn
  have hzero : ∀ x : Instruction, hazard x 0#64 = false := by
    intro x
    by_cases hx : x.rd = 0#64 <;> simp [hazard, hx]
  rw [h.stall_eq]
  by_contra hs
  obtain ⟨_, hr⟩ := h.loadUseStall_iff.mp (Bool.not_eq_false _ ▸ hs)
  rw [h1, h2, hzero] at hr
  simp at hr

/-- A bubble in IF is never held for a branch. -/
theorem Inv.branchStall_of_bubble {m : Machine} (h : m.Inv)
    (hn : m.pipelineInfo.ifInst.isNop = true) : m.branchStall = false := by
  have hdec := h.newIDInst_decoded
  have hnop : m.newIDInst.1.isNop = true := by
    rw [newIDInst_toDecoding, simDecode_of_nop (h.ifLatch.fresh.isNop hn)]
  have hc := hdec.not_control (.inr hnop)
  simp only [branchStall, hc, Bool.and_false, Bool.false_and]

end Machine

/-! ### One cycle -/

section
variable {image : MemoryImage} {n k : Nat}

/-- IF can hand over instruction `k` in this cycle exactly when the schedule says so. -/
theorem Timed.available_iff (h : Timed image n k) :
    available image k ≤ n + 1 ↔ (machineAt image n).pipelineInfo.ifInst.isNop = false ∧
      (machineAt image n).stall = false := by
  have hbubble := h.bubble
  rcases h.inID with ⟨hn, hlt⟩ | ⟨j, rfl, _, he, _⟩
  · rw [(machineAt_inv n).stall_of_nop hn]
    cases k with
    | zero =>
      have hfirst : available image 0 = 2 := rfl
      rw [hfirst, ← Bool.not_eq_true, hbubble]
      simp
      omega
    | succ k =>
      have hk := hlt k (Nat.lt_succ_self k)
      have ht : taken image k ≤ 1 := taken_le k
      rw [available_succ, ← Bool.not_eq_true, hbubble]
      simp
      omega
  · have ht : taken image j ≤ 1 := taken_le j
    rw [available_succ, ← Bool.not_eq_true, hbubble, he]
    cases hs : (machineAt image n).stall
    · simp
      omega
    · simp
      omega

/-- By then every older instruction has left ID or leaves it now. -/
theorem Timed.older_le (_ : Timed image n k) (ha : available image k ≤ n + 1) {j : Nat}
    (hj : j < k) : entry image j ≤ n := by
  cases k with
  | zero => omega
  | succ k =>
    rw [available_succ] at ha
    rcases Nat.lt_succ_iff_lt_or_eq.mp hj with hlt | rfl
    · have := @entry_lt image _ _ hlt
      omega
    · omega

/-- The instruction that leaves ID in this cycle is the one in the latch. -/
theorem Timed.leaves (h : Timed image n k) {j : Nat} (hj : j < k) (he : entry image j = n) :
    (machineAt image n).stall = false ∧
      (machineAt image n).pipelineInfo.idInst.toDecoding = (Funct.executed image j).toDecoding := by
  rcases h.inID with ⟨_, hlt⟩ | ⟨i, rfl, hid, hi, hlt⟩
  · have := hlt j hj
    omega
  · rcases Nat.lt_succ_iff_lt_or_eq.mp hj with hji | rfl
    · have := hlt j hji
      omega
    · cases hs : (machineAt image n).stall
      · exact ⟨rfl, hid⟩
      · rw [hs, he] at hi
        simp at hi

theorem Timed.inEX_succ (h : Timed image n k) : InEX image (n + 1) k := by
  unfold InEX
  rw [exInst_succ]
  cases hs : (machineAt image n).stall
  · rw [Machine.exStage_toDecoding hs]
    rcases h.inID with ⟨hn, hlt⟩ | ⟨j, rfl, hid, he, _⟩
    · refine .inr ⟨(machineAt_inv n).idDecoded.idle (.inr (.inr hn)), fun j hj => ?_⟩
      have := hlt j hj
      omega
    · refine .inl ⟨j, Nat.lt_succ_self j, hid, ?_⟩
      rw [he, hs]
      rfl
  · rw [Machine.exStage_of_stall hs]
    refine .inr ⟨rfl, fun j hj he => ?_⟩
    have hleave := (h.leaves hj (Nat.succ.inj he)).1
    rw [hs] at hleave
    cases hleave

theorem InEX.grow (h : InEX image n k) (he : n ≤ entry image k) : InEX image n (k + 1) := by
  rcases h with ⟨j, hj, hex, hej⟩ | ⟨hidle, hne⟩
  · exact .inl ⟨j, Nat.lt_succ_of_lt hj, hex, hej⟩
  · refine .inr ⟨hidle, fun j hj => ?_⟩
    rcases Nat.lt_succ_iff_lt_or_eq.mp hj with hlt | rfl
    · exact hne j hlt
    · omega

/-- What conflicts with EX conflicts with the instruction that left ID a cycle ago. -/
theorem InEX.conflict_iff (h : InEX image n k) (y : Instruction) (p : Decoding → Prop) :
    (conflict (machineAt image n).pipelineInfo.exInst y = true ∧
        p (machineAt image n).pipelineInfo.exInst.toDecoding) ↔
      ∃ j < k, entry image j + 1 = n ∧ conflict (Funct.executed image j) y = true ∧
        p (Funct.executed image j).toDecoding := by
  rcases h with ⟨j, hj, hex, hej⟩ | ⟨hidle, hne⟩
  · rw [conflict_congr hex rfl, hex]
    refine ⟨fun hr => ⟨j, hj, hej, hr⟩, ?_⟩
    intro ⟨i, hi, hei, hr⟩
    have hij : i = j := by
      rcases Nat.lt_trichotomy i j with hlt | heq | hgt
      · have := @entry_lt image _ _ hlt
        omega
      · exact heq
      · have := @entry_lt image _ _ hgt
        omega
    rwa [← hij]
  · refine iff_of_false ?_ ?_
    · simp [conflict, hazard, show (machineAt image n).pipelineInfo.exInst.writesRd = false from
        congrArg Flags.writesRd hidle]
    · intro ⟨j, hj, hej, _⟩
      exact hne j hj hej

theorem Timed.inEX_issue (h : Timed image n k) : InEX image (n + 1) (k + 1) :=
  h.inEX_succ.grow h.lower

/-- A cycle that neither stalls nor issues puts a bubble in ID. -/
theorem idle_nop (hi : (machineAt image n).issue = none) (hs : (machineAt image n).stall = false) :
    (machineAt image (n + 1)).pipelineInfo.idInst.isNop = true := by
  rw [idInst_succ]
  cases hb : (machineAt image n).branchStall
  · cases hn : (machineAt image n).pipelineInfo.ifInst.isNop
    · simp [Machine.issue, hn, hs, hb] at hi
    · exact ((machineAt_inv n).accepted_bubble ⟨hs, hb⟩ hn).1
  · rw [Machine.idStage_of_branchStall hs hb]
    rfl

theorem idle_stall (hi : (machineAt image n).issue = none) :
    (machineAt image (n + 1)).stall = false := by
  cases hs : (machineAt image n).stall
  · exact (machineAt_inv (n + 1)).stall_of_nop (idle_nop hi hs)
  · rw [machineAt_succ]
    exact (machineAt_inv n).stall_runCycle hs

theorem Timed.inID_idle (h : Timed image n k) (hi : (machineAt image n).issue = none) :
    InID image (n + 1) k := by
  cases hs : (machineAt image n).stall
  · refine .inl ⟨idle_nop hi hs, fun j hj => ?_⟩
    rcases h.inID with ⟨_, hlt⟩ | ⟨i, rfl, _, he, hlt⟩
    · exact Nat.lt_succ_of_lt (hlt j hj)
    · rw [hs] at he
      simp only [Bool.toNat_false] at he
      rcases Nat.lt_succ_iff_lt_or_eq.mp hj with hji | rfl
      · exact Nat.lt_succ_of_lt (hlt j hji)
      · omega
  · rcases h.inID with ⟨hn, _⟩ | ⟨j, rfl, hj, he, hlt⟩
    · rw [(machineAt_inv n).stall_of_nop hn] at hs
      cases hs
    · refine .inr ⟨j, rfl, ?_, ?_, fun i hi => Nat.lt_succ_of_lt (hlt i hi)⟩
      · rw [← hj, idInst_succ, Machine.idStage_of_stall hs]
      · rw [he, hs, idle_stall hi]
        rfl

variable (hself : NoSelfModification image)
include hself

/-- ID holds a branch back exactly as long as the schedule makes it wait. -/
theorem Timed.branchStall_iff (h : Timed image n k) (hs : Sync image n k)
    (ha : available image k ≤ n + 1) (hc : isControl (Funct.executed image k) = true) :
    (machineAt image n).branchStall = true ↔ n + 1 < entry image k := by
  obtain ⟨hn, hstall⟩ := h.available_iff.mp ha
  have hnew : (machineAt image n).newIDInst.1.toDecoding = (Funct.executed image k).toDecoding := by
    rw [Machine.newIDInst_toDecoding, hs.decoded hself hn]
  have hbranch : (machineAt image n).branchStall =
      (conflict (machineAt image (n + 1)).pipelineInfo.exInst (Funct.executed image k) ||
        (conflict (machineAt image n).pipelineInfo.exInst (Funct.executed image k) &&
          (machineAt image n).pipelineInfo.exInst.readsMem)) := by
    rw [exInst_succ, ← conflict_congr (Machine.memStage_toDecoding _) hnew,
      ← conflict_congr rfl hnew]
    simp only [Machine.branchStall, hstall, isControl_congr hnew, hc, conflict,
      Machine.memStage_toDecoding, Bool.not_false, Bool.true_and]
  have hnear := h.inEX_succ.conflict_iff (Funct.executed image k) (fun _ => True)
  have hfar := h.inEX.conflict_iff (Funct.executed image k) (fun x => x.readsMem = true)
  simp only [and_true] at hnear
  rw [hbranch, Bool.or_eq_true, Bool.and_eq_true, hnear, hfar, ← Nat.not_le, entry_le_iff]
  constructor
  · rintro (⟨j, hj, he, hcf⟩ | ⟨j, hj, he, hcf, hload⟩) ⟨_, hall⟩
    · have := hall j hj _ ((latency_of_control hc).mpr ⟨hcf, rfl⟩)
      split at this <;> omega
    · have := hall j hj _ ((latency_of_control hc).mpr ⟨hcf, rfl⟩)
      rw [if_pos hload] at this
      omega
  · intro hwait
    by_contra hno
    refine hwait ⟨ha, fun j hj d hd => ?_⟩
    obtain ⟨hcf, rfl⟩ := (latency_of_control hc).mp hd
    have hle := h.older_le ha hj
    simp only [not_or, not_exists, not_and] at hno
    have hne : entry image j ≠ n := fun he => hno.1 j hj (by omega) hcf
    cases hload : (Funct.executed image j).readsMem
    · simp only [Bool.false_eq_true, if_false]
      omega
    · have hne' : entry image j + 1 ≠ n := fun he => hno.2 j hj he hcf hload
      simp only [if_true]
      omega

/-- An instruction enters ID for the last time in the cycle the schedule gives, or in the one
before, and then a load holds it for one cycle. -/
theorem Timed.enters (h : Timed image n k) (hs : Sync image n k) {d : Instruction}
    (hi : (machineAt image n).issue = some d) :
    entry image k = n + 1 + (machineAt image (n + 1)).stall.toNat := by
  obtain ⟨haccept, hn, _⟩ := Machine.issue_eq_some hi
  have ha := h.available_iff.mpr ⟨hn, haccept.stall⟩
  have hlow := h.lower
  have hinv : (machineAt image (n + 1)).Inv := machineAt_inv (n + 1)
  have hid : (machineAt image (n + 1)).pipelineInfo.idInst.toDecoding =
      (Funct.executed image k).toDecoding := hs.idInst_issued hself hi
  cases hc : isControl (Funct.executed image k)
  · have hfirst := h.first hc
    have hstall : (machineAt image (n + 1)).stall = true ↔ ∃ j < k, entry image j + 1 = n + 1 ∧
        conflict (Funct.executed image j) (Funct.executed image k) = true ∧
        (Funct.executed image j).readsMem = true := by
      rw [← h.inEX_succ.conflict_iff (Funct.executed image k) (fun x => x.readsMem = true),
        ← conflict_congr rfl hid, hinv.stall_eq, hinv.loadUseStall_iff]
      simp only [conflict, Bool.or_eq_true]
      exact And.comm
    cases hst : (machineAt image (n + 1)).stall
    · refine Nat.le_antisymm ?_ hlow
      refine (entry_le_iff k (n + 1)).mpr ⟨ha, fun j hj d hd => ?_⟩
      obtain ⟨hcf, hload, rfl⟩ := (latency_of_not_control hc).mp hd
      have hle := h.older_le ha hj
      have hne : entry image j ≠ n := by
        intro he
        rw [hstall.mpr ⟨j, hj, by omega, hcf, hload⟩] at hst
        cases hst
      omega
    · obtain ⟨j, hj, he, hcf, hload⟩ := hstall.mp hst
      have hwait := ((entry_le_iff k _).mp (Nat.le_refl _)).2 j hj 2
        ((latency_of_not_control hc).mpr ⟨hcf, hload, rfl⟩)
      refine Nat.le_antisymm ?_ (by simp only [Bool.toNat_true]; omega)
      refine (entry_le_iff k _).mpr ⟨Nat.le_succ_of_le ha, fun j hj d hd => ?_⟩
      obtain ⟨_, _, rfl⟩ := (latency_of_not_control hc).mp hd
      have hle := h.older_le ha hj
      simp only [Bool.toNat_true]
      omega
  · have hno : ¬(machineAt image n).branchStall = true := by
      rw [haccept.branchStall]
      decide
    rw [h.branchStall_iff hself hs ha hc] at hno
    rw [hinv.stall_control (by rw [isControl_congr hid, hc])]
    simp only [Bool.toNat_false]
    omega

theorem Timed.inID_issue (h : Timed image n k) (hs : Sync image n k) {d : Instruction}
    (hi : (machineAt image n).issue = some d) : InID image (n + 1) (k + 1) := by
  obtain ⟨haccept, hn, _⟩ := Machine.issue_eq_some hi
  have ha := h.available_iff.mpr ⟨hn, haccept.stall⟩
  exact .inr ⟨k, rfl, hs.idInst_issued hself hi, h.enters hself hs hi,
    fun i hi => Nat.lt_succ_of_le (h.older_le ha hi)⟩

theorem Timed.waited_issue (h : Timed image n k) (hs : Sync image n k) {d : Instruction}
    (hi : (machineAt image n).issue = some d) :
    stalls image (n + 1) + (machineAt image (n + 1)).stall.toNat = loadWaits image (k + 1) := by
  obtain ⟨haccept, hn, _⟩ := Machine.issue_eq_some hi
  have ha := h.available_iff.mpr ⟨hn, haccept.stall⟩
  have he := h.enters hself hs hi
  have hwaited := h.waited
  rw [haccept.stall] at hwaited
  rw [stalls_succ, haccept.stall, loadWaits_succ, ← hwaited]
  refine congrArg _ ?_
  cases hc : isControl (Funct.executed image k)
  · have hfirst := h.first hc
    simp only [Bool.false_eq_true, if_false, wait]
    omega
  · have hid := hs.idInst_issued hself hi
    rw [(machineAt_inv (n + 1)).stall_control (by rw [isControl_congr hid, hc])]
    rfl

/-- A cycle in which the schedule would let an instruction in, but ID does not, holds a branch. -/
theorem Timed.held (h : Timed image n k) (hs : Sync image n k)
    (hi : (machineAt image n).issue = none) (ha : available image k ≤ n + 1) :
    (machineAt image n).branchStall = true ∧ isControl (Funct.executed image k) = true := by
  obtain ⟨hn, hstall⟩ := h.available_iff.mp ha
  have hb : (machineAt image n).branchStall = true := by
    cases hb : (machineAt image n).branchStall
    · simp [Machine.issue, hn, hstall, hb] at hi
    · rfl
  have hnew : (machineAt image n).newIDInst.1.toDecoding = (Funct.executed image k).toDecoding := by
    rw [Machine.newIDInst_toDecoding, hs.decoded hself hn]
  refine ⟨hb, ?_⟩
  rw [← isControl_congr hnew]
  simp only [Machine.branchStall, Bool.and_eq_true] at hb
  exact hb.1.2

end

end CycleSim
