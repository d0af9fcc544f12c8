import CycleSim.Pipeline.Stalls
import CycleSim.Pipeline.Status

/-! How long an instruction is held, and where.

A load-use stall holds the ID latch, for one cycle; a branch that waits for an operand holds
the IF latch, for at most two (`stalls_bounded`). The tests that would hold a branch in ID are
never true, because a branch enters ID only with its operands ready. So a waiting branch is
seen in IF with a bubble before it in ID, where it should be seen itself
(`branch_held_in_IF`). -/
namespace CycleSim

namespace Machine

/-! ### How long -/

/-- A branch stall leaves a `nop` in ID; two of them leave one in EX too, and there is nothing
more to wait for. -/
theorem branchStall_runCycle_runCycle {m : Machine} (hb : m.branchStall = true)
    (hb' : m.runCycle.branchStall = true) : m.runCycle.runCycle.branchStall = false := by
  have hs : m.stall = false := (m.branchStall_iff.mp hb).1
  have hs' : m.runCycle.stall = false := (m.runCycle.branchStall_iff.mp hb').1
  have hid : m.runCycle.pipelineInfo.idInst = nop .bubble := idStage_of_branchStall hs hb
  have hid' : m.runCycle.runCycle.pipelineInfo.idInst = nop .bubble :=
    idStage_of_branchStall hs' hb'
  have hex' : m.runCycle.runCycle.pipelineInfo.exInst.toDecoding = (nop .bubble).toDecoding := by
    rw [← hid]
    exact exStage_toDecoding hs'
  rw [Bool.eq_false_iff, ne_eq, branchStall_iff]
  intro ⟨_, _, r, _, hz⟩
  rw [hid', hazard_congr hex', hazard_of_idle (nop_flags _)] at hz
  simp at hz

end Machine

/-- The stalls around cycle `n` are short and apart, and the IF latch stays in step with `PC`. -/
structure StallsBounded (image : MemoryImage) (n : Nat) : Prop where
  control : isControl (machineAt image n).pipelineInfo.idInst = true →
    (machineAt image n).stall = false
  arithBranch : (machineAt image n).arithBranchStall = false
  loadBranch : (machineAt image n).loadBranchStall = false
  once : (machineAt image n).stall = true → (machineAt image (n + 1)).stall = false
  twice : ¬((machineAt image n).branchStall = true ∧ (machineAt image (n + 1)).branchStall = true ∧
    (machineAt image (n + 2)).branchStall = true)
  apart : ¬((machineAt image n).stall = true ∧ (machineAt image n).branchStall = true)
  ifLatch : (machineAt image n).IfLatch

/-- **Stalls are bounded.** In a run of any program no branch or `jalr` stalls in ID, no stall
follows a stall, no third branch stall follows two, and the IF latch holds an inserted `nop` or
the word four bytes before `PC`. -/
theorem stalls_bounded (image : MemoryImage) (n : Nat) : StallsBounded image n where
  control := (machineAt_inv n).stall_control
  arithBranch := (machineAt_inv n).arithBranchStall_eq
  loadBranch := (machineAt_inv n).loadBranchStall_eq
  once := by
    intro hs
    rw [machineAt_succ]
    exact (machineAt_inv n).stall_runCycle hs
  twice := by
    intro ⟨hb, hb', hb''⟩
    rw [machineAt_succ] at hb'
    rw [machineAt_succ, machineAt_succ, Machine.branchStall_runCycle_runCycle hb hb'] at hb''
    cases hb''
  apart := by
    intro ⟨hs, hb⟩
    rw [((machineAt image n).branchStall_iff.mp hb).1] at hs
    cases hs
  ifLatch := (machineAt_inv n).ifLatch

/-! ### Where -/

/-- A branch or `jalr` reads a register that is still being computed: the instruction one stage
ahead writes it, or the one two stages ahead loads it. -/
def Awaits (x ahead further : Instruction) : Prop :=
  isControl x = true ∧ ∃ r, x.Reads r ∧
    (hazard ahead r = true ∨ hazard further r = true ∧ further.readsMem = true)

/-- In the coming cycle the branch or `jalr` waits for an operand. It is in ID, or it is in IF
and ID is free for it. -/
inductive Waits (m : Machine) : Instruction → Prop
  | inID : Awaits m.pipelineInfo.idInst m.pipelineInfo.exInst m.pipelineInfo.memInst →
      Waits m m.pipelineInfo.idInst
  | inIF : m.stall = false →
      Awaits (simDecode m.pipelineInfo.ifInst) m.pipelineInfo.idInst m.pipelineInfo.exInst →
      Waits m (simDecode m.pipelineInfo.ifInst)

/-- The dump after cycle `n` has the waiting branch in ID and its successor in IF, and if it
waited in the cycle before too, the inserted bubble in EX. -/
structure HeldInID (image : MemoryImage) (n : Nat) (x : Instruction) (dump : PipeState) : Prop where
  idInstr : dump.idInstr = x.instruction
  ifPC : dump.ifPC = x.pc + 4#64
  bubble : ∀ k y, n = k + 1 → Waits (machineAt image k) y → y.pc = x.pc →
    dump.exInstr = 0x00000013#64 ∧ dump.exStatus = .bubble

theorem Machine.Inv.not_awaits_inID {m : Machine} (h : m.Inv) :
    ¬Awaits m.pipelineInfo.idInst m.pipelineInfo.exInst m.pipelineInfo.memInst := by
  intro ⟨hc, r, hr, hz⟩
  have hnames : r = m.pipelineInfo.idInst.rs1 ∨ r = m.pipelineInfo.idInst.rs2 :=
    hr.imp (fun h1 => h1.2.symm) (fun h2 => h2.2.symm)
  obtain ⟨hex, hmem⟩ := h.control hc r hnames
  cases hz with
  | inl hz =>
    rw [hex] at hz
    cases hz
  | inr hz =>
    rw [hmem hz.2] at hz
    cases hz.1

/-- A branch that waits is in IF, and its cycle is a branch stall. -/
theorem Waits.branchStall {m : Machine} {x : Instruction} (h : m.Inv) (hw : Waits m x) :
    x = simDecode m.pipelineInfo.ifInst ∧ m.branchStall = true := by
  cases hw with
  | inID hx => exact absurd hx h.not_awaits_inID
  | inIF hs hx =>
    obtain ⟨hc, r, hr, hz⟩ := hx
    exact ⟨rfl, m.branchStall_iff.mpr ⟨hs, hc, r, Decoding.names_iff.mpr (.inl hr), hz⟩⟩

theorem instruction_of_control {x : Instruction} (hc : isControl (simDecode x) = true) :
    x.instruction ≠ 0x00000013#64 := by
  intro hword
  have hop : (simDecode x).opcode = extractBits x.instruction 6 0 :=
    congrArg (fun i : Instruction => i.opcode) (simDecode_fields x)
  rw [hword] at hop
  rw [isControl, hop] at hc
  exact absurd hc (by decide)

/-- **Waiting branches.** A branch or `jalr` that waits for an operand is dumped in IF, with the
inserted bubble in ID: it is never held in ID. -/
theorem branch_held_in_IF (image : MemoryImage) (n : Nat) (x : Instruction)
    (hw : Waits (machineAt image n) x) (cycle : BitVec 64) :
    let dump := (machineAt image (n + 1)).pipeState cycle
    dump.ifPC = x.pc ∧ dump.idInstr = 0x00000013#64 ∧ dump.idStatus = .bubble ∧
      ¬HeldInID image n x dump := by
  obtain ⟨rfl, hb⟩ := hw.branchStall (machineAt_inv n)
  obtain ⟨hs, hc, _⟩ := (machineAt image n).branchStall_iff.mp hb
  have hid : (machineAt image (n + 1)).pipelineInfo.idInst = nop .bubble := by
    rw [idInst_succ, Machine.idStage_of_branchStall hs hb]
  have hif : (machineAt image (n + 1)).pipelineInfo.ifInst =
      (machineAt image n).pipelineInfo.ifInst := by
    rw [ifInst_succ, (Machine.ifStage_of_stalled (by rw [hb, Bool.or_true])).1]
  have hidInstr : ((machineAt image (n + 1)).pipeState cycle).idInstr = 0x00000013#64 :=
    congrArg (fun i : Instruction => i.instruction) hid
  refine ⟨?_, hidInstr, congrArg Instruction.status hid, fun hheld => ?_⟩
  · rw [simDecode_pc]
    exact congrArg (fun i : Instruction => i.pc) hif
  · have hword := hheld.idInstr
    rw [hidInstr, simDecode_instruction] at hword
    exact instruction_of_control hc hword.symm

/-- `addi x1, x0, 1`, then `beq x1, x0, 8`. -/
def waitingImage : MemoryImage where
  bytes := [0x93#8, 0x00#8, 0x10#8, 0x00#8, 0x63#8, 0x84#8, 0x00#8, 0x00#8] ++
    List.replicate 0xFFF8 0#8
  length_eq := by
    rw [List.length_append, List.length_replicate]
    rfl

theorem waits_sample : Waits (machineAt waitingImage 2)
    (simDecode (machineAt waitingImage 2).pipelineInfo.ifInst) :=
  .inIF (by decide) ⟨by decide, 1#64, .inl ⟨by decide, by decide⟩, by decide⟩

theorem branch_held_in_IF_sample :
    ((machineAt waitingImage 3).pipeState 2#64).idInstr = 0x00000013#64 :=
  (branch_held_in_IF waitingImage 2 _ waits_sample 2#64).2.1

/-- The `beq` waits for the `addi` in front of it. -/
theorem not_heldInID : ¬∀ (image : MemoryImage) (n : Nat) (x : Instruction) (cycle : BitVec 64),
    Waits (machineAt image n) x → HeldInID image n x ((machineAt image (n + 1)).pipeState cycle) := by
  intro hall
  have hheld := hall waitingImage 2 _ 2#64 waits_sample
  exact absurd hheld.idInstr (by decide)

end CycleSim
