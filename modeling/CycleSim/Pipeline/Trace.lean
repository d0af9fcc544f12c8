import CycleSim.Pipeline.Sequential
import CycleSim.Memory.Access

/-! The run of the functional simulator on a memory image.

`executed image k` is the record of the `k`-th instruction (from 0), `stateAt image k`
the globals before it. The driver stops at the first HALT or illegal instruction:
`Reaches image k` says that the run comes to instruction `k`. -/
namespace CycleSim

theorem simDecode_unset (pc : BitVec 64) (memory : MemoryStore) :
    (simDecode (simFetch pc memory)).nextPC = 0#64 ∧
      (simDecode (simFetch pc memory)).arithResult = 0#64 := by
  have h := simDecode_fields (simFetch pc memory)
  exact ⟨congrArg Instruction.nextPC h, congrArg Instruction.arithResult h⟩

/-- MEM assigns `memResult` only. -/
theorem access_record (x : Instruction) (memory : MemoryStore) :
    ∃ v, (access x memory).1 = { x with memResult := v } := by
  unfold access simMemAccess
  cases x.readsMem
  · cases x.writesMem <;> exact ⟨x.memResult, rfl⟩
  · exact ⟨_, rfl⟩

@[simp] theorem simEX_nextPC (x : Instruction) : (Simulator.simEX x).nextPC = x.nextPC := by
  unfold Simulator.simEX
  cases x.doesArithLogic <;> simp only [Bool.false_eq_true, if_true, if_false] <;> split <;> rfl

/-- A write is all MEM does to the memory. -/
theorem access_memory {x : Instruction} (hx : Decoded x.toDecoding) (memory : MemoryStore) :
    (access x memory).2 = if x.writesMem then
      (memory.setMemValue x.memAddress x.op2Val (accessSize x.funct3)).store else memory := by
  unfold access simMemAccess
  cases hw : x.writesMem
  · cases x.readsMem <;> rfl
  · simp [(hx.store hw).2.2.1]

namespace Funct

/-- The decoding of the instruction at the PC. -/
def State.current (s : State) : Decoding := decodeAt s.pc s.simulator.memory

def State.arch (s : State) : Arch := s.simulator.arch

/-- The record the instruction at the PC has after its next PC is resolved. -/
def State.resolved (s : State) : Instruction :=
  simNextPCResolution
    (simOperandCollection (s.simulator.decoded (simFetch s.pc s.simulator.memory)) s.simulator.regData)

theorem step_of_traps {s : State} (h : s.current.traps = true) : step s =
    (s.simulator.decoded (simFetch s.pc s.simulator.memory),
      ⟨{ s.simulator with din := s.simulator.din + 1#64 }, 0#64⟩) := by
  have hpc : (s.simulator.decoded (simFetch s.pc s.simulator.memory)).nextPC = 0#64 :=
    (simDecode_unset _ _).1
  unfold step
  rw [Simulator.simInstruction_of_traps h]
  simp only [hpc]

theorem step_of_legal {s : State} (h : s.current.traps = false) : step s =
    ((access (Simulator.simEX s.resolved) s.simulator.memory).1,
      ⟨{ s.simulator with
          regData := (finish (Simulator.simEX s.resolved) s.arch).regs
          memory := (finish (Simulator.simEX s.resolved) s.arch).memory
          din := s.simulator.din + 1#64 }, s.resolved.nextPC⟩) := by
  obtain ⟨v, hv⟩ := access_record (Simulator.simEX s.resolved) s.simulator.memory
  have hpc : (access (Simulator.simEX s.resolved) s.simulator.memory).1.nextPC =
      s.resolved.nextPC := by
    rw [hv]
    exact simEX_nextPC _
  unfold step
  rw [Simulator.simInstruction_of_legal h, Simulator.completed_eq]
  show ((access (Simulator.simEX s.resolved) s.simulator.memory).1,
    State.mk _ (access (Simulator.simEX s.resolved) s.simulator.memory).1.nextPC) = _
  rw [hpc]
  rfl

theorem resolved_toDecoding (s : State) : s.resolved.toDecoding = s.current := rfl

@[simp] theorem step_toDecoding (s : State) : (step s).1.toDecoding = s.current := by
  cases h : s.current.traps
  · rw [step_of_legal h]
    exact (access_toDecoding _ _).trans (simEX_toDecoding _)
  · rw [step_of_traps h]
    rfl

theorem step_arch (s : State) : (step s).2.arch = s.current.execute s.arch := by
  have hdec : Decoded s.current := decodeAt_decoded _ _
  cases h : s.current.traps
  · have hsame : SameOperands s.resolved (simOperandCollection { toDecoding := s.current } s.arch.regs) :=
      ⟨rfl, (simDecode_unset _ _).2, fun h1 => (if_pos h1).trans (if_pos h1).symm,
        fun h2 => (if_pos h2).trans (if_pos h2).symm⟩
    rw [step_of_legal h]
    exact (hsame.simEX hdec).finish_eq _
  · rw [step_of_traps h, hdec.execute_of_traps h]
    rfl

theorem step_pc (s : State) : (step s).2.pc = s.current.successor s.simulator.regData := by
  have hdec : Decoded s.current := decodeAt_decoded _ _
  cases h : s.current.traps
  · have hl : s.current.isLegal = true := by
      simp only [Decoding.traps, Bool.or_eq_false_iff, Bool.not_eq_false'] at h
      exact h.1
    rw [step_of_legal h]
    simp only [Decoding.successor, h, Bool.false_eq_true, if_false]
    refine simNextPCResolution_congr rfl (fun hc => ?_) (fun hb => ?_)
    · have hread1 : s.current.readsRs1 = true := hdec.control hl hc
      exact (if_pos hread1).trans (if_pos hread1).symm
    · have hread2 := (hdec.branch hl hb).2
      exact (if_pos hread2).trans (if_pos hread2).symm
  · rw [step_of_traps h]
    simp only [Decoding.successor, h, if_true]

theorem step_din (s : State) : (step s).2.simulator.din = s.simulator.din + 1#64 := by
  cases h : s.current.traps
  · rw [step_of_legal h]
  · rw [step_of_traps h]

theorem step_memory (s : State) : (step s).2.simulator.memory =
    if (step s).1.writesMem then (s.simulator.memory.setMemValue (step s).1.memAddress
      (step s).1.op2Val (accessSize (step s).1.funct3)).store else s.simulator.memory := by
  have hdec : Decoded s.current := decodeAt_decoded _ _
  rw [step_toDecoding]
  cases h : s.current.traps
  · obtain ⟨v, hv⟩ := access_record (Simulator.simEX s.resolved) s.simulator.memory
    have hx : Decoded (Simulator.simEX s.resolved).toDecoding := by
      rw [simEX_toDecoding]
      exact hdec
    rw [step_of_legal h, hv]
    show (access (Simulator.simEX s.resolved) s.simulator.memory).2 = _
    rw [access_memory hx, simEX_toDecoding, resolved_toDecoding]
  · have hw : s.current.writesMem = false := congrArg Flags.writesMem (hdec.flags_of_traps h)
    rw [step_of_traps h, hw]
    rfl

/-! ### The trace -/

section
variable (image : MemoryImage)

/-- The globals before instruction `k`. -/
def stateAt (k : Nat) : State := (fun s => (step s).2)^[k] (initSimulator image.store)

/-- The record of instruction `k`. -/
def executed (k : Nat) : Instruction := (step (stateAt image k)).1

/-- The run comes to instruction `k`: no instruction before it is HALT or illegal. -/
def Reaches (k : Nat) : Prop := ∀ i < k, (executed image i).traps = false

/-- The first `k` instructions. -/
def trace (k : Nat) : List Decoding :=
  (List.range k).map (fun i => (executed image i).toDecoding)

end

section
variable {image : MemoryImage}

theorem stateAt_succ (k : Nat) : stateAt image (k + 1) = (step (stateAt image k)).2 :=
  Function.iterate_succ_apply' _ _ _

theorem executed_toDecoding (k : Nat) :
    (executed image k).toDecoding = (stateAt image k).current := step_toDecoding _

theorem executed_pc (k : Nat) : (executed image k).pc = (stateAt image k).pc := by
  rw [executed_toDecoding]
  exact decodeAt_pc _ _

theorem executed_decoded (k : Nat) : Decoded (executed image k).toDecoding := by
  rw [executed_toDecoding]
  exact decodeAt_decoded _ _

theorem Reaches.mono {i k : Nat} (h : Reaches image k) (hik : i ≤ k) : Reaches image i :=
  fun j hj => h j (Nat.lt_of_lt_of_le hj hik)

theorem Reaches.succ {k : Nat} (h : Reaches image k) (ht : (executed image k).traps = false) :
    Reaches image (k + 1) := by
  intro i hi
  rcases Nat.lt_succ_iff_lt_or_eq.mp hi with hlt | rfl
  · exact h i hlt
  · exact ht

/-- A run comes to no instruction past its first HALT or illegal one. -/
theorem Reaches.le_of_traps {i k : Nat} (h : Reaches image k)
    (ht : (executed image i).traps = true) : k ≤ i := by
  by_contra hlt
  rw [h i (by omega)] at ht
  cases ht

theorem trace_succ (k : Nat) :
    trace image (k + 1) = trace image k ++ [(executed image k).toDecoding] := by
  simp [trace, List.range_succ]

theorem arch_succ (k : Nat) :
    (stateAt image (k + 1)).arch = (executed image k).execute (stateAt image k).arch := by
  rw [stateAt_succ, step_arch, executed_toDecoding]

theorem pc_succ (k : Nat) : (stateAt image (k + 1)).pc =
    (executed image k).successor (stateAt image k).simulator.regData := by
  rw [stateAt_succ, step_pc, executed_toDecoding]

theorem executed_nextPC (k : Nat) : (executed image k).nextPC = (stateAt image (k + 1)).pc := by
  rw [stateAt_succ]
  rfl

theorem memory_succ (k : Nat) : (stateAt image (k + 1)).simulator.memory =
    if (executed image k).writesMem then
      ((stateAt image k).simulator.memory.setMemValue (executed image k).memAddress
        (executed image k).op2Val (accessSize (executed image k).funct3)).store
    else (stateAt image k).simulator.memory := by
  rw [stateAt_succ, step_memory]
  rfl

end

end Funct

/-! ### Programs that do not modify themselves -/

/-- An access of `n` bytes at `address` reaches byte `b` of the memory. -/
def Touches (address : BitVec 64) (n b : Nat) : Prop :=
  address.toNat ≤ b ∧ b < address.toNat + n ∧ b < memorySize

/-- No instruction of the run stores to a byte an instruction of the run is fetched from. -/
def NoSelfModification (image : MemoryImage) : Prop :=
  ∀ i j, Funct.Reaches image i → Funct.Reaches image j →
    (Funct.executed image i).writesMem = true → ∀ b,
    Touches (Funct.executed image i).memAddress
      (accessSize (Funct.executed image i).funct3).toNat b →
    ¬Touches (Funct.executed image j).pc 4 b

/-- A memory of the size and at the address of an image. -/
structure IsImage (memory : MemoryStore) : Prop where
  startAddr : memory.startAddr = 0#64
  length : memory.memArr.length = memorySize

theorem IsImage.length_le {memory : MemoryStore} (h : IsImage memory) :
    memory.memArr.length ≤ MemoryStore.maxEntries := by
  rw [h.length]
  decide

theorem IsImage.offset {memory : MemoryStore} (h : IsImage memory) (address : BitVec 64) :
    memory.offset address = address.toNat := by
  rw [MemoryStore.offset, h.startAddr, BitVec.sub_zero]

theorem IsImage.write {memory : MemoryStore} (h : IsImage memory) (address value : BitVec 64)
    (size : MemEntrySize) : IsImage (memory.write address value size) :=
  ⟨h.startAddr, (Bytes.length_splice _ _ _).trans h.length⟩

/-- A fetch sees only the bytes it touches. -/
theorem simFetch_congr {pc : BitVec 64} {memory memory' : MemoryStore} (h : IsImage memory)
    (h' : IsImage memory') (hb : ∀ b, Touches pc 4 b → memory.memArr[b]? = memory'.memArr[b]?) :
    simFetch pc memory = simFetch pc memory' := by
  have hslice : memory.slice pc 4 = memory'.slice pc 4 := by
    apply List.ext_getElem?
    intro k
    simp only [MemoryStore.slice, h.offset, h'.offset, List.getElem?_take, List.getElem?_drop]
    by_cases hk : k < 4
    · rw [if_pos hk, if_pos hk]
      by_cases hin : pc.toNat + k < memorySize
      · exact hb _ ⟨by omega, by omega, hin⟩
      · rw [List.getElem?_eq_none (by rw [h.length]; omega),
          List.getElem?_eq_none (by rw [h'.length]; omega)]
    · rw [if_neg hk, if_neg hk]
  have hvalue : (memory.getMemValue pc 0#64 .wordSize).value =
      (memory'.getMemValue pc 0#64 .wordSize).value := by
    apply BitVec.eq_of_toNat_eq
    rw [(MemoryStore.getMemValue_eq h.length_le pc 0#64 .wordSize).1,
      (MemoryStore.getMemValue_eq h'.length_le pc 0#64 .wordSize).1]
    exact congrArg Bytes.value hslice
  simp only [simFetch, hvalue]

namespace Funct

variable {image : MemoryImage}

theorem memory_isImage (k : Nat) : IsImage (stateAt image k).simulator.memory := by
  induction k with
  | zero => exact ⟨rfl, image.length_eq⟩
  | succ k ih =>
    rw [memory_succ]
    split
    · rw [MemoryStore.setMemValue_eq ih.length_le]
      exact ih.write _ _ _
    · exact ih

/-- A word no byte of which is stored to stays as it was. -/
theorem fetch_succ_of_apart {i : Nat} {pc : BitVec 64}
    (hapart : (executed image i).writesMem = true → ∀ b,
      Touches (executed image i).memAddress (accessSize (executed image i).funct3).toNat b →
      ¬Touches pc 4 b) :
    simFetch pc (stateAt image (i + 1)).simulator.memory =
      simFetch pc (stateAt image i).simulator.memory := by
  refine simFetch_congr (memory_isImage _) (memory_isImage _) (fun b hb => ?_)
  rw [memory_succ]
  split
  · rename_i hw
    have himage : IsImage (stateAt image i).simulator.memory := memory_isImage i
    rw [MemoryStore.setMemValue_eq himage.length_le]
    simp only [MemoryStore.write, Bytes.getElem?_splice, Bytes.length_digits, himage.offset,
      himage.length]
    exact if_neg (fun hcov => hapart hw b hcov hb)
  · rfl

/-- An instruction of the run leaves the words of the run as they were. -/
theorem fetch_succ (hself : NoSelfModification image) {i k : Nat} (hi : Reaches image i)
    (hk : Reaches image k) :
    simFetch (stateAt image k).pc (stateAt image (i + 1)).simulator.memory =
      simFetch (stateAt image k).pc (stateAt image i).simulator.memory := by
  rw [← executed_pc]
  exact fetch_succ_of_apart (hself i k hi hk)

/-- The word of an instruction is there from the beginning. -/
theorem fetch_eq (hself : NoSelfModification image) {i k : Nat} (hk : Reaches image k)
    (hik : i ≤ k) : simFetch (stateAt image k).pc (stateAt image i).simulator.memory =
      simFetch (stateAt image k).pc (stateAt image k).simulator.memory := by
  induction hik using Nat.decreasingInduction with
  | self => rfl
  | of_succ i hlt ih => rw [← ih, fetch_succ hself (hk.mono (by omega)) hk]

end Funct

/-! ### A small program -/

/-- `lw x1, 12(x0)`, then `bne x1, x0` to address 12, where HALT lies. -/
def sampleImage : MemoryImage where
  bytes := [0x83#8, 0x20#8, 0xc0#8, 0x00#8, 0x63#8, 0x94#8, 0x00#8, 0x00#8,
    0x00#8, 0x00#8, 0x00#8, 0x00#8, 0xed#8, 0xfe#8, 0xed#8, 0xfe#8] ++ List.replicate 0xFFF0 0#8
  length_eq := by
    rw [List.length_append, List.length_replicate]
    rfl

theorem sampleImage_reaches : Funct.Reaches sampleImage 2 := by
  unfold Funct.Reaches
  decide

theorem sampleImage_halts : (Funct.executed sampleImage 2).isHalt = true := by decide

theorem sampleImage_noSelfModification : NoSelfModification sampleImage := by
  intro i j hi _ hw
  have hstore : ∀ i ≤ 2, (Funct.executed sampleImage i).writesMem = false := by decide
  rw [hstore i (hi.le_of_traps (Decoding.traps_of_halt sampleImage_halts))] at hw
  cases hw

end CycleSim
