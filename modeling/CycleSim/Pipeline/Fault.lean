import CycleSim.Pipeline.Run

/-! Loads and stores that leave the memory.

`simMemAccess` does not look at the error code, so what the loops of `getOrSetValue` did
before they met the end stays done: a load that faults commits the bytes it reached, a store
keeps them. `fault_updates_nothing_iff` says when that changes nothing. -/
namespace CycleSim

/-- A load or store whose bytes are not all inside the memory. -/
structure Faults (x : Instruction) (mem : MemoryStore) : Prop where
  memory : x.readsMem = true ∨ x.writesMem = true
  outside : ¬mem.InBounds x.memAddress (accessSize x.funct3)

/-- The number formed by those bytes of the access that are in the memory. -/
def Instruction.partialValue (x : Instruction) (mem : MemoryStore) : BitVec 64 :=
  BitVec.ofNat 64 (Bytes.value (mem.slice x.memAddress (accessSize x.funct3).toNat))

/-- What a faulting access leaves is there already: the destination register holds the bytes
inside, the bytes inside hold the value stored. -/
structure AlreadyHolds (x : Instruction) (a : Arch) : Prop where
  load : x.readsMem = true → a.regs.get x.rd = x.partialValue a.memory
  store : x.writesMem = true → a.memory.HoldsInside x.memAddress x.op2Val (accessSize x.funct3)

theorem Regs.set_eq_self_iff {r : Regs} {i v : BitVec 64} (hi : i.toNat < 32) :
    r.set i v = r ↔ r.get i = v := by
  constructor
  · intro h
    rw [← h, Regs.get_set r i i v hi, if_pos rfl]
  · intro h
    have hv : r.registers[i.toNat] = v := by
      simpa only [Regs.get, Vector.getElem?_eq_getElem hi, Option.getD_some] using h
    obtain ⟨registers⟩ := r
    refine congrArg Regs.mk (Vector.ext (fun j hj => ?_))
    rw [Vector.getElem_setIfInBounds]
    split
    · rename_i hij
      subst hij
      exact hv.symm
    · rfl

section
variable {x : Instruction} {mem : MemoryStore} (hlen : mem.memArr.length ≤ MemoryStore.maxEntries)
include hlen

/-- The last byte of a load that faults is never read, so no sign is extended. -/
theorem Faults.access_load (hf : Faults x mem) (hr : x.readsMem = true) :
    access x mem = ({ x with memResult := x.partialValue mem }, mem) := by
  have hvalue := (MemoryStore.getMemValue_eq hlen x.memAddress 0#64 (accessSize x.funct3)).1
  generalize hv : (mem.getMemValue x.memAddress 0#64 (accessSize x.funct3)).value = value at hvalue
  have hsmall : value.toNat < 2 ^ ((accessSize x.funct3).toNat * 8 - 1) := by
    have hshort : (mem.slice x.memAddress (accessSize x.funct3).toNat).length <
        (accessSize x.funct3).toNat := by
      have hout := hf.outside
      have hpos := (MemoryStore.size_bounds (accessSize x.funct3)).1
      simp only [MemoryStore.InBounds] at hout
      simp only [MemoryStore.slice, List.length_take, List.length_drop]
      omega
    rw [hvalue]
    calc Bytes.value (mem.slice x.memAddress (accessSize x.funct3).toNat)
        < 256 ^ (mem.slice x.memAddress (accessSize x.funct3).toNat).length := Bytes.value_lt _
      _ = 2 ^ (8 * (mem.slice x.memAddress (accessSize x.funct3).toNat).length) :=
        (Nat.pow_mul 2 8 _).symm
      _ ≤ 2 ^ ((accessSize x.funct3).toNat * 8 - 1) :=
        Nat.pow_le_pow_right (by decide) (by omega)
  have hpartial : value = x.partialValue mem := by
    rw [Instruction.partialValue, ← hvalue, BitVec.ofNat_toNat, BitVec.setWidth_eq]
  rw [← hpartial]
  simp only [access, simMemAccess, hr, Bool.true_or, if_true, hv,
    sext64_of_clear (Nat.testBit_lt_two_pow hsmall), ite_self]

theorem access_store (hr : x.readsMem = false) (hw : x.writesMem = true) :
    access x mem = (x, mem.write x.memAddress x.op2Val (accessSize x.funct3)) := by
  simp only [access, simMemAccess, hr, hw, Bool.or_true, Bool.false_eq_true, if_true, if_false,
    MemoryStore.setMemValue_eq hlen]

/-- MEM and WB of an access that faults, on any registers. -/
theorem Faults.finish_eq_self_iff (hf : Faults x mem) (hx : Decoded x.toDecoding) (regs : Regs) :
    finish x ⟨regs, mem⟩ = ⟨regs, mem⟩ ↔ AlreadyHolds x ⟨regs, mem⟩ := by
  cases hr : x.readsMem
  · have hw : x.writesMem = true := hf.memory.resolve_left (by simp [hr])
    have hrd : x.writesRd = false := hx.store_writesRd hw
    have hwrite := mem.write_memArr_eq_iff x.memAddress x.op2Val (accessSize x.funct3)
    have hfinish : finish x ⟨regs, mem⟩ =
        ⟨regs, mem.write x.memAddress x.op2Val (accessSize x.funct3)⟩ := by
      simp only [finish, access_store hlen hr hw, retire, hrd, Bool.false_eq_true, if_false]
    rw [hfinish]
    constructor
    · intro h
      refine ⟨fun hr' => absurd hr' (by simp [hr]), fun _ => hwrite.mp ?_⟩
      exact congrArg (fun a => a.memory.memArr) h
    · intro h
      show Arch.mk regs { mem with memArr := (mem.write _ _ _).memArr } = _
      rw [hwrite.mpr (h.store hw)]
  · obtain ⟨hrd, _, hw⟩ := hx.load hr
    have hfinish : finish x ⟨regs, mem⟩ = ⟨regs.set x.rd (x.partialValue mem), mem⟩ := by
      simp only [finish, hf.access_load hlen hr, retire, hrd, if_true, simCommit,
        Instruction.result, hr]
    rw [hfinish]
    constructor
    · intro h
      refine ⟨fun _ => (Regs.set_eq_self_iff hx.rd_lt).mp (congrArg Arch.regs h), fun hw' => ?_⟩
      rw [hw] at hw'
      cases hw'
    · intro h
      rw [(Regs.set_eq_self_iff hx.rd_lt).mpr (h.load hr)]

end

namespace Simulator

/-- The record `simInstruction` passes to `simMemAccess`, less its next PC and its number. -/
def requested (s : Simulator) (pc : BitVec 64) : Instruction :=
  simEX (simOperandCollection { toDecoding := decodeAt pc s.memory } s.regData)

theorem simInstruction_arch (s : Simulator) (pc : BitVec 64) :
    (s.simInstruction pc).2.arch = finish (s.requested pc) s.arch := Funct.step_arch ⟨s, pc⟩

theorem requested_decoded (s : Simulator) (pc : BitVec 64) :
    Decoded (s.requested pc).toDecoding := by
  rw [requested, simEX_toDecoding]
  exact decodeAt_decoded pc s.memory

/-- `simMEM` and, later, `simWB` do what `finish` does. -/
theorem simMEM_simWB_iff (s s' : Simulator) (x : Instruction) :
    (s.simMEM x).2.arch = s.arch ∧ (s'.simWB (s.simMEM x).1).2.arch = s'.arch ↔
      finish x ⟨s'.regData, s.memory⟩ = ⟨s'.regData, s.memory⟩ := by
  rw [simMEM_eq, simWB_eq]
  simp only [arch, finish, Arch.mk.injEq, true_and, and_true]
  exact and_comm

end Simulator

/-- The access of the record in EX goes through MEM in this cycle and through WB in the next. -/
theorem Machine.Inv.faulting_access_iff {m : Machine} (h : m.Inv)
    (hlen : m.simulator.memory.memArr.length ≤ MemoryStore.maxEntries)
    (hf : Faults m.pipelineInfo.exInst m.simulator.memory) :
    m.runCycle.simulator.memory = m.simulator.memory ∧
        m.runCycle.runCycle.simulator.regData = m.runCycle.simulator.regData ↔
      AlreadyHolds m.pipelineInfo.exInst ⟨m.runCycle.simulator.regData, m.simulator.memory⟩ := by
  have hretire : m.runCycle.runCycle.simulator.regData =
      retire m.memResult.1 m.runCycle.simulator.regData := by
    rw [h.runCycle.runCycle_regData]
    show retire m.memStage.1 _ = _
    rw [h.memStage_eq]
    rfl
  rw [← hf.finish_eq_self_iff hlen h.exDecoded, hretire, h.runCycle_memory]
  simp only [finish, Arch.mk.injEq]
  exact and_comm

/-- **Faulting accesses.** A load or store that faults leaves the registers and the memory as
they were, executed by `simInstruction` or by `simMEM` and a later `simWB`, exactly when they
hold already what its access leaves. -/
theorem fault_updates_nothing_iff (s : Simulator)
    (hlen : s.memory.memArr.length ≤ MemoryStore.maxEntries) :
    (∀ pc, Faults (s.requested pc) s.memory →
      ((s.simInstruction pc).2.arch = s.arch ↔ AlreadyHolds (s.requested pc) s.arch)) ∧
    ∀ (x : Instruction) (s' : Simulator), Decoded x.toDecoding → Faults x s.memory →
      ((s.simMEM x).2.arch = s.arch ∧ (s'.simWB (s.simMEM x).1).2.arch = s'.arch ↔
        AlreadyHolds x ⟨s'.regData, s.memory⟩) := by
  constructor
  · intro pc hf
    rw [Simulator.simInstruction_arch]
    exact hf.finish_eq_self_iff hlen (s.requested_decoded pc) s.regData
  · intro x s' hx hf
    rw [Simulator.simMEM_simWB_iff]
    exact hf.finish_eq_self_iff hlen hx s'.regData

/-- `lw x1, 6(x0)` in a memory of eight bytes, the last two of them given. -/
def faultingLoad (b₆ b₇ : BitVec 8) : Simulator where
  memory := ⟨0, [0x83#8, 0x20#8, 0x60#8, 0x00#8, 0x00#8, 0x00#8, b₆, b₇]⟩

/-- The same, with the two bytes inside in the register already. -/
def alreadyLoaded : Simulator :=
  { faultingLoad 0x34#8 0x12#8 with
    regData := (faultingLoad 0x34#8 0x12#8).regData.set 1#64 0x1234#64 }

/-- The load faults and changes nothing, executed at once or through MEM and WB. -/
theorem fault_updates_nothing_sample :
    alreadyLoaded.regData.get 1#64 = 0x1234#64 ∧
      Faults (alreadyLoaded.requested 0#64) alreadyLoaded.memory ∧
      (alreadyLoaded.simInstruction 0#64).2.arch = alreadyLoaded.arch ∧
      (alreadyLoaded.simMEM (alreadyLoaded.requested 0#64)).2.arch = alreadyLoaded.arch ∧
      (alreadyLoaded.simWB (alreadyLoaded.simMEM (alreadyLoaded.requested 0#64)).1).2.arch =
        alreadyLoaded.arch := by
  have hholds : AlreadyHolds (alreadyLoaded.requested 0#64) alreadyLoaded.arch :=
    ⟨fun _ => by decide, fun hw => absurd hw (by decide)⟩
  have hfaults : Faults (alreadyLoaded.requested 0#64) alreadyLoaded.memory :=
    ⟨.inl (by decide), by decide⟩
  obtain ⟨hinst, hpipe⟩ := fault_updates_nothing_iff alreadyLoaded (by decide)
  obtain ⟨hmem, hwb⟩ := (hpipe _ alreadyLoaded (Simulator.requested_decoded _ _) hfaults).mpr hholds
  exact ⟨by decide, hfaults, (hinst 0#64 hfaults).mpr hholds, hmem, hwb⟩

/-- The register receives the two bytes inside, 0x1234. -/
theorem fault_updates_register : ¬∀ (s : Simulator) (pc : BitVec 64),
    Faults (s.requested pc) s.memory → (s.simInstruction pc).2.arch = s.arch := by
  intro hall
  have hkept := hall (faultingLoad 0x34#8 0x12#8) 0#64 ⟨.inl (by decide), by decide⟩
  have hreg := congrArg (fun a => a.regs.get 1#64) hkept
  exact absurd hreg (by decide)

end CycleSim
