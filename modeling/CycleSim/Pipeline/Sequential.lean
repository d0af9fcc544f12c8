import CycleSim.Funct
import CycleSim.Pipeline.Latch

/-! One instruction at a time.

An instruction is known by its `Decoding`: what it does to the registers and the
memory (`Decoding.execute`) and which address follows it (`Decoding.successor`)
depend on nothing else in its record. The functional simulator executes the
decoding of the word at its PC and moves to its successor (`Funct.step_arch`,
`Funct.step_pc`). -/
namespace CycleSim

/-- The effect of an instruction that has been decoded. -/
def Decoding.execute (x : Decoding) (a : Arch) : Arch := CycleSim.execute { toDecoding := x } a

/-- Neither `simID` nor `simInstruction` goes on with such an instruction. -/
def Decoding.traps (x : Decoding) : Bool := !x.isLegal || x.isHalt

/-- The next PC of an instruction executed on the registers `r`. -/
def Decoding.successor (x : Decoding) (r : Regs) : BitVec 64 :=
  if x.traps then 0#64
  else (simNextPCResolution (simOperandCollection { toDecoding := x } r)).nextPC

theorem execute_eq {x : Instruction} (hx : Decoded x.toDecoding) (ha : x.arithResult = 0#64)
    (a : Arch) : execute x a = x.toDecoding.execute a := by
  have hsame : SameOperands (simOperandCollection x a.regs)
      (simOperandCollection { toDecoding := x.toDecoding } a.regs) :=
    ⟨rfl, ha, fun h1 => (if_pos h1).trans (if_pos h1).symm,
      fun h2 => (if_pos h2).trans (if_pos h2).symm⟩
  exact (hsame.simEX hx).finish_eq a

theorem Decoding.execute_of_idle {x : Decoding} (h : x.flags = {}) (a : Arch) : x.execute a = a :=
  CycleSim.execute_of_idle h a

theorem Decoded.execute_of_nop {x : Decoding} (h : Decoded x) (hn : x.isNop = true) (a : Arch) :
    x.execute a = a :=
  Decoding.execute_of_idle (h.idle (.inr (.inr hn))) a

theorem Decoded.flags_of_traps {x : Decoding} (h : Decoded x) (ht : x.traps = true) :
    x.flags = {} := by
  simp only [Decoding.traps, Bool.or_eq_true, Bool.not_eq_true'] at ht
  rcases ht with ht | ht
  · exact h.idle (.inl ht)
  · exact h.idle (.inr (.inl ht))

theorem Decoded.not_nop {x : Decoding} (h : Decoded x) (ht : x.traps = true) :
    x.isNop = false := by
  refine Bool.eq_false_iff.mpr (fun hn => ?_)
  simp [Decoding.traps, h.nop hn] at ht

theorem Decoding.traps_of_halt {x : Decoding} (h : x.isHalt = true) : x.traps = true := by
  rw [Decoding.traps, h, Bool.or_true]

theorem Decoded.execute_of_traps {x : Decoding} (h : Decoded x) (ht : x.traps = true) (a : Arch) :
    x.execute a = a :=
  Decoding.execute_of_idle (h.flags_of_traps ht) a

theorem nextPC_of_sequential {x : Instruction} (hj : x.opcode ≠ opJalr) (hb : x.opcode ≠ opBranch)
    (hl : x.opcode ≠ opJal) : (simNextPCResolution x).nextPC = x.pc + 4#64 := by
  simp only [simNextPCResolution, hj, hb, hl, if_false]

/-- Only a branch or `jalr` looks at its operands for the next PC. -/
theorem simNextPCResolution_congr {x y : Instruction} (hd : x.toDecoding = y.toDecoding)
    (h1 : isControl x = true → x.op1Val = y.op1Val)
    (h2 : x.opcode = opBranch → x.op2Val = y.op2Val) :
    (simNextPCResolution x).nextPC = (simNextPCResolution y).nextPC := by
  simp only [simNextPCResolution, ← hd]
  by_cases hj : x.opcode = opJalr
  · rw [h1 (by simp [isControl, hj])]
    simp only [hj, if_true]
  · by_cases hb : x.opcode = opBranch
    · rw [h1 (by simp [isControl, hb]), h2 hb]
    · simp only [hj, hb, if_false]

/-- The decoding of the word at `pc`. -/
def decodeAt (pc : BitVec 64) (memory : MemoryStore) : Decoding :=
  (simDecode (simFetch pc memory)).toDecoding

theorem simFetch_fresh (pc : BitVec 64) (memory : MemoryStore) :
    Fresh (simFetch pc memory).toDecoding where
  isHalt := rfl
  isNop := fun hn => nomatch hn
  flags := rfl

theorem decodeAt_decoded (pc : BitVec 64) (memory : MemoryStore) : Decoded (decodeAt pc memory) :=
  simDecode_decoded _ (simFetch_fresh pc memory)

theorem decodeAt_pc (pc : BitVec 64) (memory : MemoryStore) : (decodeAt pc memory).pc = pc :=
  simDecode_pc _

def Simulator.arch (s : Simulator) : Arch := ⟨s.regData, s.memory⟩

namespace Simulator

/-- `simInstruction` from `simArithLogic` on. -/
def completed (s : Simulator) (inst : Instruction) : Instruction × Simulator :=
  let inst := if inst.doesArithLogic then simArithLogic inst else inst
  let (inst, s) :=
    if inst.readsMem || inst.writesMem then
      let inst := simAddrGen inst
      let (inst, memory) := simMemAccess inst s.memory
      (inst, { s with memory := memory })
    else (inst, s)
  if inst.writesRd then (inst, { s with regData := simCommit inst s.regData }) else (inst, s)

theorem completed_eq (s : Simulator) (x : Instruction) : s.completed x =
    ((access (simEX x) s.memory).1,
      { s with
        regData := retire (access (simEX x) s.memory).1 s.regData
        memory := (access (simEX x) s.memory).2 }) := by
  unfold completed simEX
  generalize (if x.doesArithLogic then simArithLogic x else x) = y
  unfold access retire
  cases hr : y.readsMem <;> cases hw : y.writesMem <;> cases hrd : y.writesRd <;>
    simp [hr, hw, hrd]

theorem simInstruction_of_traps {s : Simulator} {pc : BitVec 64}
    (h : (decodeAt pc s.memory).traps = true) :
    s.simInstruction pc = (s.decoded (simFetch pc s.memory), { s with din := s.din + 1#64 }) := by
  unfold simInstruction
  exact if_pos h

theorem simInstruction_of_legal {s : Simulator} {pc : BitVec 64}
    (h : (decodeAt pc s.memory).traps = false) :
    s.simInstruction pc = ({ s with din := s.din + 1#64 } : Simulator).completed
      (simNextPCResolution (simOperandCollection (s.decoded (simFetch pc s.memory)) s.regData)) := by
  unfold simInstruction
  exact if_neg (by
    show ¬(decodeAt pc s.memory).traps = true
    rw [h]
    decide)

end Simulator

end CycleSim
