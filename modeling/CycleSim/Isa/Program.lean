import CycleSim.Isa.Conformance
import CycleSim.Pipeline.CycleCount

/-! Both simulators execute RV64I programs.

`Rv64i.State.run` executes valid words one after the other. As long as it does and stays
inside the 64 KB, `simInstruction` does the same (`program_state`); HALT is no valid word, so
the run that comes to it ends there in all three. -/
namespace CycleSim

open Rv64i (Op)

/-- The state of the specification both simulators start from. -/
def initialState (image : MemoryImage) : Rv64i.State := archState (initialArch image) 0#64

/-- The state of the specification before instruction `k`. -/
def Funct.State.isaState (s : Funct.State) : Rv64i.State := archState s.arch s.pc

/-! ### Fetching -/

section
variable {a : Arch} (himage : IsImage a.memory)
include himage

theorem byte_of_length_le {address : BitVec 64} (h : memorySize ≤ address.toNat) :
    a.memory.byte address = 0#8 := by
  rw [MemoryStore.byte, himage.offset, List.getElem?_eq_none (by rw [himage.length]; exact h)]
  rfl

/-- A fetch that does not run over the end of the address space reads the word of the
specification, zeros where the memory ends. -/
theorem word_archState {pc : BitVec 64} (h : pc.toNat + 4 ≤ 2 ^ 64) :
    (archState a pc).word = wordAt pc a.memory := by
  have hbytes : (archState a pc).bytes pc 4 =
      (List.range 4).map (fun i => ((a.memory.memArr.drop (a.memory.offset pc))[i]?).getD 0#8) := by
    refine List.map_congr_left (fun i hi => ?_)
    rw [List.mem_range] at hi
    rw [List.getElem?_drop, himage.offset]
    show a.memory.byte (pc + BitVec.ofNat 64 i) = _
    rw [MemoryStore.byte, himage.offset]
    congr 3
    bv_omega
  have hvalue := (MemoryStore.getMemValue_eq himage.length_le pc 0#64 .wordSize).1
  rw [MemoryStore.slice, Bytes.value_take] at hvalue
  apply BitVec.eq_of_toNat_eq
  rw [wordAt, BitVec.toNat_setWidth, hvalue, Rv64i.State.word, BitVec.toNat_ofNat]
  exact congrArg (fun bs => Bytes.value bs % 2 ^ 32) hbytes

/-- Near the end of the address space there is nothing to fetch. -/
theorem opcode_of_wrap {pc : BitVec 64} (h : 2 ^ 64 < pc.toNat + 4) :
    Rv64i.opcode (archState a pc).word = 0#7 := by
  have hfirst : (archState a pc).mem pc = 0#8 := by
    refine byte_of_length_le himage ?_
    unfold memorySize
    omega
  have hdvd : ∃ v, Bytes.value ((archState a pc).bytes pc 4) = 256 * v := by
    refine ⟨Bytes.value (((List.range 3).map Nat.succ).map
      (fun i => (archState a pc).mem (pc + BitVec.ofNat 64 i))), ?_⟩
    rw [Rv64i.State.bytes, List.range_succ_eq_map, List.map_cons, Bytes.value,
      show pc + BitVec.ofNat 64 0 = pc from BitVec.add_zero pc, hfirst]
    exact Nat.zero_add _
  obtain ⟨v, hv⟩ := hdvd
  apply BitVec.eq_of_toNat_eq
  show ((archState a pc).word.extractLsb' 0 7).toNat = 0
  rw [BitVec.extractLsb'_toNat, Nat.shiftRight_zero, Rv64i.State.word, BitVec.toNat_ofNat]
  show Bytes.value ((archState a pc).bytes pc 4) % 2 ^ 32 % 2 ^ 7 = 0
  rw [hv]
  omega

/-- What the specification executes or halts on is the word the simulator fetches. -/
theorem wordAt_of_opcode {pc : BitVec 64} (h : Rv64i.opcode (archState a pc).word ≠ 0#7) :
    wordAt pc a.memory = (archState a pc).word := by
  refine (word_archState himage ?_).symm
  by_contra hlt
  exact h (opcode_of_wrap himage (Nat.lt_of_not_le hlt))

end

/-! ### The run -/

section
variable {image : MemoryImage}

/-- A valid word of the specification is the word the simulator fetches. -/
theorem wordAt_of_decode {s : Funct.State} (himage : IsImage s.simulator.memory) {op : Op}
    (hop : Rv64i.decode s.isaState.word = some op) :
    wordAt s.pc s.simulator.memory = s.isaState.word := by
  refine wordAt_of_opcode (a := s.arch) himage ?_
  have hopc : Rv64i.opcode (archState s.arch s.pc).word = op.opcode := Rv64i.decode_opcode hop
  rw [hopc]
  cases op <;> simp [Op.opcode]

/-- A valid word at the PC is executed as the specification says. -/
theorem step_isaState {s : Funct.State} (himage : IsImage s.simulator.memory) {op : Op}
    (hop : Rv64i.decode s.isaState.word = some op) (hin : s.isaState.AccessesBelow memorySize) :
    s.current.traps = false ∧ (Funct.step s).2.isaState = op.execute s.isaState.word s.isaState := by
  obtain ⟨hsel, hbits⟩ := Rv64i.decode_eq_some.mp hop
  have hne : op.opcode ≠ 0x6d#7 := by
    cases op <;> simp [Op.opcode]
  have hword := wordAt_of_decode himage hop
  have hhalt : wordAt s.pc s.simulator.memory ≠ 0xfeedfeed#32 := by
    intro heq
    have hopc := Rv64i.decode_opcode hop
    rw [← hword, heq] at hopc
    exact hne hopc.symm
  have hlegal : (simDecode (simFetch s.pc s.simulator.memory)).isLegal = true := by
    refine (simDecode_isLegal (w := wordAt s.pc s.simulator.memory) rfl).mpr (.inr ?_)
    rw [hword]
    exact ⟨op, hsel, checkedBits_of_fixedBits hbits⟩
  obtain ⟨op', hsel', hconforms⟩ :=
    decodeAt_conforms s.simulator s.pc himage.length_le hlegal hhalt
  rw [hword, hsel] at hsel'
  obtain rfl := Option.some.inj hsel'
  refine ⟨?_, ?_⟩
  · have hnot : s.current.isHalt = false := by
      refine Bool.eq_false_iff.mpr (fun h => hhalt ?_)
      exact (setWidth_inj (by decide)).mp (simDecode_halt rfl h).1
    have hl : s.current.isLegal = true := hlegal
    rw [Decoding.traps, hnot, hl]
    rfl
  · have hinside : InMemory s.simulator.memory
        (op.access (wordAt s.pc s.simulator.memory) (archState s.simulator.arch s.pc)) := by
      intro address width hacc
      rw [hword] at hacc
      rw [himage.offset, himage.length]
      exact hin (address, width) (Option.bind_eq_some_iff.mpr ⟨op, hop, hacc⟩)
    have hstep := hconforms.simInstruction hinside
    rw [hword] at hstep
    exact hstep

/-- Before every instruction the functional simulator is where the specification is. -/
theorem program_state {k : Nat} {s : Rv64i.State} (hrun : (initialState image).run k = some s)
    (hin : ∀ i < k, ∀ t, (initialState image).run i = some t → t.AccessesBelow memorySize) :
    Funct.Reaches image k ∧ (Funct.stateAt image k).isaState = s := by
  induction k generalizing s with
  | zero => exact ⟨fun i hi => absurd hi (Nat.not_lt_zero i), Option.some.inj hrun⟩
  | succ k ih =>
    obtain ⟨u, hu, hstep⟩ := Rv64i.State.run_succ_eq_some hrun
    obtain ⟨hreach, rfl⟩ := ih hu (fun i hi => hin i (Nat.lt_succ_of_lt hi))
    obtain ⟨op, hop, rfl⟩ := Rv64i.State.step_eq_some hstep
    obtain ⟨ht, hs⟩ := step_isaState (Funct.memory_isImage k) hop (hin k (Nat.lt_succ_self k) _ hu)
    rw [← Funct.executed_toDecoding] at ht
    exact ⟨hreach.succ ht, by rw [Funct.stateAt_succ, hs]⟩

/-- Where the specification finds HALT, `simInstruction` finds it. -/
theorem halts_of_word {k : Nat} (hh : (Funct.stateAt image k).isaState.word = 0xfeedfeed#32) :
    (Funct.executed image k).isHalt = true := by
  have hword : wordAt (Funct.stateAt image k).pc (Funct.stateAt image k).simulator.memory =
      (Funct.stateAt image k).isaState.word := by
    refine wordAt_of_opcode (a := (Funct.stateAt image k).arch) (Funct.memory_isImage k) ?_
    have hopc : Rv64i.opcode (Funct.stateAt image k).isaState.word = 0x6d#7 := by
      rw [hh]
      decide
    exact hopc ▸ (by decide)
  rw [hh] at hword
  have hinst : (decodeFields (simFetch (Funct.stateAt image k).pc
      (Funct.stateAt image k).simulator.memory)).instruction = 0xfeedfeed#64 := by
    show (wordAt _ _).setWidth 64 = 0xfeedfeed#64
    rw [hword]
    decide
  rw [Funct.executed_toDecoding]
  show (simDecode _).isHalt = true
  unfold simDecode
  rw [if_pos hinst]

/-- HALT changes neither registers nor memory. -/
theorem arch_succ_of_halt {k : Nat} (hh : (Funct.executed image k).isHalt = true) :
    (Funct.stateAt image (k + 1)).arch = (Funct.stateAt image k).arch := by
  rw [Funct.arch_succ, (Funct.executed_decoded k).execute_of_traps (Decoding.traps_of_halt hh)]

/-- `runCycles(0)` ends in the registers and the memory of the functional run. -/
theorem runCycles_final (hself : NoSelfModification image) {k : Nat}
    (hreach : Funct.Reaches image k) (hh : (Funct.executed image k).isHalt = true) :
    ∃ fuel dump m, runCycles fuel 0#64 (initSimulator image.store) = some (.halt, dump, m) ∧
      m.simulator.arch = (Funct.stateAt image (k + 1)).arch := by
  obtain ⟨hbefore, hwb⟩ := halt_passes_wb hself hreach hh
  obtain ⟨fuel, dump, hcycles⟩ := runCycles_zero (fun i hi => hbefore i (Nat.lt_succ_of_le hi)) hwb
  exact ⟨fuel, dump, _, hcycles, final_state hself hreach hh hbefore hwb⟩

end

/-- **RV64I programs.** When the specification executes `k` valid words, every access inside
the memory, and comes to HALT, both simulators end with HALT in the registers and the memory of
the specification; the pipeline if the run does not modify itself. -/
theorem simulators_run_rv64i (image : MemoryImage) (k : Nat) (s : Rv64i.State)
    (hrun : (initialState image).run k = some s)
    (hin : ∀ i < k, ∀ t, (initialState image).run i = some t → t.AccessesBelow memorySize)
    (hhalt : s.word = 0xfeedfeed#32) :
    (∃ fuel f, Funct.runInstructions fuel 0#64 (Funct.initSimulator image.store) =
        some (.halt, f) ∧ archState f.arch s.pc = s) ∧
    (NoSelfModification image → ∃ fuel dump m,
      runCycles fuel 0#64 (initSimulator image.store) = some (.halt, dump, m) ∧
        archState m.simulator.arch s.pc = s) := by
  obtain ⟨hreach, rfl⟩ := program_state hrun hin
  have hh := halts_of_word hhalt
  have hfinal : archState (Funct.stateAt image (k + 1)).arch (Funct.stateAt image k).isaState.pc =
      (Funct.stateAt image k).isaState := by
    rw [arch_succ_of_halt hh]
    rfl
  constructor
  · obtain ⟨fuel, hfunct⟩ := Funct.runInstructions_halt_iff.mpr ⟨k, hreach, hh, rfl⟩
    exact ⟨fuel, _, hfunct, hfinal⟩
  · intro hself
    obtain ⟨fuel, dump, m, hcycles, harch⟩ := runCycles_final hself hreach hh
    exact ⟨fuel, dump, m, hcycles, by rw [harch, hfinal]⟩

theorem simulators_run_rv64i_sample : ∃ fuel dump m s,
    (initialState sampleImage).run 2 = some s ∧
    runCycles fuel 0#64 (initSimulator sampleImage.store) = some (.halt, dump, m) ∧
      archState m.simulator.arch s.pc = s := by
  have hword : ((initialState sampleImage).run 2).map (·.word) = some 0xfeedfeed#32 := by decide
  obtain ⟨s, hs, hhalt⟩ := Option.map_eq_some_iff.mp hword
  have hin : ∀ i < 2, ((initialState sampleImage).run i).all
      (fun t => decide (t.AccessesBelow memorySize)) = true := by decide
  obtain ⟨fuel, dump, m, hrun, hstate⟩ := (simulators_run_rv64i sampleImage 2 s hs
    (fun i hi t ht => of_decide_eq_true ((Option.all_eq_true _ _).mp (hin i hi) t ht)) hhalt).2
    sampleImage_noSelfModification
  exact ⟨fuel, dump, m, s, hs, hrun, hstate⟩

end CycleSim
