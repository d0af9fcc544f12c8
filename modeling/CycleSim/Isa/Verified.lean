import CycleSim.Isa.Program
import CycleSim.Lib.Assembly

/-! Programs with a proof.

What is proved of a program in the logic of the specification, that it leaves its own words
alone and comes to HALT with a postcondition, holds of both simulators (`simulators_meet`). The
pipeline needs no proof of its own that no word is fetched before it is overwritten. -/
namespace CycleSim

open Rv64i (Op Instr Confined)

section
variable {image : MemoryImage}

theorem Decoded.store_opcode {x : Decoding} (h : Decoded x) (hw : x.writesMem = true) :
    x.opcode = opStore := by
  cases h.kind <;> simp_all [Decoding.flags]

/-- A store of the run is the store of the specification. -/
theorem executed_store {k : Nat} {op : Op}
    (hop : Rv64i.decode (Funct.stateAt image k).isaState.word = some op)
    (ht : (Funct.executed image k).traps = false)
    (hw : (Funct.executed image k).writesMem = true) : ∃ width, op = .store width ∧
      op.access (Funct.stateAt image k).isaState.word (Funct.stateAt image k).isaState =
        some ((Funct.executed image k).memAddress, width) := by
  rw [Funct.executed_toDecoding] at ht hw
  have hdec : Decoded (Funct.stateAt image k).current := decodeAt_decoded _ _
  obtain ⟨h1, _, hr, ha⟩ := hdec.store hw
  have hfields : FieldsOf (Funct.stateAt image k).current _ := decodeAt_fieldsOf _ _
  rw [wordAt_of_decode (Funct.memory_isImage k) hop] at hfields
  have hsel := (Rv64i.decode_eq_some.mp hop).1
  rw [hfields.select_eq 0b0100011#7 (hdec.store_opcode hw)] at hsel
  obtain ⟨width, rfl, _⟩ := storeOp_eq hsel
  have haddress : (Funct.executed image k).memAddress =
      (simAddrGen ((Funct.stateAt image k).current.collected
        (Funct.stateAt image k).arch.regs)).memAddress := by
    obtain ⟨v, hv⟩ := access_record (Simulator.simEX (Funct.stateAt image k).resolved)
      (Funct.stateAt image k).simulator.memory
    have hsame : SameOperands (Funct.stateAt image k).resolved
        ((Funct.stateAt image k).current.collected (Funct.stateAt image k).arch.regs) :=
      ⟨rfl, (simDecode_unset _ _).2, fun h1 => (if_pos h1).trans (if_pos h1).symm,
        fun h2 => (if_pos h2).trans (if_pos h2).symm⟩
    have hex := (hsame.simEX hdec).address (.inr (by rw [simEX_toDecoding]; exact hw))
    rw [Decoding.simEX_of_mem _ ha (by rw [hw, Bool.or_true])] at hex
    show (Funct.step (Funct.stateAt image k)).1.memAddress = _
    rw [Funct.step_of_legal ht, hv]
    exact hex
  refine ⟨width, rfl, ?_⟩
  rw [haddress, hfields.store_address _ h1 hr hw]
  rfl

/-- The word at the PC, fetched. -/
def fetched (pc : BitVec 64) (w : BitVec 32) : Instruction :=
  { pc := pc, instruction := w.setWidth 64 }

/-- The decoding of the run is that of the word at the PC. -/
theorem executed_word {k : Nat} (h : (Funct.stateAt image k).isaState.pc.toNat + 4 ≤ 2 ^ 64) :
    (Funct.executed image k).toDecoding =
      (simDecode (fetched (Funct.stateAt image k).isaState.pc
        (Funct.stateAt image k).isaState.word)).toDecoding := by
  have hword : (Funct.stateAt image k).isaState.word = _ :=
    word_archState (a := (Funct.stateAt image k).arch) (Funct.memory_isImage k) h
  rw [Funct.executed_toDecoding, hword]
  rfl

end

/-! ### Confined runs -/

theorem run_of_le {s t : Rv64i.State} {i k : Nat} (h : s.run k = some t) (hik : i ≤ k) :
    ∃ u, s.run i = some u := by
  induction hik using Nat.decreasingInduction with
  | self => exact ⟨t, h⟩
  | of_succ i _ ih =>
    obtain ⟨u, hu⟩ := ih
    obtain ⟨v, hv, _⟩ := Rv64i.State.run_succ_eq_some hu
    exact ⟨v, hv⟩

section
variable {image : MemoryImage} {code k : Nat} {s : Rv64i.State}
  (hrun : (initialState image).run k = some s)
  (hconf : ∀ i < k, ∀ u, (initialState image).run i = some u → Confined code memorySize u)
include hrun hconf

/-- A confined run is that of the functional simulator. -/
theorem confined_state {i : Nat} (hi : i ≤ k) : Funct.Reaches image i ∧
    (initialState image).run i = some (Funct.stateAt image i).isaState := by
  obtain ⟨u, hu⟩ := run_of_le hrun hi
  obtain ⟨hreach, rfl⟩ := program_state hu
    (fun j hj t ht => (hconf j (by omega) t ht).accessesBelow)
  exact ⟨hreach, hu⟩

/-- A confined program does not modify itself. -/
theorem confined_noSelfModification (hh : (Funct.executed image k).isHalt = true)
    (hpc : s.pc.toNat + 4 ≤ code) : NoSelfModification image := by
  have hlast : ∀ j, Funct.Reaches image j → j ≤ k :=
    fun j hj => hj.le_of_traps (Decoding.traps_of_halt hh)
  have hwithin : ∀ j ≤ k, (Funct.executed image j).pc.toNat + 4 ≤ code := by
    intro j hj
    have hu := (confined_state hrun hconf hj).2
    rw [Funct.executed_pc]
    rcases Nat.eq_or_lt_of_le hj with rfl | hlt
    · rw [hrun] at hu
      rw [Option.some.inj hu] at hpc
      exact hpc
    · exact (hconf j hlt _ hu).pc
  intro i j hi hj hw b hstore hfetch
  have hik : i < k := by
    refine Nat.lt_of_le_of_ne (hlast i hi) (fun heq => ?_)
    subst heq
    have hidle := (Funct.executed_decoded i).flags_of_traps (Decoding.traps_of_halt hh)
    rw [show (Funct.executed image i).writesMem = false from congrArg Flags.writesMem hidle] at hw
    cases hw
  obtain ⟨hreach, hnext⟩ := confined_state hrun hconf (i := i + 1) hik
  obtain ⟨u, hu, hstep⟩ := Rv64i.State.run_succ_eq_some hnext
  obtain rfl := Option.some.inj ((confined_state hrun hconf (Nat.le_of_lt hik)).2.symm.trans hu)
  obtain ⟨op, hop, _⟩ := Rv64i.State.step_eq_some hstep
  obtain ⟨width, rfl, haccess⟩ := executed_store hop (hreach i (Nat.lt_succ_self i)) hw
  rw [← Op.access_instr] at haccess
  have habove := ((hconf i hik _ hu).access _ (Instr.ofWord_of_decode hop) _ _ haccess).2 rfl
  have hbelow := hwithin j (hlast j hj)
  have hlow := hstore.1
  have hhigh := hfetch.2.1
  omega

end

section
variable {image : MemoryImage} {code k : Nat} {Q : Rv64i.State → Prop}

/-- What is proved of the program, said of the run of the specification. -/
theorem leads_run
    (h : Hoare.Leads Rv64i.State.step (Confined code memorySize) Q k (initialState image)) :
    ∃ s, (initialState image).run k = some s ∧ Q s ∧ ∀ i < k, ∀ u,
      (initialState image).run i = some u → Confined code memorySize u := by
  have hsucc : ∀ i, (initialState image).run (i + 1) =
      ((initialState image).run i).bind Rv64i.State.step := fun _ => rfl
  have hzero : (initialState image).run 0 = some (initialState image) := rfl
  obtain ⟨⟨s, hrun, hQ⟩, hconf⟩ := h.run hsucc hzero
  rw [Nat.zero_add] at hrun hconf
  exact ⟨s, hrun, hQ, fun i hi => hconf i (Nat.zero_le i) hi⟩

/-- What is proved of the program, said of the functional run: its words are still there. -/
theorem leads_state
    (h : Hoare.Leads Rv64i.State.step (Confined code memorySize) Q k (initialState image)) :
    Funct.Reaches image k ∧ Q (Funct.stateAt image k).isaState ∧ ∀ a : BitVec 64, a.toNat < code →
      (Funct.stateAt image k).isaState.mem a = (initialState image).mem a := by
  obtain ⟨s, hrun, hQ, hconf⟩ := leads_run h
  obtain ⟨hreach, hstate⟩ := confined_state hrun hconf (Nat.le_refl k)
  obtain rfl := Option.some.inj (hrun.symm.trans hstate)
  refine ⟨hreach, hQ, fun a ha => ?_⟩
  have hmem : ∀ i ≤ k, (Funct.stateAt image i).isaState.mem a = (initialState image).mem a := by
    intro i
    induction i with
    | zero => exact fun _ => rfl
    | succ i ih =>
      intro hi
      obtain ⟨_, hnext⟩ := confined_state hrun hconf hi
      obtain ⟨u, hu, hstep⟩ := Rv64i.State.run_succ_eq_some hnext
      obtain ⟨_, hnow⟩ := confined_state hrun hconf (Nat.le_of_succ_le hi)
      obtain rfl := Option.some.inj (hu.symm.trans hnow)
      rw [(hconf i hi _ hu).mem_step (by decide) hstep ha, ih (Nat.le_of_succ_le hi)]
  exact hmem k (Nat.le_refl k)

/-- What is proved of the program holds of the functional run, up to its HALT. -/
theorem verified_run
    (h : Hoare.Leads Rv64i.State.step (Confined code memorySize)
      (fun s => s.word = 0xfeedfeed#32 ∧ s.pc.toNat + 4 ≤ code ∧ Q s) k (initialState image)) :
    Funct.Reaches image k ∧ (Funct.executed image k).isHalt = true ∧
      NoSelfModification image ∧ Q (Funct.stateAt image k).isaState := by
  obtain ⟨s, hrun, ⟨hhalt, hpc, hQ⟩, hconf⟩ := leads_run h
  obtain ⟨hreach, hstate⟩ := confined_state hrun hconf (Nat.le_refl k)
  obtain rfl := Option.some.inj (hrun.symm.trans hstate)
  have hh := halts_of_word hhalt
  exact ⟨hreach, hh, confined_noSelfModification hrun hconf hh hpc, hQ⟩

end

/-- **Proofs carry over.** A program that is proved to come to HALT with a postcondition, on
words below `code` that it never stores to, and to stay inside the memory, comes to HALT with
that postcondition in both simulators. -/
theorem simulators_meet (image : MemoryImage) (code k : Nat) (Q : Rv64i.State → Prop)
    (h : Hoare.Leads Rv64i.State.step (Confined code memorySize)
      (fun s => s.word = 0xfeedfeed#32 ∧ s.pc.toNat + 4 ≤ code ∧ Q s) k (initialState image)) :
    ∃ s, Q s ∧
      (∃ fuel f, Funct.runInstructions fuel 0#64 (Funct.initSimulator image.store) =
        some (.halt, f) ∧ archState f.arch s.pc = s) ∧
      ∃ fuel dump m, runCycles fuel 0#64 (initSimulator image.store) = some (.halt, dump, m) ∧
        archState m.simulator.arch s.pc = s := by
  obtain ⟨hreach, hh, hself, hQ⟩ := verified_run h
  have hfinal := arch_succ_of_halt hh
  refine ⟨_, hQ, ?_, ?_⟩
  · obtain ⟨fuel, hfunct⟩ := Funct.runInstructions_halt_iff.mpr ⟨k, hreach, hh, rfl⟩
    exact ⟨fuel, _, hfunct, by rw [hfinal]; rfl⟩
  · obtain ⟨fuel, dump, m, hcycles, harch⟩ := runCycles_final hself hreach hh
    exact ⟨fuel, dump, m, hcycles, by rw [harch, hfinal]; rfl⟩

open Rv64i (Code exec FitAll) in
/-- A load and a branch, in one block. -/
theorem simulators_meet_sample : ∃ s : Rv64i.State, s.regs 1#5 = 0xfffffffffeedfeed#64 ∧
    ∃ fuel dump m, runCycles fuel 0#64 (initSimulator sampleImage.store) = some (.halt, dump, m) ∧
      archState m.simulator.arch s.pc = s := by
  let p : List Instr := [.load .word false 1#5 0#5 12#64, .branch .ne 1#5 0#5 8#64]
  have hcode : Code p (initialState sampleImage) := by
    intro i x hx
    match i, hx with
    | 0, rfl => decide
    | 1, rfl => decide
  have hfit : FitAll 16 memorySize p (initialState sampleImage) :=
    ⟨Instr.fits_load (by decide), Instr.fits_of_access rfl, trivial⟩
  have hend : (exec p (initialState sampleImage)).word = 0xfeedfeed#32 ∧
      (exec p (initialState sampleImage)).pc.toNat + 4 ≤ 16 ∧
      (exec p (initialState sampleImage)).regs 1#5 = 0xfffffffffeedfeed#64 := by decide
  obtain ⟨s, hs, _, hrun⟩ := simulators_meet sampleImage 16 2
    (fun s => s.regs 1#5 = 0xfffffffffeedfeed#64)
    (hcode.block (i := 0) (by decide) (by decide) (by decide) rfl (List.prefix_refl p) rfl hfit
      (fun _ => hend))
  exact ⟨s, hs, hrun⟩

end CycleSim
