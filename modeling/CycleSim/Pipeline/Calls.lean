import CycleSim.Pipeline.Drivers
import CycleSim.Lib.Driver

/-! The drivers, from any state.

`runCycles` and `runInstructions` leave everything behind in the globals, so it makes no
difference how a run is divided into calls (`runCycles_inTurn`, `Funct.runInstructions_inTurn`),
and `runTillHalt`, which asks for one step at a time, ends as a single call without a bound
does (`runTillHalt_iff_runCycles`, `Funct.runTillHalt_iff_runInstructions`). -/
namespace CycleSim

open Driver (InTurn FirstStop countedBody counted_iff inTurn_congr)

/-! ### `runCycles` -/

/-- The next cycle takes a HALT through WB. -/
def Machine.lastCycle (m : Machine) : Bool := m.runCycle.pipelineInfo.wbInst.isHalt

/-- What a call returns whose last cycle starts here. -/
def Machine.returns (stopped : Bool) (m : Machine) : Status × PipeState :=
  (if stopped then .halt else .success, m.runCycle.pipeState m.cycleCount)

/-- A cycle, and its number. -/
def numbered (p : BitVec 64 × Machine) : BitVec 64 × Machine := (p.2.cycleCount, p.2.runCycle)

theorem numbered_snd (i : Nat) (p : BitVec 64 × Machine) :
    (numbered^[i] p).2 = Machine.runCycle^[i] p.2 :=
  @Function.Semiconj.iterate_right _ _ Prod.snd numbered Machine.runCycle (fun _ => rfl) i p

/-- What the loop is left with, of the state it is left in. -/
def cyclesExit (q : Bool × BitVec 64 × Machine) : Status × PipeState × Machine :=
  if q.1 then (.halt, q.2.2.runCycle.pipeState q.2.2.cycleCount, q.2.2.runCycle)
  else (.success, q.2.2.pipeState q.2.1, q.2.2)

theorem cyclesExit_iterate (stopped : Bool) {n : Nat} (hn : 0 < n) (m : Machine) :
    cyclesExit (stopped, numbered^[n - stopped.toNat] (0#64, m)) =
      ((Machine.returns stopped (Machine.runCycle^[n - 1] m)).1,
        (Machine.returns stopped (Machine.runCycle^[n - 1] m)).2, Machine.runCycle^[n] m) := by
  obtain ⟨k, rfl⟩ := Nat.exists_eq_succ_of_ne_zero (Nat.ne_of_gt hn)
  rw [Nat.succ_sub_one, Function.iterate_succ_apply' Machine.runCycle]
  have hlast := numbered_snd k (0#64, m)
  cases stopped with
  | true =>
    simp only [cyclesExit, Bool.toNat_true, Nat.succ_sub_one, hlast]
    rfl
  | false =>
    simp only [cyclesExit, Bool.toNat_false, Nat.sub_zero, Function.iterate_succ_apply' numbered,
      numbered, hlast]
    rfl

theorem runCyclesBody_eq (cycles : BitVec 64) (x : BitVec 64 × BitVec 64 × Machine) :
    runCyclesBody cycles ⟨x.1, x.2.1, x.2.2⟩ =
      (countedBody numbered (fun p => p.2.lastCycle) cycles x).map
        (fun x => (⟨x.1, x.2.1, x.2.2⟩ : CycleLoop)) cyclesExit := by
  unfold runCyclesBody countedBody
  split
  · show (if x.2.2.lastCycle = true then _ else _) = _
    split <;> rfl
  · rfl

/-- `runCycles` was called with `cycles`. -/
def CyclesCall (cycles : BitVec 64) (m : Machine) (r : Status × PipeState) (m' : Machine) : Prop :=
  ∃ fuel, runCycles fuel cycles m = some (r.1, r.2, m')

/-- `runCycles` is a call. -/
theorem runCycles_executes (cycles : BitVec 64) (m : Machine) (r : Status × PipeState)
    (m' : Machine) : CyclesCall cycles m r m' ↔
      Driver.Executes Machine.runCycle Machine.lastCycle Machine.returns cycles.toNat m r m' := by
  have hrun : ∀ fuel, runCycles fuel cycles m = (Loop.run
      (countedBody numbered (fun p => p.2.lastCycle) cycles) fuel (0#64, 0#64, m)).map cyclesExit :=
    fun fuel => Loop.run_map (runCyclesBody_eq cycles) fuel (0#64, 0#64, m)
  have hcall := @Driver.call_map _ numbered (fun p => p.2.lastCycle) _ Machine.runCycle
    Machine.lastCycle Prod.snd (fun _ => rfl) (fun _ => rfl) cycles.toNat (0#64, m)
  simp only [CyclesCall, hrun, Option.map_eq_some_iff]
  constructor
  · rintro ⟨fuel, ⟨stopped, p⟩, hyields, hexit⟩
    obtain ⟨n, h, rfl⟩ := (counted_iff stopped p).mp ⟨fuel, hyields⟩
    rw [cyclesExit_iterate stopped h.pos m, Prod.mk.injEq, Prod.mk.injEq] at hexit
    exact ⟨stopped, n, (hcall stopped n).mpr h, Prod.ext hexit.1.symm hexit.2.1.symm,
      hexit.2.2.symm⟩
  · rintro ⟨stopped, n, h, rfl, rfl⟩
    obtain ⟨fuel, hyields⟩ := (counted_iff stopped _).mpr ⟨n, (hcall stopped n).mp h, rfl⟩
    exact ⟨fuel, _, hyields, cyclesExit_iterate stopped h.pos m⟩

theorem Machine.returns_success (stopped : Bool) (m : Machine) :
    (m.returns stopped).1 = .success ↔ stopped = false := by
  cases stopped with
  | true => exact iff_of_false (fun h => nomatch h) (fun h => nomatch h)
  | false => exact iff_of_true rfl rfl

/-- **However the cycles are divided into calls of `runCycles`**, as long as they add up to the
same number: the calls end with the same status and dump, in the same globals. -/
theorem runCycles_inTurn {cs cs' : List (BitVec 64)} (hne : cs ≠ []) (hne' : cs' ≠ [])
    (hpos : ∀ c ∈ cs, c ≠ 0#64) (hpos' : ∀ c ∈ cs', c ≠ 0#64)
    (hsum : (cs.map BitVec.toNat).sum = (cs'.map BitVec.toNat).sum)
    (m : Machine) (r : Status × PipeState) (m' : Machine) :
    InTurn CyclesCall (fun r => r.1 = .success) cs m r m' ↔
      InTurn CyclesCall (fun r => r.1 = .success) cs' m r m' :=
  inTurn_congr runCycles_executes Machine.returns_success hne hne' hpos hpos' hsum _ _

theorem runCycles_inTurn_sample : InTurn CyclesCall (fun r => r.1 = .success) [2#64, 3#64]
    (initSimulator sampleImage.store)
    (.success, (machineAt sampleImage 5).pipeState (machineAt sampleImage 4).cycleCount)
    (machineAt sampleImage 5) :=
  (@runCycles_inTurn [2#64, 3#64] [5#64] (List.cons_ne_nil _ _) (List.cons_ne_nil _ _) (by simp)
    (by simp) rfl _ _ _).mpr (.last ((runCycles_executes ..).mpr
      ⟨false, 5, ⟨rfl, by decide, by decide⟩, rfl, rfl⟩))

/-- `runTillHalt` ends as `runCycles(0)` does, from any globals; the last dump it writes is the
one of that call. -/
theorem runTillHalt_iff_runCycles (m : Machine) (status : Status) (dump : PipeState) (m' : Machine) :
    (∃ dumps, Loop.Yields runTillHaltBody ([], m) (status, dumps ++ [dump], m')) ↔
      CyclesCall 0#64 m (status, dump) m' := by
  have hbody : ∀ x, runTillHaltBody x =
      if x.2.lastCycle then .inr (.halt, haltNext x) else .inl (haltNext x) := by
    intro x
    simp only [runTillHaltBody, runCycles_one]
    cases hh : x.2.runCycle.pipelineInfo.wbInst.isHalt <;> simp [Machine.lastCycle, haltNext, hh]
  have hmachine : ∀ i, (haltNext^[i] ([], m)).2 = Machine.runCycle^[i] m :=
    fun i => @Function.Semiconj.iterate_right _ _ Prod.snd haltNext Machine.runCycle
      (fun _ => rfl) i ([], m)
  have hstop : ∀ n, FirstStop haltNext (fun x => x.2.lastCycle) ([], m) n ↔
      FirstStop Machine.runCycle Machine.lastCycle m n :=
    fun n => (@Driver.firstStop_map _ haltNext (fun x => x.2.lastCycle) _ Machine.runCycle
      Machine.lastCycle Prod.snd (fun _ => rfl) (fun _ => rfl) ([], m) n).symm
  rw [runCycles_executes, BitVec.toNat_ofNat, Nat.zero_mod, Driver.executes_zero]
  simp only [Driver.yields_iff hbody, hstop]
  constructor
  · rintro ⟨dumps, n, h, heq⟩
    simp only [haltNext, hmachine, Prod.mk.injEq] at heq
    obtain ⟨rfl, hdumps, rfl⟩ := heq
    obtain ⟨-, hdump⟩ := List.append_inj' hdumps rfl
    rw [List.singleton_inj.mp hdump]
    exact ⟨n, h, rfl, (Function.iterate_succ_apply' ..).symm⟩
  · rintro ⟨n, h, hr, rfl⟩
    obtain ⟨rfl, rfl⟩ := Prod.mk.inj hr
    refine ⟨(haltNext^[n] ([], m)).1, n, h, ?_⟩
    simp only [haltNext, hmachine, Function.iterate_succ_apply', if_true]

/-! ### `runInstructions` -/

namespace Funct

/-- The state after the next instruction. -/
def State.next (s : State) : State := (step s).2

/-- The next instruction is HALT or illegal. -/
def State.lastInstruction (s : State) : Bool := (step s).1.traps

/-- What a call returns whose last instruction starts here. -/
def State.returns (stopped : Bool) (s : State) : Status :=
  if stopped then (if (step s).1.isHalt then .halt else .error) else .success

/-- What the loop is left with, of the state it is left in. -/
def instructionsExit (q : Bool × State) : Status × State :=
  if q.1 then (q.2.returns true, q.2.next) else (.success, q.2)

theorem instructionsExit_iterate (stopped : Bool) {n : Nat} (hn : 0 < n) (s : State) :
    instructionsExit (stopped, State.next^[n - stopped.toNat] s) =
      (State.returns stopped (State.next^[n - 1] s), State.next^[n] s) := by
  obtain ⟨k, rfl⟩ := Nat.exists_eq_succ_of_ne_zero (Nat.ne_of_gt hn)
  rw [Nat.succ_sub_one, Function.iterate_succ_apply']
  cases stopped with
  | true => rfl
  | false =>
    simp only [instructionsExit, Bool.toNat_false, Nat.sub_zero, Function.iterate_succ_apply']
    rfl

theorem runInstructionsBody_eq (instructions : BitVec 64) (x : BitVec 64 × State) :
    runInstructionsBody instructions x =
      (countedBody State.next State.lastInstruction instructions x).map id instructionsExit := by
  unfold runInstructionsBody countedBody
  split
  · cases hh : x.2.current.isHalt
    · cases hl : x.2.current.isLegal
      · simp [State.lastInstruction, Decoding.traps, instructionsExit, State.returns, State.next,
          hh, hl]
      · simp [State.lastInstruction, Decoding.traps, State.next, hh, hl]
    · simp [State.lastInstruction, Decoding.traps, instructionsExit, State.returns, State.next, hh]
  · rfl

/-- `runInstructions` was called with `instructions`. -/
def InstructionsCall (instructions : BitVec 64) (s : State) (status : Status) (s' : State) : Prop :=
  ∃ fuel, runInstructions fuel instructions s = some (status, s')

/-- `runInstructions` is a call. -/
theorem runInstructions_executes (instructions : BitVec 64) (s : State) (status : Status)
    (s' : State) : InstructionsCall instructions s status s' ↔
      Driver.Executes State.next State.lastInstruction State.returns instructions.toNat s status s' := by
  have hrun : ∀ fuel, runInstructions fuel instructions s = (Loop.run
      (countedBody State.next State.lastInstruction instructions) fuel (0#64, s)).map
        instructionsExit :=
    fun fuel => Loop.run_map (f := id) (runInstructionsBody_eq instructions) fuel (0#64, s)
  simp only [InstructionsCall, hrun, Option.map_eq_some_iff]
  constructor
  · rintro ⟨fuel, ⟨stopped, p⟩, hyields, hexit⟩
    obtain ⟨n, h, rfl⟩ := (counted_iff stopped p).mp ⟨fuel, hyields⟩
    rw [instructionsExit_iterate stopped h.pos s, Prod.mk.injEq] at hexit
    exact ⟨stopped, n, h, hexit.1.symm, hexit.2.symm⟩
  · rintro ⟨stopped, n, h, rfl, rfl⟩
    obtain ⟨fuel, hyields⟩ := (counted_iff stopped _).mpr ⟨n, h, rfl⟩
    exact ⟨fuel, _, hyields, instructionsExit_iterate stopped h.pos s⟩

theorem State.returns_success (stopped : Bool) (s : State) :
    s.returns stopped = .success ↔ stopped = false := by
  cases stopped with
  | true =>
    refine iff_of_false (fun h => ?_) (fun h => nomatch h)
    simp only [State.returns, if_true] at h
    split at h <;> cases h
  | false => exact iff_of_true rfl rfl

/-- **However the instructions are divided into calls of `runInstructions`**, as long as they
add up to the same number: the calls end with the same status, in the same globals. -/
theorem runInstructions_inTurn {cs cs' : List (BitVec 64)} (hne : cs ≠ []) (hne' : cs' ≠ [])
    (hpos : ∀ c ∈ cs, c ≠ 0#64) (hpos' : ∀ c ∈ cs', c ≠ 0#64)
    (hsum : (cs.map BitVec.toNat).sum = (cs'.map BitVec.toNat).sum)
    (s : State) (status : Status) (s' : State) :
    InTurn InstructionsCall (fun status => status = .success) cs s status s' ↔
      InTurn InstructionsCall (fun status => status = .success) cs' s status s' :=
  inTurn_congr runInstructions_executes State.returns_success hne hne' hpos hpos' hsum _ _

theorem runInstructions_inTurn_sample : InTurn InstructionsCall (fun status => status = .success)
    [1#64, 1#64] (initSimulator sampleImage.store) .success (stateAt sampleImage 2) :=
  (@runInstructions_inTurn [1#64, 1#64] [2#64] (List.cons_ne_nil _ _) (List.cons_ne_nil _ _)
    (by simp) (by simp) rfl _ _ _).mpr (.last ((runInstructions_executes ..).mpr
      ⟨false, 2, ⟨rfl, by decide, by decide⟩, rfl, rfl⟩))

/-- `runTillHalt` ends as `runInstructions(0)` does, from any globals. -/
theorem runTillHalt_iff_runInstructions (s : State) (status : Status) (s' : State) :
    Loop.Yields runTillHaltBody s (status, s') ↔ InstructionsCall 0#64 s status s' := by
  have hbody : ∀ s : State, runTillHaltBody s =
      if s.lastInstruction then .inr (s.returns true, s.next) else .inl s.next := by
    intro s
    simp only [runTillHaltBody, runInstructions_one]
    cases hh : s.current.isHalt
    · cases hl : s.current.isLegal <;>
        simp [State.lastInstruction, Decoding.traps, State.returns, State.next, hh, hl]
    · simp [State.lastInstruction, Decoding.traps, State.returns, State.next, hh]
  rw [runInstructions_executes, BitVec.toNat_ofNat, Nat.zero_mod, Driver.executes_zero,
    Driver.yields_iff hbody]
  refine exists_congr (fun n => and_congr_right (fun _ => ?_))
  rw [Prod.mk.injEq, Function.iterate_succ_apply']

end Funct

end CycleSim
