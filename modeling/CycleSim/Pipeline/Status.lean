import CycleSim.Pipeline.Advance
import CycleSim.Pipeline.Drivers

/-! The stage statuses in the dump.

A status should tell a fetched instruction from a `nop` the pipeline inserted. The source
computes it anew in ID, EX and MEM, from whether the record is a NOP or a HALT, and sets it
to `NORMAL` in WB. `Origins` follows each latch back to the cycle of its fetch; against it,
the statuses after a cycle are right exactly when the cycle takes a fetched instruction into
WB and no fetched NOP or HALT into ID, EX or MEM (`statusesTell_iff`). -/
namespace CycleSim

/-! ### Where the instructions come from -/

/-- The cycle in which the instruction of each latch was fetched, `none` for a `nop` that
was inserted. -/
structure Origins where
  ifInst : Option Nat := none
  idInst : Option Nat := none
  exInst : Option Nat := none
  memInst : Option Nat := none
  wbInst : Option Nat := none
  deriving DecidableEq, Repr

/-- Cycle `n` moves every latch on, or holds it, or fills it with a `nop`. -/
def Origins.next (o : Origins) (m : Machine) (n : Nat) : Origins where
  ifInst :=
    if m.stall || m.branchStall then o.ifInst
    else if m.flush then none
    else some n
  idInst :=
    if m.stall then o.idInst
    else if m.branchStall then none
    else o.ifInst
  exInst := if m.stall then none else o.idInst
  memInst := o.exInst
  wbInst := o.memInst

section
variable (image : MemoryImage)

/-- The origins of the latches after `n` cycles. -/
def originsAt : Nat → Origins
  | 0 => {}
  | n + 1 => (originsAt n).next (machineAt image n) n

/-- What IF fills its latch with in a cycle that fetches. -/
def fetchedIn (n : Nat) : Instruction :=
  let m := machineAt image n
  { m.idSimulator.simIF m.redirectedPC with status := .normal }

/-- The IF latch holds what the origin says. -/
def IfHolds (x : Instruction) : Option Nat → Prop
  | none => x = nop .idle ∨ x = nop .bubble
  | some k => x = fetchedIn image k

/-- A later latch holds what the origin says. -/
def Holds (x : Instruction) : Option Nat → Prop
  | none => x.instruction = 0x00000013#64 ∧ x.isNop = true
  | some k => x.toDecoding = (simDecode (fetchedIn image k)).toDecoding

/-- The latches hold what their origins say. -/
structure Tracks (p : PipelineInfo) (o : Origins) : Prop where
  ifInst : IfHolds image p.ifInst o.ifInst
  idInst : Holds image p.idInst o.idInst
  idStatus : p.idInst.status = stageStatus p.idInst ∨ (o.idInst = none ∧ p.idInst.status = .idle)
  exInst : Holds image p.exInst o.exInst
  memInst : Holds image p.memInst o.memInst
  wbInst : Holds image p.wbInst o.wbInst

variable {image}

theorem Holds.congr {x y : Instruction} {o : Option Nat} (hd : x.toDecoding = y.toDecoding)
    (h : Holds image x o) : Holds image y o := by
  cases o with
  | none =>
    obtain ⟨hi, hn⟩ := h
    rw [hd] at hi hn
    exact ⟨hi, hn⟩
  | some k => exact hd.symm.trans h

theorem holds_nop (status : StageStatus) : Holds image (nop status) none := ⟨rfl, rfl⟩

/-- Decoding keeps the origin of a latch. -/
theorem IfHolds.decoded {x : Instruction} {o : Option Nat} (h : IfHolds image x o) :
    Holds image (simDecode x) o := by
  cases o with
  | none =>
    rcases h with rfl | rfl
    · exact ⟨rfl, rfl⟩
    · exact ⟨rfl, rfl⟩
  | some k => exact congrArg (fun y => (simDecode y).toDecoding) h

variable {o : Origins} {n : Nat}

theorem Tracks.ifStage (h : Tracks image (machineAt image n).pipelineInfo o) :
    IfHolds image (machineAt image n).ifStage (o.next (machineAt image n) n).ifInst := by
  show IfHolds image _ (if (machineAt image n).stall || (machineAt image n).branchStall then o.ifInst
    else if (machineAt image n).flush then none else some n)
  unfold Machine.ifStage
  split_ifs
  · exact h.ifInst
  · exact Or.inr rfl
  · rfl

/-- The ID latch, whose status is computed anew unless the latch is held. -/
theorem Tracks.idStage {m : Machine} (h : Tracks image m.pipelineInfo o) :
    Holds image m.idStage (o.next m n).idInst ∧ (m.idStage.status = stageStatus m.idStage ∨
      ((o.next m n).idInst = none ∧ m.idStage.status = .idle)) := by
  unfold Origins.next
  by_cases hs : m.stall = true
  · simp only [Machine.idStage, hs, if_true]
    exact ⟨h.idInst, h.idStatus⟩
  by_cases hb : m.branchStall = true
  · simp only [Machine.idStage, hs, hb, if_true]
    exact ⟨holds_nop _, .inl rfl⟩
  · have ha : m.Accepts := ⟨Bool.eq_false_iff.mpr hs, Bool.eq_false_iff.mpr hb⟩
    simp only [hs, hb]
    refine ⟨h.ifInst.decoded.congr ha.idStage_toDecoding.symm, .inl ?_⟩
    rw [ha.idStage_eq]
    rfl

theorem Tracks.exStage {m : Machine} (h : Tracks image m.pipelineInfo o) :
    Holds image m.exStage (o.next m n).exInst := by
  show Holds image _ (if m.stall then none else o.idInst)
  unfold Machine.exStage
  split_ifs
  · exact holds_nop _
  · exact h.idInst.congr (simEX_toDecoding _).symm

/-- The latches hold what their origins say, after any number of cycles. -/
theorem tracks (n : Nat) : Tracks image (machineAt image n).pipelineInfo (originsAt image n) := by
  induction n with
  | zero =>
    exact ⟨Or.inl rfl, holds_nop _, .inr ⟨rfl, rfl⟩, holds_nop _, holds_nop _, holds_nop _⟩
  | succ n ih =>
    rw [machineAt_succ]
    exact ⟨ih.ifStage, ih.idStage.1, ih.idStage.2, ih.exStage,
      ih.exInst.congr (Machine.memStage_toDecoding _).symm,
      ih.memInst.congr (Machine.wbStage_toDecoding _).symm⟩

end

/-! ### What a status says -/

/-- A status tells a fetched instruction from an inserted `nop`. -/
structure Tells (status : StageStatus) (origin : Option Nat) : Prop where
  fetched : status = .normal ∨ status = .speculative → origin.isSome = true
  inserted : status = .bubble ∨ status = .idle ∨ status = .squashed → origin = none

/-- All statuses of a dump do. -/
structure StatusesTell (dump : PipeState) (o : Origins) : Prop where
  ifStatus : Tells dump.ifStatus o.ifInst
  idStatus : Tells dump.idStatus o.idInst
  exStatus : Tells dump.exStatus o.exInst
  memStatus : Tells dump.memStatus o.memInst
  wbStatus : Tells dump.wbStatus o.wbInst

/-- A NOP or a HALT of the program. -/
def FetchedSpecial (instr : BitVec 64) (origin : Option Nat) : Prop :=
  origin.isSome = true ∧ (instr = 0x00000013#64 ∨ instr = 0xfeedfeed#64)

/-- The next cycle takes a fetched instruction into WB, and neither takes a NOP or HALT of the
program into ID, EX or MEM nor holds one in ID. -/
structure NothingHidden (m : Machine) (o : Origins) : Prop where
  memInst : o.memInst.isSome = true
  exInst : ¬FetchedSpecial m.pipelineInfo.exInst.instruction o.exInst
  idInst : ¬FetchedSpecial m.pipelineInfo.idInst.instruction o.idInst
  ifInst : m.Accepts → ¬FetchedSpecial m.pipelineInfo.ifInst.instruction o.ifInst

theorem tells_nop {status : StageStatus} :
    Tells status none ↔ status ≠ .normal ∧ status ≠ .speculative := by
  constructor
  · intro ⟨h, _⟩
    exact ⟨fun hn => absurd (h (.inl hn)) nofun, fun hs => absurd (h (.inr hs)) nofun⟩
  · intro ⟨hn, hs⟩
    exact ⟨fun h => absurd h (not_or.mpr ⟨hn, hs⟩), fun _ => rfl⟩

theorem tells_normal {origin : Option Nat} : Tells .normal origin ↔ origin.isSome = true :=
  ⟨fun h => h.fetched (.inl rfl), fun h => ⟨fun _ => h, by simp⟩⟩

theorem tells_bubble {origin : Option Nat} : Tells .bubble origin ↔ origin = none :=
  ⟨fun h => h.inserted (.inl rfl), fun h => ⟨by simp, fun _ => h⟩⟩

theorem simDecode_instruction (x : Instruction) : (simDecode x).instruction = x.instruction := by
  have h := congrArg (fun i : Instruction => i.instruction) (simDecode_fields x)
  exact h

/-- NOP and HALT are two words. -/
theorem simDecode_special {x : Instruction} (hn : x.isNop = false) (hh : x.isHalt = false) :
    (simDecode x).isNop = true ∨ (simDecode x).isHalt = true ↔
      x.instruction = 0x00000013#64 ∨ x.instruction = 0xfeedfeed#64 := by
  constructor
  · rintro (h | h)
    · exact .inl (simDecode_nop_word hn h)
    · exact .inr (simDecode_halt hh h).1
  · rintro (h | h)
    · left
      rw [simDecode_of_nop h]
    · right
      have hw : (decodeFields x).instruction = 0xfeedfeed#64 := h
      unfold simDecode
      simp only [hw, if_true]

section
variable {image : MemoryImage} {x : Instruction} {origin : Option Nat}

theorem Holds.special_iff (h : Holds image x origin) (hf : origin.isSome = true) :
    (x.isNop || x.isHalt) = true ↔ FetchedSpecial x.instruction origin := by
  obtain ⟨k, rfl⟩ := Option.isSome_iff_exists.mp hf
  rw [FetchedSpecial, and_iff_right hf, Bool.or_eq_true]
  rw [show x.toDecoding = _ from h, simDecode_instruction]
  exact simDecode_special rfl rfl

/-- The status computed from the record. -/
theorem Holds.tells_iff (h : Holds image x origin) :
    Tells (stageStatus x) origin ↔ ¬FetchedSpecial x.instruction origin := by
  cases origin with
  | none =>
    have hb : stageStatus x = .bubble := by simp [stageStatus, h.2]
    rw [hb, tells_bubble]
    exact iff_of_true rfl (fun hf => absurd hf.1 nofun)
  | some k =>
    rw [← h.special_iff rfl, stageStatus]
    split_ifs with hs
    · rw [tells_bubble]
      exact iff_of_false nofun (fun hn => hn hs)
    · rw [tells_normal]
      exact iff_of_true rfl hs

end

/-! ### Every dump -/

variable {image : MemoryImage}

theorem ifStatus_tells (n : Nat) : Tells (machineAt image n).pipelineInfo.ifInst.status
    (originsAt image n).ifInst := by
  have h := (@tracks image n).ifInst
  generalize (originsAt image n).ifInst = o at h
  cases o with
  | none =>
    rw [tells_nop]
    rcases h with h | h <;> (rw [h]; exact ⟨nofun, nofun⟩)
  | some k =>
    rw [show (machineAt image n).pipelineInfo.ifInst = _ from h]
    exact tells_normal.mpr rfl

/-- What is in ID after a cycle was held there or came from IF. -/
theorem idInst_special_iff (m : Machine) (o : Origins) (n : Nat) :
    FetchedSpecial m.idStage.instruction (o.next m n).idInst ↔
      (m.stall = true ∧ FetchedSpecial m.pipelineInfo.idInst.instruction o.idInst) ∨
        (m.Accepts ∧ FetchedSpecial m.pipelineInfo.ifInst.instruction o.ifInst) := by
  unfold Origins.next
  cases hs : m.stall
  · cases hb : m.branchStall
    · have ha : m.Accepts := ⟨hs, hb⟩
      simp only [Bool.false_eq_true, if_false, false_and, false_or, ha, true_and]
      rw [ha.idStage_toDecoding, simDecode_instruction]
    · have hna : ¬m.Accepts := fun h => absurd (h.branchStall.symm.trans hb) nofun
      simp only [Bool.false_eq_true, if_false, if_true, false_and, false_or, hna]
      exact iff_of_false (fun h => absurd h.1 nofun) not_false
  · have hna : ¬m.Accepts := fun h => absurd (h.stall.symm.trans hs) nofun
    simp only [Machine.idStage, hs, if_true, true_and, hna, false_and, or_false]

theorem exInst_special_iff (m : Machine) (o : Origins) (n : Nat) :
    FetchedSpecial m.exStage.instruction (o.next m n).exInst ↔
      m.stall = false ∧ FetchedSpecial m.pipelineInfo.idInst.instruction o.idInst := by
  unfold Origins.next Machine.exStage
  cases hs : m.stall
  · simp only [Bool.false_eq_true, if_false, true_and]
    rw [simEX_toDecoding]
    rfl
  · simp only [if_true]
    exact iff_of_false (fun h => absurd h.1 nofun) (fun h => absurd h.1 nofun)

/-! ### The statuses after a cycle -/

theorem idStatus_tells_iff (n : Nat) : Tells (machineAt image n).pipelineInfo.idInst.status
      (originsAt image n).idInst ↔
    ¬FetchedSpecial (machineAt image n).pipelineInfo.idInst.instruction
      (originsAt image n).idInst := by
  have h := @tracks image n
  rcases h.idStatus with hs | ⟨ho, hs⟩
  · rw [hs]
    exact h.idInst.tells_iff
  · rw [hs, ho, tells_nop]
    exact iff_of_true ⟨nofun, nofun⟩ (fun hf => absurd hf.1 nofun)

theorem exStatus_tells_iff (n : Nat) : Tells (machineAt image (n + 1)).pipelineInfo.exInst.status
      (originsAt image (n + 1)).exInst ↔
    ¬FetchedSpecial (machineAt image (n + 1)).pipelineInfo.exInst.instruction
      (originsAt image (n + 1)).exInst := by
  have hs : (machineAt image (n + 1)).pipelineInfo.exInst.status =
      stageStatus (machineAt image (n + 1)).pipelineInfo.exInst := by
    rw [exInst_succ, Machine.exStage]
    split <;> rfl
  rw [hs]
  exact (tracks (n + 1)).exInst.tells_iff

theorem memStatus_tells_iff (n : Nat) : Tells (machineAt image (n + 1)).pipelineInfo.memInst.status
      (originsAt image (n + 1)).memInst ↔
    ¬FetchedSpecial (machineAt image (n + 1)).pipelineInfo.memInst.instruction
      (originsAt image (n + 1)).memInst := by
  have hs : (machineAt image (n + 1)).pipelineInfo.memInst.status =
      stageStatus (machineAt image (n + 1)).pipelineInfo.memInst := by
    rw [machineAt_succ]
    rfl
  rw [hs]
  exact (tracks (n + 1)).memInst.tells_iff

theorem wbStatus_tells_iff (n : Nat) : Tells (machineAt image (n + 1)).pipelineInfo.wbInst.status
    (originsAt image (n + 1)).wbInst ↔ (originsAt image n).memInst.isSome = true := by
  have hs : (machineAt image (n + 1)).pipelineInfo.wbInst.status = .normal := by
    rw [machineAt_succ]
    rfl
  rw [hs]
  exact tells_normal

/-- A call of `runCycles` dumps the statuses after one of its cycles. -/
theorem runCycles_dump {image : MemoryImage} {n fuel : Nat} {cycles : BitVec 64} {status : Status}
    {dump : PipeState} {m : Machine}
    (h : runCycles fuel cycles (machineAt image n) = some (status, dump, m)) :
    ∃ k cycle, m = machineAt image (k + 1) ∧ dump = m.pipeState cycle := by
  obtain ⟨k, -, hexit⟩ := Loop.exists_exit (fun _ _ h => (runCyclesBody_inl h).1) h
  have hstate : (CycleLoop.next^[k] ⟨0#64, 0#64, machineAt image n⟩).machine =
      machineAt image (k + n) := by
    rw [CycleLoop.iterate_next, machineAt, ← Function.iterate_add_apply]
    rfl
  rcases runCyclesBody_inr hexit with ⟨_, rfl, _, hdump⟩ | ⟨_, rfl, hdone, hdump⟩
  · exact ⟨k + n, _, by rw [hstate, machineAt_succ], hdump⟩
  · -- the loop test holds before the first cycle
    cases k with
    | zero =>
      refine absurd ?_ hdone
      by_cases hc : cycles = 0#64
      · exact .inl hc
      · exact .inr (by
          show 0#64 < cycles
          bv_omega)
    | succ k => exact ⟨k + n, _, by rw [hstate, Nat.add_right_comm], hdump⟩

/-- **The stage statuses.** The statuses dumped after a cycle tell fetched instructions from
inserted `nop`s exactly when the cycle takes a fetched instruction into WB and no NOP or HALT
of the program into ID, EX or MEM. In the first cycle of any program WB gets the `nop` MEM
starts with. -/
theorem statusesTell_iff (image : MemoryImage) :
    (∀ n cycle, StatusesTell ((machineAt image (n + 1)).pipeState cycle) (originsAt image (n + 1)) ↔
      NothingHidden (machineAt image n) (originsAt image n)) ∧
    ∀ cycle, ¬StatusesTell ((machineAt image 1).pipeState cycle) (originsAt image 1) := by
  have hiff : ∀ n cycle,
      StatusesTell ((machineAt image (n + 1)).pipeState cycle) (originsAt image (n + 1)) ↔
        NothingHidden (machineAt image n) (originsAt image n) := by
    intro n cycle
    have hid := @idStatus_tells_iff image (n + 1)
    have hex := @exStatus_tells_iff image n
    have hmem := @memStatus_tells_iff image n
    have hwb := @wbStatus_tells_iff image n
    rw [idInst_succ, originsAt, idInst_special_iff, ← idInst_succ] at hid
    rw [exInst_succ, originsAt, exInst_special_iff, ← exInst_succ] at hex
    rw [memInst_succ] at hmem
    constructor
    · intro ⟨_, hid', hex', hmem', hwb'⟩
      refine ⟨hwb.mp hwb', hmem.mp hmem', fun h => ?_, fun ha h => hid.mp hid' (.inr ⟨ha, h⟩)⟩
      cases hs : (machineAt image n).stall
      · exact hex.mp hex' ⟨hs, h⟩
      · exact hid.mp hid' (.inl ⟨hs, h⟩)
    · intro ⟨hwb', hmem', hid', hif'⟩
      refine ⟨ifStatus_tells _, hid.mpr ?_, hex.mpr (fun h => hid' h.2), hmem.mpr hmem',
        hwb.mpr hwb'⟩
      rintro (⟨-, h⟩ | ⟨ha, h⟩)
      · exact hid' h
      · exact hif' ha h
  refine ⟨hiff, fun cycle h => ?_⟩
  exact absurd ((hiff 0 cycle).mp h).memInst nofun

/-- After the first cycle of the sample program the dump has a `NORMAL` instruction in WB,
where no instruction has been fetched for. -/
theorem stageStatuses_mislead : ¬∀ (image : MemoryImage) (n : Nat) (cycle : BitVec 64),
    StatusesTell ((machineAt image (n + 1)).pipeState cycle) (originsAt image (n + 1)) := by
  intro hall
  have hnormal : ((machineAt sampleImage 1).pipeState 0#64).wbStatus = .normal := by decide
  exact absurd ((hall sampleImage 0 0#64).wbStatus.fetched (.inl hnormal)) (by decide)

end CycleSim
