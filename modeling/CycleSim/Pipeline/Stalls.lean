import CycleSim.Pipeline.Run

/-! Which stalls are needed, and which are not.

Both stall tests compare the bits at the places of `rs1` and `rs2` without asking whether
the instruction has such an operand, so immediate bits can hold it up; `noFalseStall_iff`
says when they do. A store right behind the load of its data is always held up, and the
forward from WB to MEM that would serve it is never used (`load_store_held`). -/
namespace CycleSim

/-- The register `r` is an operand of `x`. -/
def Decoding.Reads (x : Decoding) (r : BitVec 64) : Prop :=
  (x.readsRs1 = true ∧ x.rs1 = r) ∨ (x.readsRs2 = true ∧ x.rs2 = r)

/-- The number `r` stands where an operand would, in bits that `x` uses for something else. -/
def Decoding.Resembles (x : Decoding) (r : BitVec 64) : Prop :=
  (x.readsRs1 = false ∧ x.rs1 = r) ∨ (x.readsRs2 = false ∧ x.rs2 = r)

/-- The number `r` stands where an operand would. -/
def Decoding.Names (x : Decoding) (r : BitVec 64) : Prop := x.rs1 = r ∨ x.rs2 = r

/-- `x` reads an awaited register, not register 0, that an older instruction writes. -/
def WaitsFor (x : Instruction) (awaited : BitVec 64 → Prop) (older : List Instruction) : Prop :=
  ∃ r, r ≠ 0#64 ∧ x.Reads r ∧ awaited r ∧ ∃ w ∈ older, w.writesRd = true ∧ w.rd = r

theorem hazard_iff {w : Instruction} {r : BitVec 64} :
    hazard w r = true ↔ r ≠ 0#64 ∧ w.writesRd = true ∧ w.rd = r := by
  simp only [hazard, Bool.and_eq_true, bne_iff_ne, beq_iff_eq]
  constructor
  · rintro ⟨⟨hw, h0⟩, rfl⟩
    exact ⟨h0, hw, rfl⟩
  · rintro ⟨h0, hw, rfl⟩
    exact ⟨⟨hw, h0⟩, rfl⟩

theorem hazard_of_idle {x : Instruction} (h : x.flags = {}) (r : BitVec 64) :
    hazard x r = false := by
  simp only [Decoding.flags, Flags.mk.injEq] at h
  simp [hazard, h]

theorem Decoding.names_iff {x : Decoding} {r : BitVec 64} :
    x.Names r ↔ x.Reads r ∨ x.Resembles r := by
  unfold Names Reads Resembles
  cases x.readsRs1 <;> cases x.readsRs2 <;> simp [or_comm]

theorem Decoding.Reads.names {x : Decoding} {r : BitVec 64} (h : x.Reads r) : x.Names r :=
  names_iff.mpr (.inl h)

theorem WaitsFor.of_hazard {x w : Instruction} {awaited : BitVec 64 → Prop}
    {older : List Instruction} {r : BitVec 64} (hx : x.Reads r) (ha : awaited r) (hw : w ∈ older)
    (hz : hazard w r = true) : WaitsFor x awaited older := by
  obtain ⟨h0, hrd, hr⟩ := hazard_iff.mp hz
  exact ⟨r, h0, hx, ha, w, hw, hrd, hr⟩

namespace Machine

/-! ### What the stall tests test -/

/-- A match of `r` with one of its fields holds the instruction in ID. -/
def AwaitedInID (m : Machine) (r : BitVec 64) : Prop :=
  let ID := m.pipelineInfo.idInst
  let EX := m.pipelineInfo.exInst
  let MEM := m.pipelineInfo.memInst
  r ≠ 0#64 ∧
    (EX.readsMem = true ∧ EX.rd = r ∨
      EX.writesRd = true ∧ isControl ID = true ∧ EX.rd = r ∨
      MEM.readsMem = true ∧ MEM.writesRd = true ∧ isControl ID = true ∧ MEM.rd = r)

/-- A match of `r` with one of its fields sets `branchStall` for a branch or `jalr`. -/
def AwaitedInIF (m : Machine) (r : BitVec 64) : Prop :=
  hazard m.exStage r = true ∨ hazard m.memStage.1 r = true ∧ m.memStage.1.readsMem = true

theorem stall_iff_awaited (m : Machine) : m.stall = true ↔
    ∃ r, m.pipelineInfo.idInst.Names r ∧ m.AwaitedInID r := by
  simp only [stall, loadUseStall, arithBranchStall, loadBranchStall, Bool.or_eq_true,
    Bool.and_eq_true, bne_iff_ne, beq_iff_eq, AwaitedInID, Decoding.Names]
  constructor
  · rintro ((⟨⟨hl, h0⟩, hr⟩ | ⟨⟨⟨hw, hc⟩, h0⟩, hr⟩) | ⟨⟨⟨⟨hl, hw⟩, hc⟩, h0⟩, hr⟩)
    · exact ⟨_, hr.imp Eq.symm Eq.symm, h0, .inl ⟨hl, rfl⟩⟩
    · exact ⟨_, hr, h0, .inr (.inl ⟨hw, hc, rfl⟩)⟩
    · exact ⟨_, hr.imp Eq.symm Eq.symm, h0, .inr (.inr ⟨hl, hw, hc, rfl⟩)⟩
  · rintro ⟨_, hr, h0, ⟨hl, rfl⟩ | ⟨hw, hc, rfl⟩ | ⟨hl, hw, hc, rfl⟩⟩
    · exact .inl (.inl ⟨⟨hl, h0⟩, hr.imp Eq.symm Eq.symm⟩)
    · exact .inl (.inr ⟨⟨⟨hw, hc⟩, h0⟩, hr⟩)
    · exact .inr ⟨⟨⟨⟨hl, hw⟩, hc⟩, h0⟩, hr.imp Eq.symm Eq.symm⟩

theorem branchStall_iff_awaited (m : Machine) : m.branchStall = true ↔ m.stall = false ∧
    isControl m.newIDInst.1 = true ∧ ∃ r, m.newIDInst.1.Names r ∧ m.AwaitedInIF r := by
  simp only [branchStall, Bool.and_eq_true, Bool.or_eq_true, Bool.not_eq_true', and_assoc]
  refine and_congr_right (fun _ => and_congr_right (fun _ => ?_))
  constructor
  · rintro ((hz | hz) | ⟨hz | hz, hr⟩)
    · exact ⟨_, .inl rfl, .inl hz⟩
    · exact ⟨_, .inr rfl, .inl hz⟩
    · exact ⟨_, .inl rfl, .inr ⟨hz, hr⟩⟩
    · exact ⟨_, .inr rfl, .inr ⟨hz, hr⟩⟩
  · rintro ⟨r, rfl | rfl, hz | hz⟩
    · exact .inl (.inl hz)
    · exact .inr ⟨.inl hz.1, hz.2⟩
    · exact .inl (.inr hz)
    · exact .inr ⟨.inr hz.1, hz.2⟩

/-- In a reachable state the two tests for a branch in ID find nothing: what is awaited there
is the register a load in EX writes. -/
theorem Inv.awaitedInID_iff {m : Machine} (h : m.Inv) {r : BitVec 64}
    (hx : m.pipelineInfo.idInst.Names r) : m.AwaitedInID r ↔
      hazard m.pipelineInfo.exInst r = true ∧ m.pipelineInfo.exInst.readsMem = true := by
  constructor
  · rintro ⟨h0, ⟨hl, hr⟩ | ⟨hw, hc, hr⟩ | ⟨hl, hw, hc, hr⟩⟩
    · exact ⟨hazard_iff.mpr ⟨h0, (h.exDecoded.load hl).1, hr⟩, hl⟩
    · have hz := (h.control hc r (hx.imp Eq.symm Eq.symm)).1
      rw [hazard_iff.mpr ⟨h0, hw, hr⟩] at hz
      cases hz
    · have hz := (h.control hc r (hx.imp Eq.symm Eq.symm)).2 hl
      rw [hazard_iff.mpr ⟨h0, hw, hr⟩] at hz
      cases hz
  · intro ⟨hz, hl⟩
    obtain ⟨h0, _, hr⟩ := hazard_iff.mp hz
    exact ⟨h0, .inl ⟨hl, hr⟩⟩

/-- When ID is not held, EX and MEM take over the instructions of ID and EX. -/
theorem awaitedInIF_iff {m : Machine} (hs : m.stall = false) {r : BitVec 64} : m.AwaitedInIF r ↔
    hazard m.pipelineInfo.idInst r = true ∨
      hazard m.pipelineInfo.exInst r = true ∧ m.pipelineInfo.exInst.readsMem = true := by
  rw [AwaitedInIF, hazard_congr (exStage_toDecoding hs), hazard_congr m.memStage_toDecoding,
    m.memStage_toDecoding]

theorem Inv.stall_iff {m : Machine} (h : m.Inv) : m.stall = true ↔
    ∃ r, m.pipelineInfo.idInst.Names r ∧ hazard m.pipelineInfo.exInst r = true ∧
      m.pipelineInfo.exInst.readsMem = true :=
  m.stall_iff_awaited.trans (exists_congr (fun _ => and_congr_right h.awaitedInID_iff))

theorem branchStall_iff (m : Machine) : m.branchStall = true ↔ m.stall = false ∧
    isControl (simDecode m.pipelineInfo.ifInst) = true ∧
      ∃ r, (simDecode m.pipelineInfo.ifInst).Names r ∧ (hazard m.pipelineInfo.idInst r = true ∨
        hazard m.pipelineInfo.exInst r = true ∧ m.pipelineInfo.exInst.readsMem = true) := by
  rw [branchStall_iff_awaited, isControl_congr m.newIDInst_toDecoding, m.newIDInst_toDecoding]
  exact and_congr_right (fun hs => and_congr_right (fun _ =>
    exists_congr (fun _ => and_congr_right (fun _ => awaitedInIF_iff hs))))

/-! ### False stalls -/

/-- An instruction that a stall holds in ID reads what it is held for, a register that EX or MEM
write, as they were; one held in IF, a register that EX or MEM write as this cycle has replaced
them. -/
structure NoFalseStall (m : Machine) : Prop where
  inID : m.stall = true →
    WaitsFor m.pipelineInfo.idInst m.AwaitedInID [m.pipelineInfo.exInst, m.pipelineInfo.memInst]
  inIF : m.branchStall = true → WaitsFor m.newIDInst.1 m.AwaitedInIF [m.exStage, m.memStage.1]

/-- The instruction in ID, or a load in EX, writes `r`. -/
def Unready (m : Machine) (r : BitVec 64) : Prop :=
  hazard m.pipelineInfo.idInst r = true ∨
    hazard m.pipelineInfo.exInst r = true ∧ m.pipelineInfo.exInst.readsMem = true

/-- No immediate bits of the instruction in ID are the number of the register a load in EX
writes, unless it reads that register too; and no immediate bits of a branch or `jalr` about to
enter ID are the number of an unready register, unless it reads an unready register too. -/
structure ImmediatesApart (m : Machine) : Prop where
  inID : ∀ r, m.pipelineInfo.idInst.Resembles r → hazard m.pipelineInfo.exInst r = true →
    m.pipelineInfo.exInst.readsMem = true → m.pipelineInfo.idInst.Reads r
  inIF : m.stall = false → isControl (simDecode m.pipelineInfo.ifInst) = true →
    ∀ r, (simDecode m.pipelineInfo.ifInst).Resembles r → m.Unready r →
      ∃ r', (simDecode m.pipelineInfo.ifInst).Reads r' ∧ m.Unready r'

theorem NoFalseStall.immediatesApart {m : Machine} (h : m.Inv) (hno : m.NoFalseStall) :
    m.ImmediatesApart where
  inID r hx hz hl := by
    obtain ⟨r', _, hx', ha, _⟩ :=
      hno.inID (h.stall_iff.mpr ⟨r, Decoding.names_iff.mpr (.inr hx), hz, hl⟩)
    -- A load writes one register, so both are that one.
    have hz' := ((h.awaitedInID_iff hx'.names).mp ha).1
    have hr : r' = r := (hazard_iff.mp hz').2.2.symm.trans (hazard_iff.mp hz).2.2
    rwa [hr] at hx'
  inIF hs hc r hx hu := by
    obtain ⟨r', _, hx', ha, _⟩ :=
      hno.inIF (m.branchStall_iff.mpr ⟨hs, hc, r, Decoding.names_iff.mpr (.inr hx), hu⟩)
    rw [m.newIDInst_toDecoding] at hx'
    exact ⟨r', hx', (awaitedInIF_iff hs).mp ha⟩

theorem ImmediatesApart.noFalseStall {m : Machine} (h : m.Inv) (happart : m.ImmediatesApart) :
    m.NoFalseStall where
  inID hs := by
    obtain ⟨r, hx, hz, hl⟩ := h.stall_iff.mp hs
    have hreads : m.pipelineInfo.idInst.Reads r := by
      rcases Decoding.names_iff.mp hx with hx | hx
      · exact hx
      · exact happart.inID r hx hz hl
    exact .of_hazard hreads ((h.awaitedInID_iff hx).mpr ⟨hz, hl⟩) List.mem_cons_self hz
  inIF hb := by
    obtain ⟨hs, hc, r, hx, hu⟩ := m.branchStall_iff.mp hb
    have hreads : ∃ r', (simDecode m.pipelineInfo.ifInst).Reads r' ∧ m.Unready r' := by
      rcases Decoding.names_iff.mp hx with hx | hx
      · exact ⟨r, hx, hu⟩
      · exact happart.inIF hs hc r hx hu
    obtain ⟨r', hx', hu'⟩ := hreads
    rw [← m.newIDInst_toDecoding] at hx'
    have ha : m.AwaitedInIF r' := (awaitedInIF_iff hs).mpr hu'
    rcases ha with hz | hz
    · exact .of_hazard hx' (.inl hz) List.mem_cons_self hz
    · exact .of_hazard hx' (.inr hz) (List.mem_cons_of_mem _ List.mem_cons_self) hz.1

end Machine

/-- **False stalls.** In a run every instruction held reads the register it is held for exactly
when no state of the run has immediate bits that look like such a register, and nothing else
that would hold the instruction. -/
theorem noFalseStall_iff (image : MemoryImage) (k : Nat) :
    (∀ n < k, (machineAt image n).NoFalseStall) ↔ ∀ n < k, (machineAt image n).ImmediatesApart :=
  forall_congr' (fun n => imp_congr_right (fun _ =>
    ⟨fun h => h.immediatesApart (machineAt_inv n), fun h => h.noFalseStall (machineAt_inv n)⟩))

/-- `lw x1, 0(x0)`, then `addi x2, x0, 1`. -/
def falseStallImage : MemoryImage where
  bytes := [0x83#8, 0x20#8, 0x00#8, 0x00#8, 0x13#8, 0x01#8, 0x10#8, 0x00#8] ++
    List.replicate 0xFFF8 0#8
  length_eq := by
    rw [List.length_append, List.length_replicate]
    rfl

/-- The immediate of `addi` is 1 and the load writes register 1: `addi` waits in the fourth
cycle. -/
theorem falseStall_of_immediate : ¬∀ (image : MemoryImage) (n : Nat),
    (machineAt image n).NoFalseStall := by
  intro hall
  have hstall : (machineAt falseStallImage 3).stall = true := by decide
  obtain ⟨r, h0, hx, _⟩ := (hall falseStallImage 3).inID hstall
  have hnot : ¬(machineAt falseStallImage 3).pipelineInfo.idInst.readsRs2 = true := by decide
  have hrs1 : (machineAt falseStallImage 3).pipelineInfo.idInst.rs1 = 0#64 := by decide
  rcases hx with ⟨_, hr⟩ | ⟨hr, _⟩
  · exact h0 (hr.symm.trans hrs1)
  · exact hnot hr

/-! ### A store behind the load of its data -/

/-- A load is in EX and a store in ID, whose data is the register loaded and whose base is not. -/
structure LoadThenStore (m : Machine) : Prop where
  load : m.pipelineInfo.exInst.readsMem = true
  rd : m.pipelineInfo.exInst.rd ≠ 0#64
  store : m.pipelineInfo.idInst.writesMem = true
  data : m.pipelineInfo.idInst.rs2 = m.pipelineInfo.exInst.rd
  base : m.pipelineInfo.idInst.rs1 ≠ m.pipelineInfo.exInst.rd

/-- The store in ID after cycle `n` follows the load without a bubble, gets the loaded value
from the forward and writes it. -/
structure StoreForwarded (image : MemoryImage) (n : Nat) : Prop where
  moves : (machineAt image (n + 1)).pipelineInfo.exInst.toDecoding =
    (machineAt image n).pipelineInfo.idInst.toDecoding
  forwarded : (Machine.storeForward (machineAt image (n + 1)).pipelineInfo.exInst
    (machineAt image (n + 1)).wbStage.1).op2Val =
      (machineAt image (n + 1)).pipelineInfo.memInst.memResult
  stored : (machineAt image (n + 2)).simulator.memory =
    ((machineAt image (n + 1)).simulator.memory.setMemValue
      (machineAt image (n + 1)).pipelineInfo.exInst.memAddress
      (machineAt image (n + 1)).pipelineInfo.memInst.memResult
      (accessSize (machineAt image (n + 1)).pipelineInfo.exInst.funct3)).store

theorem Machine.Inv.stall_of_loadThenStore {m : Machine} (h : m.Inv) (hm : LoadThenStore m) :
    m.stall = true := by
  have hrd : m.pipelineInfo.exInst.writesRd = true := (h.exDecoded.load hm.load).1
  exact h.stall_iff.mpr ⟨_, .inr hm.data, hazard_iff.mpr ⟨hm.rd, hrd, rfl⟩, hm.load⟩

/-- **Stores held.** A store right behind the load of its data stays in ID, a bubble goes to EX
in its place, and the forward is missed. -/
theorem load_store_held (image : MemoryImage) (n : Nat) (hm : LoadThenStore (machineAt image n)) :
    (machineAt image (n + 1)).pipelineInfo.idInst = (machineAt image n).pipelineInfo.idInst ∧
      (machineAt image (n + 1)).pipelineInfo.exInst = nop .bubble ∧ ¬StoreForwarded image n := by
  have hs : (machineAt image n).stall = true := (machineAt_inv n).stall_of_loadThenStore hm
  have hex : (machineAt image (n + 1)).pipelineInfo.exInst = nop .bubble := by
    rw [exInst_succ, Machine.exStage_of_stall hs]
  refine ⟨by rw [idInst_succ, Machine.idStage_of_stall hs], hex, fun hf => ?_⟩
  have hw : (nop .bubble).writesMem = true := by
    rw [← hex, hf.moves]
    exact hm.store
  cases hw

/-- `lw x1, 12(x0)`, then `sw x1, 16(x0)`. -/
def loadStoreImage : MemoryImage where
  bytes := [0x83#8, 0x20#8, 0xc0#8, 0x00#8, 0x23#8, 0x28#8, 0x10#8, 0x00#8] ++
    List.replicate 0xFFF8 0#8
  length_eq := by
    rw [List.length_append, List.length_replicate]
    rfl

theorem loadThenStore_sample : LoadThenStore (machineAt loadStoreImage 3) :=
  ⟨by decide, by decide, by decide, by decide, by decide⟩

theorem load_store_held_sample : ¬StoreForwarded loadStoreImage 3 :=
  (load_store_held loadStoreImage 3 loadThenStore_sample).2.2

theorem not_storeForwarded : ¬∀ (image : MemoryImage) (n : Nat),
    LoadThenStore (machineAt image n) → StoreForwarded image n := by
  intro hall
  have hmoves := (hall loadStoreImage 3 loadThenStore_sample).moves
  have hwrites := congrArg Decoding.writesMem hmoves
  exact absurd hwrites (by decide)

end CycleSim
