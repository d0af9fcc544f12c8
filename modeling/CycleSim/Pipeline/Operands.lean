import CycleSim.Pipeline.Refinement

/-! Forwarding delivers the operands of the functional run.

`exInput_operands` and `control_operands` compare each network with the registers that
everything older leaves. On a program that does not modify itself these are the
registers of the functional simulator just before the same instruction. -/
namespace CycleSim

/-- The operands an instruction reads, as the registers `r` have them. -/
def ReadsFrom (r : Regs) (x : Instruction) : Prop :=
  (x.readsRs1 = true → x.op1Val = r.read x.rs1) ∧ (x.readsRs2 = true → x.op2Val = r.read x.rs2)

theorem Covered.readsFrom {r : Regs} {x : Instruction} (h : Covered [] r x) : ReadsFrom r x :=
  ⟨fun h1 => h.op1 h1 (by simp), fun h2 => h.op2 h2 (by simp)⟩

theorem readsFrom_of_idle {r : Regs} {x : Instruction} (h : x.flags = {}) : ReadsFrom r x :=
  Covered.readsFrom (.of_idle h)

/-- The last instruction a log shows, and the run before it. -/
theorem Funct.visible_concat {image : MemoryImage} {k : Nat} {log : List Decoding} {x : Decoding}
    (h : Funct.visible image k = log ++ [x]) :
    ∃ i < k, Funct.visible image i = log ∧ (Funct.executed image i).toDecoding = x := by
  induction k with
  | zero => simp [Funct.visible, Funct.trace] at h
  | succ k ih =>
    rw [Funct.visible_succ] at h
    cases hn : (Funct.executed image k).isNop
    · have hl : (Funct.executed image k).logged = [(Funct.executed image k).toDecoding] := by
        simp [Decoding.logged, hn]
      rw [hl] at h
      obtain ⟨hlog, hx⟩ := List.append_inj' h rfl
      exact ⟨k, Nat.lt_succ_self k, hlog, List.singleton_inj.mp hx⟩
    · have hl : (Funct.executed image k).logged = [] := by
        simp [Decoding.logged, hn]
      rw [hl, List.append_nil] at h
      obtain ⟨i, hi, hlog, hx⟩ := ih h
      exact ⟨i, Nat.lt_succ_of_lt hi, hlog, hx⟩

section
variable {image : MemoryImage} {n : Nat}

/-- As long as no HALT or illegal instruction has passed EX, ID holds an instruction of the
run, or the one that stops it. -/
theorem enterLog_visible (hself : NoSelfModification image)
    (hfree : FreeOf Decoding.traps (exLog image n)) :
    ∃ k, Funct.Executes image k ∧ enterLog image n = Funct.visible image k := by
  rcases sync_or_trapped hself n with ⟨k, h⟩ | ⟨c, hc, k, d, h, hi, ht⟩
  · exact ⟨k, h.reaches.mono (by omega), h.entered⟩
  · obtain ⟨rest, hrest⟩ := @enterLog_mono image _ _ hc
    have henter := h.enter_succ hself hi
    rw [visible_of_traps ht] at henter
    have hp : exLog image n ++ (machineAt image n).pipelineInfo.idInst.logged <+:
        (Funct.visible image k ++ [(Funct.executed image k).toDecoding]) ++ rest := by
      rw [← henter, hrest]
      exact List.prefix_refl _
    have hv := prefix_of_freeOf ht hfree hp
    rw [← visible_of_traps ht] at hv
    obtain ⟨i, hi, heq⟩ := Funct.prefix_visible hv
    exact ⟨i, h.reaches.mono (by omega), heq⟩

theorem sync_of_free (hself : NoSelfModification image)
    (hfree : FreeOf Decoding.traps (enterLog image n)) : ∃ k, Sync image n k := by
  rcases sync_or_trapped hself n with hsync | ⟨c, hc, k, d, h, hi, ht⟩
  · exact hsync
  · have henter := h.enter_succ hself hi
    rw [visible_of_traps ht] at henter
    have hmem : (Funct.executed image k).toDecoding ∈ enterLog image n :=
      (enterLog_mono hc).subset (by rw [henter]; simp)
    rw [hfree _ hmem] at ht
    cases ht

/-- EX receives the operands the functional simulator reads. -/
theorem exInput_readsFrom (hself : NoSelfModification image)
    (hfree : FreeOf Decoding.traps (exLog image n)) :
    (machineAt image n).pipelineInfo.idInst.isNop = true ∧
        (∀ r, ReadsFrom r (machineAt image n).exInput) ∨
      ∃ i, Funct.Reaches image i ∧ exLog image n = Funct.visible image i ∧
        (machineAt image n).exInput.toDecoding = (Funct.executed image i).toDecoding ∧
        ReadsFrom (Funct.stateAt image i).simulator.regData (machineAt image n).exInput := by
  have hinv : (machineAt image n).Inv := machineAt_inv n
  cases hn : (machineAt image n).pipelineInfo.idInst.isNop
  · obtain ⟨k, hk, henter⟩ := enterLog_visible hself hfree
    have hlast : Funct.visible image k =
        exLog image n ++ [(machineAt image n).pipelineInfo.idInst.toDecoding] := by
      rw [← henter, enterLog]
      simp [Decoding.logged, hn]
    obtain ⟨i, hi, hlog, hx⟩ := Funct.visible_concat hlast
    refine .inr ⟨i, hk.mono (by omega), hlog.symm, hx.symm, ?_⟩
    have hop := hinv.exInput_operands.readsFrom
    rwa [afterEX_eq_replay, ← hlog, Funct.replay_visible] at hop
  · exact .inl ⟨rfl, fun r => readsFrom_of_idle (hinv.idDecoded.idle (.inr (.inr hn)))⟩

/-- ID resolves a branch on the operands the functional simulator reads. -/
theorem resolveInput_readsFrom (hself : NoSelfModification image)
    (hfree : FreeOf Decoding.traps (enterLog image n)) {d : Instruction}
    (hi : (machineAt image n).issue = some d) (hc : isControl d = true) :
    ∃ i, Funct.Reaches image i ∧ enterLog image n = Funct.visible image i ∧
      d.toDecoding = (Funct.executed image i).toDecoding ∧
      d.nextPC = (simNextPCResolution (machineAt image n).resolveInput).nextPC ∧
      ReadsFrom (Funct.stateAt image i).simulator.regData (machineAt image n).resolveInput := by
  obtain ⟨k, h⟩ := sync_of_free hself hfree
  have hd := Machine.issues_of_eq hi
  have hinv : (machineAt image n).Inv := machineAt_inv n
  have hcov := hinv.control_operands hd.accepts (hd.idStage.symm ▸ hc)
  have hid := hd.accepts.idStage_of_control (by
    rw [hd.accepts.isControl_eq, hd.idStage, hc])
  refine ⟨k, h.reaches, h.entered, h.issued hself hi, ?_, ?_⟩
  · rw [← hd.idStage, hid]
  · have hop := hcov.readsFrom
    rw [h.arch, hid] at hop
    exact hop

end

/-- A branch or `jalr` goes to EX in the cycle after ID accepted it, and both networks give
it the same operands. -/
theorem networks_agree {m : Machine} (h : m.Inv) {d : Instruction} (hi : m.issue = some d)
    (hc : isControl d = true) : m.runCycle.stall = false ∧
      (d.readsRs1 = true → m.runCycle.exInput.op1Val = m.resolveInput.op1Val) ∧
      (d.readsRs2 = true → m.runCycle.exInput.op2Val = m.resolveInput.op2Val) := by
  have hd := Machine.issues_of_eq hi
  have hid := hd.accepts.idStage_of_control (by
    rw [hd.accepts.isControl_eq, hd.idStage, hc])
  have hlatch : m.runCycle.pipelineInfo.idInst = d := hd.idStage
  have hres := (h.control_operands hd.accepts (hd.idStage.symm ▸ hc)).readsFrom
  have hex := h.runCycle.exInput_operands.readsFrom
  have hafter : m.runCycle.afterEX = m.afterID := by
    rw [h.afterEX_runCycle, if_neg (by simp [hd.accepts.stall])]
  rw [hafter] at hex
  have hdec : m.runCycle.exInput.toDecoding = d.toDecoding := by
    rw [← hlatch]
    rfl
  rw [hid] at hres
  have hdec' : m.resolveInput.toDecoding = d.toDecoding := by
    rw [← hd.idStage, hid]
    rfl
  refine ⟨h.runCycle.stall_control (hlatch.symm ▸ hc), fun h1 => ?_, fun h2 => ?_⟩
  · have hr : m.resolveInput.op1Val = m.afterID.regs.read m.resolveInput.rs1 :=
      hres.1 (by show m.resolveInput.readsRs1 = true; rw [hdec', h1])
    rw [hex.1 (by rw [hdec, h1]), hr, hdec, hdec']
  · have hr : m.resolveInput.op2Val = m.afterID.regs.read m.resolveInput.rs2 :=
      hres.2 (by show m.resolveInput.readsRs2 = true; rw [hdec', h2])
    rw [hex.2 (by rw [hdec, h2]), hr, hdec, hdec']

/-- **Forwarding delivers the architectural operand.** On an image whose run does not
modify itself, up to the first HALT or illegal instruction: what a cycle passes to
`simEX` is a NOP, which reads nothing, or the next instruction of the functional run
with the operands the functional registers have just before it; a branch or `jalr`
accepted into ID is resolved on the same values; and the network of the next cycle
brings the same operands to EX. -/
theorem forwarding_delivers (image : MemoryImage) (hself : NoSelfModification image) (n : Nat) :
    (FreeOf Decoding.traps (exLog image n) → (machineAt image n).stall = false →
      (machineAt image n).exInput.isNop = true ∧ (∀ r, ReadsFrom r (machineAt image n).exInput) ∨
      ∃ i, Funct.Reaches image i ∧ exLog image n = Funct.visible image i ∧
        (machineAt image n).exInput.toDecoding = (Funct.executed image i).toDecoding ∧
        ReadsFrom (Funct.stateAt image i).simulator.regData (machineAt image n).exInput) ∧
    (FreeOf Decoding.traps (enterLog image n) → ∀ d, (machineAt image n).issue = some d →
      isControl d = true →
      ∃ i, Funct.Reaches image i ∧ enterLog image n = Funct.visible image i ∧
        d.toDecoding = (Funct.executed image i).toDecoding ∧
        d.nextPC = (simNextPCResolution (machineAt image n).resolveInput).nextPC ∧
        ReadsFrom (Funct.stateAt image i).simulator.regData (machineAt image n).resolveInput) ∧
    (∀ d, (machineAt image n).issue = some d → isControl d = true →
      (machineAt image (n + 1)).stall = false ∧
      (d.readsRs1 = true →
        (machineAt image (n + 1)).exInput.op1Val = (machineAt image n).resolveInput.op1Val) ∧
      (d.readsRs2 = true →
        (machineAt image (n + 1)).exInput.op2Val = (machineAt image n).resolveInput.op2Val)) := by
  refine ⟨fun hfree _ => exInput_readsFrom hself hfree,
    fun hfree d => resolveInput_readsFrom hself hfree, fun d hi hc => ?_⟩
  rw [machineAt_succ]
  exact networks_agree (machineAt_inv n) hi hc

/-- The branch enters ID in cycle 5, after the load has passed MEM. -/
theorem forwarding_delivers_sample : ∃ d, (machineAt sampleImage 4).issue = some d ∧
    isControl d = true ∧
    ∃ i, Funct.Reaches sampleImage i ∧ d.toDecoding = (Funct.executed sampleImage i).toDecoding ∧
      ReadsFrom (Funct.stateAt sampleImage i).simulator.regData
        (machineAt sampleImage 4).resolveInput := by
  have hfree : FreeOf Decoding.traps (enterLog sampleImage 4) := by
    unfold FreeOf
    decide
  have hissue : (machineAt sampleImage 4).issue = some (machineAt sampleImage 4).idStage := by decide
  have hcontrol : isControl (machineAt sampleImage 4).idStage = true := by decide
  obtain ⟨i, hi, _, hd, _, hr⟩ :=
    (forwarding_delivers sampleImage sampleImage_noSelfModification 4).2.1 hfree _ hissue hcontrol
  exact ⟨_, hissue, hcontrol, i, hi, hd, hr⟩

end CycleSim
