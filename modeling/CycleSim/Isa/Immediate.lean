import CycleSim.Isa.Mnemonic

/-! The immediate against the executor.

`printInstr` assembles the immediate a second time, and differs from `simDecode` for `slliw`,
`addiw`, `jalr`, `lui` and `auipc` with some bits (`printsImmediate_iff`). -/
namespace CycleSim

open Rv64i (Op)

/-- Executing the word `w` is executing the operation `op` on the immediate `v`. -/
structure PerformsOn (w : BitVec 32) (op : Op) (v : BitVec 64) : Prop where
  selected : Rv64i.select w = some op
  immediate : op.immediate w = some v
  executed : ∀ (s : Simulator) (pc : BitVec 64),
    s.memory.memArr.length ≤ MemoryStore.maxEntries → wordAt pc s.memory = w →
    InMemory s.memory (op.access w (archState s.arch pc)) →
      archState (s.simInstruction pc).2.arch (s.simInstruction pc).1.nextPC =
        op.executeOn v (Rv64i.rd w) (Rv64i.rs1 w) (Rv64i.rs2 w) (archState s.arch pc)

theorem Performs.on {w : BitVec 32} {op : Op} {v : BitVec 64} (h : Performs w op)
    (hv : op.immediate w = some v) : PerformsOn w op v where
  selected := h.selected
  immediate := hv
  executed := by
    intro s pc hlen hw hin
    rw [h.executed s pc hlen hw hin]
    exact Rv64i.Op.execute_eq_executeOn hv _

/-- The dump prints the immediate of an instruction, if it has one. -/
def PrintsImmediate (w : BitVec 32) : Prop :=
  (simDecode { instruction := w.setWidth 64 }).isLegal = true → w ≠ 0x00000013#32 →
    ∀ op v, PerformsOn w op v → numbers (instrText w) = [v.toInt]

/-- The words whose immediate is printed otherwise than it is used. -/
inductive Misprinted (w : BitVec 32) : Prop
  | addiw (opcode : Rv64i.opcode w = 0b0011011#7) (funct3 : Rv64i.funct3 w = 0#3)
      (funct7 : Rv64i.funct7 w ≠ 0#7 ∧ Rv64i.funct7 w ≠ 0b0100000#7)
  | slliw (opcode : Rv64i.opcode w = 0b0011011#7) (funct3 : Rv64i.funct3 w = 1#3)
      (bit25 : w.getLsbD 25 = true)
  | jalr (opcode : Rv64i.opcode w = 0b1100111#7)
      (funct3 : Rv64i.funct3 w = 1#3 ∨ Rv64i.funct3 w = 5#3) (funct6 : Rv64i.funct6 w ≠ 0#6)
  | upper (opcode : Rv64i.opcode w = 0b0110111#7 ∨ Rv64i.opcode w = 0b0010111#7)
      (sign : w.getLsbD 19 = true ∨ w.getLsbD 31 = true)
      (bits : w.extractLsb' 19 13 ≠ BitVec.allOnes 13)

theorem printedName_isSome {w : BitVec 32} (h : Accepted w) : (printedName w).isSome = true ↔
    ¬(Rv64i.opcode w = 0b0011011#7 ∧ Rv64i.funct3 w = 0#3 ∧
      Rv64i.funct7 w ≠ 0#7 ∧ Rv64i.funct7 w ≠ 0b0100000#7) := by
  by_cases hm : MisnamedWord w
  · rcases hm with ⟨ho, h3, h7⟩ | ⟨ho, h3⟩
    · have hall : ∀ f7 : BitVec 7, f7 ≠ 0#7 →
          ((opBody opIntImmW ((0#3).setWidth 64) (f7.setWidth 64)).isSome = true ↔
            f7 = 0b0100000#7) := by decide +kernel
      simp only [printedName, ho, h3, true_and, h7, ne_eq, not_false_eq_true, Decidable.not_not]
      exact hall _ h7
    · simp only [printedName, ho, h3]
      exact iff_of_true rfl (by simp)
  · have hname : printedName w = _ := opBody_eq _ _ _ hm
    rw [hname, Option.isSome_map, ← accepted_iff_selected]
    refine iff_of_true h (fun haddiw => hm (.inl ?_))
    exact ⟨haddiw.1, haddiw.2.1, haddiw.2.2.1⟩

/-! ### Each form -/

section
variable (w : BitVec 32)

theorem slice_toNat (i k : Nat) : (w.extractLsb' i k).toNat = w.toNat / 2 ^ i % 2 ^ k := by
  rw [BitVec.extractLsb'_toNat, Nat.shiftRight_eq_div_pow]

theorem slice_toInt {i k : Nat} (h : k ≤ 6) :
    ((w.extractLsb' i k).setWidth 64).toInt = ((w.extractLsb' i k).toNat : Int) := by
  have hlt : (w.extractLsb' i k).toNat < 2 ^ 6 :=
    Nat.lt_of_lt_of_le (w.extractLsb' i k).isLt (Nat.pow_le_pow_right (by decide) h)
  have hnat : ((w.extractLsb' i k).setWidth 64).toNat = (w.extractLsb' i k).toNat := by
    rw [BitVec.toNat_setWidth, Nat.mod_eq_of_lt (by omega)]
  rw [BitVec.toInt_eq_toNat_of_lt (by omega), hnat]

/-- Five bits of a shift amount of six, the sixth being bit 25 of the word. -/
theorem shamt_five_iff : ((w.extractLsb' 20 6).toNat : Int) = (w.extractLsb' 20 5).toNat ↔
    w.getLsbD 25 = false := by
  have hbit : w.getLsbD 25 = decide (w.toNat / 2 ^ 25 % 2 = 1) := Nat.testBit_eq_decide_div_mod_eq
  rw [hbit, slice_toNat, slice_toNat, decide_eq_false_iff_not]
  omega

/-- A shift amount is the immediate when the immediate has no other bits. -/
theorem shamt_immI_iff : ((w.extractLsb' 20 6).toNat : Int) = (Rv64i.immI w).toInt ↔
    Rv64i.funct6 w = 0#6 := by
  have himm : (Rv64i.immI w).toInt = (w.extractLsb' 20 12).toInt :=
    BitVec.toInt_signExtend_of_le (by decide)
  have hzero : Rv64i.funct6 w = 0#6 ↔ (Rv64i.funct6 w).toNat = 0 := BitVec.toNat_inj.symm
  rw [himm, hzero, BitVec.toInt_eq_toNat_cond, Rv64i.funct6, slice_toNat, slice_toNat, slice_toNat]
  split_ifs <;> omega

/-- The bits of an upper immediate are those of the word, at their places. -/
theorem upper_getLsbD {i : Nat} (hi : 12 ≤ i) (h : i < 32) :
    (w.extractLsb' 12 20 ++ 0#12).getLsbD i = w.getLsbD i := by
  rw [BitVec.getLsbD_append, BitVec.getLsbD_extractLsb']
  simp [show ¬i < 12 by omega, show i - 12 < 20 by omega, show 12 + (i - 12) = i by omega]

theorem slice_eq_allOnes {i k : Nat} : w.extractLsb' i k = BitVec.allOnes k ↔
    ∀ j, i ≤ j → j < i + k → w.getLsbD j = true := by
  constructor
  · intro h j hi hk
    have hbit := congrArg (BitVec.getLsbD · (j - i)) h
    simpa [show j - i < k by omega, show i + (j - i) = j by omega] using hbit
  · intro h
    apply BitVec.eq_of_getLsbD_eq
    intro j hj
    simp [hj, h (i + j) (by omega) (by omega)]

/-- An upper immediate extended from bit 19 and not from its sign bit. -/
theorem upper_iff : (sext64 ((w.extractLsb' 12 20 ++ 0#12).setWidth 64) 19).toInt =
    (Rv64i.immU w).toInt ↔
      (w.getLsbD 19 = false ∧ w.getLsbD 31 = false) ∨ w.extractLsb' 19 13 = BitVec.allOnes 13 := by
  rw [BitVec.toInt_inj, Rv64i.immU, sext64_setWidth_iff _ (by decide) (by decide),
    BitVec.msb_eq_getLsbD_last, upper_getLsbD w (by decide) (by decide),
    upper_getLsbD w (by decide) (by decide), slice_eq_allOnes]
  refine or_congr Iff.rfl (forall_congr' (fun j => forall₂_congr (fun hj hlt => ?_)))
  rw [upper_getLsbD w (by omega) (by omega)]

end

section
variable {w : BitVec 32}

theorem numbers_instrText (hhalt : w ≠ 0xfeedfeed#32) (hnop : w ≠ 0x00000013#32) :
    numbers (instrText w) = if (printedName w).isSome then printed w else [] := by
  obtain ⟨operands, htext, hnum⟩ := instrText_eq w hhalt hnop
  rw [htext, numbers_line, hnum]

theorem Misprinted.opcode_mem (h : Misprinted w) :
    Rv64i.opcode w ∈ [0b0011011#7, 0b1100111#7, 0b0110111#7, 0b0010111#7] := by
  rcases h with ⟨h, -⟩ | ⟨h, -⟩ | ⟨h, -⟩ | ⟨h | h, -⟩ <;> simp [h]

theorem not_misprinted {c : BitVec 7} (hop : Rv64i.opcode w = c)
    (hc : c ∉ [0b0011011#7, 0b1100111#7, 0b0110111#7, 0b0010111#7]) : ¬Misprinted w :=
  fun h => hc (hop ▸ h.opcode_mem)

theorem printed_aluImm {f : Rv64i.AluOp} (h : Rv64i.select w = some (.aluImm f)) :
    printed w = [(if f.isShift then (w.extractLsb' 20 6).setWidth 64 else Rv64i.immI w).toInt] := by
  have hop : Rv64i.opcode w = 0b0010011#7 := Rv64i.select_opcode h
  have hf : Rv64i.aluImmOp (Rv64i.funct3 w) (Rv64i.bit30 w) = f := by
    rw [Rv64i.select, Rv64i.selectOp, hop] at h
    exact Rv64i.Op.aluImm.inj (Option.some.inj h)
  have hshift : ∀ (f3 : BitVec 3) (bit30 : Bool), (Rv64i.aluImmOp f3 bit30).isShift = true ↔
      f3 = 1#3 ∨ f3 = 5#3 := by decide
  simp only [printed, hop, true_or, if_true, ← hf, hshift]
  split_ifs
  · rw [slice_toInt w (by decide)]
  · rfl

theorem select_aluImmWord {f : Rv64i.WordOp} (h : Rv64i.select w = some (.aluImmWord f)) :
    Rv64i.wordImmOp (Rv64i.funct3 w) (Rv64i.bit30 w) = some f := by
  have hop : Rv64i.opcode w = 0b0011011#7 := Rv64i.select_opcode h
  rw [Rv64i.select, Rv64i.selectOp, hop] at h
  obtain ⟨f', hf, he⟩ := Option.map_eq_some_iff.mp h
  exact Rv64i.Op.aluImmWord.inj he ▸ hf

theorem wordImmOp_cases {f3 : BitVec 3} {bit30 : Bool} {f : Rv64i.WordOp}
    (h : Rv64i.wordImmOp f3 bit30 = some f) :
    (f3 = 0#3 ∧ f = .add) ∨ (f3 = 1#3 ∧ f = .sll) ∨ (f3 = 5#3 ∧ (f = .srl ∨ f = .sra)) := by
  revert h f bit30 f3
  decide

theorem printed_immediate (hop : Rv64i.opcode w = 0b0010011#7 ∨ Rv64i.opcode w = 0b0011011#7 ∨
    Rv64i.opcode w = 0b1100111#7) : printed w =
      [if Rv64i.funct3 w = 1#3 ∨ Rv64i.funct3 w = 5#3 then ((w.extractLsb' 20 6).toNat : Int)
        else (Rv64i.immI w).toInt] := by
  simp only [printed, if_pos hop]

theorem printed_jalr_iff (hop : Rv64i.opcode w = 0b1100111#7) :
    printed w = [(Rv64i.immI w).toInt] ↔ ¬Misprinted w := by
  have hmis : Misprinted w ↔ (Rv64i.funct3 w = 1#3 ∨ Rv64i.funct3 w = 5#3) ∧
      Rv64i.funct6 w ≠ 0#6 := by
    constructor
    · rintro (⟨h, -⟩ | ⟨h, -⟩ | ⟨-, h3, h6⟩ | ⟨h | h, -⟩)
      case jalr => exact ⟨h3, h6⟩
      all_goals exact absurd (hop.symm.trans h) (by decide)
    · exact fun ⟨h3, h6⟩ => .jalr hop h3 h6
  rw [printed_immediate (.inr (.inr hop)), hmis, List.cons_eq_cons, and_iff_left rfl]
  split_ifs with h
  · rw [shamt_immI_iff, and_iff_right h, ne_eq, not_not]
  · exact iff_of_true rfl (fun hm => h hm.1)

theorem printed_upper_iff (hop : Rv64i.opcode w = 0b0110111#7 ∨ Rv64i.opcode w = 0b0010111#7) :
    printed w = [(Rv64i.immU w).toInt] ↔ ¬Misprinted w := by
  have hmis : Misprinted w ↔ (w.getLsbD 19 = true ∨ w.getLsbD 31 = true) ∧
      w.extractLsb' 19 13 ≠ BitVec.allOnes 13 := by
    constructor
    · rintro (⟨h, -⟩ | ⟨h, -⟩ | ⟨h, -⟩ | ⟨-, hsign, hbits⟩)
      case upper => exact ⟨hsign, hbits⟩
      all_goals rcases hop with hop | hop <;> exact absurd (hop.symm.trans h) (by decide)
    · exact fun ⟨hsign, hbits⟩ => .upper hop hsign hbits
  have hprinted : printed w = [(sext64 ((w.extractLsb' 12 20 ++ 0#12).setWidth 64) 19).toInt] := by
    rcases hop with hop | hop <;> (simp only [printed, hop]; rfl)
  rw [hprinted, hmis, List.cons_eq_cons, and_iff_left rfl, upper_iff, not_and_or, not_or, ne_eq,
    not_not, Bool.not_eq_true, Bool.not_eq_true]

/-- The word forms of the immediate operations, by `funct3`. -/
theorem numbers_aluImmWord_iff {f : Rv64i.WordOp} (hacc : Accepted w)
    (h : Rv64i.select w = some (.aluImmWord f)) :
    ((printedName w).isSome = true ∧ printed w =
      [(if f.isShift then (w.extractLsb' 20 5).setWidth 64 else Rv64i.immI w).toInt]) ↔
        ¬Misprinted w := by
  have hop : Rv64i.opcode w = 0b0011011#7 := Rv64i.select_opcode h
  have hf := select_aluImmWord h
  have hmis : Misprinted w ↔ (Rv64i.funct3 w = 0#3 ∧ Rv64i.funct7 w ≠ 0#7 ∧
      Rv64i.funct7 w ≠ 0b0100000#7) ∨ (Rv64i.funct3 w = 1#3 ∧ w.getLsbD 25 = true) := by
    constructor
    · rintro (⟨-, h3, h7⟩ | ⟨-, h3, h25⟩ | ⟨h, -⟩ | ⟨h | h, -⟩)
      case addiw => exact .inl ⟨h3, h7⟩
      case slliw => exact .inr ⟨h3, h25⟩
      all_goals exact absurd (hop.symm.trans h) (by decide)
    · rintro (⟨h3, h7⟩ | ⟨h3, h25⟩)
      · exact .addiw hop h3 h7
      · exact .slliw hop h3 h25
  rw [printedName_isSome hacc, printed_immediate (.inr (.inl hop)), hmis, List.cons_eq_cons,
    and_iff_left rfl, and_iff_right hop]
  obtain ⟨op, hsel, hck⟩ := hacc
  obtain rfl := Option.some.inj (h.symm.trans hsel)
  rcases wordImmOp_cases hf with ⟨h3, rfl⟩ | ⟨h3, rfl⟩ | ⟨h3, hsr⟩
  · rw [h3]
    simp [Rv64i.WordOp.isShift]
  · have hshift : Rv64i.WordOp.sll.isShift = true := rfl
    rw [if_pos (.inl h3), if_pos hshift, slice_toInt w (by decide), shamt_five_iff, h3]
    simp
  · have h25 : w.getLsbD 25 = false := by
      have hbits : Rv64i.funct7 w = f.funct7 := by
        rcases hsr with rfl | rfl <;> exact beq_iff_eq.mp hck
      have hbit : w.getLsbD 25 = (Rv64i.funct7 w).getLsbD 0 := by simp [Rv64i.funct7]
      rw [hbit, hbits]
      rcases hsr with rfl | rfl <;> rfl
    have hshift : f.isShift = true := by rcases hsr with rfl | rfl <;> rfl
    rw [if_pos (.inr h3), if_pos hshift, slice_toInt w (by decide), shamt_five_iff, h3, h25]
    simp

/-- The number printed is the immediate, but for the words above. -/
theorem numbers_eq_iff {op : Op} {v : BitVec 64} (hacc : Accepted w) (hhalt : w ≠ 0xfeedfeed#32)
    (hnop : w ≠ 0x00000013#32) (hsel : Rv64i.select w = some op) (hv : op.immediate w = some v) :
    numbers (instrText w) = [v.toInt] ↔ ¬Misprinted w := by
  have hop := Rv64i.select_opcode hsel
  have hnamed : Rv64i.opcode w ≠ 0b0011011#7 → (printedName w).isSome = true :=
    fun hne => (printedName_isSome hacc).mpr (fun h => hne h.1)
  rw [numbers_instrText hhalt hnop]
  have hplain : ∀ c : BitVec 7, Rv64i.opcode w = c →
      c ∉ [0b0011011#7, 0b1100111#7, 0b0110111#7, 0b0010111#7] → printed w = [v.toInt] →
      ((if (printedName w).isSome then printed w else []) = [v.toInt] ↔ ¬Misprinted w) := by
    intro c ho hc hprinted
    rw [if_pos (hnamed (fun he => hc (by simp [← ho, he]))), hprinted]
    exact iff_of_true rfl (not_misprinted ho hc)
  cases op with
  | alu f => cases hv
  | aluWord f => cases hv
  | aluImmWord f =>
    obtain rfl := Option.some.inj hv
    rw [← numbers_aluImmWord_iff hacc hsel]
    split_ifs with hname <;> simp [hname]
  | jalr =>
    obtain rfl := Option.some.inj hv
    rw [if_pos (hnamed (by rw [hop]; decide)), printed_jalr_iff hop]
  | auipc =>
    obtain rfl := Option.some.inj hv
    rw [if_pos (hnamed (by rw [hop]; decide)), printed_upper_iff (.inr hop)]
  | lui =>
    obtain rfl := Option.some.inj hv
    rw [if_pos (hnamed (by rw [hop]; decide)), printed_upper_iff (.inl hop)]
  | aluImm f =>
    obtain rfl := Option.some.inj hv
    exact hplain 0b0010011#7 hop (by decide) (printed_aluImm hsel)
  | load =>
    obtain rfl := Option.some.inj hv
    exact hplain 0b0000011#7 hop (by decide) (by simp only [printed, hop]; rfl)
  | store =>
    obtain rfl := Option.some.inj hv
    exact hplain 0b0100011#7 hop (by decide) (by simp only [printed, hop]; rfl)
  | branch =>
    obtain rfl := Option.some.inj hv
    exact hplain 0b1100011#7 hop (by decide) (by simp only [printed, hop]; rfl)
  | jal =>
    obtain rfl := Option.some.inj hv
    exact hplain 0b1101111#7 hop (by decide) (by simp only [printed, hop]; rfl)

end

/-- The misprinted words have an immediate. -/
theorem Misprinted.immediate {w : BitVec 32} (h : Misprinted w) {op : Op}
    (hsel : Rv64i.select w = some op) : ∃ v, op.immediate w = some v := by
  have hop := Rv64i.select_opcode hsel
  cases op with
  | alu f => exact absurd h (not_misprinted (c := 0b0110011#7) hop (by decide))
  | aluWord f => exact absurd h (not_misprinted (c := 0b0111011#7) hop (by decide))
  | _ => exact ⟨_, rfl⟩

theorem Misprinted.accepted {w : BitVec 32} (h : Misprinted w) : Accepted w := by
  rw [accepted_iff_selected]
  cases h with
  | addiw ho h3 _ =>
    rw [ho, h3]
    rfl
  | slliw ho h3 _ =>
    rw [ho, h3]
    rfl
  | jalr ho _ _ =>
    rw [ho]
    rfl
  | upper ho _ _ => rcases ho with ho | ho <;> (rw [ho]; rfl)

/-- **The immediate.** The dump prints the immediate that is used for all words but some of
`slliw`, `addiw`, `jalr`, `lui` and `auipc`. -/
theorem printsImmediate_iff (w : BitVec 32) : PrintsImmediate w ↔ ¬Misprinted w := by
  constructor
  · intro hprints hmis
    have hhalt : w ≠ 0xfeedfeed#32 := by
      rintro rfl
      exact absurd hmis.opcode_mem (by decide)
    have hnop : w ≠ 0x00000013#32 := by
      rintro rfl
      exact absurd hmis.opcode_mem (by decide)
    obtain ⟨op, hop⟩ := hmis.accepted.performs hhalt
    obtain ⟨v, hv⟩ := hmis.immediate hop.selected
    have hnumbers := hprints ((simDecode_isLegal rfl).mpr (.inr hmis.accepted)) hnop op v (hop.on hv)
    exact (numbers_eq_iff hmis.accepted hhalt hnop hop.selected hv).mp hnumbers hmis
  · intro hmis hlegal hnop op v hop
    rcases (simDecode_isLegal rfl).mp hlegal with rfl | hacc
    · have hnone : Rv64i.select 0xfeedfeed#32 = none := by decide
      exact absurd (hnone.symm.trans hop.selected) nofun
    · have hhalt : w ≠ 0xfeedfeed#32 := by
        rintro rfl
        exact absurd hacc (by decide)
      exact (numbers_eq_iff hacc hhalt hnop hop.selected hop.immediate).mpr hmis

/-- `lui ra, 0x80` is printed as -524288. -/
theorem lui_misprinted : ¬∀ w, PrintsImmediate w := by
  intro hall
  have hacc : Accepted 0x000800b7#32 := by decide
  have hlui : Rv64i.select 0x000800b7#32 = some .lui := by decide
  obtain ⟨op, hop⟩ := hacc.performs (by decide)
  obtain rfl : op = .lui := Option.some.inj (hop.selected.symm.trans hlui)
  have hnumbers := hall 0x000800b7#32 (by decide) (by decide) .lui 0x80000#64 (hop.on (by decide))
  exact absurd hnumbers (by decide)

end CycleSim
