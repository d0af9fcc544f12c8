import CycleSim.Print
import CycleSim.Isa.Conformance

/-! The text of an instruction.

`printInstr` decodes the word a second time, with tables of its own. They name the operation
that is executed but for `addiw`, where bits of the immediate are taken for `funct7`, and
`sltiu`, which it calls `sltui` (`opBody_eq`). Every text but those of HALT and NOP is the name and
the operands (`instrText_eq`). -/
namespace CycleSim

open Rv64i (Op)

/-! ### The tables -/

/-- The operation the fields of an accepted word select. -/
def selected (opc : BitVec 7) (f3 : BitVec 3) (f7 : BitVec 7) : Option Op :=
  (Rv64i.selectOp opc f3 (f7.getLsbD 5)).filter (checkedBits · f7)

theorem selected_eq_some {w : BitVec 32} {op : Op} :
    selected (Rv64i.opcode w) (Rv64i.funct3 w) (Rv64i.funct7 w) = some op ↔
      Rv64i.select w = some op ∧ checkedBits op (Rv64i.funct7 w) = true := by
  rw [selected, Option.filter_eq_some_iff, ← bit30_eq]
  rfl

theorem accepted_iff_selected (w : BitVec 32) : Accepted w ↔
    (selected (Rv64i.opcode w) (Rv64i.funct3 w) (Rv64i.funct7 w)).isSome = true := by
  rw [Option.isSome_iff_exists]
  exact exists_congr (fun op => selected_eq_some.symm)

/-- `addiw` with an immediate outside the low five bits, or `sltiu`. -/
def Misnamed (opc : BitVec 7) (f3 : BitVec 3) (f7 : BitVec 7) : Prop :=
  (opc = 0b0011011#7 ∧ f3 = 0#3 ∧ f7 ≠ 0#7) ∨ (opc = 0b0010011#7 ∧ f3 = 3#3)

section
variable (f3 : BitVec 3) (f7 : BitVec 7)

theorem opBody_int : opBody opInt (f3.setWidth 64) (f7.setWidth 64) =
    (selected 0b0110011#7 f3 f7).map Op.mnemonic := by
  revert f3 f7
  decide +kernel

theorem opBody_intW : opBody opIntW (f3.setWidth 64) (f7.setWidth 64) =
    (selected 0b0111011#7 f3 f7).map Op.mnemonic := by
  revert f3 f7
  decide +kernel

theorem opBody_intImm (h : f3 ≠ 3#3) : opBody opIntImm (f3.setWidth 64) (f7.setWidth 64) =
    (selected 0b0010011#7 f3 f7).map Op.mnemonic := by
  revert f3 f7
  decide +kernel

theorem opBody_intImmW (h : f3 = 0#3 → f7 = 0#7) :
    opBody opIntImmW (f3.setWidth 64) (f7.setWidth 64) =
      (selected 0b0011011#7 f3 f7).map Op.mnemonic := by
  revert f3 f7
  decide +kernel

theorem opBody_load : opBody opLoad (f3.setWidth 64) (f7.setWidth 64) =
    (selected 0b0000011#7 f3 f7).map Op.mnemonic := by
  revert f3 f7
  decide +kernel

theorem opBody_store : opBody opStore (f3.setWidth 64) (f7.setWidth 64) =
    (selected 0b0100011#7 f3 f7).map Op.mnemonic := by
  revert f3 f7
  decide +kernel

theorem opBody_branch : opBody opBranch (f3.setWidth 64) (f7.setWidth 64) =
    (selected 0b1100011#7 f3 f7).map Op.mnemonic := by
  revert f3 f7
  decide +kernel

/-- The two tables agree on everything that is not misnamed. -/
theorem opBody_eq (opc : BitVec 7) (h : ¬Misnamed opc f3 f7) :
    opBody (opc.setWidth 64) (f3.setWidth 64) (f7.setWidth 64) =
      (selected opc f3 f7).map Op.mnemonic := by
  by_cases h1 : opc = 0b0110011#7
  · subst h1
    exact opBody_int f3 f7
  by_cases h2 : opc = 0b0111011#7
  · subst h2
    exact opBody_intW f3 f7
  by_cases h3 : opc = 0b0000011#7
  · subst h3
    exact opBody_load f3 f7
  by_cases h4 : opc = 0b0010011#7
  · subst h4
    exact opBody_intImm f3 f7 (fun hf => h (.inr ⟨rfl, hf⟩))
  by_cases h5 : opc = 0b0011011#7
  · subst h5
    exact opBody_intImmW f3 f7 (fun hf => by_contra fun hf7 => h (.inl ⟨rfl, hf, hf7⟩))
  by_cases h6 : opc = 0b1100111#7
  · subst h6
    rfl
  by_cases h7 : opc = 0b0100011#7
  · subst h7
    exact opBody_store f3 f7
  by_cases h8 : opc = 0b1100011#7
  · subst h8
    exact opBody_branch f3 f7
  by_cases h9 : opc = 0b0010111#7
  · subst h9
    rfl
  by_cases h10 : opc = 0b0110111#7
  · subst h10
    rfl
  by_cases h11 : opc = 0b1101111#7
  · subst h11
    rfl
  · have hne : ∀ c : BitVec 7, opc ≠ c → opc.setWidth 64 ≠ c.setWidth 64 :=
      fun c hc => mt (setWidth_inj (by decide)).mp hc
    have hbody : opBody (opc.setWidth 64) (f3.setWidth 64) (f7.setWidth 64) = none := by
      rw [opBody, if_neg (show _ ≠ opIntImm from hne _ h4), if_neg (show _ ≠ opInt from hne _ h1),
        if_neg (show _ ≠ opIntImmW from hne _ h5), if_neg (show _ ≠ opIntW from hne _ h2),
        if_neg (show _ ≠ opLoad from hne _ h3), if_neg (show _ ≠ opStore from hne _ h7),
        if_neg (show _ ≠ opBranch from hne _ h8), if_neg (show _ ≠ opJal from hne _ h11),
        if_neg (show _ ≠ opJalr from hne _ h6), if_neg (show _ ≠ opLui from hne _ h10),
        if_neg (show _ ≠ opAuipc from hne _ h9)]
    simp only [hbody, selected, Rv64i.selectOp, h1, h2, h3, h4, h5, h6, h7, h8, h9, h10, h11,
      if_false]
    rfl

/-- What is misnamed is accepted, and named otherwise than by its mnemonic or not at all. -/
theorem opBody_misnamed (opc : BitVec 7) (h : Misnamed opc f3 f7) :
    ∃ op, selected opc f3 f7 = some op ∧
      opBody (opc.setWidth 64) (f3.setWidth 64) (f7.setWidth 64) ≠ some op.mnemonic ∧
      opBody (opc.setWidth 64) (f3.setWidth 64) (f7.setWidth 64) ≠ some "ILLEGAL" := by
  rcases h with ⟨rfl, rfl, h7⟩ | ⟨rfl, rfl⟩
  · refine ⟨.aluImmWord .add, rfl, ?_⟩
    revert f7
    decide +kernel
  · refine ⟨.aluImm .sltu, rfl, ?_⟩
    revert f7
    decide +kernel

theorem mnemonic_ne_illegal (op : Op) : op.mnemonic ≠ "ILLEGAL" := by
  cases op with
  | alu f => cases f <;> decide
  | aluWord f => cases f <;> decide
  | aluImm f => cases f <;> decide
  | aluImmWord f => cases f <;> decide
  | load width unsigned => cases width <;> cases unsigned <;> decide
  | store width => cases width <;> decide
  | branch c => cases c <;> decide
  | _ => decide

theorem opBody_ne_illegal (opc : BitVec 7) :
    opBody (opc.setWidth 64) (f3.setWidth 64) (f7.setWidth 64) ≠ some "ILLEGAL" := by
  by_cases h : Misnamed opc f3 f7
  · obtain ⟨op, _, _, hne⟩ := opBody_misnamed f3 f7 opc h
    exact hne
  · rw [opBody_eq f3 f7 opc h]
    intro hmap
    obtain ⟨op, _, hname⟩ := Option.map_eq_some_iff.mp hmap
    exact mnemonic_ne_illegal op hname

end

/-! ### The lines -/

/-- The numbers of a text. -/
def numbers (pieces : List Piece) : List Int :=
  pieces.filterMap (fun piece => match piece with
    | .num value => some value
    | .str _ => none)

/-- A line of the dump: a mnemonic and operands, if there is a mnemonic. -/
def line (mnemonic : Option String) (operands : List Piece) : List Piece :=
  match mnemonic with
  | none => [.str " ILLEGAL"]
  | some body => .str " " :: .str body :: operands

theorem line_eq {body : Option String} (operands : List Piece) (h : body ≠ some "ILLEGAL") :
    (if body.getD "ILLEGAL" = "ILLEGAL" then [.str " ILLEGAL"]
      else .str " " :: .str (body.getD "ILLEGAL") :: operands) = line body operands := by
  cases body with
  | none => rfl
  | some mnemonic => exact if_neg (fun he => h (congrArg some he))

theorem numbers_line (body : Option String) (operands : List Piece) :
    numbers (line body operands) = if body.isSome then numbers operands else [] := by
  cases body <;> rfl

/-- The number `printInstr` prints, if the word has a mnemonic. -/
def printed (w : BitVec 32) : List Int :=
  let opc := Rv64i.opcode w
  let f3 := Rv64i.funct3 w
  if opc = 0b0010011#7 ∨ opc = 0b0011011#7 ∨ opc = 0b1100111#7 then
    [if f3 = 1#3 ∨ f3 = 5#3 then ((w.extractLsb' 20 6).toNat : Int) else (Rv64i.immI w).toInt]
  else if opc = 0b0000011#7 then [(Rv64i.immI w).toInt]
  else if opc = 0b0100011#7 then [(Rv64i.immS w).toInt]
  else if opc = 0b1100011#7 then [(Rv64i.immB w).toInt]
  else if opc = 0b1101111#7 then [(Rv64i.immJ w).toInt]
  else if opc = 0b0110111#7 ∨ opc = 0b0010111#7 then
    [(sext64 ((w.extractLsb' 12 20 ++ 0#12).setWidth 64) 19).toInt]
  else []

/-- The mnemonic `getOpString` finds for a word. -/
def printedName (w : BitVec 32) : Option String :=
  opBody ((Rv64i.opcode w).setWidth 64) ((Rv64i.funct3 w).setWidth 64) ((Rv64i.funct7 w).setWidth 64)

section
variable (w : BitVec 32)

theorem word_opcode : extractBits (w.setWidth 64) 6 0 = (Rv64i.opcode w).setWidth 64 :=
  extractBits_setWidth w rfl (by decide) (by decide)

theorem word_funct3 : extractBits (w.setWidth 64) 14 12 = (Rv64i.funct3 w).setWidth 64 :=
  extractBits_setWidth w rfl (by decide) (by decide)

theorem word_funct7 : extractBits (w.setWidth 64) 31 25 = (Rv64i.funct7 w).setWidth 64 :=
  extractBits_setWidth w rfl (by decide) (by decide)

theorem word_rd : extractBits (w.setWidth 64) 11 7 = (Rv64i.rd w).setWidth 64 :=
  extractBits_setWidth w rfl (by decide) (by decide)

theorem word_opcode_iff (c : BitVec 7) :
    extractBits (w.setWidth 64) 6 0 = c.setWidth 64 ↔ Rv64i.opcode w = c := by
  rw [word_opcode]
  exact setWidth_inj (by decide)

theorem word_funct3_iff (c : BitVec 3) :
    extractBits (w.setWidth 64) 14 12 = c.setWidth 64 ↔ Rv64i.funct3 w = c := by
  rw [word_funct3]
  exact setWidth_inj (by decide)

theorem printedName_ne : printedName w ≠ some "ILLEGAL" :=
  opBody_ne_illegal _ _ _

theorem shamt_eq : (extractBits (w.setWidth 64) 31 20 &&& 0x3F#64).toNat =
    (w.extractLsb' 20 6).toNat := by
  rw [imm12_eq, imm_mask6_toNat]
  exact congrArg BitVec.toNat (Rv64i.immI_low w (by decide))

theorem handleIAndR_eq : ∃ operands, handleIAndR (w.setWidth 64) = line (printedName w) operands ∧
    numbers operands = if Rv64i.opcode w = 0b0110011#7 ∨ Rv64i.opcode w = 0b0111011#7 then []
      else [if Rv64i.funct3 w = 1#3 ∨ Rv64i.funct3 w = 5#3 then ((w.extractLsb' 20 6).toNat : Int)
        else (Rv64i.immI w).toInt] := by
  have hname : opBody (extractBits (w.setWidth 64) 6 0) (extractBits (w.setWidth 64) 14 12)
      (extractBits (w.setWidth 64) 31 25) = printedName w := by
    rw [word_opcode, word_funct3, word_funct7]
    rfl
  have hreg : (extractBits (w.setWidth 64) 6 0 = opInt ∨ extractBits (w.setWidth 64) 6 0 = opIntW) ↔
      Rv64i.opcode w = 0b0110011#7 ∨ Rv64i.opcode w = 0b0111011#7 :=
    or_congr (word_opcode_iff w 0b0110011#7) (word_opcode_iff w 0b0111011#7)
  have hshift : (extractBits (w.setWidth 64) 14 12 = funct3Sll ∨
      extractBits (w.setWidth 64) 14 12 = funct3Sr) ↔ Rv64i.funct3 w = 1#3 ∨ Rv64i.funct3 w = 5#3 :=
    or_congr (word_funct3_iff w 1#3) (word_funct3_iff w 5#3)
  unfold handleIAndR getOpString
  simp only [hname, hreg, hshift]
  by_cases hop : Rv64i.opcode w = 0b0110011#7 ∨ Rv64i.opcode w = 0b0111011#7
  · simp only [if_pos hop]
    exact ⟨_, line_eq _ (printedName_ne w), rfl⟩
  · simp only [if_neg hop]
    refine ⟨_, line_eq _ (printedName_ne w), ?_⟩
    by_cases hf : Rv64i.funct3 w = 1#3 ∨ Rv64i.funct3 w = 5#3
    · simp only [if_pos hf, ← shamt_eq]
      rfl
    · simp only [if_neg hf, sext64_imm12]
      rfl

theorem handleLAndS_eq (hop : Rv64i.opcode w = 0b0000011#7 ∨ Rv64i.opcode w = 0b0100011#7) :
    ∃ operands, handleLAndS (w.setWidth 64) = line (printedName w) operands ∧
      numbers operands = [if Rv64i.opcode w = 0b0000011#7 then (Rv64i.immI w).toInt
        else (Rv64i.immS w).toInt] := by
  have hname : opBody (extractBits (w.setWidth 64) 6 0) (extractBits (w.setWidth 64) 14 12) 0#64 =
      printedName w := by
    rw [word_opcode, word_funct3, printedName]
    rcases hop with h | h <;> (rw [h]; rfl)
  have hload : extractBits (w.setWidth 64) 6 0 = opLoad ↔ Rv64i.opcode w = 0b0000011#7 :=
    word_opcode_iff w 0b0000011#7
  unfold handleLAndS getOpString
  simp only [hname, hload, word_funct7, word_rd, storeImm_eq, sext64_imm12]
  by_cases h : Rv64i.opcode w = 0b0000011#7
  · simp only [if_pos h]
    exact ⟨_, line_eq _ (printedName_ne w), rfl⟩
  · simp only [if_neg h]
    exact ⟨_, line_eq _ (printedName_ne w), rfl⟩

theorem handleBranch_eq (hop : Rv64i.opcode w = 0b1100011#7) :
    ∃ operands, handleBranch (w.setWidth 64) = line (printedName w) operands ∧
      numbers operands = [(Rv64i.immB w).toInt] := by
  have hname : opBody (extractBits (w.setWidth 64) 6 0) (extractBits (w.setWidth 64) 14 12) 0#64 =
      printedName w := by
    rw [word_opcode, word_funct3, printedName, hop]
    rfl
  have himm := branchImm_eq w
  unfold branchImm at himm
  unfold handleBranch getOpString
  simp only [hname, word_funct7, word_rd, himm]
  exact ⟨_, line_eq _ (printedName_ne w), rfl⟩

theorem handleSpecial_eq (hop : Rv64i.opcode w = 0b1101111#7 ∨ Rv64i.opcode w = 0b0110111#7 ∨
      Rv64i.opcode w = 0b0010111#7) :
    ∃ operands, handleSpecial (w.setWidth 64) = line (printedName w) operands ∧
      numbers operands = [if Rv64i.opcode w = 0b1101111#7 then (Rv64i.immJ w).toInt
        else (sext64 ((w.extractLsb' 12 20 ++ 0#12).setWidth 64) 19).toInt] := by
  have hname : opBody (extractBits (w.setWidth 64) 6 0) 0#64 0#64 = printedName w := by
    rw [word_opcode, printedName]
    rcases hop with h | h | h <;> (rw [h]; rfl)
  have hjal : extractBits (w.setWidth 64) 6 0 = opJal ↔ Rv64i.opcode w = 0b1101111#7 :=
    word_opcode_iff w 0b1101111#7
  have himm := jalImm_eq w
  unfold jalImm at himm
  unfold handleSpecial getOpString
  simp only [hname, hjal, himm, upperShift_eq]
  by_cases h : Rv64i.opcode w = 0b1101111#7
  · simp only [if_pos h]
    exact ⟨_, line_eq _ (printedName_ne w), rfl⟩
  · simp only [if_neg h]
    exact ⟨_, line_eq _ (printedName_ne w), rfl⟩

/-- The line of a word is its mnemonic, if it has one, and operands. -/
theorem instrText_eq (hhalt : w ≠ 0xfeedfeed#32) (hnop : w ≠ 0x00000013#32) :
    ∃ operands, instrText w = line (printedName w) operands ∧ numbers operands = printed w := by
  have hop : ∀ c : BitVec 7, extractBits (w.setWidth 64) 6 0 = c.setWidth 64 ↔
    Rv64i.opcode w = c := word_opcode_iff w
  have hreg : (extractBits (w.setWidth 64) 6 0 = opInt ∨ extractBits (w.setWidth 64) 6 0 = opIntW ∨
      extractBits (w.setWidth 64) 6 0 = opIntImm ∨ extractBits (w.setWidth 64) 6 0 = opIntImmW ∨
      extractBits (w.setWidth 64) 6 0 = opJalr) ↔ _ :=
    or_congr (hop 0b0110011#7) (or_congr (hop 0b0111011#7) (or_congr (hop 0b0010011#7)
      (or_congr (hop 0b0011011#7) (hop 0b1100111#7))))
  have hmem : (extractBits (w.setWidth 64) 6 0 = opLoad ∨
      extractBits (w.setWidth 64) 6 0 = opStore) ↔ _ :=
    or_congr (hop 0b0000011#7) (hop 0b0100011#7)
  have hbranch : extractBits (w.setWidth 64) 6 0 = opBranch ↔ _ := hop 0b1100011#7
  have hspecial : (extractBits (w.setWidth 64) 6 0 = opJal ∨
      extractBits (w.setWidth 64) 6 0 = opLui ∨ extractBits (w.setWidth 64) 6 0 = opAuipc) ↔ _ :=
    or_congr (hop 0b1101111#7) (or_congr (hop 0b0110111#7) (hop 0b0010111#7))
  simp only [instrText, if_neg hhalt, if_neg hnop, hreg, hmem, hbranch, hspecial]
  by_cases h1 : Rv64i.opcode w = 0b0110011#7 ∨ Rv64i.opcode w = 0b0111011#7 ∨
      Rv64i.opcode w = 0b0010011#7 ∨ Rv64i.opcode w = 0b0011011#7 ∨ Rv64i.opcode w = 0b1100111#7
  · rw [if_pos h1]
    obtain ⟨operands, htext, hnum⟩ := handleIAndR_eq w
    refine ⟨operands, htext, hnum.trans ?_⟩
    rcases h1 with h | h | h | h | h <;> (simp only [printed, h]; rfl)
  rw [if_neg h1]
  by_cases h2 : Rv64i.opcode w = 0b0000011#7 ∨ Rv64i.opcode w = 0b0100011#7
  · rw [if_pos h2]
    obtain ⟨operands, htext, hnum⟩ := handleLAndS_eq w h2
    refine ⟨operands, htext, hnum.trans ?_⟩
    rcases h2 with h | h <;> (simp only [printed, h]; rfl)
  rw [if_neg h2]
  by_cases h3 : Rv64i.opcode w = 0b1100011#7
  · rw [if_pos h3]
    obtain ⟨operands, htext, hnum⟩ := handleBranch_eq w h3
    refine ⟨operands, htext, hnum.trans ?_⟩
    simp only [printed, h3]
    rfl
  rw [if_neg h3]
  by_cases h4 : Rv64i.opcode w = 0b1101111#7 ∨ Rv64i.opcode w = 0b0110111#7 ∨
      Rv64i.opcode w = 0b0010111#7
  · rw [if_pos h4]
    obtain ⟨operands, htext, hnum⟩ := handleSpecial_eq w h4
    refine ⟨operands, htext, hnum.trans ?_⟩
    rcases h4 with h | h | h <;> (simp only [printed, h]; rfl)
  · rw [if_neg h4]
    simp only [not_or] at h1 h2 h4
    obtain ⟨hint, hintW, himm, himmW, hjalr⟩ := h1
    have hname : printedName w = none := by
      rw [printedName, opBody_eq]
      · simp only [selected, Rv64i.selectOp, hint, hintW, himm, himmW, hjalr, h2.1, h2.2, h3, h4.1,
          h4.2.1, h4.2.2, if_false]
        rfl
      · rintro (⟨h, -⟩ | ⟨h, -⟩)
        · exact himmW h
        · exact himm h
    refine ⟨[], (congrArg (line · []) hname).symm, ?_⟩
    simp only [printed, himm, himmW, hjalr, h2.1, h2.2, h3, h4.1, h4.2.1, h4.2.2, or_false, if_false]
    rfl

end

end CycleSim
