import CycleSim.Isa.InstrText

/-! The mnemonic against the executor.

An accepted word performs one operation of the reference (`Accepted.performs`). The dump names
it but for `addiw` with some immediates and `sltiu` (`namesOperation_iff`). -/
namespace CycleSim

open Rv64i (Op)

/-- Executing the word `w` is executing the operation `op`. -/
structure Performs (w : BitVec 32) (op : Op) : Prop where
  selected : Rv64i.select w = some op
  executed : ∀ (s : Simulator) (pc : BitVec 64),
    s.memory.memArr.length ≤ MemoryStore.maxEntries → wordAt pc s.memory = w →
    InMemory s.memory (op.access w (archState s.arch pc)) →
      archState (s.simInstruction pc).2.arch (s.simInstruction pc).1.nextPC =
        op.execute w (archState s.arch pc)

theorem Accepted.performs {w : BitVec 32} (h : Accepted w) (hhalt : w ≠ 0xfeedfeed#32) :
    ∃ op, Performs w op := by
  obtain ⟨op, hsel, hck⟩ := h
  refine ⟨op, hsel, fun s pc hlen hw hin => ?_⟩
  subst hw
  have hlegal : (simDecode (simFetch pc s.memory)).isLegal = true :=
    (simDecode_isLegal rfl).mpr (.inr ⟨op, hsel, hck⟩)
  obtain ⟨op', hsel', hconforms⟩ := decodeAt_conforms s pc hlen hlegal hhalt
  obtain rfl := Option.some.inj (hsel'.symm.trans hsel)
  exact hconforms.simInstruction hin

/-! ### The name printed -/

theorem line_eq_illegal {body : Option String} {operands : List Piece} :
    line body operands = [.str " ILLEGAL"] ↔ body = none := by
  cases body with
  | none => exact iff_of_true rfl rfl
  | some mnemonic =>
    constructor
    · intro h
      exact absurd (congrArg List.length h) (by simp [line])
    · exact nofun

theorem line_second (body : Option String) (operands : List Piece) :
    (line body operands)[1]? = body.map Piece.str := by
  cases body <;> rfl

/-- The dump names the operation that is executed, or says that there is none. HALT and NOP
have texts of their own. -/
structure NamesOperation (w : BitVec 32) : Prop where
  illegal : instrText w = [.str " ILLEGAL"] ↔
    (simDecode { instruction := w.setWidth 64 }).isLegal = false
  mnemonic : (simDecode { instruction := w.setWidth 64 }).isLegal = true →
    w ≠ 0xfeedfeed#32 → w ≠ 0x00000013#32 →
      ∃ op, Performs w op ∧ (instrText w)[1]? = some (.str op.mnemonic)

/-- The words `getOpString` and `simDecode` read differently. -/
def MisnamedWord (w : BitVec 32) : Prop :=
  Misnamed (Rv64i.opcode w) (Rv64i.funct3 w) (Rv64i.funct7 w)

theorem namesOperation_special {w : BitVec 32} (h : w = 0xfeedfeed#32 ∨ w = 0x00000013#32) :
    NamesOperation w := by
  rcases h with rfl | rfl
  · exact ⟨by decide, fun _ hhalt => absurd rfl hhalt⟩
  · exact ⟨by decide, fun _ _ hnop => absurd rfl hnop⟩

theorem namesOperation_of_named {w : BitVec 32} (h : ¬MisnamedWord w) : NamesOperation w := by
  by_cases hhalt : w = 0xfeedfeed#32
  · exact namesOperation_special (.inl hhalt)
  by_cases hnop : w = 0x00000013#32
  · exact namesOperation_special (.inr hnop)
  obtain ⟨operands, htext, -⟩ := instrText_eq w hhalt hnop
  have hname : printedName w =
      (selected (Rv64i.opcode w) (Rv64i.funct3 w) (Rv64i.funct7 w)).map Op.mnemonic :=
    opBody_eq _ _ _ h
  have hlegal : (simDecode { instruction := w.setWidth 64 }).isLegal = true ↔ Accepted w := by
    rw [simDecode_isLegal rfl, or_iff_right hhalt]
  constructor
  · rw [htext, line_eq_illegal, hname, Option.map_eq_none_iff, ← Bool.not_eq_true, hlegal,
      accepted_iff_selected, Bool.not_eq_true, Option.isSome_eq_false_iff, Option.isNone_iff_eq_none]
  · intro hl _ _
    obtain ⟨op, hop⟩ := (hlegal.mp hl).performs hhalt
    obtain ⟨op', hsel, hck⟩ := hlegal.mp hl
    obtain rfl := Option.some.inj (hsel.symm.trans hop.selected)
    refine ⟨op', hop, ?_⟩
    rw [htext, line_second, hname, selected_eq_some.mpr ⟨hsel, hck⟩]
    rfl

theorem not_namesOperation {w : BitVec 32} (h : MisnamedWord w) : ¬NamesOperation w := by
  obtain ⟨op, hsel, hne, -⟩ := opBody_misnamed _ _ _ h
  have hspecial : w ≠ 0xfeedfeed#32 ∧ w ≠ 0x00000013#32 := by
    constructor <;> (rintro rfl; revert h; unfold MisnamedWord Misnamed; decide)
  intro hnames
  have hacc : Accepted w := ⟨op, selected_eq_some.mp hsel⟩
  obtain ⟨op', hop, hmnemonic⟩ :=
    hnames.mnemonic ((simDecode_isLegal rfl).mpr (.inr hacc)) hspecial.1 hspecial.2
  obtain rfl : op' = op := Option.some.inj (hop.selected.symm.trans (selected_eq_some.mp hsel).1)
  obtain ⟨operands, htext, -⟩ := instrText_eq w hspecial.1 hspecial.2
  rw [htext, line_second] at hmnemonic
  obtain ⟨body, hbody, hstr⟩ := Option.map_eq_some_iff.mp hmnemonic
  obtain rfl := Piece.str.inj hstr
  exact hne hbody

/-- **The mnemonic.** The dump names the executed operation for all words but `addiw` with an
immediate outside the low five bits, and `sltiu`. -/
theorem namesOperation_iff (w : BitVec 32) : NamesOperation w ↔ ¬MisnamedWord w :=
  ⟨fun h hm => not_namesOperation hm h, namesOperation_of_named⟩

/-- `addiw ra, zero, -1` is executed, and printed as illegal. -/
theorem addiw_printed_illegal : ¬∀ w, NamesOperation w := by
  intro hall
  have htext : instrText 0xfff0009b#32 = [.str " ILLEGAL"] := by decide
  have hlegal : (simDecode { instruction := (0xfff0009b#32).setWidth 64 }).isLegal = true := by
    decide
  rw [(hall 0xfff0009b#32).illegal.mp htext] at hlegal
  cases hlegal

end CycleSim
