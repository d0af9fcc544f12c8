import CycleSim.Dump.Readback

/-! What the trace tells.

A line of `dumpPipeState` is cut at its bars: no instruction prints one. The first cell gives
the address in IF and its status back, and the other cells stand as they are, so two traces are
the same text exactly when they show the same cycles (`trace_eq_iff`). -/
namespace CycleSim

open Text

/-! ### Cells -/

/-- Neither the end of a cell nor that of a line occurs. -/
def Plain (text : String) : Prop := ∀ c ∈ text.toList, c ≠ '|' ∧ c ≠ '\n'

instance (text : String) : Decidable (Plain text) :=
  decidable_of_iff (text.toList.all (fun c => c != '|' && c != '\n') = true) (by simp [Plain])

theorem Plain.append {a b : String} (ha : Plain a) (hb : Plain b) : Plain (a ++ b) := by
  rw [Plain, String.toList_append, List.forall_mem_append]
  exact ⟨ha, hb⟩

theorem plain_join {texts : List String} (h : ∀ text ∈ texts, Plain text) :
    Plain (String.join texts) := by
  intro c hc
  have hfree : ∀ d, d = '|' ∨ d = '\n' → d ∉ (String.join texts).toList := by
    rintro d hd
    refine not_mem_join (fun text htext hmem => ?_)
    obtain ⟨h1, h2⟩ := h text htext d hmem
    exact hd.elim h1 h2
  exact ⟨fun he => hfree c (.inl he) hc, fun he => hfree c (.inr he) hc⟩

theorem plain_toString (n : Nat) : Plain (toString n) := by
  intro c hc
  constructor
  · rintro rfl
    exact not_mem_toString (by decide) n hc
  · rintro rfl
    exact not_mem_toString (by decide) n hc

theorem plain_num (value : Int) : Plain (Piece.num value).render := by
  show Plain (toString value)
  cases value with
  | ofNat n => exact plain_toString n
  | negSucc n => exact Plain.append (a := "-") (by decide) (plain_toString (n + 1))

theorem plain_regName (i : BitVec 64) : Plain (regName i).render := by
  have hall : ∀ name ∈ regNames, Plain name := by decide
  show Plain (regNames[i.toNat]?.getD "")
  cases hget : regNames[i.toNat]? with
  | none => decide
  | some name => exact hall name (List.mem_of_getElem? hget)

theorem plain_status (status : StageStatus) : Plain (stageStatusStr status) := by
  cases status <;> decide

theorem toList_leftSetw (width : Nat) (text : String) : (leftSetw width text).toList =
    text.toList ++ List.replicate (width - text.length) ' ' := by
  rw [leftSetw]
  induction width - text.length with
  | zero => simp [String.pushn_eq_repeat_push, Nat.repeat]
  | succ n ih =>
    rw [String.pushn_eq_repeat_push] at ih ⊢
    simp only [Nat.repeat, String.toList_push, ih, List.replicate_succ', List.append_assoc]

theorem Plain.leftSetw {text : String} (h : Plain text) (width : Nat) :
    Plain (leftSetw width text) := by
  rw [Plain, toList_leftSetw, List.forall_mem_append]
  refine ⟨h, fun c hc => ?_⟩
  rw [List.eq_of_mem_replicate hc]
  decide

/-! ### Instructions -/

/-- The names of `getOpString`. -/
def PlainName (name : Option String) : Prop := ∀ text ∈ name, Plain text

theorem PlainName.map {name : Option String} (h : PlainName name) {f : String → String}
    (hf : ∀ text, Plain text → Plain (f text)) : PlainName (name.map f) := by
  intro text htext
  obtain ⟨body, hbody, rfl⟩ := Option.mem_map.mp htext
  exact hf body (h body hbody)

section
variable (opcode funct3 funct7 : BitVec 64)

/-- Every `case` assigns a word. -/
theorem body_plain : PlainName (intBody opcode funct3 funct7) ∧ PlainName (intWBody funct3 funct7) ∧
    PlainName (loadBody funct3) ∧ PlainName (storeBody funct3) ∧ PlainName (branchBody funct3) := by
  refine ⟨?_, ?_, ?_, ?_, ?_⟩
  all_goals
    first
    | unfold intBody
    | unfold intWBody
    | unfold loadBody
    | unfold storeBody
    | unfold branchBody
    repeat' refine iteInduction (motive := PlainName) (fun _ => ?_) (fun _ => ?_)
    all_goals
      unfold PlainName
      decide

theorem opBody_plain : PlainName (opBody opcode funct3 funct7) := by
  obtain ⟨hint, hintW, hload, hstore, hbranch⟩ := body_plain opcode funct3 funct7
  unfold opBody
  refine iteInduction (motive := PlainName) (fun _ => ?_) (fun _ => ?_)
  · exact hint.map (fun _ h => h.append (by decide))
  refine iteInduction (motive := PlainName) (fun _ => hint) (fun _ => ?_)
  refine iteInduction (motive := PlainName) (fun _ => ?_) (fun _ => ?_)
  · exact hintW.map (fun _ h => h.append (by decide))
  refine iteInduction (motive := PlainName) (fun _ => ?_) (fun _ => ?_)
  · exact hintW.map (fun _ h => h.append (by decide))
  refine iteInduction (motive := PlainName) (fun _ => ?_) (fun _ => ?_)
  · exact hload.map (fun _ h => Plain.append (a := "l") (by decide) h)
  refine iteInduction (motive := PlainName) (fun _ => ?_) (fun _ => ?_)
  · exact hstore.map (fun _ h => Plain.append (a := "s") (by decide) h)
  refine iteInduction (motive := PlainName) (fun _ => ?_) (fun _ => ?_)
  · exact hbranch.map (fun _ h => Plain.append (a := "b") (by decide) h)
  repeat' refine iteInduction (motive := PlainName) (fun _ => ?_) (fun _ => ?_)
  all_goals
    unfold PlainName
    decide

theorem getOpString_plain : Plain (Piece.str (getOpString opcode funct3 funct7)).render := by
  show Plain ((opBody opcode funct3 funct7).getD "ILLEGAL")
  cases hbody : opBody opcode funct3 funct7 with
  | none => decide
  | some name => exact opBody_plain opcode funct3 funct7 name hbody

end

/-- The insertions of an instruction. -/
def PlainPieces (pieces : List Piece) : Prop := ∀ piece ∈ pieces, Plain piece.render

theorem plain_constant : ∀ text ∈ [" ", ", ", "(", ")", " ILLEGAL", " HALT", " NOP"],
    Plain (Piece.str text).render := by decide

section
variable (word : BitVec 64)

theorem handleIAndR_plain : PlainPieces (handleIAndR word) := by
  have hname := getOpString_plain (extractBits word 6 0) (extractBits word 14 12)
    (extractBits word 31 25)
  have himm : ∀ {c : Prop} [Decidable c] (x y : BitVec 64),
      Plain (if c then Piece.uint64 x else Piece.int64 y).render := by
    intro c _ x y
    split
    · exact plain_num _
    · exact plain_num _
  refine iteInduction (motive := PlainPieces) (fun _ => ?_) (fun _ => ?_)
  · simp [PlainPieces, plain_constant]
  refine iteInduction (motive := PlainPieces) (fun _ => ?_) (fun _ => ?_)
  · simp [PlainPieces, plain_constant, plain_regName, hname]
  · simp [PlainPieces, plain_constant, plain_regName, hname, himm]

theorem handleLAndS_plain : PlainPieces (handleLAndS word) := by
  have hname := getOpString_plain (extractBits word 6 0) (extractBits word 14 12) 0#64
  have himm : ∀ x : BitVec 64, Plain (Piece.int64 x).render := fun x => plain_num _
  refine iteInduction (motive := PlainPieces) (fun _ => ?_) (fun _ => ?_)
  · simp [PlainPieces, plain_constant]
  refine iteInduction (motive := PlainPieces) (fun _ => ?_) (fun _ => ?_)
  · simp [PlainPieces, plain_constant, plain_regName, hname, himm]
  · simp [PlainPieces, plain_constant, plain_regName, hname, himm]

theorem handleBranch_plain : PlainPieces (handleBranch word) := by
  have hname := getOpString_plain (extractBits word 6 0) (extractBits word 14 12) 0#64
  have himm : ∀ x : BitVec 64, Plain (Piece.int64 x).render := fun x => plain_num _
  refine iteInduction (motive := PlainPieces) (fun _ => ?_) (fun _ => ?_)
  · simp [PlainPieces, plain_constant]
  · simp [PlainPieces, plain_constant, plain_regName, hname, himm]

theorem handleSpecial_plain : PlainPieces (handleSpecial word) := by
  have hname := getOpString_plain (extractBits word 6 0) 0#64 0#64
  have himm : ∀ x : BitVec 64, Plain (Piece.int64 x).render := fun x => plain_num _
  refine iteInduction (motive := PlainPieces) (fun _ => ?_) (fun _ => ?_)
  · simp [PlainPieces, plain_constant]
  refine iteInduction (motive := PlainPieces) (fun _ => ?_) (fun _ => ?_)
  · simp [PlainPieces, plain_constant, plain_regName, hname, himm]
  · simp [PlainPieces, plain_constant, plain_regName, hname, himm]

end

theorem instrText_plain (curInst : BitVec 32) : PlainPieces (instrText curInst) := by
  refine iteInduction (motive := PlainPieces) (fun _ => ?_) (fun _ => ?_)
  · simp [PlainPieces, plain_constant]
  refine iteInduction (motive := PlainPieces) (fun _ => ?_) (fun _ => ?_)
  · simp [PlainPieces, plain_constant]
  refine iteInduction (motive := PlainPieces) (fun _ => handleIAndR_plain _) (fun _ => ?_)
  refine iteInduction (motive := PlainPieces) (fun _ => handleLAndS_plain _) (fun _ => ?_)
  refine iteInduction (motive := PlainPieces) (fun _ => handleBranch_plain _) (fun _ => ?_)
  refine iteInduction (motive := PlainPieces) (fun _ => handleSpecial_plain _) (fun _ => ?_)
  simp [PlainPieces, plain_constant]

theorem printInstr_plain (curInst : BitVec 32) (status : StageStatus) :
    Plain (printInstr curInst status) := by
  refine Plain.leftSetw (plain_join ?_) 25
  rw [List.forall_mem_map, List.forall_mem_append, List.forall_mem_singleton]
  exact ⟨instrText_plain curInst, plain_status status⟩

/-! ### The address in IF -/

theorem printIFPC_plain (pc : BitVec 64) (status : StageStatus) : Plain (printIFPC pc status) := by
  refine Plain.leftSetw (.append (.append (by decide) ?_) (plain_status status)) 25
  intro c hc
  rw [String.toList_ofList] at hc
  have hdigit := List.all_eq_true.mp (digits_hex pc.toNat).1 c hc
  constructor
  · rintro rfl
    exact absurd hdigit (by decide)
  · rintro rfl
    exact absurd hdigit (by decide)

/-- The letters of a status tell it. -/
theorem status_inj {status status' : StageStatus}
    (h : (stageStatusStr status).toList.filter (fun c => c != ' ') =
      (stageStatusStr status').toList.filter (fun c => c != ' ')) : status = status' := by
  revert h
  cases status <;> cases status' <;> decide

/-- The cell of IF tells the address and the status. -/
theorem printIFPC_inj {pc pc' : BitVec 64} {status status' : StageStatus} :
    printIFPC pc status = printIFPC pc' status' ↔ pc = pc' ∧ status = status' := by
  refine ⟨fun h => ?_, fun ⟨hpc, hstatus⟩ => by rw [hpc, hstatus]⟩
  have hspace : ∀ n, ' ' ∉ Nat.toDigits 16 n := by
    intro n hmem
    exact absurd (List.all_eq_true.mp (digits_hex n).1 ' ' hmem) (by decide)
  have hhead : ∀ s : StageStatus, (stageStatusStr s).toList = ' ' :: (stageStatusStr s).toList.tail := by
    intro s
    cases s <;> decide
  have hlist := congrArg String.toList h
  simp only [printIFPC, toList_leftSetw, String.toList_append, String.toList_ofList,
    List.append_assoc] at hlist
  have hcell := List.append_cancel_left hlist
  rw [hhead status, hhead status', List.cons_append, List.cons_append] at hcell
  obtain ⟨hdigits, hrest⟩ := split_inj (hspace _) (hspace _) hcell
  constructor
  · have hvalue := congrArg Hex.value hdigits
    rw [(digits_hex _).2, (digits_hex _).2] at hvalue
    exact BitVec.eq_of_toNat_eq hvalue
  · refine status_inj ?_
    have hletters := congrArg (List.filter (fun c => c != ' ')) hrest
    rw [List.filter_append, List.filter_append, List.filter_replicate_of_neg (by decide),
      List.filter_replicate_of_neg (by decide), List.append_nil, List.append_nil] at hletters
    rw [hhead status, hhead status', List.filter_cons_of_neg (by decide),
      List.filter_cons_of_neg (by decide)]
    exact hletters

/-! ### Lines -/

/-- What the cells of a line show. -/
structure Shown where
  ifPC : BitVec 64
  ifStatus : StageStatus
  id : String
  ex : String
  mem : String
  wb : String

def PipeState.shown (state : PipeState) : Shown where
  ifPC := state.ifPC
  ifStatus := state.ifStatus
  id := printInstr (state.idInstr.setWidth 32) state.idStatus
  ex := printInstr (state.exInstr.setWidth 32) state.exStatus
  mem := printInstr (state.memInstr.setWidth 32) state.memStatus
  wb := printInstr (state.wbInstr.setWidth 32) state.wbStatus

theorem pipeCells_plain (state : PipeState) : ∀ cell ∈ pipeCells state, Plain cell := by
  simp [pipeCells, printIFPC_plain, printInstr_plain]

theorem pipeCells_inj {state state' : PipeState} :
    pipeCells state = pipeCells state' ↔ state.shown = state'.shown := by
  simp only [pipeCells, PipeState.shown, List.cons.injEq, printIFPC_inj, Shown.mk.injEq, and_true,
    and_assoc]

/-- A number set to the right is told by its digits. -/
theorem rightSetw_inj {width m n : Nat} :
    rightSetw width (toString m) = rightSetw width (toString n) ↔ m = n := by
  refine ⟨fun h => ?_, fun h => by rw [h]⟩
  have hdigits : ∀ k : Nat, ((toString k).toList.leftpad width ' ').filter (fun c => c != ' ') =
      (toString k).toList := by
    intro k
    rw [List.leftpad, List.filter_append, List.filter_replicate_of_neg (by decide),
      List.nil_append, List.filter_eq_self]
    intro c hc
    refine bne_iff_ne.mpr ?_
    rintro rfl
    exact not_mem_toString (by decide) k hc
  have hlist := congrArg (fun text => (String.toList text).filter (fun c => c != ' ')) h
  simp only [rightSetw, String.toList_ofList, hdigits] at hlist
  exact toString_inj.mp (String.toList_inj.mp hlist)

/-- A line, less its end. -/
def lineField (state : PipeState) : String :=
  "Cycle: " ++ (rightSetw 8 (toString state.cycle.toNat) ++
    ("\t|" ++ ("|" ++ terminate '|' (pipeCells state))))

theorem not_mem_rightSetw {c : Char} (hdigit : c.isDigit = false) (hspace : c ≠ ' ')
    (width n : Nat) : c ∉ (rightSetw width (toString n)).toList := by
  rw [rightSetw, String.toList_ofList, List.leftpad, List.mem_append, not_or]
  exact ⟨fun h => hspace (List.eq_of_mem_replicate h), not_mem_toString hdigit n⟩

theorem not_mem_lineField (state : PipeState) : '\n' ∉ (lineField state).toList := by
  simp only [lineField, terminate, String.toList_append, List.mem_append, not_or]
  refine ⟨by decide, not_mem_rightSetw (by decide) (by decide) 8 _, by decide, by decide,
    not_mem_join ?_⟩
  rw [Free, List.forall_mem_map]
  intro cell hcell
  rw [String.toList_append, List.mem_append, not_or]
  exact ⟨fun h => (pipeCells_plain state cell hcell _ h).2 rfl, by decide⟩

theorem lineField_inj {state state' : PipeState} : lineField state = lineField state' ↔
    state.cycle = state'.cycle ∧ state.shown = state'.shown := by
  have hbars : ∀ s : PipeState, Free '|' (pipeCells s) :=
    fun s cell hcell h => (pipeCells_plain s cell hcell _ h).1 rfl
  have htab : ∀ s : PipeState, '\t' ∉ (rightSetw 8 (toString s.cycle.toNat)).toList :=
    fun s => not_mem_rightSetw (by decide) (by decide) 8 _
  constructor
  · intro h
    rw [lineField, lineField, String.append_right_inj] at h
    obtain ⟨hcycle, hrest⟩ := @append_inj '\t' _ _ ("|" ++ ("|" ++ terminate '|' (pipeCells state)))
      ("|" ++ ("|" ++ terminate '|' (pipeCells state'))) (htab state) (htab state') h
    rw [String.append_right_inj, String.append_right_inj,
      terminate_inj (hbars state) (hbars state'), pipeCells_inj] at hrest
    exact ⟨BitVec.eq_of_toNat_eq (rightSetw_inj.mp hcycle), hrest⟩
  · rintro ⟨hcycle, hshown⟩
    rw [lineField, lineField, hcycle, pipeCells_inj.mpr hshown]

/-- **What the trace tells.** Two traces are the same text exactly when they have as many lines,
of the same cycles, with the same address and status in IF and the same four texts. -/
theorem trace_eq_iff (dumps dumps' : List PipeState) :
    String.join (dumps.map dumpPipeState) = String.join (dumps'.map dumpPipeState) ↔
      dumps.map (fun state => (state.cycle, state.shown)) =
        dumps'.map (fun state => (state.cycle, state.shown)) := by
  have hlines : ∀ states : List PipeState, String.join (states.map dumpPipeState) =
      terminate '\n' (states.map lineField) := by
    intro states
    rw [terminate, List.map_map]
    refine congrArg String.join (List.map_congr_left (fun state _ => ?_))
    simp only [dumpPipeState, lineField, Function.comp_apply, String.append_assoc]
    rfl
  have hfree : ∀ states : List PipeState, Free '\n' (states.map lineField) := by
    intro states
    rw [Free, List.forall_mem_map]
    exact fun state _ => not_mem_lineField state
  rw [hlines, hlines, terminate_inj (hfree dumps) (hfree dumps')]
  -- line by line
  induction dumps generalizing dumps' with
  | nil => cases dumps' <;> simp
  | cons state dumps ih =>
    cases dumps' with
    | nil => simp
    | cons state' dumps' =>
      simp only [List.map_cons, List.cons.injEq, lineField_inj, Prod.mk.injEq, ih]

end CycleSim
