import CycleSim.Lib.Rv64i
import CycleSim.Lib.Hoare

/-! Programs in the assembly language.

An `Instr` is an operation with its registers and its immediate, `Instr.ofWord` the instruction
of a word. A program is a list of them, its words in memory from address 0 on (`Code`). Its
straight-line blocks are executed at once (`Code.block`), provided that every access stays
inside the memory and no store reaches the program (`Confined`). -/
namespace Rv64i

/-! ### Instructions -/

inductive Instr
  | alu (f : AluOp) (rd rs1 rs2 : BitVec 5)
  | aluWord (f : WordOp) (rd rs1 rs2 : BitVec 5)
  | aluImm (f : AluOp) (rd rs1 : BitVec 5) (imm : BitVec 64)
  | aluImmWord (f : WordOp) (rd rs1 : BitVec 5) (imm : BitVec 64)
  | load (width : Width) (unsigned : Bool) (rd rs1 : BitVec 5) (imm : BitVec 64)
  | store (width : Width) (rs2 rs1 : BitVec 5) (imm : BitVec 64)
  | branch (c : Cond) (rs1 rs2 : BitVec 5) (imm : BitVec 64)
  | jalr (rd rs1 : BitVec 5) (imm : BitVec 64)
  | auipc (rd : BitVec 5) (imm : BitVec 64)
  | lui (rd : BitVec 5) (imm : BitVec 64)
  | jal (rd : BitVec 5) (imm : BitVec 64)
  deriving DecidableEq, Repr

/-- The operation with the fields of the word it looks at. -/
def Op.instr (op : Op) (w : BitVec 32) : Instr :=
  match op with
  | .alu f => .alu f (rd w) (rs1 w) (rs2 w)
  | .aluWord f => .aluWord f (rd w) (rs1 w) (rs2 w)
  | .aluImm f => .aluImm f (rd w) (rs1 w) (immI w)
  | .aluImmWord f => .aluImmWord f (rd w) (rs1 w) (immI w)
  | .load width unsigned => .load width unsigned (rd w) (rs1 w) (immI w)
  | .store width => .store width (rs2 w) (rs1 w) (immS w)
  | .branch c => .branch c (rs1 w) (rs2 w) (immB w)
  | .jalr => .jalr (rd w) (rs1 w) (immI w)
  | .auipc => .auipc (rd w) (immU w)
  | .lui => .lui (rd w) (immU w)
  | .jal => .jal (rd w) (immJ w)

/-- The instruction a valid word encodes. -/
def Instr.ofWord (w : BitVec 32) : Option Instr := (decode w).map (·.instr w)

namespace Instr

def execute (x : Instr) (s : State) : State :=
  let next := s.setPC (s.pc + 4#64)
  match x with
  | .alu f rd rs1 rs2 => next.setReg rd (f.eval (s.regs rs1) (s.regs rs2))
  | .aluWord f rd rs1 rs2 => next.setReg rd (f.evalWord (s.regs rs1) (s.regs rs2))
  | .aluImm f rd rs1 imm => next.setReg rd (f.eval (s.regs rs1) imm)
  | .aluImmWord f rd rs1 imm => next.setReg rd (f.evalWord (s.regs rs1) imm)
  | .load width unsigned rd rs1 imm =>
    next.setReg rd (s.loaded (s.regs rs1 + imm) width unsigned)
  | .store width rs2 rs1 imm => next.store (s.regs rs1 + imm) width (s.regs rs2)
  | .branch c rs1 rs2 imm =>
    if c.holds (s.regs rs1) (s.regs rs2) then s.setPC (s.pc + imm) else next
  | .jalr rd rs1 imm => (s.setPC ((s.regs rs1 + imm) &&& ~~~1#64)).setReg rd (s.pc + 4#64)
  | .auipc rd imm => next.setReg rd (s.pc + imm)
  | .lui rd imm => next.setReg rd imm
  | .jal rd imm => (s.setPC (s.pc + imm)).setReg rd (s.pc + 4#64)

/-- The data a load or a store accesses. -/
def access (x : Instr) (s : State) : Option (BitVec 64 × Width) :=
  match x with
  | .load width _ _ rs1 imm => some (s.regs rs1 + imm, width)
  | .store width _ rs1 imm => some (s.regs rs1 + imm, width)
  | _ => none

@[reducible] def isStore : Instr → Bool
  | .store .. => true
  | _ => false

/-- The next instruction is the one behind it. -/
@[reducible] def isSequential : Instr → Bool
  | .branch .. | .jalr .. | .jal .. => false
  | _ => true

end Instr

theorem Op.execute_instr (op : Op) (w : BitVec 32) (s : State) :
    (op.instr w).execute s = op.execute w s := by
  cases op <;> rfl

theorem Op.access_instr (op : Op) (w : BitVec 32) (s : State) :
    (op.instr w).access s = op.access w s := by
  cases op <;> rfl

theorem Instr.ofWord_eq_some {w : BitVec 32} {x : Instr} :
    Instr.ofWord w = some x ↔ ∃ op, decode w = some op ∧ op.instr w = x := Option.map_eq_some_iff

/-! ### States -/

namespace State

section
variable (s : State)

@[simp] theorem setPC_mem (pc : BitVec 64) : (s.setPC pc).mem = s.mem := rfl

theorem store_mem (a : BitVec 64) (width : Width) (v : BitVec 64) :
    (s.store a width v).mem = fun b =>
      if (b - a).toNat < width.bytes then v.extractLsb' (8 * (b - a).toNat) 8 else s.mem b := by
  rw [store]

end

/-- The word in four bytes of memory. -/
def wordAt (s : State) (a : BitVec 64) : BitVec 32 := BitVec.ofNat 32 (Bytes.value (s.bytes a 4))

theorem loaded_word (s : State) (a : BitVec 64) :
    s.loaded a .word false = (s.wordAt a).signExtend 64 := by
  simp only [loaded, wordAt, Width.bytes, Nat.reduceMul, Bool.false_eq_true, if_false]

theorem wordAt_congr {s t : State} {a : BitVec 64}
    (h : ∀ i < 4, s.mem (a + BitVec.ofNat 64 i) = t.mem (a + BitVec.ofNat 64 i)) :
    s.wordAt a = t.wordAt a := by
  unfold wordAt bytes
  rw [List.map_congr_left (fun i hi => h i (List.mem_range.mp hi))]

theorem wordAt_of_mem {s t : State} (h : s.mem = t.mem) (a : BitVec 64) :
    s.wordAt a = t.wordAt a := wordAt_congr (fun i _ => by rw [h])

/-- A word read where it was stored. -/
theorem wordAt_store (s : State) (a v : BitVec 64) :
    (s.store a .word v).wordAt a = v.setWidth 32 := by
  have hbytes : (s.store a .word v).bytes a 4 = Bytes.digits 4 v.toNat := by
    apply List.ext_getElem?
    intro i
    by_cases hi : i < 4
    · have hsub : a + BitVec.ofNat 64 i - a = BitVec.ofNat 64 i := by bv_omega
      have hnat : (BitVec.ofNat 64 i).toNat = i := by
        rw [BitVec.toNat_ofNat, Nat.mod_eq_of_lt (by omega)]
      rw [Bytes.getElem?_digits hi, bytes, List.getElem?_map, List.getElem?_range hi]
      simp only [Option.map_some, store, hsub, hnat]
      rw [if_pos (show i < Width.bytes .word from hi)]
      refine congrArg some (BitVec.eq_of_toNat_eq ?_)
      rw [BitVec.extractLsb'_toNat, BitVec.toNat_ofNat, Nat.shiftRight_eq_div_pow, Nat.pow_mul]
    · rw [List.getElem?_eq_none (by simpa [bytes] using hi),
        List.getElem?_eq_none (by simpa using hi)]
  apply BitVec.eq_of_toNat_eq
  rw [wordAt, hbytes, Bytes.value_digits, BitVec.toNat_ofNat, BitVec.toNat_setWidth]
  omega

/-- A word read away from where one was stored. -/
theorem wordAt_store_apart (s : State) {a b v : BitVec 64} {width : Width}
    (hb : b.toNat + 4 ≤ 2 ^ 64) (ha : a.toNat + width.bytes ≤ 2 ^ 64)
    (h : b.toNat + 4 ≤ a.toNat ∨ a.toNat + width.bytes ≤ b.toNat) :
    (s.store a width v).wordAt b = s.wordAt b := by
  refine wordAt_congr (fun i hi => ?_)
  have hnot : ¬(b + BitVec.ofNat 64 i - a).toNat < width.bytes := by bv_omega
  simp only [store, if_neg hnot]

end State

/-! ### What an instruction changes -/

namespace Instr

section
variable (s : State)

@[simp] theorem regs_alu (f : AluOp) (rd rs1 rs2 i : BitVec 5) :
    ((alu f rd rs1 rs2).execute s).regs i =
      if i = rd ∧ rd ≠ 0#5 then f.eval (s.regs rs1) (s.regs rs2) else s.regs i := rfl

@[simp] theorem regs_aluImm (f : AluOp) (rd rs1 i : BitVec 5) (imm : BitVec 64) :
    ((aluImm f rd rs1 imm).execute s).regs i =
      if i = rd ∧ rd ≠ 0#5 then f.eval (s.regs rs1) imm else s.regs i := rfl

@[simp] theorem regs_load (width : Width) (unsigned : Bool) (rd rs1 i : BitVec 5)
    (imm : BitVec 64) : ((load width unsigned rd rs1 imm).execute s).regs i =
      if i = rd ∧ rd ≠ 0#5 then s.loaded (s.regs rs1 + imm) width unsigned else s.regs i := rfl

@[simp] theorem regs_store (width : Width) (rs2 rs1 i : BitVec 5) (imm : BitVec 64) :
    ((store width rs2 rs1 imm).execute s).regs i = s.regs i := rfl

@[simp] theorem regs_branch (c : Cond) (rs1 rs2 i : BitVec 5) (imm : BitVec 64) :
    ((branch c rs1 rs2 imm).execute s).regs i = s.regs i := by
  simp only [execute]
  split <;> rfl

@[simp] theorem pc_branch (c : Cond) (rs1 rs2 : BitVec 5) (imm : BitVec 64) :
    ((branch c rs1 rs2 imm).execute s).pc =
      if c.holds (s.regs rs1) (s.regs rs2) then s.pc + imm else s.pc + 4#64 := by
  simp only [execute]
  split <;> rfl

@[simp] theorem pc_execute {x : Instr} (h : x.isSequential = true) :
    (x.execute s).pc = s.pc + 4#64 := by
  cases x <;> first | rfl | cases h

@[simp] theorem mem_execute {x : Instr} (h : x.isStore = false) : (x.execute s).mem = s.mem := by
  cases x with
  | store width rs2 rs1 imm => cases h
  | branch c rs1 rs2 imm =>
    simp only [execute]
    split <;> rfl
  | _ => rfl

@[simp] theorem wordAt_execute {x : Instr} (h : x.isStore = false) (a : BitVec 64) :
    (x.execute s).wordAt a = s.wordAt a := State.wordAt_of_mem (mem_execute s h) a

@[simp] theorem mem_store (width : Width) (rs2 rs1 : BitVec 5) (imm : BitVec 64) :
    ((store width rs2 rs1 imm).execute s).mem =
      (s.store (s.regs rs1 + imm) width (s.regs rs2)).mem := by
  simp only [execute, State.store_mem, State.setPC_mem]

end

end Instr

/-! ### Code -/

/-- The program, from address 0 on. -/
def Code (p : List Instr) (s : State) : Prop :=
  ∀ i x, p[i]? = some x → Instr.ofWord (s.wordAt (BitVec.ofNat 64 (4 * i))) = some x

/-- The access of an instruction ends below `limit`, and a store leaves what lies below `code`
alone. -/
def Instr.Fits (code limit : Nat) (x : Instr) (s : State) : Prop :=
  ∀ a width, x.access s = some (a, width) →
    a.toNat + width.bytes ≤ limit ∧ (x.isStore = true → code ≤ a.toNat)

section
variable {code limit : Nat} {s : State}

theorem Instr.fits_of_access {x : Instr} (h : x.access s = none) : x.Fits code limit s :=
  fun _ _ hx => nomatch h.symm.trans hx

theorem Instr.fits_load {width : Width} {unsigned : Bool} {rd rs1 : BitVec 5} {imm : BitVec 64}
    (h : (s.regs rs1 + imm).toNat + width.bytes ≤ limit) :
    (load width unsigned rd rs1 imm).Fits code limit s := by
  rintro _ _ ⟨⟩
  exact ⟨h, nofun⟩

theorem Instr.fits_store {width : Width} {rs2 rs1 : BitVec 5} {imm : BitVec 64}
    (h : (s.regs rs1 + imm).toNat + width.bytes ≤ limit) (hcode : code ≤ (s.regs rs1 + imm).toNat) :
    (store width rs2 rs1 imm).Fits code limit s := by
  rintro _ _ ⟨⟩
  exact ⟨h, fun _ => hcode⟩

end

/-- The next instruction lies below address `code`, and its access is confined. -/
structure Confined (code limit : Nat) (s : State) : Prop where
  pc : s.pc.toNat + 4 ≤ code
  access : ∀ x, Instr.ofWord s.word = some x → x.Fits code limit s

theorem Instr.ofWord_of_decode {w : BitVec 32} {op : Op} (h : decode w = some op) :
    Instr.ofWord w = some (op.instr w) := by rw [ofWord, h, Option.map_some]

theorem Confined.accessesBelow {code limit : Nat} {s : State} (h : Confined code limit s) :
    s.AccessesBelow limit := by
  rintro ⟨a, width⟩ hx
  obtain ⟨op, hop, hacc⟩ := Option.bind_eq_some_iff.mp hx
  exact (h.access _ (Instr.ofWord_of_decode hop) a width (by rw [Op.access_instr, hacc])).1

/-- A confined step leaves the program alone. -/
theorem Confined.mem_step {code limit : Nat} (hlimit : limit ≤ 2 ^ 64) {s t : State}
    (h : Confined code limit s) (hstep : s.step = some t) {a : BitVec 64} (ha : a.toNat < code) :
    t.mem a = s.mem a := by
  obtain ⟨op, hop, rfl⟩ := State.step_eq_some hstep
  rw [← Op.execute_instr]
  cases hst : (op.instr s.word).isStore
  · rw [Instr.mem_execute s hst]
  · cases op with
    | store width =>
      obtain ⟨hend, hstart⟩ := h.access _ (Instr.ofWord_of_decode hop) _ _ rfl
      have habove := hstart rfl
      show ((Instr.store width _ _ _).execute s).mem a = s.mem a
      rw [Instr.mem_store, State.store_mem]
      exact if_neg (by bv_omega)
    | _ => cases hst

/-- A straight-line block, executed. -/
def exec : List Instr → State → State
  | [], s => s
  | x :: xs, s => exec xs (x.execute s)

/-- Every access of a block is confined. -/
def FitAll (code limit : Nat) : List Instr → State → Prop
  | [], _ => True
  | x :: xs, s => x.Fits code limit s ∧ FitAll code limit xs (x.execute s)

theorem exec_pc {xs : List Instr} {s : State} (h : xs.all (·.isSequential) = true) :
    (exec xs s).pc = s.pc + BitVec.ofNat 64 (4 * xs.length) := by
  induction xs generalizing s with
  | nil => exact (BitVec.add_zero s.pc).symm
  | cons x xs ih =>
    rw [List.all_cons, Bool.and_eq_true] at h
    rw [exec, ih h.2, Instr.pc_execute s h.1, BitVec.add_assoc, List.length_cons, Nat.mul_succ,
      Nat.add_comm, BitVec.ofNat_add]

theorem FitAll.take {code limit : Nat} {xs : List Instr} {s : State} (h : FitAll code limit xs s)
    (m : Nat) : FitAll code limit (xs.take m) s := by
  induction xs generalizing s m with
  | nil => rwa [List.take_nil]
  | cons x xs ih =>
    cases m with
    | zero => trivial
    | succ m => exact ⟨h.1, ih h.2 m⟩

section
variable {p : List Instr} {code limit : Nat} (hcode : 4 * p.length ≤ code) (hle : code ≤ limit)
  (hlimit : limit ≤ 2 ^ 64) {s : State}
include hcode hle hlimit

/-- The program stays where it is. -/
theorem Code.execute (h : Code p s) {x : Instr} (hx : x.Fits code limit s) :
    Code p (x.execute s) := by
  intro i y hy
  rw [← h i y hy]
  refine congrArg Instr.ofWord ?_
  cases hst : x.isStore
  · exact Instr.wordAt_execute s hst _
  · cases x with
    | store width rs2 rs1 imm =>
      obtain ⟨hend, hstart⟩ := hx _ _ rfl
      have habove := hstart rfl
      have hi : i < p.length := (List.getElem?_eq_some_iff.mp hy).1
      have hat : (BitVec.ofNat 64 (4 * i)).toNat = 4 * i := by
        rw [BitVec.toNat_ofNat, Nat.mod_eq_of_lt (by omega)]
      exact State.wordAt_store_apart _ (by omega) (by omega) (.inl (by omega))
    | _ => cases hst

variable {Q : State → Prop} {k : Nat}

/-- One instruction of a program. -/
theorem Code.step (h : Code p s) {i : Nat} (hpc : s.pc = BitVec.ofNat 64 (4 * i)) {x : Instr}
    (hi : p[i]? = some x) (hx : x.Fits code limit s) (hnext : Code p (x.execute s) →
      Hoare.Leads State.step (Confined code limit) Q k (x.execute s)) :
    Hoare.Leads State.step (Confined code limit) Q (k + 1) s := by
  have hword : Instr.ofWord s.word = some x := by
    rw [show s.word = s.wordAt s.pc from rfl, hpc]
    exact h i x hi
  have hlen : i < p.length := (List.getElem?_eq_some_iff.mp hi).1
  have hat : s.pc.toNat = 4 * i := by
    rw [hpc, BitVec.toNat_ofNat, Nat.mod_eq_of_lt (by omega)]
  obtain ⟨op, hop, rfl⟩ := Instr.ofWord_eq_some.mp hword
  refine .next ⟨by omega, fun y hy => ?_⟩ ?_ (hnext (h.execute hcode hle hlimit hx))
  · obtain rfl := Option.some.inj (hword.symm.trans hy)
    exact hx
  · rw [State.step, hop, Option.map_some, Op.execute_instr]

/-- **A block of a program.** Only its last instruction may jump. -/
theorem Code.block (h : Code p s) {i : Nat} (hpc : s.pc = BitVec.ofNat 64 (4 * i))
    {xs : List Instr} (hxs : xs <+: p.drop i) (hseq : xs.dropLast.all (·.isSequential) = true)
    (hfit : FitAll code limit xs s) (hQ : Code p (exec xs s) → Q (exec xs s)) :
    Hoare.Leads State.step (Confined code limit) Q xs.length s := by
  induction xs generalizing s i with
  | nil => exact .done (hQ h)
  | cons x xs ih =>
    obtain ⟨rest, hrest⟩ := hxs
    have hi : p[i]? = some x := by
      rw [← Nat.add_zero i, ← List.getElem?_drop, ← hrest]
      rfl
    refine h.step hcode hle hlimit hpc hi hfit.1 (fun h' => ?_)
    cases xs with
    | nil => exact .done (hQ h')
    | cons y ys =>
      rw [List.dropLast_cons_cons, List.all_cons, Bool.and_eq_true] at hseq
      refine ih h' (i := i + 1) ?_ ⟨rest, ?_⟩ hseq.2 hfit.2 hQ
      · rw [Instr.pc_execute _ hseq.1, hpc, Nat.mul_add, BitVec.ofNat_add]
      · rw [← List.tail_drop, ← hrest]
        rfl

/-- Inside a block the program counter goes up. -/
theorem Code.inside (h : Code p s) {i : Nat} (hpc : s.pc = BitVec.ofNat 64 (4 * i))
    {xs : List Instr} (hxs : xs <+: p.drop i) (hseq : xs.dropLast.all (·.isSequential) = true)
    (hfit : FitAll code limit xs s) {m : Nat} (hm : m < xs.length) :
    Hoare.Leads State.step (Confined code limit) (fun t => t.pc = BitVec.ofNat 64 (4 * (i + m)))
      m s := by
  have hall : (xs.take m).all (·.isSequential) = true := by
    rw [List.all_eq_true] at hseq ⊢
    intro x hx
    refine hseq x ?_
    rw [List.dropLast_eq_take]
    exact List.take_subset_take_left xs (by omega) hx
  have hlen : (xs.take m).length = m := List.length_take_of_le (Nat.le_of_lt hm)
  have hrun := h.block hcode hle hlimit hpc ((List.take_prefix m xs).trans hxs)
    (Q := fun t => t.pc = BitVec.ofNat 64 (4 * (i + m)))
    (List.all_eq_true.mpr fun x hx => List.all_eq_true.mp hall x (List.mem_of_mem_dropLast hx))
    (hfit.take m) (fun _ => by
      rw [exec_pc hall, hlen, hpc, Nat.mul_add, BitVec.ofNat_add])
  rwa [hlen] at hrun

end

end Rv64i
