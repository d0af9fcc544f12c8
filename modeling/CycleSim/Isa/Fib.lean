import CycleSim.Isa.Verified
import CycleSim.Pipeline.Progress
import Mathlib.Data.Nat.Fib.Basic

/-! The test program fib.s, verified.

It fills an array with the Fibonacci numbers: two by hand, the others in a loop that adds the last
two. `Rounds` is the invariant of the loop, for every size of the array that fits the memory. What
the simulators make of the program follows (`fib_correct`), and since the run is known instruction
by instruction, so does the cycle the pipeline stops in: ten cycles a round, one of them waiting
for a load, one for the counter, one lost to the branch. -/
namespace CycleSim

namespace Fib

open Rv64i (Instr State Code Confined exec FitAll)

/-! ### The program -/

@[simp] def t0 : BitVec 5 := 5#5
@[simp] def t1 : BitVec 5 := 6#5
@[simp] def t2 : BitVec 5 := 7#5
@[simp] def t3 : BitVec 5 := 28#5
@[simp] def t4 : BitVec 5 := 29#5
@[simp] def t5 : BitVec 5 := 30#5

/-- `_start`: the array is at address 60, its size at 108. -/
def setup : List Instr :=
  [.aluImm .add t0 0#5 60#64, .aluImm .add t5 0#5 108#64, .load .word false t5 t5 0#64,
    .aluImm .add t2 0#5 1#64, .store .word t2 t0 0#64, .store .word t2 t0 4#64,
    .aluImm .add t1 t5 (-2#64)]

/-- `loop`: `t0` points to the last two numbers, `t1` counts the rounds left. -/
def loop : List Instr :=
  [.load .word false t3 t0 0#64, .load .word false t4 t0 4#64, .alu .add t2 t3 t4,
    .store .word t2 t0 8#64, .aluImm .add t0 t0 4#64, .aluImm .add t1 t1 (-1#64),
    .branch .lt 0#5 t1 (-24#64)]

def program : List Instr := setup ++ loop

/-- The words of the program, and HALT behind them. -/
def words : List (BitVec 32) :=
  [0x03c00293#32, 0x06c00f13#32, 0x000f2f03#32, 0x00100393#32, 0x0072a023#32, 0x0072a223#32,
    0xffef0313#32, 0x0002ae03#32, 0x0042ae83#32, 0x01de03b3#32, 0x0072a423#32, 0x00428293#32,
    0xfff30313#32, 0xfe6044e3#32, 0xfeedfeed#32]

theorem words_program : words.map Instr.ofWord = program.map some ++ [none] := by decide

/-- The image holds the program, and a size that fits behind it. -/
structure Loaded (image : MemoryImage) (n : Nat) : Prop where
  words : ∀ i w, words[i]? = some w → (initialState image).wordAt (BitVec.ofNat 64 (4 * i)) = w
  size : (initialState image).wordAt 108#64 = BitVec.ofNat 32 n
  low : 3 ≤ n
  fits : 60 + 4 * n ≤ memorySize

/-! ### Its blocks -/

section
variable (s : State)

theorem t0_setup : (exec setup s).regs t0 = 60#64 := by
  simp [exec, setup, Rv64i.AluOp.eval, State.regs_zero]

theorem t1_setup : (exec setup s).regs t1 = (s.wordAt 108#64).signExtend 64 + -2#64 := by
  simp [exec, setup, Rv64i.AluOp.eval, State.regs_zero, State.loaded_word]

theorem pc_setup : (exec setup s).pc = s.pc + 28#64 := Rv64i.exec_pc rfl

theorem mem_setup : (exec setup s).mem =
    ((s.store 60#64 .word 1#64).store 64#64 .word 1#64).mem := by
  simp [exec, setup, Rv64i.AluOp.eval, State.regs_zero, State.store_mem]

theorem fit_setup : FitAll 60 memorySize setup s := by
  refine ⟨Instr.fits_of_access rfl, Instr.fits_of_access rfl, Instr.fits_load ?_,
    Instr.fits_of_access rfl, Instr.fits_store ?_ ?_, Instr.fits_store ?_ ?_,
    Instr.fits_of_access rfl, trivial⟩ <;>
    simp [Rv64i.AluOp.eval, State.regs_zero, Rv64i.Width.bytes, memorySize]

theorem t0_loop : (exec loop s).regs t0 = s.regs t0 + 4#64 := by
  simp [exec, loop, Rv64i.AluOp.eval]

theorem t1_loop : (exec loop s).regs t1 = s.regs t1 + -1#64 := by
  simp [exec, loop, Rv64i.AluOp.eval]

theorem pc_loop : (exec loop s).pc =
    if (0#64).slt (s.regs t1 + -1#64) then s.pc else s.pc + 28#64 := by
  simp [exec, loop, Rv64i.AluOp.eval, Rv64i.Cond.holds, State.regs_zero, BitVec.add_assoc]
  rfl

theorem mem_loop : (exec loop s).mem = (s.store (s.regs t0 + 8#64) .word
    ((s.wordAt (s.regs t0)).signExtend 64 + (s.wordAt (s.regs t0 + 4#64)).signExtend 64)).mem := by
  simp [exec, loop, Rv64i.AluOp.eval, State.loaded_word, State.store_mem]

theorem fit_loop (hlow : 60 ≤ (s.regs t0).toNat) (hhigh : (s.regs t0).toNat + 12 ≤ memorySize) :
    FitAll 60 memorySize loop s := by
  have hmem : memorySize = 65536 := rfl
  refine ⟨Instr.fits_load ?_, Instr.fits_load ?_, Instr.fits_of_access rfl,
    Instr.fits_store ?_ ?_, Instr.fits_of_access rfl, Instr.fits_of_access rfl,
    Instr.fits_of_access rfl, trivial⟩ <;>
    simp [Rv64i.Width.bytes] at * <;> omega

end

/-! ### Its arithmetic -/

/-- The address of `array[i]`. -/
def slot (i : Nat) : BitVec 64 := BitVec.ofNat 64 (60 + 4 * i)

theorem slot_toNat {i : Nat} (h : 60 + 4 * i ≤ memorySize) : (slot i).toNat = 60 + 4 * i := by
  have hmem : memorySize = 65536 := rfl
  rw [slot, BitVec.toNat_ofNat, Nat.mod_eq_of_lt (by omega)]

theorem slot_add (i c : Nat) : slot i + BitVec.ofNat 64 (4 * c) = slot (i + c) := by
  rw [slot, slot, ← BitVec.ofNat_add, Nat.mul_add, Nat.add_assoc]

theorem setWidth_signExtend (a : BitVec 32) : (a.signExtend 64).setWidth 32 = a := by
  ext i hi
  have hlt : i < 64 := by omega
  rw [BitVec.getElem_setWidth, BitVec.getLsbD_signExtend]
  simp [hi, hlt]

theorem signExtend_ofNat {m : Nat} (h : m < 2 ^ 31) :
    (BitVec.ofNat 32 m).signExtend 64 = BitVec.ofNat 64 m := by
  have hmsb : (BitVec.ofNat 32 m).msb = false := by
    rw [BitVec.msb_eq_decide, BitVec.toNat_ofNat, decide_eq_false_iff_not]
    omega
  rw [BitVec.signExtend_eq_setWidth_of_msb_false hmsb]
  bv_omega

theorem slt_ofNat {m : Nat} (h : m < 2 ^ 63) : (0#64).slt (BitVec.ofNat 64 m) = decide (0 < m) := by
  rw [BitVec.slt, BitVec.toInt_eq_toNat_cond, BitVec.toInt_eq_toNat_cond, BitVec.toNat_ofNat,
    BitVec.toNat_ofNat, Nat.mod_eq_of_lt (by omega), Nat.mod_eq_of_lt (by omega),
    if_pos (by omega), if_pos (by omega)]
  simp

/-! ### Its loop -/

/-- Before round `j` of `n - 2` the array holds its first `j + 2` numbers, and memory is otherwise
as it was. -/
structure Rounds (n : Nat) (s₀ : State) (j : Nat) (s : State) : Prop where
  code : Code program s
  pc : s.pc = if j < n - 2 then 28#64 else 56#64
  next : s.regs t0 = slot j
  left : s.regs t1 = BitVec.ofNat 64 (n - 2 - j)
  array : ∀ i < j + 2, s.wordAt (slot i) = BitVec.ofNat 32 (Nat.fib (i + 1))
  frame : ∀ a : BitVec 64, a.toNat < 60 ∨ 60 + 4 * (j + 2) ≤ a.toNat → s.mem a = s₀.mem a

section
variable {n : Nat} {s₀ s : State}

theorem Rounds.start (hcode : Code program s) (hpc : s.pc = 0#64)
    (hsize : s.wordAt 108#64 = BitVec.ofNat 32 n) (hlow : 3 ≤ n) (hn : 60 + 4 * n ≤ memorySize) :
    Hoare.Leads State.step (Confined 60 memorySize) (Rounds n s 0) 7 s := by
  have hmem : memorySize = 65536 := rfl
  refine hcode.block (i := 0) (by decide) (by decide) (by decide) hpc
    (List.prefix_append setup loop) rfl (fit_setup s) (fun hcode => ⟨hcode, ?_, ?_, ?_, ?_, ?_⟩)
  · rw [pc_setup, hpc, if_pos (by omega)]
    rfl
  · rw [t0_setup]
    rfl
  · rw [t1_setup, hsize, signExtend_ofNat (by omega)]
    bv_omega
  · intro i hi
    rw [State.wordAt_of_mem (mem_setup s)]
    match i, hi with
    | 0, _ =>
      rw [State.wordAt_store_apart _ (by decide) (by decide) (.inl (by decide))]
      exact State.wordAt_store _ _ _
    | 1, _ => exact State.wordAt_store _ _ _
  · intro a ha
    rw [mem_setup, State.store_mem, State.store_mem]
    refine (if_neg ?_).trans (if_neg ?_) <;> rw [Rv64i.Width.bytes] <;> bv_omega

theorem Rounds.fits {j : Nat} (h : Rounds n s₀ j s) (hj : j < n - 2)
    (hn : 60 + 4 * n ≤ memorySize) : FitAll 60 memorySize loop s := by
  have hat : (s.regs t0).toNat = 60 + 4 * j := by rw [h.next, slot_toNat (by omega)]
  exact fit_loop s (by omega) (by omega)

/-- One round. -/
theorem Rounds.step {j : Nat} (h : Rounds n s₀ j s) (hj : j < n - 2)
    (hn : 60 + 4 * n ≤ memorySize) :
    Hoare.Leads State.step (Confined 60 memorySize) (Rounds n s₀ (j + 1)) 7 s := by
  have hmem : memorySize = 65536 := rfl
  have hpc : s.pc = BitVec.ofNat 64 (4 * 7) := by rw [h.pc, if_pos hj]
  have hnext : s.regs t0 + 4#64 = slot (j + 1) := by
    rw [h.next]
    exact slot_add j 1
  have hlast : s.regs t0 + 8#64 = slot (j + 2) := by
    rw [h.next]
    exact slot_add j 2
  have hleft : s.regs t1 + -1#64 = BitVec.ofNat 64 (n - 2 - (j + 1)) := by
    rw [h.left]
    bv_omega
  have hstored := mem_loop s
  rw [hnext, hlast, h.next] at hstored
  have hend : (slot (j + 2)).toNat = 60 + 4 * (j + 2) := slot_toNat (by omega)
  refine h.code.block (by decide) (by decide) (by decide) hpc (List.prefix_refl loop) rfl
    (h.fits hj hn) (fun hcode => ⟨hcode, ?_, ?_, ?_, ?_, ?_⟩)
  · rw [pc_loop, hleft, hpc, slt_ofNat (by omega)]
    simp only [decide_eq_true_eq]
    exact if_congr (by omega) rfl rfl
  · rw [t0_loop, hnext]
  · rw [t1_loop, hleft]
  · intro i hi
    rw [State.wordAt_of_mem hstored]
    rcases Nat.eq_or_lt_of_le (Nat.lt_succ_iff.mp hi) with rfl | hlt
    · rw [State.wordAt_store, BitVec.setWidth_add _ _ (by decide), setWidth_signExtend,
        setWidth_signExtend, h.array j (by omega), h.array (j + 1) (by omega),
        ← BitVec.ofNat_add, ← Nat.fib_add_two]
    · have hi' : (slot i).toNat = 60 + 4 * i := slot_toNat (by omega)
      rw [State.wordAt_store_apart _ (by omega) (by rw [hend, Rv64i.Width.bytes]; omega)
        (.inl (by omega)), h.array i hlt]
  · intro a ha
    rw [hstored, State.store_mem]
    refine (if_neg ?_).trans (h.frame a (by omega))
    rw [Rv64i.Width.bytes]
    bv_omega

end

section
variable {image : MemoryImage} {n : Nat}

theorem Loaded.code (h : Loaded image n) : Code program (initialState image) := by
  intro i x hx
  have hlt : i < program.length := (List.getElem?_eq_some_iff.mp hx).1
  have hi : (Fib.words.map Instr.ofWord)[i]? = some (some x) := by
    rw [words_program, List.getElem?_append_left (by simpa using hlt), List.getElem?_map, hx]
    rfl
  rw [List.getElem?_map] at hi
  obtain ⟨w, hw, hxw⟩ := Option.map_eq_some_iff.mp hi
  rw [h.words i w hw, hxw]

theorem Loaded.rounds (h : Loaded image n) {j : Nat} (hj : j ≤ n - 2) :
    Hoare.Leads State.step (Confined 60 memorySize) (Rounds n (initialState image) j)
      (7 + 7 * j) (initialState image) :=
  (Rounds.start h.code rfl h.size h.low h.fits).trans
    (Hoare.Triple.loop (fun _ hi _ hs => hs.step (Nat.lt_of_lt_of_le hi hj) h.fits))

/-- The program comes to HALT. -/
theorem Loaded.halts (h : Loaded image n) :
    Hoare.Leads State.step (Confined 60 memorySize) (fun s => s.word = 0xfeedfeed#32 ∧
      s.pc.toNat + 4 ≤ 60 ∧ Rounds n (initialState image) (n - 2) s) (7 * (n - 1))
      (initialState image) := by
  have hlow := h.low
  have hsteps : 7 * (n - 1) = 7 + 7 * (n - 2) := by omega
  rw [hsteps]
  refine (h.rounds (Nat.le_refl _)).imp (fun s hs => ?_)
  have hpc : s.pc = 56#64 := by rw [hs.pc, if_neg (Nat.lt_irrefl _)]
  refine ⟨?_, by rw [hpc]; decide, hs⟩
  show s.wordAt s.pc = _
  rw [hpc, State.wordAt_congr (fun i hi => hs.frame _ (.inl (by bv_omega))), h.words 14 _ rfl]

/-! ### Its run -/

/-- The instruction executed in step `k`. -/
def index (n k : Nat) : Nat :=
  if k < 7 then k else if k < 7 * (n - 1) then 7 + k % 7 else 14

theorem index_lt (k : Nat) : index n k < 15 := by
  unfold index
  split
  · omega
  · split <;> omega

theorem index_setup {k : Nat} (hlow : 3 ≤ n) (hk : k ≤ 7) : index n k = k := by
  unfold index
  split
  · rfl
  · rw [if_pos (by omega)]
    omega

theorem index_loop {r m : Nat} (hr : r < n - 2) (hm : m < 7) :
    index n (7 + 7 * r + m) = 7 + m := by
  rw [index, if_neg (by omega), if_pos (by omega)]
  omega

theorem index_halt (hlow : 3 ≤ n) : index n (7 * (n - 1)) = 14 := by
  rw [index, if_neg (by omega), if_neg (Nat.lt_irrefl _)]

theorem Loaded.leads_index (h : Loaded image n) {k : Nat} (hk : k ≤ 7 * (n - 1)) :
    Hoare.Leads State.step (Confined 60 memorySize)
      (fun t => t.pc = BitVec.ofNat 64 (4 * index n k)) k (initialState image) := by
  have hlow := h.low
  rcases Nat.lt_or_ge k 7 with hlt | hge
  · rw [index_setup hlow (Nat.le_of_lt hlt)]
    refine (h.code.inside (i := 0) (by decide) (by decide) (by decide) rfl
      (List.prefix_append setup loop) rfl (fit_setup _) hlt).imp (fun t ht => ?_)
    rwa [Nat.zero_add] at ht
  · rcases Nat.eq_or_lt_of_le hk with rfl | hlt
    · rw [index_halt hlow]
      exact h.halts.imp (fun s hs => by rw [hs.2.2.pc, if_neg (Nat.lt_irrefl _)])
    · obtain ⟨j, m, hm, rfl⟩ : ∃ j m, m < 7 ∧ k = 7 + 7 * j + m :=
        ⟨(k - 7) / 7, k % 7, by omega, by omega⟩
      have hj : j < n - 2 := by omega
      rw [index_loop hj hm]
      refine (h.rounds (Nat.le_of_lt hj)).trans (fun s hs => ?_)
      have hpc : s.pc = BitVec.ofNat 64 (4 * 7) := by rw [hs.pc, if_pos hj]
      exact hs.code.inside (by decide) (by decide) (by decide) hpc (List.prefix_refl loop) rfl
        (hs.fits hj h.fits) hm

theorem Loaded.pc (h : Loaded image n) {k : Nat} (hk : k ≤ 7 * (n - 1)) :
    (Funct.stateAt image k).isaState.pc = BitVec.ofNat 64 (4 * index n k) :=
  (leads_state (h.leads_index hk)).2.1

/-- Word `p` of the program, decoded. -/
def inst (p : Nat) : Instruction :=
  simDecode (fetched (BitVec.ofNat 64 (4 * p)) (words.getD p 0#32))

theorem Loaded.executed (h : Loaded image n) {k : Nat} (hk : k ≤ 7 * (n - 1)) :
    (Funct.executed image k).toDecoding = (inst (index n k)).toDecoding := by
  have hpc := h.pc hk
  have hlt := @index_lt n k
  have hword : (Funct.stateAt image k).isaState.word = Fib.words.getD (index n k) 0#32 := by
    have hget : Fib.words[index n k]? = some (Fib.words.getD (index n k) 0#32) := by
      rw [List.getD_eq_getElem?_getD, List.getElem?_eq_getElem hlt]
      rfl
    rw [← h.words _ _ hget]
    show (Funct.stateAt image k).isaState.wordAt _ = _
    rw [hpc]
    exact State.wordAt_congr (fun i hi => (leads_state (h.leads_index hk)).2.2 _ (by bv_omega))
  rw [executed_word (by rw [hpc]; bv_omega), hpc, hword]
  rfl

/-! ### Its cycles -/

theorem Loaded.taken (h : Loaded image n) {k : Nat} (hk : k < 7 * (n - 1)) :
    taken image k = if index n (k + 1) = index n k + 1 then 0 else 1 := by
  have hlt := @index_lt n k
  have hlt' := @index_lt n (k + 1)
  have hpc : (Funct.executed image k).pc = BitVec.ofNat 64 (4 * index n k) := by
    rw [Funct.executed_pc]
    exact h.pc (Nat.le_of_lt hk)
  have hnext : (Funct.executed image k).nextPC = BitVec.ofNat 64 (4 * index n (k + 1)) := by
    rw [Funct.executed_nextPC]
    exact h.pc hk
  rw [CycleSim.taken, hpc, hnext]
  exact if_congr ⟨fun heq => by bv_omega, fun heq => by rw [heq]; bv_omega⟩ rfl rfl

theorem Loaded.waitAfter (h : Loaded image n) {j k : Nat} (hj : j ≤ 7 * (n - 1))
    (hk : k ≤ 7 * (n - 1)) :
    waitAfter image j k = (latency (inst (index n j)) (inst (index n k))).getD 0 := by
  have hj' := h.executed hj
  have hk' := h.executed hk
  unfold CycleSim.waitAfter latency
  rw [conflict_congr hj' hk', isControl_congr hk', hj']

/-- What instruction `q` costs behind instruction `p`. -/
def cost (p q : Nat) : Nat :=
  max (1 + if q = p + 1 then 0 else 1) ((latency (inst p) (inst q)).getD 0)

/-- The branch of the loop tests a sum, no load. -/
theorem latency_inst : ∀ p < 15, ∀ q < 15, (latency (inst p) (inst q)).getD 0 ≤ 2 := by decide

theorem Loaded.entry_succ (h : Loaded image n) {k : Nat} (hk : k < 7 * (n - 1)) :
    entry image (k + 1) = entry image k + cost (index n k) (index n (k + 1)) := by
  rw [entry_succ_eq, gap_eq, h.taken hk, h.waitAfter (Nat.le_of_lt hk) hk, cost]
  intro j hj
  rw [h.waitAfter (by omega) hk]
  exact latency_inst _ (index_lt j) _ (index_lt (k + 1))

/-- A straight-line part of the run. -/
theorem Loaded.entry_add (h : Loaded image n) {k m p : Nat} (hm : k + m ≤ 7 * (n - 1))
    (hp : ∀ i ≤ m, index n (k + i) = p + i) : entry image (k + m) =
      entry image k + ∑ i ∈ Finset.range m, cost (p + i) (p + i + 1) := by
  induction m with
  | zero => rfl
  | succ m ih =>
    rw [← Nat.add_assoc, h.entry_succ (by omega), ih (by omega) (fun i hi => hp i (by omega)),
      hp m (by omega), Nat.add_assoc k, hp (m + 1) (Nat.le_refl _), Finset.sum_range_succ,
      Nat.add_assoc]
    rfl

theorem Loaded.entry_body (h : Loaded image n) {r : Nat} (hr : r < n - 2) :
    entry image (7 + 7 * r + 6) = entry image (7 + 7 * r) + 8 :=
  h.entry_add (p := 7) (by omega) (fun _ hi => index_loop hr (Nat.lt_succ_of_le hi))

/-- Every round takes ten cycles. -/
theorem Loaded.entry_round (h : Loaded image n) {r : Nat} (hr : r < n - 2) :
    entry image (7 + 7 * r) = 9 + 10 * r := by
  induction r with
  | zero =>
    have hsetup := h.entry_add (k := 0) (m := 7) (p := 0) (by omega)
      (fun i hi => by rw [Nat.zero_add]; exact index_setup h.low hi)
    exact hsetup
  | succ r ih =>
    have hr' : r < n - 2 := Nat.lt_of_succ_lt hr
    have hback := h.entry_succ (k := 7 + 7 * r + 6) (by omega)
    have hnext : index n (7 + 7 * r + 6 + 1) = 7 := index_loop hr (by decide : 0 < 7)
    have hcost : cost (7 + 6) 7 = 2 := by decide
    rw [hnext, index_loop hr' (by decide), h.entry_body hr', ih hr', hcost] at hback
    rw [Nat.mul_succ, Nat.mul_succ]
    exact hback

theorem Loaded.entry_halt (h : Loaded image n) : entry image (7 * (n - 1)) + 3 = 10 * n - 9 := by
  have hlow := h.low
  have hlast : n - 3 < n - 2 := by omega
  have hback := h.entry_succ (k := 7 + 7 * (n - 3) + 6) (by omega)
  have hend : 7 + 7 * (n - 3) + 6 + 1 = 7 * (n - 1) := by omega
  have hcost : cost (7 + 6) 14 = 1 := by decide
  rw [index_loop hlast (by decide), h.entry_body hlast, h.entry_round hlast, hend,
    index_halt hlow, hcost] at hback
  omega

end

end Fib

/-- **fib.s.** Both simulators fill the array with Fibonacci numbers, modulo 2^32, and change
nothing else. The pipeline takes `10 * n - 9` cycles. -/
theorem fib_correct (image : MemoryImage) (n : Nat) (h : Fib.Loaded image n) : ∃ s : Rv64i.State,
    (∀ i < n, s.wordAt (Fib.slot i) = BitVec.ofNat 32 (Nat.fib (i + 1))) ∧
    (∀ a : BitVec 64, a.toNat < 60 ∨ 60 + 4 * n ≤ a.toNat →
      s.mem a = (initialState image).mem a) ∧
    (∃ fuel f, Funct.runInstructions fuel 0#64 (Funct.initSimulator image.store) =
      some (.halt, f) ∧ archState f.arch s.pc = s) ∧
    ∃ fuel dump m, runCycles fuel 0#64 (initSimulator image.store) = some (.halt, dump, m) ∧
      archState m.simulator.arch s.pc = s ∧ m.cycleCount = BitVec.ofNat 64 (10 * n - 9) := by
  have hlow := h.low
  obtain ⟨hreach, hh, hself, hQ⟩ := verified_run h.halts
  have hfinal := arch_succ_of_halt hh
  have hsize : n - 2 + 2 = n := by omega
  refine ⟨_, fun i hi => hQ.array i (by omega), fun a ha => hQ.frame a (by rwa [hsize]), ?_, ?_⟩
  · obtain ⟨fuel, hfunct⟩ := Funct.runInstructions_halt_iff.mpr ⟨_, hreach, hh, rfl⟩
    exact ⟨fuel, _, hfunct, by rw [hfinal]; rfl⟩
  · obtain ⟨hbefore, hwb⟩ := halt_passes_wb hself hreach hh
    obtain ⟨fuel, dump, hrun⟩ := runCycles_zero (fun i hi => hbefore i (Nat.lt_succ_of_le hi)) hwb
    refine ⟨fuel, dump, _, hrun, ?_, by rw [cycleCount_eq, h.entry_halt]⟩
    rw [final_state hself hreach hh hbefore hwb, hfinal]
    rfl

/-- fib.s for twelve numbers, as it stands in the repository. -/
def fibImage : MemoryImage where
  bytes := Fib.words.flatMap (fun w => Bytes.digits 4 w.toNat) ++ List.replicate 48 0#8 ++
    Bytes.digits 4 12 ++ List.replicate 0xFF90 0#8
  length_eq := by
    rw [List.length_append, List.length_append, List.length_append, List.length_replicate,
      List.length_replicate]
    rfl

theorem fibImage_loaded : Fib.Loaded fibImage 12 where
  words := by
    have hwords : ∀ i < 15, (initialState fibImage).wordAt (BitVec.ofNat 64 (4 * i)) =
        Fib.words.getD i 0#32 := by decide
    intro i w hw
    have hi : i < 15 := (List.getElem?_eq_some_iff.mp hw).1
    rw [hwords i hi, List.getD_eq_getElem?_getD, hw]
    rfl
  size := by decide
  low := by decide
  fits := by decide

theorem fib_correct_sample : ∃ fuel dump m,
    runCycles fuel 0#64 (initSimulator fibImage.store) = some (.halt, dump, m) ∧
      m.cycleCount = 111#64 := by
  obtain ⟨_, _, _, _, fuel, dump, m, hrun, _, hcount⟩ := fib_correct fibImage 12 fibImage_loaded
  exact ⟨fuel, dump, m, hrun, hcount⟩

end CycleSim
