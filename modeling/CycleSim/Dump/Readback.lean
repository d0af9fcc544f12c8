import CycleSim.Dump
import CycleSim.Memory.Listing

/-! What the dumps tell.

Every number stands on a line or between spaces of its own, so equal files come from equal
states: equal registers, but for register 0, equal words in the printed range and equal
counters (`finalize_eq_iff`). -/
namespace CycleSim

open Text
open MemoryStore (hexSetw InRows entries entryText rowText maxEntries)

theorem hexSetw_inj {n width : Nat} {x y : BitVec n} :
    hexSetw width x.toNat = hexSetw width y.toNat ↔ x = y := by
  refine ⟨fun h => ?_, fun h => by rw [h]⟩
  have hlist := congrArg String.toList h
  rw [hexSetw, hexSetw, String.toList_ofList, String.toList_ofList] at hlist
  exact leftpad_inj hlist

theorem not_mem_hexSetw {c : Char} (hc : Hex.isDigit c = false) (width value : Nat) :
    c ∉ (hexSetw width value).toList := by
  intro h
  rw [hexSetw, String.toList_ofList] at h
  rw [isDigit_of_mem_leftpad h] at hc
  cases hc

theorem not_mem_toString {c : Char} (hc : c.isDigit = false) (value : Nat) :
    c ∉ (toString value).toList := by
  intro h
  rw [isDigit_of_mem_toString h] at hc
  cases hc

/-! ### Registers -/

section
variable {reg reg' : Regs}

theorem registerLine_inj (i : Nat) :
    registerLine reg (some i) = registerLine reg' (some i) ↔
      reg.get (BitVec.ofNat 64 i) = reg'.get (BitVec.ofNat 64 i) := by
  rw [registerLine, registerLine, String.append_right_inj, String.append_right_inj]
  exact hexSetw_inj

theorem registerLine_lines : ∀ line ∈ registerOrder, '\n' ∉ (registerLine reg line).toList := by
  have hnames : ∀ line ∈ registerOrder, ∀ i, line = some i →
      '\n' ∉ (regNames[i]?.getD "").toList := by
    decide
  intro line hline
  cases line with
  | none => exact List.not_mem_nil
  | some i =>
    have hdigits := not_mem_hexSetw (show Hex.isDigit '\n' = false by decide) 8
      (reg.get (BitVec.ofNat 64 i)).toNat
    simp only [registerLine, String.toList_append, List.mem_append, not_or]
    exact ⟨⟨by decide, hnames _ hline i rfl⟩, by decide, hdigits⟩

/-- The dump tells the registers, but for register 0. -/
theorem dumpRegisterState_inj : dumpRegisterState reg = dumpRegisterState reg' ↔
    ∀ i, 0 < i → i < 32 → reg.get (BitVec.ofNat 64 i) = reg'.get (BitVec.ofNat 64 i) := by
  have horder : ∀ i, some i ∈ registerOrder ↔ 0 < i ∧ i < 32 := by
    intro i
    constructor
    · intro h
      have hall : ∀ line ∈ registerOrder, ∀ i, line = some i → 0 < i ∧ i < 32 := by decide
      exact hall _ h i rfl
    · rintro ⟨h0, h32⟩
      revert h0
      revert i
      decide
  have hlines : ∀ r : Regs, Free '\n' ([rule, "Begin Register Values", rule] ++
      registerOrder.map (registerLine r) ++ [rule, "End Register Values", rule]) := by
    intro r
    refine List.forall_mem_append.mpr ⟨List.forall_mem_append.mpr ⟨by decide, ?_⟩, by decide⟩
    rw [List.forall_mem_map]
    exact registerLine_lines
  constructor
  · intro h i h0 h32
    have hlist := (terminate_inj (hlines reg) (hlines reg')).mp h
    rw [List.append_left_inj, List.append_right_inj, List.map_inj_left] at hlist
    exact (registerLine_inj i).mp (hlist _ ((horder i).mpr ⟨h0, h32⟩))
  · intro h
    have hall : ∀ line ∈ registerOrder, registerLine reg line = registerLine reg' line := by
      intro line hline
      cases line with
      | none => rfl
      | some i =>
        obtain ⟨h0, h32⟩ := (horder i).mp hline
        exact (registerLine_inj i).mpr (h i h0 h32)
    rw [dumpRegisterState, dumpRegisterState, List.map_congr_left hall]

end

/-! ### Memory -/

section
variable {mem mem' : MemoryStore} {size : Nat}

/-- A printed entry tells its bytes. -/
theorem entryBytes_inj {address : BitVec 64} :
    String.join ((mem.slice address size).map (fun byte => hexSetw 2 byte.toNat)) =
        String.join ((mem'.slice address size).map (fun byte => hexSetw 2 byte.toNat)) ↔
      mem.slice address size = mem'.slice address size := by
  refine ⟨fun h => ?_, fun h => by rw [h]⟩
  have hwidth : ∀ byte : BitVec 8, (hexSetw 2 byte.toNat).length = 2 := by decide
  have hall : ∀ m : MemoryStore, ∀ text ∈ (m.slice address size).map
      (fun byte => hexSetw 2 byte.toNat), text.length = 2 := by
    intro m
    rw [List.forall_mem_map]
    exact fun byte _ => hwidth byte
  exact List.map_injective_iff.mpr (fun x y hxy => hexSetw_inj.mp hxy)
    (join_inj (by decide) (hall mem) (hall mem') h)

/-- An entry, less the space behind it. -/
def entryField (mem : MemoryStore) (size : Nat) (address : BitVec 64) : String :=
  "0x" ++ String.join ((mem.slice address size).map (fun byte => hexSetw 2 byte.toNat))

/-- A row, less its end. -/
def rowField (mem : MemoryStore) (size : Nat) (row : List (BitVec 64)) : String :=
  "0x" ++ (hexSetw 8 (row.headD 0#64).toNat ++
    (": " ++ terminate ' ' (row.map (entryField mem size))))

theorem rowText_eq (row : List (BitVec 64)) :
    rowText mem size row = rowField mem size row ++ "\n" := by
  have hentries : row.map (entryText mem size) =
      (row.map (entryField mem size)).map (fun field => field ++ " ") := by
    rw [List.map_map]
    exact List.map_congr_left (fun address _ => (String.append_assoc ..).symm)
  simp only [rowText, rowField, hentries, terminate, String.append_assoc]
  rfl

theorem not_mem_entryField {c : Char} (hc : Hex.isDigit c = false) (hx : c ≠ 'x')
    (address : BitVec 64) : c ∉ (entryField mem size address).toList := by
  rw [entryField, String.toList_append, List.mem_append, not_or]
  constructor
  · rintro h
    rcases List.mem_cons.mp h with rfl | h
    · exact absurd hc (by decide)
    · exact hx (List.mem_singleton.mp h)
  · refine not_mem_join ?_
    rw [Free, List.forall_mem_map]
    exact fun byte _ => not_mem_hexSetw hc 2 byte.toNat

theorem not_mem_rowField (row : List (BitVec 64)) : '\n' ∉ (rowField mem size row).toList := by
  have hnl : Hex.isDigit '\n' = false := by decide
  simp only [rowField, terminate, String.toList_append, List.mem_append, not_or]
  refine ⟨by decide, not_mem_hexSetw hnl 8 _, by decide, not_mem_join ?_⟩
  rw [Free, List.map_map, List.forall_mem_map]
  intro address _
  rw [Function.comp_apply, String.toList_append, List.mem_append, not_or]
  exact ⟨not_mem_entryField hnl (by decide) address, by decide⟩

/-- A printed row tells the bytes of its entries. -/
theorem rowField_inj (row : List (BitVec 64)) : rowField mem size row = rowField mem' size row ↔
    ∀ address ∈ row, mem.slice address size = mem'.slice address size := by
  have hspace : ∀ m : MemoryStore, Free ' ' (row.map (entryField m size)) := by
    intro m
    rw [Free, List.forall_mem_map]
    exact fun address _ => not_mem_entryField (by decide) (by decide) address
  rw [rowField, rowField, String.append_right_inj, String.append_right_inj,
    String.append_right_inj, terminate_inj (hspace mem) (hspace mem'), List.map_inj_left]
  refine forall₂_congr (fun address _ => ?_)
  rw [entryField, entryField, String.append_right_inj]
  exact entryBytes_inj

/-- Printed rows tell the bytes of their entries. -/
theorem rows_inj (rows : List (List (BitVec 64))) :
    String.join (rows.map (rowText mem size)) = String.join (rows.map (rowText mem' size)) ↔
      ∀ address ∈ rows.flatten, mem.slice address size = mem'.slice address size := by
  have hrows : ∀ m : MemoryStore, String.join (rows.map (rowText m size)) =
      terminate '\n' (rows.map (rowField m size)) := by
    intro m
    rw [terminate, List.map_map]
    exact congrArg String.join (List.map_congr_left (fun row _ => rowText_eq row))
  have hnl : ∀ m : MemoryStore, Free '\n' (rows.map (rowField m size)) := by
    intro m
    rw [Free, List.forall_mem_map]
    exact fun row _ => not_mem_rowField row
  rw [hrows, hrows, terminate_inj (hnl mem) (hnl mem'), List.map_inj_left]
  simp only [rowField_inj, List.mem_flatten]
  constructor
  · intro h address haddress
    obtain ⟨row, hrow, hmem⟩ := haddress
    exact h row hrow address hmem
  · intro h row hrow address hmem
    exact h address ⟨row, hrow, hmem⟩

end

/-- The words that are printed. -/
def printedWords (memRange : Option String) : List (BitVec 64) :=
  entries (printRange memRange).1 (printRange memRange).2 4

/-- The range to print lies in the store. -/
structure RangeInside (memRange : Option String) (mem : MemoryStore) : Prop where
  length_le : mem.memArr.length ≤ maxEntries
  start_le : mem.startAddr ≤ (printRange memRange).1
  ordered : (printRange memRange).1 ≤ (printRange memRange).2
  inside : ∀ a ∈ printedWords memRange, mem.InBounds a .wordSize

/-- The words of the range, in rows of five. -/
theorem RangeInside.dumps {memRange : Option String} {mem : MemoryStore}
    (h : RangeInside memRange mem) : ∃ rows, InRows (printedWords memRange) 5 rows ∧
      ∀ text, DumpMemoryState memRange mem text ↔
        text = unlines [rule, "Begin Memory State", rule] ++
          String.join (rows.map (rowText mem 4)) ++ unlines [rule, "End Memory State", rule] := by
  have hahead := MemoryStore.ahead_entries .wordSize h.start_le h.ordered
  obtain ⟨rows, hrows, hyields⟩ := MemoryStore.printMemArray_inside h.length_le
    (show 1 ≤ (5#64).toNat by decide) _ hahead h.inside
    (unlines [rule, "Begin Memory State", rule])
  have hrun : ∀ fuel, mem.printMemArray fuel (printRange memRange).1 (printRange memRange).2 4#64
      5#64 (unlines [rule, "Begin Memory State", rule]) = Loop.run _ fuel _ :=
    fun fuel => if_pos (by decide)
  refine ⟨rows, hrows, fun text => ⟨?_, ?_⟩⟩
  · rintro ⟨fuel, ret, out, hprint, rfl⟩
    have hunique := Loop.Yields.unique ⟨fuel, (hrun fuel).symm.trans hprint⟩ hyields
    rw [(Prod.mk.inj hunique).2]
    rfl
  · rintro rfl
    obtain ⟨fuel, hfuel⟩ := hyields
    exact ⟨fuel, 0, _, (hrun fuel).trans hfuel, rfl⟩

/-- The dump tells the words of the printed range. -/
theorem DumpMemoryState.eq_iff {memRange : Option String} {mem mem' : MemoryStore}
    {text text' : String} (hin : RangeInside memRange mem) (hin' : RangeInside memRange mem')
    (h : DumpMemoryState memRange mem text) (h' : DumpMemoryState memRange mem' text') :
    text = text' ↔ ∀ a ∈ printedWords memRange, mem.slice a 4 = mem'.slice a 4 := by
  obtain ⟨rows, hrows, htext⟩ := hin.dumps
  obtain ⟨rows', hrows', htext'⟩ := hin'.dumps
  obtain rfl := hrows.unique hrows'
  rw [(htext text).mp h, (htext' text').mp h', String.append_left_inj, String.append_right_inj,
    rows_inj, hrows.flatten_eq]

/-! ### Counters -/

theorem SimulationStats.cells_inj {stats stats' : SimulationStats}
    (h : stats.cells = stats'.cells) : stats = stats' := by
  cases stats
  cases stats'
  simpa [cells] using h

theorem dumpSimStats_inj {stats stats' : SimulationStats} :
    dumpSimStats stats = dumpSimStats stats' ↔ stats = stats' := by
  refine ⟨fun h => SimulationStats.cells_inj ?_, fun h => by rw [h]⟩
  have hlabels : ∀ s : SimulationStats, ∀ label ∈ s.cells.map Prod.fst,
      '\n' ∉ (leftSetw 23 label).toList := by
    intro s
    show ∀ label ∈ ["Dynamic instructions: ", "Total cycles: ", "I-cache hits: ",
      "I-cache misses: ", "D-cache hits: ", "D-cache misses: ", "Load-use stalls: "], _
    decide
  have hlines : ∀ s : SimulationStats,
      Free '\n' (s.cells.map (fun cell => leftSetw 23 cell.1 ++ toString cell.2.toNat)) := by
    intro s
    rw [Free, List.forall_mem_map]
    intro cell hcell
    rw [String.toList_append, List.mem_append, not_or]
    exact ⟨hlabels s _ (List.mem_map_of_mem hcell), not_mem_toString (by decide) _⟩
  have hlist := (terminate_inj (hlines stats) (hlines stats')).mp h
  simpa only [SimulationStats.cells, List.map_cons, List.map_nil, List.cons.injEq, Prod.mk.injEq,
    String.append_right_inj, toString_inj, BitVec.toNat_inj, true_and, and_true] using hlist

/-! ### The files -/

/-- A simulator whose memory contains the range leaves its files. -/
theorem RangeInside.finalizes {memRange : Option String} {s : Simulator}
    (h : RangeInside memRange s.memory) (stats : SimulationStats) :
    ∃ out, Finalize memRange s stats out := by
  obtain ⟨rows, _, htext⟩ := h.dumps
  exact ⟨⟨dumpRegisterState s.regData, _, dumpSimStats stats⟩, rfl, (htext _).mpr rfl, rfl⟩

/-- **What the files tell.** Two simulators that leave the same files have the same registers,
but for register 0, the same words in the printed range and the same counters, and the other
way round, file by file. -/
theorem finalize_eq_iff {memRange : Option String} {s s' : Simulator}
    {stats stats' : SimulationStats} {out out' : Output} (hin : RangeInside memRange s.memory)
    (hin' : RangeInside memRange s'.memory) (h : Finalize memRange s stats out)
    (h' : Finalize memRange s' stats' out') :
    (out.regState = out'.regState ↔ ∀ i, 0 < i → i < 32 →
      s.regData.get (BitVec.ofNat 64 i) = s'.regData.get (BitVec.ofNat 64 i)) ∧
    (out.memState = out'.memState ↔
      ∀ a ∈ printedWords memRange, s.memory.slice a 4 = s'.memory.slice a 4) ∧
    (out.simStats = out'.simStats ↔ stats = stats') := by
  obtain ⟨hreg, hmem, hstats⟩ := h
  obtain ⟨hreg', hmem', hstats'⟩ := h'
  rw [hreg, hreg', hstats, hstats']
  exact ⟨dumpRegisterState_inj, hmem.eq_iff hin hin' hmem', dumpSimStats_inj⟩

/-- Two words are printed, of which the second is written. -/
theorem finalize_eq_iff_sample : ∃ out out' : Output,
    Finalize (some "0 8") { memory := .create 0#64 8 } ⟨0#64, 0#64, 0#64, 0#64, 0#64, 0#64, 0#64⟩ out ∧
      Finalize (some "0 8") { memory := ⟨0#64, [0, 0, 0, 0, 1, 0, 0, 0]⟩ }
        ⟨1#64, 0#64, 0#64, 0#64, 0#64, 0#64, 0#64⟩ out' ∧
      out.regState = out'.regState ∧ out.memState ≠ out'.memState ∧ out.simStats ≠ out'.simStats := by
  have hwords : printedWords (some "0 8") = [0#64, 4#64] := by decide +kernel
  have hall : ∀ mem : MemoryStore, mem.InBounds 0#64 .wordSize ∧ mem.InBounds 4#64 .wordSize →
      ∀ a ∈ printedWords (some "0 8"), mem.InBounds a .wordSize := by
    intro mem h
    rwa [hwords, List.forall_mem_cons, List.forall_mem_singleton]
  have hin : RangeInside (some "0 8") (.create 0#64 8) :=
    ⟨by decide, by decide, by decide, hall _ (by decide)⟩
  have hin' : RangeInside (some "0 8") ⟨0#64, [0, 0, 0, 0, 1, 0, 0, 0]⟩ :=
    ⟨by decide, by decide, by decide, hall _ (by decide)⟩
  obtain ⟨out, h⟩ := @RangeInside.finalizes _ { memory := .create 0#64 8 } hin
    ⟨0#64, 0#64, 0#64, 0#64, 0#64, 0#64, 0#64⟩
  obtain ⟨out', h'⟩ := @RangeInside.finalizes _
    { memory := ⟨0#64, [0, 0, 0, 0, 1, 0, 0, 0]⟩ } hin' ⟨1#64, 0#64, 0#64, 0#64, 0#64, 0#64, 0#64⟩
  obtain ⟨hreg, hmem, hstats⟩ := finalize_eq_iff hin hin' h h'
  rw [hwords, List.forall_mem_cons, List.forall_mem_singleton] at hmem
  exact ⟨out, out', h, h', hreg.mpr (fun _ _ _ => rfl), mt hmem.mp (by decide),
    mt hstats.mp (by decide)⟩

end CycleSim
