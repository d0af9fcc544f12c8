import CycleSim.Isa.Arithmetic
import CycleSim.Memory.Access
import CycleSim.Pipeline.Latch

/-! The registers and the memory as a state of the specification.

In `archState` register 0 reads 0, whatever `simCommit` has stored there, and a memory
byte is the byte at its address. Writing a register, a read and a write inside the store
are the specification's own (`archState_set`, `getMemValue_bytes`, `byte_write`). -/
namespace CycleSim

open Rv64i (Op Width)

/-! ### States -/

/-- The byte at an address, 0 outside the store. -/
def MemoryStore.byte (mem : MemoryStore) (address : BitVec 64) : BitVec 8 :=
  (mem.memArr[mem.offset address]?).getD 0#8

/-- The registers and the memory as the specification has them. -/
def archState (a : Arch) (pc : BitVec 64) : Rv64i.State where
  pc := pc
  regs := fun i => a.regs.read (i.setWidth 64)
  mem := a.memory.byte
  regs_zero := by
    rw [Regs.read_eq]
    rfl

/-- Writing a register. -/
theorem archState_set (a : Arch) (r : BitVec 5) (v pc pc' : BitVec 64) :
    archState ⟨a.regs.set (r.setWidth 64) v, a.memory⟩ pc' =
      ((archState a pc).setPC pc').setReg r v := by
  have hr : (r.setWidth 64).toNat < 32 := by
    have hlt := r.isLt
    rw [BitVec.toNat_setWidth]
    omega
  apply Rv64i.State.ext
  case pc => rfl
  case mem => rfl
  funext i
  show (a.regs.set (r.setWidth 64) v).read (i.setWidth 64) =
    if i = r ∧ r ≠ 0#5 then v else a.regs.read (i.setWidth 64)
  rw [Regs.read_set _ _ _ _ hr]
  have hiff : (r.setWidth 64 ≠ 0#64 ∧ r.setWidth 64 = i.setWidth 64) ↔ (i = r ∧ r ≠ 0#5) := by
    have h0 : r.setWidth 64 = (0#5).setWidth 64 ↔ r = 0#5 := setWidth_inj (by decide)
    have hi : r.setWidth 64 = i.setWidth 64 ↔ r = i := setWidth_inj (by decide)
    rw [hi, eq_comm, and_comm]
    exact and_congr_right (fun _ => not_congr h0)
  simp only [hiff]

/-! ### Memory -/

section
variable {mem : MemoryStore} (hlen : mem.memArr.length ≤ MemoryStore.maxEntries)
  {address : BitVec 64} {size : MemEntrySize} (hin : mem.InBounds address size)
include hlen hin

/-- The bytes a read finds. -/
theorem slice_eq : mem.slice address size.toNat =
    (List.range size.toNat).map (fun i => mem.byte (address + BitVec.ofNat 64 i)) := by
  unfold MemoryStore.InBounds MemoryStore.offset at hin
  have hlt : ∀ i < size.toNat, mem.offset (address + BitVec.ofNat 64 i) = mem.offset address + i := by
    intro i hi
    unfold MemoryStore.maxEntries at hlen
    unfold MemoryStore.offset
    bv_omega
  apply List.ext_getElem?
  intro i
  rw [MemoryStore.slice, List.getElem?_take, List.getElem?_map]
  split
  · rename_i hi
    have hpos : mem.offset address + i < mem.memArr.length := by
      unfold MemoryStore.offset
      omega
    rw [List.getElem?_drop, List.getElem?_range hi, List.getElem?_eq_getElem hpos]
    simp only [Option.map_some, MemoryStore.byte, hlt i hi, List.getElem?_eq_getElem hpos,
      Option.getD_some]
  · rw [List.getElem?_eq_none (by simpa using by omega)]
    rfl

/-- A read inside the store, as the specification loads it. -/
theorem getMemValue_bytes (regs : Regs) (pc : BitVec 64) :
    (mem.getMemValue address 0#64 size).value.toNat =
      Bytes.value ((archState ⟨regs, mem⟩ pc).bytes address size.toNat) := by
  rw [(MemoryStore.getMemValue_eq hlen address 0#64 size).1, slice_eq hlen hin]
  rfl

/-- A write inside the store, byte by byte. -/
theorem byte_write (value a : BitVec 64) : (mem.write address value size).byte a =
    if (a - address).toNat < size.toNat then value.extractLsb' (8 * (a - address).toNat) 8
    else mem.byte a := by
  have hbyte : ∀ k, BitVec.ofNat 8 (value.toNat / 256 ^ k) = value.extractLsb' (8 * k) 8 := by
    intro k
    apply BitVec.eq_of_toNat_eq
    rw [BitVec.toNat_ofNat, BitVec.extractLsb'_toNat, Nat.shiftRight_eq_div_pow, Nat.pow_mul]
  have hwrite := MemoryStore.getElem?_write hlen value hin a
  rw [MemoryStore.byte, MemoryStore.byte]
  show ((mem.write address value size).memArr[mem.offset a]?).getD 0#8 = _
  rw [hwrite]
  split
  · exact hbyte _
  · rfl

end

/-! ### Loads and stores -/

theorem sext64_value {value : BitVec 64} {n v : Nat} (hn : 0 < n) (hn' : n < 8)
    (hv : value.toNat = v) (hlt : v < 256 ^ n) :
    sext64 value (n * 8 - 1) = (BitVec.ofNat (8 * n) v).signExtend 64 := by
  have hfit : v % 2 ^ (8 * n) = v := by
    rw [Nat.mod_eq_of_lt]
    rwa [Nat.pow_mul]
  have hvalue : value = (BitVec.ofNat (8 * n) v).setWidth 64 := by
    apply BitVec.eq_of_toNat_eq
    rw [hv, BitVec.toNat_setWidth, BitVec.toNat_ofNat, hfit, Nat.mod_eq_of_lt (hv ▸ value.isLt)]
  rw [hvalue]
  exact sext64_setWidth _ (by omega) (by omega)

theorem loadOp_eq {f3 : BitVec 3} {op : Op} (h : Rv64i.loadOp f3 = some op) :
    ∃ width unsigned, op = .load width unsigned := by
  rcases funct3_cases f3 with rfl | rfl | rfl | rfl | rfl | rfl | rfl | rfl
  case inr.inr.inr.inr.inr.inr.inr => cases h
  all_goals exact ⟨_, _, (Option.some.inj h).symm⟩

theorem storeOp_eq {f3 : BitVec 3} {op : Op} (h : Rv64i.storeOp f3 = some op) :
    ∃ width, op = .store width ∧ (accessSize (f3.setWidth 64)).toNat = width.bytes := by
  rcases funct3_cases f3 with rfl | rfl | rfl | rfl | rfl | rfl | rfl | rfl
  case inr.inr.inr.inl => exact ⟨_, (Option.some.inj h).symm, rfl⟩
  case inl => exact ⟨_, (Option.some.inj h).symm, rfl⟩
  case inr.inl => exact ⟨_, (Option.some.inj h).symm, rfl⟩
  case inr.inr.inl => exact ⟨_, (Option.some.inj h).symm, rfl⟩
  all_goals cases h

/-- The source's choice of size and extension is that of the load selected. -/
theorem loaded_eq {f3 : BitVec 3} {width : Width} {unsigned : Bool}
    (h : Rv64i.loadOp f3 = some (.load width unsigned)) (s : Rv64i.State) (address : BitVec 64) :
    (accessSize (f3.setWidth 64)).toNat = width.bytes ∧
      ∀ value : BitVec 64, value.toNat = Bytes.value (s.bytes address width.bytes) →
        (if f3.setWidth 64 = funct3B ∨ f3.setWidth 64 = funct3H ∨ f3.setWidth 64 = funct3W then
          sext64 value ((accessSize (f3.setWidth 64)).toNat * 8 - 1) else value) =
            s.loaded address width unsigned := by
  have hlength : ∀ n, (s.bytes address n).length = n := fun n => by simp [Rv64i.State.bytes]
  have hlt : ∀ n, Bytes.value (s.bytes address n) < 256 ^ n := fun n => by
    have hv := Bytes.value_lt (s.bytes address n)
    rwa [hlength] at hv
  have hsame : ∀ value : BitVec 64, value.toNat = Bytes.value (s.bytes address width.bytes) →
      value = BitVec.ofNat 64 (Bytes.value (s.bytes address width.bytes)) := by
    intro value hv
    rw [← hv, BitVec.ofNat_toNat, BitVec.setWidth_eq]
  rcases funct3_cases f3 with rfl | rfl | rfl | rfl | rfl | rfl | rfl | rfl
  case inr.inr.inr.inr.inr.inr.inr => cases h
  all_goals
    obtain ⟨rfl, rfl⟩ := Op.load.inj (Option.some.inj h)
    refine ⟨rfl, fun value hv => ?_⟩
  -- `lb`, `lh` and `lw` extend the sign, `ld` and the unsigned loads take the value as it is
  · exact sext64_value (by decide) (by decide) hv (hlt 1)
  · exact sext64_value (by decide) (by decide) hv (hlt 2)
  · exact sext64_value (by decide) (by decide) hv (hlt 4)
  · exact (hsame value hv).trans (BitVec.signExtend_eq _).symm
  · exact hsame value hv
  · exact hsame value hv
  · exact hsame value hv

end CycleSim
