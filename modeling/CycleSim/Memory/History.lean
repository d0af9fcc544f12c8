import CycleSim.Memory.Access

/-! A store after any sequence of calls.

`lastWritten calls address` is the abstract reading of a history: the byte the
last write over `address` left there, 0 if there was none. After a history whose
writes all succeeded, the store holds exactly these bytes (`after_byte`). -/
namespace CycleSim

namespace MemoryStore

/-- A call on the store; `value` is the reference argument of a read. -/
inductive Call
  | getMemValue (address value : BitVec 64) (size : MemEntrySize)
  | setMemValue (address value : BitVec 64) (size : MemEntrySize)
  deriving DecidableEq, Repr

def Call.address : Call → BitVec 64
  | .getMemValue address _ _ => address
  | .setMemValue address _ _ => address

def Call.size : Call → MemEntrySize
  | .getMemValue _ _ size => size
  | .setMemValue _ _ size => size

def Call.writes : Call → Bool
  | .getMemValue .. => false
  | .setMemValue .. => true

def Call.perform (mem : MemoryStore) : Call → Access
  | .getMemValue address value size => mem.getMemValue address value size
  | .setMemValue address value size => mem.setMemValue address value size

/-- A new store after the calls, oldest first. -/
def after (startAddr : BitVec 64) (numEntries : Nat) (calls : List Call) : MemoryStore :=
  calls.foldl (fun mem call => (call.perform mem).store) (create startAddr numEntries)

/-- Every write of the history returned 0. -/
def WritesSucceed (startAddr : BitVec 64) (numEntries : Nat) (calls : List Call) : Prop :=
  ∀ older call newer, calls = older ++ call :: newer → call.writes = true →
    (call.perform (after startAddr numEntries older)).ret = 0

/-- The byte a call leaves at an address that held `byte`. -/
def Call.leave (address : BitVec 64) (byte : BitVec 8) : Call → BitVec 8
  | .getMemValue .. => byte
  | .setMemValue start value size =>
    if (address - start).toNat < size.toNat then
      BitVec.ofNat 8 (value.toNat / 256 ^ (address - start).toNat)
    else byte

/-- The byte most recently written to an address. -/
def lastWritten (calls : List Call) (address : BitVec 64) : BitVec 8 :=
  calls.foldl (fun byte call => call.leave address byte) 0

section
variable {startAddr : BitVec 64} {numEntries : Nat}

theorem after_append (calls : List Call) (call : Call) :
    after startAddr numEntries (calls ++ [call]) =
      (call.perform (after startAddr numEntries calls)).store := by
  simp [after]

theorem lastWritten_append (calls : List Call) (call : Call) (address : BitVec 64) :
    lastWritten (calls ++ [call]) address = call.leave address (lastWritten calls address) := by
  simp [lastWritten]

theorem WritesSucceed.init {calls : List Call} {call : Call}
    (h : WritesSucceed startAddr numEntries (calls ++ [call])) :
    WritesSucceed startAddr numEntries calls := by
  intro older c newer hc hw
  exact h older c (newer ++ [call]) (by simp [hc]) hw

theorem WritesSucceed.last {calls : List Call} {call : Call}
    (h : WritesSucceed startAddr numEntries (calls ++ [call])) (hw : call.writes = true) :
    (call.perform (after startAddr numEntries calls)).ret = 0 :=
  h calls call [] rfl hw

variable (hN : numEntries ≤ maxEntries)
include hN

/-- No call changes where the store is or how large it is. -/
theorem after_shape (calls : List Call) :
    (after startAddr numEntries calls).startAddr = startAddr ∧
      (after startAddr numEntries calls).memArr.length = numEntries := by
  induction calls using List.reverseRecOn with
  | nil => exact ⟨rfl, List.length_replicate ..⟩
  | append_singleton calls call ih =>
    have hlen : (after startAddr numEntries calls).memArr.length ≤ maxEntries := by rwa [ih.2]
    rw [after_append]
    cases call with
    | getMemValue address value size => exact ih
    | setMemValue address value size =>
      rw [Call.perform, setMemValue_eq hlen]
      exact ⟨ih.1, (Bytes.length_splice _ _ _).trans ih.2⟩

theorem after_length_le (calls : List Call) :
    (after startAddr numEntries calls).memArr.length ≤ maxEntries := by
  rwa [(after_shape hN calls).2]

theorem inBounds_iff (calls : List Call) (address : BitVec 64) (size : MemEntrySize) :
    (after startAddr numEntries calls).InBounds address size ↔
      (address - startAddr).toNat + size.toNat ≤ numEntries := by
  unfold InBounds offset
  rw [(after_shape hN calls).1, (after_shape hN calls).2]

theorem perform_ret (calls : List Call) (call : Call) :
    (call.perform (after startAddr numEntries calls)).ret = 0 ↔
      (call.address - startAddr).toNat + call.size.toNat ≤ numEntries := by
  have hlen : (after startAddr numEntries calls).memArr.length ≤ maxEntries :=
    after_length_le hN calls
  have hret : (call.perform (after startAddr numEntries calls)).ret =
      if (after startAddr numEntries calls).InBounds call.address call.size then 0 else -einval := by
    cases call with
    | getMemValue address value size => exact (getMemValue_eq hlen address value size).2.1
    | setMemValue address value size =>
      exact congrArg Access.ret (setMemValue_eq hlen address value size)
  rw [hret, ← inBounds_iff hN calls]
  by_cases hin : (after startAddr numEntries calls).InBounds call.address call.size
  · simp [hin]
  · simp [hin, einval]

/-- Every write succeeds when every call stays inside the store. -/
theorem writesSucceed_of_inside {calls : List Call}
    (h : ∀ call ∈ calls, (call.address - startAddr).toNat + call.size.toNat ≤ numEntries) :
    WritesSucceed startAddr numEntries calls := by
  intro older call newer hcalls _
  exact (perform_ret hN older call).mpr (h call (by simp [hcalls]))

/-- The store is the little-endian array of the last bytes written. -/
theorem after_byte {calls : List Call} (h : WritesSucceed startAddr numEntries calls)
    {address : BitVec 64} (hin : (address - startAddr).toNat < numEntries) :
    (after startAddr numEntries calls).memArr[(address - startAddr).toNat]? =
      some (lastWritten calls address) := by
  induction calls using List.reverseRecOn with
  | nil => exact List.getElem?_replicate_of_lt hin
  | append_singleton calls call ih =>
    have hold := ih h.init
    rw [after_append, lastWritten_append]
    cases call with
    | getMemValue start value size => exact hold
    | setMemValue start value size =>
      have hok : (after startAddr numEntries calls).InBounds start size :=
        (inBounds_iff hN calls start size).mpr ((perform_ret hN calls _).mp (h.last rfl))
      have hwrite := getElem?_write (after_length_le hN calls) value hok address
      rw [offset, (after_shape hN calls).1] at hwrite
      rw [Call.perform, setMemValue_eq (after_length_le hN calls), hwrite, hold, Call.leave]
      split <;> rfl

/-- A read that stays inside the store yields the last bytes written. -/
theorem after_read {calls : List Call} (h : WritesSucceed startAddr numEntries calls)
    {address : BitVec 64} {size : MemEntrySize}
    (hin : (address - startAddr).toNat + size.toNat ≤ numEntries) (value : BitVec 64) :
    ((after startAddr numEntries calls).getMemValue address value size).value.toNat =
      ∑ i ∈ Finset.range size.toNat,
        256 ^ i * (lastWritten calls (address + BitVec.ofNat 64 i)).toNat := by
  obtain ⟨hs, hl⟩ := @after_shape startAddr numEntries hN calls
  obtain ⟨hpos, hle⟩ := size_bounds size
  have hlength : ((after startAddr numEntries calls).slice address size.toNat).length =
      size.toNat := by
    simp only [slice, offset, hs, List.length_take, List.length_drop, hl]
    omega
  rw [(getMemValue_eq (after_length_le hN calls) address value size).1,
    Bytes.value_eq_sum _ (fun i => lastWritten calls (address + BitVec.ofNat 64 i)), hlength]
  intro i hi
  rw [hlength] at hi
  have hat : (address + BitVec.ofNat 64 i - startAddr).toNat = (address - startAddr).toNat + i := by
    unfold maxEntries at hN
    bv_omega
  have hbyte := after_byte hN h (show (address + BitVec.ofNat 64 i - startAddr).toNat < numEntries by
    omega)
  rw [hat] at hbyte
  simp only [slice, offset, hs, List.getElem?_take, hi, if_true, List.getElem?_drop, hbyte]

/-- A read over a write just made yields the value, as far as it fits. -/
theorem read_after_write (calls : List Call) {address : BitVec 64} {size : MemEntrySize}
    (hin : (address - startAddr).toNat + size.toNat ≤ numEntries) (value value' : BitVec 64) :
    (((after startAddr numEntries calls).setMemValue address value size).store.getMemValue
      address value' size).value.toNat = value.toNat % 2 ^ (8 * size.toNat) := by
  obtain ⟨hs, hl⟩ := @after_shape startAddr numEntries hN calls
  have hlen := @after_length_le startAddr numEntries hN calls
  have hslice : ((after startAddr numEntries calls).write address value size).slice address
      size.toNat = Bytes.digits size.toNat value.toNat := by
    apply List.ext_getElem?
    intro k
    simp only [slice, write, offset, hs, List.getElem?_take, List.getElem?_drop,
      Bytes.getElem?_splice, Bytes.length_digits, hl]
    by_cases hk : k < size.toNat
    · rw [if_pos hk, if_pos ⟨by omega, by omega, by omega⟩, Nat.add_sub_cancel_left]
    · rw [if_neg hk, List.getElem?_eq_none (by simpa using hk)]
  rw [setMemValue_eq hlen, (getMemValue_eq (by simpa [write] using hlen) address value' size).1,
    hslice, Bytes.value_digits, Nat.pow_mul]

/-- A write leaves every byte outside its range as it was, also when it fails. -/
theorem byte_outside_write (calls : List Call) {address byteAddress : BitVec 64}
    {size : MemEntrySize} (hout : size.toNat ≤ (byteAddress - address).toNat) (value : BitVec 64) :
    ((after startAddr numEntries calls).setMemValue address value size).store.memArr[
        (byteAddress - startAddr).toNat]? =
      (after startAddr numEntries calls).memArr[(byteAddress - startAddr).toNat]? := by
  obtain ⟨hs, hl⟩ := @after_shape startAddr numEntries hN calls
  rw [setMemValue_eq (after_length_le hN calls)]
  simp only [write, offset, hs, Bytes.getElem?_splice, Bytes.length_digits]
  refine if_neg ?_
  intro hin
  obtain ⟨hle, hlt, _⟩ := hin
  rw [sub_toNat hle] at hout
  omega

end

/-- **The store is a little-endian byte array.** After any calls on a new store a
call returns 0 exactly when it stays inside; when every write so far succeeded, a
successful read is the little-endian sum of the bytes last written. A read over a
write just made yields the value stored, and a write touches no byte outside its
range. -/
theorem memoryStore_littleEndian (startAddr : BitVec 64) (numEntries : Nat)
    (hN : numEntries ≤ 2 ^ 63) (calls : List Call) :
    (∀ call : Call, (call.perform (after startAddr numEntries calls)).ret = 0 ↔
      (call.address - startAddr).toNat + call.size.toNat ≤ numEntries) ∧
    (WritesSucceed startAddr numEntries calls → ∀ address value size,
      ((after startAddr numEntries calls).getMemValue address value size).ret = 0 →
      ((after startAddr numEntries calls).getMemValue address value size).value.toNat =
        ∑ i ∈ Finset.range size.toNat,
          256 ^ i * (lastWritten calls (address + BitVec.ofNat 64 i)).toNat) ∧
    (∀ address value value' size,
      ((after startAddr numEntries calls).setMemValue address value size).ret = 0 →
      (((after startAddr numEntries calls).setMemValue address value size).store.getMemValue
        address value' size).value.toNat = value.toNat % 2 ^ (8 * size.toNat)) ∧
    (∀ address value size byteAddress, size.toNat ≤ (byteAddress - address).toNat →
      ((after startAddr numEntries calls).setMemValue address value size).store.memArr[
          (byteAddress - startAddr).toNat]? =
        (after startAddr numEntries calls).memArr[(byteAddress - startAddr).toNat]?) := by
  have hret := @perform_ret startAddr numEntries hN calls
  refine ⟨hret, ?_, ?_, ?_⟩
  · intro hw address value size hok
    exact after_read hN hw ((hret (.getMemValue address value size)).mp hok) value
  · intro address value value' size hok
    exact read_after_write hN calls ((hret (.setMemValue address value size)).mp hok) value value'
  · intro address value size byteAddress hout
    exact byte_outside_write hN calls hout value

/-- A double word, a word over its middle, whose value is wider than the access, and a
read between the writes; the last byte of the store is the last address there is. -/
def overlappingWrites : List Call :=
  [.setMemValue 0xFFFFFFFFFFFFFFF0#64 0x1122334455667788#64 .doubleSize,
    .getMemValue 0xFFFFFFFFFFFFFFF3#64 0#64 .halfSize,
    .setMemValue 0xFFFFFFFFFFFFFFF2#64 0xEEAABBCCDD#64 .wordSize,
    .setMemValue 0xFFFFFFFFFFFFFFFF#64 0x99#64 .byteSize]

/-- The read takes a byte of the first write and three of the second. -/
theorem memoryStore_littleEndian_sixteen :
    WritesSucceed 0xFFFFFFFFFFFFFFF0#64 16 overlappingWrites ∧
    ((after 0xFFFFFFFFFFFFFFF0#64 16 overlappingWrites).getMemValue 0xFFFFFFFFFFFFFFF1#64 0#64
      .wordSize).ret = 0 ∧
    ((after 0xFFFFFFFFFFFFFFF0#64 16 overlappingWrites).getMemValue 0xFFFFFFFFFFFFFFF1#64 0#64
      .wordSize).value.toNat = 0xBBCCDD77 := by
  obtain ⟨hret, hread, _⟩ :=
    memoryStore_littleEndian 0xFFFFFFFFFFFFFFF0#64 16 (by decide) overlappingWrites
  have hw : WritesSucceed 0xFFFFFFFFFFFFFFF0#64 16 overlappingWrites := by
    apply writesSucceed_of_inside (by decide)
    simp [overlappingWrites, Call.address, Call.size, MemEntrySize.toNat]
  have hok := (hret (.getMemValue 0xFFFFFFFFFFFFFFF1#64 0#64 .wordSize)).mpr (by decide)
  exact ⟨hw, hok, (hread hw _ _ _ hok).trans (by decide)⟩

end MemoryStore

end CycleSim
