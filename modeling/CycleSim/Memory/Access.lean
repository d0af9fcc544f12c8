import CycleSim.MemoryStore
import CycleSim.Lib.Bytes
import Mathlib.Tactic.Ring
import Mathlib.Tactic.Linarith

/-! One access to a store, as an operation on its byte list.

Everything is stated at the position `offset mem address`. A read yields the
bytes found there, a write splices the bytes of the value in; an access fails
when the list ends before it does, and then it has still read or written the
bytes that are there. -/
namespace CycleSim

namespace MemoryStore

/-- The position of an address in the byte list. -/
def offset (mem : MemoryStore) (address : BitVec 64) : Nat := (address - mem.startAddr).toNat

/-- The bytes a read of `n` bytes finds. -/
def slice (mem : MemoryStore) (address : BitVec 64) (n : Nat) : List (BitVec 8) :=
  (mem.memArr.drop (mem.offset address)).take n

/-- No list of bytes in a C++ vector is longer. -/
def maxEntries : Nat := 2 ^ 63

section
variable {memArr : List (BitVec 8)} {relativeAddr : BitVec 64}

theorem at?_add (hlen : memArr.length ≤ maxEntries) (hin : relativeAddr.toNat < memArr.length)
    {i : Nat} (hi : i < 8) :
    at? memArr (relativeAddr + BitVec.ofNat 64 i) = memArr[relativeAddr.toNat + i]? := by
  have hsum : (relativeAddr + BitVec.ofNat 64 i).toNat = relativeAddr.toNat + i := by
    simp only [maxEntries] at hlen
    rw [BitVec.toNat_add, BitVec.toNat_ofNat]
    omega
  rw [at?, hsum]

/-- The bytes read so far stay below the byte read next. -/
theorem toNat_or_shift {value : BitVec 64} {b : BitVec 8} {i : Nat} (hi : i < 8)
    (hv : value.toNat < 256 ^ i) :
    (value ||| (b.setWidth 64 <<< (i * 8))).toNat = value.toNat + 256 ^ i * b.toNat := by
  have hpow : 256 ^ i = 2 ^ (i * 8) := by rw [Nat.mul_comm, Nat.pow_mul]
  have hb := b.isLt
  have hfit : b.toNat * 2 ^ (i * 8) < 2 ^ 64 := by
    calc b.toNat * 2 ^ (i * 8) < 2 ^ 8 * 2 ^ (i * 8) := Nat.mul_lt_mul_of_pos_right hb (by positivity)
      _ = 2 ^ (8 + i * 8) := (Nat.pow_add 2 8 (i * 8)).symm
      _ ≤ 2 ^ 64 := Nat.pow_le_pow_right (by decide) (by omega)
  have hbyte : (b.setWidth 64).toNat = b.toNat := by
    rw [BitVec.toNat_setWidth, Nat.mod_eq_of_lt (by omega)]
  rw [hpow] at hv ⊢
  rw [BitVec.toNat_or, BitVec.toNat_shiftLeft, hbyte, Nat.shiftLeft_eq, Nat.mod_eq_of_lt hfit,
    Nat.or_comm, Nat.mul_comm, ← Nat.two_pow_add_eq_or_of_lt hv, Nat.add_comm]

/-- The read loop, from its `i`-th iteration. -/
theorem getLoop_eq (hlen : memArr.length ≤ maxEntries) (hin : relativeAddr.toNat < memArr.length)
    (todo i : Nat) (hi : i + todo ≤ 8) (value : BitVec 64) (hv : value.toNat < 256 ^ i) :
    (getLoop memArr relativeAddr todo i value).1.toNat = value.toNat +
        256 ^ i * Bytes.value ((memArr.drop (relativeAddr.toNat + i)).take todo) ∧
      ((getLoop memArr relativeAddr todo i value).2 = true ↔
        todo = 0 ∨ relativeAddr.toNat + i + todo ≤ memArr.length) := by
  induction todo generalizing i value with
  | zero => simp [getLoop, Bytes.value]
  | succ todo ih =>
    have hat := at?_add hlen hin (i := i) (by omega)
    by_cases hend : relativeAddr.toNat + i < memArr.length
    · rw [List.getElem?_eq_getElem hend] at hat
      have hnext := toNat_or_shift (b := memArr[relativeAddr.toNat + i]) (by omega) hv
      have hsmall : value.toNat + 256 ^ i * memArr[relativeAddr.toNat + i].toNat < 256 ^ (i + 1) := by
        have hb := memArr[relativeAddr.toNat + i].isLt
        have hmul := Nat.mul_le_mul_left (256 ^ i) (Nat.lt_succ_iff.mp hb)
        rw [Nat.pow_succ]
        omega
      obtain ⟨hval, hok⟩ := ih (i + 1) (by omega) _ (hnext ▸ hsmall)
      simp only [getLoop, hat]
      rw [hval, hok, hnext]
      refine ⟨?_, by omega⟩
      rw [List.drop_eq_getElem_cons hend, List.take_succ_cons, Bytes.value, Nat.pow_succ,
        Nat.add_assoc relativeAddr.toNat]
      ring
    · rw [List.getElem?_eq_none (by omega)] at hat
      simp only [getLoop, hat]
      rw [List.drop_eq_nil_of_le (by omega)]
      simp [Bytes.value]
      omega

/-- The byte the write loop stores in its `i`-th iteration. -/
theorem storedByte (value : BitVec 64) (i : Nat) :
    ((value >>> (i * 8)) &&& 0xFF#64).setWidth 8 = BitVec.ofNat 8 (value.toNat / 256 ^ i) := by
  apply BitVec.eq_of_toNat_eq
  have hpow : 256 ^ i = 2 ^ (i * 8) := by rw [Nat.mul_comm, Nat.pow_mul]
  have hmask : (255 : Nat) = 2 ^ 8 - 1 := by decide
  simp only [BitVec.toNat_setWidth, BitVec.toNat_and, BitVec.toNat_ushiftRight,
    BitVec.toNat_ofNat, Nat.shiftRight_eq_div_pow, hpow]
  rw [show 255 % 2 ^ 64 = 2 ^ 8 - 1 by decide, Nat.and_two_pow_sub_one_eq_mod, Nat.mod_mod]

/-- The write loop, from its `i`-th iteration. -/
theorem setLoop_eq (hlen : memArr.length ≤ maxEntries) (hin : relativeAddr.toNat < memArr.length)
    (value : BitVec 64) (todo i : Nat) (hi : i + todo ≤ 8) :
    (setLoop relativeAddr value todo i memArr).1 = Bytes.splice memArr (relativeAddr.toNat + i)
        (Bytes.digits todo (value.toNat / 256 ^ i)) ∧
      ((setLoop relativeAddr value todo i memArr).2 = true ↔
        todo = 0 ∨ relativeAddr.toNat + i + todo ≤ memArr.length) := by
  induction todo generalizing i memArr with
  | zero => simp [setLoop, Bytes.digits, Bytes.splice]
  | succ todo ih =>
    have hat := at?_add hlen hin (i := i) (by omega)
    by_cases hend : relativeAddr.toNat + i < memArr.length
    · have hsum : (relativeAddr + BitVec.ofNat 64 i).toNat = relativeAddr.toNat + i := by
        simp only [maxEntries] at hlen
        rw [BitVec.toNat_add, BitVec.toNat_ofNat]
        omega
      rw [List.getElem?_eq_getElem hend] at hat
      simp only [setLoop, hat, hsum, storedByte]
      obtain ⟨harr, hok⟩ := @ih (memArr.set (relativeAddr.toNat + i)
        (BitVec.ofNat 8 (value.toNat / 256 ^ i))) (by rwa [List.length_set])
        (by rwa [List.length_set]) (i + 1) (by omega)
      rw [harr, hok, List.length_set]
      refine ⟨?_, by omega⟩
      rw [Bytes.digits, Bytes.splice, Nat.div_div_eq_div_mul, Nat.pow_succ,
        Nat.add_assoc relativeAddr.toNat]
    · rw [List.getElem?_eq_none (by omega)] at hat
      simp only [setLoop, hat]
      rw [Bytes.splice_of_length_le (by omega)]
      refine ⟨rfl, ?_⟩
      simp only [Bool.false_eq_true, false_iff]
      omega

theorem at?_of_length_le (h : memArr.length ≤ relativeAddr.toNat) :
    at? memArr (relativeAddr + BitVec.ofNat 64 0) = none := by
  rw [at?, show relativeAddr + BitVec.ofNat 64 0 = relativeAddr from BitVec.add_zero relativeAddr,
    List.getElem?_eq_none h]

theorem getLoop_zero (hlen : memArr.length ≤ maxEntries) {n : Nat} (hpos : 0 < n) (hn : n ≤ 8) :
    (getLoop memArr relativeAddr n 0 0#64).1.toNat =
        Bytes.value ((memArr.drop relativeAddr.toNat).take n) ∧
      (getLoop memArr relativeAddr n 0 0#64).2 =
        decide (relativeAddr.toNat + n ≤ memArr.length) := by
  by_cases hin : relativeAddr.toNat < memArr.length
  · obtain ⟨hval, hok⟩ := getLoop_eq hlen hin n 0 (by omega) 0#64 (by decide)
    refine ⟨by simpa using hval, ?_⟩
    rw [Bool.eq_iff_iff, hok, decide_eq_true_iff]
    omega
  · obtain ⟨k, rfl⟩ := Nat.exists_eq_succ_of_ne_zero hpos.ne'
    simp only [getLoop, at?_of_length_le (Nat.le_of_not_lt hin)]
    rw [List.drop_eq_nil_of_le (by omega), decide_eq_false (by omega)]
    exact ⟨rfl, rfl⟩

theorem setLoop_zero (hlen : memArr.length ≤ maxEntries) (value : BitVec 64) {n : Nat}
    (hpos : 0 < n) (hn : n ≤ 8) : setLoop relativeAddr value n 0 memArr =
      (Bytes.splice memArr relativeAddr.toNat (Bytes.digits n value.toNat),
        decide (relativeAddr.toNat + n ≤ memArr.length)) := by
  by_cases hin : relativeAddr.toNat < memArr.length
  · obtain ⟨harr, hok⟩ := setLoop_eq hlen hin value n 0 (by omega)
    refine Prod.ext (by simpa using harr) ?_
    rw [Bool.eq_iff_iff, hok, decide_eq_true_iff]
    omega
  · obtain ⟨k, rfl⟩ := Nat.exists_eq_succ_of_ne_zero hpos.ne'
    simp only [setLoop, at?_of_length_le (Nat.le_of_not_lt hin)]
    rw [Bytes.splice_of_length_le (by omega), decide_eq_false (by omega)]

end

theorem size_bounds (size : MemEntrySize) : 0 < size.toNat ∧ size.toNat ≤ 8 := by
  cases size <;> decide

/-- The whole access lies in the store. -/
def InBounds (mem : MemoryStore) (address : BitVec 64) (size : MemEntrySize) : Prop :=
  mem.offset address + size.toNat ≤ mem.memArr.length

instance (mem : MemoryStore) (address : BitVec 64) (size : MemEntrySize) :
    Decidable (mem.InBounds address size) := Nat.decLe _ _

/-- The store after a write. -/
def write (mem : MemoryStore) (address value : BitVec 64) (size : MemEntrySize) : MemoryStore :=
  { mem with
    memArr := Bytes.splice mem.memArr (mem.offset address) (Bytes.digits size.toNat value.toNat) }

/-- Whether an access inside the store covers an address is seen on the positions. -/
theorem sub_lt_iff {startAddr address start : BitVec 64} {n : Nat}
    (hin : (start - startAddr).toNat + n ≤ maxEntries) :
    (address - start).toNat < n ↔ (start - startAddr).toNat ≤ (address - startAddr).toNat ∧
      (address - startAddr).toNat < (start - startAddr).toNat + n := by
  unfold maxEntries at hin
  bv_omega

theorem sub_toNat {startAddr address start : BitVec 64}
    (h : (start - startAddr).toNat ≤ (address - startAddr).toNat) :
    (address - start).toNat = (address - startAddr).toNat - (start - startAddr).toNat := by
  bv_omega

section
variable {mem : MemoryStore} (hlen : mem.memArr.length ≤ maxEntries) (address value : BitVec 64)
  (size : MemEntrySize)
include hlen

/-- A read yields the bytes it finds and leaves the store alone. -/
theorem getMemValue_eq : (mem.getMemValue address value size).value.toNat =
      Bytes.value (mem.slice address size.toNat) ∧
    (mem.getMemValue address value size).ret =
      (if mem.InBounds address size then 0 else -einval) ∧
    (mem.getMemValue address value size).store = mem := by
  obtain ⟨hpos, hle⟩ := size_bounds size
  obtain ⟨hval, hok⟩ := @getLoop_zero _ (address - mem.startAddr) hlen _ hpos hle
  refine ⟨hval, ?_, rfl⟩
  show (if (getLoop _ _ _ _ _).2 then 0 else -einval) = _
  rw [hok]
  simp only [decide_eq_true_eq]
  rfl

/-- A write splices the bytes of the value in, as far as the store reaches. -/
theorem setMemValue_eq : mem.setMemValue address value size =
    ⟨if mem.InBounds address size then 0 else -einval, value, mem.write address value size⟩ := by
  obtain ⟨hpos, hle⟩ := size_bounds size
  have hloop := @setLoop_zero _ (address - mem.startAddr) hlen value _ hpos hle
  show Access.mk (if (setLoop _ _ _ _ _).2 then 0 else -einval) value
    { mem with memArr := (setLoop _ _ _ _ _).1 } = _
  rw [hloop]
  simp only [decide_eq_true_eq]
  rfl

variable {address size}

/-- What a write inside the store leaves at an address. -/
theorem getElem?_write (hin : mem.InBounds address size) (a : BitVec 64) :
    (mem.write address value size).memArr[mem.offset a]? =
      if (a - address).toNat < size.toNat then
        some (BitVec.ofNat 8 (value.toNat / 256 ^ (a - address).toNat))
      else mem.memArr[mem.offset a]? := by
  unfold InBounds offset at hin
  have hcov := @sub_lt_iff mem.startAddr a address size.toNat (hin.trans hlen)
  simp only [write, Bytes.getElem?_splice, Bytes.length_digits, offset]
  by_cases h : (a - address).toNat < size.toNat
  · obtain ⟨hle, hlt⟩ := hcov.mp h
    rw [if_pos ⟨hle, hlt, by omega⟩, if_pos h, ← sub_toNat hle, Bytes.getElem?_digits h]
  · rw [if_neg (fun hc => h (hcov.mpr ⟨hc.1, hc.2.1⟩)), if_neg h]

end

/-! ### Writes that fail -/

/-- The bytes of the access that are in the store hold those of the value. -/
def HoldsInside (mem : MemoryStore) (address value : BitVec 64) (size : MemEntrySize) : Prop :=
  ∀ i < size.toNat, mem.offset address + i < mem.memArr.length →
    mem.memArr[mem.offset address + i]? = some (BitVec.ofNat 8 (value.toNat / 256 ^ i))

instance (mem : MemoryStore) (address value : BitVec 64) (size : MemEntrySize) :
    Decidable (mem.HoldsInside address value size) :=
  inferInstanceAs (Decidable (∀ i < size.toNat, _ → _))

theorem write_memArr_eq_iff (mem : MemoryStore) (address value : BitVec 64) (size : MemEntrySize) :
    (mem.write address value size).memArr = mem.memArr ↔ mem.HoldsInside address value size := by
  show Bytes.splice mem.memArr _ _ = mem.memArr ↔ _
  rw [Bytes.splice_eq_self_iff, Bytes.length_digits]
  refine forall_congr' (fun i => forall_congr' (fun hi => ?_))
  rw [Bytes.getElem?_digits hi]

/-- **Failed stores.** A call of `setMemValue` that returns an error leaves every byte as it
was exactly when the access is inside, so that there is no error, or the bytes it reaches hold
its value already. -/
theorem setMemValue_atomic_iff {mem : MemoryStore} (hlen : mem.memArr.length ≤ maxEntries)
    (address value : BitVec 64) (size : MemEntrySize) :
    ((mem.setMemValue address value size).ret ≠ 0 →
        (mem.setMemValue address value size).store.memArr = mem.memArr) ↔
      mem.InBounds address size ∨ mem.HoldsInside address value size := by
  rw [setMemValue_eq hlen]
  show ((if mem.InBounds address size then 0 else -einval) ≠ 0 →
    (mem.write address value size).memArr = mem.memArr) ↔ _
  rw [write_memArr_eq_iff]
  by_cases hin : mem.InBounds address size
  · simp only [hin, if_true, ne_eq, not_true, false_implies, true_or]
  · simp only [hin, if_false, false_or]
    exact ⟨fun h => h (by decide), fun h _ => h⟩

/-- Four bytes, the last two of them 0x34 and 0x12. -/
def fourBytes : MemoryStore := ⟨0#64, [0xde#8, 0xad#8, 0x34#8, 0x12#8]⟩

/-- A word over the end of four bytes; the two inside are there already. -/
theorem setMemValue_atomic_sample :
    (fourBytes.setMemValue 2#64 0xabcd1234#64 .wordSize).ret ≠ 0 ∧
      (fourBytes.setMemValue 2#64 0xabcd1234#64 .wordSize).store.memArr =
        [0xde#8, 0xad#8, 0x34#8, 0x12#8] := by
  have hlen : fourBytes.memArr.length ≤ maxEntries := by decide
  have hret : (fourBytes.setMemValue 2#64 0xabcd1234#64 .wordSize).ret ≠ 0 := by decide
  have hkept := (setMemValue_atomic_iff hlen 2#64 0xabcd1234#64 .wordSize).mpr (.inr (by decide))
  exact ⟨hret, hkept hret⟩

/-- The first two bytes of the word are written before the third is found to be outside. -/
theorem setMemValue_not_atomic : ¬∀ (mem : MemoryStore) (address value : BitVec 64)
    (size : MemEntrySize), (mem.setMemValue address value size).ret ≠ 0 →
      (mem.setMemValue address value size).store.memArr = mem.memArr := by
  intro hall
  have hkept := hall (create 0 4) 2#64 0x1234#64 .wordSize (by decide)
  exact absurd hkept (by decide)

end MemoryStore

end CycleSim
