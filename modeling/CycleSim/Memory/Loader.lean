import CycleSim.Memory.Image

/-! The memory a simulator starts from.

`init_mem_image` is stored first, then the program, byte by byte from address 0 on. Bytes of
the program past the end of the store are refused one by one and dropped, and so is the
error. The program covers the word at address 0 that the end of the image clears, so the two
together are what the files say (`createFrom_bytes`). -/
namespace CycleSim

namespace MemoryStore

/-! ### The program -/

section
variable {mem : MemoryStore} (hlen : mem.memArr.length ≤ maxEntries)
include hlen

/-- One byte written, inside the store or not. -/
theorem getElem?_write_byte (address value a : BitVec 64) (ha : mem.offset a < mem.memArr.length) :
    (mem.write address value .byteSize).memArr[mem.offset a]? =
      if a = address then some (value.setWidth 8) else mem.memArr[mem.offset a]? := by
  have hone : MemEntrySize.byteSize.toNat = 1 := rfl
  by_cases hin : mem.InBounds address .byteSize
  · rw [getElem?_write hlen value hin a, hone]
    by_cases heq : a = address
    · subst heq
      rw [BitVec.sub_self, if_pos (by decide), if_pos rfl]
      refine congrArg some (BitVec.eq_of_toNat_eq ?_)
      simp
    · have hne : ¬(a - address).toNat < 1 := by
        intro hlt
        refine heq ?_
        bv_omega
      rw [if_neg hne, if_neg heq]
  · have hne : a ≠ address := by
      rintro rfl
      exact hin ha
    unfold InBounds at hin
    rw [if_neg hne, write, Bytes.splice_of_length_le (by omega)]

/-- The loop leaves the bytes of the buffer at the addresses from `i` on. -/
theorem loadLoop_byte (i : Nat) (buf : List (BitVec 8)) (hi : i + buf.length < 2 ^ 64)
    (a : BitVec 64) (ha : mem.offset a < mem.memArr.length) :
    (loadLoop i buf mem).memArr[mem.offset a]? =
      if i ≤ a.toNat ∧ a.toNat < i + buf.length then buf[a.toNat - i]?
      else mem.memArr[mem.offset a]? := by
  induction buf generalizing i mem with
  | nil => rw [loadLoop, if_neg (by rw [List.length_nil]; omega)]
  | cons byte buf ih =>
    rw [List.length_cons] at hi
    have hshape : (mem.write (BitVec.ofNat 64 i) (byte.signExtend 64) .byteSize).memArr.length =
        mem.memArr.length := Bytes.length_splice ..
    have hrest := ih (hshape ▸ hlen) (i + 1) (by omega) (hshape.symm ▸ ha)
    have hfirst := getElem?_write_byte hlen (BitVec.ofNat 64 i) (byte.signExtend 64) a ha
    have hbyte : (byte.signExtend 64).setWidth 8 = byte := by
      apply BitVec.eq_of_getLsbD_eq
      intro j hj
      rw [BitVec.getLsbD_setWidth, BitVec.getLsbD_signExtend, if_pos hj]
      simp [hj, show j < 64 by omega]
    have hat : a = BitVec.ofNat 64 i ↔ a.toNat = i := by
      rw [← BitVec.toNat_inj, BitVec.toNat_ofNat, Nat.mod_eq_of_lt (by omega)]
    have hoffset : (mem.write (BitVec.ofNat 64 i) (byte.signExtend 64) .byteSize).offset a =
        mem.offset a := rfl
    rw [hoffset, hfirst, hbyte] at hrest
    rw [loadLoop, setMemValue_eq hlen, hrest, List.length_cons]
    by_cases heq : a.toNat = i
    · rw [if_neg (by omega), if_pos (hat.mpr heq), if_pos (by omega), heq, Nat.sub_self]
      rfl
    · rw [if_neg (mt hat.mp heq)]
      by_cases hin : i + 1 ≤ a.toNat ∧ a.toNat < i + 1 + buf.length
      · have hsub : a.toNat - i = a.toNat - (i + 1) + 1 := by omega
        rw [if_pos hin, if_pos (by omega), hsub, List.getElem?_cons_succ]
      · rw [if_neg hin, if_neg (by omega)]

theorem loadLoop_shape (i : Nat) (buf : List (BitVec 8)) :
    (loadLoop i buf mem).startAddr = mem.startAddr ∧
      (loadLoop i buf mem).memArr.length = mem.memArr.length := by
  induction buf generalizing i mem with
  | nil => exact ⟨rfl, rfl⟩
  | cons byte buf ih =>
    have hshape : (mem.write (BitVec.ofNat 64 i) (byte.signExtend 64) .byteSize).memArr.length =
        mem.memArr.length := Bytes.length_splice ..
    obtain ⟨hstart, hlength⟩ := ih (hshape ▸ hlen) (i + 1)
    rw [loadLoop, setMemValue_eq hlen]
    exact ⟨hstart, hlength.trans hshape⟩

end

/-- A file of less than 2 GB is loaded whole. -/
theorem loadFromFile_eq (mem : MemoryStore) {bytes : List (BitVec 8)}
    (hsize : bytes.length < 2 ^ 31) :
    loadFromFile (some bytes) mem = some (.success, loadLoop 0 bytes mem) := by
  have hint : (BitVec.ofNat 32 bytes.length).toInt = bytes.length := by
    rw [BitVec.toInt_eq_toNat_of_lt (by rw [BitVec.toNat_ofNat]; omega), BitVec.toNat_ofNat,
      Nat.mod_eq_of_lt (by omega)]
  have hnonneg : ¬(bytes.length : Int) < 0 := by omega
  simp only [loadFromFile, hint, if_neg hnonneg, Int.toNat_natCast, List.take_length]

/-! ### The constructor -/

/-- The pairs of the file `init_mem_image`, none without it. -/
def ImagePairs (image : Option String) (pairs : List (BitVec 32 × BitVec 32)) : Prop :=
  match image with
  | some text => ImageText pairs text
  | none => pairs = []

/-- The byte both files ask for: that of the program, else that of the image, else 0. -/
def initialByte (pairs : List (BitVec 32 × BitVec 32)) (bytes : List (BitVec 8))
    (a : BitVec 64) : BitVec 8 :=
  match bytes[a.toNat]?, pairs.reverse.find? (fun pair => Covers a pair) with
  | some byte, _ => byte
  | none, some pair => pairByte a pair
  | none, none => 0#8

/-- `MEMORY_SIZE` bytes at address 0, before anything is loaded. -/
def empty : MemoryStore := create 0#64 memorySize

theorem empty_length_le : empty.memArr.length ≤ maxEntries := by
  rw [empty, create, List.length_replicate]
  decide

theorem empty_byte {a : BitVec 64} (ha : a.toNat < memorySize) :
    empty.memArr[empty.offset a]? = some 0#8 := by
  have hoff : empty.offset a = a.toNat := by
    rw [offset, empty, create, BitVec.sub_zero]
  rw [hoff, empty, create, List.getElem?_replicate, if_pos ha]
  rfl

/-- What `prepareMemory` leaves in the store, less the word at address 0. -/
theorem prepareMemory_empty {image : Option String} {pairs : List (BitVec 32 × BitVec 32)}
    (hpairs : ImagePairs image pairs) (hin : empty.PairsInside pairs) : ∃ mem,
    PrepareMemory image empty 0 mem ∧ mem.startAddr = 0#64 ∧ mem.memArr.length = memorySize ∧
      ∀ a : BitVec 64, a.toNat < memorySize → image = none ∨ 4 ≤ a.toNat →
        mem.memArr[empty.offset a]? = some (initialByte pairs [] a) := by
  have hbyte : ∀ a : BitVec 64, a.toNat < memorySize →
      empty.imageByte pairs a = some (initialByte pairs [] a) := by
    intro a ha
    simp only [imageByte, initialByte, List.getElem?_nil]
    cases pairs.reverse.find? (fun pair => Covers a pair) with
    | none => exact empty_byte ha
    | some pair => rfl
  cases image with
  | none =>
    obtain rfl : pairs = [] := hpairs
    exact ⟨empty, .exit rfl, rfl, List.length_replicate, fun a ha _ => hbyte a ha⟩
  | some text =>
    have hzero : empty.InBounds 0#64 .wordSize := by
      rw [InBounds, offset, empty, create, List.length_replicate]
      decide
    have hshape := empty.fill_shape pairs
    have hyields : PrepareMemory (some text) empty _ _ :=
      prepareMemory_pairs empty_length_le hpairs hin
    rw [if_pos hzero] at hyields
    refine ⟨_, hyields, hshape.1, ?_, fun a ha h4 => ?_⟩
    · exact (Bytes.length_splice ..).trans (hshape.2.trans List.length_replicate)
    · have hnot : ¬a.toNat < 4 := Nat.not_lt.mpr (h4.resolve_left (by simp))
      rw [fill_write_zero empty_length_le hin hzero, if_neg hnot, hbyte a ha]

/-- **The loaded memory.** With an `init_mem_image` of words inside the 64 KB, or without one,
and a program of at least one word, less than 2 GB, the constructor returns a memory that holds
the program, the words of the image where the program ends, and 0 elsewhere. -/
theorem createFrom_bytes {image : Option String} {pairs : List (BitVec 32 × BitVec 32)}
    (hpairs : ImagePairs image pairs) (hin : empty.PairsInside pairs) {bytes : List (BitVec 8)}
    (hsize : bytes.length < 2 ^ 31) (hword : image = none ∨ 4 ≤ bytes.length) :
    ∃ loaded : MemoryImage, CreateFrom image (some bytes) 0#64 memorySize loaded.store ∧
      ∀ a : BitVec 64, a.toNat < memorySize →
        loaded.bytes[a.toNat]? = some (initialByte pairs bytes a) := by
  obtain ⟨mem, hprepare, hstart, hlength, hbytes⟩ := prepareMemory_empty hpairs hin
  have hlen : mem.memArr.length ≤ maxEntries := by
    rw [hlength]
    decide
  obtain ⟨hstart', hlength'⟩ := loadLoop_shape hlen 0 bytes
  have hoff : ∀ a : BitVec 64, mem.offset a = a.toNat := by
    intro a
    rw [offset, hstart, BitVec.sub_zero]
  refine ⟨⟨(loadLoop 0 bytes mem).memArr, hlength'.trans hlength⟩, ⟨mem, .success, hprepare, ?_⟩, ?_⟩
  · rw [loadFromFile_eq mem hsize]
    refine congrArg (fun m => some (Status.success, m)) ?_
    show _ = MemoryStore.mk 0 (loadLoop 0 bytes mem).memArr
    rw [← show (loadLoop 0 bytes mem).startAddr = 0 from hstart'.trans hstart]
  · intro a ha
    have hload := loadLoop_byte hlen 0 bytes (by omega) a (by rw [hoff, hlength]; exact ha)
    rw [hoff] at hload
    show (loadLoop 0 bytes mem).memArr[a.toNat]? = _
    rw [hload]
    by_cases hlt : a.toNat < bytes.length
    · rw [if_pos ⟨Nat.zero_le _, by omega⟩, Nat.sub_zero, initialByte,
        List.getElem?_eq_getElem hlt]
    · have hold := hbytes a ha (hword.imp id (fun h => by omega))
      have hempty : empty.offset a = a.toNat := by
        rw [offset, empty, create, BitVec.sub_zero]
      rw [if_neg (by omega)]
      rw [hempty] at hold
      rw [hold, initialByte, initialByte, List.getElem?_nil,
        List.getElem?_eq_none (Nat.le_of_not_lt hlt)]

/-- HALT at address 0, and a word of the image at address 16. -/
theorem createFrom_bytes_sample : ∃ loaded : MemoryImage,
    CreateFrom (some "0x10 1234") (some [0xed#8, 0xfe#8, 0xed#8, 0xfe#8]) 0#64 memorySize
      loaded.store ∧
    loaded.bytes[1]? = some 0xfe#8 ∧ loaded.bytes[0x10]? = some 0x34#8 := by
  have haddr : Hex.Numeral ['0', 'x', '1', '0'] 0x10#32 :=
    ⟨['1', '0'], by decide, by decide, by decide, .inr (.inl rfl)⟩
  have htext : ImageText [(0x10#32, 0x1234#32)] "0x10 1234" := imageText_pair haddr numeral_sample
  have hin : empty.PairsInside [(0x10#32, 0x1234#32)] := by
    intro pair hpair
    obtain rfl := List.mem_singleton.mp hpair
    rw [InBounds, empty, create, List.length_replicate]
    decide
  have hpairs : ImagePairs (some "0x10 1234") [(0x10#32, 0x1234#32)] := htext
  obtain ⟨loaded, hcreate, hbytes⟩ := @createFrom_bytes _ _ hpairs hin
    [0xed#8, 0xfe#8, 0xed#8, 0xfe#8] (by decide) (.inr (by decide))
  exact ⟨loaded, hcreate, hbytes 1#64 (by decide), hbytes 0x10#64 (by decide)⟩

end MemoryStore

end CycleSim
