import CycleSim.Memory.Access

/-! The initial memory image.

`prepareMemory` stores a word for each pair of numbers in the file, the later ones over the
earlier. Its loop looks at the stream before it reads, so after the last pair it goes round
once more, reads two zeros from the failed stream and stores them: the word at address 0 ends
up 0 whatever the image says (`prepareMemory_exact_iff`). -/
namespace CycleSim

namespace MemoryStore

/-- The text is made of these pairs of an address and a value. -/
def ImageText (pairs : List (BitVec 32 × BitVec 32)) (text : String) : Prop :=
  Hex.Spells (pairs.flatMap (fun pair => [pair.1, pair.2])) text.toList

/-- The pair covers the address: it is one of the four of its word. -/
def Covers (a : BitVec 64) (pair : BitVec 32 × BitVec 32) : Prop :=
  (a - pair.1.setWidth 64).toNat < 4

instance (a : BitVec 64) (pair : BitVec 32 × BitVec 32) : Decidable (Covers a pair) :=
  Nat.decLt _ _

/-- The byte of a pair at an address it covers. -/
def pairByte (a : BitVec 64) (pair : BitVec 32 × BitVec 32) : BitVec 8 :=
  BitVec.ofNat 8 (pair.2.toNat / 256 ^ (a - pair.1.setWidth 64).toNat)

/-- The byte an image asks for at an address of a store: that of the last pair covering it,
or the byte there. -/
def imageByte (mem : MemoryStore) (pairs : List (BitVec 32 × BitVec 32)) (a : BitVec 64) :
    Option (BitVec 8) :=
  match pairs.reverse.find? (fun pair => Covers a pair) with
  | some pair => some (pairByte a pair)
  | none => mem.memArr[mem.offset a]?

/-- The words of all pairs lie in the store. -/
def PairsInside (mem : MemoryStore) (pairs : List (BitVec 32 × BitVec 32)) : Prop :=
  ∀ pair ∈ pairs, mem.InBounds (pair.1.setWidth 64) .wordSize

instance (mem : MemoryStore) (pairs : List (BitVec 32 × BitVec 32)) :
    Decidable (mem.PairsInside pairs) :=
  decidable_of_iff (pairs.all (fun pair => mem.InBounds (pair.1.setWidth 64) .wordSize) = true) (by
    simp only [List.all_eq_true, decide_eq_true_eq]
    rfl)

/-- `prepareMemory` returns 0 and leaves the store with the bytes of the image. -/
def LoadsExactly (mem : MemoryStore) (pairs : List (BitVec 32 × BitVec 32)) (text : String) :
    Prop :=
  ∃ mem', PrepareMemory (some text) mem 0 mem' ∧ mem'.startAddr = mem.startAddr ∧
    mem'.memArr.length = mem.memArr.length ∧
      ∀ a, mem.offset a < mem.memArr.length → mem'.memArr[mem.offset a]? = imageByte mem pairs a

/-! ### The pairs -/

/-- The store with the words of the pairs written, in order. -/
def fill (mem : MemoryStore) (pairs : List (BitVec 32 × BitVec 32)) : MemoryStore :=
  pairs.foldl (fun m pair => m.write (pair.1.setWidth 64) (pair.2.setWidth 64) .wordSize) mem

theorem fill_append (mem : MemoryStore) (pairs : List (BitVec 32 × BitVec 32))
    (pair : BitVec 32 × BitVec 32) : mem.fill (pairs ++ [pair]) =
      (mem.fill pairs).write (pair.1.setWidth 64) (pair.2.setWidth 64) .wordSize := by
  rw [fill, List.foldl_append]
  rfl

theorem fill_shape (mem : MemoryStore) (pairs : List (BitVec 32 × BitVec 32)) :
    (mem.fill pairs).startAddr = mem.startAddr ∧
      (mem.fill pairs).memArr.length = mem.memArr.length := by
  induction pairs using List.reverseRecOn with
  | nil => exact ⟨rfl, rfl⟩
  | append_singleton pairs pair ih =>
    rw [fill_append]
    exact ⟨ih.1, (Bytes.length_splice ..).trans ih.2⟩

theorem fill_offset (mem : MemoryStore) (pairs : List (BitVec 32 × BitVec 32)) (a : BitVec 64) :
    (mem.fill pairs).offset a = mem.offset a := by
  rw [offset, (mem.fill_shape pairs).1]
  rfl

theorem fill_inBounds (mem : MemoryStore) (pairs : List (BitVec 32 × BitVec 32)) (a : BitVec 64)
    (size : MemEntrySize) : (mem.fill pairs).InBounds a size ↔ mem.InBounds a size := by
  rw [InBounds, fill_offset, (mem.fill_shape pairs).2]
  rfl

theorem imageByte_append (mem : MemoryStore) (pairs : List (BitVec 32 × BitVec 32))
    (pair : BitVec 32 × BitVec 32) (a : BitVec 64) : mem.imageByte (pairs ++ [pair]) a =
      if Covers a pair then some (pairByte a pair) else mem.imageByte pairs a := by
  rw [imageByte, List.reverse_append, List.reverse_singleton, List.singleton_append]
  by_cases hc : Covers a pair
  · rw [List.find?_cons_of_pos (by simpa using hc), if_pos hc]
  · rw [List.find?_cons_of_neg (by simpa using hc), if_neg hc]
    rfl

section
variable {mem : MemoryStore} (hlen : mem.memArr.length ≤ maxEntries)
include hlen

/-- The pairs written in order leave the bytes of the image. -/
theorem fill_byte {pairs : List (BitVec 32 × BitVec 32)} (hin : mem.PairsInside pairs)
    (a : BitVec 64) : (mem.fill pairs).memArr[mem.offset a]? = mem.imageByte pairs a := by
  induction pairs using List.reverseRecOn with
  | nil => rfl
  | append_singleton pairs pair ih =>
    have hold := ih (fun p hp => hin p (List.mem_append_left _ hp))
    have hpair : (mem.fill pairs).InBounds (pair.1.setWidth 64) .wordSize :=
      (mem.fill_inBounds pairs _ _).mpr (hin pair (by simp))
    have hwrite := getElem?_write (show (mem.fill pairs).memArr.length ≤ maxEntries by
      rwa [(mem.fill_shape pairs).2]) (pair.2.setWidth 64) hpair a
    rw [fill_offset, hold] at hwrite
    have hvalue : (pair.2.setWidth 64).toNat = pair.2.toNat :=
      BitVec.toNat_setWidth_of_le (by decide)
    rw [fill_append, hwrite, imageByte_append, hvalue]
    rfl

/-! ### The loop -/

/-- A round that reads a pair writes its word. -/
theorem prepareMemoryBody_pair {gap text gap' text' rest : List Char} {addr curVal : BitVec 32}
    (hgap : gap.all Hex.isSpace = true) (haddr : Hex.Numeral text addr)
    (hsep : (gap' ++ (text' ++ rest)).head?.all Hex.isSpace = true)
    (hgap' : gap'.all Hex.isSpace = true) (hval : Hex.Numeral text' curVal)
    (hrest : rest.head?.all Hex.isSpace = true)
    (hin : mem.InBounds (addr.setWidth 64) .wordSize) :
    prepareMemoryBody (⟨gap ++ (text ++ (gap' ++ (text' ++ rest))), false⟩, mem) =
      .inl (⟨rest, false⟩, mem.write (addr.setWidth 64) (curVal.setWidth 64) .wordSize) := by
  simp only [prepareMemoryBody, Bool.false_eq_true, if_false,
    Hex.IStream.extract_cons hgap haddr hsep, Hex.IStream.extract_cons hgap' hval hrest,
    setMemValue_eq hlen, if_pos hin, ne_eq, not_true]

/-- The round after the last pair stores a zero word at address 0, and ends the loop. -/
theorem prepareMemory_end {gap : List Char} (hgap : gap.all Hex.isSpace = true) :
    Loop.Yields prepareMemoryBody (⟨gap, false⟩, mem)
      (if mem.InBounds 0#64 .wordSize then 0 else -einval, mem.write 0#64 0#64 .wordSize) := by
  have hset : mem.setMemValue ((0#32).setWidth 64) ((0#32).setWidth 64) .wordSize = _ :=
    setMemValue_eq hlen 0#64 0#64 .wordSize
  have hround : prepareMemoryBody (⟨gap, false⟩, mem) =
      if mem.InBounds 0#64 .wordSize then .inl (⟨[], true⟩, mem.write 0#64 0#64 .wordSize)
      else .inr (-einval, mem.write 0#64 0#64 .wordSize) := by
    simp only [prepareMemoryBody, Bool.false_eq_true, if_false, Hex.IStream.extract_end hgap,
      Hex.IStream.extract_fail, hset]
    by_cases hin : mem.InBounds 0#64 .wordSize
    · simp only [if_pos hin, ne_eq, not_true, if_false]
    · simp only [if_neg hin]
      exact if_pos (by decide)
  by_cases hin : mem.InBounds 0#64 .wordSize
  · rw [if_pos hin] at hround ⊢
    exact .step hround (.exit rfl)
  · rw [if_neg hin] at hround ⊢
    exact .exit hround

end

/-- The loop goes round once for each pair and once more. -/
theorem prepareMemory_pairs {pairs : List (BitVec 32 × BitVec 32)} {text : List Char}
    {mem : MemoryStore} (hlen : mem.memArr.length ≤ maxEntries)
    (htext : Hex.Spells (pairs.flatMap (fun pair => [pair.1, pair.2])) text)
    (hin : mem.PairsInside pairs) : Loop.Yields prepareMemoryBody (⟨text, false⟩, mem)
      (if mem.InBounds 0#64 .wordSize then 0 else -einval,
        (mem.fill pairs).write 0#64 0#64 .wordSize) := by
  induction pairs generalizing text mem with
  | nil =>
    cases htext with
    | nil hgap => exact prepareMemory_end hlen hgap
  | cons pair pairs ih =>
    have hshape := mem.fill_shape [pair]
    have hbounds := mem.fill_inBounds [pair]
    cases htext with
    | cons hgap haddr hsep hxs =>
      cases hxs with
      | cons hgap' hval hrest hmore =>
        have hround := prepareMemoryBody_pair hlen hgap haddr hsep hgap' hval hrest
          (hin pair (List.mem_cons_self ..))
        have hlen' : (mem.fill [pair]).memArr.length ≤ maxEntries := hshape.2 ▸ hlen
        have hyields := ih hlen' hmore
          (fun p hp => (hbounds _ _).mpr (hin p (List.mem_cons_of_mem _ hp)))
        simp only [hbounds] at hyields
        exact .step hround hyields

/-! ### The image -/

/-- The word at address 0 lies in the store, and the image leaves it 0. -/
def ZeroAtZero (mem : MemoryStore) (pairs : List (BitVec 32 × BitVec 32)) : Prop :=
  mem.InBounds 0#64 .wordSize ∧
    ∀ i < 4, mem.imageByte pairs (BitVec.ofNat 64 i) = some 0#8

instance (mem : MemoryStore) (pairs : List (BitVec 32 × BitVec 32)) :
    Decidable (mem.ZeroAtZero pairs) :=
  inferInstanceAs (Decidable (_ ∧ ∀ i < 4, _))

/-- What the last round leaves: the image, but for the word at address 0. -/
theorem fill_write_zero {mem : MemoryStore} (hlen : mem.memArr.length ≤ maxEntries)
    {pairs : List (BitVec 32 × BitVec 32)} (hin : mem.PairsInside pairs)
    (hzero : mem.InBounds 0#64 .wordSize) (a : BitVec 64) :
    ((mem.fill pairs).write 0#64 0#64 .wordSize).memArr[mem.offset a]? =
      if a.toNat < 4 then some 0#8 else mem.imageByte pairs a := by
  have hlen' : (mem.fill pairs).memArr.length ≤ maxEntries := by rwa [(mem.fill_shape pairs).2]
  have h := getElem?_write hlen' 0#64 ((mem.fill_inBounds pairs _ _).mpr hzero) a
  rw [fill_offset, fill_byte hlen hin, BitVec.sub_zero] at h
  rw [h]
  simp only [BitVec.toNat_zero, Nat.zero_div]
  rfl

/-- **The initial memory image.** `prepareMemory` loads an image exactly when the image leaves
the word at address 0 of the store 0. -/
theorem prepareMemory_exact_iff {mem : MemoryStore} (hlen : mem.memArr.length ≤ maxEntries)
    {pairs : List (BitVec 32 × BitVec 32)} {text : String} (htext : ImageText pairs text)
    (hin : mem.PairsInside pairs) : LoadsExactly mem pairs text ↔ mem.ZeroAtZero pairs := by
  have hyields : Loop.Yields prepareMemoryBody (openInitMem (some text), mem) _ :=
    prepareMemory_pairs hlen htext hin
  have hshape := mem.fill_shape pairs
  constructor
  · intro ⟨mem', hload, _, _, hbytes⟩
    have heq := Loop.Yields.unique hload hyields
    have hzero : mem.InBounds 0#64 .wordSize := by
      by_contra hout
      rw [if_neg hout] at heq
      exact absurd (Prod.mk.inj heq).1 (by decide)
    obtain rfl := (Prod.mk.inj heq).2
    refine ⟨hzero, fun i hi => ?_⟩
    have ha : (BitVec.ofNat 64 i).toNat = i := by
      rw [BitVec.toNat_ofNat]
      omega
    have hoff : mem.offset (BitVec.ofNat 64 i) < mem.memArr.length := by
      unfold InBounds offset at hzero
      unfold offset
      have hfour : MemEntrySize.wordSize.toNat = 4 := rfl
      unfold maxEntries at hlen
      bv_omega
    rw [← hbytes _ hoff, fill_write_zero hlen hin hzero, ha, if_pos hi]
  · intro ⟨hzero, himage⟩
    rw [if_pos hzero] at hyields
    refine ⟨_, hyields, hshape.1, (Bytes.length_splice ..).trans hshape.2, fun a _ => ?_⟩
    rw [fill_write_zero hlen hin hzero]
    split_ifs with ha
    · have hbyte := himage a.toNat ha
      rw [BitVec.ofNat_toNat, BitVec.setWidth_eq] at hbyte
      exact hbyte.symm
    · rfl

/-- An address and a value, a space between them. -/
theorem imageText_pair {text text' : List Char} {addr curVal : BitVec 32}
    (haddr : Hex.Numeral text addr) (hval : Hex.Numeral text' curVal) :
    Hex.Spells ([(addr, curVal)].flatMap (fun pair => [pair.1, pair.2])) (text ++ ' ' :: text') := by
  have hvals : Hex.Spells [curVal] ([' '] ++ (text' ++ [])) :=
    .cons rfl hval rfl (.nil rfl)
  rw [List.append_nil] at hvals
  have hpair : Hex.Spells [addr, curVal] ([] ++ (text ++ ([' '] ++ text'))) :=
    .cons rfl haddr rfl hvals
  exact hpair

theorem numeral_sample : Hex.Numeral ['1', '2', '3', '4'] 0x1234#32 :=
  ⟨['1', '2', '3', '4'], by decide, by decide, by decide, .inl rfl⟩

/-- An image that does not touch address 0. -/
theorem prepareMemory_exact_sample :
    LoadsExactly (create 0 64) [(0x10#32, 0x1234#32)] "0x10 1234" := by
  have haddr : Hex.Numeral ['0', 'x', '1', '0'] 0x10#32 :=
    ⟨['1', '0'], by decide, by decide, by decide, .inr (.inl rfl)⟩
  have htext : ImageText [(0x10#32, 0x1234#32)] "0x10 1234" := imageText_pair haddr numeral_sample
  have hlen : (create 0 64).memArr.length ≤ maxEntries := by decide
  exact (prepareMemory_exact_iff hlen htext (by decide)).mpr (by decide)

/-- A value at address 0 is lost. -/
theorem prepareMemory_not_exact : ¬∀ (mem : MemoryStore) (pairs : List (BitVec 32 × BitVec 32))
    (text : String), mem.memArr.length ≤ maxEntries → ImageText pairs text →
      mem.PairsInside pairs → LoadsExactly mem pairs text := by
  intro hall
  have haddr : Hex.Numeral ['0'] 0#32 :=
    ⟨['0'], by decide, by decide, by decide, .inl rfl⟩
  have htext : ImageText [(0#32, 0x1234#32)] "0 1234" := imageText_pair haddr numeral_sample
  have hrun : PrepareMemory (some "0 1234") (create 0 64) 0 (create 0 64) := ⟨3, by decide⟩
  obtain ⟨mem', hload, -, -, hbytes⟩ := hall (create 0 64) _ _ (by decide) htext (by decide)
  obtain rfl := (Prod.mk.inj (Loop.Yields.unique hload hrun)).2
  exact absurd (hbytes 0#64 (by decide)) (by decide)

end MemoryStore

end CycleSim
