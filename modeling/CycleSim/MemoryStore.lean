import CycleSim.Lib.Hex
import CycleSim.Lib.Loop
import CycleSim.Utilities

/-! `MemoryStore.h`, `MemoryStore.cpp`: a byte array at a base address, read and
written one, two, four or eight bytes at a time.

`memArr.at(i)` throws when `i` is past the end. The loops below stop at the
first such byte and report it, keeping what they did before it: the bytes read
so far are in `value`, the bytes written so far are in the array. -/
namespace CycleSim

/-- `enum MemEntrySize`. -/
inductive MemEntrySize
  | byteSize
  | halfSize
  | wordSize
  | doubleSize
  deriving DecidableEq, Repr

def MemEntrySize.toNat : MemEntrySize → Nat
  | .byteSize => 1
  | .halfSize => 2
  | .wordSize => 4
  | .doubleSize => 8

/-- `EINVAL`. -/
def einval : Int := 22

structure MemoryStore where
  startAddr : BitVec 64
  memArr : List (BitVec 8)
  deriving DecidableEq, Repr

namespace MemoryStore

/-- `memArr.at(relativeAddr + i)`: `none` is the `std::out_of_range` it throws. -/
def at? (memArr : List (BitVec 8)) (index : BitVec 64) : Option (BitVec 8) :=
  memArr[index.toNat]?

/-- The read loop of `getOrSetValue`, with `todo` iterations left from index `i`:
`value`, and whether no access threw. -/
def getLoop (memArr : List (BitVec 8)) (relativeAddr : BitVec 64) :
    (todo i : Nat) → (value : BitVec 64) → BitVec 64 × Bool
  | 0, _, value => (value, true)
  | todo + 1, i, value =>
    match at? memArr (relativeAddr + BitVec.ofNat 64 i) with
    | none => (value, false)
    | some byte =>
      getLoop memArr relativeAddr todo (i + 1) (value ||| (byte.setWidth 64 <<< (i * 8)))

/-- The write loop of `getOrSetValue`: the array, and whether no access threw. -/
def setLoop (relativeAddr value : BitVec 64) :
    (todo i : Nat) → (memArr : List (BitVec 8)) → List (BitVec 8) × Bool
  | 0, _, memArr => (memArr, true)
  | todo + 1, i, memArr =>
    match at? memArr (relativeAddr + BitVec.ofNat 64 i) with
    | none => (memArr, false)
    | some _ =>
      setLoop relativeAddr value todo (i + 1)
        (memArr.set (relativeAddr + BitVec.ofNat 64 i).toNat
          (((value >>> (i * 8)) &&& 0xFF#64).setWidth 8))

/-- What a call returns: the error code, `value` (passed by reference) and the store. -/
structure Access where
  ret : Int
  value : BitVec 64
  store : MemoryStore

/-- `MemoryStore::getOrSetValue`. The `default` case of its first `switch` is not
here: a `MemEntrySize` is one of the four sizes. -/
def getOrSetValue (mem : MemoryStore) (get : Bool) (address value : BitVec 64)
    (size : MemEntrySize) : Access :=
  let byteSize := size.toNat
  let relativeAddr := address - mem.startAddr
  if get then
    let (value, ok) := getLoop mem.memArr relativeAddr byteSize 0 0#64
    ⟨if ok then 0 else -einval, value, mem⟩
  else
    let (memArr, ok) := setLoop relativeAddr value byteSize 0 mem.memArr
    ⟨if ok then 0 else -einval, value, {mem with memArr := memArr}⟩

/-- `MemoryStore::getMemValue`, with the value the reference argument had. -/
def getMemValue (mem : MemoryStore) (address value : BitVec 64) (size : MemEntrySize) : Access :=
  mem.getOrSetValue true address value size

/-- `MemoryStore::setMemValue`. -/
def setMemValue (mem : MemoryStore) (address value : BitVec 64) (size : MemEntrySize) : Access :=
  mem.getOrSetValue false address value size

/-- `MemoryStore::MemoryStore(startAddr, numEntries)`, with no `init_mem_image` present. -/
def create (startAddr : BitVec 64) (numEntries : Nat) : MemoryStore :=
  ⟨startAddr, List.replicate numEntries 0⟩

/-! ### Printing -/

/-- `std::hex << std::setfill('0') << std::setw(width) << value`. -/
def hexSetw (width value : Nat) : String :=
  String.ofList ((Nat.toDigits 16 value).leftpad width '0')

/-- The innermost loop of `printMemArray`, with `todo` iterations left from index `j`: the
stream, and whether no access threw. -/
def printBytes (memArr : List (BitVec 8)) (relStart : BitVec 64) :
    (todo j : Nat) → (out : String) → String × Bool
  | 0, _, out => (out, true)
  | todo + 1, j, out =>
    match at? memArr (relStart + BitVec.ofNat 64 j) with
    | none => (out, false)
    | some byte => printBytes memArr relStart todo (j + 1) (out ++ hexSetw 2 byte.toNat)

/-- The loop over the entries of a row, with `todo` iterations left: `relStart` and the stream
after it, or what `printMemArray` returns from inside it. -/
def printRow (memArr : List (BitVec 8)) (relEnd entrySize : BitVec 64) :
    (todo : Nat) → (relStart : BitVec 64) → (out : String) → (BitVec 64 × String) ⊕ (Int × String)
  | 0, relStart, out => .inl (relStart, out)
  | todo + 1, relStart, out =>
    if relStart < relEnd then
      let (out, ok) := printBytes memArr relStart entrySize.toNat 0 (out ++ "0x")
      if ok then printRow memArr relEnd entrySize todo (relStart + entrySize) (out ++ " ")
      else .inr (-einval, out)
    else .inr (0, out ++ "\n")

/-- What the outer loop of `printMemArray` carries. -/
structure PrintLoop where
  relStart : BitVec 64
  curAddr : BitVec 64
  out : String

/-- The `while` of `printMemArray`; it is left with the return value and the stream. -/
def printMemArrayBody (mem : MemoryStore) (relEnd entrySize entriesPerRow : BitVec 64)
    (x : PrintLoop) : PrintLoop ⊕ (Int × String) :=
  if x.relStart < relEnd then
    match printRow mem.memArr relEnd entrySize entriesPerRow.toNat x.relStart
        (x.out ++ "0x" ++ hexSetw 8 x.curAddr.toNat ++ ": ") with
    | .inl (relStart, out) => .inl ⟨relStart, x.curAddr + entrySize * entriesPerRow, out ++ "\n"⟩
    | .inr r => .inr r
  else .inr (0, x.out)

/-- `MemoryStore::printMemArray`, when its outer loop ends within `fuel` iterations. -/
def printMemArray (fuel : Nat) (mem : MemoryStore)
    (startAddr endAddr entrySize entriesPerRow : BitVec 64) (out : String) :
    Option (Int × String) :=
  if entrySize = 1#64 ∨ entrySize = 2#64 ∨ entrySize = 4#64 ∨ entrySize = 8#64 then
    let relStart := startAddr - mem.startAddr
    let relEnd := endAddr - mem.startAddr
    Loop.run (printMemArrayBody mem relEnd entrySize entriesPerRow) fuel ⟨relStart, startAddr, out⟩
  else some (-einval, out)

end MemoryStore

/-- `initMem.open("init_mem_image")`: without such a file the stream has failed. -/
def openInitMem : Option String → Hex.IStream
  | none => ⟨[], true⟩
  | some text => ⟨text.toList, false⟩

/-- The `while (initMem && mem)` of `prepareMemory`, whose `mem` is never null; it is left
with the return value and the store. -/
def prepareMemoryBody (x : Hex.IStream × MemoryStore) :
    (Hex.IStream × MemoryStore) ⊕ (Int × MemoryStore) :=
  let (initMem, mem) := x
  if initMem.fail then .inr (0, mem)
  else
    let (addr, initMem) := initMem.extract 0#32
    let (curVal, initMem) := initMem.extract 0#32
    let set := mem.setMemValue (addr.setWidth 64) (curVal.setWidth 64) .wordSize
    if set.ret ≠ 0 then .inr (-einval, set.store)
    else .inl (initMem, set.store)

/-- `prepareMemory` returns, with this value and this store. -/
def PrepareMemory (image : Option String) (mem : MemoryStore) (ret : Int) (mem' : MemoryStore) :
    Prop :=
  Loop.Yields prepareMemoryBody (openInitMem image, mem) (ret, mem')

/-- The loop of `loadFromFile` from index `i`, over what is left of the buffer. `buf[i]` is a
signed `char`; the error code is not looked at. -/
def loadLoop : (i : Nat) → (buf : List (BitVec 8)) → MemoryStore → MemoryStore
  | _, [], mem => mem
  | i, byte :: buf, mem =>
    loadLoop (i + 1) buf
      (mem.setMemValue (BitVec.ofNat 64 i) (byte.signExtend 64) .byteSize).store

/-- `MemoryStore::loadFromFile`. The length is an `int`; for a negative one `new char[length]`
throws, which nothing catches. -/
def loadFromFile (file : Option (List (BitVec 8))) (mem : MemoryStore) :
    Option (Status × MemoryStore) :=
  match file with
  | some bytes =>
    let length := (BitVec.ofNat 32 bytes.length).toInt
    if length < 0 then none
    else some (.success, loadLoop 0 (bytes.take length.toNat) mem)
  | none => some (.error, mem)

/-- `MemoryStore::MemoryStore(startAddr, numEntries, fileName)` returns, with this store. -/
def CreateFrom (image : Option String) (file : Option (List (BitVec 8))) (startAddr : BitVec 64)
    (numEntries : Nat) (mem' : MemoryStore) : Prop :=
  ∃ mem status, PrepareMemory image (.create startAddr numEntries) 0 mem ∧
    loadFromFile file mem = some (status, mem')

/-- `MEMORY_SIZE`: the memory is 64 KB large. -/
def memorySize : Nat := 0x10000

/-- The contents of the memory both simulators start from: 64 KB at address 0. -/
structure MemoryImage where
  bytes : List (BitVec 8)
  length_eq : bytes.length = memorySize

def MemoryImage.store (image : MemoryImage) : MemoryStore := ⟨0, image.bytes⟩

end CycleSim
