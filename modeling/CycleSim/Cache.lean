import CycleSim.Lib.Loop

/-! `cache.h`, `cache.cpp`: the set-associative cache.

The cache keeps no data, only which blocks it holds. Indexing past the end of a vector
is undefined in the source; here such an access has no result. -/
namespace CycleSim

/-- `struct CacheConfig`, less `missLatency`, which the cache only prints. -/
structure CacheConfig where
  cacheSize : BitVec 64
  blockSize : BitVec 64
  ways : BitVec 64
  deriving DecidableEq, Repr

/-- `enum CacheOperation`. -/
inductive CacheOperation
  | cacheRead
  | cacheWrite
  deriving DecidableEq, Repr

/-- `struct CacheLine`. -/
structure CacheLine where
  isValid : Bool := false
  tag : BitVec 64 := 0#64
  lruTimestamp : BitVec 64 := 0#64
  deriving DecidableEq, Repr

/-- `class Cache`, less `type`, which nothing reads. -/
structure Cache where
  hits : BitVec 64 := 0#64
  misses : BitVec 64 := 0#64
  numberOfSets : BitVec 64
  blockOffsetBits : Nat
  setIndexBits : Nat
  sets : List (List CacheLine)
  lruClock : BitVec 64 := 0#64
  config : CacheConfig
  deriving DecidableEq, Repr

/-- `maskForBits`. -/
def maskForBits (bitCount : Nat) : BitVec 64 :=
  if bitCount = 0 then 0#64 else (1#64 <<< bitCount) - 1#64

/-- The loop of `log2u64`. -/
def log2Body (value : BitVec 64) (bits : Nat) : Nat ⊕ Nat :=
  if 1#64 <<< bits < value then .inl (bits + 1) else .inr bits

/-- `log2u64`. A 64-bit shift has 64 amounts; beyond them the source is undefined. -/
def log2u64 (value : BitVec 64) : Nat := (Loop.run (log2Body value) 64 0).getD 64

namespace CacheConfig

/-! `computeGeometry` assigns the three fields of the geometry. -/

def blockOffsetBits (config : CacheConfig) : Nat := log2u64 config.blockSize

def numberOfSets (config : CacheConfig) : BitVec 64 :=
  config.cacheSize / (config.blockSize * config.ways)

def setIndexBits (config : CacheConfig) : Nat := log2u64 config.numberOfSets

end CacheConfig

namespace Cache

/-- `Cache::Cache`. -/
def create (config : CacheConfig) : Cache where
  numberOfSets := config.numberOfSets
  blockOffsetBits := config.blockOffsetBits
  setIndexBits := config.setIndexBits
  sets := List.replicate config.numberOfSets.toNat (List.replicate config.ways.toNat {})
  config := config

/-- `getIndexAndTag`. -/
def getIndexAndTag (c : Cache) (address : BitVec 64) : BitVec 64 × BitVec 64 :=
  let indexMask := maskForBits c.setIndexBits
  let setIndex := (address >>> c.blockOffsetBits) &&& indexMask
  let tag := address >>> (c.blockOffsetBits + c.setIndexBits)
  (setIndex, tag)

/-- `static_cast<int>(config.ways)`, the bound of the loops over the ways. -/
def wayBound (c : Cache) : Nat := (c.config.ways.setWidth 32).toInt.toNat

end Cache

/-! ### One set -/

/-- "Probe for hit". -/
def hitLineIndex (set : List CacheLine) (bound : Nat) (tag : BitVec 64) : Option Nat :=
  (set.take bound).findIdx? (fun line => line.isValid && line.tag == tag)

/-- The first invalid line. -/
def invalidIndex (set : List CacheLine) (bound : Nat) : Option Nat :=
  (set.take bound).findIdx? (fun line => !line.isValid)

/-- "If all valid, evict true LRU": the loop over the lines from `way` on. -/
def oldestIndex : List CacheLine → Nat → BitVec 64 → Nat → Nat
  | [], _, _, victimIndex => victimIndex
  | line :: lines, way, minTimestamp, victimIndex =>
    if line.lruTimestamp < minTimestamp then oldestIndex lines (way + 1) line.lruTimestamp way
    else oldestIndex lines (way + 1) minTimestamp victimIndex

/-- "Choose a victim". -/
def victimIndex (set : List CacheLine) (bound : Nat) : Option Nat :=
  match invalidIndex set bound, set with
  | some way, _ => some way
  | none, [] => none
  | none, first :: lines => some (oldestIndex (lines.take (bound - 1)) 1 first.lruTimestamp 0)

/-- What an access does to its set: whether it hits, and the lines after it. -/
def accessSet (set : List CacheLine) (bound : Nat) (tag clock : BitVec 64) :
    Option (Bool × List CacheLine) :=
  match hitLineIndex set bound tag with
  | some way => some (true, set.modify way (fun line => { line with lruTimestamp := clock }))
  | none =>
    match victimIndex set bound with
    | some way => some (false, set.set way { isValid := true, tag := tag, lruTimestamp := clock })
    | none => none

/-! ### The cache -/

namespace Cache

/-- `Cache::access`. -/
def access (c : Cache) (address : BitVec 64) (_readWrite : CacheOperation) :
    Option (Bool × Cache) :=
  let (setIndex, tag) := c.getIndexAndTag address
  let clock := c.lruClock + 1#64
  match c.sets[setIndex.toNat]? with
  | none => none
  | some set =>
    match accessSet set c.wayBound tag clock with
    | none => none
    | some (hit, lines) =>
      let sets := c.sets.set setIndex.toNat lines
      if hit then some (true, { c with hits := c.hits + 1#64, sets := sets, lruClock := clock })
      else some (false, { c with misses := c.misses + 1#64, sets := sets, lruClock := clock })

def getHits (c : Cache) : BitVec 64 := c.hits

def getMisses (c : Cache) : BitVec 64 := c.misses

/-- Accesses, oldest first: what they returned, and the cache after them. -/
def accessAll (c : Cache) : List (BitVec 64 × CacheOperation) → Option (List Bool × Cache)
  | [] => some ([], c)
  | (address, readWrite) :: accesses =>
    match c.access address readWrite with
    | none => none
    | some (hit, c') => (c'.accessAll accesses).map (fun r => (hit :: r.1, r.2))

end Cache

end CycleSim
