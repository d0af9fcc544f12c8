import CycleSim.Cache
import Mathlib.Data.Nat.Log
import Mathlib.Algebra.Group.Nat.Defs

/-! Which set and which tag an address has.

The index is cut off at `setIndexBits` bits, the logarithm of the number of sets rounded
up; `sets` has as many entries as there are sets. The two agree when the number of sets is
a power of two (`soundMapping_iff`). -/
namespace CycleSim

theorem shiftLeft_lt_iff {bits : Nat} (h : bits ≤ 63) (value : BitVec 64) :
    1#64 <<< bits < value ↔ bits < Nat.clog 2 value.toNat := by
  have hpow : 2 ^ bits ≤ 2 ^ 63 := Nat.pow_le_pow_right (by decide) h
  have hone : (1#64 <<< bits).toNat = 2 ^ bits := by
    rw [BitVec.toNat_shiftLeft, Nat.shiftLeft_eq, Nat.mod_eq_of_lt (by simp; omega)]
    simp
  rw [BitVec.lt_def, hone, Nat.lt_clog_iff_pow_lt (by decide)]

/-- The loop of `log2u64` ends at the first power of two that is large enough. -/
theorem log2u64_run {value : BitVec 64} (h : value.toNat ≤ 2 ^ 63) :
    Loop.run (log2Body value) 64 0 = some (Nat.clog 2 value.toNat) := by
  have hle : Nat.clog 2 value.toNat ≤ 63 := Nat.clog_le_of_le_pow h
  have hiterate : ∀ i, Nat.succ^[i] 0 = i := by
    intro i
    induction i with
    | zero => rfl
    | succ i ih => rw [Function.iterate_succ_apply', ih]
  have hgo : ∀ i < Nat.clog 2 value.toNat,
      log2Body value (Nat.succ^[i] 0) = .inl (Nat.succ^[i + 1] 0) := by
    intro i hi
    rw [hiterate, hiterate]
    exact if_pos ((shiftLeft_lt_iff (by omega) value).mpr hi)
  have hexit : log2Body value (Nat.succ^[Nat.clog 2 value.toNat] 0) =
      .inr (Nat.clog 2 value.toNat) := by
    rw [hiterate]
    exact if_neg (mt (shiftLeft_lt_iff hle value).mp (Nat.lt_irrefl _))
  have hrun := Loop.run_mono (Loop.run_iterate _ hgo hexit) (63 - Nat.clog 2 value.toNat)
  rwa [show Nat.clog 2 value.toNat + 1 + (63 - Nat.clog 2 value.toNat) = 64 by omega] at hrun

theorem log2u64_eq {value : BitVec 64} (h : value.toNat ≤ 2 ^ 63) :
    log2u64 value = Nat.clog 2 value.toNat := by
  rw [log2u64, log2u64_run h]
  rfl

theorem log2u64_of_pow {value : BitVec 64} {k : Nat} (h : value.toNat = 2 ^ k) :
    k ≤ 63 ∧ log2u64 value = k := by
  have hlt : 2 ^ k < 2 ^ 64 := h ▸ value.isLt
  have hk : k ≤ 63 := Nat.lt_succ_iff.mp ((Nat.pow_lt_pow_iff_right (by decide)).mp hlt)
  refine ⟨hk, ?_⟩
  rw [log2u64_eq (h ▸ Nat.pow_le_pow_right (by decide) hk), h, Nat.clog_pow 2 k (by decide)]

theorem maskForBits_toNat {bitCount : Nat} (h : bitCount ≤ 63) :
    (maskForBits bitCount).toNat = 2 ^ bitCount - 1 := by
  have hpow : 2 ^ bitCount ≤ 2 ^ 63 := Nat.pow_le_pow_right (by decide) h
  have hpos : 0 < 2 ^ bitCount := Nat.two_pow_pos bitCount
  unfold maskForBits
  split
  · rename_i h0
    rw [h0]
    rfl
  · rw [BitVec.toNat_sub, BitVec.toNat_shiftLeft, Nat.shiftLeft_eq]
    simp
    omega

/-! ### Allowed configurations -/

/-- The configurations the project description allows; each number is parsed into 32 bits. -/
structure CacheConfig.Admitted (config : CacheConfig) : Prop where
  blockSize : ∃ b, config.blockSize.toNat = 2 ^ b
  ways : 0 < config.ways.toNat
  cacheSize : 0 < config.cacheSize.toNat
  dvd : config.blockSize.toNat * config.ways.toNat ∣ config.cacheSize.toNat
  blockSize_lt : config.blockSize.toNat < 2 ^ 32
  ways_lt : config.ways.toNat < 2 ^ 32
  cacheSize_lt : config.cacheSize.toNat < 2 ^ 32

namespace CacheConfig

/-- The number of sets. -/
def setCount (config : CacheConfig) : Nat :=
  config.cacheSize.toNat / (config.blockSize.toNat * config.ways.toNat)

/-- The block an address lies in. -/
def blockOf (config : CacheConfig) (address : BitVec 64) : Nat :=
  address.toNat / config.blockSize.toNat

variable {config : CacheConfig}

theorem Admitted.blockSize_pos (h : config.Admitted) : 0 < config.blockSize.toNat := by
  obtain ⟨b, hb⟩ := h.blockSize
  rw [hb]
  exact Nat.two_pow_pos b

theorem Admitted.numberOfSets_toNat (h : config.Admitted) :
    config.numberOfSets.toNat = config.setCount := by
  have hmul : config.blockSize.toNat * config.ways.toNat < 2 ^ 64 :=
    calc config.blockSize.toNat * config.ways.toNat < 2 ^ 32 * 2 ^ 32 :=
          Nat.mul_lt_mul'' h.blockSize_lt h.ways_lt
      _ = 2 ^ 64 := by decide
  rw [numberOfSets, BitVec.toNat_udiv, BitVec.toNat_mul, Nat.mod_eq_of_lt hmul]
  rfl

theorem Admitted.setCount_mul (h : config.Admitted) :
    config.setCount * config.blockSize.toNat ≤ config.cacheSize.toNat := by
  calc config.setCount * config.blockSize.toNat
      ≤ config.setCount * (config.blockSize.toNat * config.ways.toNat) :=
        Nat.mul_le_mul_left _ (Nat.le_mul_of_pos_right _ h.ways)
    _ = config.cacheSize.toNat := Nat.div_mul_cancel h.dvd

theorem Admitted.setCount_lt (h : config.Admitted) : config.setCount < 2 ^ 32 :=
  Nat.lt_of_le_of_lt (Nat.div_le_self _ _) h.cacheSize_lt

theorem Admitted.setIndexBits_eq (h : config.Admitted) :
    config.setIndexBits = Nat.clog 2 config.setCount := by
  have hle : config.numberOfSets.toNat ≤ 2 ^ 63 := by
    have hlt : config.setCount < 2 ^ 32 := h.setCount_lt
    rw [h.numberOfSets_toNat]
    omega
  rw [setIndexBits, log2u64_eq hle, h.numberOfSets_toNat]

theorem Admitted.setIndexBits_le (h : config.Admitted) : config.setIndexBits ≤ 63 := by
  rw [h.setIndexBits_eq]
  refine Nat.clog_le_of_le_pow ?_
  have hlt : config.setCount < 2 ^ 32 := h.setCount_lt
  omega

theorem Admitted.blockSize_eq (h : config.Admitted) :
    config.blockSize.toNat = 2 ^ config.blockOffsetBits := by
  obtain ⟨b, hb⟩ := h.blockSize
  rw [blockOffsetBits, (log2u64_of_pow hb).2, hb]

end CacheConfig

/-! ### Index and tag -/

/-- The geometry of a cache, which no access changes. -/
structure Cache.Geometry (c : Cache) (config : CacheConfig) : Prop where
  config_eq : c.config = config
  blockOffsetBits : c.blockOffsetBits = config.blockOffsetBits
  setIndexBits : c.setIndexBits = config.setIndexBits
  length : c.sets.length = config.numberOfSets.toNat
  ways : ∀ lines ∈ c.sets, lines.length = config.ways.toNat

theorem Cache.create_geometry (config : CacheConfig) : (Cache.create config).Geometry config where
  config_eq := rfl
  blockOffsetBits := rfl
  setIndexBits := rfl
  length := List.length_replicate ..
  ways := by
    intro lines hlines
    rw [List.eq_of_mem_replicate hlines, List.length_replicate]

section
variable {config : CacheConfig} {c : Cache}

/-- What the mapping needs of a configuration: blocks of a power of two of bytes, and an index
of less than 64 bits. -/
structure CacheConfig.Indexed (config : CacheConfig) : Prop where
  blockSize_eq : config.blockSize.toNat = 2 ^ config.blockOffsetBits
  setIndexBits_le : config.setIndexBits ≤ 63

theorem CacheConfig.Admitted.indexed (h : config.Admitted) : config.Indexed :=
  ⟨h.blockSize_eq, h.setIndexBits_le⟩

theorem Cache.Geometry.setIndex (hc : c.Geometry config) (h : config.Indexed)
    (address : BitVec 64) : (c.getIndexAndTag address).1.toNat =
      config.blockOf address % 2 ^ config.setIndexBits := by
  show ((address >>> c.blockOffsetBits) &&& maskForBits c.setIndexBits).toNat = _
  rw [hc.blockOffsetBits, hc.setIndexBits, BitVec.toNat_and, BitVec.toNat_ushiftRight,
    maskForBits_toNat h.setIndexBits_le, Nat.and_two_pow_sub_one_eq_mod, Nat.shiftRight_eq_div_pow,
    CacheConfig.blockOf, h.blockSize_eq]

theorem Cache.Geometry.tag (hc : c.Geometry config) (h : config.Indexed) (address : BitVec 64) :
    (c.getIndexAndTag address).2.toNat = config.blockOf address / 2 ^ config.setIndexBits := by
  show (address >>> (c.blockOffsetBits + c.setIndexBits)).toNat = _
  rw [hc.blockOffsetBits, hc.setIndexBits, BitVec.toNat_ushiftRight, Nat.shiftRight_eq_div_pow,
    Nat.pow_add, ← Nat.div_div_eq_div_mul, CacheConfig.blockOf, h.blockSize_eq]

/-- Index and tag together name the block. -/
theorem Cache.Geometry.getIndexAndTag_eq_iff (hc : c.Geometry config) (h : config.Indexed)
    (a b : BitVec 64) : c.getIndexAndTag a = c.getIndexAndTag b ↔
      config.blockOf a = config.blockOf b := by
  rw [Prod.ext_iff, ← BitVec.toNat_inj, ← BitVec.toNat_inj, hc.setIndex h, hc.setIndex h, hc.tag h,
    hc.tag h]
  constructor
  · intro ⟨hmod, hdiv⟩
    rw [← Nat.div_add_mod (config.blockOf a) (2 ^ config.setIndexBits), hdiv, hmod,
      Nat.div_add_mod]
  · intro he
    rw [he]
    exact ⟨rfl, rfl⟩

/-! ### Accesses -/

theorem victimIndex_isSome {lines : List CacheLine} (h : lines ≠ []) (bound : Nat) :
    (victimIndex lines bound).isSome = true := by
  unfold victimIndex
  split
  · rfl
  · exact absurd rfl h
  · rfl

/-- An access to a set of the cache has a result. -/
theorem accessSet_isSome {lines : List CacheLine} (h : lines ≠ []) (bound : Nat)
    (tag clock : BitVec 64) : ∃ hit lines', accessSet lines bound tag clock = some (hit, lines') ∧
      lines'.length = lines.length := by
  unfold accessSet
  split
  · exact ⟨_, _, rfl, List.length_modify ..⟩
  · obtain ⟨way, hway⟩ := Option.isSome_iff_exists.mp (victimIndex_isSome h bound)
    rw [hway]
    exact ⟨_, _, rfl, List.length_set ..⟩

/-- The cache after an access that left `lines` in its set. -/
def Cache.record (c : Cache) (setIndex : BitVec 64) (hit : Bool) (lines : List CacheLine) : Cache :=
  { c with
    hits := if hit then c.hits + 1#64 else c.hits
    misses := if hit then c.misses else c.misses + 1#64
    sets := c.sets.set setIndex.toNat lines
    lruClock := c.lruClock + 1#64 }

theorem Cache.access_eq (c : Cache) (address : BitVec 64) (readWrite : CacheOperation) :
    c.access address readWrite =
      match c.sets[(c.getIndexAndTag address).1.toNat]? with
      | none => none
      | some lines =>
        (accessSet lines c.wayBound (c.getIndexAndTag address).2 (c.lruClock + 1#64)).map
          (fun r => (r.1, c.record (c.getIndexAndTag address).1 r.1 r.2)) := by
  simp only [Cache.access]
  cases c.sets[(c.getIndexAndTag address).1.toNat]? with
  | none => rfl
  | some lines =>
    simp only
    cases accessSet lines c.wayBound (c.getIndexAndTag address).2 (c.lruClock + 1#64) with
    | none => rfl
    | some r =>
      obtain ⟨hit, lines'⟩ := r
      cases hit <;> rfl

theorem Cache.Geometry.record (hc : c.Geometry config) (setIndex : BitVec 64) (hit : Bool)
    {lines : List CacheLine} (hl : lines.length = config.ways.toNat) :
    (c.record setIndex hit lines).Geometry config where
  config_eq := hc.config_eq
  blockOffsetBits := hc.blockOffsetBits
  setIndexBits := hc.setIndexBits
  length := (List.length_set ..).trans hc.length
  ways := by
    intro l hmem
    rcases List.mem_or_eq_of_mem_set hmem with hmem | rfl
    · exact hc.ways l hmem
    · exact hl

/-- An access inside the vector of sets has a result and keeps the geometry. -/
theorem Cache.Geometry.access_of_lt (hc : c.Geometry config) (hpos : 0 < config.ways.toNat)
    {address : BitVec 64}
    (hin : (c.getIndexAndTag address).1.toNat < config.numberOfSets.toNat)
    (readWrite : CacheOperation) : ∃ lines hit lines',
      c.sets[(c.getIndexAndTag address).1.toNat]? = some lines ∧
      accessSet lines c.wayBound (c.getIndexAndTag address).2 (c.lruClock + 1#64) =
        some (hit, lines') ∧
      c.access address readWrite =
        some (hit, c.record (c.getIndexAndTag address).1 hit lines') ∧
      (c.record (c.getIndexAndTag address).1 hit lines').Geometry config := by
  rw [← hc.length] at hin
  have hlines := List.getElem?_eq_getElem hin
  have hlen := hc.ways _ (List.getElem_mem hin)
  generalize c.sets[(c.getIndexAndTag address).1.toNat] = lines at hlines hlen
  have hne : lines ≠ [] := by
    rintro rfl
    exact absurd hpos (by simp [← hlen])
  obtain ⟨hit, lines', hset, hlen'⟩ :=
    accessSet_isSome hne c.wayBound (c.getIndexAndTag address).2 (c.lruClock + 1#64)
  refine ⟨lines, hit, lines', hlines, hset, ?_, hc.record _ _ (hlen'.trans hlen)⟩
  rw [c.access_eq, hlines]
  simp only [hset, Option.map_some]

/-- What every access keeps, a sequence of them keeps; `n` counts the accesses so far. -/
theorem Cache.accessAll_keeps {bound : Nat} {P : Nat → Cache → Prop}
    (hstep : ∀ n c address readWrite, n < bound → P n c →
      ∃ hit c', c.access address readWrite = some (hit, c') ∧ P (n + 1) c')
    {n : Nat} (accesses : List (BitVec 64 × CacheOperation)) (hlen : n + accesses.length ≤ bound)
    (h : P n c) : ∃ results c', c.accessAll accesses = some (results, c') ∧
      P (n + accesses.length) c' := by
  induction accesses generalizing c n with
  | nil => exact ⟨[], c, rfl, h⟩
  | cons a accesses ih =>
    obtain ⟨address, readWrite⟩ := a
    rw [List.length_cons] at hlen
    obtain ⟨hit, c', haccess, h'⟩ := hstep n c address readWrite (by omega) h
    obtain ⟨results, c'', hall, h''⟩ := @ih c' (n + 1) (by omega) h'
    refine ⟨hit :: results, c'', ?_, ?_⟩
    · rw [Cache.accessAll, haccess]
      simp only [hall, Option.map_some]
    · rw [List.length_cons, Nat.add_comm accesses.length 1, ← Nat.add_assoc]
      exact h''

theorem Cache.Geometry.accessAll (hc : c.Geometry config) (h : config.Admitted)
    (hin : ∀ address, config.blockOf address % 2 ^ config.setIndexBits < config.setCount)
    (accesses : List (BitVec 64 × CacheOperation)) : (c.accessAll accesses).isSome = true := by
  have hstep : ∀ n (c : Cache) address readWrite, n < accesses.length → c.Geometry config →
      ∃ hit c', c.access address readWrite = some (hit, c') ∧ c'.Geometry config := by
    intro _ c address readWrite _ hc
    have hlt : (c.getIndexAndTag address).1.toNat < config.numberOfSets.toNat := by
      rw [hc.setIndex h.indexed, h.numberOfSets_toNat]
      exact hin address
    obtain ⟨_, hit, _, _, _, haccess, hgeometry⟩ := hc.access_of_lt h.ways hlt readWrite
    exact ⟨hit, _, haccess, hgeometry⟩
  obtain ⟨_, _, hall, _⟩ := Cache.accessAll_keeps hstep accesses (Nat.le_of_eq (Nat.zero_add _)) hc
  rw [hall]
  rfl

end

/-! ### Soundness of the mapping -/

/-- No index leaves the vector of sets, no access to the fresh cache or any time later is
undefined, and a set and a tag stand for one block. -/
structure CacheConfig.SoundMapping (config : CacheConfig) : Prop where
  inBounds : ∀ address, ((Cache.create config).getIndexAndTag address).1 < config.numberOfSets
  defined : ∀ accesses, ((Cache.create config).accessAll accesses).isSome = true
  separates : ∀ a b, (Cache.create config).getIndexAndTag a =
    (Cache.create config).getIndexAndTag b ↔ config.blockOf a = config.blockOf b

section
variable {config : CacheConfig}

theorem CacheConfig.Admitted.index_lt (h : config.Admitted) {k : Nat}
    (hk : config.setCount = 2 ^ k) (address : BitVec 64) :
    config.blockOf address % 2 ^ config.setIndexBits < config.setCount := by
  rw [h.setIndexBits_eq, hk, Nat.clog_pow 2 k (by decide)]
  exact Nat.mod_lt _ (Nat.two_pow_pos k)

/-- When the number of sets is no power of two, the address after the last set is mapped
outside. -/
theorem CacheConfig.Admitted.setCount_eq (h : config.Admitted)
    (hin : ∀ address, config.blockOf address % 2 ^ config.setIndexBits < config.setCount) :
    config.setCount = 2 ^ config.setIndexBits := by
  have hle : config.setCount ≤ 2 ^ config.setIndexBits := by
    rw [h.setIndexBits_eq]
    exact Nat.le_pow_clog (by decide) _
  refine Nat.le_antisymm hle (Nat.le_of_not_lt fun hlt => ?_)
  have hsmall : config.setCount * config.blockSize.toNat < 2 ^ 64 :=
    Nat.lt_of_le_of_lt h.setCount_mul (Nat.lt_trans h.cacheSize_lt (by decide))
  have hblock : config.blockOf (BitVec.ofNat 64 (config.setCount * config.blockSize.toNat)) =
      config.setCount := by
    rw [CacheConfig.blockOf, BitVec.toNat_ofNat, Nat.mod_eq_of_lt hsmall,
      Nat.mul_div_cancel _ h.blockSize_pos]
  have hself := hin (BitVec.ofNat 64 (config.setCount * config.blockSize.toNat))
  rw [hblock, Nat.mod_eq_of_lt hlt] at hself
  exact Nat.lt_irrefl _ hself

end

/-- **Which geometries are sound.** The mapping of an allowed configuration is sound exactly
when its number of sets is a power of two. -/
theorem soundMapping_iff (config : CacheConfig) (h : config.Admitted) :
    config.SoundMapping ↔ ∃ k, config.setCount = 2 ^ k := by
  have hc := Cache.create_geometry config
  have hindex : ∀ address, ((Cache.create config).getIndexAndTag address).1 < config.numberOfSets ↔
      config.blockOf address % 2 ^ config.setIndexBits < config.setCount := by
    intro address
    rw [BitVec.lt_def, hc.setIndex h.indexed, h.numberOfSets_toNat]
  constructor
  · intro hsound
    exact ⟨_, h.setCount_eq (fun address => (hindex address).mp (hsound.inBounds address))⟩
  · intro ⟨k, hk⟩
    exact ⟨fun address => (hindex address).mpr (h.index_lt hk address),
      hc.accessAll h (h.index_lt hk), hc.getIndexAndTag_eq_iff h.indexed⟩

/-- The first cache of the shipped configuration. -/
theorem soundMapping_iff_sample : CacheConfig.SoundMapping ⟨2048#64, 16#64, 2#64⟩ :=
  (soundMapping_iff ⟨2048#64, 16#64, 2#64⟩
    ⟨⟨4, by decide⟩, by decide, by decide, by decide, by decide, by decide, by decide⟩).mpr
    ⟨6, by decide⟩

/-- Three sets: the block after the third is looked up in a fourth. -/
theorem not_soundMapping : ¬∀ config : CacheConfig, config.Admitted → config.SoundMapping := by
  intro hall
  have hsound : CacheConfig.SoundMapping ⟨48#64, 16#64, 1#64⟩ := hall ⟨48#64, 16#64, 1#64⟩
    ⟨⟨4, by decide⟩, by decide, by decide, by decide, by decide, by decide, by decide⟩
  have hout : ¬((Cache.create ⟨48#64, 16#64, 1#64⟩).getIndexAndTag 48#64).1 <
      CacheConfig.numberOfSets ⟨48#64, 16#64, 1#64⟩ := by decide
  exact hout (hsound.inBounds 48#64)

end CycleSim
