import CycleSim.Cache.Lru
import CycleSim.Lib.Paging

/-! How many misses a sequence of accesses costs.

The results of a fresh cache are those of `Paging.served` on the blocks accessed, divided into
sets (`create_serves`). So the accesses to one set go as those of a pager with as many pages as
ways (`access_inSet`), the misses are the sum of the faults of these pagers (`access_misses`), and
no other way of choosing the lines to evict does better than by a factor (`access_competitive`). -/
namespace CycleSim

section
variable {config : CacheConfig}

/-- The blocks accessed, the last one first. -/
def CacheConfig.blocksOf (config : CacheConfig) (accesses : List (BitVec 64 × CacheOperation)) :
    List Nat :=
  (accesses.map (fun a => config.blockOf a.1)).reverse

/-- The set of a block. -/
def CacheConfig.setOf (config : CacheConfig) (block : Nat) : Nat := block % config.setCount

theorem CacheConfig.setOf_mem (hsets : ∃ k, config.setCount = 2 ^ k) (block : Nat) :
    config.setOf block ∈ Finset.range config.setCount := by
  obtain ⟨k, hk⟩ := hsets
  refine Finset.mem_range.mpr (Nat.mod_lt block ?_)
  rw [hk]
  exact Nat.two_pow_pos k

/-- A block is recently used exactly when it is among the last `ways` blocks of its set. -/
theorem CacheConfig.recentlyUsed_iff (hpos : 0 < config.ways.toNat) (before : List (BitVec 64))
    (address : BitVec 64) : config.RecentlyUsed before address ↔
      config.blockOf address ∈ Recency.recent config.ways.toNat (Paging.inSet config.setOf
        (config.setOf (config.blockOf address)) (before.map config.blockOf).reverse) := by
  rw [Recency.mem_recent_iff hpos, Paging.since_inSet]
  refine and_congr ?_ (iff_of_eq (congrArg (fun l => (List.toFinset l).card < _) ?_))
  · simp [Paging.inSet]
  · rfl

/-- The results and the counters of a fresh cache. -/
theorem Cache.create_serves (h : config.Admitted) (hways : config.ways.toNat < 2 ^ 31)
    (hsets : ∃ k, config.setCount = 2 ^ k) (accesses : List (BitVec 64 × CacheOperation))
    (hlen : accesses.length < 2 ^ 64) :
    ∃ results c, (Cache.create config).accessAll accesses = some (results, c) ∧
      results.length = accesses.length ∧
      results.reverse =
        Paging.served config.setOf config.ways.toNat (config.blocksOf accesses) ∧
      c.getMisses.toNat =
        Paging.missesIn config.setOf config.ways.toNat (config.blocksOf accesses) := by
  have hin : ∀ a, config.index a < config.numberOfSets.toNat := by
    obtain ⟨k, hk⟩ := hsets
    intro a
    rw [CacheConfig.index, (Cache.create_geometry config).setIndex h.indexed, h.numberOfSets_toNat]
    exact h.index_lt hk a
  obtain ⟨results, c, hall, hlength, hresults, _, hmisses⟩ :=
    Cache.create_accessAll h.ways hways hin accesses hlen
  have hserved : results.reverse =
      Paging.served config.setOf config.ways.toNat (config.blocksOf accesses) := by
    refine Paging.reverse_eq_served hlength (fun i a hi => ?_)
    rw [hresults i a.1 a.2 hi]
    refine congrArg some (decide_eq_decide.mpr ?_)
    rw [h.holds_iff hsets, CacheConfig.recentlyUsed_iff h.ways, List.map_map]
    rfl
  refine ⟨results, c, hall, hlength, hserved, ?_⟩
  rw [hmisses, ← Paging.count_false_served, ← hserved, List.count_reverse]

end

/-- **A set is a pager.** The results of the accesses to one set, the last one first, are those of
LRU paging with `ways` pages on the blocks of that set alone. -/
theorem access_inSet (config : CacheConfig) (h : config.Admitted)
    (hways : config.ways.toNat < 2 ^ 31) (hsets : ∃ k, config.setCount = 2 ^ k)
    (accesses : List (BitVec 64 × CacheOperation)) (hlen : accesses.length < 2 ^ 64) (i : Nat) :
    ∃ results c, (Cache.create config).accessAll accesses = some (results, c) ∧
      results.length = accesses.length ∧
      (((accesses.zip results).filter (fun p => config.setOf (config.blockOf p.1.1) = i)).map
          Prod.snd).reverse =
        Paging.hits config.ways.toNat (Paging.inSet config.setOf i (config.blocksOf accesses)) := by
  obtain ⟨results, c, hall, hlength, hserved, _⟩ := Cache.create_serves h hways hsets accesses hlen
  refine ⟨results, c, hall, hlength, ?_⟩
  have hzip : (config.blocksOf accesses).zip results.reverse =
      ((accesses.zip results).map (fun p => (config.blockOf p.1.1, p.2))).reverse := by
    rw [CacheConfig.blocksOf, List.zip, ← List.reverse_zipWith (by rw [List.length_map, hlength]),
      List.zipWith_map_left, List.zip, List.map_zipWith]
  rw [← Paging.served_inSet, ← hserved, hzip, List.filter_reverse, List.map_reverse,
    List.filter_map, List.map_map]
  rfl

/-- The accesses to the first set; block 4 drives out block 2, block 2 then block 4. -/
theorem access_inSet_sample : ∃ results c,
    (Cache.create twoSets).accessAll turns = some (results, c) ∧
      (((turns.zip results).filter (fun p => twoSets.setOf (twoSets.blockOf p.1.1) = 0)).map
          Prod.snd).reverse = [false, true, false, true, false, false] := by
  obtain ⟨results, c, hall, _, hhits⟩ := access_inSet twoSets twoSets_admitted (by decide)
    ⟨1, by decide⟩ turns (by decide) 0
  exact ⟨results, c, hall, hhits.trans (by decide)⟩

/-- **Misses.** The misses of the cache are the faults of LRU paging with `ways` pages on the blocks
of each set. So every block is missed once at least, and exactly once when no set is accessed in
more blocks than it has ways. -/
theorem access_misses (config : CacheConfig) (h : config.Admitted)
    (hways : config.ways.toNat < 2 ^ 31) (hsets : ∃ k, config.setCount = 2 ^ k)
    (accesses : List (BitVec 64 × CacheOperation)) (hlen : accesses.length < 2 ^ 64) :
    ∃ results c, (Cache.create config).accessAll accesses = some (results, c) ∧
      c.getMisses.toNat = ∑ i ∈ Finset.range config.setCount, Paging.misses config.ways.toNat
        (Paging.inSet config.setOf i (config.blocksOf accesses)) ∧
      (config.blocksOf accesses).toFinset.card ≤ c.getMisses.toNat ∧
      ((∀ i, (Paging.inSet config.setOf i (config.blocksOf accesses)).toFinset.card ≤
          config.ways.toNat) →
        c.getMisses.toNat = (config.blocksOf accesses).toFinset.card) := by
  obtain ⟨results, c, hall, _, _, hmisses⟩ := Cache.create_serves h hways hsets accesses hlen
  refine ⟨results, c, hall, ?_⟩
  rw [hmisses]
  exact ⟨Paging.missesIn_eq_sum _ (fun block _ => CacheConfig.setOf_mem hsets block),
    Paging.card_le_missesIn h.ways _, Paging.missesIn_eq_card h.ways⟩

/-- Four faults in the first set and one in the second, on four blocks. -/
theorem access_misses_sample : ∃ results c,
    (Cache.create twoSets).accessAll turns = some (results, c) ∧
      c.getMisses.toNat = 5 := by
  obtain ⟨results, c, hall, hsum, _⟩ := access_misses twoSets twoSets_admitted (by decide)
    ⟨1, by decide⟩ turns (by decide)
  exact ⟨results, c, hall, hsum.trans (by decide)⟩

/-- **LRU is competitive.** Let `m` be the misses of any other way of keeping at most `n` blocks
in each set, `n` no more than the ways: it fetches the block accessed, and chooses freely, even
knowing what is to come, which to throw out. The cache misses at most `ways / (ways + 1 - n)`
times as often, but for a constant for each set. -/
theorem access_competitive (config : CacheConfig) (h : config.Admitted)
    (hways : config.ways.toNat < 2 ^ 31) (hsets : ∃ k, config.setCount = 2 ^ k)
    (accesses : List (BitVec 64 × CacheOperation)) (hlen : accesses.length < 2 ^ 64)
    {n m : Nat} {held : Finset Nat} (hn : n ≤ config.ways.toNat)
    (hserves : Paging.Serves (Paging.FitsSets config.setOf n) (config.blocksOf accesses) held m) :
    ∃ results c, (Cache.create config).accessAll accesses = some (results, c) ∧
      (config.ways.toNat + 1 - n) * c.getMisses.toNat ≤
        config.ways.toNat * m + config.setCount * Paging.triangle (config.ways.toNat - n) := by
  obtain ⟨results, c, hall, _, _, hmisses⟩ := Cache.create_serves h hways hsets accesses hlen
  have hbound := hserves.competitive_sets hn h.ways (s := Finset.range config.setCount)
    (fun block _ => CacheConfig.setOf_mem hsets block)
  rw [Finset.card_range, ← hmisses] at hbound
  exact ⟨results, c, hall, hbound⟩

/-- Blocks 0, 2 and 4 twice in a row, and block 1 of the other set in between. -/
def repeatedTurns : List (BitVec 64 × CacheOperation) :=
  [(0#64, .cacheRead), (0#64, .cacheWrite), (1#64, .cacheRead), (2#64, .cacheRead),
    (2#64, .cacheRead), (4#64, .cacheRead), (4#64, .cacheRead), (0#64, .cacheRead),
    (0#64, .cacheRead), (1#64, .cacheRead)]

/-- With one line a set half of the ten accesses can hit, so with two lines a set the cache
misses no more than six. -/
theorem access_competitive_sample : ∃ results c,
    (Cache.create twoSets).accessAll repeatedTurns = some (results, c) ∧ c.getMisses.toNat ≤ 6 := by
  have hfits : ∀ held ∈ ({{0}, {0, 1}, {2, 1}, {4, 1}} : Finset (Finset Nat)),
      Paging.FitsSets twoSets.setOf 1 held :=
    fun held hh => Paging.fitsSets_iff.mpr (by revert held; decide)
  have hzero : Paging.Serves (Paging.FitsSets twoSets.setOf 1) [0, 0] {0} 1 :=
    (Paging.Serves.nil.use (by decide) (by decide) (hfits {0} (by decide))).use
      (by decide) (by decide) (hfits {0} (by decide))
  have htwo : Paging.Serves (Paging.FitsSets twoSets.setOf 1) [2, 2, 1, 0, 0] {2, 1} 3 :=
    ((hzero.use (by decide) (by decide) (hfits {0, 1} (by decide))).use
      (by decide) (by decide) (hfits {2, 1} (by decide))).use
        (by decide) (by decide) (hfits {2, 1} (by decide))
  have hfour : Paging.Serves (Paging.FitsSets twoSets.setOf 1) [4, 4, 2, 2, 1, 0, 0] {4, 1} 4 :=
    (htwo.use (by decide) (by decide) (hfits {4, 1} (by decide))).use
      (by decide) (by decide) (hfits {4, 1} (by decide))
  have hserves : Paging.Serves (Paging.FitsSets twoSets.setOf 1) [1, 0, 0, 4, 4, 2, 2, 1, 0, 0]
      {0, 1} 5 :=
    ((hfour.use (by decide) (by decide) (hfits {0, 1} (by decide))).use
      (by decide) (by decide) (hfits {0, 1} (by decide))).use
        (by decide) (by decide) (hfits {0, 1} (by decide))
  obtain ⟨results, c, hall, hbound⟩ := access_competitive twoSets twoSets_admitted (by decide)
    ⟨1, by decide⟩ repeatedTurns (by decide) (n := 1) (by decide) hserves
  have hways : twoSets.ways.toNat = 2 := by decide
  have hcount : twoSets.setCount = 2 := by decide
  have htriangle : Paging.triangle (2 - 1) = 1 := by decide
  rw [hways, hcount, htriangle] at hbound
  exact ⟨results, c, hall, by omega⟩

end CycleSim
