import CycleSim.Cache.Lru

/-! More ways never miss more.

Two caches with the same blocks and the same sets give every address the same set and tag,
so they differ only in how many of the last tags of a set they keep. What the smaller one
holds the larger one holds too, after any accesses (`access_inclusion`), although the two
evict different lines at different times. -/
namespace CycleSim

section
variable {config config' : CacheConfig}

/-- Two configurations with the same blocks and the same sets. -/
structure CacheConfig.SameSets (config config' : CacheConfig) : Prop where
  blockSize : config.blockSize = config'.blockSize
  numberOfSets : config.numberOfSets = config'.numberOfSets

theorem CacheConfig.SameSets.getIndexAndTag_eq (h : config.SameSets config') (address : BitVec 64) :
    (Cache.create config).getIndexAndTag address =
      (Cache.create config').getIndexAndTag address := by
  have hblock : config.blockOffsetBits = config'.blockOffsetBits := congrArg log2u64 h.blockSize
  have hset : config.setIndexBits = config'.setIndexBits := congrArg log2u64 h.numberOfSets
  show ((address >>> config.blockOffsetBits) &&& maskForBits config.setIndexBits,
    address >>> (config.blockOffsetBits + config.setIndexBits)) = _
  rw [hblock, hset]
  rfl

theorem CacheConfig.SameSets.index_eq (h : config.SameSets config') :
    config.index = config'.index := by
  funext address
  exact congrArg (fun p => p.1.toNat) (h.getIndexAndTag_eq address)

theorem CacheConfig.SameSets.tag_eq (h : config.SameSets config') : config.tag = config'.tag := by
  funext address
  exact congrArg Prod.snd (h.getIndexAndTag_eq address)

/-- What a set of the smaller cache holds, the same set of the larger one holds. -/
theorem CacheConfig.SameSets.holds (h : config.SameSets config') (hpos : 0 < config.ways.toNat)
    (hle : config.ways.toNat ≤ config'.ways.toNat) {history : List (BitVec 64)} {address : BitVec 64}
    (hh : config.Holds history address) : config'.Holds history address := by
  have htags : config.tagsOf (config.index address) history =
      config'.tagsOf (config'.index address) history := by
    simp only [CacheConfig.tagsOf, h.index_eq, h.tag_eq]
  unfold CacheConfig.Holds at hh ⊢
  rw [htags, h.tag_eq] at hh
  exact Recency.recent_subset hpos hle _ hh

theorem CacheConfig.index_lt (hsets : ∃ k, config.numberOfSets.toNat = 2 ^ k) (address : BitVec 64) :
    config.index address < config.numberOfSets.toNat := by
  obtain ⟨k, hk⟩ := hsets
  obtain ⟨hk63, hbits⟩ := log2u64_of_pow hk
  show ((address >>> config.blockOffsetBits) &&& maskForBits config.setIndexBits).toNat < _
  rw [BitVec.toNat_and, CacheConfig.setIndexBits, hbits, maskForBits_toNat hk63, Nat.and_two_pow_sub_one_eq_mod, hk]
  exact Nat.mod_lt _ (Nat.two_pow_pos k)

end

/-- Results that hit wherever others do have no more misses. -/
theorem count_false_le {results results' : List Bool} (hlen : results.length = results'.length)
    (h : ∀ i : Nat, results[i]? = some true → results'[i]? = some true) :
    results'.count false ≤ results.count false := by
  induction results generalizing results' with
  | nil =>
    obtain rfl : results' = [] := List.eq_nil_of_length_eq_zero hlen.symm
    exact Nat.le_refl _
  | cons hit results ih =>
    cases results' with
    | nil => cases hlen
    | cons hit' results' =>
      have hrest := ih (Nat.succ.inj hlen) (fun i hi => h (i + 1) hi)
      cases hit with
      | true =>
        obtain rfl : hit' = true := Option.some.inj (h 0 rfl)
        simpa using hrest
      | false =>
        rw [List.count_cons_self, List.count_cons]
        split <;> omega

/-- **LRU inclusion.** Of two fresh caches with the same blocks and the same power of two of
sets, accessed alike, the one with more ways hits whenever the other does, and never misses
more. -/
theorem access_inclusion (config config' : CacheConfig) (hsame : config.SameSets config')
    (hsets : ∃ k, config.numberOfSets.toNat = 2 ^ k) (hpos : 0 < config.ways.toNat)
    (hle : config.ways.toNat ≤ config'.ways.toNat) (hways : config'.ways.toNat < 2 ^ 31)
    (accesses : List (BitVec 64 × CacheOperation)) (hlen : accesses.length < 2 ^ 64) :
    ∃ results c results' c', (Cache.create config).accessAll accesses = some (results, c) ∧
      (Cache.create config').accessAll accesses = some (results', c') ∧
      results.length = accesses.length ∧ results'.length = accesses.length ∧
      (∀ i : Nat, results[i]? = some true → results'[i]? = some true) ∧
      c'.getMisses.toNat ≤ c.getMisses.toNat := by
  have hsets' : ∃ k, config'.numberOfSets.toNat = 2 ^ k := hsame.numberOfSets ▸ hsets
  obtain ⟨results, c, hall, hlength, hresults, _, hmisses⟩ := Cache.create_accessAll hpos
    (Nat.lt_of_le_of_lt hle hways) (CacheConfig.index_lt hsets) accesses hlen
  obtain ⟨results', c', hall', hlength', hresults', _, hmisses'⟩ := Cache.create_accessAll
    (Nat.lt_of_lt_of_le hpos hle) hways (CacheConfig.index_lt hsets') accesses hlen
  have hhit : ∀ i : Nat, results[i]? = some true → results'[i]? = some true := by
    intro i hi
    have hlt : i < accesses.length := hlength ▸ (List.getElem?_eq_some_iff.mp hi).1
    have haccess := List.getElem?_eq_getElem hlt
    rw [hresults i _ _ haccess] at hi
    have hholds := of_decide_eq_true (Option.some.inj hi)
    rw [hresults' i _ _ haccess, decide_eq_true (hsame.holds hpos hle hholds)]
  refine ⟨results, c, results', c', hall, hall', hlength, hlength', hhit, ?_⟩
  rw [hmisses, hmisses']
  exact count_false_le (hlength.trans hlength'.symm) hhit

/-- Two sets of one and of two lines of a byte. The last access hits the first cache, so it hits
the second; the fourth hits the second only. -/
theorem access_inclusion_sample : ∃ results c results' c',
    (Cache.create ⟨2#64, 1#64, 1#64⟩).accessAll turns = some (results, c) ∧
      (Cache.create twoSets).accessAll turns = some (results', c') ∧
      results = [false, false, false, false, false, false, false, true] ∧
      results'[7]? = some true ∧ results'[3]? = some true ∧
      c'.getMisses.toNat ≤ c.getMisses.toNat := by
  obtain ⟨results, c, results', c', hall, hall', _, _, hhits, hmisses⟩ :=
    access_inclusion ⟨2#64, 1#64, 1#64⟩ twoSets ⟨by decide, by decide⟩ ⟨1, by decide⟩
      (by decide) (by decide) (by decide) turns (by decide)
  have hsmall : ((Cache.create ⟨2#64, 1#64, 1#64⟩).accessAll turns).map Prod.fst =
      some [false, false, false, false, false, false, false, true] := by decide
  have hlarge : ((Cache.create twoSets).accessAll turns).bind (fun r => r.1[3]?) = some true := by
    decide
  rw [hall] at hsmall
  rw [hall'] at hlarge
  have hresults : results = [false, false, false, false, false, false, false, true] :=
    Option.some.inj hsmall
  exact ⟨results, c, results', c', hall, hall', hresults, hhits 7 (by rw [hresults]; rfl), hlarge,
    hmisses⟩

end CycleSim
