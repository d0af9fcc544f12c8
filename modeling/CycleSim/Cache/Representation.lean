import CycleSim.Cache.Inclusion

/-! The representation invariant of the cache.

An access stores one line: it hits and stamps the line it found, or fills the victim. Either
way the line gets the tag looked for and the next tick of the clock, and every way below it is
valid (`accessSet_stores`), which is what `Represents` needs to survive (`Represents.record`).
The clock counts the accesses, so it is only while there are fewer than 2^64 of them that the
stamps stay apart (`access_represents`). -/
namespace CycleSim

/-- The line in a way of a set. -/
def Cache.At (c : Cache) (i way : Nat) (line : CacheLine) : Prop :=
  ∃ lines, c.sets[i]? = some lines ∧ lines[way]? = some line

/-- No set holds a block twice. -/
def Cache.NoDuplicates (c : Cache) : Prop :=
  ∀ ⦃i j k x y⦄, c.At i j x → c.At i k y → x.isValid = true → y.isValid = true → x.tag = y.tag →
    j = k

/-- In each set the valid lines have different tags and come first; over the whole cache they
have different stamps, from 1 to the clock, which counts hits and misses. -/
structure Cache.Represents (c : Cache) : Prop where
  tags : c.NoDuplicates
  leading : ∀ ⦃i j k x y⦄, c.At i j x → c.At i k y → j < k → y.isValid = true → x.isValid = true
  stamps : ∀ ⦃i j i' j' x y⦄, c.At i j x → c.At i' j' y → x.isValid = true → y.isValid = true →
    x.lruTimestamp = y.lruTimestamp → i = i' ∧ j = j'
  nonzero : ∀ ⦃i j x⦄, c.At i j x → x.isValid = true → x.lruTimestamp ≠ 0#64
  le : ∀ ⦃i j x⦄, c.At i j x → x.isValid = true → x.lruTimestamp ≤ c.lruClock
  clock : c.lruClock.toNat = c.hits.toNat + c.misses.toNat

section
variable {config : CacheConfig} {c : Cache}

/-! ### One access -/

theorem Cache.at_iff {i j : Nat} {lines : List CacheLine} (hlines : c.sets[i]? = some lines)
    {x : CacheLine} : c.At i j x ↔ lines[j]? = some x := by
  simp only [Cache.At, hlines, Option.some.injEq, exists_eq_left']

/-- Where the lines are after one is stored. -/
theorem Cache.at_record {setIndex : BitVec 64} {lines : List CacheLine}
    (hlines : c.sets[setIndex.toNat]? = some lines) {way : Nat} (hway : way < lines.length)
    (hit : Bool) (line : CacheLine) {i j : Nat} {x : CacheLine} :
    (c.record setIndex hit (lines.set way line)).At i j x ↔
      if i = setIndex.toNat ∧ j = way then x = line else c.At i j x := by
  have hin := (List.getElem?_eq_some_iff.mp hlines).1
  show (∃ l, (c.sets.set setIndex.toNat (lines.set way line))[i]? = some l ∧ l[j]? = some x) ↔ _
  by_cases hi : i = setIndex.toNat
  · subst hi
    simp only [List.getElem?_set_self hin, Option.some.injEq, exists_eq_left', true_and,
      Cache.at_iff hlines]
    by_cases hj : j = way
    · subst hj
      rw [List.getElem?_set_self hway, if_pos rfl, Option.some.injEq, eq_comm]
    · rw [List.getElem?_set_ne (Ne.symm hj), if_neg hj]
  · rw [List.getElem?_set_ne (Ne.symm hi), if_neg (fun h => hi h.1)]
    rfl

section
variable {setIndex : BitVec 64} {lines : List CacheLine} {way : Nat} {tag : BitVec 64}

/-- A line stored where no other line of the set has its tag. -/
theorem Cache.NoDuplicates.record (h : c.NoDuplicates)
    (hlines : c.sets[setIndex.toNat]? = some lines) (hway : way < lines.length)
    (htag : ∀ {j x}, c.At setIndex.toNat j x → x.isValid = true → x.tag = tag → j = way)
    (hit : Bool) (clock : BitVec 64) :
    (c.record setIndex hit (lines.set way ⟨true, tag, clock⟩)).NoDuplicates := by
  intro i j k x y hx hy hxv hyv heq
  rw [Cache.at_record hlines hway] at hx hy
  split_ifs at hx hy with hj hk hk
  · exact hj.2.trans hk.2.symm
  · obtain ⟨rfl, rfl⟩ := hj
    exact (htag hy hyv (heq.symm.trans (congrArg CacheLine.tag hx))).symm
  · obtain ⟨rfl, rfl⟩ := hk
    exact htag hx hxv (heq.trans (congrArg CacheLine.tag hy))
  · exact h hx hy hxv hyv heq

/-- The invariant survives a line stored over a valid line, or in the first way that is not
valid. -/
theorem Cache.Represents.record (h : c.Represents)
    (hlines : c.sets[setIndex.toNat]? = some lines) (hway : way < lines.length)
    (hbelow : ∀ {j x}, c.At setIndex.toNat j x → j < way → x.isValid = true)
    (htag : ∀ {j x}, c.At setIndex.toNat j x → x.isValid = true → x.tag = tag → j = way)
    (hclock : c.lruClock.toNat + 1 < 2 ^ 64) (hit : Bool) :
    (c.record setIndex hit (lines.set way ⟨true, tag, c.lruClock + 1#64⟩)).Represents := by
  have hat := @Cache.at_record c setIndex lines hlines way hway hit ⟨true, tag, c.lruClock + 1#64⟩
  have hlater : ∀ {i j x}, c.At i j x → x.isValid = true → x.lruTimestamp ≠ c.lruClock + 1#64 := by
    intro i j x hx hv heq
    have hle := h.le hx hv
    bv_omega
  refine ⟨h.tags.record hlines hway htag hit _, ?_, ?_, ?_, ?_, ?_⟩
  · intro i j k x y hx hy hlt hyv
    rw [hat] at hx hy
    split_ifs at hx hy with hj hk hk
    · exact congrArg CacheLine.isValid hx
    · exact congrArg CacheLine.isValid hx
    · obtain ⟨rfl, rfl⟩ := hk
      exact hbelow hx hlt
    · exact h.leading hx hy hlt hyv
  · intro i j i' j' x y hx hy hxv hyv heq
    rw [hat] at hx hy
    split_ifs at hx hy with hj hk hk
    · exact ⟨hj.1.trans hk.1.symm, hj.2.trans hk.2.symm⟩
    · exact absurd (heq.symm.trans (congrArg CacheLine.lruTimestamp hx)) (hlater hy hyv)
    · exact absurd (heq.trans (congrArg CacheLine.lruTimestamp hy)) (hlater hx hxv)
    · exact h.stamps hx hy hxv hyv heq
  · intro i j x hx hxv
    rw [hat] at hx
    split_ifs at hx with hj
    · rw [hx]
      show c.lruClock + 1#64 ≠ 0#64
      bv_omega
    · exact h.nonzero hx hxv
  · intro i j x hx hxv
    rw [hat] at hx
    show x.lruTimestamp ≤ c.lruClock + 1#64
    split_ifs at hx with hj
    · rw [hx]
      exact BitVec.le_refl _
    · have hle := h.le hx hxv
      bv_omega
  · have hcount := h.clock
    show (c.lruClock + 1#64).toNat = (if hit then c.hits + 1#64 else c.hits).toNat +
      (if hit then c.misses else c.misses + 1#64).toNat
    cases hit <;> simp only [Bool.false_eq_true, if_true, if_false] <;> bv_omega

end

/-- An access stores a line in the set of its address. -/
theorem Cache.Geometry.access_stores (hc : c.Geometry config) (hpos : 0 < config.ways.toNat)
    (hways : config.ways.toNat < 2 ^ 31) {a : BitVec 64}
    (hin : config.index a < config.numberOfSets.toNat) (readWrite : CacheOperation) :
    ∃ lines hit way old, c.sets[(c.getIndexAndTag a).1.toNat]? = some lines ∧
      lines[way]? = some old ∧
      c.access a readWrite = some (hit, c.record (c.getIndexAndTag a).1 hit
        (lines.set way ⟨true, config.tag a, c.lruClock + 1#64⟩)) ∧
      (hit = true ∧ old.isValid = true ∧ old.tag = config.tag a ∨ hit = false ∧
        (¬∃ line ∈ lines, line.isValid = true ∧ line.tag = config.tag a) ∧
          victimIndex lines c.wayBound = some way) := by
  obtain ⟨lines, hit, lines', hlines, hne, hbound, _, hset, haccess, _⟩ :=
    hc.access_set hpos hways hin readWrite
  obtain ⟨hit', way, old, hold, hstore, hcase⟩ :=
    accessSet_stores hne (config.tag a) (c.lruClock + 1#64)
  rw [hstore] at hset
  obtain ⟨rfl, rfl⟩ := Prod.mk.inj (Option.some.inj hset)
  rw [hbound]
  exact ⟨lines, hit', way, old, hlines, hold, haccess, hcase⟩

/-- One access keeps the invariant, while the clock does not wrap round. -/
theorem Cache.Represents.access (h : c.Represents) (hc : c.Geometry config)
    (hpos : 0 < config.ways.toNat) (hways : config.ways.toNat < 2 ^ 31)
    (hclock : c.lruClock.toNat + 1 < 2 ^ 64) {a : BitVec 64}
    (hin : config.index a < config.numberOfSets.toNat) (readWrite : CacheOperation) :
    ∃ hit c', c.access a readWrite = some (hit, c') ∧ c'.Represents ∧ c'.Geometry config ∧
      c'.lruClock = c.lruClock + 1#64 := by
  obtain ⟨lines, hit, way, old, hlines, hold, haccess, hcase⟩ :=
    hc.access_stores hpos hways hin readWrite
  have hway := (List.getElem?_eq_some_iff.mp hold).1
  have hlength : lines.length = config.ways.toNat := hc.ways lines (List.mem_of_getElem? hlines)
  refine ⟨hit, _, haccess, h.record hlines hway ?_ ?_ hclock hit,
    hc.record _ _ ((List.length_set ..).trans hlength), rfl⟩
  · intro j x hx hj
    rcases hcase with ⟨_, hv, _⟩ | ⟨_, _, hvictim⟩
    · exact h.leading hx ((Cache.at_iff hlines).mpr hold) hj hv
    · rw [hc.wayBound hways, ← hlength] at hvictim
      obtain ⟨_, _, hbefore, _⟩ := victimIndex_eq_some hvictim
      exact hbefore j x hj ((Cache.at_iff hlines).mp hx)
  · intro j x hx hv ht
    rcases hcase with ⟨_, hov, hot⟩ | ⟨_, hmiss, _⟩
    · exact h.tags hx ((Cache.at_iff hlines).mpr hold) hv hov (ht.trans hot.symm)
    · exact absurd ⟨x, List.mem_of_getElem? ((Cache.at_iff hlines).mp hx), hv, ht⟩ hmiss

/-! ### What the invariant is for -/

/-- The cache holds the block of an address. -/
def Cache.Contains (c : Cache) (config : CacheConfig) (a : BitVec 64) : Prop :=
  ∃ way line, c.At (config.index a) way line ∧ line.isValid = true ∧ line.tag = config.tag a

/-- The probe finds the only line of a block, a full set has one line to evict, and a fill
replaces the block of its victim by the one looked for. -/
structure Cache.Unambiguous (c : Cache) (config : CacheConfig) : Prop where
  probe : ∀ (i way : Nat) lines tag, c.sets[i]? = some lines →
    (hitLineIndex lines c.wayBound tag = some way ↔
      ∃ line, lines[way]? = some line ∧ line.isValid = true ∧ line.tag = tag)
  victim : ∀ (i : Nat) lines, c.sets[i]? = some lines → (∀ x ∈ lines, x.isValid = true) →
    ∃ way oldest, victimIndex lines c.wayBound = some way ∧ lines[way]? = some oldest ∧
      ∀ (j : Nat) x, lines[j]? = some x → j ≠ way → oldest.lruTimestamp < x.lruTimestamp
  fill : ∀ address readWrite c', c.access address readWrite = some (false, c') →
    ¬c.Contains config address ∧ c'.NoDuplicates ∧ ∃ lines way victim,
      c.sets[config.index address]? = some lines ∧ victimIndex lines c.wayBound = some way ∧
      lines[way]? = some victim ∧ ∀ a, c'.Contains config a ↔
        config.blockOf a = config.blockOf address ∨ c.Contains config a ∧
          ¬(config.index a = config.index address ∧ victim.isValid = true ∧
            config.tag a = victim.tag)

theorem Cache.Represents.probe (h : c.Represents) {i : Nat} {lines : List CacheLine}
    (hlines : c.sets[i]? = some lines) (tag : BitVec 64) (way : Nat) :
    hitLineIndex lines lines.length tag = some way ↔
      ∃ line, lines[way]? = some line ∧ line.isValid = true ∧ line.tag = tag := by
  refine ⟨hitLineIndex_eq_some, fun ⟨line, hline, hv, ht⟩ => ?_⟩
  cases hhit : hitLineIndex lines lines.length tag with
  | none => exact absurd ⟨line, List.mem_of_getElem? hline, hv, ht⟩ (hitLineIndex_eq_none hhit)
  | some way' =>
    obtain ⟨line', hline', hv', ht'⟩ := hitLineIndex_eq_some hhit
    rw [h.tags ((at_iff hlines).mpr hline') ((at_iff hlines).mpr hline) hv' hv (ht'.trans ht.symm)]

theorem Cache.Represents.victim (h : c.Represents) {i : Nat} {lines : List CacheLine}
    (hlines : c.sets[i]? = some lines) (hne : lines ≠ []) (hall : ∀ x ∈ lines, x.isValid = true) :
    ∃ way oldest, victimIndex lines lines.length = some way ∧ lines[way]? = some oldest ∧
      ∀ (j : Nat) x, lines[j]? = some x → j ≠ way → oldest.lruTimestamp < x.lruTimestamp := by
  obtain ⟨way, hway⟩ := Option.isSome_iff_exists.mp (victimIndex_isSome hne lines.length)
  obtain ⟨oldest, hold, _, hcase⟩ := victimIndex_eq_some hway
  have hov : oldest.isValid = true := hall _ (List.mem_of_getElem? hold)
  refine ⟨way, oldest, hway, hold, fun j x hx hj => ?_⟩
  have hle : oldest.lruTimestamp ≤ x.lruTimestamp := by
    rcases hcase with hv | ⟨_, hmin⟩
    · rw [hov] at hv
      cases hv
    · exact hmin x (List.mem_of_getElem? hx)
  have hneq : oldest.lruTimestamp ≠ x.lruTimestamp := by
    intro heq
    exact hj (h.stamps ((at_iff hlines).mpr hold) ((at_iff hlines).mpr hx) hov
      (hall _ (List.mem_of_getElem? hx)) heq).2.symm
  bv_omega

/-- No shift of `getIndexAndTag` is by 64 bits or more, which the source leaves undefined. -/
theorem CacheConfig.shift_le (hblock : ∃ b, config.blockSize.toNat = 2 ^ b)
    (hsets : ∃ k, config.numberOfSets.toNat = 2 ^ k) :
    config.blockOffsetBits + config.setIndexBits ≤ 63 := by
  obtain ⟨b, hb⟩ := hblock
  obtain ⟨k, hk⟩ := hsets
  have hbits := log2u64_of_pow hb
  rw [blockOffsetBits, setIndexBits, hbits.2, (log2u64_of_pow hk).2]
  have hdiv : config.cacheSize.toNat / (config.blockSize * config.ways).toNat = 2 ^ k := by
    rw [← hk, numberOfSets, BitVec.toNat_udiv]
  have hdvd : 2 ^ b ∣ (config.blockSize * config.ways).toNat := by
    rw [BitVec.toNat_mul, hb, Nat.dvd_mod_iff (Nat.pow_dvd_pow 2 (by omega))]
    exact Nat.dvd_mul_right _ _
  have hpos : 0 < (config.blockSize * config.ways).toNat := by
    refine Nat.pos_of_ne_zero (fun hzero => ?_)
    rw [hzero, Nat.div_zero] at hdiv
    exact absurd hdiv.symm (Nat.two_pow_pos k).ne'
  have hlt : 2 ^ (b + k) < 2 ^ 64 := by
    calc 2 ^ (b + k) = 2 ^ b * 2 ^ k := Nat.pow_add 2 b k
      _ ≤ (config.blockSize * config.ways).toNat * 2 ^ k :=
        Nat.mul_le_mul_right _ (Nat.le_of_dvd hpos hdvd)
      _ ≤ config.cacheSize.toNat := by
        rw [← hdiv]
        exact Nat.mul_div_le _ _
      _ < 2 ^ 64 := config.cacheSize.isLt
  exact Nat.lt_succ_iff.mp ((Nat.pow_lt_pow_iff_right (by decide)).mp hlt)

theorem CacheConfig.indexed (hblock : ∃ b, config.blockSize.toNat = 2 ^ b)
    (hsets : ∃ k, config.numberOfSets.toNat = 2 ^ k) : config.Indexed where
  blockSize_eq := by
    obtain ⟨b, hb⟩ := hblock
    rw [blockOffsetBits, (log2u64_of_pow hb).2, hb]
  setIndexBits_le := Nat.le_trans (Nat.le_add_left _ _) (shift_le hblock hsets)

/-- Index and tag name the block. -/
theorem CacheConfig.Indexed.blockOf_eq_iff (h : config.Indexed) (a b : BitVec 64) :
    config.blockOf a = config.blockOf b ↔
      config.index a = config.index b ∧ config.tag a = config.tag b := by
  rw [← (Cache.create_geometry config).getIndexAndTag_eq_iff h, Prod.ext_iff]
  exact and_congr_left' BitVec.toNat_inj.symm

/-- The blocks held after a line is stored over the victim. -/
theorem Cache.NoDuplicates.contains_record (h : c.NoDuplicates) (hi : config.Indexed)
    {setIndex : BitVec 64} {lines : List CacheLine} {address : BitVec 64}
    (hindex : setIndex.toNat = config.index address)
    (hlines : c.sets[setIndex.toNat]? = some lines) {way : Nat} {victim : CacheLine}
    (hvictim : lines[way]? = some victim) (clock : BitVec 64) (a : BitVec 64) :
    (c.record setIndex false (lines.set way ⟨true, config.tag address, clock⟩)).Contains config a ↔
      config.blockOf a = config.blockOf address ∨ c.Contains config a ∧
        ¬(config.index a = config.index address ∧ victim.isValid = true ∧
          config.tag a = victim.tag) := by
  have hway := (List.getElem?_eq_some_iff.mp hvictim).1
  have hatVictim : c.At setIndex.toNat way victim := (at_iff hlines).mpr hvictim
  simp only [Contains, at_record hlines hway, hi.blockOf_eq_iff, ← hindex]
  constructor
  · intro ⟨j, line, hline, hv, ht⟩
    split_ifs at hline with hj
    · exact .inl ⟨hj.1, ht.symm.trans (congrArg CacheLine.tag hline)⟩
    · refine .inr ⟨⟨j, line, hline, hv, ht⟩, fun ⟨hsame, hvv, htv⟩ => hj ⟨hsame, ?_⟩⟩
      rw [hsame] at hline
      exact h hline hatVictim hv hvv (ht.trans htv)
  · rintro (⟨hsame, htag⟩ | ⟨⟨j, line, hline, hv, ht⟩, hnot⟩)
    · exact ⟨way, _, by rw [if_pos ⟨hsame, rfl⟩], rfl, htag.symm⟩
    · refine ⟨j, line, ?_, hv, ht⟩
      rw [if_neg]
      · exact hline
      · intro ⟨hsame, hj⟩
        subst hj
        rw [hsame, at_iff hlines, hvictim] at hline
        obtain rfl := Option.some.inj hline
        exact hnot ⟨hsame, hv, ht.symm⟩

theorem Cache.Represents.unambiguous (h : c.Represents) (hc : c.Geometry config)
    (hi : config.Indexed) (hpos : 0 < config.ways.toNat) (hways : config.ways.toNat < 2 ^ 31)
    (hin : ∀ a, config.index a < config.numberOfSets.toNat) : c.Unambiguous config := by
  have hbound : ∀ {i : Nat} {lines}, c.sets[i]? = some lines → c.wayBound = lines.length := by
    intro i lines hlines
    rw [hc.wayBound hways, hc.ways lines (List.mem_of_getElem? hlines)]
  have hne : ∀ {i : Nat} {lines}, c.sets[i]? = some lines → lines ≠ [] := by
    intro i lines hlines hnil
    have hlength := hc.ways lines (List.mem_of_getElem? hlines)
    simp [← hlength, hnil] at hpos
  constructor
  · intro i way lines tag hlines
    rw [hbound hlines]
    exact h.probe hlines tag way
  · intro i lines hlines hall
    rw [hbound hlines]
    exact h.victim hlines (hne hlines) hall
  · intro address readWrite c' haccess
    have hindex := hc.index_eq address
    obtain ⟨lines, hit, way, victim, hlines, hvictim, haccess', hcase⟩ :=
      hc.access_stores hpos hways (hin address) readWrite
    rw [haccess] at haccess'
    obtain ⟨rfl, rfl⟩ := Prod.mk.inj (Option.some.inj haccess')
    obtain ⟨_, hmiss, hway⟩ := hcase.resolve_left (fun hhit => nomatch hhit.1)
    have hnone : ∀ {j x}, c.At (c.getIndexAndTag address).1.toNat j x → x.isValid = true →
        x.tag ≠ config.tag address := by
      intro j x hx hv ht
      exact hmiss ⟨x, List.mem_of_getElem? ((at_iff hlines).mp hx), hv, ht⟩
    refine ⟨?_, ?_, lines, way, victim, hindex ▸ hlines, hway, hvictim,
      h.tags.contains_record hi hindex hlines hvictim _⟩
    · intro ⟨j, x, hx, hv, ht⟩
      exact hnone (hindex ▸ hx) hv ht
    · exact h.tags.record hlines (List.getElem?_eq_some_iff.mp hvictim).1
        (fun hx hv ht => absurd ht (hnone hx hv)) _ _

/-! ### Every sequence of accesses -/

theorem Cache.create_represents (config : CacheConfig) : (Cache.create config).Represents := by
  have hfresh : ∀ {i j x}, (Cache.create config).At i j x → ¬x.isValid = true := by
    intro i j x ⟨lines, hlines, hx⟩
    rw [List.eq_of_mem_replicate (List.mem_of_getElem? hlines)] at hx
    rw [List.eq_of_mem_replicate (List.mem_of_getElem? hx)]
    decide
  constructor
  case tags =>
    intro i j k x y hx _ hv
    exact absurd hv (hfresh hx)
  case leading =>
    intro i j k x y _ hy _ hv
    exact absurd hv (hfresh hy)
  case stamps =>
    intro i j i' j' x y hx _ hv
    exact absurd hv (hfresh hx)
  case nonzero =>
    intro i j x hx hv
    exact absurd hv (hfresh hx)
  case le =>
    intro i j x hx hv
    exact absurd hv (hfresh hx)
  case clock => rfl

theorem Cache.Represents.accessAll (h : c.Represents) (hc : c.Geometry config)
    (hpos : 0 < config.ways.toNat) (hways : config.ways.toNat < 2 ^ 31)
    (hin : ∀ a, config.index a < config.numberOfSets.toNat)
    (accesses : List (BitVec 64 × CacheOperation))
    (hclock : c.lruClock.toNat + accesses.length < 2 ^ 64) :
    ∃ results c', c.accessAll accesses = some (results, c') ∧ c'.Represents ∧
      c'.Geometry config ∧ c'.lruClock.toNat = c.lruClock.toNat + accesses.length := by
  have hstep : ∀ n (c : Cache) address readWrite, n < 2 ^ 64 - 1 →
      c.Represents ∧ c.Geometry config ∧ c.lruClock.toNat = n →
      ∃ hit c', c.access address readWrite = some (hit, c') ∧
        c'.Represents ∧ c'.Geometry config ∧ c'.lruClock.toNat = n + 1 := by
    intro n c address readWrite hn h
    obtain ⟨h, hc, hclock⟩ := h
    obtain ⟨hit, c', haccess, h', hc', htick⟩ :=
      h.access hc hpos hways (by omega) (hin address) readWrite
    refine ⟨hit, c', haccess, h', hc', ?_⟩
    rw [htick]
    bv_omega
  exact Cache.accessAll_keeps hstep accesses (by omega) ⟨h, hc, rfl⟩

end

/-- **The representation invariant.** It holds of a cache with a power of two of sets after any
fewer than 2^64 accesses. So the probe finds at most one way, a full set has one victim, and a
fill leaves every other block where it is. -/
theorem access_represents (config : CacheConfig) (hblock : ∃ b, config.blockSize.toNat = 2 ^ b)
    (hsets : ∃ k, config.numberOfSets.toNat = 2 ^ k) (hpos : 1 ≤ config.ways.toNat)
    (hways : config.ways.toNat < 2 ^ 31) (accesses : List (BitVec 64 × CacheOperation))
    (hlen : accesses.length < 2 ^ 64) :
    ∃ results c, (Cache.create config).accessAll accesses = some (results, c) ∧ c.Represents ∧
      c.lruClock.toNat = accesses.length ∧ c.Unambiguous config := by
  have hin := CacheConfig.index_lt hsets
  have hzero : (Cache.create config).lruClock.toNat = 0 := rfl
  obtain ⟨results, c, hall, h, hc, hclock⟩ := (Cache.create_represents config).accessAll
    (Cache.create_geometry config) hpos hways hin accesses (by omega)
  refine ⟨results, c, hall, h, by omega, ?_⟩
  exact h.unambiguous hc (CacheConfig.indexed hblock hsets) hpos hways hin

/-- One set of two lines: the second fill takes the second way. -/
theorem access_represents_sample : ∃ results c, (Cache.create ⟨2#64, 1#64, 2#64⟩).accessAll
      [(0#64, .cacheRead), (1#64, .cacheWrite), (0#64, .cacheRead)] = some (results, c) ∧
    c.Represents ∧ c.lruClock.toNat = 3 := by
  obtain ⟨results, c, hall, h, hclock, _⟩ := access_represents ⟨2#64, 1#64, 2#64⟩ ⟨0, by decide⟩
    ⟨0, by decide⟩ (by decide) (by decide)
    [(0#64, .cacheRead), (1#64, .cacheWrite), (0#64, .cacheRead)] (by decide)
  exact ⟨results, c, hall, h, hclock⟩

end CycleSim
