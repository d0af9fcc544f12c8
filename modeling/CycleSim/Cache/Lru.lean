import CycleSim.Cache.Geometry
import CycleSim.Lib.Recency
import Mathlib.Data.Bool.Count

/-! The replacement is true LRU.

The valid lines of a set, ordered by timestamp, carry the tags most recently used in it
(`Ranked`, `Ranked.access`); the clock is shared by all sets but only its order matters.
So an access hits while fewer than `ways` distinct blocks of its set have been accessed
since the last access to its own (`access_lru`). -/
namespace CycleSim

/-- `order` lists the valid lines of a set, most recently used first. -/
structure Ranked (lines order : List CacheLine) (clock : BitVec 64) : Prop where
  perm : order.Perm (lines.filter CacheLine.isValid)
  sorted : order.Pairwise (fun x y => y.lruTimestamp < x.lruTimestamp)
  le : ∀ line ∈ order, line.lruTimestamp ≤ clock
  nodup : (order.map CacheLine.tag).Nodup

section
variable {lines order : List CacheLine} {clock tag : BitVec 64} {bound way : Nat}

theorem Ranked.mem_tags (h : Ranked lines order clock) : tag ∈ order.map CacheLine.tag ↔
    ∃ line ∈ lines, line.isValid = true ∧ line.tag = tag := by
  simp only [List.mem_map, h.perm.mem_iff, List.mem_filter, and_assoc]

theorem Ranked.later (h : Ranked lines order clock) {clock' : BitVec 64} (hle : clock ≤ clock') :
    Ranked lines order clock' :=
  ⟨h.perm, h.sorted, fun line hl => BitVec.le_trans (h.le line hl) hle, h.nodup⟩

theorem length_filter_eraseIdx (h : way < lines.length) :
    ((lines.eraseIdx way).filter CacheLine.isValid).length ≤ lines.length - 1 := by
  rw [← List.length_eraseIdx_of_lt h]
  exact List.length_filter_le ..

/-- A line is replaced by one just used: what must remain of the others are the most
recent ones with another tag. -/
theorem Ranked.replace (h : Ranked lines order clock) (hclock : clock < clock + 1#64)
    (hway : way < lines.length)
    (hrest : ((order.filter (fun x => x.tag ≠ tag)).take (bound - 1)).Perm
      ((lines.eraseIdx way).filter CacheLine.isValid)) :
    ∃ order', Ranked (lines.set way ⟨true, tag, clock + 1#64⟩) order' (clock + 1#64) ∧
      order'.map CacheLine.tag =
        Recency.touch bound tag (order.map CacheLine.tag) := by
  have hsub : ((order.filter (fun x => x.tag ≠ tag)).take (bound - 1)).Sublist order :=
    (List.take_sublist ..).trans List.filter_sublist
  have htags : ((order.filter (fun x => x.tag ≠ tag)).take (bound - 1)).map CacheLine.tag =
      ((order.map CacheLine.tag).filter (fun x => x ≠ tag)).take (bound - 1) := by
    rw [List.map_take, List.filter_map]
    rfl
  refine ⟨⟨true, tag, clock + 1#64⟩ :: (order.filter (fun x => x.tag ≠ tag)).take (bound - 1),
    ⟨?_, ?_, ?_, ?_⟩, ?_⟩
  · have hset := (List.set_perm_cons_eraseIdx hway ⟨true, tag, clock + 1#64⟩).filter
      CacheLine.isValid
    rw [List.filter_cons_of_pos rfl] at hset
    exact (hrest.cons _).trans hset.symm
  · refine List.pairwise_cons.mpr ⟨fun x hx => ?_, h.sorted.sublist hsub⟩
    have hle := h.le x (hsub.subset hx)
    bv_omega
  · intro x hx
    rcases List.mem_cons.mp hx with rfl | hx
    · exact BitVec.le_refl _
    · exact BitVec.le_trans (h.le x (hsub.subset hx)) (BitVec.le_of_lt hclock)
  · refine List.nodup_cons.mpr ⟨?_, h.nodup.sublist (hsub.map _)⟩
    rw [htags]
    intro hmem
    simpa using List.of_mem_filter (List.mem_of_mem_take hmem)
  · rw [List.map_cons, htags]
    rfl

/-! ### The three cases of an access -/

theorem Ranked.perm_of_valid (h : Ranked lines order clock) {line : CacheLine}
    (hline : lines[way]? = some line) (hv : line.isValid = true) :
    order.Perm (line :: (lines.eraseIdx way).filter CacheLine.isValid) := by
  obtain ⟨hway, rfl⟩ := List.getElem?_eq_some_iff.mp hline
  refine h.perm.trans ?_
  have hperm := (List.getElem_cons_eraseIdx_perm hway).symm.filter CacheLine.isValid
  rwa [List.filter_cons_of_pos hv] at hperm

theorem Ranked.perm_of_invalid (h : Ranked lines order clock) {line : CacheLine}
    (hline : lines[way]? = some line) (hv : line.isValid = false) :
    order.Perm ((lines.eraseIdx way).filter CacheLine.isValid) := by
  obtain ⟨hway, rfl⟩ := List.getElem?_eq_some_iff.mp hline
  refine h.perm.trans ?_
  have hperm := (List.getElem_cons_eraseIdx_perm hway).symm.filter CacheLine.isValid
  rwa [List.filter_cons_of_neg (by simp [hv])] at hperm

theorem filter_tag_of_not_mem (h : tag ∉ order.map CacheLine.tag) :
    order.filter (fun x => x.tag ≠ tag) = order := by
  refine List.filter_eq_self.mpr (fun x hx => ?_)
  have hne : x.tag ≠ tag := fun he => h (he ▸ List.mem_map_of_mem hx)
  simpa using hne

/-- The line that hits is moved to the front. -/
theorem Ranked.rest_of_hit (h : Ranked lines order clock) {line : CacheLine}
    (hline : lines[way]? = some line) (hv : line.isValid = true) :
    ((order.filter (fun x => x.tag ≠ line.tag)).take (lines.length - 1)).Perm
      ((lines.eraseIdx way).filter CacheLine.isValid) := by
  have hperm := h.perm_of_valid hline hv
  have hway := (List.getElem?_eq_some_iff.mp hline).1
  have hnodup := (hperm.map CacheLine.tag).nodup_iff.mp h.nodup
  have hother : line.tag ∉ ((lines.eraseIdx way).filter CacheLine.isValid).map
      CacheLine.tag := (List.nodup_cons.mp hnodup).1
  have hfilter := hperm.filter (fun x => x.tag ≠ line.tag)
  rw [List.filter_cons_of_neg (by simp), filter_tag_of_not_mem hother] at hfilter
  rwa [List.take_of_length_le (hfilter.length_eq ▸ length_filter_eraseIdx hway)]

/-- An invalid line is filled and nothing is evicted. -/
theorem Ranked.rest_of_fill (h : Ranked lines order clock) {line : CacheLine}
    (hline : lines[way]? = some line) (hv : line.isValid = false)
    (htag : tag ∉ order.map CacheLine.tag) :
    ((order.filter (fun x => x.tag ≠ tag)).take (lines.length - 1)).Perm
      ((lines.eraseIdx way).filter CacheLine.isValid) := by
  have hperm := h.perm_of_invalid hline hv
  have hway := (List.getElem?_eq_some_iff.mp hline).1
  rw [filter_tag_of_not_mem htag]
  rwa [List.take_of_length_le (hperm.length_eq ▸ length_filter_eraseIdx hway)]

/-- With every line valid, the one with the least timestamp is the last of the order. -/
theorem Ranked.rest_of_evict (h : Ranked lines order clock) {line : CacheLine}
    (hline : lines[way]? = some line) (hall : ∀ x ∈ lines, x.isValid = true)
    (hmin : ∀ x ∈ lines, line.lruTimestamp ≤ x.lruTimestamp)
    (htag : tag ∉ order.map CacheLine.tag) :
    ((order.filter (fun x => x.tag ≠ tag)).take (lines.length - 1)).Perm
      ((lines.eraseIdx way).filter CacheLine.isValid) := by
  have hmem : line ∈ lines := List.mem_of_getElem? hline
  have hperm := h.perm_of_valid hline (hall line hmem)
  have hfull : lines.filter CacheLine.isValid = lines := List.filter_eq_self.mpr hall
  have hlen : order.length = lines.length := by
    rw [h.perm.length_eq, hfull]
  have hne : order ≠ [] := List.ne_nil_of_mem (h.perm.mem_iff.mpr (hfull.symm ▸ hmem))
  have hlast : order.getLast hne = line := by
    by_contra hneq
    have hin : line ∈ order := h.perm.mem_iff.mpr (hfull.symm ▸ hmem)
    have hbefore : line ∈ order.dropLast := by
      rw [← List.dropLast_append_getLast hne, List.mem_append, List.mem_singleton] at hin
      exact hin.resolve_right (fun he => hneq he.symm)
    have hsorted := h.sorted
    rw [← List.dropLast_append_getLast hne, List.pairwise_append] at hsorted
    have hlt := hsorted.2.2 line hbefore _ (List.mem_singleton_self _)
    have hge := hmin (order.getLast hne) (hfull ▸ h.perm.mem_iff.mp (List.getLast_mem hne))
    exact absurd hlt (BitVec.not_lt.mpr hge)
  rw [filter_tag_of_not_mem htag, ← hlen, ← List.dropLast_eq_take]
  rw [← List.dropLast_append_getLast hne, hlast] at hperm
  exact ((List.perm_append_singleton line _).symm.trans hperm).cons_inv

/-- The scan finds a line whose timestamp is least. -/
theorem oldestIndex_le {before : List CacheLine} {victim : Nat} {oldest : CacheLine}
    (hv : before[victim]? = some oldest)
    (hle : ∀ x ∈ before, oldest.lruTimestamp ≤ x.lruTimestamp) :
    ∃ line, (before ++ lines)[oldestIndex lines before.length oldest.lruTimestamp victim]? =
        some line ∧ ∀ x ∈ before ++ lines, line.lruTimestamp ≤ x.lruTimestamp := by
  induction lines generalizing before victim oldest with
  | nil =>
    rw [List.append_nil]
    exact ⟨oldest, hv, hle⟩
  | cons a lines ih =>
    have happend : before ++ a :: lines = (before ++ [a]) ++ lines := by simp
    have hlength : before.length + 1 = (before ++ [a]).length := by simp
    rw [happend, oldestIndex, hlength]
    split
    · rename_i hlt
      refine ih (List.getElem?_concat_length ..) (fun x hx => ?_)
      rcases List.mem_append.mp hx with hx | hx
      · exact BitVec.le_trans (BitVec.le_of_lt hlt) (hle x hx)
      · rw [List.mem_singleton.mp hx]
        exact BitVec.le_refl _
    · rename_i hlt
      have hway := (List.getElem?_eq_some_iff.mp hv).1
      refine ih ((List.getElem?_append_left hway).trans hv) (fun x hx => ?_)
      rcases List.mem_append.mp hx with hx | hx
      · exact hle x hx
      · rw [List.mem_singleton.mp hx]
        exact BitVec.not_lt.mp hlt

theorem hitLineIndex_eq_some (h : hitLineIndex lines lines.length tag = some way) :
    ∃ line, lines[way]? = some line ∧ line.isValid = true ∧ line.tag = tag := by
  rw [hitLineIndex, List.take_length, List.findIdx?_eq_some_iff_getElem] at h
  obtain ⟨hway, hp, _⟩ := h
  rw [Bool.and_eq_true, beq_iff_eq] at hp
  exact ⟨_, List.getElem?_eq_getElem hway, hp.1, hp.2⟩

theorem hitLineIndex_eq_none (h : hitLineIndex lines lines.length tag = none) :
    ¬∃ line ∈ lines, line.isValid = true ∧ line.tag = tag := by
  rw [hitLineIndex, List.take_length, List.findIdx?_eq_none_iff] at h
  intro ⟨line, hl, hv, ht⟩
  have hmiss := h line hl
  simp [hv, ht] at hmiss

/-- The victim is the first invalid line, or all lines are valid and it is the oldest. -/
theorem victimIndex_eq_some (h : victimIndex lines lines.length = some way) :
    ∃ line, lines[way]? = some line ∧
      (∀ (j : Nat) x, j < way → lines[j]? = some x → x.isValid = true) ∧
      (line.isValid = false ∨
        (∀ x ∈ lines, x.isValid = true) ∧ ∀ x ∈ lines, line.lruTimestamp ≤ x.lruTimestamp) := by
  unfold victimIndex at h
  cases hi : invalidIndex lines lines.length with
  | some first =>
    rw [hi] at h
    obtain rfl := Option.some.inj h
    rw [invalidIndex, List.take_length, List.findIdx?_eq_some_iff_getElem] at hi
    obtain ⟨hway, hp, hbefore⟩ := hi
    refine ⟨_, List.getElem?_eq_getElem hway, fun j x hj hx => ?_, .inl (by simpa using hp)⟩
    obtain ⟨_, rfl⟩ := List.getElem?_eq_some_iff.mp hx
    simpa using hbefore j hj
  | none =>
    rw [hi] at h
    rw [invalidIndex, List.take_length, List.findIdx?_eq_none_iff] at hi
    have hall : ∀ x ∈ lines, x.isValid = true := fun x hx => by simpa using hi x hx
    cases lines with
    | nil => cases h
    | cons first lines =>
      obtain rfl := Option.some.inj h
      have hscan := @oldestIndex_le lines [first] 0 first rfl (by simp)
      obtain ⟨line, hline, hmin⟩ := hscan
      rw [List.length_cons, Nat.add_sub_cancel, List.take_length]
      exact ⟨line, hline, fun _ x _ hx => hall x (List.mem_of_getElem? hx), .inr ⟨hall, hmin⟩⟩

/-- An access stores a line with its tag and the time: over the line that hits, or over the
victim. -/
theorem accessSet_stores (h : lines ≠ []) (tag clock : BitVec 64) : ∃ hit way old,
    lines[way]? = some old ∧
      accessSet lines lines.length tag clock = some (hit, lines.set way ⟨true, tag, clock⟩) ∧
      (hit = true ∧ old.isValid = true ∧ old.tag = tag ∨ hit = false ∧
        (¬∃ line ∈ lines, line.isValid = true ∧ line.tag = tag) ∧
          victimIndex lines lines.length = some way) := by
  unfold accessSet
  cases hhit : hitLineIndex lines lines.length tag with
  | some way =>
    obtain ⟨old, hold, hv, rfl⟩ := hitLineIndex_eq_some hhit
    have hmodify : lines.modify way (fun line => { line with lruTimestamp := clock }) =
        lines.set way ⟨true, old.tag, clock⟩ := by
      rw [List.modify_eq_set_getElem?, hold]
      exact congrArg (fun v => lines.set way ⟨v, old.tag, clock⟩) hv
    exact ⟨true, way, old, hold, by rw [← hmodify], .inl ⟨rfl, hv, rfl⟩⟩
  | none =>
    obtain ⟨way, hvictim⟩ := Option.isSome_iff_exists.mp (victimIndex_isSome h lines.length)
    obtain ⟨old, hold, _⟩ := victimIndex_eq_some hvictim
    exact ⟨false, way, old, hold, by rw [hvictim], .inr ⟨rfl, hitLineIndex_eq_none hhit, hvictim⟩⟩

/-- **One set.** An access hits when its tag is one of those ranked, and uses it. -/
theorem Ranked.access (h : Ranked lines order clock) (hclock : clock < clock + 1#64)
    (hne : lines ≠ []) (tag : BitVec 64) :
    ∃ lines' order', accessSet lines lines.length tag (clock + 1#64) =
        some (decide (tag ∈ order.map CacheLine.tag), lines') ∧
      Ranked lines' order' (clock + 1#64) ∧ order'.map CacheLine.tag =
        Recency.touch lines.length tag (order.map CacheLine.tag) := by
  obtain ⟨hit, way, old, hold, hstore, hcase⟩ := accessSet_stores hne tag (clock + 1#64)
  have hway := (List.getElem?_eq_some_iff.mp hold).1
  rcases hcase with ⟨rfl, hv, rfl⟩ | ⟨rfl, hmiss, hvictim⟩
  · have hmem : old.tag ∈ order.map CacheLine.tag :=
      h.mem_tags.mpr ⟨old, List.mem_of_getElem? hold, hv, rfl⟩
    obtain ⟨order', hranked, htags⟩ := h.replace hclock hway (h.rest_of_hit hold hv)
    refine ⟨_, order', ?_, hranked, htags⟩
    rw [decide_eq_true hmem, hstore]
  · have hmem : tag ∉ order.map CacheLine.tag := mt h.mem_tags.mp hmiss
    have hrest : ((order.filter (fun x => x.tag ≠ tag)).take (lines.length - 1)).Perm
        ((lines.eraseIdx way).filter CacheLine.isValid) := by
      obtain ⟨line, hline, _, hv | ⟨hall, hmin⟩⟩ := victimIndex_eq_some hvictim
      · exact h.rest_of_fill hline hv hmem
      · exact h.rest_of_evict hline hall hmin hmem
    obtain ⟨order', hranked, htags⟩ := h.replace hclock hway hrest
    refine ⟨_, order', ?_, hranked, htags⟩
    rw [decide_eq_false hmem, hstore]

end

/-! ### The whole cache -/

namespace CacheConfig

def index (config : CacheConfig) (address : BitVec 64) : Nat :=
  ((Cache.create config).getIndexAndTag address).1.toNat

def tag (config : CacheConfig) (address : BitVec 64) : BitVec 64 :=
  ((Cache.create config).getIndexAndTag address).2

/-- The tags of a history, newest first, that belong to one set. -/
def tagsOf (config : CacheConfig) (setIndex : Nat) (history : List (BitVec 64)) :
    List (BitVec 64) :=
  (history.filter (fun a => config.index a = setIndex)).map config.tag

/-- The tag of an address is among the last `ways` tags of its set. -/
def Holds (config : CacheConfig) (history : List (BitVec 64)) (address : BitVec 64) : Prop :=
  config.tag address ∈
    Recency.recent config.ways.toNat (config.tagsOf (config.index address) history)

instance (config : CacheConfig) (history : List (BitVec 64)) (address : BitVec 64) :
    Decidable (config.Holds history address) :=
  inferInstanceAs (Decidable (_ ∈ _))

end CacheConfig

/-- The cache after the accesses of a history, newest first. -/
structure Cache.Tracks (c : Cache) (config : CacheConfig) (history : List (BitVec 64)) : Prop where
  geometry : c.Geometry config
  clock : c.lruClock = BitVec.ofNat 64 history.length
  sets : ∀ i lines, c.sets[i]? = some lines → ∃ order, Ranked lines order c.lruClock ∧
    order.map CacheLine.tag = Recency.recent config.ways.toNat (config.tagsOf i history)

section
variable {config : CacheConfig} {c : Cache} {history : List (BitVec 64)}

theorem Cache.create_tracks (config : CacheConfig) : (Cache.create config).Tracks config [] where
  geometry := Cache.create_geometry config
  clock := rfl
  sets := by
    intro i lines hlines
    have hfresh : lines = List.replicate config.ways.toNat {} :=
      List.eq_of_mem_replicate (List.mem_of_getElem? hlines)
    have hempty : lines.filter CacheLine.isValid = [] := by
      rw [hfresh]
      exact List.filter_replicate_of_neg (by decide)
    exact ⟨[], ⟨hempty ▸ List.Perm.nil, .nil, by simp, List.nodup_nil⟩, rfl⟩

theorem Cache.Geometry.getIndexAndTag_eq (hc : c.Geometry config) (address : BitVec 64) :
    c.getIndexAndTag address = (Cache.create config).getIndexAndTag address := by
  unfold Cache.getIndexAndTag
  rw [hc.blockOffsetBits, hc.setIndexBits]
  rfl

theorem Cache.Geometry.index_eq (hc : c.Geometry config) (address : BitVec 64) :
    (c.getIndexAndTag address).1.toNat = config.index address := by
  rw [hc.getIndexAndTag_eq]
  rfl

theorem Cache.Geometry.tag_eq (hc : c.Geometry config) (address : BitVec 64) :
    (c.getIndexAndTag address).2 = config.tag address := by
  rw [hc.getIndexAndTag_eq]
  rfl

theorem Cache.Geometry.wayBound (hc : c.Geometry config) (hways : config.ways.toNat < 2 ^ 31) :
    c.wayBound = config.ways.toNat := by
  have hlt : config.ways.toNat % 2 ^ 32 = config.ways.toNat := Nat.mod_eq_of_lt (by omega)
  rw [Cache.wayBound, hc.config_eq, BitVec.toInt_eq_toNat_of_lt, BitVec.toNat_setWidth, hlt]
  · exact Int.toNat_natCast _
  · rw [BitVec.toNat_setWidth, hlt]
    omega

/-- An access works on all the ways of the set of its address. -/
theorem Cache.Geometry.access_set (hc : c.Geometry config) (hpos : 0 < config.ways.toNat)
    (hways : config.ways.toNat < 2 ^ 31) {a : BitVec 64}
    (hin : config.index a < config.numberOfSets.toNat) (readWrite : CacheOperation) :
    ∃ lines hit lines', c.sets[(c.getIndexAndTag a).1.toNat]? = some lines ∧ lines ≠ [] ∧
      c.wayBound = lines.length ∧ lines.length = config.ways.toNat ∧
      accessSet lines lines.length (config.tag a) (c.lruClock + 1#64) = some (hit, lines') ∧
      c.access a readWrite = some (hit, c.record (c.getIndexAndTag a).1 hit lines') ∧
      (c.record (c.getIndexAndTag a).1 hit lines').Geometry config := by
  obtain ⟨lines, hit, lines', hlines, hset, haccess, hgeometry⟩ :=
    hc.access_of_lt hpos (hc.index_eq a ▸ hin) readWrite
  have hlength : lines.length = config.ways.toNat := hc.ways lines (List.mem_of_getElem? hlines)
  have hbound : c.wayBound = lines.length := (hc.wayBound hways).trans hlength.symm
  have hne : lines ≠ [] := List.ne_nil_of_length_pos (hlength ▸ hpos)
  rw [hbound, hc.tag_eq] at hset
  exact ⟨lines, hit, lines', hlines, hne, hbound, hlength, hset, haccess, hgeometry⟩

theorem CacheConfig.tagsOf_cons (a : BitVec 64) (i : Nat) : config.tagsOf i (a :: history) =
    if config.index a = i then config.tag a :: config.tagsOf i history
    else config.tagsOf i history := by
  by_cases h : config.index a = i <;> simp [CacheConfig.tagsOf, h]

/-- One access to the whole cache. -/
theorem Cache.Tracks.access (h : c.Tracks config history) (hpos : 0 < config.ways.toNat)
    (hways : config.ways.toNat < 2 ^ 31) (hlen : history.length + 1 < 2 ^ 64) {a : BitVec 64}
    (hin : config.index a < config.numberOfSets.toNat) (readWrite : CacheOperation) :
    ∃ lines, c.access a readWrite =
        some (decide (config.Holds history a),
          c.record (c.getIndexAndTag a).1 (decide (config.Holds history a)) lines) ∧
      (c.record (c.getIndexAndTag a).1 (decide (config.Holds history a)) lines).Tracks config
        (a :: history) := by
  have hindex := h.geometry.index_eq a
  obtain ⟨lines, hit, lines', hlines, hne, _, hlength, hset, haccess, hgeometry⟩ :=
    h.geometry.access_set hpos hways hin readWrite
  have hclock : c.lruClock < c.lruClock + 1#64 := by
    rw [h.clock, BitVec.lt_def, BitVec.toNat_add, BitVec.toNat_ofNat]
    simp
    omega
  obtain ⟨order, hranked, htags⟩ := h.sets _ _ hlines
  obtain ⟨lines'', order', hset', hranked', htags'⟩ := hranked.access hclock hne (config.tag a)
  rw [hset'] at hset
  rw [hindex] at htags
  obtain ⟨rfl, rfl⟩ := Prod.mk.inj (Option.some.inj hset)
  rw [htags] at haccess hgeometry
  refine ⟨lines'', haccess, hgeometry, ?_, fun i l hl => ?_⟩
  · show c.lruClock + 1#64 = _
    rw [h.clock]
    exact (BitVec.ofNat_add _ 1).symm
  · have hl : (c.sets.set (c.getIndexAndTag a).1.toNat lines'')[i]? = some l := hl
    rw [hindex, List.getElem?_set] at hl
    rw [config.tagsOf_cons]
    split at hl
    · rename_i hi
      rw [if_pos hi]
      split at hl
      · obtain rfl := Option.some.inj hl
        refine ⟨order', hranked', ?_⟩
        rw [htags', htags, hlength, ← hi]
        rfl
      · cases hl
    · rename_i hi
      rw [if_neg hi]
      obtain ⟨order, hranked, htags⟩ := h.sets i l hl
      exact ⟨order, hranked.later (BitVec.le_of_lt hclock), htags⟩

/-- What a sequence of accesses, oldest first, returns and leaves. -/
theorem Cache.Tracks.accessAll (h : c.Tracks config history) (hpos : 0 < config.ways.toNat)
    (hways : config.ways.toNat < 2 ^ 31) (hin : ∀ a, config.index a < config.numberOfSets.toNat)
    (accesses : List (BitVec 64 × CacheOperation))
    (hlen : history.length + accesses.length < 2 ^ 64) :
    ∃ results c', c.accessAll accesses = some (results, c') ∧
      results.length = accesses.length ∧
      (∀ i address readWrite, accesses[i]? = some (address, readWrite) → results[i]? =
        some (decide (config.Holds (((accesses.take i).map Prod.fst).reverse ++ history) address))) ∧
      c'.hits = c.hits + BitVec.ofNat 64 (results.count true) ∧
      c'.misses = c.misses + BitVec.ofNat 64 (results.count false) := by
  induction accesses generalizing c history with
  | nil =>
    refine ⟨[], c, rfl, rfl, fun i address readWrite hi => ?_, ?_, ?_⟩
    · cases hi
    · exact (BitVec.add_zero _).symm
    · exact (BitVec.add_zero _).symm
  | cons access accesses ih =>
    obtain ⟨a, readWrite⟩ := access
    rw [List.length_cons] at hlen
    obtain ⟨lines, haccess, htracks⟩ := h.access hpos hways (by omega) (hin a) readWrite
    obtain ⟨results, c', hall, hlength, hresults, hhits, hmisses⟩ :=
      ih htracks (by rw [List.length_cons]; omega)
    refine ⟨decide (config.Holds history a) :: results, c', ?_, ?_, ?_, ?_, ?_⟩
    · rw [Cache.accessAll, haccess]
      simp only [hall, Option.map_some]
    · rw [List.length_cons, List.length_cons, hlength]
    · intro i address readWrite hi
      cases i with
      | zero =>
        obtain ⟨rfl, rfl⟩ := Prod.mk.inj (Option.some.inj hi)
        rfl
      | succ i =>
        have hrest := hresults i address readWrite hi
        simpa using hrest
    · rw [hhits]
      by_cases hh : config.Holds history a
      · simp [Cache.record, hh, BitVec.ofNat_add]
        ac_rfl
      · simp [Cache.record, hh]
    · rw [hmisses]
      by_cases hh : config.Holds history a
      · simp [Cache.record, hh]
      · simp [Cache.record, hh, BitVec.ofNat_add]
        ac_rfl

/-- A fresh cache hits exactly on the addresses whose block its set holds, and counts. -/
theorem Cache.create_accessAll (hpos : 0 < config.ways.toNat) (hways : config.ways.toNat < 2 ^ 31)
    (hin : ∀ a, config.index a < config.numberOfSets.toNat)
    (accesses : List (BitVec 64 × CacheOperation)) (hlen : accesses.length < 2 ^ 64) :
    ∃ results c, (Cache.create config).accessAll accesses = some (results, c) ∧
      results.length = accesses.length ∧
      (∀ i address readWrite, accesses[i]? = some (address, readWrite) → results[i]? =
        some (decide (config.Holds ((accesses.take i).map Prod.fst).reverse address))) ∧
      c.getHits.toNat = results.count true ∧ c.getMisses.toNat = results.count false := by
  obtain ⟨results, c, hall, hlength, hresults, hhits, hmisses⟩ :=
    (Cache.create_tracks config).accessAll hpos hways hin accesses (by simpa using hlen)
  have hcount : ∀ n ≤ results.length, (0#64 + BitVec.ofNat 64 n).toNat = n := by
    intro n hn
    rw [BitVec.zero_add, BitVec.toNat_ofNat, Nat.mod_eq_of_lt (by omega)]
  refine ⟨results, c, hall, hlength, fun i address readWrite hi => ?_, ?_, ?_⟩
  · rw [hresults i address readWrite hi, List.append_nil]
  · rw [Cache.getHits, hhits]
    exact hcount _ List.count_le_length
  · rw [Cache.getMisses, hmisses]
    exact hcount _ List.count_le_length

end

/-! ### Stack distance -/

/-- The block of `address` has been accessed before, and since its last access fewer than
`ways` distinct other blocks of its set have been; `before` is oldest first. -/
def CacheConfig.RecentlyUsed (config : CacheConfig) (before : List (BitVec 64))
    (address : BitVec 64) : Prop :=
  let block := config.blockOf address
  let blocks := (before.map config.blockOf).reverse
  block ∈ blocks ∧ ((Recency.since block blocks).filter
    (fun b => b % config.setCount = block % config.setCount)).toFinset.card < config.ways.toNat

instance (config : CacheConfig) (before : List (BitVec 64)) (address : BitVec 64) :
    Decidable (config.RecentlyUsed before address) :=
  inferInstanceAs (Decidable (_ ∧ _))

section
variable {config : CacheConfig}

/-- The set of an address is its block modulo the number of sets. -/
theorem CacheConfig.Admitted.index_eq_iff (h : config.Admitted) (hsets : ∃ k, config.setCount = 2 ^ k)
    (a b : BitVec 64) : config.index a = config.index b ↔
      config.blockOf a % config.setCount = config.blockOf b % config.setCount := by
  have hcount : config.setCount = 2 ^ config.setIndexBits := by
    obtain ⟨k, hk⟩ := hsets
    exact h.setCount_eq (h.index_lt hk)
  have hindex := fun address => (Cache.create_geometry config).setIndex h.indexed address
  rw [CacheConfig.index, CacheConfig.index, hindex, hindex, ← hcount]

theorem CacheConfig.Admitted.tag_eq_iff (h : config.Admitted) {a b : BitVec 64}
    (hindex : config.index a = config.index b) :
    config.tag a = config.tag b ↔ config.blockOf a = config.blockOf b := by
  rw [← (Cache.create_geometry config).getIndexAndTag_eq_iff h.indexed, Prod.ext_iff]
  exact ⟨fun ht => ⟨BitVec.eq_of_toNat_eq hindex, ht⟩, fun hp => hp.2⟩

/-- The set holds a block exactly when few other blocks have been used since. -/
theorem CacheConfig.Admitted.holds_iff (h : config.Admitted)
    (hsets : ∃ k, config.setCount = 2 ^ k) (before : List (BitVec 64)) (a : BitVec 64) :
    config.Holds before.reverse a ↔ config.RecentlyUsed before a := by
  have hsame : ∀ x, config.index x = config.index a ∧ config.tag x = config.tag a ↔
      config.blockOf x = config.blockOf a := by
    intro x
    constructor
    · intro ⟨hi, ht⟩
      exact (h.tag_eq_iff hi).mp ht
    · intro hb
      have hi : config.index x = config.index a := (h.index_eq_iff hsets x a).mpr (by rw [hb])
      exact ⟨hi, (h.tag_eq_iff hi).mpr hb⟩
  have hset : ∀ x, config.blockOf x % config.setCount = config.blockOf a % config.setCount ↔
      config.index x = config.index a := fun x => (h.index_eq_iff hsets x a).symm
  rw [CacheConfig.Holds, Recency.mem_recent_iff h.ways, CacheConfig.RecentlyUsed,
    ← List.map_reverse, CacheConfig.tagsOf]
  refine and_congr ?_ (iff_of_eq (congrArg (· < _) ?_))
  · simp only [List.mem_map, List.mem_filter, decide_eq_true_eq, and_assoc, hsame]
  · have hstop : ∀ x, (!decide (config.index x = config.index a) ||
        decide (config.tag x ≠ config.tag a)) = decide (config.blockOf x ≠ config.blockOf a) := by
      intro x
      rw [← decide_not, ← Bool.decide_or]
      exact decide_eq_decide.mpr (not_and_or.symm.trans (not_congr (hsame x)))
    have htags : Recency.since (config.tag a) ((before.reverse.filter
          (fun x => config.index x = config.index a)).map config.tag) =
        ((before.reverse.takeWhile (fun x => config.blockOf x ≠ config.blockOf a)).filter
          (fun x => config.index x = config.index a)).map config.tag := by
      rw [Recency.since, List.takeWhile_map, List.takeWhile_filter]
      simp only [Function.comp_def, hstop]
    have hblocks : (Recency.since (config.blockOf a) (before.reverse.map config.blockOf)).filter
          (fun b => b % config.setCount = config.blockOf a % config.setCount) =
        ((before.reverse.takeWhile (fun x => config.blockOf x ≠ config.blockOf a)).filter
          (fun x => config.index x = config.index a)).map config.blockOf := by
      rw [Recency.since, List.takeWhile_map, List.filter_map]
      simp only [Function.comp_def, hset]
    rw [htags, hblocks]
    refine Recency.card_toFinset_map_congr (fun x hx y hy => h.tag_eq_iff ?_)
    simp only [List.mem_filter, decide_eq_true_eq] at hx hy
    rw [hx.2, hy.2]

end

/-- **True LRU.** On a fresh cache with a power of two of sets an access hits exactly when
its block was accessed before and, since then, fewer than `ways` distinct other blocks of
its set were; the counters are the numbers of hits and misses. -/
theorem access_lru (config : CacheConfig) (h : config.Admitted)
    (hways : config.ways.toNat < 2 ^ 31) (hsets : ∃ k, config.setCount = 2 ^ k)
    (accesses : List (BitVec 64 × CacheOperation)) (hlen : accesses.length < 2 ^ 64) :
    ∃ results c, (Cache.create config).accessAll accesses = some (results, c) ∧
      results.length = accesses.length ∧
      (∀ i address readWrite, accesses[i]? = some (address, readWrite) →
        ∃ hit, results[i]? = some hit ∧
          (hit = true ↔ config.RecentlyUsed ((accesses.take i).map Prod.fst) address)) ∧
      c.getHits.toNat = results.count true ∧ c.getMisses.toNat = results.count false ∧
      c.getHits.toNat + c.getMisses.toNat = accesses.length := by
  obtain ⟨k, hk⟩ := hsets
  have hin : ∀ a, config.index a < config.numberOfSets.toNat := by
    intro a
    rw [CacheConfig.index, (Cache.create_geometry config).setIndex h.indexed, h.numberOfSets_toNat]
    exact h.index_lt hk a
  obtain ⟨results, c, hall, hlength, hresults, hhits, hmisses⟩ :=
    Cache.create_accessAll h.ways hways hin accesses hlen
  have hsum : results.count true + results.count false = results.length :=
    List.count_true_add_count_false results
  refine ⟨results, c, hall, hlength, fun i address readWrite hi => ⟨_, hresults i _ _ hi, ?_⟩,
    hhits, hmisses, by omega⟩
  rw [decide_eq_true_iff]
  exact h.holds_iff ⟨k, hk⟩ _ address

/-- Two sets of two lines of a byte. -/
def twoSets : CacheConfig := ⟨4#64, 1#64, 2#64⟩

theorem twoSets_admitted : twoSets.Admitted :=
  ⟨⟨0, by decide⟩, by decide, by decide, by decide, by decide, by decide, by decide⟩

/-- The blocks 0, 2 and 4 share a set of `twoSets`; 1 is in the other. -/
def turns : List (BitVec 64 × CacheOperation) :=
  [(0#64, .cacheRead), (1#64, .cacheWrite), (2#64, .cacheRead), (0#64, .cacheWrite),
    (4#64, .cacheRead), (0#64, .cacheRead), (2#64, .cacheRead), (1#64, .cacheRead)]

/-- Block 4 takes the place of block 2, which came later than block 0 but was used before it:
block 0 still hits, block 2 does not. -/
theorem access_lru_sample : ∃ results c,
    (Cache.create twoSets).accessAll turns = some (results, c) ∧
      results[5]? = some true ∧ results[6]? = some false ∧
      c.getHits.toNat + c.getMisses.toNat = 8 := by
  obtain ⟨results, c, hall, _, hresults, _, _, hsum⟩ := access_lru twoSets twoSets_admitted
    (by decide) ⟨1, by decide⟩ turns (by decide)
  obtain ⟨hit, hfive, hrecent⟩ := hresults 5 0#64 .cacheRead rfl
  obtain ⟨hit', hsix, hrecent'⟩ := hresults 6 2#64 .cacheRead rfl
  have hhit : hit = true := hrecent.mpr (by decide)
  have hmiss : hit' = false := Bool.eq_false_iff.mpr (fun h => absurd (hrecent'.mp h) (by decide))
  exact ⟨results, c, hall, hhit ▸ hfive, hmiss ▸ hsix, hsum⟩

end CycleSim
