import CycleSim.Lib.Recency
import Mathlib.Algebra.BigOperators.Group.Finset.Piecewise
import Mathlib.Algebra.BigOperators.Ring.Finset
import Mathlib.Algebra.Order.BigOperators.Group.Finset
import Mathlib.Data.List.TakeWhile

/-! Keeping the most recently used keys, against every other way of choosing what to keep.

A way of serving a history starts with nothing and holds, after each use, the key used and
some of the keys it held before, as many as fit (`Serves`); it may know the history in advance.
`misses n` counts the uses that the `n` most recently used keys do not serve. It is bounded
below by the distinct keys, which is exact while they fit (`misses_eq_card`), and above by a
multiple of the misses of any other way (`competitive`). -/
namespace Paging

open Recency

variable {K : Type*} [DecidableEq K]

/-- The uses of a history, newest first, of keys that are not among the `n` kept. -/
def misses (n : Nat) : List K → Nat
  | [] => 0
  | k :: history => misses n history + if k ∈ recent n history then 0 else 1

/-- Whether each use of a history finds its key among the `n` kept. -/
def hits (n : Nat) : List K → List Bool
  | [] => []
  | k :: history => decide (k ∈ recent n history) :: hits n history

theorem nodup_recent (n : Nat) (history : List K) : (recent n history).Nodup := by
  induction history with
  | nil => exact List.nodup_nil
  | cons k history ih =>
    refine List.nodup_cons.mpr ⟨?_, (ih.filter _).sublist (List.take_sublist _ _)⟩
    intro hmem
    simpa using List.of_mem_filter (List.mem_of_mem_take hmem)

theorem length_recent_le {n : Nat} (hn : 0 < n) (history : List K) :
    (recent n history).length ≤ n := by
  rw [recent_eq hn]
  exact List.length_take_le _ _

/-! ### Keys that fit -/

/-- Every key is missed once at least. -/
theorem card_le_misses {n : Nat} (hn : 0 < n) (history : List K) :
    history.toFinset.card ≤ misses n history := by
  induction history with
  | nil => exact Nat.le_refl 0
  | cons k history ih =>
    rw [misses, List.toFinset_cons]
    by_cases hk : k ∈ history
    · rw [Finset.insert_eq_of_mem (List.mem_toFinset.mpr hk)]
      exact Nat.le_add_right_of_le ih
    · have hmiss : k ∉ recent n history := fun h => hk ((mem_recent_iff hn).mp h).1
      rw [if_neg hmiss]
      exact (Finset.card_insert_le _ _).trans (Nat.succ_le_succ ih)

/-- While the keys fit, a key once used is kept. -/
theorem mem_recent_of_fits {n : Nat} (hn : 0 < n) {k : K} {history : List K}
    (hfits : history.toFinset.card ≤ n) (hk : k ∈ history) : k ∈ recent n history := by
  refine (mem_recent_iff hn).mpr ⟨hk, ?_⟩
  have hsub : (since k history).toFinset ⊆ history.toFinset.erase k := by
    intro x hx
    rw [List.mem_toFinset] at hx
    refine Finset.mem_erase.mpr ⟨by simpa using List.mem_takeWhile_imp hx, ?_⟩
    exact List.mem_toFinset.mpr ((List.takeWhile_sublist _).subset hx)
  have herase := Finset.card_erase_of_mem (List.mem_toFinset.mpr hk)
  have hpos : 0 < history.toFinset.card := Finset.card_pos.mpr ⟨k, List.mem_toFinset.mpr hk⟩
  have hle := Finset.card_le_card hsub
  omega

/-- Keys that fit are missed once each. -/
theorem misses_eq_card {n : Nat} (hn : 0 < n) {history : List K}
    (hfits : history.toFinset.card ≤ n) : misses n history = history.toFinset.card := by
  induction history with
  | nil => rfl
  | cons k history ih =>
    rw [List.toFinset_cons] at hfits ⊢
    have hrest := ih ((Finset.card_le_card (Finset.subset_insert _ _)).trans hfits)
    have hfits' := (Finset.card_le_card (Finset.subset_insert k _)).trans hfits
    by_cases hk : k ∈ history
    · rw [misses, if_pos (mem_recent_of_fits hn hfits' hk), hrest,
        Finset.insert_eq_of_mem (List.mem_toFinset.mpr hk), Nat.add_zero]
    · have hmiss : k ∉ recent n history := fun h => hk ((mem_recent_iff hn).mp h).1
      rw [misses, if_neg hmiss, hrest, Finset.card_insert_of_notMem (mt List.mem_toFinset.mp hk)]

/-! ### Ways of serving a history -/

/-- A history served with the contents that fit: what is held at the end, and how many uses
did not find their key. -/
inductive Serves (fits : Finset K → Prop) : List K → Finset K → Nat → Prop
  | nil : Serves fits [] ∅ 0
  | use {history : List K} {held held' : Finset K} {m : Nat} {k : K}
      (hs : Serves fits history held m) (hsub : held' ⊆ insert k held) (hk : k ∈ held')
      (hfits : fits held') :
      Serves fits (k :: history) held' (m + if k ∈ held then 0 else 1)

/-- At most `n` keys are held, and one is thrown out only when another takes its place. -/
inductive ServesLazily (n : Nat) : List K → Finset K → Nat → Prop
  | nil : ServesLazily n [] ∅ 0
  | hit {history : List K} {held : Finset K} {m : Nat} {k : K}
      (hs : ServesLazily n history held m) (hk : k ∈ held) : ServesLazily n (k :: history) held m
  | fill {history : List K} {held : Finset K} {m : Nat} {k : K}
      (hs : ServesLazily n history held m) (hk : k ∉ held) (hlt : held.card < n) :
      ServesLazily n (k :: history) (insert k held) (m + 1)
  | replace {history : List K} {held : Finset K} {m : Nat} {k y : K}
      (hs : ServesLazily n history held m) (hk : k ∉ held) (hcard : held.card = n)
      (hy : y ∈ held) : ServesLazily n (k :: history) (insert k (held.erase y)) (m + 1)

section
variable {n : Nat} {history : List K} {held : Finset K} {m : Nat}

theorem ServesLazily.card_le (h : ServesLazily n history held m) : held.card ≤ n := by
  induction h with
  | nil => exact Nat.zero_le n
  | hit _ _ ih => exact ih
  | fill _ _ hlt _ => exact (Finset.card_insert_le _ _).trans hlt
  | replace _ _ hcard hy _ =>
    have herase := Finset.card_erase_of_mem hy
    have hpos := Finset.card_pos.mpr ⟨_, hy⟩
    exact (Finset.card_insert_le _ _).trans (by omega)

/-- Throwing keys out later than need be saves no miss and costs none. -/
theorem Serves.lazily (h : Serves (fun held => held.card ≤ n) history held m) :
    ∃ held' m', held ⊆ held' ∧ m' ≤ m ∧ ServesLazily n history held' m' := by
  induction h with
  | nil => exact ⟨∅, 0, Finset.Subset.refl _, Nat.le_refl 0, .nil⟩
  | @use history held next m k hs hsub hk hfits ih =>
    obtain ⟨kept, m', hkept, hm, hlazy⟩ := ih
    have hnext : next ⊆ insert k kept := hsub.trans (Finset.insert_subset_insert k hkept)
    by_cases hin : k ∈ kept
    · rw [Finset.insert_eq_of_mem hin] at hnext
      exact ⟨kept, m', hnext, Nat.le_add_right_of_le hm, .hit hlazy hin⟩
    · rw [if_neg (fun h => hin (hkept h))]
      rcases Nat.lt_or_eq_of_le hlazy.card_le with hlt | hcard
      · exact ⟨insert k kept, m' + 1, hnext, Nat.succ_le_succ hm, .fill hlazy hin hlt⟩
      · -- `next` holds `k` beside at most `n - 1` of the `n` keys kept
        have herase := Finset.card_erase_of_mem hk
        have hpos := Finset.card_pos.mpr ⟨k, hk⟩
        obtain ⟨y, hy, hynot⟩ := Finset.exists_mem_notMem_of_card_lt_card
          (show (next.erase k).card < kept.card by omega)
        have hne : y ≠ k := fun he => hin (he ▸ hy)
        refine ⟨insert k (kept.erase y), m' + 1, ?_, Nat.succ_le_succ hm,
          .replace hlazy hin hcard hy⟩
        intro x hx
        rcases Finset.mem_insert.mp (hnext hx) with rfl | hxkept
        · exact Finset.mem_insert_self _ _
        · refine Finset.mem_insert_of_mem (Finset.mem_erase.mpr ⟨?_, hxkept⟩)
          rintro rfl
          exact hynot (Finset.mem_erase.mpr ⟨hne, hx⟩)

end

/-! ### The potential

Each place of the `n` most recently used keys weighs more the more recent it is. What counts
is the weight of the places whose key the other way does not hold; of the places still empty
as many are left out, the most recent first, as the other way has room left. -/

/-- `1 + 2 + ... + n`. -/
def triangle (n : Nat) : Nat := ∑ i ∈ Finset.range (n + 1), i

theorem triangle_succ (n : Nat) : triangle (n + 1) = triangle n + (n + 1) :=
  Finset.sum_range_succ _ _

def potential : (places room : Nat) → List K → Finset K → Nat
  | places, room, [], _ => triangle (places - room)
  | places, room, x :: keys, held =>
    (if x ∈ held then 0 else places) + potential (places - 1) room keys held

section
variable {places room : Nat} {keys : List K} {held : Finset K}

theorem potential_congr {held' : Finset K} (h : ∀ x ∈ keys, x ∈ held ↔ x ∈ held') :
    potential places room keys held = potential places room keys held' := by
  induction keys generalizing places with
  | nil => rfl
  | cons x keys ih =>
    rw [List.forall_mem_cons] at h
    simp only [potential, h.1, ih h.2]

/-- Holding one more key does not add to the potential. -/
theorem potential_insert_le (k : K) :
    potential places room keys (insert k held) ≤ potential places room keys held := by
  induction keys generalizing places with
  | nil => exact Nat.le_refl _
  | cons x keys ih =>
    refine Nat.add_le_add ?_ ih
    by_cases hx : x ∈ held
    · simp [hx]
    · rw [if_neg hx]
      split <;> omega

/-- Throwing a key out adds the weight of one place at most. -/
theorem potential_erase_le (hd : keys.Nodup) (y : K) :
    potential places room keys (held.erase y) ≤ potential places room keys held + places := by
  induction keys generalizing places with
  | nil => exact Nat.le_add_right _ _
  | cons x keys ih =>
    obtain ⟨hx, hd⟩ := List.nodup_cons.mp hd
    simp only [potential]
    by_cases hxy : x = y
    · subst hxy
      have hsame : potential (places - 1) room keys (held.erase x) =
          potential (places - 1) room keys held := by
        refine potential_congr (fun z hz => ?_)
        have hne : z ≠ x := fun he => hx (he ▸ hz)
        simp [hne]
      rw [hsame, if_neg (Finset.notMem_erase x held)]
      omega
    · have hrest := @ih (places - 1) hd
      have hiff : x ∈ held.erase y ↔ x ∈ held := by simp [hxy]
      simp only [hiff]
      omega

/-- So does filling an empty place. -/
theorem potential_room_le :
    potential places room keys held ≤ potential places (room + 1) keys held + places := by
  induction keys generalizing places with
  | nil =>
    simp only [potential]
    rcases Nat.lt_or_ge room places with hlt | hge
    · have hsplit : places - room = places - (room + 1) + 1 := by omega
      rw [hsplit, triangle_succ]
      omega
    · rw [Nat.sub_eq_zero_of_le hge, Nat.sub_eq_zero_of_le (by omega)]
      exact Nat.le_add_right _ _
  | cons x keys ih =>
    have hrest := @ih (places - 1)
    simp only [potential]
    omega

/-- A key used again leaves its place to those in front of it. -/
theorem potential_hit_le {k : K} (hd : keys.Nodup) (hk : k ∈ keys) :
    potential (places - 1) room (keys.filter (fun x => x ≠ k)) held ≤
      potential places room keys held := by
  induction keys generalizing places with
  | nil => cases hk
  | cons x keys ih =>
    obtain ⟨hx, hd⟩ := List.nodup_cons.mp hd
    by_cases hxk : x = k
    · subst hxk
      have hall : keys.filter (fun y => y ≠ x) = keys := by
        refine List.filter_eq_self.mpr (fun y hy => ?_)
        have hne : y ≠ x := fun he => hx (he ▸ hy)
        simpa using hne
      rw [List.filter_cons_of_neg (by simp), hall]
      exact Nat.le_add_left _ _
    · have hmem : k ∈ keys := (List.mem_cons.mp hk).resolve_left (fun he => hxk he.symm)
      have hrest := @ih (places - 1) hd hmem
      rw [List.filter_cons_of_pos (by simpa using hxk)]
      simp only [potential]
      split <;> omega

/-- A new key in front takes one from the weight of every place that counts. -/
theorem potential_miss_le (hlen : keys.length ≤ places) :
    potential (places - 1) room (keys.take (places - 1)) held +
        (keys.filter (fun x => x ∉ held)).length + (places - keys.length - room) ≤
      potential places room keys held := by
  induction keys generalizing places with
  | nil =>
    simp only [List.take_nil, potential, List.filter_nil, List.length_nil, Nat.add_zero,
      Nat.sub_zero]
    rcases Nat.lt_or_ge room places with hlt | hge
    · have hsplit : places - room = places - 1 - room + 1 := by omega
      rw [hsplit, triangle_succ]
    · rw [Nat.sub_eq_zero_of_le hge, Nat.sub_eq_zero_of_le (by omega)]
      exact Nat.le_refl _
  | cons x keys ih =>
    rw [List.length_cons] at hlen
    obtain ⟨p, rfl⟩ : ∃ p, places = p + 1 := ⟨places - 1, by omega⟩
    have hrest := @ih p (by omega)
    cases p with
    | zero =>
      obtain rfl : keys = [] := List.eq_nil_of_length_eq_zero (by omega)
      by_cases hx : x ∈ held <;> simp [potential, hx, triangle]
    | succ p =>
      simp only [Nat.add_sub_cancel, List.take_succ_cons, potential, List.filter_cons,
        List.length_cons] at hrest ⊢
      by_cases hx : x ∈ held <;> simp [hx] at hrest ⊢ <;> omega

end

/-! ### One use -/

/-- Of the keys kept without `k`, the other way holds less than its contents if it holds `k`. -/
theorem card_filter_lt {keys : List K} {held : Finset K} {k : K} (hd : keys.Nodup)
    (hk : k ∈ held) (hnot : k ∉ keys) : (keys.filter (fun x => x ∈ held)).length < held.card := by
  have hsub : (keys.filter (fun x => x ∈ held)).toFinset ⊆ held.erase k := by
    intro x hx
    rw [List.mem_toFinset, List.mem_filter, decide_eq_true_eq] at hx
    exact Finset.mem_erase.mpr ⟨fun he => hnot (he ▸ hx.1), hx.2⟩
  have hle := Finset.card_le_card hsub
  rw [List.toFinset_card_of_nodup (hd.filter _), Finset.card_erase_of_mem hk] at hle
  have hpos := Finset.card_pos.mpr ⟨k, hk⟩
  omega

/-- Once the other way holds `k`, using `k` pays for its own miss. -/
theorem potential_touch_le {n room places : Nat} {keys : List K} {held : Finset K} {k : K}
    (hd : keys.Nodup) (hlen : keys.length ≤ places) (hk : k ∈ held) (hn : n ≤ places)
    (hroom : held.card + room = n) :
    (places + 1 - n) * (if k ∈ keys then 0 else 1) + potential places room (touch places k keys) held ≤
      potential places room keys held := by
  rw [touch, potential, if_pos hk, Nat.zero_add]
  by_cases hmem : k ∈ keys
  · rw [if_pos hmem, Nat.mul_zero, Nat.zero_add]
    have hlt : (keys.filter (fun x => x ≠ k)).length < keys.length := by
      refine List.length_filter_lt_length_iff_exists.mpr ⟨k, hmem, by simp⟩
    rw [List.take_of_length_le (by omega)]
    exact potential_hit_le hd hmem
  · rw [if_neg hmem, Nat.mul_one]
    have hall : keys.filter (fun x => x ≠ k) = keys := by
      refine List.filter_eq_self.mpr (fun x hx => ?_)
      have hne : x ≠ k := fun he => hmem (he ▸ hx)
      simpa using hne
    have hmiss := @potential_miss_le K _ places room keys held hlen
    have hshared := card_filter_lt hd hk hmem
    have hsplit := keys.length_eq_length_filter_add (fun x => decide (x ∈ held))
    rw [hall]
    simp only [decide_not] at hmiss
    omega

/-- The other way's own step adds the weight of one place for each of its misses, at most. -/
theorem ServesLazily.potential_le {n places : Nat} {history : List K} {held : Finset K} {m : Nat}
    (h : ServesLazily n history held m) (hn : n ≤ places) (hpos : 0 < places) :
    (places + 1 - n) * misses places history +
        potential places (n - held.card) (recent places history) held ≤
      places * m + triangle (places - n) := by
  induction h with
  | nil => simp [misses, recent, potential]
  | @hit history held m k hs hk ih =>
    have htouch := potential_touch_le (nodup_recent places history)
      (length_recent_le hpos history) hk hn (Nat.add_sub_cancel' hs.card_le)
    rw [misses, Nat.mul_add, recent]
    omega
  | @fill history held m k hs hk hlt ih =>
    have hcard := Finset.card_insert_of_notMem hk
    have htouch := potential_touch_le (nodup_recent places history)
      (length_recent_le hpos history) (Finset.mem_insert_self k held) hn
      (show (insert k held).card + (n - (held.card + 1)) = n by omega)
    have hroom := @potential_room_le K _ places (n - (held.card + 1)) (recent places history)
      (insert k held)
    have hsplit : n - (held.card + 1) + 1 = n - held.card := by omega
    rw [hsplit] at hroom
    have hinsert := @potential_insert_le K _ places (n - held.card) (recent places history) held k
    rw [misses, Nat.mul_add, recent, hcard, Nat.mul_add, Nat.mul_one]
    omega
  | @replace history held m k y hs hk hcard hy ih =>
    have hcard' : (insert k (held.erase y)).card = held.card := by
      rw [Finset.card_insert_of_notMem (fun h => hk (Finset.mem_of_mem_erase h)),
        Finset.card_erase_of_mem hy]
      have hpos := Finset.card_pos.mpr ⟨y, hy⟩
      omega
    have htouch := potential_touch_le (nodup_recent places history)
      (length_recent_le hpos history) (Finset.mem_insert_self k (held.erase y)) hn
      (show (insert k (held.erase y)).card + (n - held.card) = n by omega)
    have herase := @potential_erase_le K _ places (n - held.card) (recent places history) held
      (nodup_recent places history) y
    have hinsert := @potential_insert_le K _ places (n - held.card) (recent places history)
      (held.erase y) k
    rw [misses, Nat.mul_add, recent, hcard', Nat.mul_add, Nat.mul_one]
    omega

/-- **Competitiveness.** Against any way of serving the history with room for `n` keys, known
in advance or not, the `places` most recently used keys miss at most `places / (places + 1 - n)`
times as often, and a constant. -/
theorem Serves.competitive {n places : Nat} {history : List K} {held : Finset K} {m : Nat}
    (h : Serves (fun held => held.card ≤ n) history held m) (hn : n ≤ places) (hpos : 0 < places) :
    (places + 1 - n) * misses places history ≤ places * m + triangle (places - n) := by
  obtain ⟨held', m', _, hm, hlazy⟩ := h.lazily
  have hpot := hlazy.potential_le hn hpos
  have hmul := Nat.mul_le_mul_left places hm
  omega

/-! ### Keys in sets

The keys are divided into sets, and each set keeps its own most recently used ones. -/

section
variable {I : Type*} [DecidableEq I] (set : K → I)

omit [DecidableEq K] in
/-- The uses of the keys of a set. -/
def inSet (i : I) (history : List K) : List K := history.filter (fun x => set x = i)

/-- The uses of keys that are not among the `n` kept of their set. -/
def missesIn (n : Nat) : List K → Nat
  | [] => 0
  | k :: history =>
    missesIn n history + if k ∈ recent n (inSet set (set k) history) then 0 else 1

variable {set}

omit [DecidableEq K] in
theorem inSet_cons (k : K) (i : I) (history : List K) : inSet set i (k :: history) =
    if set k = i then k :: inSet set i history else inSet set i history := by
  by_cases hk : set k = i <;> simp [inSet, hk]

/-- Whether each use of a history finds its key among the `n` kept of its set. -/
def served (set : K → I) (n : Nat) : List K → List Bool
  | [] => []
  | k :: history =>
    decide (k ∈ recent n (inSet set (set k) history)) :: served set n history

theorem count_false_served (n : Nat) (history : List K) :
    (served set n history).count false = missesIn set n history := by
  induction history with
  | nil => rfl
  | cons k history ih =>
    rw [served, missesIn, List.count_cons, ih]
    by_cases hk : k ∈ recent n (inSet set (set k) history) <;> simp [hk]

/-- Each set serves its own uses as if there were no others. -/
theorem served_inSet (n : Nat) (i : I) (history : List K) :
    ((history.zip (served set n history)).filter (fun p => set p.1 = i)).map Prod.snd =
      hits n (inSet set i history) := by
  induction history with
  | nil => rfl
  | cons k history ih =>
    rw [served, List.zip_cons_cons, inSet_cons]
    by_cases hk : set k = i
    · rw [List.filter_cons_of_pos (by simpa using hk), List.map_cons, ih, if_pos hk, hits, hk]
    · rw [List.filter_cons_of_neg (by simpa using hk), ih, if_neg hk]

/-- Results given one by one, for uses in the order they are made. -/
theorem reverse_eq_served {A : Type*} {key : A → K} {n : Nat} {uses : List A} {results : List Bool}
    (hlen : results.length = uses.length)
    (h : ∀ (i : Nat) a, uses[i]? = some a → results[i]? = some (decide (key a ∈ recent n
      (inSet set (set (key a)) ((uses.take i).map key).reverse)))) :
    results.reverse = served set n (uses.map key).reverse := by
  induction uses using List.reverseRecOn generalizing results with
  | nil => rw [List.eq_nil_of_length_eq_zero hlen]; rfl
  | append_singleton uses a ih =>
    rw [List.length_append, List.length_singleton] at hlen
    have hlast := h uses.length a List.getElem?_concat_length
    rw [List.take_left] at hlast
    have hne : results ≠ [] := List.ne_nil_of_length_pos (by omega)
    have hpos : results.length - 1 = uses.length := by omega
    have hend : results.getLast hne = decide (key a ∈ recent n
        (inSet set (set (key a)) (uses.map key).reverse)) := by
      have hget : results.getLast? = results[results.length - 1]? := List.getLast?_eq_getElem?
      rw [hpos, hlast, List.getLast?_eq_some_getLast hne] at hget
      exact Option.some.inj hget
    have hrest := @ih results.dropLast (by rw [List.length_dropLast, hpos]) (fun i x hx => by
      have hlt : i < uses.length := (List.getElem?_eq_some_iff.mp hx).1
      have hi := h i x ((List.getElem?_append_left hlt).trans hx)
      rw [List.take_append_of_le_length (Nat.le_of_lt hlt)] at hi
      rw [List.getElem?_dropLast, if_pos (by omega)]
      exact hi)
    rw [← List.dropLast_append_getLast hne, List.reverse_append, hrest, List.map_append,
      List.reverse_append, hend]
    rfl

/-- The uses since the last one of `k`, of the keys of its set. -/
theorem since_inSet (k : K) (history : List K) :
    since k (inSet set (set k) history) = inSet set (set k) (since k history) := by
  rw [since, inSet, List.takeWhile_filter]
  refine congrArg _ (congrArg (List.takeWhile · history) (funext fun x => ?_))
  by_cases hx : x = k
  · simp [hx]
  · simp [hx]

/-- The misses are those of all the sets. -/
theorem missesIn_eq_sum (n : Nat) {history : List K} {s : Finset I}
    (hs : ∀ k ∈ history, set k ∈ s) :
    missesIn set n history = ∑ i ∈ s, misses n (inSet set i history) := by
  induction history with
  | nil => simp [missesIn, inSet, misses]
  | cons k history ih =>
    rw [List.forall_mem_cons] at hs
    have hterm : ∀ i ∈ s, misses n (inSet set i (k :: history)) =
        misses n (inSet set i history) + if set k = i then
          (if k ∈ recent n (inSet set (set k) history) then 0 else 1) else 0 := by
      intro i _
      rw [inSet_cons]
      by_cases hk : set k = i
      · rw [if_pos hk, if_pos hk, misses, hk]
      · rw [if_neg hk, if_neg hk, Nat.add_zero]
    rw [missesIn, ih hs.2, Finset.sum_congr rfl hterm, Finset.sum_add_distrib,
      Finset.sum_ite_eq, if_pos hs.1]

/-- The distinct keys are those of all the sets. -/
theorem card_toFinset_eq_sum {history : List K} {s : Finset I} (hs : ∀ k ∈ history, set k ∈ s) :
    history.toFinset.card = ∑ i ∈ s, (inSet set i history).toFinset.card := by
  rw [Finset.card_eq_sum_card_fiberwise (fun k hk => hs k (List.mem_toFinset.mp hk))]
  refine Finset.sum_congr rfl (fun i _ => congrArg Finset.card ?_)
  rw [inSet, List.toFinset_filter]
  ext x
  simp

theorem card_le_missesIn {n : Nat} (hn : 0 < n) (history : List K) :
    history.toFinset.card ≤ missesIn set n history := by
  have hs : ∀ k ∈ history, set k ∈ history.toFinset.image set :=
    fun k hk => Finset.mem_image_of_mem set (List.mem_toFinset.mpr hk)
  rw [missesIn_eq_sum n hs, card_toFinset_eq_sum hs]
  exact Finset.sum_le_sum (fun i _ => card_le_misses hn _)

/-- When the keys of every set fit, each key is missed once. -/
theorem missesIn_eq_card {n : Nat} (hn : 0 < n) {history : List K}
    (hfits : ∀ i, (inSet set i history).toFinset.card ≤ n) :
    missesIn set n history = history.toFinset.card := by
  have hs : ∀ k ∈ history, set k ∈ history.toFinset.image set :=
    fun k hk => Finset.mem_image_of_mem set (List.mem_toFinset.mpr hk)
  rw [missesIn_eq_sum n hs, card_toFinset_eq_sum hs]
  exact Finset.sum_congr rfl (fun i _ => misses_eq_card hn (hfits i))

/-- At most `n` keys of each set. -/
def FitsSets (set : K → I) (n : Nat) (held : Finset K) : Prop :=
  ∀ i, (held.filter (fun x => set x = i)).card ≤ n

omit [DecidableEq K] in
/-- The sets of the keys held are enough to look at. -/
theorem fitsSets_iff {n : Nat} {held : Finset K} :
    FitsSets set n held ↔ ∀ k ∈ held, (held.filter (fun x => set x = set k)).card ≤ n := by
  constructor
  · intro h k _
    exact h (set k)
  · intro h i
    rcases Finset.eq_empty_or_nonempty (held.filter (fun x => set x = i)) with hnone | ⟨k, hk⟩
    · rw [hnone, Finset.card_empty]
      exact Nat.zero_le n
    · obtain ⟨hmem, rfl⟩ := Finset.mem_filter.mp hk
      exact h k hmem

/-- A way of serving all the sets serves each of them. -/
theorem Serves.inSets {n : Nat} {history : List K} {held : Finset K} {m : Nat}
    (h : Serves (FitsSets set n) history held m) : ∃ f : I → Nat,
      (∀ s : Finset I, ∑ i ∈ s, f i ≤ m) ∧ ∀ i, ∃ held',
        held.filter (fun x => set x = i) ⊆ held' ∧
          Serves (fun held => held.card ≤ n) (inSet set i history) held' (f i) := by
  induction h with
  | nil => exact ⟨fun _ => 0, fun s => by simp, fun i => ⟨∅, by simp, .nil⟩⟩
  | @use history held next m k hs hsub hk hfits ih =>
    obtain ⟨f, hsum, hserves⟩ := ih
    obtain ⟨kept, hkept, hown⟩ := hserves (set k)
    refine ⟨Function.update f (set k) (f (set k) + if k ∈ kept then 0 else 1), fun s => ?_,
      fun i => ?_⟩
    · have hcost : (if k ∈ kept then 0 else 1) ≤ if k ∈ held then 0 else 1 := by
        by_cases hin : k ∈ held
        · rw [if_pos (hkept (Finset.mem_filter.mpr ⟨hin, rfl⟩)), if_pos hin]
        · rw [if_neg hin]
          split <;> omega
      by_cases hmem : set k ∈ s
      · have hall := hsum s
        rw [← Finset.add_sum_erase s f hmem] at hall
        rw [← Finset.add_sum_erase s _ hmem, Function.update_self,
          Finset.sum_congr rfl (fun i hi => Function.update_of_ne (Finset.ne_of_mem_erase hi) _ f),
          Nat.add_right_comm]
        exact Nat.add_le_add hall hcost
      · have hne : ∀ i ∈ s, i ≠ set k := fun i hi he => hmem (he ▸ hi)
        rw [Finset.sum_congr rfl (fun i hi => Function.update_of_ne (hne i hi) _ f)]
        exact Nat.le_add_right_of_le (hsum s)
    · rw [inSet_cons]
      by_cases hi : set k = i
      · subst hi
        rw [if_pos rfl, Function.update_self]
        refine ⟨next.filter (fun x => set x = set k), Finset.Subset.refl _,
          hown.use ?_ (Finset.mem_filter.mpr ⟨hk, rfl⟩) (hfits _)⟩
        intro x hx
        obtain ⟨hx, hxset⟩ := Finset.mem_filter.mp hx
        rcases Finset.mem_insert.mp (hsub hx) with rfl | hx
        · exact Finset.mem_insert_self _ _
        · exact Finset.mem_insert_of_mem (hkept (Finset.mem_filter.mpr ⟨hx, hxset⟩))
      · obtain ⟨held', hheld', hserve⟩ := hserves i
        rw [if_neg hi, Function.update_of_ne (Ne.symm hi)]
        refine ⟨held', fun x hx => ?_, hserve⟩
        obtain ⟨hx, hxset⟩ := Finset.mem_filter.mp hx
        rcases Finset.mem_insert.mp (hsub hx) with rfl | hx
        · exact absurd hxset hi
        · exact hheld' (Finset.mem_filter.mpr ⟨hx, hxset⟩)

theorem Serves.competitive_sets {n places : Nat} {history : List K} {held : Finset K} {m : Nat}
    (h : Serves (FitsSets set n) history held m) (hn : n ≤ places) (hpos : 0 < places)
    {s : Finset I} (hs : ∀ k ∈ history, set k ∈ s) :
    (places + 1 - n) * missesIn set places history ≤
      places * m + s.card * triangle (places - n) := by
  obtain ⟨f, hsum, hserves⟩ := h.inSets
  have hone : ∀ i ∈ s, (places + 1 - n) * misses places (inSet set i history) ≤
      places * f i + triangle (places - n) := by
    intro i _
    obtain ⟨held', _, hserve⟩ := hserves i
    exact hserve.competitive hn hpos
  calc (places + 1 - n) * missesIn set places history
      = ∑ i ∈ s, (places + 1 - n) * misses places (inSet set i history) := by
        rw [missesIn_eq_sum places hs, Finset.mul_sum]
    _ ≤ ∑ i ∈ s, (places * f i + triangle (places - n)) := Finset.sum_le_sum hone
    _ = places * (∑ i ∈ s, f i) + s.card * triangle (places - n) := by
        rw [Finset.sum_add_distrib, ← Finset.mul_sum, Finset.sum_const, nsmul_eq_mul, Nat.cast_id]
    _ ≤ places * m + s.card * triangle (places - n) :=
        Nat.add_le_add_right (Nat.mul_le_mul_left places (hsum s)) _

end

end Paging
