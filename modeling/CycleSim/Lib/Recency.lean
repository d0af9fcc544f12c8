import Mathlib.Data.Finset.Card
import Mathlib.Data.List.Perm.Basic

/-! The most recently used keys of a history.

A history lists the keys used, newest first. `recent n` keeps at most `n` of them by
moving each key to the front when it is used and dropping what no longer fits.
`mem_recent_iff` says what is in it: a key is kept while fewer than `n` distinct keys
have been used since. -/
namespace Recency

variable {K L : Type*} [DecidableEq K] [DecidableEq L]

/-- Use a key: it moves to the front, and of the others at most `n - 1` stay. -/
def touch (n : Nat) (k : K) (keys : List K) : List K :=
  k :: (keys.filter (fun x => x ≠ k)).take (n - 1)

/-- The at most `n` keys kept after a history. -/
def recent (n : Nat) : List K → List K
  | [] => []
  | k :: history => touch n k (recent n history)

/-- All keys of a history, most recently used first. -/
def stack : List K → List K
  | [] => []
  | k :: history => k :: (stack history).filter (fun x => x ≠ k)

/-- The keys used since the last use of `k`. -/
def since (k : K) (history : List K) : List K := history.takeWhile (fun x => x ≠ k)

theorem nodup_stack (history : List K) : (stack history).Nodup := by
  induction history with
  | nil => exact List.nodup_nil
  | cons k history ih =>
    refine List.nodup_cons.mpr ⟨?_, ih.filter _⟩
    simp [List.mem_filter]

theorem mem_stack {k : K} {history : List K} : k ∈ stack history ↔ k ∈ history := by
  induction history with
  | nil => rfl
  | cons a history ih =>
    by_cases hk : k = a
    · simp [stack, hk]
    · simp [stack, hk, ih]

/-- Dropping the last key before or after removing one is the same to the others. -/
theorem take_filter_take {keys : List K} (hd : keys.Nodup) (n : Nat) (k : K) :
    ((keys.take (n + 1)).filter (fun x => x ≠ k)).take n =
      (keys.filter (fun x => x ≠ k)).take n := by
  induction keys generalizing n with
  | nil => rfl
  | cons a keys ih =>
    obtain ⟨ha, hd⟩ := List.nodup_cons.mp hd
    by_cases hk : a = k
    · subst hk
      have hall : ∀ l : List K, a ∉ l → l.filter (fun x => x ≠ a) = l := by
        intro l hl
        exact List.filter_eq_self.mpr (fun x hx => by
          have hne : x ≠ a := fun h => hl (h ▸ hx)
          simpa using hne)
      have hfirst : a ∉ keys.take n := fun h => ha (List.mem_of_mem_take h)
      simp only [List.take_succ_cons, List.filter_cons, ne_eq, not_true_eq_false, decide_false,
        Bool.false_eq_true, if_false]
      rw [hall _ hfirst, hall _ ha, List.take_take, Nat.min_self]
    · cases n with
      | zero => rfl
      | succ n => simpa [hk] using ih hd n

theorem recent_eq {n : Nat} (hn : 0 < n) (history : List K) :
    recent n history = (stack history).take n := by
  obtain ⟨m, rfl⟩ := Nat.exists_eq_succ_of_ne_zero hn.ne'
  induction history with
  | nil => rfl
  | cons k history ih =>
    rw [recent, stack, ih, touch, Nat.succ_sub_one, take_filter_take (nodup_stack history)]
    rfl

/-- **Inclusion.** With room for more keys, no key is missing that was kept with less. -/
theorem recent_subset {m n : Nat} (hm : 0 < m) (hmn : m ≤ n) (history : List K) :
    recent m history ⊆ recent n history := by
  rw [recent_eq hm, recent_eq (Nat.lt_of_lt_of_le hm hmn)]
  exact List.take_subset_take_left _ hmn

/-- In front of a key stand the keys used since its last use. -/
theorem toFinset_since_stack (k : K) (history : List K) :
    (since k (stack history)).toFinset = (since k history).toFinset := by
  induction history with
  | nil => rfl
  | cons a history ih =>
    by_cases hk : a = k
    · simp [since, stack, hk]
    · have hfilter : since k ((stack history).filter (fun x => x ≠ a)) =
          (since k (stack history)).filter (fun x => x ≠ a) := by
        rw [since, List.takeWhile_filter]
        refine congrArg _ (congrArg (List.takeWhile · _) (funext fun x => ?_))
        by_cases hx : x = a
        · simp [hx, hk]
        · simp [hx]
      have hrec : (since k (a :: history)).toFinset = insert a (since k history).toFinset := by
        simp [since, hk]
      have hcons : since k (stack (a :: history)) =
          a :: since k ((stack history).filter (fun x => x ≠ a)) := by
        simp [since, stack, hk]
      rw [hcons, hfilter, hrec, ← ih, List.toFinset_cons, List.toFinset_filter]
      ext x
      simp only [Finset.mem_insert, Finset.mem_filter, decide_eq_true_eq]
      tauto

theorem length_since_eq_idxOf (k : K) (keys : List K) : (since k keys).length = keys.idxOf k := by
  induction keys with
  | nil => rfl
  | cons a keys ih =>
    by_cases hk : a = k
    · simp [since, hk]
    · rw [List.idxOf_cons_ne _ hk, ← ih]
      simp [since, hk]

/-- **What is kept.** A key is among the `n` most recently used exactly when it has been
used and fewer than `n` distinct keys have been used since. -/
theorem mem_recent_iff {n : Nat} (hn : 0 < n) {k : K} {history : List K} :
    k ∈ recent n history ↔ k ∈ history ∧ (since k history).toFinset.card < n := by
  rw [recent_eq hn]
  have hcard : (since k history).toFinset.card = (stack history).idxOf k := by
    have hnodup : (since k (stack history)).Nodup :=
      (nodup_stack history).sublist (List.takeWhile_sublist _)
    rw [← toFinset_since_stack, List.toFinset_card_of_nodup hnodup, length_since_eq_idxOf]
  rw [hcard, ← @mem_stack K _ k history]
  constructor
  · intro h
    have hmem : k ∈ stack history := List.mem_of_mem_take h
    exact ⟨hmem, (List.mem_take_iff_idxOf_lt hmem).mp h⟩
  · intro ⟨hmem, hlt⟩
    exact (List.mem_take_iff_idxOf_lt hmem).mpr hlt

omit [DecidableEq K] [DecidableEq L] in
theorem mem_map_iff_of_forall {A : Type*} {f : A → K} {g : A → L} {l : List A} {a : A}
    (h : ∀ x ∈ l, f x = f a ↔ g x = g a) : f a ∈ l.map f ↔ g a ∈ l.map g := by
  simp only [List.mem_map]
  exact exists_congr (fun x => and_congr_right (fun hx => h x hx))

/-- Two namings of the same things count them alike. -/
theorem card_toFinset_map_congr {A : Type*} {f : A → K} {g : A → L} {l : List A}
    (h : ∀ x ∈ l, ∀ y ∈ l, f x = f y ↔ g x = g y) :
    (l.map f).toFinset.card = (l.map g).toFinset.card := by
  induction l with
  | nil => rfl
  | cons a l ih =>
    have htail := ih (fun x hx y hy => h x (List.mem_cons_of_mem a hx) y (List.mem_cons_of_mem a hy))
    have hmem : f a ∈ (l.map f).toFinset ↔ g a ∈ (l.map g).toFinset := by
      rw [List.mem_toFinset, List.mem_toFinset]
      exact mem_map_iff_of_forall (fun x hx => h x (List.mem_cons_of_mem a hx) a List.mem_cons_self)
    rw [List.map_cons, List.map_cons, List.toFinset_cons, List.toFinset_cons]
    by_cases ha : f a ∈ (l.map f).toFinset
    · rw [Finset.insert_eq_of_mem ha, Finset.insert_eq_of_mem (hmem.mp ha), htail]
    · rw [Finset.card_insert_of_notMem ha, Finset.card_insert_of_notMem (mt hmem.mpr ha), htail]

end Recency
