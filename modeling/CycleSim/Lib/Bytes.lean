import Mathlib.Data.BitVec
import Mathlib.Algebra.BigOperators.Ring.Finset

/-! Numbers as little-endian byte lists, and writing a byte list into an array.

`value` reads a list of bytes, `digits n v` is the low `n` bytes of `v`, and
`splice xs p bs` writes `bs` over `xs` from position `p`, dropping what does not
fit. `getElem?_splice` says what a spliced list holds at every position. -/
namespace Bytes

/-- The number a little-endian byte list stands for. -/
def value : List (BitVec 8) → Nat
  | [] => 0
  | b :: bs => b.toNat + 256 * value bs

/-- The low `n` bytes of a number, least significant first. -/
def digits : Nat → Nat → List (BitVec 8)
  | 0, _ => []
  | n + 1, v => BitVec.ofNat 8 v :: digits n (v / 256)

@[simp] theorem length_digits (n v : Nat) : (digits n v).length = n := by
  induction n generalizing v with
  | zero => rfl
  | succ n ih => simp [digits, ih]

theorem value_digits (n v : Nat) : value (digits n v) = v % 256 ^ n := by
  induction n generalizing v with
  | zero => simp [digits, value, Nat.mod_one]
  | succ n ih =>
    have hpow : 256 ^ (n + 1) = 256 * 256 ^ n := Nat.pow_succ'
    rw [digits, value, ih, BitVec.toNat_ofNat, hpow, Nat.mod_mul]

theorem getElem?_digits {n i : Nat} (hi : i < n) (v : Nat) :
    (digits n v)[i]? = some (BitVec.ofNat 8 (v / 256 ^ i)) := by
  induction n generalizing i v with
  | zero => omega
  | succ n ih =>
    cases i with
    | zero => simp [digits]
    | succ i =>
      simp only [digits, List.getElem?_cons_succ]
      rw [ih (by omega), Nat.div_div_eq_div_mul, Nat.pow_succ']

theorem value_lt (bs : List (BitVec 8)) : value bs < 256 ^ bs.length := by
  induction bs with
  | nil => simp [value]
  | cons b bs ih =>
    have hb := b.isLt
    simp only [value, List.length_cons, Nat.pow_succ']
    omega

theorem value_eq_sum (bs : List (BitVec 8)) (f : Nat → BitVec 8)
    (h : ∀ i < bs.length, bs[i]? = some (f i)) :
    value bs = ∑ i ∈ Finset.range bs.length, 256 ^ i * (f i).toNat := by
  induction bs generalizing f with
  | nil => rfl
  | cons b bs ih =>
    have hb : b = f 0 := by simpa using h 0 (by simp)
    have htail : value bs = ∑ i ∈ Finset.range bs.length, 256 ^ i * (f (i + 1)).toNat :=
      ih (fun i => f (i + 1)) (fun i hi => by simpa using h (i + 1) (by simpa using hi))
    rw [value, List.length_cons, Finset.sum_range_succ', htail, Finset.mul_sum, hb, Nat.add_comm]
    simp [Nat.pow_succ', Nat.mul_assoc]

/-- Where a list ends, zeros may be read on. -/
theorem value_take (bs : List (BitVec 8)) (n : Nat) :
    value (bs.take n) = value ((List.range n).map (fun i => (bs[i]?).getD 0#8)) := by
  induction n generalizing bs with
  | zero => simp [value]
  | succ n ih =>
    rw [List.range_succ_eq_map, List.map_cons, List.map_map, value]
    cases bs with
    | nil =>
      have hzero : value ([].take n) = value ((List.range n).map (fun _ => 0#8)) := ih []
      rw [List.take_nil] at hzero
      show 0 = 0 + 256 * value ((List.range n).map (fun _ => 0#8))
      rw [← hzero, value]
    | cons b bs =>
      rw [List.take_succ_cons, value, ih bs]
      simp [Function.comp_def]

section
variable {α : Type*}

/-- `bs` written over `xs` from position `p`, as far as `xs` reaches. -/
def splice (xs : List α) (p : Nat) : List α → List α
  | [] => xs
  | b :: bs => splice (xs.set p b) (p + 1) bs

@[simp] theorem length_splice (xs : List α) (p : Nat) (bs : List α) :
    (splice xs p bs).length = xs.length := by
  induction bs generalizing xs p with
  | nil => rfl
  | cons b bs ih => simp [splice, ih]

theorem getElem?_splice (xs : List α) (p : Nat) (bs : List α) (k : Nat) :
    (splice xs p bs)[k]? =
      if p ≤ k ∧ k < p + bs.length ∧ k < xs.length then bs[k - p]? else xs[k]? := by
  induction bs generalizing xs p with
  | nil =>
    rw [if_neg (by simp; omega)]
    rfl
  | cons b bs ih =>
    simp only [splice, ih, List.length_set, List.length_cons, List.getElem?_set]
    by_cases hk : p = k
    · subst hk
      by_cases hx : p < xs.length
      · simp [hx]
      · simp [hx]
    · by_cases hr : p + 1 ≤ k ∧ k < p + 1 + bs.length ∧ k < xs.length
      · have hsub : k - p = (k - (p + 1)) + 1 := by omega
        rw [if_pos hr, if_pos (by omega), hsub, List.getElem?_cons_succ]
      · simp only [hk, if_false]
        rw [if_neg hr, if_neg (by omega)]

/-- Past the end nothing is written. -/
theorem splice_of_length_le {xs : List α} {p : Nat} (h : xs.length ≤ p) (bs : List α) :
    splice xs p bs = xs := by
  apply List.ext_getElem?
  intro k
  rw [getElem?_splice, if_neg (by omega)]

/-- Splicing changes nothing when every byte that fits is there already. -/
theorem splice_eq_self_iff {xs : List α} {p : Nat} {bs : List α} :
    splice xs p bs = xs ↔ ∀ i < bs.length, p + i < xs.length → xs[p + i]? = bs[i]? := by
  constructor
  · intro h i hi hx
    have hget := getElem?_splice xs p bs (p + i)
    rw [h, if_pos ⟨by omega, by omega, hx⟩, Nat.add_sub_cancel_left] at hget
    exact hget
  · intro h
    apply List.ext_getElem?
    intro k
    rw [getElem?_splice]
    split
    · rename_i hk
      obtain ⟨i, rfl⟩ := Nat.exists_eq_add_of_le hk.1
      rw [Nat.add_sub_cancel_left, h i (by omega) hk.2.2]
    · rfl

end

end Bytes
