import Mathlib.Data.Finset.Lattice.Fold
import Mathlib.Data.Fintype.Basic
import Mathlib.Order.Monotone.Basic
import Mathlib.Order.Lattice.Nat
import Mathlib.Algebra.BigOperators.Intervals
import Mathlib.Algebra.Order.BigOperators.Group.Finset

/-! The earliest in-order schedule of a sequence of jobs.

Job 0 starts at `first`; each later job starts at least one step, and the gap of its
predecessor, after it, and the latency of every older job it waits for after that job.
`start_le_iff` is all one needs of the recursion: a job may start at `n` exactly when
none of these holds it back. -/
namespace Schedule

variable (first : Nat) (gap : Nat → Nat) (latency : Nat → Nat → Option Nat)

/-- The start of every job up to the `k`-th. `latency j i` is how long job `i` waits for an
older job `j`. -/
def starts : Nat → Nat → Nat
  | 0 => fun _ => first
  | i + 1 => fun k =>
    if k ≤ i then starts i k
    else max (starts i i + 1 + gap i) ((Finset.range (i + 1)).sup fun j =>
      match latency j (i + 1) with
      | some d => starts i j + d
      | none => 0)

/-- When a job starts. -/
def start (k : Nat) : Nat := starts first gap latency k k

/-- When a job could start if it waited for no result. -/
def ready : Nat → Nat
  | 0 => first
  | i + 1 => start first gap latency i + 1 + gap i

section
variable {first : Nat} {gap : Nat → Nat} {latency : Nat → Nat → Option Nat}

theorem starts_eq {i k : Nat} (h : k ≤ i) :
    starts first gap latency i k = start first gap latency k := by
  induction i with
  | zero =>
    obtain rfl := Nat.le_zero.mp h
    rfl
  | succ i ih =>
    rcases Nat.lt_or_eq_of_le h with hlt | rfl
    · exact (if_pos (Nat.le_of_lt_succ hlt)).trans (ih (Nat.le_of_lt_succ hlt))
    · rfl

theorem start_succ (i : Nat) : start first gap latency (i + 1) =
    max (start first gap latency i + 1 + gap i) ((Finset.range (i + 1)).sup fun j =>
      match latency j (i + 1) with
      | some d => start first gap latency j + d
      | none => 0) := by
  refine (if_neg (Nat.not_succ_le_self i)).trans ?_
  refine congrArg₂ max (by rw [starts_eq (Nat.le_refl i)]) (Finset.sup_congr rfl fun j hj => ?_)
  rw [starts_eq (Nat.le_of_lt_succ (Finset.mem_range.mp hj))]

theorem start_le_iff (k n : Nat) : start first gap latency k ≤ n ↔ ready first gap latency k ≤ n ∧
    ∀ j < k, ∀ d, latency j k = some d → start first gap latency j + d ≤ n := by
  cases k with
  | zero => exact ⟨fun h => ⟨h, fun j hj => absurd hj (Nat.not_lt_zero j)⟩, And.left⟩
  | succ i =>
    rw [start_succ, ready, max_le_iff, Finset.sup_le_iff]
    refine and_congr_right (fun _ => ⟨fun h j hj d hd => ?_, fun h j hj => ?_⟩)
    · simpa only [hd] using h j (Finset.mem_range.mpr hj)
    · cases hd : latency j (i + 1) with
      | none => exact Nat.zero_le n
      | some d => exact h j (Finset.mem_range.mp hj) d hd

theorem ready_le_start (k : Nat) : ready first gap latency k ≤ start first gap latency k :=
  ((start_le_iff k _).mp (Nat.le_refl _)).1

theorem start_lt_succ (k : Nat) : start first gap latency k < start first gap latency (k + 1) := by
  have h : ready first gap latency (k + 1) ≤ _ := ready_le_start (k + 1)
  rw [ready] at h
  omega

theorem start_strictMono : StrictMono (start first gap latency) :=
  strictMono_nat_of_lt_succ start_lt_succ

/-- Where the time before a job goes: one step a job, the gaps and the waits. -/
theorem ready_eq_sum (k : Nat) : ready first gap latency k = first + k +
    ∑ i ∈ Finset.range k, gap i +
    ∑ i ∈ Finset.range k, (start first gap latency i - ready first gap latency i) := by
  induction k with
  | zero => rfl
  | succ k ih =>
    have h : ready first gap latency k ≤ _ := ready_le_start k
    rw [Finset.sum_range_succ, Finset.sum_range_succ, ready]
    omega

end

end Schedule
