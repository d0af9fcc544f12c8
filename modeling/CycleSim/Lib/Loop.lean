import Mathlib.Logic.Function.Iterate
import Mathlib.Data.Sum.Basic

/-! Loops that may not end.

A loop is its body: from a state, either the next state (`inl`) or the value the
loop is left with (`inr`). `run` executes at most `fuel` iterations; a loop
`Yields` a value when some amount of fuel is enough, and then any larger amount
gives the same value. -/
namespace Loop

variable {σ ρ : Type*} {body : σ → σ ⊕ ρ}

/-- At most `fuel` iterations. -/
def run (body : σ → σ ⊕ ρ) : Nat → σ → Option ρ
  | 0, _ => none
  | fuel + 1, s =>
    match body s with
    | .inl s' => run body fuel s'
    | .inr r => some r

/-- The loop ends, with this value. -/
def Yields (body : σ → σ ⊕ ρ) (s : σ) (r : ρ) : Prop := ∃ fuel, run body fuel s = some r

/-- A result stays with more fuel. -/
theorem run_mono {n : Nat} {s : σ} {r : ρ} (h : run body n s = some r) (k : Nat) :
    run body (n + k) s = some r := by
  induction n generalizing s with
  | zero => cases h
  | succ n ih =>
    rw [Nat.add_right_comm]
    simp only [run] at h ⊢
    cases hb : body s with
    | inl s' =>
      rw [hb] at h
      exact ih h
    | inr r' =>
      rw [hb] at h
      exact h

theorem Yields.unique {s : σ} {r r' : ρ} (h : Yields body s r) (h' : Yields body s r') : r = r' := by
  obtain ⟨n, hn⟩ := h
  obtain ⟨k, hk⟩ := h'
  have h₁ := run_mono hn k
  have h₂ := run_mono hk n
  rw [Nat.add_comm k n, h₁] at h₂
  exact Option.some.inj h₂

theorem Yields.exit {s : σ} {r : ρ} (h : body s = .inr r) : Yields body s r :=
  ⟨1, by rw [run, h]⟩

theorem Yields.step {s s' : σ} {r : ρ} (h : body s = .inl s') (hr : Yields body s' r) :
    Yields body s r := by
  obtain ⟨fuel, hrun⟩ := hr
  refine ⟨fuel + 1, ?_⟩
  rw [run, h]
  exact hrun

/-- `k` iterations that go on, then one that leaves the loop. -/
theorem run_iterate {next : σ → σ} {s : σ} {r : ρ} (k : Nat)
    (hgo : ∀ i < k, body (next^[i] s) = .inl (next^[i + 1] s))
    (hexit : body (next^[k] s) = .inr r) : run body (k + 1) s = some r := by
  induction k generalizing s with
  | zero => simp only [run, show body s = .inr r from hexit]
  | succ k ih =>
    have hfirst : body s = .inl (next s) := hgo 0 (Nat.succ_pos k)
    have hrest : run body (k + 1) (next s) = some r :=
      ih (fun i hi => hgo (i + 1) (Nat.succ_lt_succ hi)) hexit
    rw [run, hfirst]
    exact hrest

theorem Yields.iterate {next : σ → σ} {s : σ} {r : ρ} (k : Nat)
    (hgo : ∀ i < k, body (next^[i] s) = .inl (next^[i + 1] s))
    (hexit : body (next^[k] s) = .inr r) : Yields body s r :=
  ⟨k + 1, run_iterate k hgo hexit⟩

/-- A loop that ended went on `k` times and then left. -/
theorem exists_exit {next : σ → σ} (hnext : ∀ s s', body s = .inl s' → s' = next s) {n : Nat}
    {s : σ} {r : ρ} (h : run body n s = some r) :
    ∃ k, (∀ i < k, body (next^[i] s) = .inl (next^[i + 1] s)) ∧ body (next^[k] s) = .inr r := by
  induction n generalizing s with
  | zero => cases h
  | succ n ih =>
    simp only [run] at h
    cases hb : body s with
    | inr r' =>
      rw [hb] at h
      refine ⟨0, fun i hi => absurd hi (Nat.not_lt_zero i), ?_⟩
      show body s = _
      rw [hb, Option.some.inj h]
    | inl s' =>
      obtain rfl := hnext s s' hb
      rw [hb] at h
      obtain ⟨k, hgo, hexit⟩ := ih h
      refine ⟨k + 1, fun i hi => ?_, hexit⟩
      cases i with
      | zero => exact hb
      | succ i => exact hgo i (Nat.lt_of_succ_lt_succ hi)

/-- What a loop yields, by the number of times it goes on. -/
theorem yields_iff {next : σ → σ} (hnext : ∀ s s', body s = .inl s' → s' = next s) {s : σ} {r : ρ} :
    Yields body s r ↔
      ∃ k, (∀ i < k, body (next^[i] s) = .inl (next^[i + 1] s)) ∧ body (next^[k] s) = .inr r :=
  ⟨fun ⟨_, hrun⟩ => exists_exit hnext hrun, fun ⟨k, hgo, hexit⟩ => Yields.iterate k hgo hexit⟩

/-- A loop over the states of another. -/
theorem run_map {σ' ρ' : Type*} {body' : σ' → σ' ⊕ ρ'} {f : σ → σ'} {g : ρ → ρ'}
    (h : ∀ s, body' (f s) = (body s).map f g) (n : Nat) (s : σ) :
    run body' n (f s) = (run body n s).map g := by
  induction n generalizing s with
  | zero => rfl
  | succ n ih =>
    rw [run, run, h]
    cases body s with
    | inl s' => exact ih s'
    | inr r => rfl

end Loop
