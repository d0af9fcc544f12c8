import Mathlib.Order.Basic

/-! Total correctness of a machine, by the number of its steps.

A machine is its step, which may be stuck. `Leads` says that a number of steps, each from a safe
state, leads to a postcondition, a `Triple` that it does from every state with a precondition.
The steps of triples that follow one another add up, and those of the rounds of a loop
(`Triple.loop`). What a triple says holds of the run of the machine (`Leads.run`). -/
namespace Hoare

variable {σ : Type*} (step : σ → Option σ) (safe : σ → Prop)

/-- The machine takes `k` steps, from safe states only, to a state with `Q`. -/
inductive Leads (Q : σ → Prop) : Nat → σ → Prop
  | done {s : σ} (h : Q s) : Leads Q 0 s
  | next {k : Nat} {s t : σ} (hs : safe s) (ht : step s = some t) (h : Leads Q k t) :
      Leads Q (k + 1) s

/-- From every state with `P` the machine takes `k` steps to one with `Q`. -/
def Triple (P : σ → Prop) (k : Nat) (Q : σ → Prop) : Prop := ∀ s, P s → Leads step safe Q k s

variable {step safe} {P Q R : σ → Prop} {j k : Nat}

theorem Leads.trans {s : σ} (h : Leads step safe Q j s) (hQ : Triple step safe Q k R) :
    Leads step safe R (j + k) s := by
  induction h with
  | done h =>
    rw [Nat.zero_add]
    exact hQ _ h
  | next hs ht _ ih =>
    rw [Nat.add_right_comm]
    exact .next hs ht ih

theorem Leads.imp {s : σ} (h : Leads step safe Q k s) (hQ : ∀ t, Q t → R t) :
    Leads step safe R k s := h.trans (fun t ht => .done (hQ t ht))

theorem Triple.seq (h : Triple step safe P j Q) (h' : Triple step safe Q k R) :
    Triple step safe P (j + k) R := fun s hs => (h s hs).trans h'

/-- **Loops.** Every round of `c` steps moves the invariant on by one. -/
theorem Triple.loop {I : Nat → σ → Prop} {c n : Nat}
    (h : ∀ i < n, Triple step safe (I i) c (I (i + 1))) : Triple step safe (I 0) (c * n) (I n) := by
  induction n with
  | zero => exact fun s hs => .done hs
  | succ n ih =>
    exact (ih (fun i hi => h i (Nat.lt_succ_of_lt hi))).seq (h n (Nat.lt_succ_self n))

/-- The run comes to the postcondition, through safe states. -/
theorem Leads.run {s : σ} (h : Leads step safe Q k s) {run : Nat → Option σ}
    (hsucc : ∀ k, run (k + 1) = (run k).bind step) (hj : run j = some s) :
    (∃ t, run (j + k) = some t ∧ Q t) ∧
      ∀ i, j ≤ i → i < j + k → ∀ u, run i = some u → safe u := by
  induction h generalizing j with
  | done h => exact ⟨⟨_, hj, h⟩, fun i hi hlt => absurd hlt (Nat.not_lt.mpr hi)⟩
  | @next k s t hs ht _ ih =>
    have hnext : run (j + 1) = some t := by rw [hsucc, hj, Option.bind_some, ht]
    obtain ⟨hlast, hsafe⟩ := ih hnext
    rw [Nat.add_right_comm] at hlast hsafe
    refine ⟨hlast, fun i hi hlt v hv => ?_⟩
    rcases Nat.eq_or_lt_of_le hi with rfl | hgt
    · rw [hj] at hv
      exact Option.some.inj hv ▸ hs
    · exact hsafe i hgt hlt v hv

end Hoare
