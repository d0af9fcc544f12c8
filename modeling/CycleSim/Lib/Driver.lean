import CycleSim.Lib.Loop
import Mathlib.Algebra.BigOperators.Group.List.Basic
import Mathlib.Algebra.GroupWithZero.Nat

/-! Running a machine in calls.

A call executes a number of steps, or, asked for 0, any number; it comes back earlier when a
step stops the machine. How the steps are divided into calls makes no difference: calls one
after the other, until one of them stops, execute what a single call for all their steps does
(`inTurn_iff`). A call is also what a loop executes that counts its steps in a machine word
(`counted_iff`). -/
namespace Driver

variable {σ : Type*} (step : σ → σ) (stops : σ → Bool)

/-- Step `n` is the first that stops the machine. -/
structure FirstStop (s : σ) (n : Nat) : Prop where
  before : ∀ i < n, stops (step^[i] s) = false
  stop : stops (step^[n] s) = true

/-- A call for `count` steps: whether the machine stopped, and the number of steps executed. -/
def Call (count : Nat) (s : σ) : Bool → Nat → Prop
  | true, n => ∃ k, n = k + 1 ∧ (count = 0 ∨ k < count) ∧ FirstStop step stops s k
  | false, n => n = count ∧ 0 < count ∧ ∀ i < count, stops (step^[i] s) = false

/-- What a call returns, `out` of the state before its last step, and the state it leaves. -/
def Executes {ρ : Type*} (out : Bool → σ → ρ) (count : Nat) (s : σ) (r : ρ) (s' : σ) : Prop :=
  ∃ stopped n, Call step stops count s stopped n ∧ r = out stopped (step^[n - 1] s) ∧ s' = step^[n] s

/-- Calls one after the other, up to the first that does not go on. -/
inductive InTurn {κ σ ρ : Type*} (call : κ → σ → ρ → σ → Prop) (goesOn : ρ → Prop) :
    List κ → σ → ρ → σ → Prop
  | last {c : κ} {s s' : σ} {r : ρ} (h : call c s r s') : InTurn call goesOn [c] s r s'
  | stop {c d : κ} {cs : List κ} {s s' : σ} {r : ρ} (h : call c s r s') (hr : ¬goesOn r) :
      InTurn call goesOn (c :: d :: cs) s r s'
  | next {c : κ} {cs : List κ} {s t s' : σ} {q r : ρ} (h : call c s q t) (hq : goesOn q)
      (hrest : InTurn call goesOn cs t r s') : InTurn call goesOn (c :: cs) s r s'

variable {step stops} {s : σ}

/-- The first stop, seen from a state before it. -/
theorem firstStop_add {a n : Nat} (h : ∀ i < a, stops (step^[i] s) = false) :
    FirstStop step stops s (a + n) ↔ FirstStop step stops (step^[a] s) n := by
  have hshift : ∀ i, step^[i] (step^[a] s) = step^[a + i] s := by
    intro i
    rw [Nat.add_comm, Function.iterate_add_apply]
  constructor
  · intro hstop
    refine ⟨fun i hi => ?_, by rw [hshift]; exact hstop.stop⟩
    rw [hshift]
    exact hstop.before (a + i) (by omega)
  · intro hstop
    refine ⟨fun i hi => ?_, by rw [← hshift]; exact hstop.stop⟩
    by_cases hlt : i < a
    · exact h i hlt
    · obtain ⟨j, rfl⟩ := Nat.exists_eq_add_of_le (Nat.le_of_not_lt hlt)
      rw [← hshift]
      exact hstop.before j (by omega)

/-- A call that runs out is continued by another. -/
theorem call_add {a b : Nat} (ha : 0 < a) (hb : 0 < b) (stopped : Bool) (n : Nat) :
    Call step stops (a + b) s stopped n ↔ (stopped = true ∧ Call step stops a s true n) ∨
      (Call step stops a s false a ∧ ∃ k, n = a + k ∧ Call step stops b (step^[a] s) stopped k) := by
  have hshift : ∀ i, step^[i] (step^[a] s) = step^[a + i] s := by
    intro i
    rw [Nat.add_comm, Function.iterate_add_apply]
  cases stopped with
  | true =>
    constructor
    · rintro ⟨k, rfl, hk, hstop⟩
      by_cases hlt : k < a
      · exact .inl ⟨rfl, k, rfl, .inr hlt, hstop⟩
      · obtain ⟨j, rfl⟩ := Nat.exists_eq_add_of_le (Nat.le_of_not_lt hlt)
        have hfree : ∀ i < a, stops (step^[i] s) = false := fun i hi => hstop.before i (by omega)
        exact .inr ⟨⟨rfl, ha, hfree⟩, j + 1, by omega, j, rfl, .inr (by omega),
          (firstStop_add hfree).mp hstop⟩
    · rintro (⟨-, k, rfl, hk, hstop⟩ | ⟨⟨-, -, hfree⟩, _, rfl, j, rfl, hj, hstop⟩)
      · exact ⟨k, rfl, .inr (by omega), hstop⟩
      · exact ⟨a + j, by omega, .inr (by omega), (firstStop_add hfree).mpr hstop⟩
  | false =>
    constructor
    · rintro ⟨rfl, hpos, hfree⟩
      refine .inr ⟨⟨rfl, ha, fun i hi => hfree i (by omega)⟩, b, rfl, rfl, hb, fun i hi => ?_⟩
      rw [hshift]
      exact hfree (a + i) (by omega)
    · rintro (⟨hf, -⟩ | ⟨⟨-, -, hfree⟩, _, rfl, rfl, -, hrest⟩)
      · cases hf
      · refine ⟨rfl, by omega, fun i hi => ?_⟩
        by_cases hlt : i < a
        · exact hfree i hlt
        · obtain ⟨j, rfl⟩ := Nat.exists_eq_add_of_le (Nat.le_of_not_lt hlt)
          rw [← hshift]
          exact hrest j (by omega)

theorem Call.pos {count n : Nat} {stopped : Bool} (h : Call step stops count s stopped n) :
    0 < n := by
  cases stopped with
  | true =>
    obtain ⟨k, rfl, _⟩ := h
    exact Nat.succ_pos k
  | false =>
    obtain ⟨rfl, hpos, _⟩ := h
    exact hpos

section
variable {κ ρ : Type*} {call : κ → σ → ρ → σ → Prop} {goesOn : ρ → Prop} {out : Bool → σ → ρ}

theorem inTurn_cons {c d : κ} {cs : List κ} {r : ρ} {s' : σ} :
    InTurn call goesOn (c :: d :: cs) s r s' ↔ (call c s r s' ∧ ¬goesOn r) ∨
      ∃ q t, call c s q t ∧ goesOn q ∧ InTurn call goesOn (d :: cs) t r s' := by
  constructor
  · intro h
    cases h with
    | stop h hr => exact .inl ⟨h, hr⟩
    | next h hq hrest => exact .inr ⟨_, _, h, hq, hrest⟩
  · rintro (⟨h, hr⟩ | ⟨q, t, h, hq, hrest⟩)
    · exact .stop h hr
    · exact .next h hq hrest

theorem executes_add (hgo : ∀ stopped p, goesOn (out stopped p) ↔ stopped = false) {a b : Nat}
    (ha : 0 < a) (hb : 0 < b) {r : ρ} {s' : σ} : Executes step stops out (a + b) s r s' ↔
      (Executes step stops out a s r s' ∧ ¬goesOn r) ∨
        ∃ q t, Executes step stops out a s q t ∧ goesOn q ∧ Executes step stops out b t r s' := by
  have hshift : ∀ i, step^[i] (step^[a] s) = step^[a + i] s := by
    intro i
    rw [Nat.add_comm, Function.iterate_add_apply]
  constructor
  · rintro ⟨stopped, n, hcall, rfl, rfl⟩
    rcases (call_add ha hb stopped n).mp hcall with ⟨rfl, h⟩ | ⟨h, k, rfl, hrest⟩
    · refine .inl ⟨⟨true, n, h, rfl, rfl⟩, ?_⟩
      rw [hgo]
      decide
    · refine .inr ⟨_, _, ⟨false, a, h, rfl, rfl⟩, (hgo ..).mpr rfl, stopped, k, hrest, ?_, ?_⟩
      · rw [hshift, Nat.add_sub_assoc hrest.pos]
      · rw [hshift]
  · rintro (⟨⟨stopped, n, h, rfl, rfl⟩, hr⟩ | ⟨_, _, ⟨stopped, n, h, rfl, rfl⟩, hq, hrest⟩)
    · rw [hgo, Bool.not_eq_false] at hr
      obtain rfl := hr
      exact ⟨true, n, (call_add ha hb true n).mpr (.inl ⟨rfl, h⟩), rfl, rfl⟩
    · obtain rfl := (hgo ..).mp hq
      obtain rfl : n = a := h.1
      obtain ⟨stopped, k, hrest, rfl, rfl⟩ := hrest
      refine ⟨stopped, n + k, (call_add ha hb stopped _).mpr (.inr ⟨h, k, rfl, hrest⟩), ?_, ?_⟩
      · rw [hshift, Nat.add_sub_assoc hrest.pos]
      · rw [hshift]

/-- **Calls add up.** -/
theorem inTurn_iff {size : κ → Nat}
    (hcall : ∀ c s r s', call c s r s' ↔ Executes step stops out (size c) s r s')
    (hgo : ∀ stopped p, goesOn (out stopped p) ↔ stopped = false) {cs : List κ} (hne : cs ≠ [])
    (hpos : ∀ c ∈ cs, 0 < size c) (r : ρ) (s' : σ) :
    InTurn call goesOn cs s r s' ↔ Executes step stops out (cs.map size).sum s r s' := by
  induction cs generalizing s with
  | nil => exact absurd rfl hne
  | cons c cs ih =>
    obtain ⟨hc, hpos⟩ := List.forall_mem_cons.mp hpos
    rw [List.map_cons, List.sum_cons]
    cases cs with
    | nil =>
      rw [List.map_nil, List.sum_nil, Nat.add_zero, ← hcall]
      constructor
      · intro h
        cases h with
        | last h => exact h
        | next _ _ hrest => cases hrest
      · exact .last
    | cons d cs =>
      have hsum : 0 < ((d :: cs).map size).sum := by
        rw [List.map_cons, List.sum_cons]
        have hd := hpos d List.mem_cons_self
        omega
      rw [inTurn_cons, executes_add hgo hc hsum, hcall]
      simp only [hcall, ih (List.cons_ne_nil d cs) hpos]

/-- Calls with machine words for their numbers of steps, divided in two ways. -/
theorem inTurn_congr {w : Nat} {call : BitVec w → σ → ρ → σ → Prop}
    (hcall : ∀ c s r s', call c s r s' ↔ Executes step stops out c.toNat s r s')
    (hgo : ∀ stopped p, goesOn (out stopped p) ↔ stopped = false) {cs cs' : List (BitVec w)}
    (hne : cs ≠ []) (hne' : cs' ≠ []) (hpos : ∀ c ∈ cs, c ≠ 0#w) (hpos' : ∀ c ∈ cs', c ≠ 0#w)
    (hsum : (cs.map BitVec.toNat).sum = (cs'.map BitVec.toNat).sum) (r : ρ) (s' : σ) :
    InTurn call goesOn cs s r s' ↔ InTurn call goesOn cs' s r s' := by
  have hsize : ∀ {cs : List (BitVec w)}, (∀ c ∈ cs, c ≠ 0#w) → ∀ c ∈ cs, 0 < c.toNat := by
    intro cs h c hc
    by_contra hno
    exact h c hc (BitVec.eq_of_toNat_eq (Nat.eq_zero_of_not_pos hno))
  rw [inTurn_iff hcall hgo hne (hsize hpos), inTurn_iff hcall hgo hne' (hsize hpos'), hsum]

end

section
variable {τ : Type*} {step' : τ → τ} {stops' : τ → Bool} {f : σ → τ}

/-- The first stop of a machine that follows another. -/
theorem firstStop_map (hstep : ∀ s, f (step s) = step' (f s)) (hstops : ∀ s, stops' (f s) = stops s)
    (s : σ) (n : Nat) : FirstStop step' stops' (f s) n ↔ FirstStop step stops s n := by
  have hiter : ∀ i, stops' (step'^[i] (f s)) = stops (step^[i] s) := by
    intro i
    rw [← hstops]
    exact congrArg stops' (Function.Semiconj.iterate_right hstep i s).symm
  exact ⟨fun h => ⟨fun i hi => hiter i ▸ h.before i hi, hiter n ▸ h.stop⟩,
    fun h => ⟨fun i hi => (hiter i).trans (h.before i hi), (hiter n).trans h.stop⟩⟩

/-- The calls of a machine that follows another. -/
theorem call_map (hstep : ∀ s, f (step s) = step' (f s)) (hstops : ∀ s, stops' (f s) = stops s)
    (count : Nat) (s : σ) (stopped : Bool) (n : Nat) :
    Call step' stops' count (f s) stopped n ↔ Call step stops count s stopped n := by
  cases stopped with
  | true =>
    exact exists_congr (fun k => and_congr_right (fun _ => and_congr_right (fun _ =>
      firstStop_map hstep hstops s k)))
  | false =>
    have hiter : ∀ i, stops' (step'^[i] (f s)) = stops (step^[i] s) := by
      intro i
      rw [← hstops]
      exact congrArg stops' (Function.Semiconj.iterate_right hstep i s).symm
    simp only [Call, hiter]

end

/-- A call without a bound ends only with a stop. -/
theorem executes_zero {ρ : Type*} {out : Bool → σ → ρ} {r : ρ} {s' : σ} :
    Executes step stops out 0 s r s' ↔
      ∃ n, FirstStop step stops s n ∧ r = out true (step^[n] s) ∧ s' = step^[n + 1] s := by
  constructor
  · rintro ⟨stopped, n, hcall, rfl, rfl⟩
    cases stopped with
    | true =>
      obtain ⟨k, rfl, -, hstop⟩ := hcall
      exact ⟨k, hstop, rfl, rfl⟩
    | false => exact absurd hcall.2.1 (Nat.lt_irrefl 0)
  · rintro ⟨n, hstop, rfl, rfl⟩
    exact ⟨true, n + 1, ⟨n, rfl, .inl rfl, hstop⟩, rfl, rfl⟩

/-- A loop of single steps ends at the first that stops. -/
theorem yields_iff {ρ : Type*} {exit : σ → ρ} {body : σ → σ ⊕ ρ}
    (hbody : ∀ x, body x = if stops x then .inr (exit x) else .inl (step x)) {r : ρ} :
    Loop.Yields body s r ↔ ∃ n, FirstStop step stops s n ∧ r = exit (step^[n] s) := by
  have hgo : ∀ x x', body x = .inl x' ↔ stops x = false ∧ x' = step x := by
    intro x x'
    rw [hbody]
    cases stops x <;> simp [eq_comm]
  have hexit : ∀ x, body x = .inr r ↔ stops x = true ∧ r = exit x := by
    intro x
    rw [hbody]
    cases stops x <;> simp [eq_comm]
  refine (Loop.yields_iff (fun x x' h => ((hgo x x').mp h).2)).trans (exists_congr (fun n => ?_))
  simp only [hgo, hexit, Function.iterate_succ_apply', and_true]
  exact ⟨fun ⟨hbefore, hstop, hr⟩ => ⟨⟨hbefore, hstop⟩, hr⟩,
    fun ⟨h, hr⟩ => ⟨h.before, h.stop, hr⟩⟩

/-! ### A loop that counts -/

section
variable {w : Nat} (limit : BitVec w) (step) (stops)

/-- The loop of a call, over the count and the state; a limit of 0 is none. When the machine
stops the loop is left with the state before its last step. -/
def countedBody (x : BitVec w × σ) : (BitVec w × σ) ⊕ (Bool × σ) :=
  if limit = 0#w ∨ x.1 < limit then
    if stops x.2 then .inr (true, x.2) else .inl (x.1 + 1#w, step x.2)
  else .inr (false, x.2)

/-- An iteration that goes on. -/
def countedNext (x : BitVec w × σ) : BitVec w × σ := (x.1 + 1#w, step x.2)

variable {limit step stops}

theorem iterate_countedNext (i : Nat) (s : σ) :
    (countedNext step)^[i] (0#w, s) = (BitVec.ofNat w i, step^[i] s) := by
  induction i with
  | zero => rfl
  | succ i ih =>
    rw [Function.iterate_succ_apply', Function.iterate_succ_apply', ih, countedNext,
      BitVec.ofNat_add]

theorem countedBody_go {x x' : BitVec w × σ} : countedBody step stops limit x = .inl x' ↔
    (limit = 0#w ∨ x.1 < limit) ∧ stops x.2 = false ∧ x' = countedNext step x := by
  unfold countedBody
  by_cases hmore : limit = 0#w ∨ x.1 < limit
  · rw [if_pos hmore]
    cases stops x.2
    · rw [if_neg Bool.false_ne_true, Sum.inl.injEq, eq_comm]
      exact ⟨fun h => ⟨hmore, rfl, h⟩, fun h => h.2.2⟩
    · rw [if_pos rfl]
      exact iff_of_false (fun h => nomatch h) (fun h => nomatch h.2.1)
  · rw [if_neg hmore]
    exact iff_of_false (fun h => nomatch h) (fun h => hmore h.1)

/-- The test of the loop, as long as the count has not passed the limit. -/
theorem count_lt_iff {i : Nat} (h : limit.toNat = 0 ∨ i ≤ limit.toNat) :
    (limit = 0#w ∨ BitVec.ofNat w i < limit) ↔ limit.toNat = 0 ∨ i < limit.toNat := by
  have hlt := limit.isLt
  have hzero : limit = 0#w ↔ limit.toNat = 0 := by
    rw [← BitVec.toNat_inj, BitVec.toNat_ofNat, Nat.zero_mod]
  rw [BitVec.lt_def, BitVec.toNat_ofNat, hzero]
  rcases h with h | h
  · exact iff_of_true (.inl h) (.inl h)
  · rw [Nat.mod_eq_of_lt (by omega)]

/-- **The loop of a call** ends with the state before the step that stopped, or with the state
after the last step. -/
theorem counted_iff (stopped : Bool) (s' : σ) :
    Loop.Yields (countedBody step stops limit) (0#w, s) (stopped, s') ↔
      ∃ n, Call step stops limit.toNat s stopped n ∧ s' = step^[n - stopped.toNat] s := by
  refine (Loop.yields_iff (fun _ _ h => (countedBody_go.mp h).2.2)).trans ?_
  simp only [iterate_countedNext]
  constructor
  · rintro ⟨k, hgo, hexit⟩
    have hbefore : ∀ i < k, stops (step^[i] s) = false :=
      fun i hi => (countedBody_go.mp (hgo i hi)).2.1
    -- the count cannot have passed the limit
    have hle : limit.toNat = 0 ∨ k ≤ limit.toNat := by
      by_contra hno
      obtain ⟨hne, hlt⟩ := not_or.mp hno
      have hmore := (countedBody_go.mp (hgo limit.toNat (by omega))).1
      rw [count_lt_iff (.inr (Nat.le_refl _))] at hmore
      omega
    simp only [countedBody, count_lt_iff hle] at hexit
    by_cases hmore : limit.toNat = 0 ∨ k < limit.toNat
    · rw [if_pos hmore] at hexit
      cases hstop : stops (step^[k] s)
      · rw [hstop, if_neg Bool.false_ne_true] at hexit
        cases hexit
      · rw [hstop, if_pos rfl] at hexit
        obtain ⟨rfl, rfl⟩ := Prod.mk.inj (Sum.inr.inj hexit)
        exact ⟨k + 1, ⟨k, rfl, hmore, hbefore, hstop⟩, rfl⟩
    · rw [if_neg hmore] at hexit
      obtain ⟨rfl, rfl⟩ := Prod.mk.inj (Sum.inr.inj hexit)
      obtain rfl : k = limit.toNat := by omega
      exact ⟨limit.toNat, ⟨rfl, by omega, hbefore⟩, rfl⟩
  · rintro ⟨n, hcall, rfl⟩
    cases stopped with
    | true =>
      obtain ⟨k, rfl, hk, hstop⟩ := hcall
      refine ⟨k, fun i hi => ?_, ?_⟩
      · refine countedBody_go.mpr ⟨?_, hstop.before i hi, ?_⟩
        · rw [count_lt_iff (by omega)]
          omega
        · rw [countedNext, Function.iterate_succ_apply', BitVec.ofNat_add]
      · simp only [countedBody, count_lt_iff (show limit.toNat = 0 ∨ k ≤ _ by omega)]
        rw [if_pos hk, hstop.stop, if_pos rfl]
        rfl
    | false =>
      obtain ⟨rfl, hpos, hfree⟩ := hcall
      refine ⟨limit.toNat, fun i hi => ?_, ?_⟩
      · refine countedBody_go.mpr ⟨?_, hfree i hi, ?_⟩
        · rw [count_lt_iff (by omega)]
          exact .inr hi
        · rw [countedNext, Function.iterate_succ_apply', BitVec.ofNat_add]
      · simp only [countedBody, count_lt_iff (.inr (Nat.le_refl _))]
        rw [if_neg (by omega)]
        rfl

end

end Driver
