import Mathlib.Logic.Basic

/-! Reading a register file through writes that have not reached it.

A machine that overlaps instructions reads its registers before older
instructions have written them. `applyAll f ws` is what the file `f` will hold
once the writes `ws` (youngest first) have landed; `forward ws r old` is what a
bypass network computes from the writes and a value `old` read earlier.
`forward_correct` says when the two agree: the network may also look at a write
the file already holds, and `old` matters only where no write of the network
hits. -/
namespace Bypass

variable {R V : Type*} [DecidableEq R]

/-- The value a write, if there is one, gives register `r`. -/
def hit (w : Option (R × V)) (r : R) : Option V :=
  match w with
  | some (r', v) => if r' = r then some v else none
  | none => none

/-- The file after one write. -/
def apply (f : R → V) (w : Option (R × V)) : R → V := fun r => (hit w r).getD (f r)

/-- The file after the writes, youngest first. -/
def applyAll (f : R → V) : List (Option (R × V)) → R → V
  | [] => f
  | w :: ws => apply (applyAll f ws) w

/-- The first write that hits, else `old`. -/
def forward : List (Option (R × V)) → R → V → V
  | [], _, old => old
  | w :: ws, r, old => (hit w r).getD (forward ws r old)

/-- The file already holds the write. -/
def Absorbs (f : R → V) (w : Option (R × V)) : Prop := ∀ r v, hit w r = some v → f r = v

theorem apply_of_hit {f : R → V} {w : Option (R × V)} {r : R} {v : V} (h : hit w r = some v) :
    apply f w r = v := by
  simp [apply, h]

theorem apply_of_miss {f : R → V} {w : Option (R × V)} {r : R} (h : hit w r = none) :
    apply f w r = f r := by
  simp [apply, h]

theorem absorbs_none (f : R → V) : Absorbs f none := by
  intro r v h
  cases h

theorem absorbs_apply (f : R → V) (w : Option (R × V)) : Absorbs (apply f w) w :=
  fun _ _ h => apply_of_hit h

/-- On an up-to-date value the network computes the file after the writes. -/
theorem forward_read (f : R → V) (ws : List (Option (R × V))) (r : R) :
    forward ws r (f r) = applyAll f ws r := by
  induction ws with
  | nil => rfl
  | cons w ws ih => simp only [forward, applyAll, apply, ih]

/-- The old value matters only where no write hits. -/
theorem forward_congr {ws : List (Option (R × V))} {r : R} {old old' : V}
    (h : (∀ w ∈ ws, hit w r = none) → old = old') : forward ws r old = forward ws r old' := by
  induction ws with
  | nil => exact h (by simp)
  | cons w ws ih =>
    cases hw : hit w r with
    | some v => simp only [forward, hw, Option.getD_some]
    | none =>
      have htail : forward ws r old = forward ws r old' := by
        apply ih
        intro hmiss
        apply h
        intro w' hw'
        rcases List.mem_cons.mp hw' with rfl | hw'
        · exact hw
        · exact hmiss w' hw'
      simp only [forward, hw, Option.getD_none, htail]

/-- A last stage that looks at a write the file holds changes nothing. -/
theorem forward_absorbed {f : R → V} {d : Option (R × V)} (hd : Absorbs f d)
    (ws : List (Option (R × V))) (r : R) :
    forward (ws ++ [d]) r (f r) = forward ws r (f r) := by
  induction ws with
  | nil =>
    cases h : hit d r with
    | none => simp only [List.nil_append, forward, h, Option.getD_none]
    | some v => simp only [List.nil_append, forward, h, Option.getD_some, hd r v h]
  | cons w ws ih => simp only [List.cons_append, forward, ih]

/-- **Forwarding is correct.** With `ws` still to land and `d` already held by the
file, the network computes what the file will hold, provided the value read
earlier is up to date wherever the network has nothing to say. -/
theorem forward_correct {f : R → V} {d : Option (R × V)} {ws : List (Option (R × V))} {r : R}
    {old : V} (hd : Absorbs f d) (hold : (∀ w ∈ ws ++ [d], hit w r = none) → old = f r) :
    forward (ws ++ [d]) r old = applyAll f ws r := by
  rw [forward_congr hold, forward_absorbed hd, forward_read]

end Bypass
