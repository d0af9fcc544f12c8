import CycleSim.Lib.Hex
import Mathlib.Data.List.Basic

/-! Text from which the fields can be read back.

Fields that a separator ends, and that do not contain it, are told apart by it
(`terminate_inj`); fields of one width are told apart by their length
(`join_inj`). A number printed in hexadecimal, padded with zeros or not, spells that
number (`numeral_leftpad`), so its text determines it. -/
namespace Text

/-! ### Terminated fields -/

section
variable {c : Char}

theorem split_inj {a b rest rest' : List Char} (ha : c ∉ a) (hb : c ∉ b)
    (h : a ++ c :: rest = b ++ c :: rest') : a = b ∧ rest = rest' := by
  rcases List.append_eq_append_iff.mp h with ⟨t, rfl, ht⟩ | ⟨t, rfl, ht⟩
  · cases t with
    | nil => exact ⟨(List.append_nil a).symm, (List.cons.inj ht).2⟩
    | cons d t =>
      rw [List.cons_append] at ht
      exact absurd (List.mem_append_right a ((List.cons.inj ht).1 ▸ List.mem_cons_self)) hb
  · cases t with
    | nil => exact ⟨List.append_nil b, (List.cons.inj ht).2.symm⟩
    | cons d t =>
      rw [List.cons_append] at ht
      exact absurd (List.mem_append_right b ((List.cons.inj ht).1 ▸ List.mem_cons_self)) ha

/-- Two texts with the same separator behind fields that do not contain it. -/
theorem append_inj {a b rest rest' : String} (ha : c ∉ a.toList) (hb : c ∉ b.toList)
    (h : a ++ (String.singleton c ++ rest) = b ++ (String.singleton c ++ rest')) :
    a = b ∧ rest = rest' := by
  have hlist := congrArg String.toList h
  simp only [String.toList_append, String.toList_singleton, List.singleton_append] at hlist
  obtain ⟨h1, h2⟩ := split_inj ha hb hlist
  exact ⟨String.toList_inj.mp h1, String.toList_inj.mp h2⟩

variable (c)

/-- Fields, each ended by the separator. -/
def terminate (fields : List String) : String :=
  String.join (fields.map (fun field => field ++ String.singleton c))

/-- No field contains the separator. -/
def Free (fields : List String) : Prop := ∀ field ∈ fields, c ∉ field.toList

variable {c}

theorem terminate_cons (field : String) (fields : List String) :
    terminate c (field :: fields) = field ++ (String.singleton c ++ terminate c fields) := by
  rw [terminate, List.map_cons, String.join_cons, String.append_assoc]
  rfl

theorem terminate_cons_ne (field : String) (fields : List String) :
    terminate c (field :: fields) ≠ terminate c [] := by
  intro h
  have hlist := congrArg String.toList h
  rw [terminate_cons, String.toList_append, String.toList_append, String.toList_singleton] at hlist
  exact absurd (List.append_eq_nil_iff.mp hlist).2 (List.cons_ne_nil _ _)

theorem terminate_inj {a b : List String} (ha : Free c a) (hb : Free c b) :
    terminate c a = terminate c b ↔ a = b := by
  refine ⟨fun h => ?_, fun h => by rw [h]⟩
  induction a generalizing b with
  | nil =>
    cases b with
    | nil => rfl
    | cons y b => exact absurd h.symm (terminate_cons_ne y b)
  | cons x a ih =>
    cases b with
    | nil => exact absurd h (terminate_cons_ne x a)
    | cons y b =>
      obtain ⟨hx, ha⟩ := List.forall_mem_cons.mp ha
      obtain ⟨hy, hb⟩ := List.forall_mem_cons.mp hb
      rw [terminate_cons, terminate_cons] at h
      obtain ⟨hxy, hrest⟩ := append_inj hx hy h
      rw [hxy, ih ha hb hrest]

theorem not_mem_join {texts : List String} (h : Free c texts) : c ∉ (String.join texts).toList := by
  induction texts with
  | nil => exact List.not_mem_nil
  | cons text texts ih =>
    obtain ⟨htext, htexts⟩ := List.forall_mem_cons.mp h
    rw [String.join_cons, String.toList_append, List.mem_append, not_or]
    exact ⟨htext, ih htexts⟩

end

/-- Lines, each ended by `std::endl`. -/
def unlines (lines : List String) : String := terminate '\n' lines

/-! ### Fields of one width -/

theorem join_inj {w : Nat} (hw : 0 < w) {xs ys : List String} (hx : ∀ x ∈ xs, x.length = w)
    (hy : ∀ y ∈ ys, y.length = w) (h : String.join xs = String.join ys) : xs = ys := by
  have hne : ∀ {x : String} {zs : List String}, x.length = w → String.join (x :: zs) ≠ "" := by
    intro x zs hlen he
    rw [String.join_cons, String.append_eq_empty_iff] at he
    rw [he.1, String.length_empty] at hlen
    omega
  induction xs generalizing ys with
  | nil =>
    cases ys with
    | nil => rfl
    | cons y ys => exact absurd h.symm (hne (hy y List.mem_cons_self))
  | cons x xs ih =>
    cases ys with
    | nil => exact absurd h (hne (hx x List.mem_cons_self))
    | cons y ys =>
      obtain ⟨hlx, hx⟩ := List.forall_mem_cons.mp hx
      obtain ⟨hly, hy⟩ := List.forall_mem_cons.mp hy
      have hlist := congrArg String.toList h
      simp only [String.join_cons, String.toList_append] at hlist
      obtain ⟨h1, h2⟩ := List.append_inj hlist (hlx.trans hly.symm)
      rw [String.toList_inj.mp h1, ih hx hy (String.toList_inj.mp h2)]

/-! ### Hexadecimal numbers -/

theorem digit?_digitChar {d : Nat} (h : d < 16) : Hex.digit? d.digitChar = some d := by
  revert d
  decide

theorem value_append_digit (digits : List Char) {d : Nat} (h : d < 16) :
    Hex.value (digits ++ [d.digitChar]) = 16 * Hex.value digits + d := by
  rw [Hex.value, List.foldl_append]
  simp only [List.foldl_cons, List.foldl_nil, digit?_digitChar h, Option.getD_some]
  rfl

theorem digits_hex (n : Nat) :
    (Nat.toDigits 16 n).all Hex.isDigit = true ∧ Hex.value (Nat.toDigits 16 n) = n := by
  induction n using Nat.strong_induction_on with
  | _ n ih =>
    by_cases hlt : n < 16
    · rw [Nat.toDigits_of_lt_base hlt]
      have hvalue := value_append_digit [] hlt
      refine ⟨?_, ?_⟩
      · simp [Hex.isDigit, digit?_digitChar hlt]
      · rw [List.nil_append] at hvalue
        rw [hvalue]
        exact Nat.zero_add n
    · obtain ⟨hall, hvalue⟩ := ih (n / 16) (by omega)
      have hmod : n % 16 < 16 := Nat.mod_lt n (by decide)
      rw [Nat.toDigits_of_base_le (by decide) (Nat.le_of_not_lt hlt)]
      refine ⟨?_, ?_⟩
      · rw [List.all_append, hall]
        simp [Hex.isDigit, digit?_digitChar hmod]
      · rw [value_append_digit _ hmod, hvalue]
        omega

theorem value_zeros (k : Nat) (digits : List Char) :
    Hex.value (List.replicate k '0' ++ digits) = Hex.value digits := by
  have hzeros : (List.replicate k '0').foldl (fun v c => 16 * v + (Hex.digit? c).getD 0) 0 = 0 := by
    induction k with
    | zero => rfl
    | succ k ih => exact ih
  rw [Hex.value, List.foldl_append, hzeros]
  rfl

/-- The printed number, padded with zeros, is a numeral of the number. -/
theorem numeral_leftpad {n : Nat} (x : BitVec n) (width : Nat) :
    Hex.Numeral ((Nat.toDigits 16 x.toNat).leftpad width '0') x := by
  obtain ⟨hall, hvalue⟩ := digits_hex x.toNat
  refine ⟨_, ?_, ?_, ?_, .inl rfl⟩
  · rw [List.leftpad]
    exact List.append_ne_nil_of_right_ne_nil _ Nat.toDigits_ne_nil
  · rw [List.leftpad, List.all_append, hall, Bool.and_true, List.all_eq_true]
    intro c hc
    rw [List.eq_of_mem_replicate hc]
    decide
  · rw [List.leftpad, value_zeros, hvalue]

theorem leftpad_inj {n width : Nat} {x y : BitVec n}
    (h : (Nat.toDigits 16 x.toNat).leftpad width '0' =
      (Nat.toDigits 16 y.toNat).leftpad width '0') : x = y := by
  have hx := @Hex.getNumber_numeral n _ [] x (numeral_leftpad x width) rfl
  have hy := @Hex.getNumber_numeral n _ [] y (numeral_leftpad y width) rfl
  rw [h, hy] at hx
  exact (Prod.mk.inj hx).1.symm

theorem isDigit_of_mem_leftpad {n width : Nat} {c : Char}
    (h : c ∈ (Nat.toDigits 16 n).leftpad width '0') : Hex.isDigit c = true := by
  rw [List.leftpad, List.mem_append] at h
  rcases h with h | h
  · rw [List.eq_of_mem_replicate h]
    decide
  · exact List.all_eq_true.mp (digits_hex n).1 c h

/-! ### Decimal numbers -/

theorem toString_inj {m n : Nat} : toString m = toString n ↔ m = n := by
  refine ⟨fun h => ?_, fun h => by rw [h]⟩
  rw [Nat.toString_eq_ofList_toDigits, Nat.toString_eq_ofList_toDigits] at h
  have hdigits := congrArg (fun s => Nat.ofDigitChars 10 (String.toList s) 0) h
  simpa only [String.toList_ofList, Nat.ofDigitChars_ten_toDigits] using hdigits

theorem isDigit_of_mem_toString {n : Nat} {c : Char} (h : c ∈ (toString n).toList) :
    c.isDigit = true := by
  rw [Nat.toString_eq_ofList_toDigits, String.toList_ofList] at h
  exact Nat.isDigit_of_mem_toDigits (by decide) (by decide) h

end Text
