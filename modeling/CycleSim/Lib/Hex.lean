import Mathlib.Data.BitVec
import Mathlib.Data.List.TakeWhile

/-! Reading unsigned hexadecimal numbers from a text stream.

`IStream.extract` is the `>>` of a `std::istream` in `std::hex` mode: it skips white space
and takes the longest prefix that is a number, or fails. A text that `Spells` a list of
numbers, with any white space between them, an optional `0x` and digits of either case,
yields these numbers and then fails. -/
namespace Hex

/-- What is left to read, and `failbit`. At the end of the text an extraction fails, as it
does with `eofbit` set, so that bit is not kept. -/
structure IStream where
  rest : List Char
  fail : Bool
  deriving DecidableEq, Repr

/-- `std::isspace`: the space, and the control characters from tab to carriage return. -/
def isSpace (c : Char) : Bool := c.toNat == 32 || (9 ≤ c.toNat && c.toNat ≤ 13)

/-- The value of a hexadecimal digit. -/
def digit? (c : Char) : Option Nat :=
  if 48 ≤ c.toNat ∧ c.toNat ≤ 57 then some (c.toNat - 48)
  else if 97 ≤ c.toNat ∧ c.toNat ≤ 102 then some (c.toNat - 87)
  else if 65 ≤ c.toNat ∧ c.toNat ≤ 70 then some (c.toNat - 55)
  else none

def isDigit (c : Char) : Bool := (digit? c).isSome

def value (digits : List Char) : Nat :=
  digits.foldl (fun v c => 16 * v + (digit? c).getD 0) 0

/-- The sign of a number, whether it is a minus, and what follows it. -/
def sign : List Char → Bool × List Char
  | '-' :: rest => (true, rest)
  | '+' :: rest => (false, rest)
  | text => (false, text)

/-- What follows an optional `0x`. -/
def afterPrefix : List Char → List Char
  | '0' :: 'x' :: rest => rest
  | '0' :: 'X' :: rest => rest
  | text => text

variable {n : Nat}

/-- The number at the start of a text. Without digits it is 0 and the stream fails; out of
range it is the largest one and the stream fails. -/
def getNumber (text : List Char) : BitVec n × IStream :=
  let negative := (sign text).1
  let unsigned := afterPrefix (sign text).2
  let digits := unsigned.takeWhile isDigit
  let rest := unsigned.dropWhile isDigit
  if digits = [] then (0#n, ⟨rest, true⟩)
  else if value digits < 2 ^ n then
    let x := BitVec.ofNat n (value digits)
    (if negative then -x else x, ⟨rest, false⟩)
  else (BitVec.allOnes n, ⟨rest, true⟩)

/-- `stream >> std::hex >> v`: the variable and the stream afterwards. -/
def IStream.extract (stream : IStream) (v : BitVec n) : BitVec n × IStream :=
  if stream.fail then (v, stream)
  else
    match stream.rest.dropWhile isSpace with
    | [] => (v, ⟨[], true⟩)
    | c :: text => getNumber (c :: text)

/-! ### Numbers spelled in a text -/

/-- The text is a number in hexadecimal, without a sign. -/
def Numeral (text : List Char) (x : BitVec n) : Prop :=
  ∃ digits, digits ≠ [] ∧ digits.all isDigit = true ∧ value digits = x.toNat ∧
    (text = digits ∨ text = '0' :: 'x' :: digits ∨ text = '0' :: 'X' :: digits)

/-- The numbers of a text. White space separates them, and may lead and end it. -/
inductive Spells : List (BitVec n) → List Char → Prop
  | nil {gap : List Char} (hgap : gap.all isSpace = true) : Spells [] gap
  | cons {gap text rest : List Char} {x : BitVec n} {xs : List (BitVec n)}
      (hgap : gap.all isSpace = true) (hx : Numeral text x)
      (hrest : rest.head?.all isSpace = true) (hxs : Spells xs rest) :
      Spells (x :: xs) (gap ++ (text ++ rest))

theorem not_isDigit_of_isSpace {c : Char} (h : isSpace c = true) : isDigit c = false := by
  have hc : c.toNat = 32 ∨ (9 ≤ c.toNat ∧ c.toNat ≤ 13) := by simpa [isSpace] using h
  unfold isDigit digit?
  rw [if_neg (by omega), if_neg (by omega), if_neg (by omega)]
  rfl

/-- A digit is none of the characters with a meaning of their own. -/
theorem isDigit_ne {c d : Char} (h : isDigit c = true) (hd : isDigit d = false) : c ≠ d := by
  rintro rfl
  exact absurd (h.symm.trans hd) (by decide)

theorem sign_digit {c : Char} (h : isDigit c = true) (text : List Char) :
    sign (c :: text) = (false, c :: text) := by
  unfold sign
  split
  · rename_i heq
    exact absurd (List.cons.inj heq).1 (isDigit_ne h (by decide))
  · rename_i heq
    exact absurd (List.cons.inj heq).1 (isDigit_ne h (by decide))
  · rfl

theorem afterPrefix_eq {c : Char} {text : List Char} (h : ∀ d ∈ text.head?, d ≠ 'x' ∧ d ≠ 'X') :
    afterPrefix (c :: text) = c :: text := by
  unfold afterPrefix
  split
  · rename_i heq
    rw [(List.cons.inj heq).2] at h
    exact absurd rfl (h 'x' rfl).1
  · rename_i heq
    rw [(List.cons.inj heq).2] at h
    exact absurd rfl (h 'X' rfl).2
  · rfl

theorem takeWhile_digits {digits rest : List Char} (h : digits.all isDigit = true)
    (hrest : rest.head?.all isSpace = true) :
    (digits ++ rest).takeWhile isDigit = digits ∧ (digits ++ rest).dropWhile isDigit = rest := by
  have hstop : rest.takeWhile isDigit = [] ∧ rest.dropWhile isDigit = rest := by
    cases rest with
    | nil => exact ⟨rfl, rfl⟩
    | cons c text =>
      have hc : isDigit c = false := not_isDigit_of_isSpace hrest
      exact ⟨List.takeWhile_cons_of_neg (by simp [hc]), List.dropWhile_cons_of_neg (by simp [hc])⟩
  rw [List.all_eq_true] at h
  rw [List.takeWhile_append_of_pos h, List.dropWhile_append_of_pos h, hstop.1, hstop.2,
    List.append_nil]
  exact ⟨rfl, rfl⟩

/-- A number is read up to the white space behind it. -/
theorem getNumber_numeral {text rest : List Char} {x : BitVec n} (hx : Numeral text x)
    (hrest : rest.head?.all isSpace = true) :
    getNumber (text ++ rest) = (x, ⟨rest, false⟩) := by
  obtain ⟨digits, hne, hdigits, hvalue, htext⟩ := hx
  have hread : sign (text ++ rest) = (false, text ++ rest) ∧
      afterPrefix (text ++ rest) = digits ++ rest := by
    rcases htext with rfl | rfl | rfl
    · cases text with
      | nil => exact absurd rfl hne
      | cons d ds =>
        rw [List.all_cons, Bool.and_eq_true] at hdigits
        refine ⟨sign_digit hdigits.1 _, afterPrefix_eq ?_⟩
        intro c hc
        have hnot : isDigit c = true ∨ isSpace c = true := by
          cases ds with
          | nil =>
            have hhead : rest.head? = some c := hc
            rw [hhead] at hrest
            exact .inr hrest
          | cons e es =>
            obtain rfl := Option.some.inj hc
            rw [List.all_cons, Bool.and_eq_true] at hdigits
            exact .inl hdigits.2.1
        constructor
        · rintro rfl
          revert hnot
          decide
        · rintro rfl
          revert hnot
          decide
    · exact ⟨rfl, rfl⟩
    · exact ⟨rfl, rfl⟩
  obtain ⟨htake, hdrop⟩ := takeWhile_digits hdigits hrest
  unfold getNumber
  simp only [hread.1, hread.2, htake, hdrop, if_neg hne, hvalue, if_pos x.isLt, Bool.false_eq_true,
    if_false, BitVec.ofNat_toNat, BitVec.setWidth_eq]

theorem numeral_head {text : List Char} {x : BitVec n} (hx : Numeral text x) :
    ∃ c rest, text = c :: rest ∧ isSpace c = false := by
  obtain ⟨digits, hne, hdigits, -, htext⟩ := hx
  rcases htext with rfl | rfl | rfl
  · cases text with
    | nil => exact absurd rfl hne
    | cons d ds =>
      refine ⟨d, ds, rfl, ?_⟩
      by_contra hs
      have hd : isDigit d = true := by
        rw [List.all_cons, Bool.and_eq_true] at hdigits
        exact hdigits.1
      rw [not_isDigit_of_isSpace (Bool.eq_true_of_not_eq_false hs)] at hd
      cases hd
  · exact ⟨'0', _, rfl, by decide⟩
  · exact ⟨'0', _, rfl, by decide⟩

/-- An extraction takes the next number. -/
theorem IStream.extract_cons {gap text rest : List Char} {x : BitVec n}
    (hgap : gap.all isSpace = true) (hx : Numeral text x)
    (hrest : rest.head?.all isSpace = true) (v : BitVec n) :
    (IStream.mk (gap ++ (text ++ rest)) false).extract v = (x, ⟨rest, false⟩) := by
  obtain ⟨c, tail, rfl, hc⟩ := numeral_head hx
  have hskip : (gap ++ (c :: tail ++ rest)).dropWhile isSpace = c :: (tail ++ rest) := by
    rw [List.dropWhile_append_of_pos (List.all_eq_true.mp hgap)]
    exact List.dropWhile_cons_of_neg (by simp [hc])
  simp only [extract, Bool.false_eq_true, if_false, hskip]
  exact getNumber_numeral hx hrest

/-- An extraction at the end of the text fails. -/
theorem IStream.extract_end {gap : List Char} (hgap : gap.all isSpace = true) (v : BitVec n) :
    (IStream.mk gap false).extract v = (v, ⟨[], true⟩) := by
  have hskip : gap.dropWhile isSpace = [] := by
    rw [List.dropWhile_eq_nil_iff]
    exact List.all_eq_true.mp hgap
  simp only [extract, Bool.false_eq_true, if_false, hskip]

/-- A failed stream leaves the variable alone. -/
@[simp]
theorem IStream.extract_fail (rest : List Char) (v : BitVec n) :
    (IStream.mk rest true).extract v = (v, ⟨rest, true⟩) := rfl

end Hex
