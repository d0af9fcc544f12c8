import CycleSim.Lib.Hex

/-! Reading decimal numbers from a text stream, one a line.

`extract` is the `>>` of a `std::istream` into an unsigned variable, and `discardLine` the
`std::getline` that drops what is left of the line. An extraction succeeds exactly on a text
that starts with a number, after any white space (`extract_eq_ok_iff`), so a sequence of them
succeeds exactly on texts with a number at the start of each line (`Lines`). -/
namespace Decimal

open Hex (IStream isSpace sign)

variable {n : Nat}

/-- The value of a list of digits. -/
def value (digits : List Char) : Nat := Nat.ofDigitChars 10 digits 0

/-- The number at the start of a text. Without digits it is 0 and the stream fails; out of
range it is the largest one and the stream fails. -/
def getNumber (text : List Char) : BitVec n × IStream :=
  let negative := (sign text).1
  let unsigned := (sign text).2
  let digits := unsigned.takeWhile Char.isDigit
  let rest := unsigned.dropWhile Char.isDigit
  if digits = [] then (0#n, ⟨rest, true⟩)
  else if value digits < 2 ^ n then
    let x := BitVec.ofNat n (value digits)
    (if negative then -x else x, ⟨rest, false⟩)
  else (BitVec.allOnes n, ⟨rest, true⟩)

/-- `stream >> v`: the variable and the stream afterwards. -/
def extract (stream : IStream) (v : BitVec n) : BitVec n × IStream :=
  if stream.fail then (v, stream)
  else
    match stream.rest.dropWhile isSpace with
    | [] => (v, ⟨[], true⟩)
    | c :: text => getNumber (c :: text)

/-- `std::getline(stream, discard)`. At the end of the text it may fail, as the next extraction
will. -/
def discardLine (stream : IStream) : IStream :=
  if stream.fail then stream else ⟨(stream.rest.dropWhile (fun c => c != '\n')).tail, false⟩

/-! ### Numbers at the start of a text -/

/-- The text is a number, with or without a sign. -/
def Numeral (text : List Char) (x : BitVec n) : Prop :=
  ∃ digits, digits ≠ [] ∧ digits.all Char.isDigit = true ∧ value digits < 2 ^ n ∧
    ((text = digits ∨ text = '+' :: digits) ∧ x = BitVec.ofNat n (value digits) ∨
      text = '-' :: digits ∧ x = -BitVec.ofNat n (value digits))

/-- The number does not go on. -/
def Stops (rest : List Char) : Prop := ∀ c ∈ rest.head?, c.isDigit = false

theorem takeWhile_digits {digits rest : List Char} (h : digits.all Char.isDigit = true)
    (hrest : Stops rest) : (digits ++ rest).takeWhile Char.isDigit = digits ∧
      (digits ++ rest).dropWhile Char.isDigit = rest := by
  have hstop : rest.takeWhile Char.isDigit = [] ∧ rest.dropWhile Char.isDigit = rest := by
    cases rest with
    | nil => exact ⟨rfl, rfl⟩
    | cons c text =>
      have hc : c.isDigit = false := hrest c rfl
      exact ⟨List.takeWhile_cons_of_neg (by simp [hc]), List.dropWhile_cons_of_neg (by simp [hc])⟩
  rw [List.all_eq_true] at h
  rw [List.takeWhile_append_of_pos h, List.dropWhile_append_of_pos h, hstop.1, hstop.2,
    List.append_nil]
  exact ⟨rfl, rfl⟩

theorem sign_digits {digits rest : List Char} (hne : digits ≠ [])
    (h : digits.all Char.isDigit = true) : sign (digits ++ rest) = (false, digits ++ rest) := by
  obtain ⟨d, ds, rfl⟩ := List.exists_cons_of_ne_nil hne
  rw [List.all_cons, Bool.and_eq_true] at h
  unfold sign
  split
  · rename_i heq
    rw [(List.cons.inj heq).1] at h
    exact absurd h.1 (by decide)
  · rename_i heq
    rw [(List.cons.inj heq).1] at h
    exact absurd h.1 (by decide)
  · rfl

/-- The sign that was read is in front of what is left. -/
theorem sign_eq (text : List Char) :
    (sign text).1 = false ∧ (text = (sign text).2 ∨ text = '+' :: (sign text).2) ∨
      (sign text).1 = true ∧ text = '-' :: (sign text).2 := by
  unfold sign
  split
  · exact .inr ⟨rfl, rfl⟩
  · exact .inl ⟨rfl, .inr rfl⟩
  · exact .inl ⟨rfl, .inl rfl⟩

/-- A number is read up to the first character that is not a digit. -/
theorem getNumber_numeral {text rest : List Char} {x : BitVec n} (hx : Numeral text x)
    (hrest : Stops rest) : getNumber (text ++ rest) = (x, ⟨rest, false⟩) := by
  obtain ⟨digits, hne, hdigits, hlt, htext⟩ := hx
  obtain ⟨htake, hdrop⟩ := takeWhile_digits hdigits hrest
  rcases htext with ⟨rfl | rfl, rfl⟩ | ⟨rfl, rfl⟩
  · simp only [getNumber, sign_digits hne hdigits, htake, hdrop, if_neg hne, if_pos hlt,
      Bool.false_eq_true, if_false]
  · simp only [getNumber, List.cons_append, sign, htake, hdrop, if_neg hne, if_pos hlt,
      Bool.false_eq_true, if_false]
  · simp only [getNumber, List.cons_append, sign, htake, hdrop, if_neg hne, if_pos hlt, if_true]

/-- Only a number is read. -/
theorem numeral_of_getNumber {text rest : List Char} {x : BitVec n}
    (h : getNumber text = (x, ⟨rest, false⟩)) :
    ∃ num, text = num ++ rest ∧ Numeral num x ∧ Stops rest := by
  simp only [getNumber] at h
  split at h
  · simp at h
  · rename_i hne
    split at h
    · rename_i hlt
      simp only [Prod.mk.injEq, IStream.mk.injEq, and_true] at h
      obtain ⟨hx, hrest⟩ := h
      have hsplit := List.takeWhile_append_dropWhile (p := Char.isDigit) (l := (sign text).2)
      have hall : ((sign text).2.takeWhile Char.isDigit).all Char.isDigit = true :=
        List.all_takeWhile
      have hstops : Stops rest := by
        intro c hc
        have hnot := List.head?_dropWhile_not Char.isDigit (sign text).2
        rwa [hrest, Option.mem_def.mp hc] at hnot
      rw [hrest] at hsplit
      rcases sign_eq text with ⟨hs, ht⟩ | ⟨hs, ht⟩
      · rw [hs, if_neg Bool.false_ne_true] at hx
        rcases ht with ht | ht
        · exact ⟨_, ht.trans hsplit.symm, ⟨_, hne, hall, hlt, .inl ⟨.inl rfl, hx.symm⟩⟩, hstops⟩
        · refine ⟨'+' :: _, ?_, ⟨_, hne, hall, hlt, .inl ⟨.inr rfl, hx.symm⟩⟩, hstops⟩
          rw [List.cons_append, hsplit, ← ht]
      · rw [hs, if_pos rfl] at hx
        refine ⟨'-' :: _, ?_, ⟨_, hne, hall, hlt, .inr ⟨rfl, hx.symm⟩⟩, hstops⟩
        rw [List.cons_append, hsplit, ← ht]
    · simp at h

/-- The first character of a number is no white space. -/
theorem Numeral.head {text : List Char} {x : BitVec n} (h : Numeral text x) :
    ∃ c rest, text = c :: rest ∧ isSpace c = false := by
  obtain ⟨digits, hne, hdigits, -, htext⟩ := h
  rcases htext with ⟨rfl | rfl, -⟩ | ⟨rfl, -⟩
  · obtain ⟨d, ds, rfl⟩ := List.exists_cons_of_ne_nil hne
    rw [List.all_cons, Bool.and_eq_true] at hdigits
    refine ⟨d, ds, rfl, ?_⟩
    refine Bool.eq_false_iff.mpr (fun hs => ?_)
    have hspace : d.toNat = 32 ∨ 9 ≤ d.toNat ∧ d.toNat ≤ 13 := by simpa [isSpace] using hs
    have hdigit : 48 ≤ d.toNat := by
      have hd := hdigits.1
      simp only [Char.isDigit, Bool.and_eq_true, decide_eq_true_eq, ge_iff_le,
        UInt32.le_iff_toNat_le] at hd
      exact hd.1
    omega
  · exact ⟨'+', digits, rfl, by decide⟩
  · exact ⟨'-', digits, rfl, by decide⟩

/-- **An extraction** succeeds on a text that starts with a number, after any white space. -/
theorem extract_eq_ok_iff {text rest : List Char} {x : BitVec n} (v : BitVec n) :
    extract ⟨text, false⟩ v = (x, ⟨rest, false⟩) ↔
      ∃ gap num, text = gap ++ (num ++ rest) ∧ gap.all isSpace = true ∧ Numeral num x ∧
        Stops rest := by
  constructor
  · intro h
    simp only [extract, Bool.false_eq_true, if_false] at h
    split at h
    · simp at h
    · rename_i c tail hdrop
      obtain ⟨num, htext, hnum, hstops⟩ := numeral_of_getNumber h
      refine ⟨text.takeWhile isSpace, num, ?_, List.all_takeWhile, hnum, hstops⟩
      rw [← htext, ← hdrop, List.takeWhile_append_dropWhile]
  · rintro ⟨gap, num, rfl, hgap, hnum, hstops⟩
    obtain ⟨c, tail, rfl, hc⟩ := hnum.head
    have hskip : (gap ++ (c :: tail ++ rest)).dropWhile isSpace = c :: (tail ++ rest) := by
      rw [List.dropWhile_append_of_pos (List.all_eq_true.mp hgap)]
      exact List.dropWhile_cons_of_neg (by simp [hc])
    simp only [extract, Bool.false_eq_true, if_false, hskip]
    exact getNumber_numeral hnum hstops

/-! ### One number a line -/

/-- What follows the line. -/
def Ends (tail rest : List Char) : Prop :=
  ∃ line, '\n' ∉ line ∧ (tail = line ++ '\n' :: rest ∨ tail = line ∧ rest = [])

theorem ends_iff {tail rest : List Char} :
    Ends tail rest ↔ rest = (tail.dropWhile (fun c => c != '\n')).tail := by
  have hline : ∀ {line : List Char}, '\n' ∉ line → ∀ c ∈ line, (c != '\n') = true := by
    intro line h c hc
    exact bne_iff_ne.mpr (fun he => h (he ▸ hc))
  constructor
  · rintro ⟨line, hnl, rfl | ⟨rfl, rfl⟩⟩
    · rw [List.dropWhile_append_of_pos (hline hnl), List.dropWhile_cons_of_neg (by decide)]
      rfl
    · rw [List.dropWhile_eq_nil_iff.mpr (hline hnl)]
      rfl
  · intro h
    have hnl : '\n' ∉ tail.takeWhile (fun c => c != '\n') := by
      intro hmem
      exact absurd (List.mem_takeWhile_imp hmem) (by decide)
    have hsplit := List.takeWhile_append_dropWhile (p := fun c => c != '\n') (l := tail)
    refine ⟨_, hnl, ?_⟩
    cases hd : tail.dropWhile (fun c => c != '\n') with
    | nil =>
      rw [hd, List.append_nil] at hsplit
      rw [hd] at h
      exact .inr ⟨hsplit.symm, h⟩
    | cons c cs =>
      have hnot := List.head?_dropWhile_not (fun c => c != '\n') tail
      rw [hd] at hnot h
      obtain rfl : c = '\n' := by simpa using hnot
      obtain rfl : rest = cs := h
      rw [hd] at hsplit
      exact .inl hsplit.symm

/-- A line with a number at its start: white space, empty lines among it, may lead, and anything
that is not a digit may follow. -/
def Line (x : BitVec n) (text rest : List Char) : Prop :=
  ∃ gap num tail, text = gap ++ (num ++ tail) ∧ gap.all isSpace = true ∧ Numeral num x ∧
    Stops tail ∧ Ends tail rest

/-- An extraction, and the rest of the line dropped. -/
theorem extract_line_iff {text : List Char} {x : BitVec n} (v : BitVec n) {rest : List Char} :
    (∃ stream, extract ⟨text, false⟩ v = (x, stream) ∧ stream.fail = false ∧
      discardLine stream = ⟨rest, false⟩) ↔ Line x text rest := by
  constructor
  · rintro ⟨⟨tail, fail⟩, hx, hfail, hdiscard⟩
    obtain rfl : fail = false := hfail
    obtain ⟨gap, num, htext, hgap, hnum, hstops⟩ := (extract_eq_ok_iff v).mp hx
    have hrest : (tail.dropWhile (fun c => c != '\n')).tail = rest :=
      congrArg IStream.rest hdiscard
    exact ⟨gap, num, tail, htext, hgap, hnum, hstops, ends_iff.mpr hrest.symm⟩
  · rintro ⟨gap, num, tail, htext, hgap, hnum, hstops, hends⟩
    refine ⟨⟨tail, false⟩, (extract_eq_ok_iff v).mpr ⟨gap, num, htext, hgap, hnum, hstops⟩, rfl, ?_⟩
    rw [ends_iff.mp hends]
    rfl

/-- Lines with the numbers at their starts, and what follows them. -/
inductive Lines : List (BitVec n) → List Char → List Char → Prop
  | nil (text : List Char) : Lines [] text text
  | cons {x : BitVec n} {xs : List (BitVec n)} {text mid rest : List Char} (hx : Line x text mid)
      (hxs : Lines xs mid rest) : Lines (x :: xs) text rest

end Decimal
