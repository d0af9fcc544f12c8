import CycleSim.Config

/-! What the configuration file may be.

The parser reads the properties in turn, so it either reads them all, each at the start of a
line, or reports the first that is not there (`parseAll_ok_iff`, `parseAll_error_iff`). -/
namespace CycleSim

open Decimal (Line Lines extract discardLine extract_line_iff)

/-- The names of the properties, in their order. -/
def propertyNames : List String :=
  ["ICache cache size", "ICache block size", "ICache ways", "ICache miss latency",
    "DCache cache size", "DCache block size", "DCache ways", "DCache miss latency"]

/-- The properties of some names. -/
def parseAll : List String → ConfigFile → Except String (List (BitVec 32) × ConfigFile)
  | [], f => .ok ([], f)
  | name :: names, f => do
    let (x, f) ← parseNextLine name f
    let (xs, f) ← parseAll names f
    return (x :: xs, f)

/-- The text does not start with a number. -/
def NoLine (text : List Char) : Prop := ¬∃ (x : BitVec 32) (rest : List Char), Line x text rest

section
variable {text : List Char} {line : Nat} {name : String}

/-- A property is read from the start of a line. -/
theorem parseNextLine_ok_iff {x : BitVec 32} {f : ConfigFile} :
    parseNextLine name ⟨line, ⟨text, false⟩⟩ = .ok (x, f) ↔
      ∃ rest, f = ⟨line + 1, ⟨rest, false⟩⟩ ∧ Line x text rest := by
  constructor
  · intro h
    simp only [parseNextLine] at h
    split at h
    · cases h
    · rename_i hfail
      simp only [Except.ok.injEq, Prod.mk.injEq] at h
      obtain ⟨rfl, rfl⟩ := h
      rw [Bool.not_eq_true] at hfail
      have hdiscard : ∃ rest, discardLine (extract ⟨text, false⟩ 0#32).2 = ⟨rest, false⟩ :=
        ⟨_, if_neg (by rw [hfail]; exact Bool.false_ne_true)⟩
      obtain ⟨rest, hrest⟩ := hdiscard
      exact ⟨rest, by rw [hrest], (extract_line_iff 0#32).mp ⟨_, rfl, hfail, hrest⟩⟩
  · rintro ⟨rest, rfl, hline⟩
    obtain ⟨stream, hx, hfail, hrest⟩ := (extract_line_iff 0#32).mpr hline
    simp only [parseNextLine, hx, hfail, hrest, Bool.false_eq_true, if_false]

/-- It is missed, and its name reported, on any other text. -/
theorem parseNextLine_error_iff {msg : String} :
    parseNextLine name ⟨line, ⟨text, false⟩⟩ = .error msg ↔
      NoLine text ∧ msg = parseMessage (line + 1) name := by
  constructor
  · intro h
    refine ⟨fun ⟨x, rest, hline⟩ => ?_, ?_⟩
    · rw [(@parseNextLine_ok_iff text line name x _).mpr ⟨rest, rfl, hline⟩] at h
      cases h
    · simp only [parseNextLine] at h
      split at h
      · exact (Except.error.inj h).symm
      · cases h
  · rintro ⟨hno, rfl⟩
    cases hread : parseNextLine name ⟨line, ⟨text, false⟩⟩ with
    | ok r =>
      obtain ⟨rest, _, hline⟩ := parseNextLine_ok_iff.mp hread
      exact absurd ⟨_, rest, hline⟩ hno
    | error msg =>
      simp only [parseNextLine] at hread
      split at hread
      · exact congrArg _ (Except.error.inj hread).symm
      · cases hread

end

/-- All the properties are read exactly when the text has a number for each, a line apart. -/
theorem parseAll_ok_iff {names : List String} {text : List Char} {line : Nat}
    {xs : List (BitVec 32)} {f : ConfigFile} :
    parseAll names ⟨line, ⟨text, false⟩⟩ = .ok (xs, f) ↔
      xs.length = names.length ∧
        ∃ rest, f = ⟨line + names.length, ⟨rest, false⟩⟩ ∧ Lines xs text rest := by
  induction names generalizing text line xs with
  | nil =>
    simp only [parseAll, Except.ok.injEq, Prod.mk.injEq, List.length_nil, List.length_eq_zero_iff]
    constructor
    · rintro ⟨rfl, rfl⟩
      exact ⟨rfl, text, rfl, .nil text⟩
    · rintro ⟨rfl, rest, rfl, hlines⟩
      cases hlines
      exact ⟨rfl, rfl⟩
  | cons name names ih =>
    constructor
    · intro h
      simp only [parseAll, bind, Except.bind, pure, Except.pure] at h
      split at h
      · cases h
      · rename_i r hfirst
        split at h
        · cases h
        · rename_i r' hrest
          simp only [Except.ok.injEq, Prod.mk.injEq] at h
          obtain ⟨rfl, rfl⟩ := h
          obtain ⟨mid, hmid, hline⟩ := parseNextLine_ok_iff.mp hfirst
          rw [hmid] at hrest
          obtain ⟨hlen, rest, hf, hlines⟩ := ih.mp hrest
          refine ⟨congrArg Nat.succ hlen, rest, ?_, .cons hline hlines⟩
          rw [hf, List.length_cons, Nat.add_right_comm, Nat.add_assoc]
    · rintro ⟨hlen, rest, rfl, hlines⟩
      cases hlines with
      | nil => cases hlen
      | @cons x xs _ mid _ hline hlines =>
        have hfirst := (@parseNextLine_ok_iff text line name x _).mpr ⟨mid, rfl, hline⟩
        have hcount : line + (name :: names).length = line + 1 + names.length := by
          rw [List.length_cons, Nat.add_right_comm, Nat.add_assoc]
        have hrest := (@ih mid (line + 1) xs).mpr ⟨Nat.succ.inj hlen, rest, by rw [hcount], hlines⟩
        simp only [parseAll, hfirst, hrest, bind, Except.bind, pure, Except.pure]

/-- Otherwise the first one missing is reported. -/
theorem parseAll_error_iff {names : List String} {text : List Char} {line : Nat} {msg : String} :
    parseAll names ⟨line, ⟨text, false⟩⟩ = .error msg ↔
      ∃ (name : String) (xs : List (BitVec 32)) (mid : List Char),
        names[xs.length]? = some name ∧ Lines xs text mid ∧ NoLine mid ∧
          msg = parseMessage (line + xs.length + 1) name := by
  induction names generalizing text line msg with
  | nil => simp [parseAll]
  | cons name names ih =>
    constructor
    · intro h
      simp only [parseAll, bind, Except.bind, pure, Except.pure] at h
      split at h
      · rename_i msg' hfirst
        obtain ⟨hno, rfl⟩ := parseNextLine_error_iff.mp hfirst
        exact ⟨name, [], text, rfl, .nil text, hno, (Except.error.inj h).symm⟩
      · rename_i r hfirst
        split at h
        · rename_i msg' hrest
          obtain rfl := Except.error.inj h
          obtain ⟨mid, hmid, hline⟩ := parseNextLine_ok_iff.mp hfirst
          rw [hmid] at hrest
          obtain ⟨name', xs, mid', hname, hlines, hno, hmsg⟩ := ih.mp hrest
          refine ⟨name', r.1 :: xs, mid', hname, .cons hline hlines, hno, ?_⟩
          rw [hmsg, List.length_cons, Nat.add_right_comm line 1, Nat.add_assoc line xs.length]
        · cases h
    · rintro ⟨name', xs, mid, hname, hlines, hno, rfl⟩
      cases hlines with
      | nil =>
        have hfirst := (@parseNextLine_error_iff text line name _).mpr ⟨hno, rfl⟩
        obtain rfl := Option.some.inj hname
        simp only [parseAll, hfirst, bind, Except.bind]
        rfl
      | @cons x xs _ mid' _ hline hlines =>
        have hfirst := (@parseNextLine_ok_iff text line name x _).mpr ⟨mid', rfl, hline⟩
        have hcount : line + (x :: xs).length + 1 = line + 1 + xs.length + 1 := by
          rw [List.length_cons, Nat.add_right_comm line 1, Nat.add_assoc line xs.length]
        have hrest := (@ih mid' (line + 1) _).mpr ⟨name', xs, mid, hname, hlines, hno, rfl⟩
        rw [hcount]
        simp only [parseAll, hfirst, hrest, bind, Except.bind]

/-! ### The file -/

/-- `parseProperties` reads the eight properties. -/
theorem parseProperties_eq (f : ConfigFile) : parseProperties f = do
    let (xs, _) ← parseAll propertyNames f
    let x := fun i => xs[i]?.getD 0#32
    return (configOf (x 0) (x 1) (x 2) (x 3), configOf (x 4) (x 5) (x 6) (x 7)) := by
  simp only [parseProperties, parseAll, propertyNames, bind_assoc, pure_bind]
  rfl

/-- **The configuration file.** `parseProperties` accepts a text exactly when there are eight
numbers in it, each at the start of a line, empty lines not counted, and takes them in order;
otherwise it names the first property whose line does not start with a number of 32 bits. -/
theorem parseProperties_iff (text : List Char) :
    (∀ ic dc, parseProperties ⟨0, ⟨text, false⟩⟩ = .ok (ic, dc) ↔
      ∃ a b c d e f g h rest, Lines [a, b, c, d, e, f, g, h] text rest ∧
        ic = configOf a b c d ∧ dc = configOf e f g h) ∧
    ∀ msg, parseProperties ⟨0, ⟨text, false⟩⟩ = .error msg ↔
      ∃ (name : String) (xs : List (BitVec 32)) (mid : List Char),
        propertyNames[xs.length]? = some name ∧ Lines xs text mid ∧ NoLine mid ∧
          msg = parseMessage (xs.length + 1) name := by
  constructor
  · intro ic dc
    constructor
    · intro hread
      rw [parseProperties_eq] at hread
      cases hall : parseAll propertyNames ⟨0, ⟨text, false⟩⟩ with
      | error msg =>
        rw [hall] at hread
        cases hread
      | ok r =>
        obtain ⟨xs, stream⟩ := r
        obtain ⟨hlen, rest, -, hlines⟩ := parseAll_ok_iff.mp hall
        rw [hall] at hread
        match xs, hlen with
        | [a, b, c, d, e, f, g, h], _ =>
          obtain ⟨hic, hdc⟩ := Prod.mk.inj (Except.ok.inj hread)
          exact ⟨a, b, c, d, e, f, g, h, rest, hlines, hic.symm, hdc.symm⟩
    · rintro ⟨a, b, c, d, e, f, g, h, rest, hlines, rfl, rfl⟩
      have hall := (@parseAll_ok_iff propertyNames text 0 _ _).mpr ⟨rfl, rest, rfl, hlines⟩
      rw [parseProperties_eq, hall]
      rfl
  · intro msg
    have herror : parseProperties ⟨0, ⟨text, false⟩⟩ = .error msg ↔
        parseAll propertyNames ⟨0, ⟨text, false⟩⟩ = .error msg := by
      rw [parseProperties_eq]
      cases parseAll propertyNames ⟨0, ⟨text, false⟩⟩ with
      | error msg' => simp only [bind, Except.bind, Except.error.injEq]
      | ok r => exact iff_of_false (fun h => nomatch h) (fun h => nomatch h)
    rw [herror, parseAll_error_iff]
    simp only [Nat.zero_add]

/-- The file of the tests, with its comments. -/
example : parseProperties ⟨0, ⟨("2048  \t    # [ICache]\n16 \t# 16 byte block size\n2\n5\n" ++
    "4096 # [DCache]\n16\n4 # 4-way set associative\n8").toList, false⟩⟩ =
      .ok (configOf 2048 16 2 5, configOf 4096 16 4 8) := by decide

example : parseProperties ⟨0, ⟨"2048\n16\ntwo".toList, false⟩⟩ =
    .error "Failed to parse property at line 3 for property ICache ways" := by decide

end CycleSim
