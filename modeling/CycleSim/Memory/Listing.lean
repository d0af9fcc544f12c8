import CycleSim.Memory.Access

/-! The listing of a range of memory.

Two cursors run through the range, `relStart` an entry at a time and `curAddr` a row at a
time. They stay in step because a row that is finished lies in the store, so that neither has
wrapped round; a range is printed in rows of `entriesPerRow` entries, the last one shorter, or
refused at its first entry that is not all in the store (`printMemArray_prints`). -/
namespace CycleSim

namespace MemoryStore

/-- `n` entries of `size` bytes from an address. -/
def entriesFrom (address : BitVec 64) (size n : Nat) : List (BitVec 64) :=
  (List.range n).map (fun k => address + BitVec.ofNat 64 (k * size))

/-- How many `k` have `startAddr + k * size` below `endAddr`. -/
def entryCount (startAddr endAddr : BitVec 64) (size : Nat) : Nat :=
  (endAddr.toNat - startAddr.toNat + (size - 1)) / size

/-- The entries of a range. -/
def entries (startAddr endAddr : BitVec 64) (size : Nat) : List (BitVec 64) :=
  entriesFrom startAddr size (entryCount startAddr endAddr size)

theorem lt_entryCount_iff (startAddr endAddr : BitVec 64) {size : Nat} (h : 0 < size) (k : Nat) :
    k < entryCount startAddr endAddr size ↔ startAddr.toNat + k * size < endAddr.toNat := by
  rw [entryCount, ← Nat.succ_le_iff, Nat.le_div_iff_mul_le h, Nat.succ_mul]
  omega

/-- An entry, its bytes in the order of their addresses. -/
def entryText (mem : MemoryStore) (size : Nat) (address : BitVec 64) : String :=
  "0x" ++ (String.join ((mem.slice address size).map (fun byte => hexSetw 2 byte.toNat)) ++ " ")

/-- The entries in rows of `n`, of which the last may be shorter. -/
structure InRows {α : Type*} (entries : List α) (n : Nat) (rows : List (List α)) : Prop where
  flatten_eq : rows.flatten = entries
  nonempty : ∀ row ∈ rows, row ≠ []
  length_le : ∀ row ∈ rows, row.length ≤ n
  full : ∀ row ∈ rows.dropLast, row.length = n

/-- A row, labelled with the address of its first entry. -/
def rowText (mem : MemoryStore) (size : Nat) (row : List (BitVec 64)) : String :=
  "0x" ++ (hexSetw 8 (row.headD 0#64).toNat ++
    (": " ++ (String.join (row.map (mem.entryText size)) ++ "\n")))

theorem entriesFrom_succ (address : BitVec 64) (size n : Nat) : entriesFrom address size (n + 1) =
    address :: entriesFrom (address + BitVec.ofNat 64 size) size n := by
  have hstep : ∀ k, address + BitVec.ofNat 64 ((k + 1) * size) =
      address + BitVec.ofNat 64 size + BitVec.ofNat 64 (k * size) := by
    intro k
    rw [Nat.succ_mul, Nat.add_comm, BitVec.ofNat_add, BitVec.add_assoc]
  rw [entriesFrom, List.range_succ_eq_map, List.map_cons, List.map_map, Nat.zero_mul]
  refine congrArg₂ List.cons (BitVec.add_zero address) (List.map_congr_left (fun k _ => hstep k))

theorem entriesFrom_add (address : BitVec 64) (size m n : Nat) :
    entriesFrom address size (m + n) = entriesFrom address size m ++
      entriesFrom (address + BitVec.ofNat 64 (m * size)) size n := by
  induction m generalizing address with
  | zero =>
    rw [Nat.zero_add, Nat.zero_mul]
    exact (congrArg (entriesFrom · size n) (BitVec.add_zero address)).symm
  | succ m ih =>
    rw [Nat.add_right_comm, entriesFrom_succ, ih, entriesFrom_succ, List.cons_append,
      BitVec.add_assoc, ← BitVec.ofNat_add, Nat.succ_mul, Nat.add_comm size]

theorem length_entriesFrom (address : BitVec 64) (size n : Nat) :
    (entriesFrom address size n).length = n := by
  rw [entriesFrom, List.length_map, List.length_range]

section
variable {α : Type*} {n : Nat}

theorem inRows_nil : InRows ([] : List α) n [] :=
  ⟨rfl, by simp, by simp, by simp⟩

theorem inRows_singleton {row : List α} (hne : row ≠ []) (hle : row.length ≤ n) :
    InRows row n [row] :=
  ⟨by simp, by simpa using hne, by simpa using hle, by simp⟩

/-- A full row in front. -/
theorem InRows.cons {entries row : List α} {rows : List (List α)} (h : InRows entries n rows)
    (hrow : row.length = n) (hpos : 0 < n) : InRows (row ++ entries) n (row :: rows) where
  flatten_eq := by rw [List.flatten_cons, h.flatten_eq]
  nonempty := by
    refine List.forall_mem_cons.mpr ⟨?_, h.nonempty⟩
    exact List.ne_nil_of_length_pos (hrow ▸ hpos)
  length_le := List.forall_mem_cons.mpr ⟨Nat.le_of_eq hrow, h.length_le⟩
  full := by
    cases rows with
    | nil => simp
    | cons next rows =>
      rw [List.dropLast_cons_cons]
      exact List.forall_mem_cons.mpr ⟨hrow, h.full⟩

/-- The first row is as long as it can be, and the others divide what is left. -/
theorem InRows.uncons {entries row : List α} {rows : List (List α)}
    (h : InRows entries n (row :: rows)) :
    row = entries.take n ∧ InRows (entries.drop n) n rows := by
  obtain ⟨hflat, hne, hle, hfull⟩ := h
  rw [List.forall_mem_cons] at hne hle
  rw [List.flatten_cons] at hflat
  cases rows with
  | nil =>
    obtain rfl : row = entries := by simpa using hflat
    rw [List.take_of_length_le hle.1, List.drop_of_length_le hle.1]
    exact ⟨rfl, inRows_nil⟩
  | cons next rows =>
    rw [List.dropLast_cons_cons, List.forall_mem_cons] at hfull
    obtain rfl : row.length = n := hfull.1
    rw [← hflat, List.take_left, List.drop_left]
    exact ⟨rfl, rfl, hne.2, hle.2, hfull.2⟩

/-- Entries are divided into rows in one way. -/
theorem InRows.unique {entries : List α} {rows rows' : List (List α)} (h : InRows entries n rows)
    (h' : InRows entries n rows') : rows = rows' := by
  induction rows generalizing entries rows' with
  | nil =>
    have hnone : rows'.flatten = [] := h'.flatten_eq.trans h.flatten_eq.symm
    refine (List.eq_nil_iff_forall_not_mem.mpr (fun row hrow => ?_)).symm
    exact h'.nonempty row hrow (List.flatten_eq_nil_iff.mp hnone row hrow)
  | cons row rows ih =>
    cases rows' with
    | nil =>
      have hnone : (row :: rows).flatten = [] := h.flatten_eq.trans h'.flatten_eq.symm
      exact absurd (List.flatten_eq_nil_iff.mp hnone row List.mem_cons_self)
        (h.nonempty row List.mem_cons_self)
    | cons row' rows' =>
      rw [h.uncons.1, h'.uncons.1, ih h.uncons.2 h'.uncons.2]

end

/-! ### One entry -/

/-- The byte loop, from its `j`-th iteration. -/
theorem printBytes_eq {memArr : List (BitVec 8)} {relStart : BitVec 64}
    (hlen : memArr.length ≤ maxEntries) (hin : relStart.toNat < memArr.length)
    (todo j : Nat) (hj : j + todo ≤ 8) (out : String) :
    printBytes memArr relStart todo j out =
      (out ++ String.join (((memArr.drop (relStart.toNat + j)).take todo).map
        (fun byte => hexSetw 2 byte.toNat)),
        decide (todo = 0 ∨ relStart.toNat + j + todo ≤ memArr.length)) := by
  induction todo generalizing j out with
  | zero => simp [printBytes]
  | succ todo ih =>
    have hat := at?_add hlen hin (i := j) (by omega)
    by_cases hend : relStart.toNat + j < memArr.length
    · rw [List.getElem?_eq_getElem hend] at hat
      simp only [printBytes, hat]
      rw [ih (j + 1) (by omega), List.drop_eq_getElem_cons hend, List.take_succ_cons, List.map_cons,
        String.join_cons, String.append_assoc, Nat.add_assoc relStart.toNat]
      refine Prod.ext rfl (decide_eq_decide.mpr ?_)
      omega
    · rw [List.getElem?_eq_none (by omega)] at hat
      simp only [printBytes, hat]
      rw [List.drop_eq_nil_of_le (by omega), decide_eq_false (by omega)]
      simp

/-- From an address on, `n` entries start before the end of the range. -/
def Ahead (mem : MemoryStore) (relEnd address : BitVec 64) (size n : Nat) : Prop :=
  ∀ k, k < n ↔ mem.offset address + k * size < relEnd.toNat

variable {mem : MemoryStore}

section
variable (hlen : mem.memArr.length ≤ maxEntries) (size : MemEntrySize)
include hlen

theorem printBytes_entry (address : BitVec 64) (out : String) :
    printBytes mem.memArr (address - mem.startAddr) size.toNat 0 out =
      (out ++ String.join ((mem.slice address size.toNat).map (fun byte => hexSetw 2 byte.toNat)),
        decide (mem.InBounds address size)) := by
  obtain ⟨hpos, hle⟩ := size_bounds size
  by_cases hin : (address - mem.startAddr).toNat < mem.memArr.length
  · rw [printBytes_eq hlen hin _ _ (by omega)]
    refine Prod.ext rfl (decide_eq_decide.mpr ?_)
    show _ ↔ (address - mem.startAddr).toNat + size.toNat ≤ _
    omega
  · have hout : ¬mem.InBounds address size := by
      unfold InBounds offset
      omega
    obtain ⟨n, hn⟩ := Nat.exists_eq_succ_of_ne_zero hpos.ne'
    rw [hn, decide_eq_false hout]
    simp only [printBytes, at?_of_length_le (Nat.le_of_not_lt hin)]
    rw [slice, offset, List.drop_eq_nil_of_le (by omega)]
    simp

/-! ### One row -/

variable {size}

/-- The entry behind one in the store is where it would be. -/
theorem offset_next {address : BitVec 64} (hin : mem.InBounds address size) :
    mem.offset (address + BitVec.ofNat 64 size.toNat) = mem.offset address + size.toNat := by
  obtain ⟨_, hle⟩ := size_bounds size
  unfold InBounds at hin
  unfold offset at hin ⊢
  unfold maxEntries at hlen
  have hcomm : address + BitVec.ofNat 64 size.toNat - mem.startAddr =
      address - mem.startAddr + BitVec.ofNat 64 size.toNat := by
    bv_omega
  rw [hcomm, BitVec.toNat_add, BitVec.toNat_ofNat]
  omega

variable {relEnd address : BitVec 64}

omit hlen in
theorem Ahead.lt_iff {n : Nat} (h : mem.Ahead relEnd address size.toNat n) :
    address - mem.startAddr < relEnd ↔ 0 < n := by
  rw [h 0, BitVec.lt_def, Nat.zero_mul]
  rfl

theorem Ahead.next {n : Nat} (h : mem.Ahead relEnd address size.toNat (n + 1))
    (hin : mem.InBounds address size) :
    mem.Ahead relEnd (address + BitVec.ofNat 64 size.toNat) size.toNat n := by
  intro k
  have hk := h (k + 1)
  rw [Nat.succ_mul] at hk
  rw [offset_next hlen hin]
  omega

/-- A round of the loop over a row. -/
theorem printRow_succ {n : Nat} (h : mem.Ahead relEnd address size.toNat (n + 1)) (todo : Nat)
    (out : String) : ∃ text,
      printRow mem.memArr relEnd (BitVec.ofNat 64 size.toNat) (todo + 1) (address - mem.startAddr) out =
        if mem.InBounds address size then
          printRow mem.memArr relEnd (BitVec.ofNat 64 size.toNat) todo
            (address + BitVec.ofNat 64 size.toNat - mem.startAddr)
            (out ++ mem.entryText size.toNat address)
        else .inr (-einval, text) := by
  have hsize : (BitVec.ofNat 64 size.toNat).toNat = size.toNat := by
    cases size <;> rfl
  have hnext : address - mem.startAddr + BitVec.ofNat 64 size.toNat =
      address + BitVec.ofNat 64 size.toNat - mem.startAddr := by
    bv_omega
  rw [printRow, if_pos (h.lt_iff.mpr (Nat.succ_pos n)), hsize, printBytes_entry hlen, hnext]
  simp only [decide_eq_true_eq, entryText, String.append_assoc]
  exact ⟨_, rfl⟩

/-- The entries of a row, when they are all in the store: a full row, or all that are left. -/
theorem printRow_inside {n : Nat} (h : mem.Ahead relEnd address size.toNat n) (todo : Nat)
    (hall : ∀ a ∈ entriesFrom address size.toNat (min todo n), mem.InBounds a size) (out : String) :
    printRow mem.memArr relEnd (BitVec.ofNat 64 size.toNat) todo (address - mem.startAddr) out =
      if todo ≤ n then
        .inl (address + BitVec.ofNat 64 (todo * size.toNat) - mem.startAddr, out ++
          String.join ((entriesFrom address size.toNat todo).map (mem.entryText size.toNat)))
      else .inr (0, out ++ (String.join
        ((entriesFrom address size.toNat n).map (mem.entryText size.toNat)) ++ "\n")) := by
  induction todo generalizing n address out with
  | zero =>
    rw [if_pos (Nat.zero_le n), Nat.zero_mul, printRow]
    simp [entriesFrom]
  | succ todo ih =>
    cases n with
    | zero =>
      rw [printRow, if_neg (mt h.lt_iff.mp (Nat.lt_irrefl 0)), if_neg (Nat.not_succ_le_zero todo)]
      simp [entriesFrom]
    | succ n =>
      rw [Nat.succ_min_succ, entriesFrom_succ] at hall
      have hin : mem.InBounds address size := hall _ List.mem_cons_self
      obtain ⟨_, hround⟩ := printRow_succ hlen h todo out
      rw [hround, if_pos hin, ih (h.next hlen hin) (fun a ha => hall a (List.mem_cons_of_mem _ ha))]
      simp only [Nat.succ_le_succ_iff, entriesFrom_succ, List.map_cons, String.join_cons,
        String.append_assoc, BitVec.add_assoc, ← BitVec.ofNat_add, Nat.succ_mul,
        Nat.add_comm size.toNat]

/-- An entry of the row that is not all in the store ends the call. -/
theorem printRow_outside {n : Nat} (h : mem.Ahead relEnd address size.toNat n) (todo : Nat)
    (hout : ∃ a ∈ entriesFrom address size.toNat (min todo n), ¬mem.InBounds a size)
    (out : String) : ∃ text,
    printRow mem.memArr relEnd (BitVec.ofNat 64 size.toNat) todo (address - mem.startAddr) out =
      .inr (-einval, text) := by
  induction todo generalizing n address out with
  | zero =>
    rw [Nat.zero_min] at hout
    simp [entriesFrom] at hout
  | succ todo ih =>
    cases n with
    | zero =>
      rw [Nat.min_zero] at hout
      simp [entriesFrom] at hout
    | succ n =>
      rw [Nat.succ_min_succ, entriesFrom_succ] at hout
      obtain ⟨text, hround⟩ := printRow_succ hlen h todo out
      rw [hround]
      by_cases hin : mem.InBounds address size
      · rw [if_pos hin]
        refine ih (h.next hlen hin) ?_ _
        obtain ⟨a, ha, hnot⟩ := hout
        refine ⟨a, (List.mem_cons.mp ha).resolve_left (fun he => hnot (he ▸ hin)), hnot⟩
      · rw [if_neg hin]
        exact ⟨text, rfl⟩

/-! ### The rows -/

theorem Ahead.skip {m n : Nat} (h : mem.Ahead relEnd address size.toNat (m + n))
    (hall : ∀ a ∈ entriesFrom address size.toNat m, mem.InBounds a size) :
    mem.Ahead relEnd (address + BitVec.ofNat 64 (m * size.toNat)) size.toNat n := by
  induction m generalizing address with
  | zero =>
    rw [Nat.zero_add] at h
    rw [Nat.zero_mul]
    exact (BitVec.add_zero address).symm ▸ h
  | succ m ih =>
    rw [Nat.add_right_comm] at h
    rw [entriesFrom_succ, List.forall_mem_cons] at hall
    have hskip := ih (h.next hlen hall.1) hall.2
    rwa [BitVec.add_assoc, ← BitVec.ofNat_add, Nat.add_comm size.toNat, ← Nat.succ_mul] at hskip

variable {entriesPerRow : BitVec 64}

/-- A round of the outer loop prints a row. -/
theorem printMemArrayBody_inside {n : Nat} (h : mem.Ahead relEnd address size.toNat (n + 1))
    (hrow : 1 ≤ entriesPerRow.toNat) (out : String)
    (hall : ∀ a ∈ entriesFrom address size.toNat (min entriesPerRow.toNat (n + 1)),
      mem.InBounds a size) :
    printMemArrayBody mem relEnd (BitVec.ofNat 64 size.toNat) entriesPerRow
        ⟨address - mem.startAddr, address, out⟩ =
      if entriesPerRow.toNat ≤ n + 1 then
        .inl ⟨address + BitVec.ofNat 64 (entriesPerRow.toNat * size.toNat) - mem.startAddr,
          address + BitVec.ofNat 64 (entriesPerRow.toNat * size.toNat),
          out ++ mem.rowText size.toNat (entriesFrom address size.toNat entriesPerRow.toNat)⟩
      else .inr (0, out ++ mem.rowText size.toNat (entriesFrom address size.toNat (n + 1))) := by
  have hhead : ∀ {m : Nat}, 1 ≤ m → (entriesFrom address size.toNat m).headD 0#64 = address := by
    intro m hm
    obtain ⟨k, rfl⟩ := Nat.exists_eq_succ_of_ne_zero (Nat.ne_of_gt hm)
    rw [entriesFrom_succ]
    rfl
  have hlabel : address + BitVec.ofNat 64 size.toNat * entriesPerRow =
      address + BitVec.ofNat 64 (entriesPerRow.toNat * size.toNat) := by
    rw [BitVec.ofNat_mul, BitVec.ofNat_toNat, BitVec.setWidth_eq, BitVec.mul_comm]
  simp only [printMemArrayBody, if_pos (h.lt_iff.mpr (Nat.succ_pos n)),
    printRow_inside hlen h entriesPerRow.toNat hall]
  by_cases hfull : entriesPerRow.toNat ≤ n + 1
  · simp only [if_pos hfull, hlabel, rowText, hhead hrow, String.append_assoc]
  · simp only [if_neg hfull, rowText, hhead (Nat.succ_pos n), String.append_assoc]

/-- A range that is all in the store is printed in rows. -/
theorem printMemArray_inside (hrow : 1 ≤ entriesPerRow.toNat) (n : Nat)
    (h : mem.Ahead relEnd address size.toNat n)
    (hall : ∀ a ∈ entriesFrom address size.toNat n, mem.InBounds a size) (out : String) :
    ∃ rows, InRows (entriesFrom address size.toNat n) entriesPerRow.toNat rows ∧
      Loop.Yields (printMemArrayBody mem relEnd (BitVec.ofNat 64 size.toNat) entriesPerRow)
        ⟨address - mem.startAddr, address, out⟩
        (0, out ++ String.join (rows.map (mem.rowText size.toNat))) := by
  induction n using Nat.strong_induction_on generalizing address out with
  | _ n ih =>
    cases n with
    | zero =>
      refine ⟨[], inRows_nil, .exit ?_⟩
      simp only [printMemArrayBody, if_neg (mt h.lt_iff.mp (Nat.lt_irrefl 0)), List.map_nil,
        String.join_nil, String.append_empty]
    | succ n =>
      have hround := printMemArrayBody_inside hlen h hrow out
      by_cases hfull : entriesPerRow.toNat ≤ n + 1
      · rw [if_pos hfull, Nat.min_eq_left hfull] at hround
        obtain ⟨left, hleft⟩ := Nat.exists_eq_add_of_le hfull
        rw [hleft] at h hall ⊢
        rw [entriesFrom_add, List.forall_mem_append] at hall
        obtain ⟨rows, hrows, hyields⟩ := ih left (by omega) (h.skip hlen hall.1) hall.2
          (out ++ mem.rowText size.toNat (entriesFrom address size.toNat entriesPerRow.toNat))
        refine ⟨_ :: rows, entriesFrom_add .. ▸ hrows.cons (length_entriesFrom ..) hrow,
          .step (hround hall.1) ?_⟩
        rwa [List.map_cons, String.join_cons, ← String.append_assoc]
      · rw [if_neg hfull, Nat.min_eq_right (Nat.le_of_not_le hfull)] at hround
        refine ⟨[entriesFrom address size.toNat (n + 1)], inRows_singleton ?_ ?_, .exit ?_⟩
        · exact List.ne_nil_of_length_pos (by rw [length_entriesFrom]; exact Nat.succ_pos n)
        · rw [length_entriesFrom]
          exact Nat.le_of_not_le hfull
        · rw [hround hall, List.map_singleton, String.join_cons, String.join_nil,
            String.append_empty]

/-- A range that is not all in the store is refused. -/
theorem printMemArray_outside (hrow : 1 ≤ entriesPerRow.toNat) (n : Nat)
    (h : mem.Ahead relEnd address size.toNat n)
    (hout : ∃ a ∈ entriesFrom address size.toNat n, ¬mem.InBounds a size) (out : String) :
    ∃ text, Loop.Yields (printMemArrayBody mem relEnd (BitVec.ofNat 64 size.toNat) entriesPerRow)
      ⟨address - mem.startAddr, address, out⟩ (-einval, text) := by
  induction n using Nat.strong_induction_on generalizing address out with
  | _ n ih =>
    cases n with
    | zero => simp [entriesFrom] at hout
    | succ n =>
      by_cases hall : ∀ a ∈ entriesFrom address size.toNat (min entriesPerRow.toNat (n + 1)),
          mem.InBounds a size
      · -- the row is in the store, so there are more, and one of them is not
        have hround := printMemArrayBody_inside hlen h hrow out hall
        obtain ⟨a, ha, hnot⟩ := hout
        have hfull : entriesPerRow.toNat ≤ n + 1 := by
          by_contra hlt
          rw [Nat.min_eq_right (Nat.le_of_not_le hlt)] at hall
          exact hnot (hall a ha)
        rw [if_pos hfull] at hround
        rw [Nat.min_eq_left hfull] at hall
        obtain ⟨left, hleft⟩ := Nat.exists_eq_add_of_le hfull
        rw [hleft] at h ha
        rw [entriesFrom_add, List.mem_append] at ha
        obtain ⟨text, hyields⟩ := ih left (by omega) (h.skip hlen hall)
          ⟨a, ha.resolve_left (fun hin => hnot (hall a hin)), hnot⟩
          (out ++ mem.rowText size.toNat (entriesFrom address size.toNat entriesPerRow.toNat))
        exact ⟨text, .step hround hyields⟩
      · simp only [not_forall] at hall
        obtain ⟨a, ha, hnot⟩ := hall
        obtain ⟨text, hprint⟩ := printRow_outside hlen h entriesPerRow.toNat ⟨a, ha, hnot⟩
          (out ++ "0x" ++ hexSetw 8 address.toNat ++ ": ")
        refine ⟨text, .exit ?_⟩
        simp only [printMemArrayBody, if_pos (h.lt_iff.mpr (Nat.succ_pos n)), hprint]

end

/-- The range of a call, seen from the start of the store. -/
theorem ahead_entries (size : MemEntrySize) {startAddr endAddr : BitVec 64}
    (hstart : mem.startAddr ≤ startAddr) (hend : startAddr ≤ endAddr) :
    mem.Ahead (endAddr - mem.startAddr) startAddr size.toNat
      (entryCount startAddr endAddr size.toNat) := by
  intro k
  rw [lt_entryCount_iff startAddr endAddr (size_bounds size).1, offset]
  bv_omega

/-- **The listing of a range.** `printMemArray` returns, with an error exactly when an entry is
not all in the store; otherwise it returns 0 and prints the entries of the range, in rows. -/
theorem printMemArray_prints {mem : MemoryStore} (hlen : mem.memArr.length ≤ maxEntries)
    (size : MemEntrySize) {startAddr endAddr entriesPerRow : BitVec 64}
    (hrow : 1 ≤ entriesPerRow.toNat) (hstart : mem.startAddr ≤ startAddr)
    (hend : startAddr ≤ endAddr) (out : String) : ∃ fuel ret out',
    printMemArray fuel mem startAddr endAddr (BitVec.ofNat 64 size.toNat) entriesPerRow out =
        some (ret, out') ∧
      (ret ≠ 0 ↔ ∃ a ∈ entries startAddr endAddr size.toNat, ¬mem.InBounds a size) ∧
      (ret = 0 → ∃ rows, InRows (entries startAddr endAddr size.toNat) entriesPerRow.toNat rows ∧
        out' = out ++ String.join (rows.map (mem.rowText size.toNat))) := by
  have hahead := ahead_entries size hstart hend
  have hsize : ∀ fuel, printMemArray fuel mem startAddr endAddr (BitVec.ofNat 64 size.toNat)
      entriesPerRow out = Loop.run (printMemArrayBody mem (endAddr - mem.startAddr)
        (BitVec.ofNat 64 size.toNat) entriesPerRow) fuel
          ⟨startAddr - mem.startAddr, startAddr, out⟩ := by
    intro fuel
    exact if_pos (by cases size <;> decide)
  by_cases hall : ∀ a ∈ entries startAddr endAddr size.toNat, mem.InBounds a size
  · obtain ⟨rows, hrows, fuel, hrun⟩ := printMemArray_inside hlen hrow _ hahead hall out
    refine ⟨fuel, 0, _, (hsize fuel).trans hrun, ?_, fun _ => ⟨rows, hrows, rfl⟩⟩
    exact iff_of_false (by decide) (fun ⟨a, ha, hnot⟩ => hnot (hall a ha))
  · have hout : ∃ a ∈ entries startAddr endAddr size.toNat, ¬mem.InBounds a size := by
      simpa only [not_forall, exists_prop] using hall
    obtain ⟨text, fuel, hrun⟩ := printMemArray_outside hlen hrow _ hahead hout out
    refine ⟨fuel, -einval, text, (hsize fuel).trans hrun, iff_of_true (by decide) hout, ?_⟩
    intro hzero
    exact absurd hzero (by decide)

/-- Seven bytes. -/
def sevenBytes : MemoryStore :=
  ⟨0x1000#64, [0x0f#8, 0x10#8, 0x32#8, 0x54#8, 0x76#8, 0x98#8, 0xba#8]⟩

/-- Three half words in rows of two, all but the first byte; the range ends inside the last. -/
theorem printMemArray_prints_sample : ∃ fuel,
    printMemArray fuel sevenBytes 0x1001#64 0x1006#64 2#64 2#64 "" =
      some (0, "0x00001001: 0x1032 0x5476 \n0x00001005: 0x98ba \n") := by
  obtain ⟨fuel, ret, out', hrun, herror, htext⟩ := @printMemArray_prints sevenBytes (by decide)
    .halfSize 0x1001#64 0x1006#64 2#64 (by decide) (by decide) (by decide) ""
  have hentries : entries 0x1001#64 0x1006#64 2 = [0x1001#64, 0x1003#64, 0x1005#64] := by decide
  rw [MemEntrySize.toNat, hentries] at herror htext
  have hinside : ∀ a ∈ [0x1001#64, 0x1003#64, 0x1005#64], sevenBytes.InBounds a .halfSize := by
    simp [InBounds, offset, sevenBytes, MemEntrySize.toNat]
  have hret : ret = 0 := by
    by_contra hne
    obtain ⟨a, ha, hnot⟩ := herror.mp hne
    exact hnot (hinside a ha)
  obtain ⟨rows, hrows, hout⟩ := htext hret
  have hthese : InRows [0x1001#64, 0x1003#64, 0x1005#64] 2
      [[0x1001#64, 0x1003#64], [0x1005#64]] :=
    ⟨rfl, by simp, by simp, by simp⟩
  rw [hrows.unique hthese] at hout
  refine ⟨fuel, hrun.trans ?_⟩
  rw [hret, hout]
  decide

end MemoryStore

end CycleSim
