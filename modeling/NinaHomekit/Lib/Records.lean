import Mathlib

/-!
# Numbered records in a stream that arrives in pieces

A stream that a receiver reads piece by piece, and that holds records one behind the other, where
what a record says may depend on its number.  The elements, the records and their format are
arbitrary.

* `recv` — a call for so many elements, which may return fewer.
* `Format` — a format, which finds the record at the head of a stream; `records` are those of a
  stream, up to the first that is none, and `Reads` says that so many were read.
* `Reads.records_eq` — **what was read are the first records** of the stream.
* `Parts` — elements that were taken from the fronts of records.
-/

namespace Records

variable {α β : Type*}

/-! ## Pieces -/

/-- Elements, each with whether a call ends behind it even if it asked for more. -/
abbrev Pieces (α : Type*) := List (α × Bool)

/-- The elements, without where the calls end. -/
def elems (s : Pieces α) : List α := s.map Prod.fst

@[simp] theorem elems_nil : elems ([] : Pieces α) = [] := rfl

@[simp] theorem elems_cons (x : α × Bool) (s : Pieces α) : elems (x :: s) = x.1 :: elems s := rfl

@[simp] theorem elems_append (s t : Pieces α) : elems (s ++ t) = elems s ++ elems t :=
  List.map_append

/-- A call for at most `n` elements: what it returns, and what is left. -/
def recv : ℕ → Pieces α → List α × Pieces α
  | 0, s => ([], s)
  | _ + 1, [] => ([], [])
  | n + 1, x :: s => if x.2 then ([x.1], s) else (x.1 :: (recv n s).1, (recv n s).2)

variable {n : ℕ} {s : Pieces α}

/-- **Nothing is lost, and nothing is returned twice.** -/
theorem recv_append (n : ℕ) (s : Pieces α) : (recv n s).1 ++ elems (recv n s).2 = elems s := by
  induction n generalizing s with
  | zero => rfl
  | succ n ih =>
    cases s with
    | nil => rfl
    | cons x s =>
      rw [recv]
      split
      · rfl
      · simp [ih]

theorem length_recv_le (n : ℕ) (s : Pieces α) : (recv n s).1.length ≤ n := by
  induction n generalizing s with
  | zero => exact le_rfl
  | succ n ih =>
    cases s with
    | nil => exact Nat.zero_le _
    | cons x s =>
      rw [recv]
      split
      · exact Nat.succ_le_succ (Nat.zero_le n)
      · exact Nat.succ_le_succ (ih s)

/-- A call returns something if there is something. -/
theorem recv_eq_nil_iff : (recv n s).1 = [] ↔ n = 0 ∨ s = [] := by
  rcases n with _ | n
  · simp [recv]
  · cases s with
    | nil => simp [recv]
    | cons x s => cases hx : x.2 <;> simp [recv, hx]

/-- A call for two elements, none of which ends between them. -/
theorem recv_two {x y : α × Bool} (hx : x.2 = false) (s : Pieces α) :
    recv 2 (x :: y :: s) = ([x.1, y.1], s) := by
  cases hy : y.2 <;> simp [recv, hx, hy]

/-! ## Records -/

/-- A format: the record with a number at the head of a stream, and what is behind it. -/
structure Format (α β : Type*) where
  next : ℕ → List α → Option (β × List α)
  /-- What arrives later changes nothing. -/
  next_append {k : ℕ} {s rest : List α} {r : β} (t : List α) :
    next k s = some (r, rest) → next k (s ++ t) = some (r, rest ++ t)
  length_next {k : ℕ} {s rest : List α} {r : β} :
    next k s = some (r, rest) → rest.length < s.length

namespace Format

variable (F : Format α β) {k : ℕ} {s s' s'' t : List α} {r : β} {rs : List β}

/-- The records of a stream, the first with the number `k`. -/
def records (k : ℕ) (s : List α) : List β :=
  match h : F.next k s with
  | none => []
  | some (r, rest) => r :: records (k + 1) rest
termination_by s.length
decreasing_by exact F.length_next h

theorem records_of_next {rest : List α} (h : F.next k s = some (r, rest)) :
    F.records k s = r :: F.records (k + 1) rest := by
  rw [records]
  split
  · rename_i hnone
    rw [h] at hnone
    cases hnone
  · rename_i r' rest' hsome
    rw [h] at hsome
    cases hsome
    rfl

theorem records_of_none (h : F.next k s = none) : F.records k s = [] := by
  rw [records]
  split
  · rfl
  · rename_i hsome
    rw [h] at hsome
    cases hsome

/-- What is true of every record of a format. -/
theorem forall_mem_records {P : β → Prop}
    (hP : ∀ {k s r rest}, F.next k s = some (r, rest) → P r) (k : ℕ) (s : List α) :
    ∀ r ∈ F.records k s, P r := by
  fun_induction F.records k s with
  | case1 k s h => simp
  | case2 k s r rest h ih => exact List.forall_mem_cons.2 ⟨hP h, ih⟩

/-- Where a record takes `c` elements more than it holds. -/
theorem length_flatten_records (F : Format α (List β)) {c : ℕ}
    (hcost : ∀ {k s r rest}, F.next k s = some (r, rest) → r.length + c + rest.length = s.length)
    (k : ℕ) (s : List α) :
    (F.records k s).flatten.length + c * (F.records k s).length ≤ s.length := by
  fun_induction F.records k s with
  | case1 k s h => simp
  | case2 k s r rest h ih =>
    have := hcost h
    rw [List.flatten_cons, List.length_append, List.length_cons, mul_add]
    omega

/-- So many records were read, and this is left. -/
def Reads (k : ℕ) (s : List α) (rs : List β) (s' : List α) : Prop :=
  match rs with
  | [] => s = s'
  | r :: rs => ∃ rest, F.next k s = some (r, rest) ∧ Reads (k + 1) rest rs s'

variable {F}

theorem Reads.nil (k : ℕ) (s : List α) : F.Reads k s [] s := rfl

/-- One record more. -/
theorem Reads.concat (h : F.Reads k s rs s') (hnext : F.next (k + rs.length) s' = some (r, s'')) :
    F.Reads k s (rs ++ [r]) s'' := by
  induction rs generalizing k s with
  | nil =>
    obtain rfl : s = s' := h
    exact ⟨s'', hnext, rfl⟩
  | cons r' rs ih =>
    obtain ⟨rest, hrest, h⟩ := h
    refine ⟨rest, hrest, ih h ?_⟩
    rwa [Nat.add_assoc, Nat.add_comm 1]

/-- What arrives later stays behind what was read. -/
theorem Reads.append (h : F.Reads k s rs s') (t : List α) : F.Reads k (s ++ t) rs (s' ++ t) := by
  induction rs generalizing k s with
  | nil =>
    obtain rfl : s = s' := h
    rfl
  | cons r rs ih =>
    obtain ⟨rest, hrest, h⟩ := h
    exact ⟨rest ++ t, F.next_append t hrest, ih h⟩

/-- **What was read are the first records**, and those of what is left follow. -/
theorem Reads.records_eq (h : F.Reads k s rs s') :
    F.records k s = rs ++ F.records (k + rs.length) s' := by
  induction rs generalizing k s with
  | nil =>
    obtain rfl : s = s' := h
    rfl
  | cons r rs ih =>
    obtain ⟨rest, hrest, h⟩ := h
    rw [records_of_next F hrest, ih h, List.length_cons, Nat.add_assoc, Nat.add_comm 1]
    rfl

end Format

/-! ## Parts -/

/-- The elements are a front of the first record, a front of the second one, and so on. -/
def Parts (rs : List (List α)) (out : List α) : Prop :=
  ∃ ds : List (List α), List.Forall₂ (· <+: ·) ds rs ∧ out = ds.flatten

variable {rs : List (List α)} {out d r : List α}

theorem Parts.nil : Parts ([] : List (List α)) [] := ⟨[], .nil, rfl⟩

/-- A front of one record more. -/
theorem Parts.concat (h : Parts rs out) (hd : d <+: r) : Parts (rs ++ [r]) (out ++ d) := by
  obtain ⟨ds, hds, rfl⟩ := h
  refine ⟨ds ++ [d], List.rel_append hds (.cons hd .nil), ?_⟩
  rw [List.flatten_append, List.flatten_singleton]

end Records
