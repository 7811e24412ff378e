import NinaHomekit.Lib.Trace

/-!
# Reading a buffer

A parser that trusts nothing but the bytes it was given: a buffer is the list of them, and
reading past its end, or copying more than an array holds, is a fault.

* `BufferFault` — the two faults.
* `read`, `copy`, `readCString` — one element, a block, a string up to its NUL; `predSize` is a
  size that wraps.
* `IsOk` — a computation without a fault; `isOk_bind`, `isOk_foldlM` take it apart.
* `read_eq_ok`, `copy_eq_ok`, `readCString_eq_ok` — **when each succeeds, and with what.**
-/

namespace Buffer

open Trace

/-! ## Computations without a fault -/

section IsOk

universe v

variable {φ : Type*} {α β : Type v}

/-- The computation succeeds. -/
def IsOk (x : Except φ α) : Prop := ∃ a, x = .ok a

@[simp] theorem isOk_ok (a : α) : IsOk (.ok a : Except φ α) := ⟨a, rfl⟩

@[simp] theorem isOk_pure (a : α) : IsOk (pure a : Except φ α) := ⟨a, rfl⟩

@[simp] theorem not_isOk_error (fault : φ) : ¬ IsOk (.error fault : Except φ α) := by
  rintro ⟨a, h⟩
  cases h

theorem isOk_bind {x : Except φ α} {f : α → Except φ β} :
    IsOk (x >>= f) ↔ ∃ a, x = .ok a ∧ IsOk (f a) := by
  cases x with
  | ok a => simp
  | error fault => simp

/-- A computation that succeeds whatever it is given. -/
theorem isOk_bind_of_forall {x : Except φ α} {f : α → Except φ β} (hf : ∀ a, IsOk (f a)) :
    IsOk (x >>= f) ↔ IsOk x := by
  rw [isOk_bind]
  constructor
  · rintro ⟨a, ha, -⟩
    exact ⟨a, ha⟩
  · rintro ⟨a, ha⟩
    exact ⟨a, ha, hf a⟩

/-- A loop succeeds exactly if every pass does, when what the passes have gathered has no say in
it. -/
theorem isOk_foldlM {γ : Type*} {f : β → γ → Except φ β} {P : γ → Prop}
    (hf : ∀ b c, IsOk (f b c) ↔ P c) (cs : List γ) (b : β) :
    IsOk (cs.foldlM f b) ↔ ∀ c ∈ cs, P c := by
  induction cs generalizing b with
  | nil => exact iff_of_true ⟨b, rfl⟩ (by simp)
  | cons c cs ih =>
    rw [List.foldlM_cons, isOk_bind, List.forall_mem_cons, ← hf b c]
    constructor
    · rintro ⟨b', hb', hrest⟩
      exact ⟨⟨b', hb'⟩, (ih b').1 hrest⟩
    · rintro ⟨⟨b', hb'⟩, hrest⟩
      exact ⟨b', hb', (ih b').2 hrest⟩

end IsOk

/-! ## Reading -/

/-- What can go wrong with a buffer. -/
inductive BufferFault where
  /-- A read past the end, at this index. -/
  | readPast (index : Nat)
  /-- A block of this size copied to an array that is too short for it. -/
  | writePast (size : Nat)
  deriving DecidableEq, Repr

variable {α : Type*} {buf : List α} {i n room : Nat} {a : α}

/-- The element at `i`. -/
def read (buf : List α) (i : Nat) : Except BufferFault α :=
  match buf[i]? with
  | some a => .ok a
  | none => .error (.readPast i)

theorem read_eq_ok : read buf i = .ok a ↔ buf[i]? = some a := by
  unfold read
  cases buf[i]? with
  | some b => simp
  | none => simp

theorem isOk_read : IsOk (read buf i) ↔ i < buf.length := by
  unfold IsOk
  simp only [read_eq_ok]
  constructor
  · rintro ⟨a, ha⟩
    exact (List.getElem?_eq_some_iff.1 ha).1
  · intro h
    exact ⟨_, List.getElem?_eq_getElem h⟩

/-- The elements from `i` on, `n` of them. -/
def readBlock (buf : List α) : Nat → Nat → Except BufferFault (List α)
  | _, 0 => .ok []
  | i, n + 1 =>
    match buf[i]? with
    | none => .error (.readPast i)
    | some a =>
      match readBlock buf (i + 1) n with
      | .ok as => .ok (a :: as)
      | .error fault => .error fault

/-- A block is read exactly if it ends before the buffer does. -/
theorem readBlock_eq_ok {as : List α} : readBlock buf i n = .ok as ↔
    (n = 0 ∨ i + n ≤ buf.length) ∧ as = (buf.drop i).take n := by
  induction n generalizing i as with
  | zero => simp [readBlock, eq_comm]
  | succ n ih =>
    unfold readBlock
    by_cases hi : i < buf.length
    · rw [List.getElem?_eq_getElem hi, List.drop_eq_getElem_cons hi, List.take_succ_cons]
      simp only
      cases hrest : readBlock buf (i + 1) n with
      | ok bs =>
        obtain ⟨hle, rfl⟩ := ih.1 hrest
        simp only [Except.ok.injEq]
        constructor
        · rintro rfl
          exact ⟨by omega, rfl⟩
        · rintro ⟨-, rfl⟩
          rfl
      | error fault =>
        refine iff_of_false (by simp) ?_
        rintro ⟨hle, -⟩
        have hok : readBlock buf (i + 1) n = .ok ((buf.drop (i + 1)).take n) :=
          ih.2 ⟨by omega, rfl⟩
        rw [hrest] at hok
        cases hok
    · rw [List.getElem?_eq_none (by omega)]
      refine iff_of_false (by simp) ?_
      rintro ⟨hle, -⟩
      omega

/-- `n - 1` as the 32-bit size a block copy takes. -/
def predSize (n : Nat) : Nat := if n = 0 then 4294967295 else n - 1

/-- `memcpy` of `n` elements from `i` on, to an array of `room` elements. -/
def copy (buf : List α) (i n room : Nat) : Except BufferFault (List α) :=
  if room < n then .error (.writePast n) else readBlock buf i n

/-- **A block is copied** exactly if there is room for it and it ends before the buffer does. -/
theorem copy_eq_ok {as : List α} : copy buf i n room = .ok as ↔
    n ≤ room ∧ (n = 0 ∨ i + n ≤ buf.length) ∧ as = (buf.drop i).take n := by
  unfold copy
  by_cases hroom : room < n
  · rw [if_pos hroom]
    exact iff_of_false (by simp) (by omega)
  · rw [if_neg hroom, readBlock_eq_ok]
    exact (and_iff_right (by omega)).symm

theorem length_of_copy {as : List α} (h : copy buf i n room = .ok as) : as.length = n := by
  obtain ⟨-, hle, rfl⟩ := copy_eq_ok.1 h
  rw [List.length_take, List.length_drop]
  omega

/-- The string at the start of a buffer, up to its NUL. -/
def readCString : Nat → List UInt8 → Except BufferFault (List UInt8)
  | i, [] => .error (.readPast i)
  | i, b :: buf =>
    if b = 0 then .ok []
    else
      match readCString (i + 1) buf with
      | .ok bs => .ok (b :: bs)
      | .error fault => .error fault

/-- **A string is read** exactly if its NUL is in the buffer. -/
theorem readCString_eq_ok {buf bs : List UInt8} {i : Nat} : readCString i buf = .ok bs ↔
    0 ∈ buf ∧ bs = buf.takeWhile (· ≠ 0) := by
  induction buf generalizing i bs with
  | nil => simp [readCString]
  | cons b buf ih =>
    unfold readCString
    by_cases hb : b = 0
    · subst hb
      simp [eq_comm]
    · rw [if_neg hb, List.takeWhile_cons_of_pos (by simpa using hb)]
      have hmem : 0 ∈ b :: buf ↔ 0 ∈ buf := by
        simp [Ne.symm hb]
      rw [hmem]
      cases hrest : readCString (i + 1) buf with
      | ok cs =>
        obtain ⟨hnul, rfl⟩ := ih.1 hrest
        simp [hnul, eq_comm]
      | error fault =>
        refine iff_of_false (by simp) ?_
        rintro ⟨hnul, -⟩
        have hok := (ih (i := i + 1)).2 ⟨hnul, rfl⟩
        rw [hrest] at hok
        cases hok

end Buffer
