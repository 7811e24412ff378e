import Mathlib

/-!
# C strings in memory

A `char` pointer that is read as a C string: the bytes from it on are a stream, of which a
string function reads as many as it likes.  Nothing bounds it but a NUL.

* `StartsWith` — the memory starts with these bytes; `startsWith_append` is where a field ends
  in the middle of them.
* `strcmp` — the comparison with a string literal.
* `strcmp_eq_zero` — **it is 0 exactly if the memory starts with the literal and a NUL.**
-/

namespace CString

variable {α : Type*} {m x : Stream' α} {a b : α} {l cs : List α}

/-- The memory starts with these elements. -/
def StartsWith (m : Stream' α) (l : List α) : Prop := ∃ rest, m = l ++ₛ rest

@[simp] theorem startsWith_nil : StartsWith m [] := ⟨m, rfl⟩

theorem startsWith_cons : StartsWith m (a :: l) ↔ m.head = a ∧ StartsWith m.tail l := by
  constructor
  · rintro ⟨rest, rfl⟩
    exact ⟨rfl, rest, rfl⟩
  · rintro ⟨rfl, rest, h⟩
    refine ⟨rest, ?_⟩
    rw [Stream'.cons_append_stream, ← h, Stream'.eta]

theorem startsWith_singleton : StartsWith m [a] ↔ m.head = a := by
  rw [startsWith_cons, and_iff_left startsWith_nil]

/-- A field, and what is behind it: either the elements end within the field, or the field ends
within them. -/
theorem startsWith_append : StartsWith (cs ++ₛ x) l ↔
    l <+: cs ∨ ∃ z, z ≠ [] ∧ cs ++ z = l ∧ StartsWith x z := by
  induction cs generalizing l with
  | nil =>
    rw [Stream'.nil_append_stream, List.prefix_nil]
    constructor
    · intro h
      by_cases hl : l = []
      · exact Or.inl hl
      · exact Or.inr ⟨l, hl, rfl, h⟩
    · rintro (rfl | ⟨z, -, rfl, h⟩)
      · exact startsWith_nil
      · exact h
  | cons c cs ih =>
    cases l with
    | nil => simp
    | cons a l =>
      rw [Stream'.cons_append_stream, startsWith_cons, Stream'.head_cons, Stream'.tail_cons, ih,
        List.cons_prefix_cons]
      constructor
      · rintro ⟨rfl, hpre | ⟨z, hz, rfl, h⟩⟩
        · exact Or.inl ⟨rfl, hpre⟩
        · exact Or.inr ⟨z, hz, rfl, h⟩
      · rintro (⟨rfl, hpre⟩ | ⟨z, hz, heq, h⟩)
        · exact ⟨rfl, Or.inl hpre⟩
        · obtain ⟨rfl, hl⟩ := List.cons.inj heq
          exact ⟨rfl, Or.inr ⟨z, hz, hl, h⟩⟩

/-- `strcmp`, of the memory a pointer points to with a literal, whose NUL is left out. -/
def strcmp (m : Stream' UInt8) : List UInt8 → Int
  | [] => m.head.toNat
  | c :: cs => if m.head = c then strcmp m.tail cs else m.head.toNat - c.toNat

/-- **`strcmp` is 0** exactly if the memory starts with the literal and a NUL. -/
theorem strcmp_eq_zero {m : Stream' UInt8} {literal : List UInt8} :
    strcmp m literal = 0 ↔ StartsWith m (literal ++ [0]) := by
  induction literal generalizing m with
  | nil =>
    rw [strcmp, List.nil_append, startsWith_singleton, Int.natCast_eq_zero]
    exact UInt8.toNat_inj (b := 0)
  | cons c cs ih =>
    rw [strcmp, List.cons_append, startsWith_cons, ← ih]
    by_cases h : m.head = c
    · rw [if_pos h, and_iff_right h]
    · rw [if_neg h]
      refine iff_of_false (fun h0 => h ?_) fun hand => h hand.1
      exact UInt8.toNat_inj.1 (by omega)

end CString
