import NinaHomekit.Lib.Trace

/-!
# What a computation may end in

A computation that returns a value or fails, with what is known of the value and which failures
there can be.

* `Meets` — every value is in `P`, and every failure in `E`.
* `Meets.bind`, `Meets.foldlM` — the rules that take a computation apart.
* `foldlM_sim` — a loop whose passes are those of another one.
-/

namespace Outcome

universe v

variable {ε : Type*} {α β : Type v} {E : ε → Prop} {P : α → Prop} {Q : β → Prop}
  {x : Except ε α} {f : α → Except ε β}

/-- The value is in `P`, or the failure in `E`. -/
def Meets (E : ε → Prop) (x : Except ε α) (P : α → Prop) : Prop :=
  match x with
  | .ok a => P a
  | .error e => E e

@[simp] theorem meets_ok {a : α} : Meets E (.ok a) P ↔ P a := Iff.rfl

@[simp] theorem meets_pure {a : α} : Meets E (pure a) P ↔ P a := Iff.rfl

@[simp] theorem meets_error {e : ε} : Meets E (.error e : Except ε α) P ↔ E e := Iff.rfl

theorem Meets.imp {P' : α → Prop} (hx : Meets E x P) (h : ∀ a, P a → P' a) : Meets E x P' := by
  cases x with
  | ok a => exact h a hx
  | error e => exact hx

theorem Meets.bind (hx : Meets E x P) (hf : ∀ a, P a → Meets E (f a) Q) : Meets E (x >>= f) Q := by
  cases x with
  | ok a => exact hf a hx
  | error e => exact hx

/-- A loop.  Induction on what it is over. -/
theorem Meets.foldlM {γ : Type*} {g : α → γ → Except ε α} {cs : List γ} {a : α}
    (hg : ∀ a c, P a → Meets E (g a c) P) (ha : P a) : Meets E (cs.foldlM g a) P := by
  induction cs generalizing a with
  | nil => exact ha
  | cons c cs ih =>
    rw [List.foldlM_cons]
    exact (hg a c ha).bind fun a' ha' => ih ha'

/-- A loop is another one, if every pass is a pass of it.  Induction on what it is over. -/
theorem foldlM_sim {γ : Type*} {R : α → β → Prop} {g : α → γ → Except ε α} {f : β → γ → β}
    (hpass : ∀ a b c, R a b → ∃ a', g a c = .ok a' ∧ R a' (f b c)) {a : α} {b : β} (h : R a b)
    (cs : List γ) : ∃ a', cs.foldlM g a = .ok a' ∧ R a' (cs.foldl f b) := by
  induction cs generalizing a b with
  | nil => exact ⟨a, rfl, h⟩
  | cons c cs ih =>
    obtain ⟨a', ha', h'⟩ := hpass a b c h
    obtain ⟨a'', ha'', h''⟩ := ih h'
    refine ⟨a'', ?_, h''⟩
    rw [List.foldlM_cons, ha']
    exact ha''

theorem Meets.of_eq_ok {a : α} (hx : Meets E x P) (h : x = .ok a) : P a := by
  rwa [h] at hx

theorem Meets.of_eq_error {e : ε} (hx : Meets E x P) (h : x = .error e) : E e := by
  rwa [h] at hx

end Outcome
