import NinaHomekit.Lib.Trace

/-!
# Runs with a note

A note records what a run has done so far.  No step reads it, so that a run with a note is the
run without it.

* `noted` — a step with a note.
* `run_noted`, `eachStep_noted` — the run without it.
-/

namespace Trace

variable {σ ε φ γ : Type} {step : σ → ε → Except φ σ} {note : γ → σ → ε → γ} {s t : σ} {g h : γ}
  {e : ε} {es : List ε}

/-- A step, and the note after it. -/
def noted (step : σ → ε → Except φ σ) (note : γ → σ → ε → γ) (p : σ × γ) (e : ε) :
    Except φ (σ × γ) := do
  let t ← step p.1 e
  return (t, note p.2 p.1 e)

theorem noted_eq_ok :
    noted step note (s, g) e = .ok (t, h) ↔ step s e = .ok t ∧ h = note g s e := by
  unfold noted
  rw [bind_eq_ok]
  constructor
  · rintro ⟨u, hu, hth⟩
    cases hth
    exact ⟨hu, rfl⟩
  · rintro ⟨ht, rfl⟩
    exact ⟨t, ht, rfl⟩

/-- **A run with a note is the run without it.** -/
theorem run_noted :
    run step s es = .ok t ↔ ∃ h, run (noted step note) (s, g) es = .ok (t, h) := by
  induction es generalizing s g with
  | nil =>
    constructor
    · intro hs
      cases hs
      exact ⟨g, rfl⟩
    · rintro ⟨h, hs⟩
      cases hs
      rfl
  | cons e es ih =>
    simp only [run_cons_eq_ok]
    constructor
    · rintro ⟨u, hu, ht⟩
      obtain ⟨h, hh⟩ := ih.1 ht
      exact ⟨h, (u, note g s e), noted_eq_ok.2 ⟨hu, rfl⟩, hh⟩
    · rintro ⟨h, ⟨u, k⟩, hu, hh⟩
      obtain ⟨hstep, rfl⟩ := noted_eq_ok.1 hu
      exact ⟨u, hstep, ih.2 ⟨h, hh⟩⟩

/-- What does not look at the note. -/
theorem eachStep_noted {P : σ → ε → Prop} :
    EachStep (noted step note) (fun p e => P p.1 e) (s, g) es ↔ EachStep step P s es := by
  constructor
  · intro hall before e after t hes ht
    obtain ⟨h, hh⟩ := run_noted.1 ht
    exact hall before e after (t, h) hes hh
  · rintro hall before e after ⟨t, h⟩ hes hh
    exact hall before e after t hes (run_noted.2 ⟨h, hh⟩)

end Trace
