import NinaHomekit.Lib.Trace

/-!
# Flags of a run

A flag that some steps set, some clear and the others leave alone is on exactly if it was
set since it was last cleared.

* `SetSince` — some step of a run set the flag, and no step cleared it since.
* `Governs` — what the steps do to the flag.
* `Governs.flag_iff` — **the flag is on exactly if it was set since it was cleared.**
-/

namespace Trace

variable {σ ε φ : Type*}

/-- Some step of the run has `Sets`, and neither it nor a later one has `Clears`. -/
def SetSince (step : σ → ε → Except φ σ) (Sets Clears : σ → ε → Prop) (s : σ) (es : List ε) :
    Prop :=
  ∃ before e after t, es = before ++ e :: after ∧ run step s before = .ok t ∧ Sets t e ∧
    EachStep step (fun t e => ¬ Clears t e) t (e :: after)

/-- A step that `Clears` turns the flag off, another one that `Sets` turns it on, and the rest
leave it alone. -/
structure Governs (step : σ → ε → Except φ σ) (Sets Clears : σ → ε → Prop) (flag : σ → Bool) :
    Prop where
  clear : ∀ t e u, step t e = .ok u → Clears t e → flag u = false
  set : ∀ t e u, step t e = .ok u → ¬ Clears t e → Sets t e → flag u = true
  keep : ∀ t e u, step t e = .ok u → ¬ Clears t e → ¬ Sets t e → flag u = flag t

variable {step : σ → ε → Except φ σ} {Sets Sets' Clears : σ → ε → Prop} {flag : σ → Bool}
  {s t u : σ} {e : ε} {es fs : List ε}

theorem not_setSince_nil : ¬ SetSince step Sets Clears s [] := by
  rintro ⟨before, e, after, t, h, -⟩
  simp at h

/-- One more step: it may set the flag, and it must not clear it. -/
theorem setSince_concat (h : run step s es = .ok t) :
    SetSince step Sets Clears s (es ++ [e]) ↔
      ¬ Clears t e ∧ (Sets t e ∨ SetSince step Sets Clears s es) := by
  constructor
  · rintro ⟨before, e', after, t', heq, ht', hset, hkeep⟩
    rcases List.eq_nil_or_concat after with rfl | ⟨init, x, rfl⟩
    · obtain ⟨rfl, hlast⟩ := List.append_inj' heq rfl
      cases hlast
      rw [h] at ht'
      cases ht'
      exact ⟨(eachStep_cons.1 hkeep).1, Or.inl hset⟩
    · have heq' : es ++ [e] = (before ++ e' :: init) ++ [x] := by simpa using heq
      obtain ⟨rfl, hlast⟩ := List.append_inj' heq' rfl
      cases hlast
      obtain ⟨v, hv, hrest⟩ := run_append_eq_ok.1 h
      rw [ht'] at hv
      cases hv
      rw [List.concat_eq_append, ← List.cons_append] at hkeep
      obtain ⟨hinit, hlast⟩ := eachStep_append.1 hkeep
      exact ⟨(eachStep_cons.1 (hlast t hrest)).1,
        Or.inr ⟨before, e', init, t', rfl, ht', hset, hinit⟩⟩
  · rintro ⟨hclear, hset | ⟨before, e', after, t', rfl, ht', hset, hkeep⟩⟩
    · exact ⟨es, e, [], t, rfl, h, hset,
        eachStep_cons.2 ⟨hclear, fun _ _ => eachStep_nil⟩⟩
    · refine ⟨before, e', after ++ [e], t', by simp, ht', hset, ?_⟩
      rw [← List.cons_append]
      refine eachStep_append.2 ⟨hkeep, fun v hv => ?_⟩
      have hrun := run_append_eq_ok.2 ⟨t', ht', hv⟩
      rw [h] at hrun
      cases hrun
      exact eachStep_cons.2 ⟨hclear, fun _ _ => eachStep_nil⟩

/-- **The flag is on** exactly if it was set since it was cleared.  Induction from the last
step. -/
theorem Governs.flag_iff (hgov : Governs step Sets Clears flag) (h0 : flag s = false)
    (h : run step s es = .ok u) : flag u = true ↔ SetSince step Sets Clears s es := by
  induction es using List.reverseRecOn generalizing u with
  | nil =>
    cases h
    exact iff_of_false (by simp [h0]) not_setSince_nil
  | append_singleton es e ih =>
    obtain ⟨t, ht, hu⟩ := run_concat_eq_ok.1 h
    rw [setSince_concat ht, ← ih ht]
    by_cases hclear : Clears t e
    · have hoff := hgov.clear t e u hu hclear
      exact iff_of_false (by simp [hoff]) fun hnot => hnot.1 hclear
    · by_cases hset : Sets t e
      · exact iff_of_true (hgov.set t e u hu hclear hset) ⟨hclear, Or.inl hset⟩
      · rw [hgov.keep t e u hu hclear hset]
        simp [hclear, hset]

/-- A run that starts earlier. -/
theorem SetSince.append_left (h : SetSince step Sets Clears t fs) (hes : run step s es = .ok t) :
    SetSince step Sets Clears s (es ++ fs) := by
  obtain ⟨before, e, after, v, rfl, hv, hset, hkeep⟩ := h
  exact ⟨es ++ before, e, after, v, by simp, run_append_eq_ok.2 ⟨t, hes, hv⟩, hset, hkeep⟩

/-- Fewer steps that may have set the flag. -/
theorem SetSince.of_mem (h : SetSince step Sets Clears s es)
    (himp : ∀ t, ∀ e ∈ es, Sets t e → Sets' t e) : SetSince step Sets' Clears s es := by
  obtain ⟨before, e, after, v, rfl, hv, hset, hkeep⟩ := h
  exact ⟨before, e, after, v, rfl, hv, himp v e (by simp) hset, hkeep⟩

end Trace
