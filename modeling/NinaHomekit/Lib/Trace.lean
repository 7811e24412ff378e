import Mathlib

/-!
# Runs of a system that may fault

A system is a step function `σ → ε → Except φ σ`: a state, an event, and either the
next state or a fault that ends the run.  Nothing here knows what the states, the
events or the faults are.

* `run` — the state a list of events leads to; `run_append`, `run_concat` cut a run.
* `EachStep` — a property of every step a run takes, read off the state before the
  step and the event; `EachState` — a property of every state a run passes through.
* `inv_run` — the invariant rule: what holds at the start and survives every step
  that meets a condition holds at the end of a run whose steps all meet it.
* `exists_run_of_inv` — events that keep an invariant and are handled wherever it holds.
* `eachStep_iff_of_steps`, `eachState_iff_of_inv` — a condition on the steps and a property
  of the steps, or of the states, that agree wherever the invariant holds agree on whole
  runs.
-/

namespace Trace

variable {σ ε φ : Type*}

/-! ## Results that may be faults -/

section Results

universe v

variable {φ : Type*} {α β : Type v}

/-- A computation in two parts succeeds exactly when both parts do. -/
theorem bind_eq_ok {x : Except φ α} {f : α → Except φ β} {b : β} :
    (x >>= f) = .ok b ↔ ∃ a, x = .ok a ∧ f a = .ok b := by
  rcases x with fault | a <;> simp [bind, Except.bind]

theorem bind_of_eq_ok {x : Except φ α} {a : α} (h : x = .ok a) (f : α → Except φ β) :
    (x >>= f) = f a := by
  rw [h]
  rfl

@[simp] theorem ok_bind (a : α) (f : α → Except φ β) : (Except.ok a >>= f) = f a := rfl

@[simp] theorem error_bind (fault : φ) (f : α → Except φ β) :
    (Except.error fault >>= f) = .error fault := rfl

/-- The computation succeeds, with a result that passes a test. -/
def okAnd (x : Except φ α) (p : α → Bool) : Bool :=
  match x with
  | .ok a => p a
  | .error _ => false

theorem exists_of_okAnd {x : Except φ α} {p : α → Bool} (h : okAnd x p = true) :
    ∃ a, x = .ok a ∧ p a = true := by
  cases x with
  | ok a => exact ⟨a, rfl, h⟩
  | error f => cases h

end Results

/-! ## Runs -/

/-- The state a list of events leads to, or the first fault on the way. -/
def run (step : σ → ε → Except φ σ) (s : σ) : List ε → Except φ σ
  | [] => .ok s
  | e :: es => step s e >>= fun t => run step t es

variable {step : σ → ε → Except φ σ} {s t u : σ} {e : ε} {es fs : List ε}

@[simp] theorem run_nil : run step s [] = .ok s := rfl

theorem run_cons : run step s (e :: es) = step s e >>= fun t => run step t es := rfl

theorem run_cons_eq_ok :
    run step s (e :: es) = .ok u ↔ ∃ t, step s e = .ok t ∧ run step t es = .ok u :=
  bind_eq_ok

theorem run_append : run step s (es ++ fs) = run step s es >>= fun t => run step t fs := by
  induction es generalizing s with
  | nil => rfl
  | cons e es ih =>
    rw [List.cons_append, run_cons, run_cons]
    cases h : step s e with
    | error f => rfl
    | ok t => simpa using ih

theorem run_append_eq_ok :
    run step s (es ++ fs) = .ok u ↔ ∃ t, run step s es = .ok t ∧ run step t fs = .ok u := by
  rw [run_append, bind_eq_ok]

theorem run_singleton : run step s [e] = step s e := by
  rw [run_cons]
  cases step s e <;> rfl

theorem run_concat_eq_ok :
    run step s (es ++ [e]) = .ok u ↔ ∃ t, run step s es = .ok t ∧ step t e = .ok u := by
  rw [run_append_eq_ok]
  simp only [run_singleton]

/-- A state that some list of events leads to. -/
def Reachable (step : σ → ε → Except φ σ) (s t : σ) : Prop := ∃ es, run step s es = .ok t

/-! ## Properties of the steps and of the states of a run -/

/-- `P` holds of every step the run takes: of the state before it and the event. -/
def EachStep (step : σ → ε → Except φ σ) (P : σ → ε → Prop) (s : σ) (es : List ε) : Prop :=
  ∀ before e after t, es = before ++ e :: after → run step s before = .ok t → P t e

/-- `P` holds of every state the run passes through, the first and the last included. -/
def EachState (step : σ → ε → Except φ σ) (P : σ → Prop) (s : σ) (es : List ε) : Prop :=
  ∀ before after t, es = before ++ after → run step s before = .ok t → P t

variable {P Q C G : σ → ε → Prop} {I : σ → Prop}

@[simp] theorem eachStep_nil : EachStep step P s [] := by
  intro before e after t h
  simp at h

theorem eachStep_cons :
    EachStep step P s (e :: es) ↔ P s e ∧ ∀ t, step s e = .ok t → EachStep step P t es := by
  constructor
  · intro h
    refine ⟨h [] e es s rfl rfl, fun t ht before e' after u hes hu => ?_⟩
    exact h (e :: before) e' after u (by rw [hes]; rfl) (run_cons_eq_ok.2 ⟨t, ht, hu⟩)
  · rintro ⟨h0, hrest⟩ before e' after u hes hu
    cases before with
    | nil =>
      obtain ⟨rfl, rfl⟩ := List.cons.inj hes
      cases hu
      exact h0
    | cons b before =>
      obtain ⟨rfl, rfl⟩ := List.cons.inj hes
      obtain ⟨t, ht, hu⟩ := run_cons_eq_ok.1 hu
      exact hrest t ht before e' after u rfl hu

theorem eachStep_append :
    EachStep step P s (es ++ fs) ↔
      EachStep step P s es ∧ ∀ t, run step s es = .ok t → EachStep step P t fs := by
  induction es generalizing s with
  | nil => simp
  | cons e es ih =>
    simp only [List.cons_append, eachStep_cons, run_cons_eq_ok, ih]
    constructor
    · rintro ⟨h0, h⟩
      exact ⟨⟨h0, fun t ht => (h t ht).1⟩, fun u ⟨t, ht, hu⟩ => (h t ht).2 u hu⟩
    · rintro ⟨⟨h0, h⟩, h'⟩
      exact ⟨h0, fun t ht => ⟨h t ht, fun u hu => h' u ⟨t, ht, hu⟩⟩⟩

/-- A test of every step the run takes. -/
def checkSteps (step : σ → ε → Except φ σ) (p : σ → ε → Bool) (s : σ) : List ε → Bool
  | [] => true
  | e :: es => p s e && match step s e with
    | .ok t => checkSteps step p t es
    | .error _ => true

theorem eachStep_of_checkSteps {p : σ → ε → Bool} (hP : ∀ t e, p t e = true → P t e)
    (h : checkSteps step p s es = true) : EachStep step P s es := by
  induction es generalizing s with
  | nil => exact eachStep_nil
  | cons e es ih =>
    obtain ⟨hhead, htail⟩ := Bool.and_eq_true_iff.1 h
    refine eachStep_cons.2 ⟨hP s e hhead, fun t ht => ih ?_⟩
    rw [ht] at htail
    exact htail

theorem eachStep_and : EachStep step (fun t e => P t e ∧ Q t e) s es ↔
    EachStep step P s es ∧ EachStep step Q s es := by
  constructor
  · intro h
    exact ⟨fun before e after t hes ht => (h before e after t hes ht).1,
      fun before e after t hes ht => (h before e after t hes ht).2⟩
  · rintro ⟨hP, hQ⟩ before e after t hes ht
    exact ⟨hP before e after t hes ht, hQ before e after t hes ht⟩

/-- Every state of a run has `J` when the first one has it and every step leads to a
state that has it. -/
theorem eachState_iff {J : σ → Prop} :
    EachState step J s es ↔
      J s ∧ EachStep step (fun t e => ∀ u, step t e = .ok u → J u) s es := by
  constructor
  · intro h
    refine ⟨h [] es s rfl rfl, fun before e after t hes ht u hu => ?_⟩
    exact h (before ++ [e]) after u (by rw [hes]; simp) (run_concat_eq_ok.2 ⟨t, ht, hu⟩)
  · rintro ⟨h0, h⟩ before after t hes ht
    rcases List.eq_nil_or_concat before with rfl | ⟨init, e, rfl⟩
    · cases ht
      exact h0
    · obtain ⟨v, hv, hvt⟩ := run_concat_eq_ok.1 (by simpa using ht)
      exact h init e after v (by rw [hes]; simp) hv t hvt

theorem EachState.head (h : EachState step I s es) : I s := h [] es s rfl rfl

theorem EachState.last (h : EachState step I s es) (ht : run step s es = .ok t) : I t :=
  h es [] t (by simp) ht

theorem eachState_append (h : run step s es = .ok t) :
    EachState step I s (es ++ fs) ↔ EachState step I s es ∧ EachState step I t fs := by
  constructor
  · intro hall
    refine ⟨fun before after u hes hu => ?_, fun before after u hfs hu => ?_⟩
    · exact hall before (after ++ fs) u (by rw [hes, List.append_assoc]) hu
    · exact hall (es ++ before) after u (by rw [hfs, List.append_assoc])
        (run_append_eq_ok.2 ⟨t, h, hu⟩)
  · rintro ⟨hes, hfs⟩ before after u heq hu
    rcases List.append_eq_append_iff.1 heq with ⟨mid, rfl, hmid⟩ | ⟨mid, hmid, rfl⟩
    · obtain ⟨v, hv, hu⟩ := run_append_eq_ok.1 hu
      rw [h] at hv
      cases hv
      exact hfs mid after u hmid hu
    · exact hes before mid u hmid hu

theorem eachState_singleton (h : step s e = .ok t) : EachState step I s [e] ↔ I s ∧ I t := by
  rw [eachState_iff, eachStep_cons]
  refine and_congr_right fun _ => ?_
  constructor
  · exact fun hall => hall.1 t h
  · intro ht
    refine ⟨fun u hu => ?_, fun _ _ => eachStep_nil⟩
    rw [h] at hu
    cases hu
    exact ht

/-- Events taken in groups. -/
theorem run_flatMap {γ : Type*} (f : γ → List ε) (xs : List γ) :
    run step s (xs.flatMap f) = run (fun s x => run step s (f x)) s xs := by
  induction xs generalizing s with
  | nil => rfl
  | cons x xs ih =>
    rw [List.flatMap_cons, run_append, run_cons]
    congr 1
    funext t
    exact ih

/-! ## The invariant rule -/

/-- **The invariant rule.**  An invariant that every step meeting `C` preserves holds at
the end of a run whose steps all meet `C`. -/
theorem inv_run (hstep : ∀ t e u, I t → C t e → step t e = .ok u → I u)
    (h0 : I s) (hC : EachStep step C s es) (h : run step s es = .ok u) : I u := by
  induction es generalizing s with
  | nil => cases h; exact h0
  | cons e es ih =>
    obtain ⟨t, ht, hu⟩ := run_cons_eq_ok.1 h
    obtain ⟨hCe, hCes⟩ := eachStep_cons.1 hC
    exact ih (hstep s e t h0 hCe ht) (hCes t ht) hu

/-- An invariant of every step holds of everything reachable. -/
theorem inv_reachable (hstep : ∀ t e u, I t → step t e = .ok u → I u) (h0 : I s)
    (h : Reachable step s u) : I u := by
  obtain ⟨es, hes⟩ := h
  exact inv_run (C := fun _ _ => True) (fun t e u hI _ => hstep t e u hI) h0
    (fun _ _ _ _ _ _ => trivial) hes

/-- Events that are handled wherever the invariant holds, and keep it, are handled one after the
other; what every such step has, every step of the run has. -/
theorem exists_run_of_inv {A : ε → Prop}
    (hstep : ∀ t e, I t → A e → P t e ∧ ∃ u, step t e = .ok u ∧ I u) (h0 : I s)
    (hA : ∀ e ∈ es, A e) : (∃ u, run step s es = .ok u ∧ I u) ∧ EachStep step P s es := by
  induction es generalizing s with
  | nil => exact ⟨⟨s, rfl, h0⟩, eachStep_nil⟩
  | cons e es ih =>
    obtain ⟨hAe, hAes⟩ := List.forall_mem_cons.1 hA
    obtain ⟨hP, t, ht, hI⟩ := hstep s e h0 hAe
    obtain ⟨⟨u, hu, hIu⟩, hes⟩ := ih hI hAes
    refine ⟨⟨u, run_cons_eq_ok.2 ⟨t, ht, hu⟩, hIu⟩, eachStep_cons.2 ⟨hP, fun v hv => ?_⟩⟩
    rw [ht] at hv
    cases hv
    exact hes

/-- On a run whose steps all have `D`, and keep the invariant as long as they meet `C`, meeting
`C` at every step and having `G` at every step are the same, if they are the same wherever the
invariant and `D` hold. -/
theorem eachStep_iff_of_steps {D : σ → ε → Prop}
    (hstep : ∀ t e u, I t → D t e → C t e → step t e = .ok u → I u)
    (hCG : ∀ t e, I t → D t e → (C t e ↔ G t e)) (h0 : I s) (hD : EachStep step D s es) :
    EachStep step C s es ↔ EachStep step G s es := by
  induction es generalizing s with
  | nil => simp
  | cons e es ih =>
    obtain ⟨hDe, hDes⟩ := eachStep_cons.1 hD
    rw [eachStep_cons, eachStep_cons, hCG s e h0 hDe]
    refine and_congr_right fun hG => forall_congr' fun t => imp_congr_right fun ht => ?_
    exact ih (hstep s e t h0 hDe ((hCG s e h0 hDe).2 hG) ht) (hDes t ht)

/-- The same on every run. -/
theorem eachStep_iff_of_inv (hstep : ∀ t e u, I t → C t e → step t e = .ok u → I u)
    (hCG : ∀ t e, I t → (C t e ↔ G t e)) (h0 : I s) :
    EachStep step C s es ↔ EachStep step G s es :=
  eachStep_iff_of_steps (D := fun _ _ => True) (fun t e u hI _ => hstep t e u hI)
    (fun t e hI _ => hCG t e hI) h0 fun _ _ _ _ _ _ => trivial

/-- On a run that succeeds: if in a state with the invariant the condition on a step decides
whether the next state has `J`, and then keeps the invariant, then every state of the run has
`J` exactly if every step meets the condition. -/
theorem eachState_iff_of_inv {J : σ → Prop} (hIJ : ∀ t, I t → J t)
    (hstep : ∀ t e u, I t → step t e = .ok u → (J u ↔ C t e) ∧ (C t e → I u))
    (h0 : I s) (h : run step s es = .ok u) :
    EachState step J s es ↔ EachStep step C s es := by
  rw [eachState_iff]
  refine (and_iff_right (hIJ s h0)).trans ?_
  induction es generalizing s with
  | nil => simp
  | cons e es ih =>
    obtain ⟨t, ht, hu⟩ := run_cons_eq_ok.1 h
    obtain ⟨hJC, hCI⟩ := hstep s e t h0 ht
    have honly : ∀ {P : σ → Prop}, (∀ v, step s e = .ok v → P v) ↔ P t := by
      intro P
      constructor
      · exact fun hall => hall t ht
      · intro hP v hv
        rw [ht] at hv
        cases hv
        exact hP
    rw [eachStep_cons, eachStep_cons, honly, honly, honly, hJC]
    exact and_congr_right fun hC => ih (hCI hC) hu

end Trace
