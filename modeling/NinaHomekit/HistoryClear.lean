import NinaHomekit.Control

/-!
# Clearing the history

A reset to factory sets a flag and, with no modules initialised, starts a task that clears the
history and then the flag.  The last link message starts one too, if the flag is set.  Nothing
keeps a second task from being started while the first one runs.

* `startsClear` — an event starts a task.
* `ClearInOrder` — no task runs when one is started, and it was asked for since the last one.
* `WaitsForClear` — while a task runs, no link completes and no reset comes that starts one.
* `clearInOrder_iff` — **the tasks of a run are in order exactly if it waits for each of them.**
-/

namespace NinaHomekit

open Trace State

variable {s t : State} {e : Event} {es : List Event}

/-! ## When a task is started -/

/-- The event starts a `clearWarehouseData` task. -/
def startsClear (s : State) : Event → Bool
  | .resetToFactory => !s.systemStatus.moduleInitialized
  | .uart _ (.linkModule (some data)) =>
    match decodeLink data with
    | .ok m => m.index = 0 && s.systemStatus.reset2factorying
    | .error _ => false
  | _ => false

theorem startsClear_iff : startsClear s e = true ↔
    (e = .resetToFactory ∧ s.systemStatus.moduleInitialized = false) ∨
      (CompletesLink e ∧ s.systemStatus.reset2factorying = true) := by
  unfold CompletesLink
  cases e with
  | resetToFactory => simp [startsClear]
  | uart now msg =>
    cases msg with
    | linkModule data =>
      cases data with
      | none => simp [startsClear]
      | some data =>
        cases hm : decodeLink data <;> simp [startsClear, hm]
    | _ => simp [startsClear]
  | _ => simp [startsClear]

/-- A task more is running, exactly after an event that starts one. -/
theorem control_startsClear (h : step s e = .ok t) (hstart : startsClear s e = true) :
    t.clearTasks = s.clearTasks + 1 ∧ t.systemStatus.reset2factorying = true := by
  have hnext := control_step h
  have hreset : t.systemStatus.reset2factorying = (s.control.next s e).reset :=
    congrArg Control.reset hnext
  have htasks : t.clearTasks = (s.control.next s e).clearTasks := congrArg Control.clearTasks hnext
  rw [hreset, htasks]
  rcases startsClear_iff.1 hstart with ⟨rfl, hinit⟩ | ⟨⟨now, data, m, rfl, hm, h0⟩, hflag⟩
  · simp [Control.next, State.control, hinit]
  · simp [Control.next, hm, Control.link, State.control, h0, hflag]

/-- The tasks and the flag after any other event: as before, or the flag set by a reset, or one
task less and the flag cleared, or none. -/
theorem control_of_not_startsClear (h : step s e = .ok t) (hstart : startsClear s e = false) :
    (t.clearTasks = s.clearTasks ∧
      (t.systemStatus.reset2factorying = s.systemStatus.reset2factorying ∨ e = .resetToFactory ∧
        t.systemStatus.reset2factorying = true)) ∨
      (t.clearTasks ≤ s.clearTasks - 1 ∧ t.systemStatus.reset2factorying = false) := by
  have hnext := control_step h
  have hreset : t.systemStatus.reset2factorying = (s.control.next s e).reset :=
    congrArg Control.reset hnext
  have htasks : t.clearTasks = (s.control.next s e).clearTasks := congrArg Control.clearTasks hnext
  rw [hreset, htasks]
  cases e with
  | uart now msg =>
    left
    cases msg with
    | linkModule data =>
      cases data with
      | none => simp [Control.next, State.control]
      | some data =>
        cases hm : decodeLink data with
        | error f => simp [Control.next, hm, State.control]
        | ok m =>
          simp only [startsClear, hm] at hstart
          by_cases h0 : m.index = 0
          · have hflag : s.systemStatus.reset2factorying = false := by simpa [h0] using hstart
            simp [Control.next, hm, Control.link, State.control, hflag]
          · simp [Control.next, hm, Control.link, State.control, h0]
    | _ => simp [Control.next, State.control]
  | live k =>
    left
    by_cases hrem : s.LiveRemoves k
    · simp [Control.next, hrem, State.control]
    · simp [Control.next, hrem, State.control]
  | resetToFactory =>
    left
    have hinit : s.systemStatus.moduleInitialized = true := by simpa [startsClear] using hstart
    simp [Control.next, State.control, hinit]
  | clearDone => right; simp [Control.next, State.control]
  | restart deviceName enablePop => right; simp [Control.next]
  | _ => left; simp [Control.next, State.control]

/-! ## What should hold of each task -/

/-- The MQTT command. -/
def asksReset : Event → Bool
  | .resetToFactory => true
  | _ => false

/-- A reset to factory came since the last task was started. -/
def noteRequest (requested : Bool) (s : State) (e : Event) : Bool :=
  if startsClear s e then false else requested || asksReset e

/-- A task is started only when none is running, and a reset to factory came since the last one
was started. -/
def ClearInOrder (p : State × Bool) (e : Event) : Prop :=
  startsClear p.1 e = true → p.1.clearTasks = 0 ∧ (p.2 = true ∨ e = .resetToFactory)

/-- While a task runs, no link completes, and a reset to factory finds initialised modules. -/
def WaitsForClear (s : State) (e : Event) : Prop :=
  s.clearTasks ≠ 0 →
    ¬ CompletesLink e ∧ (e = .resetToFactory → s.systemStatus.moduleInitialized = true)

/-- At most one task runs, with the flag set; without a task the flag is a request. -/
structure ClearInv (p : State × Bool) : Prop where
  one : p.1.clearTasks ≤ 1
  flag : p.1.clearTasks ≠ 0 → p.1.systemStatus.reset2factorying = true
  requested : p.1.clearTasks = 0 → p.1.systemStatus.reset2factorying = true → p.2 = true

theorem Booted.clearInv (h : Booted s) : ClearInv (s, false) := by
  obtain ⟨deviceName, enablePop, rfl⟩ := h
  exact ⟨Nat.zero_le 1, fun h0 => absurd rfl h0, fun _ hflag => by cases hflag⟩

theorem ClearInv.inOrder_iff {p : State × Bool} (hI : ClearInv p) :
    WaitsForClear p.1 e ↔ ClearInOrder p e := by
  constructor
  · intro hwait hstart
    rcases startsClear_iff.1 hstart with ⟨he, hinit⟩ | ⟨hlink, hflag⟩
    · have h0 : p.1.clearTasks = 0 := by
        by_contra hne
        rw [(hwait hne).2 he] at hinit
        cases hinit
      exact ⟨h0, Or.inr he⟩
    · have h0 : p.1.clearTasks = 0 := by
        by_contra hne
        exact (hwait hne).1 hlink
      exact ⟨h0, Or.inl (hI.requested h0 hflag)⟩
  · intro horder hne
    refine ⟨fun hlink => ?_, fun he => ?_⟩
    · exact hne (horder (startsClear_iff.2 (Or.inr ⟨hlink, hI.flag hne⟩))).1
    · by_contra hinit
      exact hne (horder (startsClear_iff.2 (Or.inl ⟨he, by simpa using hinit⟩))).1

/-- **The step lemma.**  An event that waits for the task keeps the invariant. -/
theorem ClearInv.step {p q : State × Bool} (hI : ClearInv p) (hwait : WaitsForClear p.1 e)
    (h : noted NinaHomekit.step noteRequest p e = .ok q) : ClearInv q := by
  obtain ⟨t, g⟩ := q
  obtain ⟨hstep, rfl⟩ := noted_eq_ok.1 h
  have hone := hI.one
  cases hstart : startsClear p.1 e with
  | true =>
    obtain ⟨htasks, hflag⟩ := control_startsClear hstep hstart
    obtain ⟨h0, -⟩ := hI.inOrder_iff.1 hwait hstart
    exact ⟨by rw [htasks, h0], fun _ => hflag, fun hnone => by rw [htasks] at hnone; cases hnone⟩
  | false =>
    have hnote : noteRequest p.2 p.1 e = (p.2 || asksReset e) := if_neg (by rw [hstart]; decide)
    rcases control_of_not_startsClear hstep hstart with
      ⟨htasks, hflag | ⟨rfl, hflag⟩⟩ | ⟨htasks, hflag⟩
    · refine ⟨htasks ▸ hone, fun hne => ?_, fun h0 hset => ?_⟩
      · exact hflag.trans (hI.flag (htasks ▸ hne))
      · change noteRequest p.2 p.1 e = true
        rw [hnote, hI.requested (htasks ▸ h0) (hflag ▸ hset), Bool.true_or]
    · refine ⟨htasks ▸ hone, fun _ => hflag, fun _ _ => ?_⟩
      change noteRequest p.2 p.1 .resetToFactory = true
      rw [hnote, asksReset, Bool.or_true]
    · -- the only task is done, or the firmware has restarted
      have hnone : t.clearTasks = 0 := by omega
      refine ⟨hnone.trans_le (Nat.zero_le 1), fun hne => absurd hnone hne, fun _ hset => ?_⟩
      exact absurd (hflag.symm.trans hset) (by decide)

/-- **One history clear at a time**: the tasks of a run are started in order exactly if every
event waits for the task that runs. -/
theorem clearInOrder_iff (h : Booted s) (es : List Event) :
    EachStep (noted step noteRequest) ClearInOrder (s, false) es ↔
      EachStep step WaitsForClear s es := by
  have hiff : EachStep (noted step noteRequest) (fun p e => WaitsForClear p.1 e) (s, false) es ↔
      EachStep (noted step noteRequest) ClearInOrder (s, false) es :=
    eachStep_iff_of_inv (fun _ _ _ hI hwait hq => ClearInv.step hI hwait hq)
      (fun _ _ hI => hI.inOrder_iff) h.clearInv
  exact hiff.symm.trans eachStep_noted

/-- The link message of an only module. -/
def linkOnly : Event := linkEvent (0, ⟨1, 1, [0x61], 0, true⟩)

/-- A reset to factory, whose task is done when the modules are linked. -/
theorem clearInOrder_done :
    EachStep (noted step noteRequest) ClearInOrder (State.bootDefault, false)
      [.resetToFactory, .clearDone, linkOnly] := by
  refine (clearInOrder_iff booted_bootDefault _).2 ?_
  refine eachStep_of_checkSteps (p := fun t e => t.clearTasks = 0 || e matches .clearDone)
    (fun t e hcheck hne => ?_) (by decide +kernel)
  cases e with
  | clearDone =>
    refine ⟨?_, fun he => by cases he⟩
    rintro ⟨now, data, m, he, -⟩
    cases he
  | _ => simp [hne] at hcheck

/-- The modules are linked while the task runs: it is started again, and nobody asked for it. -/
theorem not_clearInOrder_link :
    ¬ EachStep (noted step noteRequest) ClearInOrder (State.bootDefault, false)
      [.resetToFactory, linkOnly] := by
  intro h
  obtain ⟨s, hs, hcheck⟩ := exists_of_okAnd (x := step State.bootDefault .resetToFactory)
    (p := fun s => s.clearTasks = 1 ∧ startsClear s linkOnly = true)
    (by decide +kernel)
  obtain ⟨hone, hstart⟩ := of_decide_eq_true hcheck
  have hrun : Trace.run (noted step noteRequest) (State.bootDefault, false) [.resetToFactory] =
      .ok (s, false) := run_singleton.trans (noted_eq_ok.2 ⟨hs, rfl⟩)
  obtain ⟨h0, -⟩ := h [.resetToFactory] _ [] (s, false) rfl hrun hstart
  rw [hone] at h0
  cases h0

end NinaHomekit
