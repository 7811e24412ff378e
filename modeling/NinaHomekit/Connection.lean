import NinaHomekit.Lib.Flag
import NinaHomekit.System

/-!
# Whether the modules answer

`module_connected` is set by an answer to a HI message and by the last message of a link
sequence; every live check clears it after it pushed its HI message and tests it a second
later.

* `Answers`, `CompletesLink`, `ClearsConnected`, `Tests` — the events that matter.
* `step_checks` — what an event does to the live checks and their flags.
* `governs_connected` — the flag says that one of the former two came after the last clear.
* `noRemoval_iff` — **no live check removes the modules exactly if every test comes after an
  answer, or a complete link, that no live check has cleared.**
-/

namespace NinaHomekit

open Trace State

variable {s t u : State} {e : Event} {es : List Event}

/-! ## The events that matter -/

/-- An answer to a HI message. -/
def Answers (e : Event) : Prop := ∃ now, e = .uart now .hi

/-- The last message of a link sequence. -/
def CompletesLink (e : Event) : Prop :=
  ∃ now data m, e = .uart now (.linkModule (some data)) ∧ decodeLink data = .ok m ∧ m.index = 0

/-- An event after which the modules count as connected. -/
def Confirms (e : Event) : Prop := Answers e ∨ CompletesLink e

/-- A live check is about to clear `module_connected`, or the firmware to restart. -/
def ClearsConnected (s : State) (e : Event) : Prop :=
  (∃ k sent, e = .live k ∧ s.liveTasks[k]? = some ⟨.clear, sent⟩) ∨
    ∃ deviceName enablePop, e = .restart deviceName enablePop

/-- The next step of the `k`th live check tests `module_connected`. -/
def Tests (s : State) (k : Nat) : Prop := s.liveTasks[k]? = some ⟨.delay, true⟩

/-- An event that is neither an answer nor a link message. -/
theorem not_confirms (hhi : ∀ now, e ≠ .uart now .hi)
    (hlink : ∀ now data, e ≠ .uart now (.linkModule (some data))) : ¬ Confirms e := by
  rintro (⟨now, h⟩ | ⟨now, data, m, h, -⟩)
  · exact hhi now h
  · exact hlink now data h

theorem not_confirms_live (k : Nat) : ¬ Confirms (.live k) := by
  apply not_confirms <;> intros <;> simp

/-! ## What leaves the live checks alone -/

/-- The tasks and the flags of the live checks are the same. -/
structure SameChecks (s t : State) : Prop where
  connected : t.systemStatus.moduleConnected = s.systemStatus.moduleConnected
  modulesRemoved : t.modulesRemoved = s.modulesRemoved
  liveTasks : t.liveTasks = s.liveTasks

theorem SameChecks.trans (h : SameChecks s t) (h' : SameChecks t u) : SameChecks s u :=
  ⟨h'.1.trans h.1, h'.2.trans h.2, h'.3.trans h.3⟩

theorem sameChecks_linkStart (s : State) (m : LinkMsg) : SameChecks s (s.linkStart m) := by
  unfold linkStart
  split
  · unfold linkFirst
    rw [createAccessory_removeModules]
    exact ⟨rfl, rfl, rfl⟩
  · exact ⟨rfl, rfl, rfl⟩

/-- A link message sets `module_connected` if it is the last one of a sequence. -/
theorem checks_linkDecoded {m : LinkMsg} (h : s.linkDecoded m = .ok t) :
    t.modulesRemoved = s.modulesRemoved ∧ t.liveTasks = s.liveTasks ∧
      t.systemStatus.moduleConnected =
        if m.index = 0 then true else s.systemStatus.moduleConnected := by
  obtain ⟨u, hu, h⟩ := bind_eq_ok.1 h
  obtain ⟨-, nm, -, modules, -, rfl⟩ := addModule_eq_ok.1 hu
  obtain ⟨hconn, hrem, htasks⟩ := sameChecks_linkStart s m
  by_cases h0 : m.index = 0
  · rw [if_pos h0] at h
    obtain ⟨-, modules', db, queue, clearTasks, -, rfl⟩ := linkLast_frame h
    exact ⟨hrem, htasks, (if_pos h0).symm⟩
  · rw [if_neg h0] at h
    cases h
    exact ⟨hrem, htasks, hconn.trans (if_neg h0).symm⟩

theorem sameChecks_setModuleSwitchState {index state : UInt8}
    (h : s.setModuleSwitchState index state = .ok t) : SameChecks s t := by
  obtain ⟨u, hu, h⟩ := bind_eq_ok.1 h
  obtain ⟨-, modules, -, rfl⟩ := modifyModule_eq_ok.1 hu
  obtain ⟨m, -, h⟩ := bind_eq_ok.1 h
  cases h
  exact ⟨rfl, rfl, rfl⟩

/-! ## What an event does to them -/

/-- What an event that is no step of a live check does to the checks: a new one may start, and
`module_connected` is set if the event says so. -/
structure OtherStep (s : State) (e : Event) (t : State) : Prop where
  modulesRemoved : t.modulesRemoved = s.modulesRemoved
  liveTasks : ∃ new, t.liveTasks = s.liveTasks ++ new ∧ ∀ task ∈ new, task = ⟨.top, false⟩
  set : Confirms e → t.systemStatus.moduleConnected = true
  keep : ¬ Confirms e → t.systemStatus.moduleConnected = s.systemStatus.moduleConnected

theorem SameChecks.otherStep (h : SameChecks s t) (he : ¬ Confirms e) : OtherStep s e t where
  modulesRemoved := h.modulesRemoved
  liveTasks := ⟨[], by rw [h.liveTasks, List.append_nil], by simp⟩
  set hconf := absurd hconf he
  keep _ := h.connected

/-- **What an event does to the live checks.** -/
theorem step_checks (h : step s e = .ok t) :
    (∃ k, e = .live k ∧ s.liveCheck k = .ok t) ∨
      (∃ deviceName enablePop, e = .restart deviceName enablePop ∧
        t = State.boot deviceName enablePop) ∨
      OtherStep s e t := by
  cases e with
  | uart now msg =>
    refine Or.inr (Or.inr ?_)
    cases msg with
    | samd21Init =>
      cases h
      refine ⟨rfl, ⟨[⟨.top, false⟩], rfl, by simp⟩, fun hconf => ?_, fun _ => rfl⟩
      exact absurd hconf (not_confirms (by simp) (by simp))
    | hi =>
      cases h
      exact ⟨rfl, ⟨[], by simp, by simp⟩, fun _ => rfl, fun hno =>
        absurd (Or.inl ⟨now, rfl⟩) hno⟩
    | linkModule data =>
      cases data with
      | none =>
        cases h
        exact SameChecks.otherStep ⟨rfl, rfl, rfl⟩ (not_confirms (by simp) (by simp))
      | some data =>
        obtain ⟨m, hm, ht⟩ := linkModule_eq_ok.1 h
        obtain ⟨hrem, htasks, hconn⟩ := checks_linkDecoded ht
        have hcompl : Confirms (.uart now (.linkModule (some data))) ↔ m.index = 0 := by
          constructor
          · rintro (⟨now, h⟩ | ⟨now, data, m', h, hm', h0⟩)
            · cases h
            · cases h
              rw [hm] at hm'
              cases hm'
              exact h0
          · exact fun h0 => Or.inr ⟨now, data, m, rfl, hm, h0⟩
        refine ⟨hrem, ⟨[], by rw [htasks, List.append_nil], by simp⟩, fun hconf => ?_,
          fun hno => ?_⟩
        · rw [hconn, if_pos (hcompl.1 hconf)]
        · rw [hconn, if_neg fun h0 => hno (hcompl.2 h0)]
    | updateData addr type lo hi =>
      refine SameChecks.otherStep ?_ (not_confirms (by simp) (by simp))
      change s.updateData now addr type lo hi = .ok t at h
      unfold updateData at h
      split at h
      · exact sameChecks_setModuleSwitchState h
      · split at h
        · obtain ⟨trip, htrip⟩ := CurrentUpdate.of_ok h
          exact ⟨by rw [htrip.systemStatus], htrip.tasks.1, htrip.tasks.2.1⟩
        · cases h
          exact ⟨rfl, rfl, rfl⟩
    | _ =>
      cases h
      exact SameChecks.otherStep ⟨rfl, rfl, rfl⟩ (not_confirms (by simp) (by simp))
  | live k => exact Or.inl ⟨k, rfl, h⟩
  | restart deviceName enablePop =>
    cases h
    exact Or.inr (Or.inl ⟨_, _, rfl, rfl⟩)
  | setChar session curTime garbage body =>
    obtain ⟨r, hr, h⟩ := bind_eq_ok.1 h
    cases h
    obtain ⟨db, queue, -, hstate⟩ := handleSetChar_frame hr
    rw [hstate]
    exact Or.inr (Or.inr (SameChecks.otherStep ⟨rfl, rfl, rfl⟩
      (not_confirms (by simp) (by simp))))
  | mqttSwitch index on =>
    rw [doModulesAction_eq_ok h]
    exact Or.inr (Or.inr (SameChecks.otherStep ⟨rfl, rfl, rfl⟩
      (not_confirms (by simp) (by simp))))
  | mqttPriority index value =>
    change s.modifyModule index (fun m => { m with priority := value }) = .ok t at h
    obtain ⟨-, modules, -, rfl⟩ := modifyModule_eq_ok.1 h
    exact Or.inr (Or.inr (SameChecks.otherStep ⟨rfl, rfl, rfl⟩
      (not_confirms (by simp) (by simp))))
  | resetToFactory =>
    refine Or.inr (Or.inr (SameChecks.otherStep ?_ (not_confirms (by simp) (by simp))))
    unfold step at h
    simp only at h
    split at h <;> cases h <;> exact ⟨rfl, rfl, rfl⟩
  | _ =>
    cases h
    exact Or.inr (Or.inr (SameChecks.otherStep ⟨rfl, rfl, rfl⟩
      (not_confirms (by simp) (by simp))))

/-- A step of a live check clears `module_connected` or leaves it alone. -/
theorem connected_liveCheck {k : Nat} (h : s.liveCheck k = .ok t) :
    (ClearsConnected s (.live k) → t.systemStatus.moduleConnected = false) ∧
      (¬ ClearsConnected s (.live k) →
        t.systemStatus.moduleConnected = s.systemStatus.moduleConnected) := by
  have hclears : ClearsConnected s (.live k) ↔ ∃ sent, s.liveTasks[k]? = some ⟨.clear, sent⟩ := by
    constructor
    · rintro (⟨k', sent, hk, htask⟩ | ⟨name, pop, hk⟩) <;> cases hk
      exact ⟨sent, htask⟩
    · rintro ⟨sent, htask⟩
      exact Or.inl ⟨k, sent, rfl, htask⟩
  rw [hclears]
  unfold liveCheck at h
  split at h
  · rename_i htask
    cases h
    exact ⟨by simp [htask], fun _ => rfl⟩
  · rename_i htask
    split at h <;> cases h <;> exact ⟨by simp [htask], fun _ => rfl⟩
  · rename_i htask
    cases h
    exact ⟨by simp [htask], fun _ => rfl⟩
  · rename_i sent htask
    cases h
    exact ⟨fun _ => rfl, fun hno => absurd ⟨sent, htask⟩ hno⟩
  · rename_i sent htask
    refine ⟨by simp [htask], fun _ => ?_⟩
    split at h
    · unfold liveTest liveRemoveOnce at h
      rw [liveRemove_eq] at h
      split at h
      · split at h <;> cases h <;> rfl
      · cases h
        rfl
    · cases h
      rfl
  · rename_i htask
    cases h
    exact ⟨by simp [htask], fun _ => rfl⟩

/-- **`module_connected`** is set by what confirms the modules and cleared by the live checks. -/
theorem governs_connected : Governs step (fun _ e => Confirms e) ClearsConnected
    fun s => s.systemStatus.moduleConnected where
  clear s e t h hclear := by
    rcases hclear with ⟨k, sent, rfl, htask⟩ | ⟨name, pop, rfl⟩
    · exact (connected_liveCheck h).1 (Or.inl ⟨k, sent, rfl, htask⟩)
    · cases h
      rfl
  set s e t h hclear hset := by
    rcases step_checks h with ⟨k, rfl, hk⟩ | ⟨name, pop, rfl, rfl⟩ | hother
    · exact absurd hset (not_confirms_live k)
    · exact absurd (Or.inr ⟨name, pop, rfl⟩) hclear
    · exact hother.set hset
  keep s e t h hclear hset := by
    rcases step_checks h with ⟨k, rfl, hk⟩ | ⟨name, pop, rfl, rfl⟩ | hother
    · exact (connected_liveCheck hk).2 hclear
    · exact absurd (Or.inr ⟨name, pop, rfl⟩) hclear
    · exact hother.keep hset

theorem Booted.connected (h : Booted s) : s.systemStatus.moduleConnected = false := by
  obtain ⟨name, pop, rfl⟩ := h
  rfl

/-! ## Removals -/

/-- The event removes the modules: it is the test of a live check without an answer, and the
first such one. -/
def Removes (s : State) (e : Event) : Prop := ∃ k, e = .live k ∧ s.LiveRemoves k

/-- `modules_removed` is set by a removal only. -/
theorem modulesRemoved_step (h : step s e = .ok t) (hno : ¬ Removes s e)
    (hrem : s.modulesRemoved = false) : t.modulesRemoved = false := by
  rcases step_checks h with ⟨k, rfl, hk⟩ | ⟨name, pop, rfl, rfl⟩ | hother
  · have hkeep : ¬ s.LiveRemoves k := fun hlive => hno ⟨k, rfl, hlive⟩
    unfold liveCheck at hk
    split at hk
    · cases hk
      exact hrem
    · split at hk <;> cases hk <;> exact hrem
    · cases hk
      exact hrem
    · cases hk
      exact hrem
    · rename_i sent htask
      cases sent with
      | false =>
        cases hk
        exact hrem
      | true =>
        have hconn : s.systemStatus.moduleConnected = true := by
          by_contra hoff
          exact hkeep ⟨htask, by simpa using hoff, hrem⟩
        rw [if_pos rfl, liveTest, if_neg (by simp [hconn])] at hk
        cases hk
        rfl
    · cases hk
      exact hrem
  · rfl
  · exact hother.modulesRemoved.trans hrem

/-- No step of the run removes the modules. -/
def NoRemoval (s : State) (es : List Event) : Prop := EachStep step (fun t e => ¬ Removes t e) s es

theorem Booted.modulesRemoved_run (hboot : Booted s) (hno : NoRemoval s es)
    (h : Trace.run step s es = .ok t) : t.modulesRemoved = false := by
  refine inv_run (I := fun s => s.modulesRemoved = false) (fun t e u hI hC hu =>
    modulesRemoved_step hu hC hI) ?_ hno h
  obtain ⟨name, pop, rfl⟩ := hboot
  rfl

/-- Every test of `module_connected` comes after an answer, or the end of a link sequence, that
no live check has cleared since. -/
def AnsweredInTime (s : State) (es : List Event) : Prop :=
  ∀ before k after t, es = before ++ .live k :: after → Trace.run step s before = .ok t →
    Tests t k → SetSince step (fun _ e => Confirms e) ClearsConnected s before

/-- **No live check removes the modules** exactly if every test comes after an answer, or the
end of a link sequence, that no live check has cleared since. -/
theorem noRemoval_iff (hboot : Booted s) (es : List Event) :
    NoRemoval s es ↔ AnsweredInTime s es := by
  constructor
  · intro hno before k after t hes ht htest
    rw [← governs_connected.flag_iff hboot.connected ht]
    have hbefore : NoRemoval s before := by
      intro b e a v hb hv
      exact hno b e (a ++ .live k :: after) v (by rw [hes, hb]; simp) hv
    by_contra hoff
    refine hno before (.live k) after t hes ht ⟨k, rfl, htest, by simpa using hoff, ?_⟩
    exact hboot.modulesRemoved_run hbefore ht
  · rintro hans before e after t hes ht ⟨k, rfl, htest, hoff, -⟩
    have hset := hans before k after t hes ht htest
    rw [← governs_connected.flag_iff hboot.connected ht, hoff] at hset
    cases hset

/-- Every HI message is answered after it was pushed and before the check that pushed it tests
`module_connected`: between the first and the third of three steps of a task of which the first
is the push, the answer is handled. -/
def HiAnswered (s : State) (es : List Event) : Prop :=
  ∀ before k mid₁ mid₂ after t,
    es = before ++ .live k :: (mid₁ ++ .live k :: (mid₂ ++ .live k :: after)) →
    (∀ e ∈ mid₁ ++ mid₂, e ≠ .live k) → Trace.run step s before = .ok t →
    t.liveTasks[k]? = some ⟨.sendHi, false⟩ → ∃ e ∈ mid₁ ++ mid₂, Answers e

/-- A module is linked and a live check asks it; the answer is handled before the check clears
the flag that records it. -/
def answerTooEarly : List Event :=
  [.uart 0 .samd21Init, .uart 0 (LinkFields.msg ⟨1, 1, [0x61], 0, true⟩), .live 0, .live 0,
    .uart 0 .hi, .live 0, .live 0]

/-- The same, with the answer handled after the flag is cleared. -/
def answerInTime : List Event :=
  [.uart 0 .samd21Init, .uart 0 (LinkFields.msg ⟨1, 1, [0x61], 0, true⟩), .live 0, .live 0,
    .live 0, .uart 0 .hi, .live 0]

/-- The steps before the answer do not test the flag. -/
theorem not_tests_of_okAnd {k : Nat}
    (hrun : okAnd (Trace.run step s es) (fun t => t.liveTasks[k]? ≠ some ⟨.delay, true⟩) = true)
    (h : Trace.run step s es = .ok t) : ¬ Tests t k := by
  rw [h] at hrun
  exact of_decide_eq_true (p := t.liveTasks[k]? ≠ _) hrun

/-- An answer that is handled after the flag is cleared keeps the module. -/
theorem noRemoval_answerInTime : NoRemoval State.bootDefault answerInTime := by
  apply (noRemoval_iff booted_bootDefault answerInTime).2
  intro before k after t hes ht htest
  simp only [answerInTime, List.cons_eq_append_iff, List.nil_eq_append_iff, reduceCtorEq,
    List.cons.injEq, Event.live.injEq, false_and, and_false, exists_false, or_false,
    false_or] at hes
  obtain ⟨_, rfl, _, rfl, ⟨rfl, rfl, -⟩ | ⟨_, rfl, ⟨rfl, rfl, -⟩ | ⟨_, rfl, ⟨rfl, rfl, -⟩ |
    ⟨_, rfl, _, rfl, rfl, rfl, -⟩⟩⟩⟩ := hes
  · exact absurd htest (not_tests_of_okAnd (by decide +kernel) ht)
  · exact absurd htest (not_tests_of_okAnd (by decide +kernel) ht)
  · exact absurd htest (not_tests_of_okAnd (by decide +kernel) ht)
  · have hcut : Trace.run step State.bootDefault ([.uart 0 .samd21Init,
        .uart 0 (LinkFields.msg ⟨1, 1, [0x61], 0, true⟩), .live 0, .live 0, .live 0] ++
        [.uart 0 .hi]) = .ok t := ht
    obtain ⟨u, hu, -⟩ := run_concat_eq_ok.1 hcut
    refine (setSince_concat hu).2 ⟨?_, Or.inl (Or.inl ⟨0, rfl⟩)⟩
    rintro (⟨k, sent, h, -⟩ | ⟨name, pop, h⟩) <;> cases h

/-- An answer that is handled before the flag is cleared is lost, and the module with it. -/
theorem removal_answerTooEarly :
    ∃ t, Trace.run step State.bootDefault answerTooEarly = .ok t ∧
      HiAnswered State.bootDefault answerTooEarly ∧
      ¬ NoRemoval State.bootDefault answerTooEarly := by
  obtain ⟨t, ht, -⟩ := exists_of_okAnd (x := Trace.run step State.bootDefault answerTooEarly)
    (p := fun _ => true) (by decide +kernel)
  refine ⟨t, ht, ?_, ?_⟩
  · rintro before k mid₁ mid₂ after u hes hne - -
    simp only [answerTooEarly, List.cons_eq_append_iff, List.nil_eq_append_iff, reduceCtorEq,
      List.cons.injEq, Event.live.injEq, false_and, and_false, exists_false, or_false,
      false_or] at hes
    have hanswer : Answers (.uart 0 .hi) := ⟨0, rfl⟩
    obtain ⟨_, rfl, _, rfl, ⟨rfl, rfl, hrest⟩ | ⟨_, rfl, ⟨rfl, rfl, hrest⟩ | ⟨_, rfl, _, rfl,
      ⟨rfl, rfl, hrest⟩ | ⟨_, rfl, rfl, rfl, hrest⟩⟩⟩⟩ := hes
    · cases mid₁ with
      | nil =>
        cases mid₂ with
        | nil => simp at hrest
        | cons e mid₂ =>
          simp only [List.nil_append, List.cons_append, List.cons.injEq] at hrest
          exact ⟨_, by simp [hrest.2.1], hanswer⟩
      | cons e mid₁ =>
        simp only [List.cons_append, List.cons.injEq] at hrest
        exact absurd hrest.1 (hne e (by simp))
    · cases mid₁ with
      | nil => simp at hrest
      | cons e mid₁ =>
        simp only [List.cons_append, List.cons.injEq] at hrest
        exact ⟨_, by simp [hrest.1], hanswer⟩
    · have := congrArg List.length hrest
      simp at this
      omega
    · simp at hrest
  · intro hno
    obtain ⟨u, hu, hcheck⟩ := exists_of_okAnd (p := fun u => u.LiveRemoves 0)
      (x := Trace.run step State.bootDefault [.uart 0 .samd21Init,
        .uart 0 (LinkFields.msg ⟨1, 1, [0x61], 0, true⟩), .live 0, .live 0, .uart 0 .hi, .live 0])
      (by decide +kernel)
    exact hno _ (.live 0) [] u rfl hu ⟨0, rfl, of_decide_eq_true hcheck⟩

end NinaHomekit
