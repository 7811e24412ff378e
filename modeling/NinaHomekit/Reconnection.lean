import NinaHomekit.Connection

/-!
# Asking for removed modules

A live check that gets no answer removes the modules and asks for them (`CMD_LOAD_MODULE`); so
does every later cycle that gets no answer.

* `LaterCycle` — a live check is in a cycle that it began after a removal, and no link sequence
  has completed since.
* `AsksAgain` — every such cycle that ends queues the request.
* `asksAgain_iff` — **it does exactly if no answer comes between the last clear of
  `module_connected` and its test.**
-/

namespace NinaHomekit

open Trace State

variable {s t u : State} {e : Event} {es : List Event} {k : Nat}

/-! ## The tasks -/

/-- Where a live check stands tells whether it has sent its HI message. -/
def TaskOk (task : LiveTask) : Prop :=
  task.sent = true ↔ task.pc = .delay ∨ task.pc = .request

/-- Every live check has sent its HI message exactly if its place says so. -/
def TasksOk (s : State) : Prop := ∀ task ∈ s.liveTasks, TaskOk task

theorem TasksOk.set (h : TasksOk s) {task : LiveTask} (htask : TaskOk task) :
    ∀ task' ∈ s.liveTasks.set k task, TaskOk task' := by
  intro task' hmem
  rcases List.mem_or_eq_of_mem_set hmem with hold | rfl
  · exact h task' hold
  · exact htask

theorem TasksOk.of_getElem? (h : TasksOk s) {task : LiveTask} (htask : s.liveTasks[k]? = some task) :
    TaskOk task := h task (List.mem_of_getElem? htask)

/-- What a step of a live check does to its own task. -/
theorem TasksOk.liveCheck (hI : TasksOk s) (h : s.liveCheck k = .ok t) : TasksOk t := by
  unfold State.liveCheck at h
  split at h
  · cases h
    exact hI
  · rename_i sent htask
    have hok := hI.of_getElem? htask
    cases sent with
    | true => simp [TaskOk] at hok
    | false =>
      split at h <;> cases h
      · exact hI.set (by simp [TaskOk])
      · exact hI
  · rename_i sent htask
    have hok := hI.of_getElem? htask
    cases sent with
    | true => simp [TaskOk] at hok
    | false =>
      cases h
      exact hI.set (by simp [TaskOk])
  · cases h
    exact hI.set (by simp [TaskOk])
  · rename_i sent htask
    cases sent with
    | false =>
      have hok := hI.of_getElem? htask
      simp [TaskOk] at hok
    | true =>
      rw [if_pos rfl, liveTest, liveRemoveOnce, liveRemove_eq] at h
      split at h
      · split at h <;> cases h <;> exact hI.set (by simp [TaskOk])
      · cases h
        exact hI.set (by simp [TaskOk])
  · cases h
    exact hI.set (by simp [TaskOk])

theorem TasksOk.step (hI : TasksOk s) (h : NinaHomekit.step s e = .ok t) : TasksOk t := by
  rcases step_checks h with ⟨k, rfl, hk⟩ | ⟨name, pop, rfl, rfl⟩ | hother
  · exact hI.liveCheck hk
  · intro task hmem
    cases hmem
  · obtain ⟨new, hnew, htop⟩ := hother.liveTasks
    intro task hmem
    rw [hnew, List.mem_append] at hmem
    rcases hmem with hmem | hmem
    · exact hI task hmem
    · rw [htop task hmem]
      simp [TaskOk]

theorem Booted.tasksOk_run (hboot : Booted s) (h : Trace.run NinaHomekit.step s es = .ok t) :
    TasksOk t := by
  refine inv_reachable (I := TasksOk) (fun t e u hI hu => hI.step hu) ?_ ⟨es, h⟩
  obtain ⟨name, pop, rfl⟩ := hboot
  intro task hmem
  cases hmem

/-! ## Cycles after a removal -/

/-- The `k`th live check is at the top of its loop. -/
def AtTop (s : State) (k : Nat) : Prop := s.liveTasks[k]?.map LiveTask.pc = some .top

/-- A live check removed the modules, no link sequence has completed since, and the `k`th live
check was at the top of its loop since. -/
def LaterCycle (s : State) (past : List Event) (k : Nat) : Prop :=
  ∃ before j mid₁ mid₂ t u, past = before ++ .live j :: (mid₁ ++ mid₂) ∧
    Trace.run step s before = .ok t ∧ t.LiveRemoves j ∧
    (∀ e ∈ mid₁ ++ mid₂, ¬ CompletesLink e) ∧
    Trace.run step s (before ++ .live j :: mid₁) = .ok u ∧ AtTop u k

/-- The step ends a cycle of the `k`th live check: it goes back to the top of its loop. -/
def EndsCycle (s t : State) (k : Nat) : Prop := ¬ AtTop s k ∧ AtTop t k

/-- The request for the modules, `CMD_LOAD_MODULE`. -/
def loadRequest : UartMsg := ⟨1, [cmdLoadModule, 0x00]⟩

/-- After a removal, every later cycle that ends while `module_initialized` is true and before a
link sequence has completed queues a request for the modules; its last step does. -/
def AsksAgain (s : State) (es : List Event) : Prop :=
  ∀ past k after t u, es = past ++ .live k :: after → Trace.run step s past = .ok t →
    LaterCycle s past k → t.systemStatus.moduleInitialized = true → step t (.live k) = .ok u →
    EndsCycle t u k → u.queue = t.queue ++ [loadRequest]

/-- The test of no such cycle finds an answer that came since a live check cleared
`module_connected` last. -/
def Unanswered (s : State) (es : List Event) : Prop :=
  ∀ past k after t, es = past ++ .live k :: after → Trace.run step s past = .ok t →
    LaterCycle s past k → t.systemStatus.moduleInitialized = true → Tests t k →
    ¬ SetSince step (fun _ e => Answers e) ClearsConnected s past

/-- After a removal, `module_connected` says that an answer came since it was cleared. -/
theorem LaterCycle.answered (hcycle : LaterCycle s es k)
    (h : Trace.run step s es = .ok t) :
    t.systemStatus.moduleConnected = true →
      SetSince step (fun _ e => Answers e) ClearsConnected s es := by
  intro hconn
  obtain ⟨before, j, mid₁, mid₂, v, w, rfl, hv, hrem, hno, -⟩ := hcycle
  obtain ⟨v', hv', hrest⟩ := run_append_eq_ok.1 h
  rw [hv] at hv'
  cases hv'
  -- at the removal the flag was off, so what set it came later
  have hset := (governs_connected.flag_iff hrem.2.1 hrest).1 hconn
  refine SetSince.append_left (hset.of_mem fun _ e hmem hconf => ?_) hv
  rcases List.mem_cons.1 hmem with rfl | hmem
  · exact absurd hconf (not_confirms_live j)
  · exact hconf.resolve_right (hno e hmem)

theorem connected_of_answered (hboot : Booted s) (h : Trace.run step s es = .ok t)
    (hset : SetSince step (fun _ e => Answers e) ClearsConnected s es) :
    t.systemStatus.moduleConnected = true :=
  (governs_connected.flag_iff hboot.connected h).2 (hset.of_mem fun _ _ _ => Or.inl)

/-! ## The step that ends a cycle -/

theorem getElem?_setTask {old task : LiveTask} (h : s.liveTasks[k]? = some old) :
    (s.setTask k task).liveTasks[k]? = some task := by
  show (s.liveTasks.set k task)[k]? = some task
  rw [List.getElem?_set_self (List.getElem?_eq_some_iff.1 h).1]

theorem not_atTop_setTask {old task : LiveTask} (h : s.liveTasks[k]? = some old)
    (hpc : task.pc ≠ .top) : ¬ AtTop (s.setTask k task) k := by
  unfold AtTop
  rw [getElem?_setTask h]
  simpa using hpc

/-- The test of a check that finds an answer: the cycle ends, and nothing is queued. -/
theorem liveCheck_answered (htest : Tests s k) (hconn : s.systemStatus.moduleConnected = true) :
    ∃ t, step s (.live k) = .ok t ∧ EndsCycle s t k ∧ t.queue = s.queue := by
  refine ⟨{ s with modulesRemoved := false }.setTask k ⟨.top, false⟩, ?_, ⟨?_, ?_⟩, rfl⟩
  · show s.liveCheck k = _
    unfold State.liveCheck
    rw [htest]
    simp only [if_true, liveTest, hconn]
    rfl
  · unfold AtTop
    rw [htest]
    simp
  · unfold AtTop
    rw [getElem?_setTask (s := { s with modulesRemoved := false }) htest]
    rfl

/-- A cycle ends with a request, or with a test that finds an answer. -/
theorem EndsCycle.cases (hI : TasksOk s) (h : step s (.live k) = .ok t) (hend : EndsCycle s t k) :
    t.queue = s.queue ++ [loadRequest] ∨ Tests s k ∧ s.systemStatus.moduleConnected = true := by
  obtain ⟨hbefore, hafter⟩ := hend
  change s.liveCheck k = .ok t at h
  unfold State.liveCheck at h
  split at h
  · cases h
    exact absurd hafter hbefore
  · rename_i sent htask
    refine absurd ?_ hbefore
    unfold AtTop
    rw [htask]
    rfl
  · rename_i sent htask
    cases h
    exact absurd hafter (not_atTop_setTask (s := s.push 3 [cmdHi]) htask (by simp))
  · rename_i sent htask
    cases h
    exact absurd hafter (not_atTop_setTask (s := { s with systemStatus := _ }) htask (by simp))
  · rename_i sent htask
    cases sent with
    | false =>
      have hok := hI.of_getElem? htask
      simp [TaskOk] at hok
    | true =>
      by_cases hconn : s.systemStatus.moduleConnected = true
      · exact Or.inr ⟨htask, hconn⟩
      · refine absurd hafter ?_
        rw [if_pos rfl, liveTest, if_pos (by simp [hconn]), liveRemoveOnce] at h
        split at h
        · rw [liveRemove_eq] at h
          cases h
          exact not_atTop_setTask (s := { s with systemStatus := _ }) htask (by simp)
        · cases h
          exact not_atTop_setTask htask (by simp)
  · cases h
    exact Or.inl rfl

/-! ## The main result -/

/-- **Removed modules are asked for again** in every later cycle exactly if no answer comes
between the last clear of `module_connected` and the test of such a cycle. -/
theorem asksAgain_iff (hboot : Booted s) (es : List Event) :
    AsksAgain s es ↔ Unanswered s es := by
  constructor
  · intro hasks past k after t hes ht hcycle hinit htest hset
    have hconn := connected_of_answered hboot ht hset
    obtain ⟨u, hu, hend, hqueue⟩ := liveCheck_answered htest hconn
    have hasked := hasks past k after t u hes ht hcycle hinit hu hend
    rw [hqueue] at hasked
    simpa using congrArg List.length hasked
  · intro hun past k after t u hes ht hcycle hinit hu hend
    rcases hend.cases (hboot.tasksOk_run ht) hu with hqueue | ⟨htest, hconn⟩
    · exact hqueue
    · exact absurd (hcycle.answered ht hconn) (hun past k after t hes ht hcycle hinit htest)

/-- A live check whose only module does not answer: it removes the module and asks for it. -/
def moduleLost : List Event :=
  [.uart 0 .samd21Init, .uart 0 (LinkFields.msg ⟨1, 1, [0x61], 0, true⟩), .live 0, .live 0,
    .live 0, .live 0, .live 0]

/-- Without an answer the next cycle asks as well. -/
theorem asksAgain_unanswered :
    okAnd (Trace.run step State.bootDefault (moduleLost ++ List.replicate 5 (.live 0)))
      (fun t => t.queue.count loadRequest = 3 ∧ t.systemStatus.moduleInitialized) = true ∧
      AsksAgain State.bootDefault (moduleLost ++ List.replicate 5 (.live 0)) := by
  refine ⟨by decide +kernel, (asksAgain_iff booted_bootDefault _).2 ?_⟩
  intro past k after t hes ht hcycle hinit htest hset
  obtain ⟨before, e, rest, u, rfl, -, ⟨now, rfl⟩, -⟩ := hset
  have hmem : Event.uart now .hi ∈ moduleLost ++ List.replicate 5 (.live 0) := by
    rw [hes]
    simp
  simp [moduleLost, LinkFields.msg] at hmem

/-- The answer of the module comes late, in the next cycle: the cycle ends without a request,
though the module is not linked any more. -/
theorem not_asksAgain_lateAnswer :
    (∃ t, Trace.run step State.bootDefault
        (moduleLost ++ [.live 0, .live 0, .live 0, .uart 0 .hi, .live 0]) = .ok t ∧
        t.systemStatus.moduleInitialized = true ∧ t.moduleNum = 0) ∧
      ¬ AsksAgain State.bootDefault
        (moduleLost ++ [.live 0, .live 0, .live 0, .uart 0 .hi, .live 0]) := by
  -- one run: up to the removal, to the next top of the loop, to the late answer, and to the end
  obtain ⟨v, hv, hcheck⟩ := exists_of_okAnd (x := Trace.run step State.bootDefault
      (moduleLost.take 5))
    (p := fun v => v.LiveRemoves 0 ∧ okAnd (Trace.run step v [.live 0, .live 0]) (fun w =>
      w.liveTasks[0]?.map LiveTask.pc = some .top ∧
        okAnd (Trace.run step w [.live 0, .live 0, .live 0, .uart 0 .hi]) (fun u =>
          u.systemStatus.moduleInitialized = true ∧ u.liveTasks[0]? = some ⟨.delay, true⟩ ∧
            u.systemStatus.moduleConnected = true ∧ okAnd (step u (.live 0)) (fun t =>
              t.systemStatus.moduleInitialized = true ∧ t.moduleNum = 0) = true) = true) = true)
    (by decide +kernel)
  obtain ⟨hremoves, hcheck⟩ := of_decide_eq_true hcheck
  obtain ⟨w, hvw, hcheck⟩ := exists_of_okAnd hcheck
  obtain ⟨htop, hcheck⟩ := of_decide_eq_true hcheck
  obtain ⟨u, hwu, hcheck⟩ := exists_of_okAnd hcheck
  obtain ⟨hinit', htest, hconn, hcheck⟩ := of_decide_eq_true hcheck
  obtain ⟨t, hut, hcheck⟩ := exists_of_okAnd hcheck
  obtain ⟨hinit, hnum⟩ := of_decide_eq_true hcheck
  have hw : Trace.run step State.bootDefault moduleLost = .ok w := by
    rw [← List.take_append_drop 5 moduleLost, run_append_eq_ok]
    exact ⟨v, hv, hvw⟩
  have hu : Trace.run step State.bootDefault
      (moduleLost ++ ([.live 0, .live 0, .live 0, .uart 0 .hi] : List Event)) = .ok u := by
    rw [run_append_eq_ok]
    exact ⟨w, hw, hwu⟩
  have ht : Trace.run step State.bootDefault
      (moduleLost ++ ([.live 0, .live 0, .live 0, .uart 0 .hi] : List Event) ++
        ([.live 0] : List Event)) = .ok t := by
    rw [run_append_eq_ok]
    exact ⟨u, hu, run_singleton.trans hut⟩
  refine ⟨⟨t, ht, hinit, hnum⟩, fun hasks => ?_⟩
  obtain ⟨t', ht', hend, hqueue⟩ := liveCheck_answered htest hconn
  have hcycle : LaterCycle State.bootDefault
      (moduleLost ++ ([.live 0, .live 0, .live 0, .uart 0 .hi] : List Event)) 0 := by
    refine ⟨moduleLost.take 5, 0, [.live 0], [.live 0, .live 0, .live 0, .uart 0 .hi], v, w, rfl,
      hv, hremoves, ?_, hw, htop⟩
    intro e hmem
    simp only [List.cons_append, List.nil_append, List.mem_cons, List.not_mem_nil,
      or_false] at hmem
    rcases hmem with rfl | rfl | rfl | rfl | rfl <;> rintro ⟨now, data, m, h, -⟩ <;> cases h
  have hasked := hasks _ 0 [] u t' rfl hu hcycle hinit' ht' hend
  rw [hqueue] at hasked
  simpa using congrArg List.length hasked

end NinaHomekit
