import NinaHomekit.CommandHandler.Receive

/-!
# The live check

`moduleLiveCheck` of `Perioder.cpp`, one atomic step at a time.  Several tasks may run;
they share `modules_removed`.

* `liveRemove` — the removal of the modules by a check that got no answer.
* `liveCheck` — one step of the `k`th task.
* `liveRemove_eq` — the removal always succeeds and leaves an empty registered accessory.
* `liveCheck_cases` — a step removes the modules, if `LiveRemoves` says so, or leaves them.
-/

namespace NinaHomekit

open Trace

namespace State

/-- The state with the `k`th task where it is after its step. -/
def setTask (s : State) (k : Nat) (task : LiveTask) : State :=
  { s with liveTasks := s.liveTasks.set k task }

/-- What a check does that finds no answer and whose predecessors have not done it. -/
def liveRemove (s : State) : Except Fault State := do
  let s := s.digitalWrite modulesStatePin 0
  -- an empty accessory
  let s := s.removeModules
  let s := s.createAccessory
  let s ← s.beginAccessory
  return { s with modulesRemoved := true }

/-- The removal, unless it has been done. -/
def liveRemoveOnce (s : State) : Except Fault State :=
  if !s.modulesRemoved then s.liveRemove else .ok s

/-- The test of `module_connected`, after the delay. -/
def liveTest (s : State) (k : Nat) : Except Fault State :=
  if !s.systemStatus.moduleConnected then do
    let s ← s.liveRemoveOnce
    return s.setTask k ⟨.request, true⟩
  else .ok ({ s with modulesRemoved := false }.setTask k ⟨.top, false⟩)

/-- One step of the `k`th `moduleLiveCheck` task. -/
def liveCheck (s : State) (k : Nat) : Except Fault State :=
  match s.liveTasks[k]? with
  | none => .ok s
  | some ⟨.top, sent⟩ =>
    if s.systemStatus.moduleInitialized then
      .ok (s.setTask k ⟨if !sent then .sendHi else .delay, sent⟩)
    else .ok s
  | some ⟨.sendHi, sent⟩ => .ok ((s.push 3 [cmdHi]).setTask k ⟨.clear, sent⟩)
  | some ⟨.clear, _⟩ =>
    .ok ({ s with systemStatus := { s.systemStatus with moduleConnected := false } }.setTask k
      ⟨.delay, true⟩)
  | some ⟨.delay, sent⟩ => if sent then s.liveTest k else .ok (s.setTask k ⟨.top, sent⟩)
  | some ⟨.request, _⟩ => .ok (s.requestLoad.setTask k ⟨.top, false⟩)

/-- **The removal always succeeds** and leaves an empty accessory registered. -/
theorem liveRemove_eq (s : State) : s.liveRemove = .ok { s with
    systemStatus := { s.systemStatus with numModules := 0 }
    accessory := some s.db.accs.length
    first := false
    db := { s.removedDb with
      accs := s.removedDb.accs ++ [{ s.freshAcc with aid := 1 }]
      primaryAcc := some s.db.accs.length }
    queue := s.queue ++ [⟨254, [modulesStatePin, 0]⟩]
    modulesRemoved := true } := by
  have hcreate := createAccessory_removeModules (s.digitalWrite modulesStatePin 0)
  have hfound : ((s.digitalWrite modulesStatePin 0).removeModules.createAccessory).db.accs[
      s.db.accs.length]? = some s.freshAcc := by
    rw [hcreate]
    change (s.removedDb.accs ++ [s.freshAcc])[s.db.accs.length]? = _
    rw [← length_removedDb, List.getElem?_concat_length]
  have hbegin := beginAccessory_zero (by rw [hcreate]; rfl) hfound (by rw [hcreate]; rfl)
  have hset : (s.removedDb.accs ++ [s.freshAcc]).set s.db.accs.length
      { s.freshAcc with aid := 1 } = s.removedDb.accs ++ [{ s.freshAcc with aid := 1 }] := by
    rw [← length_removedDb, List.set_append_right _ _ le_rfl]
    simp
  simp only [liveRemove, hbegin, ok_bind]
  rw [hcreate, ← hset]
  rfl

/-- The next step of the `k`th task removes the modules. -/
def LiveRemoves (s : State) (k : Nat) : Prop :=
  s.liveTasks[k]? = some ⟨.delay, true⟩ ∧ s.systemStatus.moduleConnected = false ∧
    s.modulesRemoved = false

instance (s : State) (k : Nat) : Decidable (s.LiveRemoves k) :=
  inferInstanceAs (Decidable (_ ∧ _))

/-- `t` differs from `s` in what the checks are about: the queue, the tasks and their flags. -/
def LeavesBridge (s t : State) : Prop :=
  ∃ queue connected removed tasks, t = { s with
    queue := queue
    systemStatus := { s.systemStatus with moduleConnected := connected }
    modulesRemoved := removed
    liveTasks := tasks }

variable {s t : State} {k : Nat}

/-- The test, when the task has sent its message. -/
theorem liveTest_cases (htask : s.liveTasks[k]? = some ⟨.delay, true⟩)
    (h : s.liveTest k = .ok t) :
    (s.LiveRemoves k ∧ ∃ u, s.liveRemove = .ok u ∧ t = u.setTask k ⟨.request, true⟩) ∨
      (¬ s.LiveRemoves k ∧ LeavesBridge s t) := by
  unfold liveTest at h
  by_cases hconn : s.systemStatus.moduleConnected = true
  · rw [if_neg (by simp [hconn])] at h
    cases h
    refine Or.inr ⟨fun hrem => by simp [hrem.2.1] at hconn, s.queue,
      s.systemStatus.moduleConnected, false, s.liveTasks.set k ⟨.top, false⟩, rfl⟩
  · rw [if_pos (by simp [hconn])] at h
    obtain ⟨u, hu, h⟩ := bind_eq_ok.1 h
    cases h
    unfold liveRemoveOnce at hu
    by_cases hrem : s.modulesRemoved = true
    · rw [if_neg (by simp [hrem])] at hu
      cases hu
      refine Or.inr ⟨fun h => by simp [h.2.2] at hrem, s.queue, s.systemStatus.moduleConnected,
        s.modulesRemoved, s.liveTasks.set k ⟨.request, true⟩, rfl⟩
    · rw [if_pos (by simp [hrem])] at hu
      exact Or.inl ⟨⟨htask, by simpa using hconn, by simpa using hrem⟩, u, hu, rfl⟩

/-- **What a step of a live check does**: it removes the modules, or it leaves the table and
the accessory alone. -/
theorem liveCheck_cases (h : s.liveCheck k = .ok t) :
    (s.LiveRemoves k ∧ ∃ u, s.liveRemove = .ok u ∧ t = u.setTask k ⟨.request, true⟩) ∨
      (¬ s.LiveRemoves k ∧ LeavesBridge s t) := by
  have hother : ∀ {task : LiveTask}, s.liveTasks[k]? = some task →
      ¬ (task.pc = .delay ∧ task.sent = true) → ¬ s.LiveRemoves k := by
    intro task htask hne hrem
    have heq := htask.symm.trans hrem.1
    cases heq
    exact hne ⟨rfl, rfl⟩
  unfold liveCheck at h
  split at h
  · rename_i htask
    cases h
    exact Or.inr ⟨fun hrem => absurd hrem.1 (by simp [htask]), s.queue,
      s.systemStatus.moduleConnected, s.modulesRemoved, s.liveTasks, rfl⟩
  · rename_i htask
    have hno := hother htask (by simp)
    split at h
    · cases h
      exact Or.inr ⟨hno, s.queue, s.systemStatus.moduleConnected, s.modulesRemoved, _, rfl⟩
    · cases h
      exact Or.inr ⟨hno, s.queue, s.systemStatus.moduleConnected, s.modulesRemoved,
        s.liveTasks, rfl⟩
  · rename_i htask
    cases h
    exact Or.inr ⟨hother htask (by simp), _, s.systemStatus.moduleConnected,
      s.modulesRemoved, _, rfl⟩
  · rename_i htask
    cases h
    exact Or.inr ⟨hother htask (by simp), s.queue, false, s.modulesRemoved, _, rfl⟩
  · rename_i sent htask
    cases sent with
    | false =>
      cases h
      exact Or.inr ⟨hother htask (by simp), s.queue, s.systemStatus.moduleConnected,
        s.modulesRemoved, _, rfl⟩
    | true => exact liveTest_cases htask h
  · rename_i htask
    cases h
    exact Or.inr ⟨hother htask (by simp), _, s.systemStatus.moduleConnected,
      s.modulesRemoved, _, rfl⟩

end State

end NinaHomekit
