import NinaHomekit.Connection
import NinaHomekit.Lib.Noted

/-!
# The control state

How many modules are linked, whether they are initialised, whether a reset to factory is asked
for, and how many tasks clear the history.  Of all events, link messages, removals, resets,
the end of a task and restarts change these four.

* `Control`, `Control.next` — the four values and what an event makes of them.
* `control_step` — **every step of the bridge is one of the control.**
-/

namespace NinaHomekit

open Trace State

/-- What the bridge keeps of its modules and of a reset. -/
structure Control where
  numModules : UInt8
  initialized : Bool
  reset : Bool
  clearTasks : Nat
  deriving DecidableEq, Repr

def State.control (s : State) : Control :=
  ⟨s.systemStatus.numModules, s.systemStatus.moduleInitialized, s.systemStatus.reset2factorying,
    s.clearTasks⟩

namespace Control

/-- A link message with these values. -/
def link (c : Control) (m : LinkMsg) : Control where
  numModules := (if m.index + 1 = m.total then 0 else c.numModules) + 1
  initialized := if m.index = 0 then true else if m.index + 1 = m.total then false
    else c.initialized
  reset := c.reset
  clearTasks := if m.index = 0 ∧ c.reset then c.clearTasks + 1 else c.clearTasks

/-- What an event in the state `s` makes of the control. -/
def next (c : Control) (s : State) : Event → Control
  | .uart _ (.linkModule (some data)) =>
    match decodeLink data with
    | .ok m => c.link m
    | .error _ => c
  | .live k => if s.LiveRemoves k then { c with numModules := 0 } else c
  | .resetToFactory =>
    { c with reset := true, clearTasks := if c.initialized then c.clearTasks else c.clearTasks + 1 }
  | .clearDone => { c with reset := false, clearTasks := c.clearTasks - 1 }
  | .restart _ _ => ⟨0, false, false, 0⟩
  | _ => c

end Control

variable {s t : State} {e : Event}

namespace State

theorem control_beginAccessory (h : s.beginAccessory = .ok t) : t.control = s.control := by
  obtain ⟨modules, db, -, rfl⟩ := beginAccessory_frame h
  rfl

theorem control_linkLast {total : Int} (h : s.linkLast total = .ok t) :
    t.control = { s.control with
      initialized := true
      clearTasks := if s.control.reset then s.clearTasks + 1 else s.clearTasks } := by
  unfold linkLast at h
  split at h
  · cases h
  · obtain ⟨u, hu, h⟩ := bind_eq_ok.1 h
    have hbegin := control_beginAccessory hu
    cases h
    show { u.control with initialized := true } = _
    rw [hbegin]
    rfl

theorem control_linkDecoded {m : LinkMsg} (h : s.linkDecoded m = .ok t) :
    t.control = s.control.link m := by
  obtain ⟨u, hu, h⟩ := bind_eq_ok.1 h
  obtain ⟨-, nm, -, modules, -, rfl⟩ := addModule_eq_ok.1 hu
  have hstatus := systemStatus_linkStart s m
  have htasks : (s.linkStart m).clearTasks = s.clearTasks := by
    unfold linkStart
    split
    · unfold linkFirst
      rw [createAccessory_removeModules]
      rfl
    · rfl
  by_cases h0 : m.index = 0
  · rw [if_pos h0] at h
    rw [control_linkLast h]
    simp only [State.control, hstatus, htasks, Control.link, h0]
    split <;> simp
  · rw [if_neg h0] at h
    cases h
    simp only [State.control, hstatus, htasks, Control.link, h0]
    split <;> simp

theorem control_setModuleSwitchState {index state : UInt8}
    (h : s.setModuleSwitchState index state = .ok t) : t.control = s.control := by
  obtain ⟨u, hu, h⟩ := bind_eq_ok.1 h
  obtain ⟨-, modules, -, rfl⟩ := modifyModule_eq_ok.1 hu
  obtain ⟨m, -, h⟩ := bind_eq_ok.1 h
  cases h
  rfl

theorem control_liveCheck {k : Nat} (h : s.liveCheck k = .ok t) :
    t.control = s.control.next s (.live k) := by
  rcases liveCheck_cases h with ⟨hrem, u, hu, rfl⟩ | ⟨hno, queue, connected, removed, tasks, rfl⟩
  · rw [liveRemove_eq] at hu
    cases hu
    exact (if_pos hrem).symm
  · exact (if_neg hno).symm

end State

/-- **Every step of the bridge is one of the control.** -/
theorem control_step (h : step s e = .ok t) : t.control = s.control.next s e := by
  cases e with
  | uart now msg =>
    cases msg with
    | linkModule data =>
      cases data with
      | none =>
        cases h
        rfl
      | some data =>
        obtain ⟨m, hm, ht⟩ := linkModule_eq_ok.1 h
        rw [control_linkDecoded ht]
        show _ = match decodeLink data with | .ok m => _ | .error _ => _
        rw [hm]
    | updateData addr type lo hi =>
      change s.updateData now addr type lo hi = .ok t at h
      unfold updateData at h
      split at h
      · exact control_setModuleSwitchState h
      · split at h
        · obtain ⟨trip, htrip⟩ := CurrentUpdate.of_ok h
          unfold State.control
          rw [htrip.systemStatus, htrip.tasks.2.2]
          rfl
        · cases h
          rfl
    | _ =>
      cases h
      rfl
  | live k => exact control_liveCheck h
  | setChar session curTime garbage body =>
    obtain ⟨r, hr, h⟩ := bind_eq_ok.1 h
    cases h
    obtain ⟨db, queue, -, hstate⟩ := handleSetChar_frame hr
    rw [hstate]
    rfl
  | mqttSwitch index on =>
    rw [doModulesAction_eq_ok h]
    rfl
  | mqttPriority index value =>
    change s.modifyModule index (fun m => { m with priority := value }) = .ok t at h
    obtain ⟨-, modules, -, rfl⟩ := modifyModule_eq_ok.1 h
    rfl
  | resetToFactory =>
    unfold step at h
    simp only at h
    split at h
    · rename_i hinit
      cases h
      simp [State.control, Control.next, hinit, reset2Factory, push]
    · rename_i hinit
      cases h
      simp [State.control, Control.next, hinit]
  | restart deviceName enablePop =>
    cases h
    rfl
  | _ =>
    cases h
    rfl

end NinaHomekit
