import NinaHomekit.Hap.SetChar
import NinaHomekit.Perioder.LiveCheck

/-!
# The firmware as a system

Every handler run and every atomic step of a task as one event on the state of the bridge.

* `Event` — the events: messages from the bus, steps of the live checks, HomeKit writes,
  MQTT commands, the periodic request, a restart.
* `step` — what an event does.
* `Booted` — the states a run can start in.
* `linkDecoded_frame` — **what a link message does** to the table and to the status.
-/

namespace NinaHomekit

open Trace State

/-- What can happen to the bridge. -/
inductive Event where
  /-- `uartReceive`, when `millis()` is `now`. -/
  | uart (now : UInt32) (msg : UartIn)
  /-- One step of the `k`th live check. -/
  | live (k : Nat)
  /-- `uartTransmit` takes the oldest message. -/
  | transmit
  /-- `PUT /characteristics`. -/
  | setChar (session : Session) (curTime : Int) (garbage : Garbage) (body : JsonVal)
  /-- MQTT `DO_ACTION` for one module, `SWITCH_STATE`. -/
  | mqttSwitch (index : UInt8) (on : Bool)
  /-- MQTT `DO_ACTION` for one module, `PRIORITY`. -/
  | mqttPriority (index value : UInt8)
  /-- MQTT `CONFIGURE`, `ENABLE_POP`. -/
  | setEnablePop (state : UInt8)
  /-- MQTT `CONFIGURE`, `DEVICE_NAME`. -/
  | setDeviceName (name : DeviceName)
  /-- MQTT `CONFIGURE`, `RESET_TO_FACTORY`. -/
  | resetToFactory
  /-- A `clearWarehouseData` task ends. -/
  | clearDone
  /-- `onlinePeriodicTask` asks for the currents. -/
  | requestCurrents
  /-- The firmware restarts with this configuration. -/
  | restart (deviceName : DeviceName) (enablePop : UInt8)

/-- What an event does. -/
def step (s : State) : Event → Except Fault State
  | .uart now msg => s.uartReceive now msg
  | .live k => s.liveCheck k
  | .transmit => .ok { s with queue := s.queue.tail }
  | .setChar session curTime garbage body => do
    let result ← s.handleSetChar session curTime garbage body
    return result.state
  | .mqttSwitch index on =>
    s.doModulesAction [index + 1] [if on then doTurnOn else doTurnOff] 1
  | .mqttPriority index value => s.setModulePriority index value
  | .setEnablePop state => .ok { s with smfStatus := { s.smfStatus with enablePop := state } }
  | .setDeviceName name => .ok { s with deviceName := name }
  | .resetToFactory =>
    let s := { s with systemStatus := { s.systemStatus with reset2factorying := true } }
    if s.systemStatus.moduleInitialized then .ok s.reset2Factory
    else .ok { s with clearTasks := s.clearTasks + 1 }
  | .clearDone =>
    .ok { s with
      clearTasks := s.clearTasks - 1
      systemStatus := { s.systemStatus with reset2factorying := false } }
  | .requestCurrents => .ok (s.requestModulesData moduleCurrent)
  | .restart deviceName enablePop => .ok (State.boot deviceName enablePop)

/-- A link message as an event, at a time of the clock. -/
def linkEvent (p : UInt32 × LinkFields) : Event := .uart p.1 p.2.msg

/-- A state the firmware starts in. -/
def Booted (s : State) : Prop := ∃ deviceName enablePop, s = State.boot deviceName enablePop

/-- The state the witnesses start in: the default device name, without POP. -/
def State.bootDefault : State :=
  State.boot ⟨[0x43, 0x6F, 0x72, 0x64, 0x42, 0x6C, 0x6F, 0x63, 0x6B], by decide⟩ 0

theorem booted_bootDefault : Booted State.bootDefault := ⟨_, _, rfl⟩

/-- An address of a module that is linked, in a table that has its slot. -/
def Linked (s : State) (addr : UInt8) : Prop :=
  1 ≤ addr.toNat ∧ addr.toNat ≤ s.moduleNum ∧ s.moduleNum ≤ maxModuleNum

/-- Its slot is one of those of the linked modules. -/
theorem Linked.toNat_sub_one_lt {s : State} {addr : UInt8} (h : Linked s addr) :
    (addr - 1).toNat < s.moduleNum := by
  obtain ⟨h1, hnum, -⟩ := h
  rw [UInt8.toNat_sub_of_le addr 1 (by rw [UInt8.le_iff_toNat_le]; exact h1)]
  change addr.toNat - 1 < _
  omega

/-! ## What the handlers leave alone -/

namespace State

variable {s t : State}

theorem beginModule_frame {i : Nat} (h : s.beginModule i = .ok t) :
    ∃ modules db, modules.toList.map ModuleT.data = s.slots.map ModuleT.data ∧
      t = { s with modules := modules, db := db } := by
  obtain ⟨m, -, h⟩ := bind_eq_ok.1 h
  rw [show hapServSwitchCreate m.state = some ⟨0, .switch, [onChar m.state], false⟩ from rfl] at h
  dsimp only at h
  split at h
  · cases h
  · split at h
    · cases h
    · obtain ⟨u, hu, h⟩ := bind_eq_ok.1 h
      obtain ⟨-, modules, hlist, rfl⟩ := modifyModule_eq_ok.1 hu
      cases h
      refine ⟨_, _, ?_, rfl⟩
      refine List.ext_getElem? fun j => ?_
      rw [hlist, List.getElem?_map, List.getElem?_map, List.getElem?_modify]
      cases s.slots[j]? with
      | none => rfl
      | some m' =>
        simp only [Option.map_eq_map, Option.map_some]
        split <;> rfl

/-- `beginAccessory` writes to the pointers in the table and to the database. -/
theorem beginAccessory_frame (h : s.beginAccessory = .ok t) :
    ∃ modules db, modules.toList.map ModuleT.data = s.slots.map ModuleT.data ∧
      t = { s with modules := modules, db := db, first := false } := by
  obtain ⟨u, hloop, h⟩ := bind_eq_ok.1 h
  have hframe : ∀ {is : List Nat} {v w : State}, is.foldlM beginModule v = .ok w →
      ∃ modules db, modules.toList.map ModuleT.data = v.slots.map ModuleT.data ∧
        w = { v with modules := modules, db := db } := by
    intro is
    induction is with
    | nil =>
      intro v w hv
      cases hv
      exact ⟨v.modules, v.db, rfl, rfl⟩
    | cons i is ih =>
      intro v w hv
      rw [List.foldlM_cons] at hv
      obtain ⟨x, hx, hrest⟩ := bind_eq_ok.1 hv
      obtain ⟨m₁, d₁, h₁, rfl⟩ := beginModule_frame hx
      obtain ⟨m₂, d₂, h₂, rfl⟩ := ih hrest
      exact ⟨m₂, d₂, h₂.trans h₁, rfl⟩
  obtain ⟨modules, db, hdata, rfl⟩ := hframe hloop
  cases h
  exact ⟨_, _, hdata, rfl⟩

theorem linkLast_frame {total : Int} (h : s.linkLast total = .ok t) :
    0 ≤ total ∧ ∃ modules db queue clearTasks,
      modules.toList.map ModuleT.data = s.slots.map ModuleT.data ∧ t = { s with
        modules := modules
        db := db
        first := false
        queue := queue
        clearTasks := clearTasks
        systemStatus :=
          { s.systemStatus with moduleInitialized := true, moduleConnected := true } } := by
  unfold linkLast at h
  by_cases hneg : total < 0
  · rw [if_pos hneg] at h
    cases h
  · rw [if_neg hneg] at h
    obtain ⟨u, hu, h⟩ := bind_eq_ok.1 h
    obtain ⟨modules, db, hdata, rfl⟩ := beginAccessory_frame hu
    cases h
    exact ⟨by omega, modules, db, _, _, hdata, rfl⟩

/-- The data `addModule` writes for a link message. -/
def LinkMsg.data (m : LinkMsg) : ModuleData :=
  ⟨some m.name, 0, m.pri, 0, m.switchState != 0⟩

theorem slots_linkStart (s : State) (m : LinkMsg) : (s.linkStart m).slots = s.slots := by
  unfold linkStart
  split
  · unfold linkFirst
    rw [createAccessory_removeModules]
    rfl
  · rfl

theorem systemStatus_linkStart (s : State) (m : LinkMsg) :
    (s.linkStart m).systemStatus = if m.index + 1 = m.total then
      { s.systemStatus with numModules := 0, moduleInitialized := false } else s.systemStatus := by
  unfold linkStart
  split
  · unfold linkFirst
    rw [createAccessory_removeModules]
    rfl
  · rfl

/-- **What a link message does** to the table and to the status. -/
theorem linkDecoded_frame {m : LinkMsg} (h : s.linkDecoded m = .ok t) :
    (UInt8.ofInt m.index).toNat < maxModuleNum ∧
      t.slots.map ModuleT.data =
        (s.slots.map ModuleT.data).set (UInt8.ofInt m.index).toNat m.data ∧
      t.systemStatus.numModules =
        (if m.index + 1 = m.total then 0 else s.systemStatus.numModules) + 1 ∧
      (m.index = 0 → t.systemStatus.moduleInitialized = true) ∧
      (m.index ≠ 0 → m.index + 1 = m.total → t.systemStatus.moduleInitialized = false) := by
  obtain ⟨u, hu, h⟩ := bind_eq_ok.1 h
  obtain ⟨hidx, nm, hnm, modules, hlist, rfl⟩ := addModule_eq_ok.1 hu
  cases hnm
  rw [slots_linkStart] at hlist
  have hstatus := systemStatus_linkStart s m
  have hdata : modules.toList.map ModuleT.data =
      (s.slots.map ModuleT.data).set (UInt8.ofInt m.index).toNat m.data := by
    refine List.ext_getElem? fun j => ?_
    rw [hlist, List.getElem?_map, List.getElem?_modify, List.getElem?_set, List.getElem?_map]
    by_cases hj : (UInt8.ofInt m.index).toNat = j
    · subst hj
      rw [List.getElem?_eq_getElem (by rwa [length_slots])]
      simp [hidx, ModuleT.data, LinkMsg.data]
    · simp only [if_neg hj, Option.map_eq_map, Option.map_id']
  refine ⟨hidx, ?_⟩
  split at h
  · rename_i h0
    obtain ⟨-, modules', db, queue, clearTasks, hdata', rfl⟩ := linkLast_frame h
    refine ⟨hdata'.trans hdata, ?_, fun _ => rfl, fun hne => absurd h0 hne⟩
    change (s.linkStart m).systemStatus.numModules + 1 = _
    rw [hstatus]
    split <;> rfl
  · rename_i h0
    cases h
    refine ⟨hdata, ?_, fun he => absurd he h0, fun _ hfirst => ?_⟩
    · change (s.linkStart m).systemStatus.numModules + 1 = _
      rw [hstatus]
      split <;> rfl
    · change (s.linkStart m).systemStatus.moduleInitialized = false
      rw [hstatus, if_pos hfirst]

end State

end NinaHomekit
