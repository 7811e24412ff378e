import NinaHomekit.Hap.Iids
import NinaHomekit.Lib.Trace

/-!
# The state of the bridge

What `CoreBridgeClass`, `HomekitClass` and the static variables of the tasks hold between
two handler runs, and checked access to the module table.

* `ModuleT`, `SystemStatus`, `SmfStatus`, `LiveTask` — the records of the source.
* `State` — all of it, with the accessory database and the outgoing queue.  The queue is
  the list its pointers hold (`UartMsgQueue.Holds`).
* `getModule`, `modifyModule` — the table, where an index past its end is a fault.
* `linked` — the slots `0 … num_modules - 1`; `forModules` is a loop over them, and
  `forModules_eq` its value as long as they exist.
-/

namespace NinaHomekit

open Trace

/-! ## Records -/

/-- `module_t`. -/
structure ModuleT where
  name : Option CStr
  type : UInt8
  priority : UInt8
  current : UInt16
  state : Bool
  hs : Option ServPtr
  hc : Option CharPtr
  deriving DecidableEq, Repr

/-- A slot of the table before anything is written to it. -/
def ModuleT.zero : ModuleT := ⟨none, 0, 0, 0, false, none, none⟩

/-- What `addModule` writes to a slot: everything but the pointers to HomeKit objects. -/
structure ModuleData where
  name : Option CStr
  type : UInt8
  priority : UInt8
  current : UInt16
  state : Bool
  deriving DecidableEq, Repr

def ModuleT.data (m : ModuleT) : ModuleData := ⟨m.name, m.type, m.priority, m.current, m.state⟩

/-- `system_status_t`. -/
structure SystemStatus where
  numModules : UInt8
  sumCurrent : UInt16
  moduleInitialized : Bool
  moduleConnected : Bool
  reset2factorying : Bool
  deriving DecidableEq, Repr

/-- `smart_modularized_fuse_status_t`. -/
structure SmfStatus where
  mcub : UInt16
  overloadTriggeredAddr : UInt8
  enablePop : UInt8
  deriving DecidableEq, Repr

/-- Where a `moduleLiveCheck` task stands. -/
inductive LivePc where
  /-- At the top of the loop, before the test of `module_initialized`. -/
  | top
  /-- Before the push of the HI message. -/
  | sendHi
  /-- Before `module_connected` is cleared. -/
  | clear
  /-- In the delay, before the test of `module_connected`. -/
  | delay
  /-- Before the push of the reconnection request. -/
  | request
  deriving DecidableEq, Repr

/-- A `moduleLiveCheck` task, with its local `sent`. -/
structure LiveTask where
  pc : LivePc
  sent : Bool
  deriving DecidableEq, Repr

/-- A device name, as `setDeviceName` truncates it. -/
abbrev DeviceName := {name : CStr // name.length ≤ deviceNameLength}

/-- The state between two handler runs. -/
structure State where
  modules : Vector ModuleT maxModuleNum
  systemStatus : SystemStatus
  smfStatus : SmfStatus
  deviceName : DeviceName
  /-- The static `emerg_triggered` of `overloadProtectionCheck`. -/
  emergTriggered : Bool
  /-- The static `t` of `overloadProtectionCheck`, once it is initialised. -/
  lastRequest : Option UInt32
  /-- `HomekitClass::_accessory`. -/
  accessory : Option AccPtr
  /-- The static `first` of `beginAccessory`. -/
  first : Bool
  db : HapDb
  queue : List UartMsg
  /-- The static `modules_removed` of `moduleLiveCheck`. -/
  modulesRemoved : Bool
  liveTasks : List LiveTask
  /-- How many `clearWarehouseData` tasks have not finished. -/
  clearTasks : Nat
  deriving DecidableEq, Repr

/-- The state after `setup`, with the configuration `init` restores. -/
def State.boot (deviceName : DeviceName) (enablePop : UInt8) : State where
  modules := Vector.replicate maxModuleNum ModuleT.zero
  systemStatus := ⟨0, 0, false, false, false⟩
  smfStatus := ⟨0, 0, enablePop⟩
  deviceName := deviceName
  emergTriggered := false
  lastRequest := none
  accessory := none
  first := true
  db := HapDb.init
  queue := []
  modulesRemoved := false
  liveTasks := []
  clearTasks := 0

namespace State

/-! ## The outgoing queue -/

/-- `queue.push`. -/
def push (s : State) (port : Nat) (payload : List UInt8) : State :=
  { s with queue := s.queue ++ [⟨port, payload⟩] }

/-! ## The module table -/

/-- `getModule`, with the read of the slot. -/
def getModule (s : State) (index : UInt8) : Except Fault ModuleT :=
  if h : index.toNat < maxModuleNum then .ok s.modules[index.toNat]
  else .error (.outOfBounds index.toNat)

/-- A write to `modules[index]`. -/
def modifyModule (s : State) (index : UInt8) (f : ModuleT → ModuleT) : Except Fault State :=
  if h : index.toNat < maxModuleNum then
    .ok { s with modules := s.modules.set index.toNat (f s.modules[index.toNat]) }
  else .error (.outOfBounds index.toNat)

/-- `getModuleNum`. -/
def moduleNum (s : State) : Nat := s.systemStatus.numModules.toNat

/-- The slots of the table. -/
def slots (s : State) : List ModuleT := s.modules.toList

/-- The slots `0 … num_modules - 1`. -/
def linked (s : State) : List ModuleT := s.slots.take s.moduleNum

/-- `for (i = 0; i < getModuleNum(); i++)` with `getModule(i)` in its body. -/
def forModules {α : Type} (s : State) (body : α → Nat → ModuleT → α) (a : α) : Except Fault α :=
  (List.range s.moduleNum).foldlM (fun a i => do
    let module ← s.getModule (UInt8.ofNat i)
    return body a i module) a

variable {s t : State} {index : UInt8}

@[simp] theorem length_slots (s : State) : s.slots.length = maxModuleNum := by simp [slots]

theorem length_linked (h : s.moduleNum ≤ maxModuleNum) : s.linked.length = s.moduleNum := by
  simp [linked, h]

theorem moduleNum_lt (s : State) : s.moduleNum < 256 := s.systemStatus.numModules.toNat_lt

theorem toNat_ofNat_index {i : Nat} (h : i < 256) : (UInt8.ofNat i).toNat = i := by
  simp [Nat.mod_eq_of_lt h]

theorem getModule_eq_ok {m : ModuleT} :
    s.getModule index = .ok m ↔ s.slots[index.toNat]? = some m := by
  unfold getModule slots
  split
  · rename_i h
    rw [List.getElem?_eq_getElem (by simpa using h)]
    simp
  · rename_i h
    rw [List.getElem?_eq_none (by simpa using Nat.le_of_not_lt h)]
    simp

theorem modifyModule_eq_ok {f : ModuleT → ModuleT} :
    s.modifyModule index f = .ok t ↔ index.toNat < maxModuleNum ∧
      ∃ modules : Vector ModuleT maxModuleNum,
        modules.toList = s.slots.modify index.toNat f ∧ t = { s with modules := modules } := by
  unfold modifyModule
  split
  · rename_i h
    have hset : (s.modules.set index.toNat (f s.modules[index.toNat])).toList =
        s.slots.modify index.toNat f := by
      rw [Vector.toList_set, slots, List.modify_eq_set_getElem?,
        List.getElem?_eq_getElem (by simpa using h)]
      simp
    constructor
    · intro ht
      cases ht
      exact ⟨h, _, hset, rfl⟩
    · rintro ⟨-, modules, hm, rfl⟩
      rw [← hset] at hm
      rw [Vector.toList_inj.1 hm]
  · rename_i h
    simp [h]

/-- A loop over slots that exist, from the `i`th on. -/
theorem foldlM_getModule {α : Type} (body : α → Nat → ModuleT → α) (i : Nat) (ms : List ModuleT)
    (hms : ms = (s.slots.drop i).take ms.length) (a : α) :
    (List.range' i ms.length).foldlM (fun a i => do
        let module ← s.getModule (UInt8.ofNat i)
        return body a i module) a =
      .ok ((ms.zipIdx i).foldl (fun a mi => body a mi.2 mi.1) a) := by
  induction ms generalizing i a with
  | nil => rfl
  | cons m ms ih =>
    have hlen : i < maxModuleNum := by
      by_contra hge
      rw [List.drop_eq_nil_of_le (by rw [length_slots]; omega)] at hms
      simp at hms
    have hi : i < s.slots.length := by rwa [length_slots]
    rw [List.drop_eq_getElem_cons hi, List.length_cons, List.take_succ_cons] at hms
    obtain ⟨hm, hrest⟩ := List.cons.inj hms
    have hget : s.getModule (UInt8.ofNat i) = .ok m := by
      rw [getModule_eq_ok, toNat_ofNat_index (by have : maxModuleNum = 20 := rfl; omega), hm,
        List.getElem?_eq_getElem hi]
    rw [List.length_cons, List.range'_succ, List.foldlM_cons, hget]
    exact ih (i + 1) hrest (body a i m)

/-- **A loop over the linked modules**, as long as their slots exist. -/
theorem forModules_eq {α : Type} (h : s.moduleNum ≤ maxModuleNum)
    (body : α → Nat → ModuleT → α) (a : α) :
    s.forModules body a = .ok (s.linked.zipIdx.foldl (fun a mi => body a mi.2 mi.1) a) := by
  have hloop := foldlM_getModule (s := s) body 0 s.linked
    (by rw [length_linked h]; simp [linked]) a
  rwa [length_linked h, ← List.range_eq_range'] at hloop

/-- A loop over more than `m` numbers comes to `m`. -/
theorem exists_range_eq {m n : Nat} (h : m < n) :
    ∃ rest, List.range n = List.range m ++ m :: rest := by
  refine ⟨List.range' (m + 1) (n - m - 1), ?_⟩
  have happ := @List.range'_append_1 0 m (n - m)
  rw [Nat.zero_add, Nat.add_sub_cancel' h.le] at happ
  rw [List.range_eq_range', List.range_eq_range', ← happ,
    show n - m = (n - m - 1) + 1 by omega, List.range'_succ]
  rfl

/-- A loop over the linked modules leaves the table when there are too many of them. -/
theorem forModules_of_lt {α : Type} (h : maxModuleNum < s.moduleNum)
    (body : α → Nat → ModuleT → α) (a : α) :
    s.forModules body a = .error (.outOfBounds maxModuleNum) := by
  obtain ⟨rest, hrange⟩ := exists_range_eq h
  have hfirst := foldlM_getModule (s := s) body 0 s.slots (by simp) a
  rw [length_slots, ← List.range_eq_range'] at hfirst
  rw [forModules, hrange, List.foldlM_append, hfirst]
  rfl

theorem moduleNum_le_of_forModules {α : Type} {body : α → Nat → ModuleT → α} {a b : α}
    (h : s.forModules body a = .ok b) : s.moduleNum ≤ maxModuleNum := by
  by_contra hgt
  rw [forModules_of_lt (Nat.lt_of_not_le hgt)] at h
  cases h

/-! ## The sum of the currents -/

/-- The true sum of the currents of the linked modules. -/
def linkedSum (s : State) : Nat := (s.linked.map fun m => m.current.toNat).sum

theorem forModules_sum (h : s.moduleNum ≤ maxModuleNum) :
    s.forModules (fun sum _ m => sum + m.current.toNat) 0 = .ok s.linkedSum := by
  rw [forModules_eq h, linkedSum]
  congr 1
  have hfold : ∀ (ms : List ModuleT) (i n : Nat),
      (ms.zipIdx i).foldl (fun sum mi => sum + mi.1.current.toNat) n =
        n + (ms.map fun m => m.current.toNat).sum := by
    intro ms
    induction ms with
    | nil => simp
    | cons m ms ih =>
      intro i n
      simp [ih, Nat.add_assoc]
  simpa using hfold s.linked 0 0

end State

end NinaHomekit
