import NinaHomekit.CoreBridge.CoreBridge
import NinaHomekit.Lib.Double

/-!
# Incoming messages

`uartReceive` of `CommandHandler.cpp`, on messages whose bytes are already told apart.

* `CJsonItem`, `LinkData` — what cJSON finds in a link message.
* `UartIn` — the messages.
* `linkModule`, `updateCurrent`, `uartReceive` — the code.
* `LinkFields.toData` — the data of a well-formed link message.
-/

namespace NinaHomekit

open Trace

/-! ## Messages -/

/-- A `cJSON` item, with the members the handler reads. -/
structure CJsonItem where
  valuestring : Option CStr
  valueint : Int
  valuedouble : Double

/-- What `cJSON_GetObjectItemCaseSensitive` finds under each of the names. -/
structure LinkData where
  total : Option CJsonItem
  addr : Option CJsonItem
  name : Option CJsonItem
  pri : Option CJsonItem
  switchState : Option CJsonItem

/-- The messages `uartReceive` tells apart. -/
inductive UartIn where
  /-- Port 255, 0x00: the SAMD21 has started. -/
  | samd21Init
  /-- Port 255, 0x02: the button was tapped. -/
  | samd21Button
  /-- `CMD_REQ_ADR`. -/
  | reqAdr
  /-- `CMD_LINK_MODULE`, with what `cJSON_Parse` returns. -/
  | linkModule (data : Option LinkData)
  /-- `CMD_HI`. -/
  | hi
  /-- `CMD_UPDATE_DATA`, with the first four bytes of the payload. -/
  | updateData (addr type lo hi : UInt8)
  /-- Any other command. -/
  | other

namespace State

/-! ## `CMD_LINK_MODULE` -/

/-- `->` on what `cJSON_GetObjectItemCaseSensitive` returns. -/
def deref : Option CJsonItem → Except Fault CJsonItem
  | none => .error .nullDeref
  | some item => .ok item

/-- The conversion of a `double` to `int`, which is undefined outside its range. -/
def toInt (x : Double) : Except Fault Int :=
  match x.trunc with
  | some n => if -2147483648 ≤ n ∧ n ≤ 2147483647 then .ok n else .error .badConversion
  | none => .error .badConversion

/-- A reconnection request: `CMD_LOAD_MODULE`. -/
def requestLoad (s : State) : State := s.push 1 [cmdLoadModule, 0x00]

/-- The part of `CMD_LINK_MODULE` for the first module that arrives. -/
def linkFirst (s : State) : State :=
  let s := { s with systemStatus := { s.systemStatus with moduleInitialized := false } }
  s.removeModules.createAccessory

/-- The part of `CMD_LINK_MODULE` for the last module that arrives, up to the messages to
the modules. -/
def linkAnnounce (s : State) (totalModules : Int) : State :=
  let s := { s with
    clearTasks := if s.systemStatus.reset2factorying then s.clearTasks + 1 else s.clearTasks }
  let s := s.push 3 (cmdInitModule :: addrBytes totalModules.toNat)
  s.requestModulesData moduleCurrent

/-- The part of `CMD_LINK_MODULE` for the last module that arrives. -/
def linkLast (s : State) (totalModules : Int) : Except Fault State :=
  -- the initialiser of `new char[totalModules + 1]` needs room for one byte
  if totalModules < 0 then .error .badAlloc
  else do
    let s ← (s.linkAnnounce totalModules).beginAccessory
    let s := s.digitalWrite modulesStatePin 1
    return { s with systemStatus :=
      { s.systemStatus with moduleInitialized := true, moduleConnected := true } }

/-- `CMD_LINK_MODULE`. -/
def linkModule (s : State) : Option LinkData → Except Fault State
  | none => .ok s.requestLoad
  | some data => do
    let totalModules ← toInt (← deref data.total).valuedouble
    let index ← toInt ((← deref data.addr).valuedouble.sub 1)
    let s := s.digitalWrite modulesStatePin 0
    let s := if index + 1 = totalModules then s.linkFirst else s
    let name := (← deref data.name).valuestring
    let pri := (← deref data.pri).valueint
    let switchState := (← deref data.switchState).valueint
    let s ← s.addModule (UInt8.ofInt index) name 0 (UInt8.ofInt pri) (UInt8.ofInt switchState)
    if index = 0 then s.linkLast totalModules else return s

/-! ## `CMD_UPDATE_DATA` -/

/-- The MCUB test: a report this far above the last one names its module the culprit. -/
def checkMcub (s : State) (module : ModuleT) (addr : UInt8) (value : UInt16) : State :=
  if value.toNat ≥ module.current.toNat + s.smfStatus.mcub.toNat then
    { s with smfStatus := { s.smfStatus with overloadTriggeredAddr := addr } }
  else s

/-- `sum_current = sum`. -/
def storeSum (s : State) (sum : Nat) : State :=
  { s with systemStatus := { s.systemStatus with sumCurrent := UInt16.ofNat sum } }

/-- The new MCUB, stored and sent to every module. -/
def updateMcub (s : State) (sum : Nat) : Except Fault State :=
  if s.moduleNum = 0 then .error .divByZero
  else
    let mcub := ((maxCurrent : Int) - sum).tdiv s.moduleNum
    let mcub := if mcub ≥ 0 then mcub else 0
    let s := { s with smfStatus := { s.smfStatus with mcub := UInt16.ofInt mcub } }
    .ok (s.updateModulesData moduleMcub [(0, UInt16.ofInt mcub)])

/-- `MODULE_CURRENT`, when `millis()` is `now`. -/
def updateCurrent (s : State) (now : UInt32) (addr : UInt8) (value : UInt16) :
    Except Fault State := do
  let module ← s.getModule (addr - 1)
  let s := s.checkMcub module addr value
  let s ← s.setModuleCurrent (addr - 1) value
  let sum ← s.forModules (fun sum _ module => sum + module.current.toNat) 0
  let s := s.storeSum sum
  let s ← s.overloadProtectionCheck now
  s.updateMcub sum

/-- `CMD_UPDATE_DATA`. -/
def updateData (s : State) (now : UInt32) (addr type lo hi : UInt8) : Except Fault State :=
  let value := UInt16.ofNat (lo.toNat + 256 * hi.toNat)
  if type = moduleSwitchState then s.setModuleSwitchState (addr - 1) value.toUInt8
  else if type = moduleCurrent then s.updateCurrent now addr value
  else .ok s

/-! ## `uartReceive` -/

/-- `uartReceive`, when `millis()` is `now`. -/
def uartReceive (s : State) (now : UInt32) : UartIn → Except Fault State
  | .samd21Init => .ok { s.requestLoad with liveTasks := s.liveTasks ++ [⟨.top, false⟩] }
  | .samd21Button => .ok s
  | .reqAdr => .ok s.requestLoad
  | .linkModule data => s.linkModule data
  | .hi => .ok { s with systemStatus := { s.systemStatus with moduleConnected := true } }
  | .updateData addr type lo hi => s.updateData now addr type lo hi
  | .other => .ok s

/-! ## What a current report does -/

/-- What `t` is after a current report in `s`: the messages `trip` come from the overload
check, and the MCUB is sent last. -/
structure CurrentUpdate (s t : State) (addr : UInt8) (value : UInt16) (trip : List UartMsg) :
    Prop where
  slots : t.slots = s.slots.modify (addr - 1).toNat fun m => { m with current := value }
  systemStatus :
    t.systemStatus = { s.systemStatus with sumCurrent := UInt16.ofNat t.linkedSum }
  emerg : t.emergTriggered = decide (maxCurrent < t.linkedSum % 65536)
  queue : ∃ mcub, t.queue = s.queue ++ trip ++ [⟨3, cmdUpdateData :: mcub⟩]
  quiet : t.linkedSum % 65536 ≤ maxCurrent → trip = []
  armed : maxCurrent < t.linkedSum % 65536 → s.emergTriggered = false →
    ∃ a, t.IsVictim a ∧ trip = [⟨3, [cmdDoModule, a, doTurnOff]⟩]
  latched : s.emergTriggered = true → ∀ m ∈ trip, m = ⟨3, [cmdReqData, moduleCurrent]⟩
  enablePop : t.smfStatus.enablePop = s.smfStatus.enablePop
  homekit : t.accessory = s.accessory ∧ t.first = s.first ∧ t.db = s.db
  tasks : t.modulesRemoved = s.modulesRemoved ∧ t.liveTasks = s.liveTasks ∧
    t.clearTasks = s.clearTasks

variable {s t : State} {addr : UInt8} {value : UInt16}

theorem checkMcub_eq (s : State) (module : ModuleT) (addr : UInt8) (value : UInt16) :
    ∃ a, s.checkMcub module addr value =
      { s with smfStatus := { s.smfStatus with overloadTriggeredAddr := a } } := by
  unfold checkMcub
  split
  · exact ⟨addr, rfl⟩
  · exact ⟨s.smfStatus.overloadTriggeredAddr, rfl⟩

theorem updateMcub_eq (s : State) (sum : Nat) (h : 1 ≤ s.moduleNum) :
    ∃ t mcub bytes, s.updateMcub sum = .ok t ∧ t = { s with
      smfStatus := { s.smfStatus with mcub := mcub }
      queue := s.queue ++ [⟨3, cmdUpdateData :: bytes⟩] } := by
  unfold updateMcub
  rw [if_neg (by omega)]
  exact ⟨_, _, _, rfl, rfl⟩

/-- **A current report**, when its slot and those of the linked modules exist. -/
theorem updateCurrent_spec (now : UInt32) (haddr : (addr - 1).toNat < maxModuleNum)
    (h1 : 1 ≤ s.moduleNum) (h20 : s.moduleNum ≤ maxModuleNum) :
    ∃ t trip, s.updateCurrent now addr value = .ok t ∧ CurrentUpdate s t addr value trip := by
  obtain ⟨m, hm⟩ : ∃ m, s.getModule (addr - 1) = .ok m := ⟨_, dif_pos haddr⟩
  obtain ⟨a, ha⟩ := checkMcub_eq s m addr value
  obtain ⟨u, hu⟩ : ∃ u, (s.checkMcub m addr value).setModuleCurrent (addr - 1) value = .ok u :=
    ⟨_, dif_pos haddr⟩
  have hrun := hu
  rw [ha] at hu
  obtain ⟨-, modules, hslots, rfl⟩ := modifyModule_eq_ok.1 hu
  set u : State := { s with
    smfStatus := { s.smfStatus with overloadTriggeredAddr := a }, modules := modules }
  have hsum : u.forModules (fun sum _ m => sum + m.current.toNat) 0 = .ok u.linkedSum :=
    forModules_sum h20
  obtain ⟨v, trip, hcheck, ⟨b, last, hv⟩, hquiet, harmed, hlatched⟩ :=
    overloadProtectionCheck_spec (s := u.storeSum u.linkedSum) now h20
  obtain ⟨w, mcub, bytes, hmcub, hw⟩ := updateMcub_eq v u.linkedSum (by rw [hv]; exact h1)
  have hto : (u.storeSum u.linkedSum).systemStatus.sumCurrent.toNat = u.linkedSum % 65536 :=
    UInt16.toNat_ofNat'
  rw [hto] at hquiet harmed hv
  refine ⟨w, trip, ?_, ?_⟩
  · simp only [updateCurrent, hm, ok_bind, hrun, hsum, hcheck, hmcub]
  · rw [hw, hv]
    exact
      { slots := hslots
        systemStatus := rfl
        emerg := rfl
        queue := ⟨_, rfl⟩
        quiet := hquiet
        armed := harmed
        latched := hlatched
        enablePop := rfl
        homekit := ⟨rfl, rfl, rfl⟩
        tasks := ⟨rfl, rfl, rfl⟩ }

/-- A report that is handled finds its slot and those of the linked modules, of which there
is at least one. -/
theorem updateCurrent_bounds {now : UInt32} (h : s.updateCurrent now addr value = .ok t) :
    (addr - 1).toNat < maxModuleNum ∧ 1 ≤ s.moduleNum ∧ s.moduleNum ≤ maxModuleNum := by
  obtain ⟨m, hm, h⟩ := bind_eq_ok.1 h
  obtain ⟨a, ha⟩ := checkMcub_eq s m addr value
  rw [ha] at h
  obtain ⟨u, hu, h⟩ := bind_eq_ok.1 h
  obtain ⟨hidx, modules, -, rfl⟩ := modifyModule_eq_ok.1 hu
  obtain ⟨sum, hsum, h⟩ := bind_eq_ok.1 h
  have hle := moduleNum_le_of_forModules hsum
  change s.moduleNum ≤ maxModuleNum at hle
  obtain ⟨v, hv, h⟩ := bind_eq_ok.1 h
  obtain ⟨v', trip, hv', ⟨b, last, rfl⟩, -⟩ := overloadProtectionCheck_spec now (s := State.storeSum
    { s with smfStatus := { s.smfStatus with overloadTriggeredAddr := a }, modules := modules }
    sum) hle
  rw [hv'] at hv
  cases hv
  refine ⟨hidx, ?_, hle⟩
  by_contra h0
  rw [updateMcub, if_pos (by change s.moduleNum = 0; omega)] at h
  cases h

/-- **A current report that is handled.** -/
theorem CurrentUpdate.of_ok {now : UInt32} (h : s.updateCurrent now addr value = .ok t) :
    ∃ trip, CurrentUpdate s t addr value trip := by
  obtain ⟨haddr, h1, h20⟩ := updateCurrent_bounds h
  obtain ⟨u, trip, hu, hspec⟩ := updateCurrent_spec now haddr h1 h20
  rw [h] at hu
  cases hu
  exact ⟨trip, hspec⟩

/-! ## What a link message does -/

/-- The values a link message is decoded to. -/
structure LinkMsg where
  total : Int
  index : Int
  name : CStr
  pri : UInt8
  switchState : UInt8

/-- The state in which the module is added. -/
def linkStart (s : State) (m : LinkMsg) : State :=
  if m.index + 1 = m.total then (s.digitalWrite modulesStatePin 0).linkFirst
  else s.digitalWrite modulesStatePin 0

/-- What `linkModule` does once the message is decoded. -/
def linkDecoded (s : State) (m : LinkMsg) : Except Fault State := do
  let s ← (s.linkStart m).addModule (UInt8.ofInt m.index) (some m.name) 0 m.pri m.switchState
  if m.index = 0 then s.linkLast m.total else return s

/-- The message `data` is decoded to, if it has everything that is read of it. -/
def decodeLink (data : LinkData) : Except Fault LinkMsg := do
  let total ← toInt (← deref data.total).valuedouble
  let index ← toInt ((← deref data.addr).valuedouble.sub 1)
  let name := (← deref data.name).valuestring
  let pri := (← deref data.pri).valueint
  let switchState := (← deref data.switchState).valueint
  match name with
  | none => .error .nullDeref
  | some name => return ⟨total, index, name, UInt8.ofInt pri, UInt8.ofInt switchState⟩

/-- A link message that is handled was decoded, and then handled. -/
theorem linkModule_eq_ok {data : LinkData} :
    s.linkModule (some data) = .ok t ↔
      ∃ m, decodeLink data = .ok m ∧ s.linkDecoded m = .ok t := by
  rcases data with ⟨total, addr, name, pri, switchState⟩
  simp only [linkModule, decodeLink, linkDecoded, linkStart, bind_eq_ok]
  constructor
  · rintro ⟨i1, h1, total', h2, i2, h3, index, h4, i3, h5, i4, h6, i5, h7, u, h8, h9⟩
    obtain ⟨hidx, nm, hnm, hrest⟩ := addModule_eq_ok.1 h8
    refine ⟨⟨total', index, nm, UInt8.ofInt i4.valueint, UInt8.ofInt i5.valueint⟩,
      ⟨i1, h1, total', h2, i2, h3, index, h4, i3, h5, i4, h6, i5, h7, by rw [hnm]; rfl⟩, u, ?_, h9⟩
    rw [← hnm]
    simpa using h8
  · rintro ⟨m, ⟨i1, h1, total', h2, i2, h3, index, h4, i3, h5, i4, h6, i5, h7, hm⟩, u, h8, h9⟩
    cases hname : i3.valuestring with
    | none => rw [hname] at hm; cases hm
    | some nm =>
      rw [hname] at hm
      cases hm
      refine ⟨i1, h1, total', h2, i2, h3, index, h4, i3, h5, i4, h6, i5, h7, u, ?_, h9⟩
      rw [hname]
      simpa using h8

end State

/-! ## Well-formed link messages -/

/-- The fields of a link message. -/
structure LinkFields where
  total : Nat
  addr : Nat
  name : CStr
  pri : UInt8
  switchState : Bool
  deriving DecidableEq

namespace LinkFields

/-- What cJSON finds in a message with these fields. -/
def toData (m : LinkFields) : LinkData where
  total := some ⟨none, m.total, .ofInt m.total⟩
  addr := some ⟨none, m.addr, .ofInt m.addr⟩
  name := some ⟨some m.name, 0, .ofInt 0⟩
  pri := some ⟨none, m.pri.toNat, .ofInt m.pri.toNat⟩
  switchState := some ⟨none, m.switchState.toNat, .ofInt m.switchState.toNat⟩

/-- The message, as `uartReceive` takes it. -/
def msg (m : LinkFields) : UartIn := .linkModule (some m.toData)

/-- The address is one of `1, …, total`, and the table has room for `total` modules. -/
structure WellFormed (m : LinkFields) : Prop where
  addr_pos : 1 ≤ m.addr
  addr_le : m.addr ≤ m.total
  total_le : m.total ≤ maxModuleNum

/-- The values the message is decoded to. -/
def decoded (m : LinkFields) : State.LinkMsg :=
  ⟨m.total, (m.addr : Int) - 1, m.name, m.pri, if m.switchState then 1 else 0⟩

theorem toInt_of_trunc {x : Double} {n : Int} (hx : x.trunc = some n)
    (h : -2147483648 ≤ n ∧ n ≤ 2147483647) : State.toInt x = .ok n := by
  simp only [State.toInt, hx, h, and_self, if_true]

theorem decodeLink_toData {m : LinkFields} (h : m.WellFormed) :
    State.decodeLink m.toData = .ok m.decoded := by
  obtain ⟨h1, h2, h3⟩ := h
  have hmax : maxModuleNum = 20 := rfl
  have htotal := toInt_of_trunc (Double.trunc_ofInt (n := m.total) (by omega)) (by omega)
  have haddr := toInt_of_trunc (Double.trunc_sub_ofInt (m := m.addr) (n := 1) (by omega) (by omega))
    (by omega)
  have hpri : UInt8.ofInt (m.pri.toNat : Int) = m.pri := by
    have hlt : (m.pri.toNat : Int) % 2 ^ 8 = m.pri.toNat := by
      have := m.pri.toNat_lt
      omega
    rw [UInt8.ofInt, hlt, Int.toNat_natCast, UInt8.ofNat_toNat]
  have hstate : UInt8.ofInt (m.switchState.toNat : Int) = if m.switchState then 1 else 0 := by
    cases m.switchState <;> rfl
  simp only [State.decodeLink, toData, State.deref, ok_bind, htotal, haddr, hpri, hstate]
  rfl

end LinkFields

variable {s t : State} {m : LinkFields}

/-- A well-formed message is decoded to the index of its slot. -/
theorem LinkFields.WellFormed.toNat_index (h : m.WellFormed) :
    (UInt8.ofInt m.decoded.index).toNat = m.addr - 1 := by
  obtain ⟨h1, h2, h3⟩ := h
  have hmax : maxModuleNum = 20 := rfl
  show (UInt8.ofInt ((m.addr : Int) - 1)).toNat = m.addr - 1
  rw [show ((m.addr : Int) - 1) = ((m.addr - 1 : Nat) : Int) by omega, UInt8.ofInt]
  simp
  omega

/-- **A well-formed link message** is handled with its own fields. -/
theorem LinkFields.WellFormed.uartReceive_eq_ok (now : UInt32) (h : m.WellFormed) :
    s.uartReceive now m.msg = .ok t ↔ s.linkDecoded m.decoded = .ok t := by
  refine State.linkModule_eq_ok.trans ⟨?_, fun ht => ⟨_, decodeLink_toData h, ht⟩⟩
  rintro ⟨d, hd, ht⟩
  rw [decodeLink_toData h] at hd
  cases hd
  exact ht

end NinaHomekit
