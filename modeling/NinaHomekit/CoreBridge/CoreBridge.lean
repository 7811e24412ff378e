import NinaHomekit.CoreBridge.Homekit
import NinaHomekit.Lib.LastMax

/-!
# The bridge itself

`CoreBridge.cpp`: the module table, the messages to the modules and the overload check.

* `addModule`, `removeModules`, `setModuleSwitchState`, `setModuleCurrent`,
  `setModulePriority` — the table.
* `digitalWrite`, `reset2Factory`, `requestModulesData`, `updateModulesData`,
  `doModulesAction` — the messages.
* `overloadProtectionCheck` — the check, with `popScan` for its loop.
* `addModule_eq_ok`, `overloadProtectionCheck_spec`, … — what each of them changes.
-/

namespace NinaHomekit

open Trace

namespace State

/-! ## Messages to the modules -/

/-- `digitalWrite`. -/
def digitalWrite (s : State) (pin state : UInt8) : State := s.push 254 [pin, state]

/-- `1, …, n` as bytes, the addresses of `n` modules. -/
def addrBytes (n : Nat) : List UInt8 := (List.range' 1 n).map UInt8.ofNat

/-- `reset2Factory`. -/
def reset2Factory (s : State) : State := s.push 3 (cmdResetModule :: addrBytes s.moduleNum)

/-- `requestModulesData`. -/
def requestModulesData (s : State) (type : UInt8) : State := s.push 3 [cmdReqData, type]

/-- `updateModulesData`, with as many values as addresses. -/
def updateModulesData (s : State) (type : UInt8) (values : List (UInt8 × UInt16)) : State :=
  s.push 3 (cmdUpdateData :: type :: values.flatMap fun (addr, value) =>
    [addr, UInt8.ofNat (value.toNat &&& 0xff), UInt8.ofNat (value.toNat >>> 8)])

/-- `doModulesAction`, on the arrays it is given and a length that may be shorter. -/
def doModulesAction (s : State) (addrs actions : List UInt8) (length : UInt8) :
    Except Fault State :=
  if length.toNat ≤ addrs.length ∧ length.toNat ≤ actions.length then
    .ok (s.push 3 (cmdDoModule ::
      ((addrs.zip actions).take length.toNat).flatMap fun (addr, action) => [addr, action]))
  else .error (.outOfBounds (min addrs.length actions.length))

/-! ## The table -/

/-- `addModule`. -/
def addModule (s : State) (index : UInt8) (name : Option CStr) (type priority state : UInt8) :
    Except Fault State :=
  match name with
  -- `strdup` of a null pointer
  | none => .error .nullDeref
  | some name => do
    let s ← s.modifyModule index fun module =>
      { module with
        name := some name, type := type, current := 0, priority := priority
        state := state != 0 }
    return { s with
      systemStatus := { s.systemStatus with numModules := s.systemStatus.numModules + 1 } }

/-- `removeModules`. -/
def removeModules (s : State) : State :=
  let s := if s.db.countAccessories > 0 then s.deleteAccessory else s
  { s with systemStatus := { s.systemStatus with numModules := 0 } }

/-- `setModuleSwitchState`. -/
def setModuleSwitchState (s : State) (index state : UInt8) : Except Fault State := do
  let s ← s.modifyModule index fun module => { module with state := state != 0 }
  let module ← s.getModule index
  return s.setServiceValue module.hc state

/-- `setModuleCurrent`. -/
def setModuleCurrent (s : State) (index : UInt8) (value : UInt16) : Except Fault State :=
  s.modifyModule index fun module => { module with current := value }

/-- `setModulePrioirty`. -/
def setModulePriority (s : State) (index value : UInt8) : Except Fault State :=
  s.modifyModule index fun module => { module with priority := value }

/-! ## The overload check -/

/-- The loop of the POP logic: `overload_triggered_addr` and `highest_priority`. -/
def popScan (s : State) : Except Fault (UInt8 × Nat) :=
  s.forModules (fun (addr, highestPriority) i module =>
    if module.state ∧ highestPriority ≤ module.priority.toNat then
      (UInt8.ofNat (i + 1), module.priority.toNat)
    else (addr, highestPriority)) (s.smfStatus.overloadTriggeredAddr, 0)

/-- `overloadProtectionCheck`, when `millis()` is `now`. -/
def overloadProtectionCheck (s : State) (now : UInt32) : Except Fault State :=
  if s.systemStatus.sumCurrent.toNat > maxCurrent then
    if !s.emergTriggered then do
      let addr ← if s.smfStatus.enablePop ≠ 0 then Prod.fst <$> s.popScan
        else .ok s.smfStatus.overloadTriggeredAddr
      let s := { s with smfStatus := { s.smfStatus with overloadTriggeredAddr := addr } }
      let s ← s.doModulesAction [addr] [doTurnOff] 1
      return { s with emergTriggered := true }
    else
      match s.lastRequest with
      -- `t` is initialised here, so it is not a second ago
      | none => .ok { s with lastRequest := some now }
      | some t =>
        if (now - t).toNat > 1000 then
          .ok { s.requestModulesData moduleCurrent with lastRequest := some now }
        else .ok s
  else .ok { s with emergTriggered := false }

/-! ## What they change -/

variable {s t : State}

theorem addModule_eq_ok {index : UInt8} {name : Option CStr} {type priority state : UInt8} :
    s.addModule index name type priority state = .ok t ↔
      index.toNat < maxModuleNum ∧ ∃ nm, name = some nm ∧
        ∃ modules : Vector ModuleT maxModuleNum,
          modules.toList = s.slots.modify index.toNat (fun module =>
            { module with
              name := some nm, type := type, current := 0, priority := priority
              state := state != 0 }) ∧
          t = { s with
            modules := modules
            systemStatus :=
              { s.systemStatus with numModules := s.systemStatus.numModules + 1 } } := by
  cases name with
  | none => simp [addModule]
  | some nm =>
    simp only [addModule, bind_eq_ok, modifyModule_eq_ok]
    constructor
    · rintro ⟨u, ⟨hi, modules, hm, rfl⟩, ht⟩
      cases ht
      exact ⟨hi, nm, rfl, modules, hm, rfl⟩
    · rintro ⟨hi, nm', hnm, modules, hm, rfl⟩
      cases hnm
      exact ⟨_, ⟨hi, modules, hm, rfl⟩, rfl⟩

/-- The database after `removeModules`. -/
def removedDb (s : State) : HapDb :=
  if s.db.primaryAcc.isSome then s.db.accDelete s.accessory else s.db

theorem removeModules_eq (s : State) : s.removeModules = { s with
    db := s.removedDb
    systemStatus := { s.systemStatus with numModules := 0 } } := by
  unfold removeModules removedDb deleteAccessory HapDb.countAccessories
  cases h : s.db.primaryAcc <;> simp

@[simp] theorem length_removedDb (s : State) : s.removedDb.accs.length = s.db.accs.length := by
  unfold removedDb
  split
  · cases h : s.accessory <;> simp [HapDb.accDelete]
  · rfl

/-- Removing the modules and creating an accessory, one after the other. -/
theorem createAccessory_removeModules (s : State) : s.removeModules.createAccessory = { s with
    systemStatus := { s.systemStatus with numModules := 0 }
    accessory := some s.db.accs.length
    db := { s.removedDb with accs := s.removedDb.accs ++ [s.freshAcc] } } := by
  rw [createAccessory_eq, removeModules_eq]
  simp only [length_removedDb]
  rfl

/-- The victim of the POP logic: the last of the modules that are on with the largest
priority. -/
def PopVictim (ms : List ModuleT) (addr : UInt8) : Prop :=
  ∃ i m, ms[i]? = some m ∧ m.state = true ∧ addr = UInt8.ofNat (i + 1) ∧
    ∀ j m', ms[j]? = some m' → m'.state = true →
      m'.priority.toNat ≤ m.priority.toNat ∧ (m'.priority = m.priority → j ≤ i)

theorem popScan_eq (h : s.moduleNum ≤ maxModuleNum) :
    ∃ addr p, s.popScan = .ok (addr, p) ∧
      ((∀ m ∈ s.linked, m.state = false) ∨ PopVictim s.linked addr) := by
  have hloop : s.popScan = .ok (s.linked.zipIdx.foldl
      (LastMax.scan (fun mi => mi.1.state = true) (fun mi => mi.1.priority.toNat)
        fun mi => UInt8.ofNat (mi.2 + 1)) (s.smfStatus.overloadTriggeredAddr, 0)) := by
    rw [popScan, forModules_eq h]
    rfl
  refine ⟨_, _, hloop, ?_⟩
  rcases LastMax.foldl_scan (fun mi : ModuleT × Nat => mi.1.state = true)
    (fun mi => mi.1.priority.toNat) (fun mi => UInt8.ofNat (mi.2 + 1)) s.linked.zipIdx
    (s.smfStatus.overloadTriggeredAddr, 0) with ⟨-, hlow⟩ | ⟨l₁, ⟨m, i⟩, l₂, hl, hon, hres, -, h₁, h₂⟩
  · left
    intro m hm
    obtain ⟨i, hi⟩ := List.mem_iff_getElem?.1 hm
    by_contra hon
    exact absurd (hlow (m, i) (List.mk_mem_zipIdx_iff_getElem?.2 hi) (by simpa using hon))
      (Nat.not_lt_zero _)
  · right
    have hi : s.linked[i]? = some m :=
      List.mk_mem_zipIdx_iff_getElem?.1 (by rw [hl]; simp)
    refine ⟨i, m, hi, hon, by rw [hres], fun j m' hj hon' => ?_⟩
    have hsorted : (l₁ ++ (m, i) :: l₂).Pairwise fun a b => a.2 < b.2 := by
      rw [← hl, ← List.pairwise_map, List.zipIdx_map_snd]
      exact List.pairwise_lt_range'
    have hmem : (m', j) ∈ l₁ ++ (m, i) :: l₂ := hl ▸ List.mk_mem_zipIdx_iff_getElem?.2 hj
    rcases List.mem_append.1 hmem with hmem | hmem
    · have hji : j < i := (List.pairwise_append.1 hsorted).2.2 _ hmem (m, i) (by simp)
      exact ⟨h₁ _ hmem hon', fun _ => hji.le⟩
    · rcases List.mem_cons.1 hmem with heq | hmem
      · cases heq
        exact ⟨le_rfl, fun _ => le_rfl⟩
      · have hlt : m'.priority.toNat < m.priority.toNat := h₂ _ hmem hon'
        exact ⟨hlt.le, fun heq => absurd (congrArg UInt8.toNat heq) hlt.ne⟩

/-- The address the check turns off is that of the victim, with POP and a module on. -/
def IsVictim (s : State) (addr : UInt8) : Prop :=
  s.smfStatus.enablePop ≠ 0 → (∃ m ∈ s.linked, m.state = true) → PopVictim s.linked addr

/-- The check on a sum that is not too large. -/
theorem overloadProtectionCheck_of_le (now : UInt32)
    (h : s.systemStatus.sumCurrent.toNat ≤ maxCurrent) :
    s.overloadProtectionCheck now = .ok { s with emergTriggered := false } :=
  if_neg (Nat.not_lt.2 h)

/-- The check on a sum that is too large, when none was too large before. -/
theorem overloadProtectionCheck_of_armed (now : UInt32)
    (h : maxCurrent < s.systemStatus.sumCurrent.toNat) (he : s.emergTriggered = false)
    (hn : s.moduleNum ≤ maxModuleNum) :
    ∃ addr, s.IsVictim addr ∧ s.overloadProtectionCheck now = .ok { s with
      smfStatus := { s.smfStatus with overloadTriggeredAddr := addr }
      queue := s.queue ++ [⟨3, [cmdDoModule, addr, doTurnOff]⟩]
      emergTriggered := true } := by
  unfold overloadProtectionCheck
  rw [if_pos h, if_pos (by simp [he])]
  by_cases hpop : s.smfStatus.enablePop ≠ 0
  · obtain ⟨addr, p, hscan, hvictim⟩ := popScan_eq hn
    refine ⟨addr, fun _ ⟨m, hm, hon⟩ => ?_, ?_⟩
    · exact hvictim.resolve_left fun hoff => by simp [hoff m hm] at hon
    · simp only [if_pos hpop, hscan]
      rfl
  · refine ⟨s.smfStatus.overloadTriggeredAddr, fun h0 => absurd h0 hpop, ?_⟩
    simp only [if_neg hpop]
    rfl

/-- The check on a sum that is too large, when it was too large before: at most the
currents are asked for. -/
theorem overloadProtectionCheck_of_latched (now : UInt32)
    (h : maxCurrent < s.systemStatus.sumCurrent.toNat) (he : s.emergTriggered = true) :
    ∃ msgs last, (∀ m ∈ msgs, m = ⟨3, [cmdReqData, moduleCurrent]⟩) ∧
      s.overloadProtectionCheck now =
        .ok { s with queue := s.queue ++ msgs, lastRequest := last } := by
  unfold overloadProtectionCheck
  rw [if_pos h, if_neg (by simp [he])]
  cases hl : s.lastRequest with
  | none => exact ⟨[], some now, by simp, by simp⟩
  | some t =>
    by_cases ht : (now - t).toNat > 1000
    · refine ⟨[⟨3, [cmdReqData, moduleCurrent]⟩], some now, by simp, ?_⟩
      simp only [if_pos ht]
      rfl
    · refine ⟨[], some t, by simp, ?_⟩
      simp only [if_neg ht, List.append_nil, ← hl]

/-- What the overload check makes of `s`; the messages it pushes are `trip`. -/
structure Checked (s t : State) (trip : List UartMsg) : Prop where
  eq : ∃ addr last, t = { s with
    smfStatus := { s.smfStatus with overloadTriggeredAddr := addr }
    lastRequest := last
    queue := s.queue ++ trip
    emergTriggered := decide (maxCurrent < s.systemStatus.sumCurrent.toNat) }
  quiet : s.systemStatus.sumCurrent.toNat ≤ maxCurrent → trip = []
  armed : maxCurrent < s.systemStatus.sumCurrent.toNat → s.emergTriggered = false →
    ∃ addr, s.IsVictim addr ∧ trip = [⟨3, [cmdDoModule, addr, doTurnOff]⟩]
  latched : s.emergTriggered = true → ∀ m ∈ trip, m = ⟨3, [cmdReqData, moduleCurrent]⟩

/-- **The overload check**, when the slots it looks at exist. -/
theorem overloadProtectionCheck_spec (now : UInt32) (hn : s.moduleNum ≤ maxModuleNum) :
    ∃ t trip, s.overloadProtectionCheck now = .ok t ∧ Checked s t trip := by
  by_cases h : s.systemStatus.sumCurrent.toNat ≤ maxCurrent
  · refine ⟨_, [], overloadProtectionCheck_of_le now h, ⟨s.smfStatus.overloadTriggeredAddr,
      s.lastRequest, ?_⟩, fun _ => rfl, fun hlt => absurd h (Nat.not_le.2 hlt), by simp⟩
    simp [h]
  · have h' := Nat.not_le.1 h
    cases he : s.emergTriggered with
    | false =>
      obtain ⟨addr, hv, hok⟩ := overloadProtectionCheck_of_armed now h' he hn
      refine ⟨_, _, hok, ⟨addr, s.lastRequest, ?_⟩, fun hle => absurd hle h,
        fun _ _ => ⟨addr, hv, rfl⟩, by simp [he]⟩
      simp [h']
    | true =>
      obtain ⟨msgs, last, hmsgs, hok⟩ := overloadProtectionCheck_of_latched now h' he
      refine ⟨_, msgs, hok, ⟨s.smfStatus.overloadTriggeredAddr, last, ?_⟩,
        fun hle => absurd hle h, by simp [he], fun _ => hmsgs⟩
      simp [h', he]

end State

end NinaHomekit
