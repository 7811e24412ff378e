import NinaHomekit.CoreBridge.State

/-!
# The HomeKit side of the bridge

`Homekit.cpp` and `CConnector.cpp`: how the accessory is made, filled and registered, and
how a characteristic is traced back to its module.

* `createAccessory`, `beginAccessory`, `deleteAccessory`, `setServiceValue`,
  `getModuleAddrByHc` — the code.
* `moduleServ` — the service `beginAccessory` makes for a module.
* `createAccessory_eq` — an accessory is always created, and it is a new one.
* `beginAccessory_eq_ok` — **what `beginAccessory` does**: the services of the linked
  modules behind those the accessory has, each slot pointing to its own.
-/

namespace NinaHomekit

open Trace

namespace State

/-! ## The code -/

/-- `serial_number`: `"TW0138WJC9T"`. -/
def serialNumber : CStr :=
  [0x54, 0x57, 0x30, 0x31, 0x33, 0x38, 0x57, 0x4A, 0x43, 0x39, 0x54]

/-- The `cfg` of `createAccessory`. -/
def accCfg (s : State) : HapAccCfg where
  name := s.deviceName
  -- "CDBKV01TWA", "CYLU.IO", "1.0.0" and "1.0"
  model := [0x43, 0x44, 0x42, 0x4B, 0x56, 0x30, 0x31, 0x54, 0x57, 0x41]
  manufacturer := [0x43, 0x59, 0x4C, 0x55, 0x2E, 0x49, 0x4F]
  serialNum := serialNumber
  fwRev := [0x31, 0x2E, 0x30, 0x2E, 0x30]
  hwRev := some [0x31, 0x2E, 0x30]

/-- `createAccessory`. -/
def createAccessory (s : State) : State :=
  match hapAccCreate s.accCfg with
  | none => { s with accessory := none }
  | some ha =>
    { s with accessory := some s.db.accs.length, db := { s.db with accs := s.db.accs ++ [ha] } }

/-- `deleteAccessory`. -/
def deleteAccessory (s : State) : State := { s with db := s.db.accDelete s.accessory }

/-- The body of the loop of `beginAccessory`. -/
def beginModule (s : State) (i : Nat) : Except Fault State := do
  let module ← s.getModule (UInt8.ofNat i)
  match hapServSwitchCreate module.state with
  | none => .error .assertBlock
  | some service =>
    let (service, _) := hapServAddChar service (hapCharNameCreate module.name)
    let characteristic := hapServGetCharByUuid service .on
    let service := hapServSetWriteCb service
    match s.accessory with
    | none => .error .assertBlock
    | some ha =>
      match s.db.accs[ha]? with
      | none => .error .nullDeref
      | some acc =>
        let serv := acc.servs.length
        let s ← s.modifyModule (UInt8.ofNat i) fun module =>
          { module with hs := some ⟨ha, serv⟩, hc := characteristic.map (⟨ha, serv, ·⟩) }
        return { s with db := s.db.addServ ha service }

/-- `beginAccessory`. -/
def beginAccessory (s : State) : Except Fault State := do
  let s ← (List.range s.moduleNum).foldlM beginModule s
  return { s with db := s.db.addAccessory s.accessory, first := false }

/-- `setServiceValue`. -/
def setServiceValue (s : State) (hc : Option CharPtr) (state : UInt8) : State :=
  { s with db := s.db.charUpdateVal hc (.b (state != 0)) }

/-- `hap_char_get_iid`. -/
def charGetIid (s : State) : Option CharPtr → Except Fault Nat
  | none => .error .assertBlock
  | some hc =>
    match s.db.char? hc with
    | none => .error .nullDeref
    | some c => .ok c.iid

/-- The loop of `CoreBridge_getModuleAddrByHc`. -/
def findModuleAddr (s : State) (hc : Option CharPtr) : List Nat → Except Fault UInt8
  | [] => .ok 0
  | i :: is => do
    let module ← s.getModule (UInt8.ofNat i)
    let iid ← s.charGetIid module.hc
    let iid' ← s.charGetIid hc
    if iid = iid' then return UInt8.ofNat (i + 1) else s.findModuleAddr hc is

/-- `CoreBridge_getModuleAddrByHc`. -/
def getModuleAddrByHc (s : State) (hc : Option CharPtr) : Except Fault UInt8 :=
  s.findModuleAddr hc (List.range s.moduleNum)

/-- The id of the characteristic the slot `i` points to. -/
def slotIid (s : State) (i : Nat) : Option Nat := do
  let module ← s.slots[i]?
  let hc ← module.hc
  let c ← s.db.char? hc
  return c.iid

/-- The id of the characteristic the slot `i` points to, as the loop reads it. -/
theorem slotIid_eq_some {s : State} {i iid : Nat} (hi : i < 256) :
    s.slotIid i = some iid ↔
      (s.getModule (UInt8.ofNat i) >>= fun module => s.charGetIid module.hc) = .ok iid := by
  have hget : ∀ m, s.getModule (UInt8.ofNat i) = .ok m ↔ s.slots[i]? = some m := by
    intro m
    rw [getModule_eq_ok, toNat_ofNat_index hi]
  simp only [slotIid, bind_eq_ok, hget, Option.bind_eq_bind, Option.bind_eq_some_iff]
  refine exists_congr fun m => and_congr_right fun _ => ?_
  rcases m.hc with _ | p
  · simp [charGetIid]
  · rcases hc : s.db.char? p with _ | c <;> simp [charGetIid, hc]

/-! ## Creating an accessory -/

/-- The accessory `createAccessory` makes: it never fails, since the device name is
short enough. -/
def freshAcc (s : State) : HapAcc :=
  hapAccAddServ (hapAccAddServ ⟨0, [], 1, false⟩ (hapServSetWriteCb (accInfoServ s.accCfg).1))
    protocolInfoServ.1

theorem not_tooLong_deviceName (s : State) :
    ¬ hapCharStringMaxLen < s.deviceName.val.length := by
  have := s.deviceName.2
  simp only [deviceNameLength, hapCharStringMaxLen] at this ⊢
  omega

theorem hapAccCreate_accCfg (s : State) : hapAccCreate s.accCfg = some s.freshAcc := by
  have hname := s.not_tooLong_deviceName
  have hinfo : (accInfoServ s.accCfg).2 = true := by
    simp [accInfoServ, accCfg, hapServAddChars, hapServAddChar, hapCharBoolCreate,
      hapCharStringCreate, hapCharCreate, serialNumber, hname]
    simp [hapCharStringMaxLen]
  have hproto : protocolInfoServ.2 = true := by decide
  simp only [hapAccCreate, hinfo, hproto, if_true, freshAcc]

/-- What is in a new accessory. -/
theorem freshAcc_eq (s : State) : s.freshAcc = ⟨0,
    [⟨1, .accessoryInformation,
      [⟨2, .identify, hapCharPermPW, .b false, 0, 0, false⟩,
        ⟨3, .manufacturer, hapCharPermPR, .s (some s.accCfg.manufacturer), 0, 0, false⟩,
        ⟨4, .model, hapCharPermPR, .s (some s.accCfg.model), 0, 0, false⟩,
        ⟨5, .name, hapCharPermPR, .s (some s.deviceName), 0, 0, false⟩,
        ⟨6, .serialNumber, hapCharPermPR, .s (some serialNumber), 0, 0, false⟩,
        ⟨7, .firmwareRevision, hapCharPermPR, .s (some s.accCfg.fwRev), 0, 0, false⟩,
        ⟨8, .hardwareRevision, hapCharPermPR, .s s.accCfg.hwRev, 0, 0, false⟩], true⟩,
      ⟨9, .protocolInformation, [⟨10, .version, hapCharPermPR, .s (some pv), 0, 0, false⟩],
        false⟩],
    11, false⟩ := by
  have hname := s.not_tooLong_deviceName
  have hlen : ¬ hapCharStringMaxLen < 3 ∧ ¬ hapCharStringMaxLen < 5 ∧ ¬ hapCharStringMaxLen < 7 ∧
      ¬ hapCharStringMaxLen < 10 ∧ ¬ hapCharStringMaxLen < 11 := by decide
  simp [freshAcc, hapAccAddServ, accInfoServ, accCfg, hapServAddChars, hapServAddChar,
    hapCharBoolCreate, hapCharStringCreate, hapCharCreate, serialNumber, hname, hapServCreate,
    hapServSetWriteCb, numberChars, protocolInfoServ, pv, hlen]

/-- **An accessory is always created, and it is a new one.** -/
theorem createAccessory_eq (s : State) :
    s.createAccessory = { s with
      accessory := some s.db.accs.length
      db := { s.db with accs := s.db.accs ++ [s.freshAcc] } } := by
  simp only [createAccessory, hapAccCreate_accCfg]

/-! ## Filling the accessory -/

/-- The On characteristic of a switch service. -/
def onChar (on : Bool) : HapChar :=
  ⟨0, .on, hapCharPermPR ||| hapCharPermPW ||| hapCharPermEV, .b on, 0, 0, false⟩

/-- The service `beginAccessory` makes for a module.  A name that is too long gives no Name
characteristic. -/
def moduleServ (m : ModuleT) : HapServ :=
  ⟨0, .switch, onChar m.state :: (hapCharNameCreate m.name).toList, true⟩

/-- The services of modules, added one after the other. -/
def addModules (acc : HapAcc) (ms : List ModuleT) : HapAcc :=
  ms.foldl (fun acc m => hapAccAddServ acc (moduleServ m)) acc

/-- A slot after `n` passes of the loop of `beginAccessory`, when the accessory had `k`
services before. -/
def pointTo (ha : AccPtr) (k n i : Nat) (m : ModuleT) : ModuleT :=
  if i < n then { m with hs := some ⟨ha, k + i⟩, hc := some ⟨ha, k + i, 0⟩ } else m

variable {s t : State} {ha : AccPtr} {acc : HapAcc}

@[simp] theorem pointTo_zero (ha : AccPtr) (k i : Nat) : pointTo ha k 0 i = id := by
  funext m
  simp [pointTo]

theorem deleted_addModules (acc : HapAcc) (ms : List ModuleT) :
    (addModules acc ms).deleted = acc.deleted := by
  induction ms generalizing acc with
  | nil => rfl
  | cons m ms ih => exact ih _

@[simp] theorem length_servs_addModules (acc : HapAcc) (ms : List ModuleT) :
    (addModules acc ms).servs.length = acc.servs.length + ms.length := by
  induction ms generalizing acc with
  | nil => rfl
  | cons m ms ih =>
    rw [addModules, List.foldl_cons, ← addModules, ih]
    simp [hapAccAddServ]
    omega

theorem addModules_cons (acc : HapAcc) (m : ModuleT) (ms : List ModuleT) :
    addModules acc (m :: ms) = addModules (hapAccAddServ acc (moduleServ m)) ms := rfl

/-- The services an accessory has stay where they are. -/
theorem getElem?_servs_addModules_left {j : Nat} (acc : HapAcc) (ms : List ModuleT)
    (h : j < acc.servs.length) : (addModules acc ms).servs[j]? = acc.servs[j]? := by
  induction ms generalizing acc with
  | nil => rfl
  | cons m ms ih =>
    have hserv : (hapAccAddServ acc (moduleServ m)).servs[j]? = acc.servs[j]? :=
      List.getElem?_append_left h
    rw [addModules_cons, ih _ (by simp [hapAccAddServ]; omega), hserv]

/-- The service of the `i`th module, with the id that was next when it was added. -/
theorem getElem?_servs_addModules (acc : HapAcc) (ms : List ModuleT) (i : Nat) :
    (addModules acc ms).servs[acc.servs.length + i]? = ms[i]?.map fun m =>
      { moduleServ m with
        iid := (addModules acc (ms.take i)).nextIid
        chars := numberChars ((addModules acc (ms.take i)).nextIid + 1) (moduleServ m).chars } := by
  induction ms generalizing acc i with
  | nil => simp [addModules]
  | cons m ms ih =>
    have hlen : (hapAccAddServ acc (moduleServ m)).servs.length = acc.servs.length + 1 := by
      simp [hapAccAddServ]
    rw [addModules_cons]
    cases i with
    | zero =>
      rw [getElem?_servs_addModules_left _ _ (by omega)]
      simp [hapAccAddServ, addModules]
    | succ i =>
      rw [show acc.servs.length + (i + 1) =
        (hapAccAddServ acc (moduleServ m)).servs.length + i by omega, ih]
      rfl

/-- One pass of the loop. -/
theorem beginModule_eq {i : Nat} {m : ModuleT} (hm : s.slots[i]? = some m)
    (hacc : s.accessory = some ha) (hfound : s.db.accs[ha]? = some acc) :
    ∃ modules : Vector ModuleT maxModuleNum,
      modules.toList = s.slots.modify i (fun m =>
        { m with hs := some ⟨ha, acc.servs.length⟩, hc := some ⟨ha, acc.servs.length, 0⟩ }) ∧
      s.beginModule i = .ok { s with
        modules := modules, db := s.db.addServ ha (moduleServ m) } := by
  have hi : i < maxModuleNum := by simpa using (List.getElem?_eq_some_iff.1 hm).1
  have hto : (UInt8.ofNat i).toNat = i :=
    toNat_ofNat_index (by have : maxModuleNum = 20 := rfl; omega)
  have hget : s.getModule (UInt8.ofNat i) = .ok m := by rw [getModule_eq_ok, hto, hm]
  have hserv : hapServSetWriteCb (hapServAddChar ⟨0, .switch, [onChar m.state], false⟩
      (hapCharNameCreate m.name)).1 = moduleServ m := by
    cases h : hapCharNameCreate m.name <;> simp [hapServAddChar, hapServSetWriteCb, moduleServ, h]
  have hon : hapServGetCharByUuid (hapServAddChar ⟨0, .switch, [onChar m.state], false⟩
      (hapCharNameCreate m.name)).1 .on = some 0 := by
    cases hapCharNameCreate m.name <;> simp [hapServAddChar, hapServGetCharByUuid, onChar,
      List.findIdx?_cons]
  obtain ⟨t, ht⟩ : ∃ t, s.modifyModule (UInt8.ofNat i) (fun module =>
      { module with
        hs := some ⟨ha, acc.servs.length⟩, hc := some ⟨ha, acc.servs.length, 0⟩ }) = .ok t := by
    rw [modifyModule, dif_pos (by rwa [hto])]
    exact ⟨_, rfl⟩
  obtain ⟨-, modules, hlist, rfl⟩ := modifyModule_eq_ok.1 ht
  rw [hto] at hlist
  refine ⟨modules, hlist, ?_⟩
  have hcreate : hapServSwitchCreate m.state = some ⟨0, .switch, [onChar m.state], false⟩ := rfl
  simp only [beginModule, hget, ok_bind, hcreate, hacc, hfound, hon, hserv, Option.map_some, ht]
  rfl

/-- The loop, pass by pass: induction on the number of passes. -/
theorem beginLoop_eq (hacc : s.accessory = some ha) (hfound : s.db.accs[ha]? = some acc)
    {n : Nat} (hn : n ≤ maxModuleNum) :
    ∃ modules : Vector ModuleT maxModuleNum,
      modules.toList = s.slots.mapIdx (pointTo ha acc.servs.length n) ∧
      (List.range n).foldlM beginModule s = .ok { s with
        modules := modules
        db := { s.db with accs := s.db.accs.set ha (addModules acc (s.slots.take n)) } } := by
  induction n with
  | zero =>
    refine ⟨s.modules, ?_, ?_⟩
    · refine List.ext_getElem? fun i => ?_
      simp [slots, List.getElem?_mapIdx]
    · have hset : s.db.accs.set ha acc = s.db.accs := by
        obtain ⟨hlt, rfl⟩ := List.getElem?_eq_some_iff.1 hfound
        exact List.set_getElem_self hlt
      simp [addModules, hset]
      rfl
  | succ n ih =>
    obtain ⟨modules, hlist, hrun⟩ := ih (by omega)
    set u : State := { s with
      modules := modules
      db := { s.db with accs := s.db.accs.set ha (addModules acc (s.slots.take n)) } } with hu
    obtain ⟨m, hm⟩ : ∃ m, s.slots[n]? = some m :=
      ⟨_, List.getElem?_eq_getElem (by rw [length_slots]; omega)⟩
    have hum : u.slots[n]? = some m := by
      change modules.toList[n]? = _
      simp [hlist, List.getElem?_mapIdx, hm, pointTo]
    have hlt : ha < s.db.accs.length := (List.getElem?_eq_some_iff.1 hfound).1
    have hufound : u.db.accs[ha]? = some (addModules acc (s.slots.take n)) := by
      simp [hu, hlt]
    obtain ⟨modules', hlist', hstep⟩ := beginModule_eq hum hacc hufound
    refine ⟨modules', ?_, ?_⟩
    · rw [hlist']
      change modules.toList.modify n _ = _
      rw [hlist]
      refine List.ext_getElem? fun i => ?_
      simp only [List.getElem?_modify, List.getElem?_mapIdx, Option.map_eq_map, Option.map_map]
      refine congrArg (fun f => Option.map f s.slots[i]?) (funext fun m' => ?_)
      have hlen : (s.slots.take n).length = n := by
        rw [List.length_take, length_slots]
        omega
      rcases lt_trichotomy i n with h | rfl | h
      · simp [pointTo, show ¬ n = i by omega, show i < n + 1 by omega, h]
      · simp [pointTo, hlen]
      · simp [pointTo, show ¬ n = i by omega, show ¬ i < n + 1 by omega,
          show ¬ i < n by omega]
    · rw [List.range_succ, List.foldlM_append, hrun, ok_bind, List.foldlM_cons, hstep]
      have htake : s.slots.take (n + 1) = s.slots.take n ++ [m] := by
        rw [List.take_add_one, hm]
        rfl
      have hmod : (s.db.accs.set ha (addModules acc (s.slots.take n))).modify ha
          (hapAccAddServ · (moduleServ m)) =
          s.db.accs.set ha (addModules acc (s.slots.take (n + 1))) := by
        rw [htake, addModules, addModules, List.foldl_append, List.modify_eq_set_getElem?]
        simp [hlt]
      simp only [ok_bind, List.foldlM_nil, HapDb.addServ, hu, hmod]
      rfl

/-- **What `beginAccessory` does**, on an accessory and slots that exist. -/
theorem beginAccessory_eq (hacc : s.accessory = some ha) (hfound : s.db.accs[ha]? = some acc)
    (hn : s.moduleNum ≤ maxModuleNum) :
    ∃ modules : Vector ModuleT maxModuleNum,
      modules.toList = s.slots.mapIdx (pointTo ha acc.servs.length s.moduleNum) ∧
      s.beginAccessory = .ok { s with
        modules := modules
        db := { s.db with
          accs := s.db.accs.set ha { addModules acc s.linked with aid := 1 }
          primaryAcc := some ha }
        first := false } := by
  obtain ⟨modules, hlist, hloop⟩ := beginLoop_eq hacc hfound hn
  refine ⟨modules, hlist, ?_⟩
  have hlt : ha < s.db.accs.length := (List.getElem?_eq_some_iff.1 hfound).1
  have haid : (s.db.accs.set ha (addModules acc s.linked)).modify ha
      (fun acc => { acc with aid := 1 }) =
      s.db.accs.set ha { addModules acc s.linked with aid := 1 } := by
    rw [List.modify_eq_set_getElem?]
    simp [hlt]
  simp only [beginAccessory, hloop, ok_bind, HapDb.addAccessory, hacc]
  rw [← linked, haid]
  rfl

/-- With no module there is only the accessory to register. -/
theorem beginAccessory_zero (hacc : s.accessory = some ha) (hfound : s.db.accs[ha]? = some acc)
    (hn : s.moduleNum = 0) :
    s.beginAccessory = .ok { s with
      db := { s.db with accs := s.db.accs.set ha { acc with aid := 1 }, primaryAcc := some ha }
      first := false } := by
  obtain ⟨modules, hlist, hok⟩ := beginAccessory_eq hacc hfound (by omega)
  have hsame : modules = s.modules := by
    refine Vector.toList_inj.1 (hlist.trans (List.ext_getElem? fun i => ?_))
    simp [hn, slots, List.getElem?_mapIdx]
  rw [hok, hsame, linked, hn]
  rfl

/-- `beginAccessory` faults when a slot it loops over does not exist, or when it has a
module and no accessory. -/
theorem moduleNum_le_of_beginAccessory (h : s.beginAccessory = .ok t) :
    s.moduleNum ≤ maxModuleNum ∧ (s.accessory = none → s.moduleNum = 0) := by
  obtain ⟨u, hloop, -⟩ := bind_eq_ok.1 h
  have hpass : ∀ {is : List Nat} {v w : State}, is.foldlM beginModule v = .ok w →
      ∀ i ∈ is, ∃ v w, beginModule v i = .ok w := by
    intro is
    induction is with
    | nil => intro v w _ i hi; simp at hi
    | cons j js ih =>
      intro v w hv i hi
      rw [List.foldlM_cons] at hv
      obtain ⟨x, hx, hrest⟩ := bind_eq_ok.1 hv
      rcases List.mem_cons.1 hi with rfl | hi
      · exact ⟨v, x, hx⟩
      · exact ih hrest i hi
  constructor
  · by_contra hgt
    obtain ⟨v, w, hvw⟩ := hpass hloop maxModuleNum (List.mem_range.2 (by omega))
    obtain ⟨m, hm, -⟩ := bind_eq_ok.1 hvw
    simp [getModule, maxModuleNum] at hm
  · intro hnone
    by_contra hne
    obtain ⟨n, hn⟩ := Nat.exists_eq_succ_of_ne_zero hne
    rw [hn, List.range_succ_eq_map, List.foldlM_cons] at hloop
    obtain ⟨v, hv, -⟩ := bind_eq_ok.1 hloop
    obtain ⟨m, -, hm⟩ := bind_eq_ok.1 hv
    rw [show hapServSwitchCreate m.state = some ⟨0, .switch, [onChar m.state], false⟩ from rfl,
      hnone] at hm
    cases hm

/-- The two ways `beginAccessory` can end: with nothing to do and no accessory, or with the
services of the linked modules added and the accessory registered. -/
theorem beginAccessory_eq_ok (hvalid : ∀ ha, s.accessory = some ha → ha < s.db.accs.length)
    (h : s.beginAccessory = .ok t) :
    s.moduleNum ≤ maxModuleNum ∧
      ((s.accessory = none ∧ s.moduleNum = 0 ∧ t = { s with first := false }) ∨
        ∃ (ha : AccPtr) (acc : HapAcc) (modules : Vector ModuleT maxModuleNum),
          s.accessory = some ha ∧ s.db.accs[ha]? = some acc ∧
          modules.toList = s.slots.mapIdx (pointTo ha acc.servs.length s.moduleNum) ∧
          t = { s with
            modules := modules
            db := { s.db with
              accs := s.db.accs.set ha { addModules acc s.linked with aid := 1 }
              primaryAcc := some ha }
            first := false }) := by
  obtain ⟨hle, hnone⟩ := moduleNum_le_of_beginAccessory h
  refine ⟨hle, ?_⟩
  rcases Option.eq_none_or_eq_some s.accessory with hacc | ⟨ha, hacc⟩
  · have h0 := hnone hacc
    have hdb : s.db.addAccessory s.accessory = s.db := by rw [hacc]; rfl
    rw [beginAccessory, h0] at h
    cases h
    exact Or.inl ⟨hacc, h0, by rw [hdb]⟩
  · have hfound := List.getElem?_eq_getElem (hvalid ha hacc)
    obtain ⟨modules, hlist, hok⟩ := beginAccessory_eq hacc hfound hle
    rw [h] at hok
    cases hok
    exact Or.inr ⟨ha, _, modules, hacc, hfound, hlist, rfl⟩

end State

end NinaHomekit
