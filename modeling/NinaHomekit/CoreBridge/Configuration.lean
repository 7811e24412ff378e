import NinaHomekit.CoreBridge.MqttCtrl
import NinaHomekit.Lib.KeyStore

/-!
# The configuration of the bridge

What `CoreBridgeClass` keeps in the non-volatile storage: the device name, the MQTT host, the
POP flag and the running time.  The storage itself is a `KeyStore`.

* `hapPlatformKeystoreGet`, … — `hap_platform_keystore.c`.
* `Config` — the variables in memory and the storage; `setDeviceName`, … write both.
* `init` — what `CoreBridgeClass::init` does to them; `restart` is the start after a reset,
  where the memory is zero.
* `Settings` — what the configuration is for: four values that are set and read.
* `saved` — what the storage has for the next start; `settings_setDeviceName`,
  `saved_setDeviceName`, … say what each setter does to the two.
* `boot_spec` — **a start takes what is saved, and saves the default of what is not.**
-/

namespace NinaHomekit

open CArray

/-! ## The key store -/

/-- The names under which a value is stored. -/
structure NvsKey where
  partName : String
  nameSpace : String
  key : String
  deriving DecidableEq, Repr

abbrev Nvs := KeyStore NvsKey UInt8

section HapPlatformKeystore

def hapPlatformKeystoreGetNvsPartitionName : String := "nvs"
def hapPlatformKeystoreGetFactoryNvsPartitionName : String := "fac_nvs"

variable {n : ℕ} (nvs : Nvs) (store : nvs.Store) (key : NvsKey)

/-- `hap_platform_keystore_get`: the array it has read into, unless it returns -1.  Every caller
passes `sizeof` of the array. -/
def hapPlatformKeystoreGet (val : CArray UInt8 n) : Option (CArray UInt8 n) :=
  nvs.readBlob store key val

def hapPlatformKeystoreGetU64 (val : CArray UInt8 n) : Option (CArray UInt8 n) :=
  nvs.readBlob store key val

def hapPlatformKeystoreGetStr (val : CArray UInt8 n) : Option (CArray UInt8 n) :=
  nvs.readStr store key val

/-- `hap_platform_keystore_set`, with `val_len` bytes. -/
def hapPlatformKeystoreSet (val : CArray UInt8 n) : nvs.Store := nvs.setBlob store key val.elems

def hapPlatformKeystoreSetU64 (val : CArray UInt8 n) : nvs.Store :=
  nvs.setBlob store key val.elems

/-- `hap_platform_keystore_set_str`, which ignores `val_len`: the string is read up to its NUL,
wherever that is. -/
def hapPlatformKeystoreSetStr (val : CArray UInt8 n) (behind : List UInt8) : nvs.Store :=
  nvs.setStr store key (val.textFrom behind)

end HapPlatformKeystore

def enablePopKey : NvsKey :=
  ⟨hapPlatformKeystoreGetNvsPartitionName, "configurations", "enable_pop"⟩
def deviceNameKey : NvsKey :=
  ⟨hapPlatformKeystoreGetNvsPartitionName, "configurations", "device_name"⟩
def runningTimeKey : NvsKey :=
  ⟨hapPlatformKeystoreGetFactoryNvsPartitionName, "statistics", "running_time"⟩
def mqttHostKey : NvsKey :=
  ⟨hapPlatformKeystoreGetNvsPartitionName, "configurations", "mqtt_host"⟩

/-! ## The variables and their setters -/

/-- What is behind the two arrays in memory, up to a NUL. -/
structure Behind where
  deviceName : List UInt8
  host : List UInt8

/-- `device_name`, `MqttCtrl.host`, `enable_pop`, `running_time` and the storage. -/
structure Config (nvs : Nvs) where
  deviceName : CArray UInt8 (deviceNameLength + 1)
  host : CArray UInt8 21
  enablePop : UInt8
  runningTime : UInt32
  store : nvs.Store

namespace Config

variable {nvs : Nvs}

def setDeviceName (c : Config nvs) (mem : Behind) (name : Str UInt8) : Config nvs :=
  let deviceName := c.deviceName.strncpy name deviceNameLength (by decide)
  { c with
    deviceName
    store := hapPlatformKeystoreSetStr nvs c.store deviceNameKey deviceName mem.deviceName }

def setEnablePop (c : Config nvs) (state : UInt8) : Config nvs :=
  { c with
    enablePop := state
    store := hapPlatformKeystoreSet nvs c.store enablePopKey (ofNat 1 state.toNat) }

def setRunningTime (c : Config nvs) (hrs : UInt32) : Config nvs :=
  { c with
    runningTime := hrs
    store := hapPlatformKeystoreSetU64 nvs c.store runningTimeKey (ofNat 4 hrs.toNat) }

def setMqttHost (c : Config nvs) (mem : Behind) (host : Str UInt8) : Config nvs :=
  let host := c.host.strncpy host mqttHostLength (by decide)
  { c with
    host
    store := hapPlatformKeystoreSetStr nvs c.store mqttHostKey host mem.host }

/-! ## The start -/

/-- "CordBlock" -/
def defaultName : Str UInt8 := ⟨"CordBlock".toUTF8.toList, by decide +kernel⟩

/-- "49.158.2.58:1883" -/
def defaultHost : Str UInt8 := ⟨"49.158.2.58:1883".toUTF8.toList, by decide +kernel⟩

/-- `if (get(…) != HAP_SUCCESS) set…(…)`, where `get` writes what it has read. -/
def restore {α : Type} (get : Option α) (read : α → Config nvs) (setDefault : Config nvs) :
    Config nvs :=
  match get with
  | some val => read val
  | none => setDefault

def restoreEnablePop (c : Config nvs) : Config nvs :=
  restore (hapPlatformKeystoreGet nvs c.store enablePopKey (ofNat 1 c.enablePop.toNat))
    (fun val => { c with enablePop := UInt8.ofNat val.toNat }) (c.setEnablePop 0)

def restoreDeviceName (c : Config nvs) (mem : Behind) : Config nvs :=
  restore (hapPlatformKeystoreGetStr nvs c.store deviceNameKey c.deviceName)
    (fun val => { c with deviceName := val }) (c.setDeviceName mem defaultName)

def restoreRunningTime (c : Config nvs) : Config nvs :=
  restore (hapPlatformKeystoreGetU64 nvs c.store runningTimeKey (ofNat 4 c.runningTime.toNat))
    (fun val => { c with runningTime := UInt32.ofNat val.toNat }) (c.setRunningTime 0)

def restoreMqttHost (c : Config nvs) (mem : Behind) : Config nvs :=
  restore (hapPlatformKeystoreGetStr nvs c.store mqttHostKey c.host)
    (fun val => { c with host := val }) (c.setMqttHost mem defaultHost)

/-- `CoreBridgeClass::init`. -/
def init (c : Config nvs) (mem : Behind) : Config nvs :=
  let c := { c with deviceName := zeros _ }
  let c := c.restoreEnablePop
  let c := c.restoreDeviceName mem
  let c := c.restoreRunningTime
  c.restoreMqttHost mem

/-- The variables before `init`: none of them has an initialiser. -/
def zero (store : nvs.Store) : Config nvs := ⟨zeros _, zeros _, 0, 0, store⟩

/-- A start with this storage. -/
def boot (store : nvs.Store) (mem : Behind) : Config nvs := (zero store).init mem

/-- A restart: the storage is what is left. -/
def restart (c : Config nvs) (mem : Behind) : Config nvs := boot c.store mem

end Config

/-! ## What it is for -/

/-- The values of the configuration. -/
@[ext] structure Settings where
  deviceName : Str UInt8
  mqttHost : Str UInt8
  enablePop : UInt8
  runningTime : UInt32
  deriving DecidableEq

/-- What the storage has for the next start. -/
@[ext] structure Saved where
  deviceName : Option (Str UInt8)
  mqttHost : Option (Str UInt8)
  enablePop : Option UInt8
  runningTime : Option UInt32

/-- All of it is there. -/
def Settings.saved (s : Settings) : Saved :=
  ⟨some s.deviceName, some s.mqttHost, some s.enablePop, some s.runningTime⟩

/-- What is not there has its default. -/
def Saved.settings (v : Saved) : Settings :=
  ⟨v.deviceName.getD Config.defaultName, v.mqttHost.getD Config.defaultHost, v.enablePop.getD 0,
    v.runningTime.getD 0⟩

@[simp] theorem Settings.settings_saved (s : Settings) : s.saved.settings = s := rfl

namespace Config

variable {nvs : Nvs} {c : Config nvs} {mem : Behind}

/-- What the variables hold. -/
def settings (c : Config nvs) : Settings :=
  ⟨c.deviceName.text, c.host.text, c.enablePop, c.runningTime⟩

/-- What a start would read. -/
def saved (store : nvs.Store) : Saved where
  deviceName := (nvs.readStr store deviceNameKey (zeros (deviceNameLength + 1))).map text
  mqttHost := (nvs.readStr store mqttHostKey (zeros 21)).map text
  enablePop := (nvs.readBlob store enablePopKey (zeros 1)).map fun val => UInt8.ofNat val.toNat
  runningTime := (nvs.readBlob store runningTimeKey (zeros 4)).map fun val =>
    UInt32.ofNat val.toNat

/-- The last byte of `device_name` is the one that `init` has cleared. -/
def NameEnds (c : Config nvs) : Prop := c.deviceName.elems[deviceNameLength]? = some 0

/-! ## Writes to the storage -/

section Saved

variable (store : nvs.Store)

theorem saved_setStr_deviceName {v : Str UInt8} (h : v.length < deviceNameLength + 1) :
    saved (nvs.setStr store deviceNameKey v) = { saved store with deviceName := some v } := by
  simp (disch := decide) only [saved, nvs.readStr_setStr_of_ne, nvs.readBlob_setStr_of_ne,
    nvs.readStr_setStr _ _ _ h, Option.map_some, text_strcpy]

theorem saved_setStr_mqttHost {v : Str UInt8} (h : v.length < 21) :
    saved (nvs.setStr store mqttHostKey v) = { saved store with mqttHost := some v } := by
  simp (disch := decide) only [saved, nvs.readStr_setStr_of_ne, nvs.readBlob_setStr_of_ne,
    nvs.readStr_setStr _ _ _ h, Option.map_some, text_strcpy]

theorem saved_setBlob_enablePop (state : UInt8) :
    saved (nvs.setBlob store enablePopKey (ofNat 1 state.toNat).elems) =
      { saved store with enablePop := some state } := by
  have hval : (ofNat 1 state.toNat).toNat = state.toNat := toNat_ofNat state.toNat_lt
  simp (disch := decide) only [saved, nvs.readStr_setBlob_of_ne, nvs.readBlob_setBlob_of_ne,
    nvs.readBlob_setBlob_elems, Option.map_some, hval, UInt8.ofNat_toNat]

theorem saved_setBlob_runningTime (hrs : UInt32) :
    saved (nvs.setBlob store runningTimeKey (ofNat 4 hrs.toNat).elems) =
      { saved store with runningTime := some hrs } := by
  have hval : (ofNat 4 hrs.toNat).toNat = hrs.toNat := toNat_ofNat hrs.toNat_lt
  simp (disch := decide) only [saved, nvs.readStr_setBlob_of_ne, nvs.readBlob_setBlob_of_ne,
    nvs.readBlob_setBlob_elems, Option.map_some, hval, UInt32.ofNat_toNat]

end Saved

/-! ## The setters -/

theorem settings_setDeviceName (h : c.NameEnds) (name : Str UInt8) :
    (c.setDeviceName mem name).settings =
      { c.settings with deviceName := name.take deviceNameLength } :=
  Settings.ext (text_strncpy (h := by decide) (Or.inr h)) rfl rfl rfl

/-- `device_name` is stored up to the NUL in it. -/
theorem saved_setDeviceName (h : c.NameEnds) (name : Str UInt8) :
    saved (c.setDeviceName mem name).store =
      { saved c.store with deviceName := some (name.take deviceNameLength) } := by
  have htext : (c.deviceName.strncpy name deviceNameLength (by decide)).textFrom mem.deviceName =
      name.take deviceNameLength := by
    rw [textFrom_of_terminated (terminated_strncpy (Or.inr h)), text_strncpy (Or.inr h)]
  rw [← saved_setStr_deviceName c.store (Nat.lt_succ_of_le (Str.length_take_le name _)), ← htext]
  rfl

theorem settings_setMqttHost {host : Str UInt8} (h : host.length < mqttHostLength) :
    (c.setMqttHost mem host).settings = { c.settings with mqttHost := host } := by
  refine Settings.ext rfl ?_ rfl rfl
  exact (text_strncpy (h := by decide) (Or.inl h)).trans (Str.take_eq_self h.le)

theorem saved_setMqttHost {host : Str UInt8} (h : host.length < mqttHostLength) :
    saved (c.setMqttHost mem host).store = { saved c.store with mqttHost := some host } := by
  have htext : (c.host.strncpy host mqttHostLength (by decide)).textFrom mem.host = host := by
    rw [textFrom_of_terminated (terminated_strncpy (Or.inl h)), text_strncpy (Or.inl h),
      Str.take_eq_self h.le]
  rw [← saved_setStr_mqttHost c.store h]
  nth_rewrite 2 [← htext]
  rfl

@[simp] theorem settings_setEnablePop (state : UInt8) :
    (c.setEnablePop state).settings = { c.settings with enablePop := state } := rfl

theorem saved_setEnablePop (state : UInt8) :
    saved (c.setEnablePop state).store = { saved c.store with enablePop := some state } :=
  saved_setBlob_enablePop c.store state

@[simp] theorem settings_setRunningTime (hrs : UInt32) :
    (c.setRunningTime hrs).settings = { c.settings with runningTime := hrs } := rfl

theorem saved_setRunningTime (hrs : UInt32) :
    saved (c.setRunningTime hrs).store = { saved c.store with runningTime := some hrs } :=
  saved_setBlob_runningTime c.store hrs

/-! ## What a start restores

Each step of `init` takes what is saved, or else sets the default, which saves it.
-/

/-- What holds after the read and after the default is set holds after the step. -/
theorem restore_of {α : Type} {get : Option α} {read : α → Config nvs} {setDefault : Config nvs}
    (P : Config nvs → Prop) (hread : ∀ val, get = some val → P (read val))
    (hdefault : P setDefault) : P (restore get read setDefault) := by
  cases get with
  | none => exact hdefault
  | some val => exact hread val rfl

/-- What holds of a value that is read, and of the default, holds of what is restored. -/
theorem restore_spec {α β : Type} {get : Option α} {read : α → Config nvs} {setDefault : Config nvs}
    {f : α → β} {d : β} (Q : β → Config nvs → Prop) (hread : ∀ val, get = some val →
      Q (f val) (read val)) (hdefault : Q d setDefault) :
    Q ((get.map f).getD d) (restore get read setDefault) := by
  cases get with
  | none => exact hdefault
  | some val => exact hread val rfl

theorem saved_deviceName_eq_map (store : nvs.Store) (a : CArray UInt8 (deviceNameLength + 1)) :
    (saved store).deviceName = (nvs.readStr store deviceNameKey a).map text :=
  (nvs.map_text_readStr store _ (zeros _)).trans (nvs.map_text_readStr store _ a).symm

theorem saved_mqttHost_eq_map (store : nvs.Store) (a : CArray UInt8 21) :
    (saved store).mqttHost = (nvs.readStr store mqttHostKey a).map text :=
  (nvs.map_text_readStr store _ (zeros _)).trans (nvs.map_text_readStr store _ a).symm

theorem restoreEnablePop_spec (h : c.enablePop = 0) :
    c.restoreEnablePop.settings =
        { c.settings with enablePop := (saved c.store).enablePop.getD 0 } ∧
      saved c.restoreEnablePop.store =
        { saved c.store with enablePop := some ((saved c.store).enablePop.getD 0) } := by
  have hzero : ofNat 1 c.enablePop.toNat = zeros 1 := by rw [h]; rfl
  rw [restoreEnablePop, hapPlatformKeystoreGet, hzero]
  refine restore_spec (fun v c' => c'.settings = { c.settings with enablePop := v } ∧
    saved c'.store = { saved c.store with enablePop := some v }) (fun val hval => ⟨rfl, ?_⟩)
    ⟨rfl, saved_setEnablePop 0⟩
  exact Saved.ext rfl rfl (congrArg (Option.map _) hval) rfl

theorem restoreRunningTime_spec (h : c.runningTime = 0) :
    c.restoreRunningTime.settings =
        { c.settings with runningTime := (saved c.store).runningTime.getD 0 } ∧
      saved c.restoreRunningTime.store =
        { saved c.store with runningTime := some ((saved c.store).runningTime.getD 0) } := by
  have hzero : ofNat 4 c.runningTime.toNat = zeros 4 := by rw [h]; rfl
  rw [restoreRunningTime, hapPlatformKeystoreGetU64, hzero]
  refine restore_spec (fun v c' => c'.settings = { c.settings with runningTime := v } ∧
    saved c'.store = { saved c.store with runningTime := some v }) (fun val hval => ⟨rfl, ?_⟩)
    ⟨rfl, saved_setRunningTime 0⟩
  exact Saved.ext rfl rfl rfl (congrArg (Option.map _) hval)

variable (mem) in
theorem restoreDeviceName_spec (h : c.NameEnds) :
    (c.restoreDeviceName mem).settings =
        { c.settings with deviceName := (saved c.store).deviceName.getD defaultName } ∧
      saved (c.restoreDeviceName mem).store =
        { saved c.store with deviceName := some ((saved c.store).deviceName.getD defaultName) } := by
  have hsaved := saved_deviceName_eq_map c.store c.deviceName
  have hdefault : defaultName.take deviceNameLength = defaultName :=
    Str.take_eq_self (by decide +kernel)
  have hset : (c.setDeviceName mem defaultName).settings = _ := settings_setDeviceName h _
  have hstore : saved (c.setDeviceName mem defaultName).store = _ := saved_setDeviceName h _
  rw [hdefault] at hset hstore
  rw [hsaved]
  refine restore_spec (fun v c' => c'.settings = { c.settings with deviceName := v } ∧
    saved c'.store = { saved c.store with deviceName := some v }) (fun val hval => ⟨rfl, ?_⟩)
    ⟨hset, hstore⟩
  exact Saved.ext (hsaved.trans (congrArg (Option.map _) hval)) rfl rfl rfl

variable (mem) in
theorem restoreMqttHost_spec :
    (c.restoreMqttHost mem).settings =
        { c.settings with mqttHost := (saved c.store).mqttHost.getD defaultHost } ∧
      saved (c.restoreMqttHost mem).store =
        { saved c.store with mqttHost := some ((saved c.store).mqttHost.getD defaultHost) } := by
  have hsaved := saved_mqttHost_eq_map c.store c.host
  have hlen : defaultHost.length < mqttHostLength := by decide +kernel
  rw [hsaved]
  refine restore_spec (fun v c' => c'.settings = { c.settings with mqttHost := v } ∧
    saved c'.store = { saved c.store with mqttHost := some v }) (fun val hval => ⟨rfl, ?_⟩)
    ⟨settings_setMqttHost hlen, saved_setMqttHost hlen⟩
  exact Saved.ext rfl (hsaved.trans (congrArg (Option.map _) hval)) rfl rfl

/-! ## The start as a whole -/

theorem restoreEnablePop_deviceName : c.restoreEnablePop.deviceName = c.deviceName :=
  restore_of (fun c' => c'.deviceName = c.deviceName) (fun _ _ => rfl) rfl

theorem restoreRunningTime_deviceName : c.restoreRunningTime.deviceName = c.deviceName :=
  restore_of (fun c' => c'.deviceName = c.deviceName) (fun _ _ => rfl) rfl

theorem restoreMqttHost_deviceName : (c.restoreMqttHost mem).deviceName = c.deviceName :=
  restore_of (fun c' => c'.deviceName = c.deviceName) (fun _ _ => rfl) rfl

/-- `strncpy` does not reach the last byte of `device_name`. -/
theorem nameEnds_setDeviceName (h : c.NameEnds) (name : Str UInt8) :
    (c.setDeviceName mem name).NameEnds :=
  (getElem?_strncpy_of_le (h := by decide) le_rfl).trans h

theorem nameEnds_restoreDeviceName (h : c.NameEnds) : (c.restoreDeviceName mem).NameEnds := by
  refine restore_of NameEnds (fun val hval => ?_) (nameEnds_setDeviceName h _)
  obtain ⟨v, hv, rfl⟩ := nvs.exists_of_readStr hval
  exact getElem?_strcpy (h := hv) (Nat.le_of_lt_succ hv) h

theorem terminated_setMqttHost {host : Str UInt8} (h : host.length < mqttHostLength) :
    (c.setMqttHost mem host).host.Terminated := terminated_strncpy (h := by decide) (Or.inl h)

theorem terminated_restoreMqttHost : (c.restoreMqttHost mem).host.Terminated := by
  have hlen : defaultHost.length < mqttHostLength := by decide +kernel
  refine restore_of (fun c' => c'.host.Terminated) (fun val hval => ?_)
    (terminated_setMqttHost hlen)
  obtain ⟨v, hv, rfl⟩ := nvs.exists_of_readStr hval
  exact terminated_strcpy hv

theorem nameEnds_restoreEnablePop_zero (store : nvs.Store) :
    (zero store).restoreEnablePop.NameEnds := by
  rw [NameEnds, restoreEnablePop_deviceName]
  exact getElem?_zeros (by decide)

/-- **A start takes what is saved**, and saves the default of what is not. -/
theorem boot_spec (store : nvs.Store) (mem : Behind) :
    (boot store mem).settings = (saved store).settings ∧
      saved (boot store mem).store = (saved store).settings.saved := by
  set c₁ := (zero store).restoreEnablePop
  set c₂ := c₁.restoreDeviceName mem
  set c₃ := c₂.restoreRunningTime
  have hboot : boot store mem = c₃.restoreMqttHost mem := rfl
  obtain ⟨hset₁, hsaved₁⟩ := restoreEnablePop_spec (c := zero store) rfl
  have hname : c₁.NameEnds := nameEnds_restoreEnablePop_zero store
  obtain ⟨hset₂, hsaved₂⟩ := restoreDeviceName_spec mem hname
  have htime : c₂.runningTime = 0 := by
    have hkept : c₂.runningTime = c₁.runningTime := congrArg Settings.runningTime hset₂
    exact hkept.trans (congrArg Settings.runningTime hset₁)
  obtain ⟨hset₃, hsaved₃⟩ := restoreRunningTime_spec htime
  obtain ⟨hset₄, hsaved₄⟩ := restoreMqttHost_spec (c := c₃) mem
  constructor
  · rw [hboot, hset₄, hset₃, hsaved₃, hset₂, hsaved₂, hset₁, hsaved₁]
    rfl
  · rw [hboot, hsaved₄, hsaved₃, hsaved₂, hsaved₁]
    rfl

theorem nameEnds_boot (store : nvs.Store) (mem : Behind) : (boot store mem).NameEnds := by
  have hend : ((zero store).restoreEnablePop.restoreDeviceName mem).NameEnds :=
    nameEnds_restoreDeviceName (nameEnds_restoreEnablePop_zero store)
  show (restoreMqttHost (restoreRunningTime _) mem).NameEnds
  rw [NameEnds, restoreMqttHost_deviceName, restoreRunningTime_deviceName]
  exact hend

end Config

end NinaHomekit
