import NinaHomekit.Definitions

/-!
# The accessory database

The part of `esp_hap_core` the firmware builds its accessory with: `esp_hap_char.c`,
`esp_hap_serv.c` and `esp_hap_acc.c`.

* `HapChar`, `HapServ`, `HapAcc` — the objects.  A list stands for each `next` chain.
* `HapDb` — every accessory ever created, with the mark `hap_acc_delete` leaves, and
  `primary_acc`.  An accessory is named by its place in the list, a service or a
  characteristic by its place below its accessory, so a pointer outlives its object.
* `hapAccCreate`, `hapAccAddServ`, `HapDb.addAccessory`, `HapDb.accDelete`, … — the code.
* `HapAcc.Numbered` — instance ids are handed out without a gap; `Numbered.nodup` says
  that no two objects of an accessory share one.
-/

namespace NinaHomekit

/-! ## Characteristics -/

/-- The characteristic types the firmware uses; the source has their short UUIDs. -/
inductive CharUuid where
  /-- `"14"` -/
  | identify
  /-- `"20"` -/
  | manufacturer
  /-- `"21"` -/
  | model
  /-- `"23"` -/
  | name
  /-- `"25"` -/
  | on
  /-- `"30"` -/
  | serialNumber
  /-- `"37"` -/
  | version
  /-- `"52"` -/
  | firmwareRevision
  /-- `"53"` -/
  | hardwareRevision
  deriving DecidableEq, Repr

def hapCharPermPR : UInt16 := 0x01
def hapCharPermPW : UInt16 := 0x02
def hapCharPermEV : UInt16 := 0x04
def hapCharPermAA : UInt16 := 0x08
def hapCharPermTW : UInt16 := 0x10
def hapCharPermSpecialRead : UInt16 := 0x40

/-- `hap_char_format_t`, as far as the firmware creates characteristics of it. -/
inductive CharFormat where
  | bool
  | string
  deriving DecidableEq, Repr

/-- `hap_val_t`, tagged with the member that is in use. -/
inductive HapVal where
  | b (b : Bool)
  | s (s : Option CStr)
  deriving DecidableEq, Repr

/-- `__hap_char_t`.  The firmware sets no value constraints. -/
structure HapChar where
  iid : Nat
  typeUuid : CharUuid
  permission : UInt16
  val : HapVal
  evCtrls : UInt16
  ownerCtrl : UInt16
  updateCalled : Bool
  deriving DecidableEq, Repr

/-- `format`, which is that of the value. -/
def HapChar.format (hc : HapChar) : CharFormat :=
  match hc.val with
  | .b _ => .bool
  | .s _ => .string

/-- `hap_char_has_permission`. -/
def HapChar.hasPermission (hc : HapChar) (permission : UInt16) : Bool :=
  hc.permission &&& permission != 0

/-- `HAP_CHAR_STRING_MAX_LEN`. -/
def hapCharStringMaxLen : Nat := 256

/-- `hap_char_create`: no characteristic for a string that is too long. -/
def hapCharCreate (typeUuid : CharUuid) (permission : UInt16) (val : HapVal) : Option HapChar :=
  let newCh : HapChar := ⟨0, typeUuid, permission, val, 0, 0, false⟩
  match val with
  | .s (some s) => if s.length > hapCharStringMaxLen then none else some newCh
  | _ => some newCh

def hapCharBoolCreate (typeUuid : CharUuid) (perms : UInt16) (b : Bool) : Option HapChar :=
  hapCharCreate typeUuid perms (.b b)

def hapCharStringCreate (typeUuid : CharUuid) (perms : UInt16) (s : Option CStr) :
    Option HapChar :=
  hapCharCreate typeUuid perms (.s s)

/-- `hap_char_on_create`. -/
def hapCharOnCreate (on : Bool) : Option HapChar :=
  hapCharBoolCreate .on (hapCharPermPR ||| hapCharPermPW ||| hapCharPermEV) on

/-- `hap_char_name_create`. -/
def hapCharNameCreate (name : Option CStr) : Option HapChar :=
  hapCharStringCreate .name hapCharPermPR name

/-- `set_bit` and `reset_bit` of `ev_ctrls`: `hap_char_manage_notification`. -/
def HapChar.manageNotification (hc : HapChar) (index : Nat) (ev : Bool) : HapChar :=
  let bit := UInt16.ofNat (1 <<< index)
  { hc with evCtrls := if ev then hc.evCtrls ||| bit else hc.evCtrls &&& ~~~bit }

/-- `hap_char_set_owner_ctrl`. -/
def HapChar.setOwnerCtrl (hc : HapChar) (index : Nat) : HapChar :=
  { hc with ownerCtrl := UInt16.ofNat (1 <<< index) }

/-! ## Services -/

/-- The service types the firmware uses. -/
inductive ServUuid where
  /-- `"3E"` -/
  | accessoryInformation
  /-- `"49"` -/
  | switch
  /-- `"A2"` -/
  | protocolInformation
  deriving DecidableEq, Repr

/-- `__hap_serv_t`; `writeCb` says whether a write callback is set. -/
structure HapServ where
  iid : Nat
  typeUuid : ServUuid
  chars : List HapChar
  writeCb : Bool
  deriving DecidableEq, Repr

/-- `hap_serv_create`. -/
def hapServCreate (typeUuid : ServUuid) : HapServ := ⟨0, typeUuid, [], false⟩

/-- `hap_serv_add_char`: the service, and whether 0 is returned. -/
def hapServAddChar (hs : HapServ) : Option HapChar → HapServ × Bool
  | none => (hs, false)
  | some hc => ({ hs with chars := hs.chars ++ [hc] }, true)

/-- Several calls of `hap_serv_add_char` with their results joined by `|`. -/
def hapServAddChars (hs : HapServ) : List (Option HapChar) → HapServ × Bool
  | [] => (hs, true)
  | hc :: hcs =>
    let (hs, ok) := hapServAddChar hs hc
    let (hs, ok') := hapServAddChars hs hcs
    (hs, ok && ok')

/-- `hap_serv_set_write_cb`. -/
def hapServSetWriteCb (hs : HapServ) : HapServ := { hs with writeCb := true }

/-- `hap_serv_get_char_by_uuid`: the place of the first such characteristic. -/
def hapServGetCharByUuid (hs : HapServ) (uuid : CharUuid) : Option Nat :=
  hs.chars.findIdx? (·.typeUuid = uuid)

/-- `hap_serv_get_char_by_iid`. -/
def hapServGetCharByIid (hs : HapServ) (iid : Int) : Option Nat :=
  hs.chars.findIdx? fun hc => (hc.iid : Int) = iid

/-- `hap_serv_switch_create`. -/
def hapServSwitchCreate (on : Bool) : Option HapServ :=
  let (hs, ok) := hapServAddChar (hapServCreate .switch) (hapCharOnCreate on)
  if ok then some hs else none

/-! ## Accessories -/

/-- `__hap_acc_t`, with the mark that it was deleted. -/
structure HapAcc where
  aid : Nat
  servs : List HapServ
  nextIid : Nat
  deleted : Bool
  deriving DecidableEq, Repr

/-- `hap_acc_cfg_t`. -/
structure HapAccCfg where
  name : CStr
  model : CStr
  manufacturer : CStr
  serialNum : CStr
  fwRev : CStr
  hwRev : Option CStr

/-- The loop of `hap_acc_add_serv` that hands out instance ids. -/
def numberChars (nextIid : Nat) : List HapChar → List HapChar
  | [] => []
  | hc :: hcs => { hc with iid := nextIid } :: numberChars (nextIid + 1) hcs

/-- `hap_acc_add_serv`. -/
def hapAccAddServ (ha : HapAcc) (hs : HapServ) : HapAcc :=
  { ha with
    servs := ha.servs ++
      [{ hs with iid := ha.nextIid, chars := numberChars (ha.nextIid + 1) hs.chars }]
    nextIid := ha.nextIid + 1 + hs.chars.length }

/-- `"1.1.0"`. -/
def pv : CStr := [0x31, 0x2E, 0x31, 0x2E, 0x30]

/-- The accessory information service `hap_acc_create` makes, and whether every
characteristic was added. -/
def accInfoServ (cfg : HapAccCfg) : HapServ × Bool :=
  hapServAddChars (hapServCreate .accessoryInformation) <|
    [hapCharBoolCreate .identify hapCharPermPW false,
      hapCharStringCreate .manufacturer hapCharPermPR (some cfg.manufacturer),
      hapCharStringCreate .model hapCharPermPR (some cfg.model),
      hapCharStringCreate .name hapCharPermPR (some cfg.name),
      hapCharStringCreate .serialNumber hapCharPermPR (some cfg.serialNum),
      hapCharStringCreate .firmwareRevision hapCharPermPR (some cfg.fwRev)] ++
    match cfg.hwRev with
    | some hwRev => [hapCharStringCreate .hardwareRevision hapCharPermPR (some hwRev)]
    | none => []

/-- The protocol information service `hap_acc_create` makes. -/
def protocolInfoServ : HapServ × Bool :=
  hapServAddChar (hapServCreate .protocolInformation)
    (hapCharStringCreate .version hapCharPermPR (some pv))

/-- `hap_acc_create`. -/
def hapAccCreate (cfg : HapAccCfg) : Option HapAcc :=
  if (accInfoServ cfg).2 then
    let ha := hapAccAddServ ⟨0, [], 1, false⟩ (hapServSetWriteCb (accInfoServ cfg).1)
    if protocolInfoServ.2 then some (hapAccAddServ ha protocolInfoServ.1) else none
  else none

/-! ## The database -/

/-- A pointer to an accessory. -/
abbrev AccPtr := Nat

/-- A pointer to a service. -/
structure ServPtr where
  acc : AccPtr
  serv : Nat
  deriving DecidableEq, Repr

/-- A pointer to a characteristic. -/
structure CharPtr where
  acc : AccPtr
  serv : Nat
  char : Nat
  deriving DecidableEq, Repr

/-- `hap_char_get_parent`. -/
def CharPtr.parent (hc : CharPtr) : ServPtr := ⟨hc.acc, hc.serv⟩

/-- The accessories, `primary_acc` and `hap_event_queue`. -/
structure HapDb where
  accs : List HapAcc
  primaryAcc : Option AccPtr
  eventQueue : List CharPtr
  deriving DecidableEq, Repr

/-- `HAP_MAX_NOTIF_CHARS`. -/
def hapMaxNotifChars : Nat := 8

namespace HapDb

/-- The database before anything is created. -/
def init : HapDb := ⟨[], none, []⟩

/-- The characteristic a pointer points to. -/
def char? (db : HapDb) (hc : CharPtr) : Option HapChar := do
  let ha ← db.accs[hc.acc]?
  let hs ← ha.servs[hc.serv]?
  hs.chars[hc.char]?

/-- The service a pointer points to. -/
def serv? (db : HapDb) (hs : ServPtr) : Option HapServ := do
  let ha ← db.accs[hs.acc]?
  ha.servs[hs.serv]?

/-- Write to the characteristic a pointer points to. -/
def modifyChar (db : HapDb) (hc : CharPtr) (f : HapChar → HapChar) : HapDb :=
  { db with accs := db.accs.modify hc.acc fun ha =>
      { ha with servs := ha.servs.modify hc.serv fun hs =>
          { hs with chars := hs.chars.modify hc.char f } } }

/-- `hap_acc_add_serv`, on the accessory a pointer points to. -/
def addServ (db : HapDb) (ha : AccPtr) (hs : HapServ) : HapDb :=
  { db with accs := db.accs.modify ha (hapAccAddServ · hs) }

/-- `hap_add_accessory`. -/
def addAccessory (db : HapDb) : Option AccPtr → HapDb
  | none => db
  | some ha =>
    { db with accs := db.accs.modify ha fun acc => { acc with aid := 1 }, primaryAcc := some ha }

/-- `hap_acc_delete`: the object keeps its place and is marked. -/
def accDelete (db : HapDb) : Option AccPtr → HapDb
  | none => db
  | some ha => { db with accs := db.accs.modify ha fun acc => { acc with deleted := true } }

/-- `hap_count_accessories`: nothing is ever linked behind the primary accessory. -/
def countAccessories (db : HapDb) : Nat := if db.primaryAcc.isSome then 1 else 0

/-- The primary accessory was deleted: who walks the accessories, which start with it, reads freed
memory. -/
def primaryDeleted (db : HapDb) : Bool := db.primaryAcc.any fun a => db.accs[a]?.any (·.deleted)

/-- `hap_acc_get_by_aid`, while the primary accessory is there. -/
def accGetByAid (db : HapDb) (aid : Int) : Option AccPtr :=
  db.primaryAcc.filter fun ha => db.accs[ha]?.any fun acc => (acc.aid : Int) = aid

/-- The loop over the services in `hap_acc_get_char_by_iid`, from the `i`th on. -/
def findCharByIid (ha : AccPtr) (iid : Int) : Nat → List HapServ → Option CharPtr
  | _, [] => none
  | i, hs :: rest =>
    match hapServGetCharByIid hs iid with
    | some c => some ⟨ha, i, c⟩
    | none => findCharByIid ha iid (i + 1) rest

/-- `hap_acc_get_char_by_iid`. -/
def accGetCharByIid (db : HapDb) (ha : Option AccPtr) (iid : Int) : Option CharPtr := do
  let ha ← ha
  let acc ← db.accs[ha]?
  findCharByIid ha iid 0 acc.servs

/-- `hap_queue_event`: dropped when the queue is full. -/
def queueEvent (db : HapDb) (hc : CharPtr) : HapDb :=
  if db.eventQueue.length < hapMaxNotifChars then
    { db with eventQueue := db.eventQueue ++ [hc] }
  else db

/-- `hap_char_update_val`, with a value of the characteristic's own format. -/
def charUpdateVal (db : HapDb) (hc : Option CharPtr) (val : HapVal) : HapDb :=
  match hc with
  | none => db
  | some p =>
    match db.char? p with
    | none => db
    | some c =>
      let valueChanged := c.val ≠ val
      if valueChanged ∨ c.hasPermission hapCharPermSpecialRead then
        (db.modifyChar p fun c => { c with val := val, updateCalled := true }).queueEvent p
      else
        db.modifyChar p fun c => { c with ownerCtrl := 0, updateCalled := true }

end HapDb

end NinaHomekit
