import NinaHomekit.Hap.Notification
import NinaHomekit.Json.Generator

/-!
# `GET /accessories` and the event messages

The parts of `esp_hap_ip_services.c` that write JSON: the attribute database, and what is sent to a
controller about a characteristic that has changed.

* `hapPrepareCharDb`, `hapPrepareServDb`, `hapPrepareAccDb`, `hapPrepareJsonDatabase` — the code,
  with the notes about controllers it resets on the way.
* `eventMessage` — the body of an event, in a buffer of 1024 bytes that nothing flushes.
* `accJson`, `eventJson` — the values.
* `hapPrepareJsonDatabase_eq` — **the chunks of a response make up a text of the database.**
* `eventMessage_eq` — **an event about booleans fits.**
-/

namespace NinaHomekit

open Trace JsonGen State

def hapCharPermHD : UInt16 := 0x20

/-- `type_uuid`, in the short form. -/
def CharUuid.text : CharUuid → CStr
  | .identify => [0x31, 0x34]
  | .manufacturer => [0x32, 0x30]
  | .model => [0x32, 0x31]
  | .name => [0x32, 0x33]
  | .on => [0x32, 0x35]
  | .serialNumber => [0x33, 0x30]
  | .version => [0x33, 0x37]
  | .firmwareRevision => [0x35, 0x32]
  | .hardwareRevision => [0x35, 0x33]

/-- `type_uuid`, in the short form. -/
def ServUuid.text : ServUuid → CStr
  | .accessoryInformation => [0x33, 0x45]
  | .switch => [0x34, 0x39]
  | .protocolInformation => [0x41, 0x32]

/-- `"type"` -/
def keyType : CStr := [0x74, 0x79, 0x70, 0x65]
/-- `"perms"` -/
def keyPerms : CStr := [0x70, 0x65, 0x72, 0x6D, 0x73]
/-- `"format"` -/
def keyFormat : CStr := [0x66, 0x6F, 0x72, 0x6D, 0x61, 0x74]
/-- `"services"` -/
def keyServices : CStr := [0x73, 0x65, 0x72, 0x76, 0x69, 0x63, 0x65, 0x73]
/-- `"accessories"` -/
def keyAccessories : CStr := [0x61, 0x63, 0x63, 0x65, 0x73, 0x73, 0x6F, 0x72, 0x69, 0x65, 0x73]

/-! ## The code -/

/-- `hap_add_char_val_json`. -/
def hapAddCharValJson (g : JsonGen) (key : CStr) (val : HapVal) : JsonGen :=
  match val with
  | .b on => g.jsonGenObjSetBool key on
  | .s (some text) => g.jsonGenObjSetString key text
  | .s none => g.jsonGenObjSetNull key

/-- The permissions, with the names `hap_add_char_perms` writes, in its order. -/
def permNames : List (UInt16 × CStr) :=
  [(hapCharPermPR, [0x70, 0x72]), (hapCharPermPW, [0x70, 0x77]), (hapCharPermEV, [0x65, 0x76]),
    (hapCharPermAA, [0x61, 0x61]), (hapCharPermTW, [0x74, 0x77]), (hapCharPermHD, [0x68, 0x64])]

/-- `hap_add_char_perms`. -/
def hapAddCharPerms (g : JsonGen) (hc : HapChar) : JsonGen :=
  let g := g.jsonGenPushArray keyPerms
  let g := permNames.foldl
    (fun g perm => if hc.hasPermission perm.1 then g.jsonGenArrSetString perm.2 else g) g
  g.jsonGenPopArray

/-- The name `hap_add_char_format_json` writes: `"bool"` or `"string"`. -/
def CharFormat.text : CharFormat → CStr
  | .bool => [0x62, 0x6F, 0x6F, 0x6C]
  | .string => [0x73, 0x74, 0x72, 0x69, 0x6E, 0x67]

/-- What `hap_prepare_char_db` makes of the notes about controllers. -/
def HapChar.afterRead (hc : HapChar) : HapChar :=
  { hc with ownerCtrl := if hc.updateCalled then hc.ownerCtrl else 0, updateCalled := false }

/-- `hap_prepare_char_db`: no characteristic of the firmware has constraints or valid values. -/
def hapPrepareCharDb (g : JsonGen) (index : Nat) (hc : HapChar) : JsonGen :=
  let g := g.jsonGenStartObject
  let g := g.jsonGenObjSetInt keyIid hc.iid
  let g :=
    if hc.hasPermission hapCharPermPR then
      if hc.hasPermission hapCharPermSpecialRead then g.jsonGenObjSetNull keyValue
      else hapAddCharValJson g keyValue hc.val
    else g
  let g := g.jsonGenObjSetString keyType hc.typeUuid.text
  let g := hapAddCharPerms g hc
  let g := g.jsonGenObjSetBool keyEv (hc.isCtrlSubscribed index)
  let g := g.jsonGenObjSetString keyFormat hc.format.text
  g.jsonGenEndObject

/-- What is noted in front of a read for the session `index`. -/
def HapChar.toRead (hc : HapChar) (index : Nat) : HapChar :=
  { hc.setOwnerCtrl index with updateCalled := false }

/-- What `hap_prepare_serv_db` notes before it reads: no service has a read callback. -/
def HapChar.beforeRead (hc : HapChar) (index : Nat) : HapChar :=
  if hc.hasPermission hapCharPermPR then hc.toRead index else hc

/-- `hap_prepare_serv_db`: no service of the firmware is hidden, primary or linked. -/
def hapPrepareServDb (g : JsonGen) (index : Nat) (hs : HapServ) : JsonGen × HapServ :=
  let g := g.jsonGenStartObject
  let g := g.jsonGenObjSetInt keyIid hs.iid
  let g := g.jsonGenObjSetString keyType hs.typeUuid.text
  let g := g.jsonGenPushArray keyCharacteristics
  let chars := hs.chars.map (·.beforeRead index)
  let g := chars.foldl (fun g hc => hapPrepareCharDb g index hc) g
  let g := g.jsonGenPopArray
  (g.jsonGenEndObject, { hs with chars := chars.map (·.afterRead) })

/-- The loop of `hap_prepare_acc_db`. -/
def prepareServs (index : Nat) : JsonGen → List HapServ → JsonGen × List HapServ
  | g, [] => (g, [])
  | g, hs :: rest =>
    let (g, hs) := hapPrepareServDb g index hs
    let (g, rest) := prepareServs index g rest
    (g, hs :: rest)

/-- `hap_prepare_acc_db`. -/
def hapPrepareAccDb (g : JsonGen) (index : Nat) (ha : HapAcc) : JsonGen × HapAcc :=
  let g := g.jsonGenStartObject
  let g := g.jsonGenObjSetInt keyAid ha.aid
  let g := g.jsonGenPushArray keyServices
  let (g, servs) := prepareServs index g ha.servs
  let g := g.jsonGenPopArray
  (g.jsonGenEndObject, { ha with servs := servs })

/-- `hap_prepare_json_database`, for the session `index`, into a buffer of `bufSize` bytes: the
chunks that are sent, and the database it leaves.  Nothing is linked behind the primary accessory. -/
def hapPrepareJsonDatabase (db : HapDb) (bufSize index : Nat) : Except Fault (List CStr × HapDb) := do
  let g := jsonGenStrStart bufSize true
  let g := g.jsonGenStartObject
  let g := g.jsonGenPushArray keyAccessories
  let (g, db) ← match db.primaryAcc with
    | none => pure (g, db)
    | some a =>
      match db.accs[a]? with
      | none => .error .nullDeref
      | some ha =>
        if ha.deleted then .error .freedDeref
        else
          let (g, ha) := hapPrepareAccDb g index ha
          pure (g, { db with accs := db.accs.set a ha })
  let g := g.jsonGenPopArray
  let g := g.jsonGenEndObject
  return (g.jsonGenStrEnd, db)

/-- An object of the array of `hap_send_notification`. -/
def addEventItem (g : JsonGen) (item : EventItem) : JsonGen :=
  let g := g.jsonGenStartObject
  let g := g.jsonGenObjSetInt keyAid item.aid
  let g := g.jsonGenObjSetInt keyIid item.iid
  let g := hapAddCharValJson g keyValue item.value
  g.jsonGenEndObject

/-- The size of `notif_json`. -/
def notifJsonSize : Nat := 1024

/-- What `hap_send_notification` leaves in `notif_json`, of what it sends to one session. -/
def eventMessage (items : List EventItem) : CStr :=
  let g := jsonGenStrStart notifJsonSize false
  let g := g.jsonGenStartObject
  let g := g.jsonGenPushArray keyCharacteristics
  let g := items.foldl addEventItem g
  let g := g.jsonGenPopArray
  g.jsonGenEndObject.buf

/-! ## The values -/

def intJson (val : Int) : JsonVal := .prim (intText val)

/-- The value of a characteristic. -/
def HapVal.json (val : HapVal) : JsonVal :=
  match val with
  | .b on => .prim (boolText on)
  | .s (some text) => .str text
  | .s none => .prim nullText

/-- The member `value` of a characteristic. -/
def HapChar.valueMember (hc : HapChar) : Members :=
  if hc.hasPermission hapCharPermPR then
    [(keyValue, if hc.hasPermission hapCharPermSpecialRead then .prim nullText else hc.val.json)]
  else []

/-- Its permissions, by name. -/
def HapChar.permsJson (hc : HapChar) : JsonVal :=
  .arr ((permNames.filter fun perm => hc.hasPermission perm.1).map (.str ·.2))

/-- A characteristic, as the session `index` sees it. -/
def HapChar.json (index : Nat) (hc : HapChar) : JsonVal :=
  .obj <| [(keyIid, intJson hc.iid)] ++ hc.valueMember ++
    [(keyType, .str hc.typeUuid.text), (keyPerms, hc.permsJson),
      (keyEv, .prim (boolText (hc.isCtrlSubscribed index))), (keyFormat, .str hc.format.text)]

def HapServ.json (index : Nat) (hs : HapServ) : JsonVal :=
  .obj [(keyIid, intJson hs.iid), (keyType, .str hs.typeUuid.text),
    (keyCharacteristics, .arr (hs.chars.map (·.json index)))]

def HapAcc.json (index : Nat) (ha : HapAcc) : JsonVal :=
  .obj [(keyAid, intJson ha.aid), (keyServices, .arr (ha.servs.map (·.json index)))]

/-- The accessories, as a session sees them. -/
def accJson (index : Nat) (has : List HapAcc) : JsonVal :=
  .obj [(keyAccessories, .arr (has.map (·.json index)))]

/-- An object of an event. -/
def EventItem.json (item : EventItem) : JsonVal :=
  .obj [(keyAid, intJson item.aid), (keyIid, intJson item.iid), (keyValue, item.value.json)]

/-- The body of an event. -/
def eventJson (items : List EventItem) : JsonVal :=
  .obj [(keyCharacteristics, .arr (items.map (·.json)))]

/-! ## What is written -/

/-- A value that can be written without escapes. -/
def HapVal.Clean (val : HapVal) : Prop := ∀ text, val = .s (some text) → StrText text

def HapAcc.Clean (ha : HapAcc) : Prop := ∀ hs ∈ ha.servs, ∀ hc ∈ hs.chars, hc.val.Clean

/-- Without a quote and a backslash there is nothing to escape. -/
theorem strText_of_all {text : CStr} (h : ∀ c ∈ text, c ≠ 0 ∧ c ≠ 0x22 ∧ c ≠ 0x5C) :
    StrText text := by
  induction text with
  | nil => exact .nil
  | cons c cs ih =>
    obtain ⟨⟨h0, hq, hb⟩, hcs⟩ := List.forall_mem_cons.1 h
    exact .plain h0 hq hb (ih hcs)

theorem strText_of_decide (text : CStr)
    (h : (text.all fun c => c ≠ 0 ∧ c ≠ 0x22 ∧ c ≠ 0x5C) = true) : StrText text :=
  strText_of_all fun c hc => by simpa using List.all_eq_true.1 h c hc

variable {index : Nat} {hc : HapChar} {hs : HapServ} {ha : HapAcc}

theorem strText_charUuid (uuid : CharUuid) : StrText uuid.text := by
  cases uuid <;> exact strText_of_decide _ (by decide)

theorem strText_servUuid (uuid : ServUuid) : StrText uuid.text := by
  cases uuid <;> exact strText_of_decide _ (by decide)

theorem strText_format (format : CharFormat) : StrText format.text := by
  cases format <;> exact strText_of_decide _ (by decide)

theorem strText_permNames : ∀ perm ∈ permNames, StrText perm.2 := by
  have hall : (permNames.all fun perm =>
      perm.2.all fun c => c ≠ 0 ∧ c ≠ 0x22 ∧ c ≠ 0x5C) = true := by
    decide
  exact fun perm hperm => strText_of_decide _ (List.all_eq_true.1 hall perm hperm)

theorem writesMembers_val {key : CStr} (hkey : StrText key) {val : HapVal} (hval : val.Clean) :
    WritesMembers (hapAddCharValJson · key val) [(key, val.json)] := by
  cases val with
  | b on => exact writesMembers_bool hkey on
  | s text =>
    cases text with
    | none => exact writesMembers_null hkey
    | some text => exact writesMembers_string hkey (hval text rfl)

theorem flatMap_ite_singleton {α β : Type} (p : α → Bool) (f : α → β) (xs : List α) :
    xs.flatMap (fun x => if p x then [f x] else []) = (xs.filter p).map f := by
  induction xs with
  | nil => rfl
  | cons x xs ih => cases h : p x <;> simp [h, ih]

theorem writesMembers_perms (hc : HapChar) :
    WritesMembers (hapAddCharPerms · hc) [(keyPerms, hc.permsJson)] := by
  have hloop := WritesElems.foldl
    (f := fun g perm => if hc.hasPermission perm.1 then g.jsonGenArrSetString perm.2 else g)
    (v := fun perm => if hc.hasPermission perm.1 then [.str perm.2] else [])
    fun perm (hperm : perm ∈ permNames) => by
      by_cases hhas : hc.hasPermission perm.1 = true
      · simpa only [hhas, if_true] using writesElems_string (strText_permNames perm hperm)
      · simpa only [hhas, Bool.false_eq_true, if_false] using WritesElems.nil
  rw [flatMap_ite_singleton] at hloop
  exact hloop.array (strText_of_decide _ (by decide))

theorem writesMembers_value (hval : hc.val.Clean) :
    WritesMembers
      (fun g => if hc.hasPermission hapCharPermPR then
          if hc.hasPermission hapCharPermSpecialRead then g.jsonGenObjSetNull keyValue
          else hapAddCharValJson g keyValue hc.val
        else g) hc.valueMember := by
  have hkey : StrText keyValue := strText_of_decide _ (by decide)
  unfold HapChar.valueMember
  by_cases hread : hc.hasPermission hapCharPermPR = true
  · by_cases hspecial : hc.hasPermission hapCharPermSpecialRead = true
    · simpa only [hread, hspecial, if_true] using writesMembers_null hkey
    · simpa only [hread, hspecial, if_true, Bool.false_eq_true, if_false]
        using writesMembers_val hkey hval
  · simpa only [hread, Bool.false_eq_true, if_false] using WritesMembers.nil

theorem writesElems_char (index : Nat) (hval : hc.val.Clean) :
    WritesElems (hapPrepareCharDb · index hc) [hc.json index] := by
  have hiid := writesMembers_int (strText_of_decide keyIid (by decide)) hc.iid
  have htype := writesMembers_string (strText_of_decide keyType (by decide))
    (strText_charUuid hc.typeUuid)
  have hev := writesMembers_bool (strText_of_decide keyEv (by decide))
    (hc.isCtrlSubscribed index)
  have hformat := writesMembers_string (strText_of_decide keyFormat (by decide))
    (strText_format hc.format)
  have hobj := (((((hiid.append (writesMembers_value hval)).append htype).append
    (writesMembers_perms hc)).append hev).append hformat).object
  simp only [List.append_assoc, List.cons_append, List.nil_append] at hobj
  simp only [HapChar.json, List.cons_append, List.nil_append]
  exact hobj

/-- Who reads does not show in what is read. -/
theorem json_beforeRead (hc : HapChar) : (hc.beforeRead index).json index = hc.json index := by
  unfold HapChar.beforeRead
  split <;> rfl

theorem val_beforeRead (index : Nat) (hc : HapChar) : (hc.beforeRead index).val = hc.val := by
  unfold HapChar.beforeRead
  split <;> rfl

theorem writesElems_serv (index : Nat) (hclean : ∀ hc ∈ hs.chars, hc.val.Clean) :
    WritesElems (fun g => (hapPrepareServDb g index hs).1) [hs.json index] := by
  have hiid := writesMembers_int (strText_of_decide keyIid (by decide)) hs.iid
  have htype := writesMembers_string (strText_of_decide keyType (by decide))
    (strText_servUuid hs.typeUuid)
  have hchars := WritesElems.foldl (f := fun g hc => hapPrepareCharDb g index hc)
    (v := fun hc => [hc.json index]) fun hc (hmem : hc ∈ hs.chars.map (·.beforeRead index)) => by
      obtain ⟨c, hc', rfl⟩ := List.mem_map.1 hmem
      exact writesElems_char index (val_beforeRead index c ▸ hclean c hc')
  have hobj := ((hiid.append htype).append
    (hchars.array (strText_of_decide keyCharacteristics (by decide)))).object
  have hjson : (hs.chars.map (·.beforeRead index)).flatMap (fun hc => [hc.json index]) =
      hs.chars.map (·.json index) := by
    simp only [List.flatMap_map, json_beforeRead, ← List.map_eq_flatMap]
  rw [hjson] at hobj
  exact hobj

/-- Induction on the services. -/
theorem writesElems_servs (index : Nat) {servs : List HapServ}
    (hclean : ∀ hs ∈ servs, ∀ hc ∈ hs.chars, hc.val.Clean) :
    WritesElems (fun g => (prepareServs index g servs).1) (servs.map (·.json index)) := by
  induction servs with
  | nil => exact .nil
  | cons hs servs ih =>
    obtain ⟨hserv, hservs⟩ := List.forall_mem_cons.1 hclean
    exact (writesElems_serv index hserv).append (ih hservs)

theorem writesElems_acc (index : Nat) (hclean : ha.Clean) :
    WritesElems (fun g => (hapPrepareAccDb g index ha).1) [ha.json index] := by
  have haid := writesMembers_int (strText_of_decide keyAid (by decide)) ha.aid
  exact (haid.append ((writesElems_servs index hclean).array
    (strText_of_decide keyServices (by decide)))).object

/-! ## The response -/

/-- The characteristics, as they are left. -/
def HapServ.afterGet (index : Nat) (hs : HapServ) : HapServ :=
  { hs with chars := hs.chars.map fun hc => (hc.beforeRead index).afterRead }

theorem snd_prepareServs (g : JsonGen) (index : Nat) (servs : List HapServ) :
    (prepareServs index g servs).2 = servs.map (·.afterGet index) := by
  induction servs generalizing g with
  | nil => rfl
  | cons hs servs ih => simp [prepareServs, ih, hapPrepareServDb, HapServ.afterGet]

def HapAcc.afterGet (index : Nat) (ha : HapAcc) : HapAcc :=
  { ha with servs := ha.servs.map (·.afterGet index) }

theorem snd_hapPrepareAccDb (g : JsonGen) (index : Nat) (ha : HapAcc) :
    (hapPrepareAccDb g index ha).2 = ha.afterGet index := by
  simp only [hapPrepareAccDb, snd_prepareServs, HapAcc.afterGet]

/-- The accessories that are served. -/
def HapDb.served (db : HapDb) : List HapAcc := (db.primaryAcc.bind (db.accs[·]?)).toList

/-- The database, as it is left. -/
def HapDb.afterGet (db : HapDb) (index : Nat) : HapDb :=
  match db.primaryAcc with
  | none => db
  | some a => { db with accs := db.accs.modify a (·.afterGet index) }

variable {db : HapDb} {bufSize : Nat}

theorem set_afterGet {a : AccPtr} (h : db.accs[a]? = some ha) (index : Nat) :
    db.accs.set a (ha.afterGet index) = db.accs.modify a (·.afterGet index) := by
  rw [List.modify_eq_set_getElem?, h]
  rfl

theorem hapPrepareJsonDatabase_none (hprimary : db.primaryAcc = none) (bufSize index : Nat) :
    hapPrepareJsonDatabase db bufSize index = .ok
      (((jsonGenStrStart bufSize true).jsonGenStartObject.jsonGenPushArray
        keyAccessories).jsonGenPopArray.jsonGenEndObject.jsonGenStrEnd, db.afterGet index) := by
  simp only [hapPrepareJsonDatabase, HapDb.afterGet, hprimary, pure_bind]
  rfl

theorem hapPrepareJsonDatabase_some {a : AccPtr} (hprimary : db.primaryAcc = some a)
    (hget : db.accs[a]? = some ha) (hlive : ha.deleted = false) (bufSize index : Nat) :
    hapPrepareJsonDatabase db bufSize index = .ok
      ((hapPrepareAccDb ((jsonGenStrStart bufSize true).jsonGenStartObject.jsonGenPushArray
        keyAccessories) index ha).1.jsonGenPopArray.jsonGenEndObject.jsonGenStrEnd,
      db.afterGet index) := by
  simp only [hapPrepareJsonDatabase, HapDb.afterGet, hprimary, hget, hlive, Bool.false_eq_true,
    if_false, pure_bind, snd_hapPrepareAccDb, set_afterGet hget]
  rfl

/-- **The chunks of a response make up a text of the database**, and none of them is empty, which
would end the response. -/
theorem hapPrepareJsonDatabase_eq (index : Nat) (hsize : 2 ≤ bufSize)
    (hserved : ∀ a, db.primaryAcc = some a →
      ∃ ha, db.accs[a]? = some ha ∧ ha.deleted = false ∧ ha.Clean) :
    ∃ chunks, hapPrepareJsonDatabase db bufSize index = .ok (chunks, db.afterGet index) ∧
      Text (.val (accJson index db.served)) chunks.flatten ∧
      ∀ c ∈ chunks, c ≠ [] ∧ c.length < bufSize := by
  have hkey : StrText keyAccessories := strText_of_decide _ (by decide)
  unfold HapDb.served accJson
  cases hprimary : db.primaryAcc with
  | none =>
    obtain ⟨chunks, hchunks, htext, hall⟩ := (WritesElems.nil.array hkey).chunks hsize
    refine ⟨chunks, ?_, htext, hall⟩
    rw [hapPrepareJsonDatabase_none hprimary, ← hchunks]
  | some a =>
    obtain ⟨ha, hget, hlive, hclean⟩ := hserved a hprimary
    obtain ⟨chunks, hchunks, htext, hall⟩ :=
      ((writesElems_acc index hclean).array hkey).chunks hsize
    refine ⟨chunks, ?_, by simpa [hget] using htext, hall⟩
    rw [hapPrepareJsonDatabase_some hprimary hget hlive, ← hchunks]

/-- The handler leaves `afterGet` if the primary accessory is there, and fails if it is not. -/
theorem hapPrepareJsonDatabase_cases (db : HapDb) (bufSize index : Nat) :
    (∃ chunks, hapPrepareJsonDatabase db bufSize index = .ok (chunks, db.afterGet index)) ∧
        (∀ a, db.primaryAcc = some a → ∃ ha, db.accs[a]? = some ha ∧ ha.deleted = false) ∨
      ∃ fault, hapPrepareJsonDatabase db bufSize index = .error fault := by
  cases hprimary : db.primaryAcc with
  | none =>
    exact Or.inl ⟨⟨_, hapPrepareJsonDatabase_none hprimary bufSize index⟩, fun a h => by cases h⟩
  | some a =>
    cases hget : db.accs[a]? with
    | none =>
      refine Or.inr ⟨.nullDeref, ?_⟩
      simp only [hapPrepareJsonDatabase, hprimary, hget, error_bind]
    | some ha =>
      cases hdel : ha.deleted with
      | false =>
        refine Or.inl ⟨⟨_, hapPrepareJsonDatabase_some hprimary hget hdel bufSize index⟩, ?_⟩
        intro a' ha'
        obtain rfl := Option.some.inj ha'
        exact ⟨ha, hget, hdel⟩
      | true =>
        refine Or.inr ⟨.freedDeref, ?_⟩
        simp only [hapPrepareJsonDatabase, hprimary, hget, hdel, if_true, error_bind]

theorem sameCore_afterGet (db : HapDb) (index : Nat) : SameCore db (db.afterGet index) := by
  have hchar : ∀ hc : HapChar, (hc.beforeRead index).afterRead.core = hc.core := by
    intro hc
    unfold HapChar.beforeRead
    split <;> rfl
  unfold HapDb.afterGet
  split
  · exact SameCore.refl _
  · refine ⟨map_modify_of_eq fun ha => ?_, rfl⟩
    simp [HapAcc.core, HapServ.core, HapAcc.afterGet, HapServ.afterGet, Function.comp_def, hchar]

/-- What was read belongs to nobody. -/
theorem ownerCtrl_afterGet (db : HapDb) (index : Nat) : ∀ ha ∈ (db.afterGet index).served,
    ∀ hs ∈ ha.servs, ∀ hc ∈ hs.chars, hc.hasPermission hapCharPermPR → hc.ownerCtrl = 0 := by
  intro ha hha hs hhs hc hhc hread
  unfold HapDb.served HapDb.afterGet at hha
  cases hprimary : db.primaryAcc with
  | none => simp [hprimary] at hha
  | some a =>
    simp only [hprimary, Option.bind_some, List.getElem?_modify_eq, Option.mem_toList,
      Option.map_eq_map, Option.map_eq_some_iff] at hha
    obtain ⟨ha, -, rfl⟩ := hha
    obtain ⟨hs, -, rfl⟩ := List.mem_map.1 hhs
    obtain ⟨hc, -, rfl⟩ := List.mem_map.1 hhc
    by_cases hpr : hc.hasPermission hapCharPermPR = true
    · simp [HapChar.beforeRead, hpr, HapChar.afterRead, HapChar.toRead]
    · rw [HapChar.beforeRead, if_neg hpr] at hread
      exact absurd hread hpr

/-! ## The events -/

theorem writesElems_item {item : EventItem} (hval : item.value.Clean) :
    WritesElems (addEventItem · item) [item.json] := by
  have haid := writesMembers_int (strText_of_decide keyAid (by decide)) item.aid
  have hiid := writesMembers_int (strText_of_decide keyIid (by decide)) item.iid
  exact ((haid.append hiid).append
    (writesMembers_val (strText_of_decide keyValue (by decide)) hval)).object

/-- An object about a boolean is short: the ids are C integers. -/
theorem puts_item {item : EventItem} {on : Bool} (hval : item.value = .b on)
    (haid : item.aid < 10 ^ 10) (hiid : item.iid < 10 ^ 10) : Puts (addEventItem · item) 51 := by
  have hlen : ∀ n < 10 ^ 10, (intText (n : Nat)).length ≤ 10 := fun n hn => by
    rw [intText, if_neg (by omega), Warehouse.intStr, List.length_map, Int.natAbs_natCast]
    exact (Nat.length_toDigits_le_iff (by decide) (by decide)).2 hn
  have hputs := (((puts_startObject.comp (puts_int keyAid item.aid)).comp
    (puts_int keyIid item.iid)).comp (puts_bool keyValue on)).comp puts_endObject
  intro g hg
  obtain ⟨s, x, hs, hf⟩ := hputs g hg
  refine ⟨s, x, ?_, ?_⟩
  · have := hlen _ haid
    have := hlen _ hiid
    simp only [keyAid, keyIid, keyValue, List.length_cons, List.length_nil] at hs
    omega
  · simpa only [addEventItem, hapAddCharValJson, hval] using hf

/-- **An event about booleans is complete**: it fits the array it is written to. -/
theorem eventMessage_eq {items : List EventItem} (hnum : items.length ≤ hapMaxNotifChars)
    (hitems : ∀ item ∈ items, (∃ on, item.value = .b on) ∧ item.aid < 10 ^ 10 ∧
      item.iid < 10 ^ 10) : Text (.val (eventJson items)) (eventMessage items) := by
  have hclean : ∀ item ∈ items, item.value.Clean := by
    intro item hitem text htext
    obtain ⟨⟨on, hon⟩, -⟩ := hitems item hitem
    rw [hon] at htext
    cases htext
  have hwrites := WritesElems.foldl fun item hitem => writesElems_item (hclean item hitem)
  rw [← List.map_eq_flatMap] at hwrites
  have hkey : StrText keyCharacteristics := strText_of_decide _ (by decide)
  have hputs := (((puts_startObject.comp (puts_pushArray keyCharacteristics)).comp
    (Puts.foldl fun item hitem => by
      obtain ⟨⟨on, hon⟩, haid, hiid⟩ := hitems item hitem
      exact puts_item hon haid hiid)).comp puts_popArray).comp puts_endObject
  refine (hwrites.array hkey).message hputs ?_
  simp only [hapMaxNotifChars, keyCharacteristics, List.length_cons, List.length_nil,
    notifJsonSize] at hnum ⊢
  omega

end NinaHomekit
